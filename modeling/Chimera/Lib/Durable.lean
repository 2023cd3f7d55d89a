import Mathlib.Logic.Function.Basic
import Mathlib.Data.Set.Basic

/-! A directory that a crash can set back. What a file holds is on the disk once the file
is synced, and a change of a name once the directory is; until then a crash may keep or
lose each change on its own, and leave anything in a file. -/

namespace Chimera.Lib.Durable

universe u v

variable {Name : Type u} {Byte : Type v}

/-- A change of the directory, with the file that a name is given. A rename is one change. -/
inductive Change (Name : Type u) where
  | put (name : Name) (file : Nat)
  | erase (name : Name)
  | move (source target : Name) (file : Nat)

structure File (Byte : Type v) where
  bytes : List Byte
  synced : Bool

/-- `stored` are the entries on the disk, `pending` the changes since, the first one first.
Files from `next` on are not yet in use. -/
structure Disk (Name : Type u) (Byte : Type v) where
  stored : Name → Option Nat
  pending : List (Change Name)
  files : Nat → File Byte
  next : Nat

variable {d d' : Disk Name Byte} {name target other : Name} {file : Nat} {bytes : List Byte}
  {c : Change Name} {names : Set Name} {P : Name → List Byte → Prop}

/-! ## Files -/

def Disk.change (d : Disk Name Byte) (c : Change Name) : Disk Name Byte :=
  { d with pending := d.pending ++ [c] }

/-- A new file under a name. -/
def Disk.create (d : Disk Name Byte) (name : Name) : Disk Name Byte :=
  { d.change (.put name d.next) with
    files := Function.update d.files d.next ⟨[], false⟩
    next := d.next + 1 }

def Disk.write (d : Disk Name Byte) (file : Nat) (bytes : List Byte) : Disk Name Byte :=
  { d with files := Function.update d.files file ⟨bytes, false⟩ }

def Disk.sync (d : Disk Name Byte) (file : Nat) : Disk Name Byte :=
  { d with files := Function.update d.files file ⟨(d.files file).bytes, true⟩ }

/-- The change gives the name this file. -/
def Change.Puts (name : Name) (file : Nat) : Change Name → Prop
  | .put target f | .move _ target f => target = name ∧ f = file
  | .erase _ => False

/-- The name may have the file, now or after a crash. -/
def Disk.Holds (d : Disk Name Byte) (name : Name) (file : Nat) : Prop :=
  d.stored name = some file ∨ ∃ c ∈ d.pending, c.Puts name file

/-- Files that no name may have are not in use. -/
def Disk.Fresh (d : Disk Name Byte) : Prop := ∀ name file, d.Holds name file → file < d.next

/-- Every file that one of the names may have is on the disk, with bytes that it may have. -/
def Disk.Whole (d : Disk Name Byte) (names : Set Name) (P : Name → List Byte → Prop) : Prop :=
  ∀ name ∈ names, ∀ file, d.Holds name file →
    (d.files file).synced = true ∧ P name (d.files file).bytes

theorem Disk.holds_change (h : (d.change c).Holds name file) :
    d.Holds name file ∨ c.Puts name file := by
  obtain h | ⟨c', hc', hputs⟩ := h
  · exact .inl (.inl h)
  · obtain hc' | hc' := List.mem_append.1 hc'
    · exact .inl (.inr ⟨c', hc', hputs⟩)
    · rw [List.mem_singleton.1 hc'] at hputs
      exact .inr hputs

theorem Disk.holds_create (h : (d.create name).Holds other file) :
    d.Holds other file ∨ (other = name ∧ file = d.next) := by
  have hchange : (d.change (.put name d.next)).Holds other file := h
  exact (holds_change hchange).imp_right fun hputs => ⟨hputs.1.symm, hputs.2.symm⟩

theorem Disk.Fresh.change (h : d.Fresh) (hc : ∀ name file, c.Puts name file → file < d.next) :
    (d.change c).Fresh := fun name file hholds =>
  (holds_change hholds).elim (h name file) (hc name file)

theorem Disk.Fresh.create (h : d.Fresh) : (d.create name).Fresh := by
  intro other file hholds
  obtain hholds | ⟨-, rfl⟩ := holds_create hholds
  · exact (h other file hholds).trans (Nat.lt_succ_self _)
  · exact Nat.lt_succ_self _

theorem Disk.Whole.create (h : d.Whole names P) (hfresh : d.Fresh) (hname : name ∉ names) :
    (d.create name).Whole names P := by
  intro other hother file hholds
  obtain hholds | ⟨rfl, -⟩ := holds_create hholds
  · have hne : file ≠ d.next := (hfresh other file hholds).ne
    simpa [Disk.create, hne] using h other hother file hholds
  · exact absurd hother hname

/-- A file that none of the names may have can be written. -/
theorem Disk.Whole.write (h : d.Whole names P) (hfree : ∀ name ∈ names, ¬ d.Holds name file) :
    (d.write file bytes).Whole names P := by
  intro other hother f hholds
  have hne : f ≠ file := by
    rintro rfl
    exact hfree other hother hholds
  simpa [Disk.write, hne] using h other hother f hholds

theorem Disk.Whole.sync (h : d.Whole names P) : (d.sync file).Whole names P := by
  intro other hother f hholds
  have hf := h other hother f hholds
  obtain rfl | hne := eq_or_ne f file
  · simpa [Disk.sync] using hf.2
  · simpa [Disk.sync, hne] using hf

/-- A name is given a file that is whole. -/
theorem Disk.Whole.change (h : d.Whole names P) (hc : ∀ name ∈ names, ∀ file, c.Puts name file →
    (d.files file).synced = true ∧ P name (d.files file).bytes) : (d.change c).Whole names P :=
  fun other hother f hholds =>
    (holds_change hholds).elim (h other hother f) (hc other hother f)

theorem Disk.Whole.mono {P' : Name → List Byte → Prop} (h : d.Whole names P)
    (hP : ∀ name ∈ names, ∀ bytes, P name bytes → P' name bytes) : d.Whole names P' :=
  fun name hname file hholds => (h name hname file hholds).imp_right (hP name hname _)

/-- The change may leave the name without a file. -/
def Change.Erases (name : Name) : Change Name → Prop
  | .erase target => target = name
  | .move source target _ => source = name ∧ target ≠ name
  | .put _ _ => False

/-- No crash leaves the name without a file. -/
def Disk.Stays (d : Disk Name Byte) (name : Name) : Prop :=
  (d.stored name).isSome = true ∧ ∀ c ∈ d.pending, ¬ c.Erases name

theorem Disk.Stays.change (h : d.Stays name) (hc : ¬ c.Erases name) :
    (d.change c).Stays name := by
  refine ⟨h.1, fun c' hc' => ?_⟩
  obtain hc' | hc' := List.mem_append.1 hc'
  · exact h.2 c' hc'
  · rw [List.mem_singleton.1 hc']
    exact hc

/-! ## Entries -/

variable [DecidableEq Name]

def Change.apply (entries : Name → Option Nat) : Change Name → Name → Option Nat
  | .put name file => Function.update entries name (some file)
  | .erase name => Function.update entries name none
  | .move source target file =>
    Function.update (Function.update entries source none) target (some file)

/-- The entries as everybody sees them. -/
def Disk.entries (d : Disk Name Byte) : Name → Option Nat := d.pending.foldl Change.apply d.stored

def Disk.syncDir (d : Disk Name Byte) : Disk Name Byte :=
  { d with stored := d.entries, pending := [] }

/-- What a name is seen to hold. -/
def Disk.image (d : Disk Name Byte) (name : Name) : Option (List Byte) :=
  (d.entries name).map fun file => (d.files file).bytes

/-- A crash, and the directory as it is found again. -/
def Disk.Crash (d d' : Disk Name Byte) : Prop :=
  ∃ (kept : List (Change Name)) (contents : Nat → List Byte), kept.Sublist d.pending ∧
    (∀ file, (d.files file).synced = true → contents file = (d.files file).bytes) ∧
    d' = ⟨kept.foldl Change.apply d.stored, [], fun file => ⟨contents file, true⟩, d.next⟩

@[simp] theorem Disk.entries_change (d : Disk Name Byte) (c : Change Name) :
    (d.change c).entries = c.apply d.entries := by
  simp [Disk.entries, Disk.change]

@[simp] theorem Disk.entries_create : (d.create name).entries =
    Function.update d.entries name (some d.next) :=
  d.entries_change (.put name d.next)

@[simp] theorem Disk.entries_write : (d.write file bytes).entries = d.entries := rfl

@[simp] theorem Disk.entries_sync : (d.sync file).entries = d.entries := rfl

@[simp] theorem Disk.entries_syncDir : d.syncDir.entries = d.entries := rfl

theorem apply_cases {entries : Name → Option Nat} (h : c.apply entries name = some file) :
    entries name = some file ∨ c.Puts name file := by
  cases c with
  | put target f =>
    obtain rfl | hne := eq_or_ne name target
    · exact .inr ⟨rfl, by simpa [Change.apply] using h⟩
    · exact .inl (by simpa [Change.apply, hne] using h)
  | erase target =>
    obtain rfl | hne := eq_or_ne name target
    · simp [Change.apply] at h
    · exact .inl (by simpa [Change.apply, hne] using h)
  | move source target f =>
    obtain rfl | hne := eq_or_ne name target
    · exact .inr ⟨rfl, by simpa [Change.apply] using h⟩
    · obtain rfl | hsource := eq_or_ne name source
      · simp [Change.apply, hne] at h
      · exact .inl (by simpa [Change.apply, hne, hsource] using h)

theorem foldl_cases {kept : List (Change Name)} {entries : Name → Option Nat}
    (h : kept.foldl Change.apply entries name = some file) :
    entries name = some file ∨ ∃ c ∈ kept, c.Puts name file := by
  induction kept generalizing entries with
  | nil => exact .inl h
  | cons c kept ih =>
    obtain h | ⟨c', hc', hputs⟩ := ih h
    · exact (apply_cases h).imp_right fun hputs => ⟨c, List.mem_cons_self, hputs⟩
    · exact .inr ⟨c', List.mem_cons_of_mem _ hc', hputs⟩

theorem Disk.holds_of_entries (h : d.entries name = some file) : d.Holds name file := foldl_cases h

theorem Disk.holds_syncDir (h : d.syncDir.Holds name file) : d.Holds name file := by
  obtain h | ⟨_, hc, _⟩ := h
  · exact holds_of_entries h
  · cases hc

theorem Disk.Fresh.syncDir (h : d.Fresh) : d.syncDir.Fresh := fun name file hholds =>
  h name file (holds_syncDir hholds)

theorem Disk.Whole.syncDir (h : d.Whole names P) : d.syncDir.Whole names P :=
  fun other hother f hholds => h other hother f (holds_syncDir hholds)

/-! ## Crashes -/

/-- Whatever is there after a crash is a file that the name may have, unharmed if it is
synced. -/
theorem Disk.Crash.holds (h : d.Crash d') (hholds : d'.Holds name file) : d.Holds name file ∧
    ((d.files file).synced = true → (d'.files file).bytes = (d.files file).bytes) := by
  obtain ⟨kept, contents, hkept, hcontents, rfl⟩ := h
  obtain hfile | ⟨_, hc, _⟩ := hholds
  · refine ⟨(foldl_cases hfile).imp_right ?_, hcontents file⟩
    rintro ⟨c, hc, hputs⟩
    exact ⟨c, hkept.subset hc, hputs⟩
  · cases hc

theorem Disk.Crash.fresh (h : d.Crash d') (hfresh : d.Fresh) : d'.Fresh := by
  intro name file hholds
  have hfile := hfresh name file (h.holds hholds).1
  obtain ⟨kept, contents, -, -, rfl⟩ := h
  exact hfile

theorem Disk.Crash.whole (h : d.Crash d') (hwhole : d.Whole names P) : d'.Whole names P := by
  intro name hname file hholds
  obtain ⟨hold, hbytes⟩ := h.holds hholds
  obtain ⟨hsynced, hp⟩ := hwhole name hname file hold
  rw [hbytes hsynced]
  obtain ⟨kept, contents, -, -, rfl⟩ := h
  exact ⟨rfl, hp⟩

theorem Disk.Whole.image (h : d.Whole names P) (hname : name ∈ names)
    (himage : d.image name = some bytes) : P name bytes := by
  obtain ⟨file, hfile, rfl⟩ := Option.map_eq_some_iff.1 himage
  exact (h name hname file (holds_of_entries hfile)).2

theorem apply_stays {entries : Name → Option Nat} (h : (entries name).isSome = true)
    (hc : ¬ c.Erases name) : (c.apply entries name).isSome = true := by
  cases c with
  | put target f =>
    obtain rfl | hne := eq_or_ne name target
    · simp [Change.apply]
    · simpa [Change.apply, hne] using h
  | erase target =>
    have hne : name ≠ target := fun heq => hc heq.symm
    simpa [Change.apply, hne] using h
  | move source target f =>
    obtain rfl | hne := eq_or_ne name target
    · simp [Change.apply]
    · have hsource : name ≠ source := fun heq => hc ⟨heq.symm, hne.symm⟩
      simpa [Change.apply, hne, hsource] using h

theorem foldl_stays {kept : List (Change Name)} {entries : Name → Option Nat}
    (h : (entries name).isSome = true) (hkept : ∀ c ∈ kept, ¬ c.Erases name) :
    (kept.foldl Change.apply entries name).isSome = true := by
  induction kept generalizing entries with
  | nil => exact h
  | cons c kept ih =>
    exact ih (apply_stays h (hkept c List.mem_cons_self)) fun c' hc' =>
      hkept c' (List.mem_cons_of_mem _ hc')

theorem Disk.Stays.entries (h : d.Stays name) : (d.entries name).isSome = true :=
  foldl_stays h.1 h.2

theorem Disk.Stays.syncDir (h : d.Stays name) : d.syncDir.Stays name :=
  ⟨h.entries, fun _ hc => by cases hc⟩

theorem Disk.Crash.stays (h : d.Crash d') (hstays : d.Stays name) : d'.Stays name := by
  obtain ⟨kept, contents, hkept, -, rfl⟩ := h
  exact ⟨foldl_stays hstays.1 fun c hc => hstays.2 c (hkept.subset hc), fun _ hc => by cases hc⟩

theorem Disk.Stays.image (h : d.Stays name) : (d.image name).isSome = true := by
  simpa [Disk.image] using h.entries

/-- A directory with nothing that a crash could change. -/
structure Disk.Settled (d : Disk Name Byte) : Prop where
  pending : d.pending = []
  synced : ∀ file, (d.files file).synced = true
  fresh : d.Fresh

theorem Disk.Crash.settled (h : d.Crash d') (hfresh : d.Fresh) : d'.Settled := by
  have hfound := h.fresh hfresh
  obtain ⟨kept, contents, -, -, rfl⟩ := h
  exact ⟨rfl, fun _ => rfl, hfound⟩

theorem Disk.Settled.entries (h : d.Settled) : d.entries = d.stored := by
  simp [Disk.entries, h.pending]

theorem Disk.Settled.whole (h : d.Settled)
    (hP : ∀ name ∈ names, ∀ bytes, d.image name = some bytes → P name bytes) :
    d.Whole names P := by
  intro name hname file hholds
  refine ⟨h.synced file, hP name hname _ ?_⟩
  obtain hfile | ⟨c, hc, _⟩ := hholds
  · rw [Disk.image, h.entries, hfile, Option.map_some]
  · rw [h.pending] at hc
    cases hc

theorem Disk.Settled.stays (h : d.Settled) (himage : (d.image name).isSome = true) :
    d.Stays name := by
  refine ⟨?_, fun c hc => ?_⟩
  · simpa [Disk.image, h.entries] using himage
  · rw [h.pending] at hc
    cases hc

/-- The name has these bytes, whatever crashes. -/
def Disk.Stored (d : Disk Name Byte) (name : Name) (bytes : List Byte) : Prop :=
  ∀ d', d.Crash d' → d'.image name = some bytes

/-- A synced file is stored once the directory is synced. -/
theorem Disk.stored_syncDir (hentry : d.entries name = some file)
    (hsynced : (d.files file).synced = true) : d.syncDir.Stored name (d.files file).bytes := by
  rintro _ ⟨kept, contents, hkept, hcontents, rfl⟩
  rw [List.sublist_nil.1 hkept]
  change (d.entries name).map contents = _
  rw [hentry, Option.map_some, hcontents file hsynced]
  rfl

end Chimera.Lib.Durable
