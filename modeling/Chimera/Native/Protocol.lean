import Chimera.Native.Hosts

/-! Reasoning about one client at a time. A client relies on what the others may
do between its operations: nothing but die, once it holds the lock, and whatever
keeps the common invariant before that. What each call does under this
interference is a weakest precondition, and a protocol, an invariant with what a
lease-holder knows, holds of the whole fleet when every call keeps it. -/

namespace Chimera.Native
open Chimera.Model Chimera.Lib.Utf8 Chimera.Lib.Program Chimera.Lib.Transition Chimera.Process

/-! ## Interference -/

/-- Nobody comes alive. -/
def Fewer (procs before : List Proc) : Prop := ∀ p ∈ procs, p.alive = true → p ∈ before

/-- The files are the same, up to the lock file that every client creates. -/
structure Untouched (d e : Disk) : Prop where
  files : ∀ dir name, ¬ (dir = .root ∧ name = "lease.lock") → e.files dir name = d.files dir name
  renames : e.renames = d.renames

def Op.isTryLock {β : Type} : Op β → Bool
  | .tryLock => true
  | _ => false

/-- What a client relies on. -/
structure Rely (Inv : View → Prop) (c : Client) (a b : View) : Prop where
  inv : Inv b
  lock : b.disk.lock = some c ↔ a.disk.lock = some c
  pidFile : b.disk.pidFiles c = a.disk.pidFiles c
  held : a.disk.lock = some c → Untouched a.disk b.disk ∧ Fewer b.procs a.procs

/-- What a client may do, and what it must keep. -/
def reading (setup : Setup) (Inv : View → Prop) (Fits : View → Fate → Prop) (c : Client) :
    Reading Op View where
  step := fun op a b a' => ∃ fate, Fits a fate ∧
    op.run setup.target c fate a.disk = (b, a'.disk) ∧ a'.procs = a.procs
  pre := fun op a => ∀ fate, Fits a fate →
    Inv { a with disk := (op.run setup.target c fate a.disk).2 } ∧
      (a.disk.lock ≠ some c → Untouched a.disk (op.run setup.target c fate a.disk).2)

section Interference

variable {Inv : View → Prop} {c c' : Client} {a b v : View} {d e f : Disk} {target : Target}
  {fate : Fate}

theorem Fewer.refl (procs : List Proc) : Fewer procs procs := fun _ hp _ => hp

theorem Fewer.trans {p q r : List Proc} (h : Fewer p q) (h' : Fewer q r) : Fewer p r :=
  fun x hx hl => h' x (h x hx hl) hl

theorem Untouched.refl (d : Disk) : Untouched d d := ⟨fun _ _ _ => rfl, rfl⟩

theorem Untouched.trans (h : Untouched d e) (h' : Untouched e f) : Untouched d f :=
  ⟨fun dir name hn => (h'.files dir name hn).trans (h.files dir name hn),
    h'.renames.trans h.renames⟩

theorem Rely.refl (h : Inv a) : Rely Inv c a a :=
  ⟨h, Iff.rfl, rfl, fun _ => ⟨.refl _, .refl _⟩⟩

theorem Rely.trans (h : Rely Inv c a b) (h' : Rely Inv c b v) : Rely Inv c a v where
  inv := h'.inv
  lock := h'.lock.trans h.lock
  pidFile := h'.pidFile.trans h.pidFile
  held := by
    intro ha
    obtain ⟨hu, hf⟩ := h.held ha
    obtain ⟨hu', hf'⟩ := h'.held (h.lock.2 ha)
    exact ⟨hu.trans hu', hf'.trans hf⟩

@[simp] theorem answer_disk {α : Type} (x : α) : (fate.answer d x).2 = d := by
  unfold Fate.answer
  split <;> rfl

theorem answer_ok {α : Type} {x y : α} (h : (fate.answer d x).1 = .ok y) : x = y := by
  unfold Fate.answer at h
  split at h
  · cases h
  · exact Except.ok.inj h

/-- An operation on a file leaves the disk alone, or is the operation. -/
theorem onFile_cases {α : Type} (fate : Fate) (d : Disk) (dir : Dir) (name : String)
    (g : Bytes → Except StoreError α × Disk) :
    (∃ e, fate.onFile d dir name g = (.error e, d)) ∨
    (∃ bytes, fate.fault = none ∧ d.files dir name = some bytes ∧
      fate.onFile d dir name g = g bytes) := by
  unfold Fate.onFile
  split
  · exact .inl ⟨_, rfl⟩
  · exact .inl ⟨_, rfl⟩
  · rename_i bytes hfault hfile
    exact .inr ⟨bytes, hfault, hfile, rfl⟩

theorem onFile_ok {α : Type} {dir : Dir} {name : String} {x : α}
    {g : Bytes → Except StoreError α × Disk} (h : (fate.onFile d dir name g).1 = .ok x) :
    ∃ bytes, fate.fault = none ∧ d.files dir name = some bytes ∧
      fate.onFile d dir name g = g bytes := by
  rcases onFile_cases fate d dir name g with ⟨e, heq⟩ | hcase
  · rw [heq] at h
    cases h
  · exact hcase

/-- Only `try_lock` takes the lock, when it is free, and no operation writes pid
files. -/
theorem run_frame {β : Type} (target : Target) (c : Client) (fate : Fate) (d : Disk) (op : Op β) :
    (op.run target c fate d).2.pidFiles = d.pidFiles ∧
    ((op.run target c fate d).2.lock = d.lock ∨
      (op.isTryLock = true ∧ d.lock = none ∧ (op.run target c fate d).2.lock = some c)) := by
  have same {q : Prop} {e : Disk} (h : e = d) : e.pidFiles = d.pidFiles ∧
      (e.lock = d.lock ∨ q) := by
    rw [h]
    exact ⟨rfl, .inl rfl⟩
  have onFile {α : Type} {q : Prop} (dir : Dir) (name : String)
      (g : Bytes → Except StoreError α × Disk)
      (hg : ∀ bytes, (g bytes).2.pidFiles = d.pidFiles ∧ (g bytes).2.lock = d.lock) :
      (fate.onFile d dir name g).2.pidFiles = d.pidFiles ∧
        ((fate.onFile d dir name g).2.lock = d.lock ∨ q) := by
    rcases onFile_cases fate d dir name g with ⟨e, h⟩ | ⟨bytes, -, -, h⟩
    · rw [h]
      exact same rfl
    · rw [h]
      exact ⟨(hg bytes).1, .inl (hg bytes).2⟩
  cases op with
  | enter _ | repairTree _ | sync _ | tryLockLegacy | present _ _ => exact same (answer_disk _)
  | read dir name | syncAll dir name | contents dir name =>
    exact onFile dir name _ fun _ => ⟨rfl, rfl⟩
  | truncate dir name | rename dir name _ => exact onFile dir name _ fun _ => ⟨rfl, rfl⟩
  | newer kind name => exact onFile (.home kind) name _ fun _ => ⟨rfl, rfl⟩
  | recordedProcessIsAlive _ => exact same rfl
  | file dir name create =>
    simp only [Op.run]
    split
    · exact same (answer_disk _)
    · split
      · split
        · split
          · exact same rfl
          · exact ⟨rfl, .inl rfl⟩
        · exact ⟨rfl, .inl rfl⟩
      · exact same rfl
  | writeAll dir name bytes =>
    simp only [Op.run]
    split
    · exact same rfl
    · split <;> exact ⟨rfl, .inl rfl⟩
  | remove dir name =>
    simp only [Op.run]
    split
    · exact same rfl
    · exact ⟨rfl, .inl rfl⟩
  | tryLock =>
    simp only [Op.run]
    split
    · exact same rfl
    · exact same rfl
    · rename_i hlock
      exact ⟨rfl, .inr ⟨rfl, hlock, rfl⟩⟩
  | pidFile =>
    simp only [Op.run]
    split <;> exact same rfl

theorem run_lock {β : Type} {op : Op β} {d : Disk} (hne : c' ≠ c) :
    (op.run target c fate d).2.lock = some c' ↔ d.lock = some c' := by
  obtain ⟨-, hlock | ⟨-, hfree, htaken⟩⟩ := run_frame target c fate d op
  · rw [hlock]
  · simp [hfree, htaken, Ne.symm hne]

end Interference

/-! ## What an operation writes -/

/-- The files whose contents an operation may change. -/
def Op.Writes {β : Type} : Op β → Dir → String → Prop
  | .file dir name _, dir', name' | .truncate dir name, dir', name'
  | .writeAll dir name _, dir', name' | .remove dir name, dir', name' => dir = dir' ∧ name = name'
  | .rename dir old new, dir', name' => dir = dir' ∧ (old = name' ∨ new = name')
  | _, _, _ => False

def Op.isRename {β : Type} : Op β → Bool
  | .rename _ _ _ => true
  | _ => false

section Writes

variable {target : Target} {c : Client} {fate : Fate} {d : Disk} {dir : Dir} {name : String}

theorem put_files_of_ne {dir' : Dir} {name' : String} {content : Option Bytes}
    (h : ¬ (dir' = dir ∧ name' = name)) : (d.put dir' name' content).files dir name =
      d.files dir name := by
  refine if_neg ?_
  rintro ⟨rfl, rfl⟩
  exact h ⟨rfl, rfl⟩

@[simp] theorem put_files_self {content : Option Bytes} :
    (d.put dir name content).files dir name = content := if_pos ⟨rfl, rfl⟩

/-- A file that is not written keeps its contents. -/
theorem run_files {β : Type} {op : Op β} (h : ¬ op.Writes dir name) :
    (op.run target c fate d).2.files dir name = d.files dir name := by
  have onFile {α : Type} (dir' : Dir) (name' : String) (g : Bytes → Except StoreError α × Disk)
      (hg : ∀ bytes, (g bytes).2.files dir name = d.files dir name) :
      (fate.onFile d dir' name' g).2.files dir name = d.files dir name := by
    rcases onFile_cases fate d dir' name' g with ⟨e, h⟩ | ⟨bytes, -, -, h⟩
    · rw [h]
    · rw [h]
      exact hg bytes
  cases op with
  | enter _ | repairTree _ | sync _ | tryLockLegacy | present _ _ =>
    exact congrArg (fun e : Disk => e.files dir name) (answer_disk _)
  | read dir name | syncAll dir name | contents dir name => exact onFile dir name _ fun _ => rfl
  | newer kind name => exact onFile (.home kind) name _ fun _ => rfl
  | recordedProcessIsAlive _ => rfl
  | truncate dir' name' => exact onFile dir' name' _ fun _ => put_files_of_ne h
  | rename dir' old new =>
    refine onFile dir' old _ fun _ => ?_
    have hold : ¬ (dir' = dir ∧ old = name) := fun ho => h ⟨ho.1, .inl ho.2⟩
    have hnew : ¬ (dir' = dir ∧ new = name) := fun hn => h ⟨hn.1, .inr hn.2⟩
    exact (put_files_of_ne hnew).trans (put_files_of_ne hold)
  | file dir' name' create =>
    simp only [Op.run]
    split
    · rw [answer_disk]
    · split
      · split
        · split
          · rfl
          · exact put_files_of_ne h
        · exact put_files_of_ne h
      · rfl
  | writeAll dir' name' bytes =>
    simp only [Op.run]
    split
    · rfl
    · split <;> exact put_files_of_ne h
  | remove dir' name' =>
    simp only [Op.run]
    split
    · rfl
    · exact put_files_of_ne h
  | tryLock =>
    simp only [Op.run]
    split <;> rfl
  | pidFile =>
    simp only [Op.run]
    split <;> rfl

theorem run_renames {β : Type} {op : Op β} (h : op.isRename = false) :
    (op.run target c fate d).2.renames = d.renames := by
  have onFile {α : Type} (dir' : Dir) (name' : String) (g : Bytes → Except StoreError α × Disk)
      (hg : ∀ bytes, (g bytes).2.renames = d.renames) :
      (fate.onFile d dir' name' g).2.renames = d.renames := by
    rcases onFile_cases fate d dir' name' g with ⟨e, h⟩ | ⟨bytes, -, -, h⟩
    · rw [h]
    · rw [h]
      exact hg bytes
  cases op with
  | enter _ | repairTree _ | sync _ | tryLockLegacy | present _ _ =>
    exact congrArg Disk.renames (answer_disk _)
  | read dir name | syncAll dir name | contents dir name | truncate dir name =>
    exact onFile dir name _ fun _ => rfl
  | newer kind name => exact onFile (.home kind) name _ fun _ => rfl
  | recordedProcessIsAlive _ => rfl
  | rename _ _ _ => cases h
  | file dir' name' create =>
    simp only [Op.run]
    split
    · rw [answer_disk]
    · split
      · split
        · split <;> rfl
        · rfl
      · rfl
  | writeAll dir' name' bytes =>
    simp only [Op.run]
    split
    · rfl
    · split <;> rfl
  | remove _ _ =>
    simp only [Op.run]
    split <;> rfl
  | tryLock =>
    simp only [Op.run]
    split <;> rfl
  | pidFile =>
    simp only [Op.run]
    split <;> rfl

/-- What a truncation that succeeds leaves. -/
theorem truncate_run (h : (Op.run target c fate d (.truncate dir name)).1 = .ok ()) :
    (Op.run target c fate d (.truncate dir name)).2.files dir name = some [] := by
  simp only [Op.run] at h ⊢
  rcases onFile_cases fate d dir name fun _ =>
      ((.ok (), d.put dir name (some [])) : Except StoreError Unit × Disk) with
    ⟨e, heq⟩ | ⟨bytes, -, -, heq⟩
  · rw [heq] at h
    cases h
  · rw [heq]
    exact put_files_self

/-- What a write into an empty file leaves, when it succeeds. -/
theorem writeAll_run {bytes : Bytes} (hempty : d.files dir name = some [])
    (h : (Op.run target c fate d (.writeAll dir name bytes)).1 = .ok ()) :
    (Op.run target c fate d (.writeAll dir name bytes)).2.files dir name = some bytes := by
  simp only [Op.run, hempty] at h ⊢
  split
  · rename_i heq
    rw [heq] at h
    cases h
  · exact put_files_self

theorem run_untouched {β : Type} {op : Op β} (hr : op.isRename = false)
    (hw : ∀ dir name, op.Writes dir name → dir = .root ∧ name = "lease.lock") :
    Untouched d (op.run target c fate d).2 :=
  ⟨fun dir name hn => run_files fun h => hn (hw dir name h), run_renames hr⟩

end Writes

/-! ## Operations under the lock -/

/-- An operation is taken in by what it does to the disk that it finds. -/
theorem held_wp {setup : Setup} {Inv : View → Prop} {Fits : View → Fate → Prop} {c : Client}
    {a : View} {β : Type} {op : Op β} {T : β → View → Prop} (hlock : a.disk.lock = some c)
    (h : ∀ m fate, Rely Inv c a m → Fits m fate →
      Inv { m with disk := (op.run setup.target c fate m.disk).2 } ∧
        T (op.run setup.target c fate m.disk).1
          { m with disk := (op.run setup.target c fate m.disk).2 }) :
    ((reading setup Inv Fits c).under (Rely Inv c)).pre op a ∧
      ∀ r b, ((reading setup Inv Fits c).under (Rely Inv c)).step op a r b → T r b := by
  refine ⟨?_, ?_⟩
  · intro m hrely fate hfits
    exact ⟨(h m fate hrely hfits).1, fun hne => absurd (hrely.lock.2 hlock) hne⟩
  · intro r b hs
    obtain ⟨m, hrely, fate, hfits, hrun, hprocs⟩ := hs
    have hT := (h m fate hrely hfits).2
    have heq : ({ m with disk := (op.run setup.target c fate m.disk).2 } : View) = b := by
      rw [hrun, ← hprocs]
    rw [heq, hrun] at hT
    exact hT

/-! ## Protocols -/

/-- The weakest precondition of a call, among the other clients. -/
abbrev among {α : Type} (setup : Setup) (Inv : View → Prop) (Fits : View → Fate → Prop)
    (c : Client) (p : Store α) (Q : Except StoreError α → View → Prop) (v : View) : Prop :=
  p.wp ((reading setup Inv Fits c).under (Rely Inv c)) Q v

/-- The locks of such clients are free again. -/
def View.release (v : View) (p : Client → Bool) : View := { v with disk := v.disk.release p }

structure Protocol (setup : Setup) where
  Inv : View → Prop
  /-- What is assumed of the answers of the system. -/
  Fits : View → Fate → Prop
  /-- What is assumed where a client confirms the end of its cores. -/
  Confirms : Client → View → Prop
  /-- What holds where a client is granted the lease. -/
  Granted : Client → View → Prop
  /-- What a client knows while it holds the lease, between its calls. -/
  Lease : Client → Bool → View → Prop
  granted : ∀ {c v}, Granted c v → Lease c false v
  stableGranted : ∀ {c a b}, Rely Inv c a b → a.disk.lock = some c → Granted c a → Granted c b
  stable : ∀ {c prepared a b}, Rely Inv c a b → a.disk.lock = some c → Lease c prepared a →
    Lease c prepared b
  acquire : ∀ c kind v, Inv v → v.disk.lock ≠ some c →
    among setup Inv Fits c (Native.acquire setup.store kind)
      (fun r v => ∀ lease, r = .ok lease → v.disk.lock = some c ∧ Granted c v) v
  task : ∀ c lease prepared task v, Inv v → v.disk.lock = some c → Lease c prepared v →
    (task = .confirm → Confirms c v) →
    among setup Inv Fits c (task.program setup lease)
      (fun r v => v.disk.lock = some c ∧ Lease c (preparedAfter task r) v) v
  spawn : ∀ c record published v, Inv v → v.disk.lock = some c → Lease c true v →
    v.idle c = true → Inv (v.spawn setup.target c record published) ∧
      Lease c false (v.spawn setup.target c record published)
  exit : ∀ v number, Inv v → Inv (v.exit number)
  release : ∀ v p, Inv v → Inv (v.release p)

namespace Protocol

variable {setup : Setup} (P : Protocol setup) {c : Client} {s t : Fleet} {v w : View}

/-- What each turn of a run is assumed to be. -/
def Assumed (s : Fleet) : Turn → Prop
  | .operation _ fate => P.Fits s.view fate
  | .confirmStopped c => P.Confirms c s.view
  | _ => True

/-- A client is where it may be, and can go on. -/
def Seated (c : Client) (v : View) : Seat → Prop
  | .away => v.disk.lock ≠ some c
  | .acquiring rest => among setup P.Inv P.Fits c rest
      (fun r v => ∀ lease, r = .ok lease → v.disk.lock = some c ∧ P.Granted c v) v
  | .holding _ prepared => v.disk.lock = some c ∧ P.Lease c prepared v
  | .working _ task rest => v.disk.lock = some c ∧ among setup P.Inv P.Fits c rest
      (fun r v => v.disk.lock = some c ∧ P.Lease c (preparedAfter task r) v) v

structure Sound (s : Fleet) : Prop where
  inv : P.Inv s.view
  seated : ∀ c, P.Seated c s.view (s.seats c)

variable {P}

theorem Seated.stable {seat : Seat} (h : P.Seated c v seat) (hr : Rely P.Inv c v w) :
    P.Seated c w seat := by
  cases seat with
  | away => exact fun hw => h (hr.lock.1 hw)
  | acquiring rest =>
    refine Prog.wp_relied h (fun _ => hr.trans) ?_
    intro r hr' lease hlease
    obtain ⟨hlock, hg⟩ := hr' lease hlease
    exact ⟨hr.lock.2 hlock, P.stableGranted hr hlock hg⟩
  | holding lease prepared => exact ⟨hr.lock.2 h.1, P.stable hr h.1 h.2⟩
  | working lease task rest =>
    refine ⟨hr.lock.2 h.1, Prog.wp_relied h.2 (fun _ => hr.trans) ?_⟩
    rintro r ⟨hlock, hl⟩
    exact ⟨hr.lock.2 hlock, P.stable hr hlock hl⟩

/-- One client takes a seat and the others may rely on what it did. -/
theorem Sound.seat {seat : Seat} (h : P.Sound s) (hinv : P.Inv v) (hc : P.Seated c v seat)
    (others : ∀ c', c' ≠ c → Rely P.Inv c' s.view v) :
    P.Sound ({ s with view := v }.seat c seat) := by
  refine ⟨hinv, ?_⟩
  intro c'
  by_cases hne : c' = c
  · subst hne
    simpa [Fleet.seat] using hc
  · simpa [Fleet.seat, hne] using (h.seated c').stable (others c' hne)

theorem Sound.perform {β : Type} {op : Op β} {fate : Fate} {v : View} (hinv : P.Inv v)
    (hfits : P.Fits v fate)
    (hpre : ((reading setup P.Inv P.Fits c).under (Rely P.Inv c)).pre op v) :
    P.Inv { v with disk := (op.run setup.target c fate v.disk).2 } ∧
      ∀ c', c' ≠ c →
        Rely P.Inv c' v { v with disk := (op.run setup.target c fate v.disk).2 } := by
  obtain ⟨hinv', huntouched⟩ := hpre v (.refl hinv) fate hfits
  refine ⟨hinv', ?_⟩
  intro c' hne
  refine ⟨hinv', run_lock hne, congrFun (run_frame _ _ _ _ op).1 c', ?_⟩
  intro hlock
  have hother : v.disk.lock ≠ some c := by
    rw [hlock]
    simpa using hne
  exact ⟨huntouched hother, .refl _⟩

theorem release_lock {d : Disk} {p : Client → Bool} :
    (d.release p).lock = some c ↔ d.lock = some c ∧ p c = false := by
  simp [Disk.release, Option.filter_eq_some_iff]

theorem Sound.release (h : P.Sound s) (p : Client → Bool) : P.Sound (s.release p) := by
  have hinv : P.Inv (s.view.release p) := P.release s.view p h.inv
  refine ⟨hinv, ?_⟩
  intro c
  show P.Seated c (s.view.release p) (if p c then .away else s.seats c)
  by_cases hp : p c = true
  · rw [if_pos hp]
    intro hlock
    rw [(release_lock.1 hlock).2] at hp
    cases hp
  · rw [if_neg hp]
    refine (h.seated c).stable ⟨hinv, ?_, rfl, fun _ => ⟨⟨fun _ _ _ => rfl, rfl⟩, .refl _⟩⟩
    have hp : p c = false := by simpa using hp
    constructor
    · intro hlock
      exact (release_lock.1 hlock).1
    · intro hlock
      exact release_lock.2 ⟨hlock, hp⟩

theorem Sound.call {task : Task} (h : P.Sound s) (hs : s.call setup c task = some t)
    (hconfirm : task = .confirm → P.Confirms c s.view) : P.Sound t := by
  unfold Fleet.call at hs
  split at hs
  · rename_i lease prepared hseat
    have hc := h.seated c
    rw [hseat] at hc
    cases hs
    exact h.seat h.inv ⟨hc.1, P.task c lease prepared task s.view h.inv hc.1 hc.2 hconfirm⟩
      fun c' _ => .refl h.inv
  · cases hs

theorem Sound.operation {fate : Fate} (h : P.Sound s) (hs : s.perform setup c fate = some t)
    (hfits : P.Fits s.view fate) : P.Sound t := by
  have hc := h.seated c
  unfold Fleet.perform at hs
  split at hs
  · rename_i β op next hseat
    rw [hseat] at hc
    obtain ⟨hpre, hnext⟩ := hc
    obtain ⟨hinv, hothers⟩ := Sound.perform h.inv hfits hpre
    cases hs
    exact h.seat hinv (hnext _ _ ⟨s.view, .refl h.inv, fate, hfits, rfl, rfl⟩) hothers
  · rename_i lease hseat
    rw [hseat] at hc
    obtain ⟨hlock, hgranted⟩ := hc lease rfl
    cases hs
    exact h.seat h.inv ⟨hlock, P.granted hgranted⟩ fun c' _ => .refl h.inv
  · cases hs
    exact h.release _
  · rename_i lease task β op next hseat
    rw [hseat] at hc
    obtain ⟨hlock, hpre, hnext⟩ := hc
    obtain ⟨hinv, hothers⟩ := Sound.perform h.inv hfits hpre
    have hframe := (run_frame setup.target c fate s.view.disk op).2
    cases hs
    refine h.seat hinv ⟨?_, hnext _ _ ⟨s.view, .refl h.inv, fate, hfits, rfl, rfl⟩⟩ hothers
    rcases hframe with hsame | ⟨-, hfree, -⟩
    · exact hsame.trans hlock
    · rw [hfree] at hlock
      cases hlock
  · rename_i lease task r hseat
    rw [hseat] at hc
    cases hs
    exact h.seat h.inv hc.2 fun c' _ => .refl h.inv
  · cases hs

/-- A process that is alive after an exit was alive before. -/
theorem exit_fewer (v : View) (number : Nat) : Fewer (v.exit number).procs v.procs := by
  intro p hp hl
  simp only [View.exit] at hp
  obtain ⟨i, hi⟩ := List.mem_iff_getElem?.1 hp
  rw [List.getElem?_modify] at hi
  cases hq : v.procs[i]? with
  | none => simp [hq] at hi
  | some q =>
    by_cases hn : number = i
    · have hi : ({ q with alive := false } : Proc) = p := by simpa [hq, hn] using hi
      rw [← hi] at hl
      cases hl
    · have hi : q = p := by simpa [hq, hn] using hi
      rw [← hi]
      exact List.mem_of_getElem? hq

theorem Sound.step {turn : Turn} (h : P.Sound s) (ha : P.Assumed s turn)
    (hs : Fleet.step setup s turn = some t) : P.Sound t := by
  cases turn with
  | acquire c kind =>
    have hc := h.seated c
    simp only [Fleet.step] at hs
    split at hs
    · rename_i hseat
      rw [hseat] at hc
      cases hs
      exact h.seat h.inv (P.acquire c kind s.view h.inv hc) fun c' _ => .refl h.inv
    · cases hs
  | prepareSpawn c => exact h.call hs nofun
  | recordStarted c => exact h.call hs nofun
  | confirmStopped c => exact h.call hs fun _ => ha
  | operation c fate => exact h.operation hs ha
  | spawn c record published =>
    have hc := h.seated c
    simp only [Fleet.step] at hs
    split at hs
    · rename_i lease hseat
      rw [hseat] at hc
      split at hs
      · rename_i hidle
        cases hs
        obtain ⟨hinv, hlease⟩ := P.spawn c record published s.view h.inv hc.1 hc.2 hidle
        refine h.seat hinv ⟨hc.1, hlease⟩ ?_
        intro c' hne
        refine ⟨hinv, Iff.rfl, by simp [View.spawn, hne], ?_⟩
        intro hlock
        rw [hc.1] at hlock
        exact absurd (Option.some.inj hlock).symm hne
      · cases hs
    · cases hs
  | exit number =>
    cases hs
    have hinv := P.exit s.view number h.inv
    exact ⟨hinv, fun c => (h.seated c).stable
      ⟨hinv, Iff.rfl, rfl, fun _ => ⟨.refl _, exit_fewer s.view number⟩⟩⟩
  | drop c =>
    simp only [Fleet.step] at hs
    split at hs
    · cases hs
      exact h.release _
    · cases hs
  | crash host =>
    cases hs
    exact h.release _

theorem sound_reachable (P : Protocol setup) {files : Dir → String → Option Bytes}
    (hinit : P.Inv (fleet setup files).init.view)
    (h : (fleet setup files).ReachableBy P.Assumed s) : P.Sound s := by
  refine h.invariant ⟨hinit, ?_⟩ fun s turn t hs ha hstep => hs.step ha hstep
  intro c hlock
  cases hlock

/-- At most one client holds the lease, the one with the lock. -/
theorem Sound.leased (h : P.Sound s) (hc : (s.seats c).leased = true) :
    s.view.disk.lock = some c := by
  have hseat := h.seated c
  cases hs : s.seats c with
  | away | acquiring rest =>
    rw [hs] at hc
    cases hc
  | holding lease prepared =>
    rw [hs] at hseat
    exact hseat.1
  | working lease task rest =>
    rw [hs] at hseat
    exact hseat.1

end Protocol

/-! ## Grants -/

/-- In this turn `acquire` returns a lease to the client. -/
def Grants (s t : Fleet) (c : Client) : Prop :=
  (s.seats c).leased = false ∧ (t.seats c).leased = true

section Grants

variable {setup : Setup} {s t : Fleet} {c : Client} {turn : Turn}

theorem not_grants_same (h : Grants s t c) (hs : t.seats c = s.seats c) : False := by
  have hl := h.2
  rw [hs, h.1] at hl
  cases hl

theorem not_grants_release {p : Client → Bool} (h : Grants s (s.release p) c) : False := by
  have hl := h.2
  simp only [Fleet.release] at hl
  split at hl
  · cases hl
  · rw [h.1] at hl
    cases hl

theorem not_grants_call {c' : Client} {task : Task} (h : Grants s t c)
    (hs : s.call setup c' task = some t) : False := by
  unfold Fleet.call at hs
  split at hs
  · rename_i lease prepared hseat
    cases hs
    by_cases hc : c = c'
    · have hfree := h.1
      rw [hc, hseat] at hfree
      cases hfree
    · exact not_grants_same h (if_neg hc)
  · cases hs

/-- It is the turn in which the client's call has nothing left to do. -/
theorem grants_returns (h : Grants s t c) (hs : Fleet.step setup s turn = some t) :
    ∃ lease, s.seats c = .acquiring (.ret (.ok lease)) := by
  cases turn with
  | acquire c' kind =>
    simp only [Fleet.step] at hs
    split at hs
    · cases hs
      by_cases hc : c = c'
      · have hl := h.2
        rw [hc] at hl
        simp [Fleet.seat, Seat.leased] at hl
      · exact (not_grants_same h (if_neg hc)).elim
    · cases hs
  | prepareSpawn c' => exact (not_grants_call h hs).elim
  | recordStarted c' => exact (not_grants_call h hs).elim
  | confirmStopped c' => exact (not_grants_call h hs).elim
  | spawn c' record published =>
    simp only [Fleet.step] at hs
    split at hs
    · rename_i lease hseat
      split at hs
      · cases hs
        by_cases hc : c = c'
        · have hfree := h.1
          rw [hc, hseat] at hfree
          cases hfree
        · exact (not_grants_same h (if_neg hc)).elim
      · cases hs
    · cases hs
  | exit number =>
    cases hs
    exact (not_grants_same h rfl).elim
  | drop c' =>
    simp only [Fleet.step] at hs
    split at hs
    · cases hs
      exact (not_grants_release h).elim
    · cases hs
  | crash host =>
    cases hs
    exact (not_grants_release h).elim
  | operation c' fate =>
    by_cases hc : c = c'
    · subst hc
      simp only [Fleet.step, Fleet.perform] at hs
      split at hs
      · cases hs
        have hl := h.2
        simp [Fleet.seat, Seat.leased] at hl
      · rename_i lease hseat
        exact ⟨lease, hseat⟩
      · cases hs
        exact (not_grants_release h).elim
      · rename_i hseat
        have hfree := h.1
        rw [hseat] at hfree
        cases hfree
      · rename_i hseat
        have hfree := h.1
        rw [hseat] at hfree
        cases hfree
      · cases hs
    · simp only [Fleet.step, Fleet.perform] at hs
      split at hs
      · cases hs
        exact (not_grants_same h (if_neg hc)).elim
      · cases hs
        exact (not_grants_same h (if_neg hc)).elim
      · cases hs
        exact (not_grants_release h).elim
      · cases hs
        exact (not_grants_same h (if_neg hc)).elim
      · cases hs
        exact (not_grants_same h (if_neg hc)).elim
      · cases hs

end Grants

end Chimera.Native
