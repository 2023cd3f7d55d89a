import Chimera.Lib.Durable
import Chimera.Manager.Store

/-! The store over a directory that a crash can set back: its functions with every
operation as the disk may do it, and what is there after a crash at any of them. -/

namespace Chimera.Manager
open Chimera.Model Chimera.Lib.Program Chimera.Lib.Durable

/-- The runtime directory, and `TEMP_COUNTER`. -/
structure Volume where
  disk : Disk Artifact UInt8
  temp : Nat

def Volume.set (v : Volume) (disk : Disk Artifact UInt8) : Volume := { v with disk }

/-- An operation that fails does nothing, and may do it if it does not. -/
def Tries {α : Type} (v : Volume) (r : Except String α) (v' : Volume) (done : α → Prop) : Prop :=
  match r with
  | .ok a => done a
  | .error _ => v' = v

/-- What the operations may do. A write may fail half-way, and a sync of the directory that
fails has made no promise of any change. -/
def StorePrim.does : ∀ {β : Type}, StorePrim β → Volume → β → Volume → Prop
  | _, .temp, v, n, v' => n = v.temp ∧ v' = { v with temp := v.temp + 1 }
  | _, .stat a, v, r, v' => Tries v r v' fun node =>
      v' = v ∧ (node.isSome = true ↔ (v.disk.entries a).isSome = true)
  | _, .createNew a, v, r, v' => Tries v r v' fun _ =>
      v.disk.entries a = none ∧ v' = v.set (v.disk.create a)
  | _, .setPermissions _, v, _, v' => v' = v
  | _, .write a bytes, v, r, v' => ∃ file, v.disk.entries a = some file ∧
      ∃ written, v' = v.set (v.disk.write file written) ∧ (r = .ok () → written = bytes)
  | _, .sync a, v, r, v' => Tries v r v' fun _ =>
      ∃ file, v.disk.entries a = some file ∧ v' = v.set (v.disk.sync file)
  | _, .link source target, v, r, v' => Tries v r v' fun _ =>
      ∃ file, v.disk.entries source = some file ∧ v.disk.entries target = none ∧
        v' = v.set (v.disk.change (.put target file))
  | _, .rename source target, v, r, v' => Tries v r v' fun _ =>
      ∃ file, v.disk.entries source = some file ∧
        v' = v.set (v.disk.change (.move source target file))
  | _, .remove a, v, r, v' => Tries v r v' fun _ => v' = v.set (v.disk.change (.erase a))
  | _, .read a, v, r, v' => Tries v r v' fun bytes =>
      v' = v ∧ ∃ file, v.disk.entries a = some file ∧ bytes = (v.disk.files file).bytes
  | _, .readDir, v, _, v' => v' = v
  | _, .syncDir, v, r, v' => Tries v r v' fun _ => v' = v.set v.disk.syncDir

/-- Written whole before they are given their name. -/
def Artifact.isCommitted : Artifact → Bool
  | .config _ | .backup _ _ => true
  | _ => false

def committedNames : Set Artifact := { a | a.isCommitted = true }

/-- What the store keeps: the bytes that a committed file and a staged one may have, and the
committed files that are not removed. -/
structure Terms where
  may : Artifact → List UInt8 → Prop
  staged : Staged → List UInt8 → Prop
  there : Set Artifact
  there_committed : there ⊆ committedNames

/-- The store on such a disk, with its committed files whole wherever it performs an
operation. -/
def Terms.reading (k : Terms) : Reading StorePrim Volume where
  step := StorePrim.does
  pre := fun _ v => v.disk.Fresh ∧ v.disk.Whole committedNames k.may ∧
    ∀ a ∈ k.there, v.disk.Stays a

/-- The committed files are whole wherever a crash may find them, and so is what is staged. -/
structure Intact (k : Terms) (handles : List Staged) (v : Volume) : Prop where
  fresh : v.disk.Fresh
  whole : v.disk.Whole committedNames k.may
  stays : ∀ a ∈ k.there, v.disk.Stays a
  below : ∀ staged ∈ handles, staged.suffix < v.temp
  staged : ∀ staged ∈ handles, ∀ file, v.disk.entries staged.artifact = some file →
    (v.disk.files file).synced = true ∧ k.staged staged (v.disk.files file).bytes

def StorePrim.Harmless (k : Terms) {β : Type} : StorePrim β → Prop
  | .remove a => a ∉ k.there
  | .stat _ | .setPermissions _ | .read _ | .readDir | .syncDir => True
  | _ => False

section Keeps

variable {Doc : Type} {setup : Setup Doc} {k : Terms} {handles : List Staged} {staged : Staged}
  {v v' : Volume} {epoch : Epoch} {contents : List UInt8}

theorem Tries.keeps {α : Type} {I : Volume → Prop} {r : Except String α} {done : α → Prop}
    (h : Tries v r v' done) (hv : I v) (hdone : ∀ a, done a → I v') : I v' := by
  cases r with
  | ok a => exact hdone a h
  | error e => exact h ▸ hv

theorem Intact.ready (h : Intact k handles v) {β : Type} (op : StorePrim β) :
    k.reading.pre op v := ⟨h.fresh, h.whole, h.stays⟩

theorem Intact.fewer (h : Intact k handles v) {fewer : List Staged} (hf : fewer ⊆ handles) :
    Intact k fewer v :=
  ⟨h.fresh, h.whole, h.stays, fun s hs => h.below s (hf hs), fun s hs => h.staged s (hf hs)⟩

theorem Intact.erase {a : Artifact} (h : Intact k handles v) (ha : a ∉ k.there) :
    Intact k handles (v.set (v.disk.change (.erase a))) where
  fresh := h.fresh.change fun _ _ hputs => by cases hputs
  whole := h.whole.change fun _ _ _ hputs => by cases hputs
  stays := by
    intro b hb
    refine (h.stays b hb).change fun hab => ha ?_
    exact hab ▸ hb
  below := h.below
  staged := by
    intro s hs file hfile
    obtain hold | hputs := apply_cases ((congrFun (v.disk.entries_change _) _).symm.trans hfile)
    · exact h.staged s hs file hold
    · cases hputs

theorem Intact.syncDir (h : Intact k handles v) : Intact k handles (v.set v.disk.syncDir) :=
  ⟨h.fresh.syncDir, h.whole.syncDir, fun a ha => (h.stays a ha).syncDir, h.below, h.staged⟩

theorem Intact.harmless {β : Type} {op : StorePrim β} {b : β} (h : Intact k handles v)
    (hop : op.Harmless k) (hstep : op.does v b v') : Intact k handles v' := by
  cases op with
  | stat a => exact Tries.keeps hstep h fun _ hdone => hdone.1 ▸ h
  | setPermissions a | readDir => exact hstep ▸ h
  | remove a => exact Tries.keeps hstep h fun _ hdone => hdone ▸ h.erase hop
  | read a => exact Tries.keeps hstep h fun _ hdone => hdone.1 ▸ h
  | syncDir => exact Tries.keeps hstep h fun _ hdone => hdone ▸ h.syncDir
  | temp | createNew _ | write _ _ | sync _ | link _ _ | rename _ _ => cases hop

theorem harmless_temp {β : Type} {op : StorePrim β} {b : β} (hop : op.Harmless k)
    (hstep : op.does v b v') : v'.temp = v.temp := by
  cases op with
  | setPermissions a | readDir => exact congrArg Volume.temp hstep
  | stat a => exact Tries.keeps (I := fun u => u.temp = v.temp) hstep rfl fun _ h => h.1 ▸ rfl
  | remove a => exact Tries.keeps (I := fun u => u.temp = v.temp) hstep rfl fun _ h => h ▸ rfl
  | read a => exact Tries.keeps (I := fun u => u.temp = v.temp) hstep rfl fun _ h => h.1 ▸ rfl
  | syncDir => exact Tries.keeps (I := fun u => u.temp = v.temp) hstep rfl fun _ h => h ▸ rfl
  | temp | createNew _ | write _ _ | sync _ | link _ _ | rename _ _ => cases hop

theorem harmless_keeps {ε α : Type} {p : Prog ε StorePrim α} {temp : Nat}
    (hp : p.Only (StorePrim.Harmless k)) (h : Intact k handles v) (htemp : v.temp = temp) :
    p.wp k.reading (fun _ v' => Intact k handles v' ∧ v'.temp = temp) v :=
  hp.keeps (I := fun v' => Intact k handles v' ∧ v'.temp = temp)
    (fun op _ _ hi => hi.1.ready op)
    (fun _ _ _ _ hop hstep hi =>
      ⟨hi.1.harmless hop hstep, (harmless_temp hop hstep).trans hi.2⟩) ⟨h, htemp⟩

theorem Terms.staging_gone (k : Terms) (staged : Staged) : staged.artifact ∉ k.there := fun h => by
  cases k.there_committed h

theorem Intact.dropped {r : Except String Unit} (h : Intact k handles v) (staged : Staged)
    (hstep : StorePrim.does (.remove staged.artifact) v r v') : Intact k handles v' :=
  Tries.keeps hstep h fun _ hdone => hdone ▸ h.erase (k.staging_gone staged)

theorem Intact.synced {r : Except String Unit} (h : Intact k handles v)
    (hstep : StorePrim.does .syncDir v r v') : Intact k handles v' :=
  Tries.keeps hstep h fun _ hdone => hdone ▸ h.syncDir

/-! ### Programs that only look and remove -/

theorem only_file {α : Type} {op : StorePrim (Except String α)} (h : op.Harmless k) :
    (file op).Only (StorePrim.Harmless k) := ⟨h, fun _ => trivial⟩

theorem only_validateAbsent {a : Artifact} :
    (validateAbsentRegularTarget setup a).Only (StorePrim.Harmless k) := by
  refine Prog.Only.bind (only_file trivial) fun node => ?_
  split <;> trivial

theorem only_validateExisting {a : Artifact} :
    (validateExistingRegularTarget setup a).Only (StorePrim.Harmless k) := by
  refine Prog.Only.bind (only_file trivial) fun node => ?_
  split <;> trivial

theorem only_dropStaged : (dropStaged staged).Only (StorePrim.Harmless k) :=
  Prog.Only.bind (Prog.Only.perform (k.staging_gone staged)) fun _ => trivial

theorem only_removeRegularFile {a : Artifact} (ha : a ∉ k.there) :
    (removeRegularFile setup a).Only (StorePrim.Harmless k) := by
  refine Prog.Only.bind (only_file trivial) fun node => ?_
  split
  · trivial
  · exact only_file ha
  · trivial

theorem only_removeSocketArtifact {a : Artifact} (ha : a ∉ k.there) :
    (removeSocketArtifact setup a).Only (StorePrim.Harmless k) := by
  refine Prog.Only.bind (only_file trivial) fun node => ?_
  split
  · trivial
  · exact only_file ha
  · trivial

theorem only_removeAll {entries : List Artifact} (hk : k.there = ∅) :
    (removeAll setup entries).Only (StorePrim.Harmless k) := by
  induction entries with
  | nil => trivial
  | cons a entries ih => exact Prog.Only.bind (only_removeRegularFile (by simp [hk])) fun _ => ih

theorem only_cleanupArtifacts {number : Nat} (hk : k.there = ∅) :
    (cleanupArtifacts setup number).Only (StorePrim.Harmless k) :=
  Prog.Only.bind (only_removeRegularFile (by simp [hk])) fun _ =>
    Prog.Only.bind (only_removeRegularFile (by simp [hk])) fun _ =>
      Prog.Only.bind (only_removeSocketArtifact (by simp [hk])) fun _ =>
        Prog.Only.bind (only_file trivial) fun _ =>
          Prog.Only.bind (only_removeAll hk) fun _ => only_file trivial

/-! ### Staging -/

/-- A file is being staged under a name of its own. -/
structure Staging (k : Terms) (handles : List Staged) (staged : Staged) (file : Nat)
    (v : Volume) : Prop where
  intact : Intact k handles v
  below : staged.suffix < v.temp
  entry : v.disk.entries staged.artifact = some file
  own : ∀ a ∈ committedNames, ¬ v.disk.Holds a file
  others : ∀ s ∈ handles, v.disk.entries s.artifact ≠ some file

theorem Intact.create (h : Intact k handles v) (hbelow : staged.suffix < v.temp)
    (hothers : ∀ s ∈ handles, s.suffix < staged.suffix) :
    Staging k handles staged v.disk.next (v.set (v.disk.create staged.artifact)) := by
  have hname : staged.artifact ∉ committedNames := fun hm => by cases hm
  have hother : ∀ s ∈ handles, (v.disk.create staged.artifact).entries s.artifact =
      v.disk.entries s.artifact := by
    intro s hs
    have hne : s.artifact ≠ staged.artifact := by
      intro heq
      injection heq with _ hsuffix
      exact (hothers s hs).ne hsuffix
    simp [hne]
  have hused : ∀ s ∈ handles, ∀ file, v.disk.entries s.artifact = some file →
      file ≠ v.disk.next := fun s hs file hfile => (h.fresh _ _ (Disk.holds_of_entries hfile)).ne
  refine ⟨⟨h.fresh.create, h.whole.create h.fresh hname, fun a ha => (h.stays a ha).change id,
    h.below, ?_⟩, hbelow, ?_, ?_, ?_⟩
  · intro s hs file hfile
    have hold := (hother s hs).symm.trans hfile
    simpa [Volume.set, Disk.create, hused s hs file hold] using h.staged s hs file hold
  · simp [Volume.set]
  · intro a ha hholds
    obtain hholds | ⟨rfl, -⟩ := Disk.holds_create hholds
    · exact (h.fresh a _ hholds).ne rfl
    · exact hname ha
  · intro s hs hfile
    exact hused s hs _ ((hother s hs).symm.trans hfile) rfl

theorem Staging.write {file : Nat} {written : List UInt8}
    (h : Staging k handles staged file v) :
    Staging k handles staged file (v.set (v.disk.write file written)) where
  intact := by
    refine ⟨h.intact.fresh, h.intact.whole.write h.own, h.intact.stays, h.intact.below,
      fun s hs f hf => ?_⟩
    have hne : f ≠ file := fun heq => h.others s hs (heq ▸ hf)
    simpa [Volume.set, Disk.write, hne] using h.intact.staged s hs f hf
  below := h.below
  entry := h.entry
  own := h.own
  others := h.others

theorem Staging.sync {file : Nat} (h : Staging k handles staged file v)
    (hbytes : k.staged staged (v.disk.files file).bytes) :
    Intact k (staged :: handles) (v.set (v.disk.sync file)) where
  fresh := h.intact.fresh
  whole := h.intact.whole.sync
  stays := h.intact.stays
  below := by
    intro s hs
    obtain rfl | hs := List.mem_cons.1 hs
    · exact h.below
    · exact h.intact.below s hs
  staged := by
    intro s hs f hf
    obtain rfl | hs := List.mem_cons.1 hs
    · cases h.entry.symm.trans hf
      simpa [Volume.set, Disk.sync] using hbytes
    · have hne : f ≠ file := fun heq => h.others s hs (heq ▸ hf)
      simpa [Volume.set, Disk.sync, hne] using h.intact.staged s hs f hf

/-- The staged file is written and synced, or is not staged. -/
theorem Staging.filled {file : Nat} (h : Staging k handles staged file v)
    (hcontents : k.staged staged contents) :
    (Manager.file (.write staged.artifact contents) >>= fun _ =>
      Manager.file (.sync staged.artifact) : Prog Error StorePrim Unit).wp k.reading (fun r v' =>
        (r = .ok () → Intact k (staged :: handles) v') ∧ Intact k handles v') v := by
  rw [Prog.wp_bind]
  refine ⟨h.intact.ready _, fun r v₁ hwrite => ?_⟩
  obtain ⟨f, hf, written, rfl, hok⟩ := hwrite
  cases h.entry.symm.trans hf
  have h₁ : Staging k handles staged file (v.set (v.disk.write file written)) := h.write
  cases r with
  | error e => exact ⟨fun hr => (by cases hr), h₁.intact⟩
  | ok _ =>
    obtain rfl := hok rfl
    refine ⟨h₁.intact.ready _, fun r v₂ hsync => ?_⟩
    cases r with
    | error e =>
      obtain rfl : v₂ = _ := hsync
      exact ⟨fun hr => (by cases hr), h₁.intact⟩
    | ok _ =>
      obtain ⟨f, hf, rfl⟩ := hsync
      cases h₁.entry.symm.trans hf
      have h₂ := h₁.sync (by simpa [Volume.set, Disk.write] using hcontents)
      exact ⟨fun _ => h₂, h₂.fewer (List.subset_cons_self _ _)⟩

/-- What is staged is added to what was. -/
theorem stage_keeps (h : Intact k handles v) (hcontents : ∀ n, k.staged ⟨epoch, n⟩ contents) :
    (stage setup epoch contents).wp k.reading (fun r v' =>
      (∀ staged, r = .ok staged → staged.epoch = epoch ∧ Intact k (staged :: handles) v') ∧
      ∀ e, r = .error e → Intact k handles v') v := by
  refine Prog.wp_perform_bind (h.ready _) ?_
  rintro counter v₁ ⟨rfl, rfl⟩
  have h₁ : Intact k handles { v with temp := v.temp + 1 } :=
    ⟨h.fresh, h.whole, h.stays, fun s hs => (h.below s hs).trans (Nat.lt_succ_self _), h.staged⟩
  refine Prog.wp_seq (harmless_keeps only_validateAbsent h₁ rfl)
    (fun e v' h' => ⟨fun _ hr => (by cases hr), fun _ _ => h'.1⟩) ?_
  rintro - v₂ ⟨h₂, htemp⟩
  rw [Prog.wp_bind]
  refine ⟨h₂.ready _, fun r v₃ hcreate => ?_⟩
  cases r with
  | error e =>
    obtain rfl : v₃ = v₂ := hcreate
    exact ⟨fun _ hr => (by cases hr), fun _ _ => h₂⟩
  | ok _ =>
    obtain ⟨-, rfl⟩ := hcreate
    have hstaging : Staging k handles ⟨epoch, v.temp⟩ v₂.disk.next
        (v₂.set (v₂.disk.create (Artifact.staging epoch.get v.temp))) :=
      h₂.create (htemp.symm ▸ Nat.lt_succ_self _) h.below
    generalize v₂.set (v₂.disk.create (Artifact.staging epoch.get v.temp)) = v₃ at hstaging
    refine (Prog.wp_bind ..).2 ⟨hstaging.intact.ready _, fun r v₄ hset => ?_⟩
    obtain rfl : v₄ = v₃ := hset
    cases r with
    | error e => exact ⟨fun _ hr => (by cases hr), fun _ _ => hstaging.intact⟩
    | ok _ =>
      refine Prog.wp_attempt_seq (hstaging.filled (hcontents v.temp)) ?_
      rintro r v₅ ⟨hok, hkept⟩
      cases r with
      | ok _ =>
        refine ⟨fun staged hs => ?_, fun _ hr => (by cases hr)⟩
        cases hs
        exact ⟨rfl, hok rfl⟩
      | error e =>
        refine Prog.wp_perform_bind (hkept.ready _) fun r v₆ hremove => ?_
        exact ⟨fun _ hr => (by cases hr), fun _ _ => hkept.dropped ⟨epoch, v.temp⟩ hremove⟩

/-! ### Installing -/

/-- The same store, with other bytes that its committed files may have. -/
def Terms.widen (k : Terms) (may : Artifact → List UInt8 → Prop) : Terms := { k with may }

/-- A name has a whole file that was staged. -/
def Installed (k : Terms) (staged : Staged) (target : Artifact) (v : Volume) : Prop :=
  ∃ file, v.disk.entries target = some file ∧ (v.disk.files file).synced = true ∧
    k.staged staged (v.disk.files file).bytes

variable {may : Artifact → List UInt8 → Prop} {target : Artifact}

theorem Intact.widen (h : Intact k handles v) (hmay : ∀ a bytes, k.may a bytes → may a bytes) :
    Intact (k.widen may) handles v :=
  ⟨h.fresh, h.whole.mono fun a _ => hmay a, h.stays, h.below, h.staged⟩

theorem Installed.stored (h : Installed k staged target v) :
    ∃ bytes, k.staged staged bytes ∧ v.disk.syncDir.Stored target bytes := by
  obtain ⟨file, hfile, hsynced, hstaged⟩ := h
  exact ⟨_, hstaged, Disk.stored_syncDir hfile hsynced⟩

/-- A committed name is given a staged file, by a link or by a rename. -/
theorem Intact.install {c : Change Artifact} {file : Nat} (h : Intact k handles v)
    (hmem : staged ∈ handles) (hfile : v.disk.entries staged.artifact = some file)
    (hcommitted : target.isCommitted = true)
    (hfit : ∀ bytes, k.staged staged bytes → k.may target bytes)
    (hc : c = .put target file ∨ c = .move staged.artifact target file) :
    Intact k handles (v.set (v.disk.change c)) ∧
      Installed k staged target (v.set (v.disk.change c)) := by
  have hputs : ∀ name f, c.Puts name f → name = target ∧ f = file := by
    obtain rfl | rfl := hc <;> exact fun _ _ hputs => ⟨hputs.1.symm, hputs.2.symm⟩
  have herases : ∀ a ∈ k.there, ¬ c.Erases a := by
    obtain rfl | rfl := hc
    · exact fun _ _ herase => herase
    · exact fun _ ha herase => k.staging_gone staged (herase.1 ▸ ha)
  have hentry : (v.disk.change c).entries target = some file := by
    obtain rfl | rfl := hc <;> simp [Change.apply]
  obtain ⟨hsynced, hstaged⟩ := h.staged staged hmem file hfile
  refine ⟨⟨h.fresh.change fun name f hput => ?_, h.whole.change fun name _ f hput => ?_,
    fun a ha => (h.stays a ha).change (herases a ha), h.below, fun s hs f hf => ?_⟩,
    file, hentry, hsynced, hstaged⟩
  · rw [(hputs name f hput).2]
    exact h.fresh _ _ (Disk.holds_of_entries hfile)
  · obtain ⟨rfl, rfl⟩ := hputs name f hput
    exact ⟨hsynced, hfit _ hstaged⟩
  · obtain hold | hput := apply_cases ((congrFun (v.disk.entries_change _) _).symm.trans hf)
    · exact h.staged s hs f hold
    · rw [← (hputs _ _ hput).1] at hcommitted
      cases hcommitted

theorem Installed.drop (h : Installed k staged target v) (hcommitted : target.isCommitted = true) :
    Installed k staged target (v.set (v.disk.change (.erase staged.artifact))) := by
  have hne : target ≠ staged.artifact := by
    rintro rfl
    cases hcommitted
  obtain ⟨file, hfile, hwhole⟩ := h
  refine ⟨file, ?_, hwhole⟩
  simpa [Volume.set, Change.apply, hne] using hfile

theorem wp_widen {ε α : Type} {p : Prog ε StorePrim α} {Q : Except ε α → Volume → Prop}
    (hmay : ∀ a bytes, k.may a bytes → may a bytes) (hp : p.wp k.reading Q v) :
    p.wp (k.widen may).reading Q v :=
  Prog.wp_reading_mono hp (fun _ _ _ _ hstep => hstep)
    fun _ _ hpre => ⟨hpre.1, hpre.2.1.mono fun a _ => hmay a, hpre.2.2⟩

theorem validateStaged_keeps (h : Intact k handles v) :
    (validateStaged setup staged epoch).wp k.reading (fun r v' => Intact k handles v' ∧
      (r = .ok () → staged.epoch = epoch)) v := by
  unfold validateStaged
  split
  · exact ⟨h, fun hr => (by cases hr)⟩
  · rename_i hepoch
    refine Prog.wp_mono (harmless_keeps only_validateExisting h rfl) fun r v' h' => ⟨h'.1, ?_⟩
    exact fun _ => not_not.1 hepoch

/-- A move that does not install drops what was staged. -/
theorem orDropStaged_keeps {move : Prog Error StorePrim Unit} {Done : Volume → Prop}
    (staged : Staged)
    (hmay : ∀ a bytes, k.may a bytes → may a bytes)
    (h : move.wp (k.widen may).reading (fun r v' => (r = .ok () → Done v') ∧
      ∀ e, r = .error e → Intact k handles v') v) :
    (orDropStaged staged move).wp (k.widen may).reading (fun r v' => (r = .ok () → Done v') ∧
      ∀ e, r = .error e → Intact k handles v') v := by
  refine Prog.wp_attempt_seq h ?_
  rintro r v₁ ⟨hok, herror⟩
  cases r with
  | ok _ => exact ⟨fun _ => hok rfl, fun _ hr => (by cases hr)⟩
  | error e =>
    have hdropped := wp_widen hmay (harmless_keeps (p := dropStaged staged)
      only_dropStaged (herror e rfl) rfl)
    refine Prog.wp_seq hdropped (fun _ _ h' => ⟨fun hr => (by cases hr), fun _ _ => h'.1⟩) ?_
    exact fun _ _ h' => ⟨fun hr => (by cases hr), fun _ _ => h'.1⟩

/-- The file is replaced, for good if the commit has no warning; or nothing is. -/
theorem commitReplace_keeps (h : Intact k handles v) (hmem : staged ∈ handles)
    (hmay : ∀ a bytes, k.may a bytes → may a bytes)
    (hfit : staged.epoch = epoch → ∀ bytes, k.staged staged bytes → may (.config epoch.get) bytes) :
    (commitReplace setup staged epoch).wp (k.widen may).reading (fun r v' =>
      (∀ warning, r = .ok warning → Intact (k.widen may) handles v' ∧ (warning = none →
        ∃ bytes, k.staged staged bytes ∧ v'.disk.Stored (.config epoch.get) bytes)) ∧
      ∀ e, r = .error e → Intact k handles v') v := by
  have hmoved : (do
      validateStaged setup staged epoch
      validateExistingRegularTarget setup (.config epoch.get)
      Manager.file (.rename staged.artifact (.config epoch.get)) : Prog Error StorePrim Unit).wp
      (k.widen may).reading (fun r v' =>
        (r = .ok () → Intact (k.widen may) handles v' ∧
          Installed k staged (.config epoch.get) v') ∧
        ∀ e, r = .error e → Intact k handles v') v := by
    refine Prog.wp_seq (wp_widen hmay (validateStaged_keeps h))
      (fun _ _ h' => ⟨fun hr => (by cases hr), fun _ _ => h'.1⟩) ?_
    rintro _ v₁ ⟨h₁, hepoch⟩
    refine Prog.wp_seq (wp_widen hmay (harmless_keeps only_validateExisting h₁ rfl))
      (fun _ _ h' => ⟨fun hr => (by cases hr), fun _ _ => h'.1⟩) ?_
    rintro - v₂ ⟨h₂, -⟩
    refine ⟨(h₂.widen hmay).ready _, fun r v₃ hrename => ?_⟩
    cases r with
    | error e =>
      obtain rfl : v₃ = v₂ := hrename
      exact ⟨fun hr => (by cases hr), fun _ _ => h₂⟩
    | ok _ =>
      obtain ⟨file, hfile, rfl⟩ := hrename
      exact ⟨fun _ => (h₂.widen hmay).install hmem hfile rfl (hfit (hepoch rfl)) (.inr rfl),
        fun _ hr => (by cases hr)⟩
  refine Prog.wp_seq (orDropStaged_keeps staged hmay hmoved)
    (fun _ _ h' => ⟨fun _ hr => (by cases hr), fun _ _ => h'.2 _ rfl⟩) ?_
  rintro _ v₁ ⟨hdone, -⟩
  obtain ⟨h₁, hinstalled⟩ := hdone rfl
  refine Prog.wp_perform_bind (h₁.ready _) fun r v₂ hsync => ?_
  refine ⟨fun warning hr => ⟨h₁.synced hsync, ?_⟩, fun _ hr => (by cases hr)⟩
  rintro rfl
  cases r with
  | error e => cases hr
  | ok _ =>
    obtain rfl : v₂ = _ := hsync
    exact hinstalled.stored

theorem atomicMoveNew_keeps (h : Intact k handles v) (hmem : staged ∈ handles)
    (hcommitted : target.isCommitted = true)
    (hfit : ∀ bytes, k.staged staged bytes → k.may target bytes) :
    (atomicMoveNew staged.artifact target).wp k.reading (fun r v' =>
      (r = .ok () → Intact k handles v' ∧ Installed k staged target v' ∧ target ∉ k.there) ∧
      ∀ e, r = .error e → Intact k handles v') v := by
  refine (Prog.wp_bind ..).2 ⟨h.ready _, fun r v₁ hlink => ?_⟩
  cases r with
  | error e =>
    obtain rfl : v₁ = v := hlink
    exact ⟨fun hr => (by cases hr), fun _ _ => h⟩
  | ok _ =>
    obtain ⟨file, hfile, hfree, rfl⟩ := hlink
    have hthere : target ∉ k.there := fun ht => by simpa [hfree] using (h.stays target ht).entries
    obtain ⟨h₁, hinstalled⟩ := h.install hmem hfile hcommitted hfit (.inl rfl)
    refine ⟨h₁.ready _, fun r v₂ hremove => ?_⟩
    have h₂ := h₁.dropped staged hremove
    cases r with
    | error e => exact ⟨fun hr => (by cases hr), fun _ _ => h₂⟩
    | ok _ =>
      obtain rfl : v₂ = _ := hremove
      exact ⟨fun _ => ⟨h₂, hinstalled.drop hcommitted, hthere⟩, fun _ hr => (by cases hr)⟩

/-- The end of a publication: the directory is synced, or nothing is promised. -/
theorem publish_keeps {α : Type} {move : Prog Error StorePrim Unit} {answer : α}
    (h : move.wp k.reading (fun r v' =>
      (r = .ok () → Intact k handles v' ∧ Installed k staged target v' ∧ target ∉ k.there) ∧
      ∀ e, r = .error e → Intact k handles v') v) :
    (do orDropStaged staged move; Manager.file .syncDir; pure answer :
      Prog Error StorePrim α).wp k.reading (fun r v' => Intact k handles v' ∧
        ∀ a, r = .ok a → a = answer ∧ target ∉ k.there ∧
          ∃ bytes, k.staged staged bytes ∧ v'.disk.Stored target bytes) v := by
  have hmoved := orDropStaged_keeps (k := k) staged (fun _ _ => id) h
  refine Prog.wp_seq hmoved (fun _ _ h' => ⟨h'.2 _ rfl, fun _ hr => (by cases hr)⟩) ?_
  rintro _ v₁ ⟨hdone, -⟩
  obtain ⟨h₁, hinstalled, hthere⟩ := hdone rfl
  refine (Prog.wp_bind ..).2 ⟨h₁.ready _, fun r v₂ hsync => ?_⟩
  have h₂ := h₁.synced hsync
  cases r with
  | error e => exact ⟨h₂, fun _ hr => (by cases hr)⟩
  | ok _ =>
    obtain rfl : v₂ = _ := hsync
    refine ⟨h₂, fun _ hr => ?_⟩
    cases hr
    exact ⟨rfl, hthere, hinstalled.stored⟩

theorem commitNew_keeps (h : Intact k handles v) (hmem : staged ∈ handles)
    (hfit : staged.epoch = epoch → ∀ bytes, k.staged staged bytes →
      k.may (.config epoch.get) bytes) :
    (commitNew setup staged epoch).wp k.reading (fun r v' => Intact k handles v' ∧
      ∀ path, r = .ok path → path = setup.path (.config epoch.get) ∧ .config epoch.get ∉ k.there ∧
        ∃ bytes, k.staged staged bytes ∧ v'.disk.Stored (.config epoch.get) bytes) v := by
  refine publish_keeps ?_
  refine Prog.wp_seq (validateStaged_keeps h)
    (fun _ _ h' => ⟨fun hr => (by cases hr), fun _ _ => h'.1⟩) ?_
  rintro _ v₁ ⟨h₁, hepoch⟩
  refine Prog.wp_seq (harmless_keeps only_validateAbsent h₁ rfl)
    (fun _ _ h' => ⟨fun hr => (by cases hr), fun _ _ => h'.1⟩) ?_
  rintro _ v₂ ⟨h₂, -⟩
  exact atomicMoveNew_keeps h₂ hmem rfl (hfit (hepoch rfl))

/-- What a committed name is read to hold. -/
theorem read_keeps {a : Artifact} {β : Type} {next : List UInt8 → Prog Error StorePrim β}
    {Q : Except Error β → Volume → Prop} (h : Intact k handles v)
    (herror : ∀ e v', Intact k handles v' → Q (.error e) v')
    (hnext : ∀ bytes, (∃ file, v.disk.entries a = some file ∧
      bytes = (v.disk.files file).bytes) → (next bytes).wp k.reading Q v) :
    (Manager.file (.read a) >>= next).wp k.reading Q v := by
  refine (Prog.wp_bind ..).2 ⟨h.ready _, fun r v₁ hread => ?_⟩
  cases r with
  | error e =>
    obtain rfl : v₁ = v := hread
    exact herror _ _ h
  | ok bytes =>
    obtain ⟨rfl, hfile⟩ := hread
    exact hnext bytes hfile

theorem backup_keeps {generation : Nat} (h : Intact k handles v)
    (hread : ∀ n bytes, k.may (.config epoch.get) bytes → k.staged ⟨epoch, n⟩ bytes)
    (hfit : ∀ n bytes, k.staged ⟨epoch, n⟩ bytes →
      k.may (.backup epoch.get generation) bytes) :
    (backup setup epoch generation).wp k.reading (fun r v' => Intact k handles v' ∧
      ∀ saved, r = .ok saved → saved = ⟨epoch, generation⟩ ∧ saved.artifact ∉ k.there) v := by
  refine Prog.wp_seq (harmless_keeps only_validateExisting h rfl)
    (fun _ _ h' => ⟨h'.1, fun _ hr => (by cases hr)⟩) ?_
  rintro _ v₁ ⟨h₁, -⟩
  refine read_keeps h₁ (fun _ _ h' => ⟨h', fun _ hr => (by cases hr)⟩) ?_
  rintro bytes ⟨file, hfile, rfl⟩
  have hbytes := (h₁.whole _ rfl file (Disk.holds_of_entries hfile)).2
  refine Prog.wp_seq (stage_keeps h₁ fun n => hread n _ hbytes)
    (fun _ _ h' => ⟨h'.2 _ rfl, fun _ hr => (by cases hr)⟩) ?_
  rintro staged v₂ ⟨hstaged, -⟩
  obtain ⟨rfl, h₂⟩ := hstaged staged rfl
  have hmoved : (do
      validateAbsentRegularTarget setup (.backup staged.epoch.get generation)
      atomicMoveNew staged.artifact (.backup staged.epoch.get generation) :
        Prog Error StorePrim Unit).wp k.reading (fun r v' =>
      (r = .ok () → Intact k (staged :: handles) v' ∧
        Installed k staged (.backup staged.epoch.get generation) v' ∧
        .backup staged.epoch.get generation ∉ k.there) ∧
      ∀ e, r = .error e → Intact k (staged :: handles) v') v₂ := by
    refine Prog.wp_seq (harmless_keeps only_validateAbsent h₂ rfl)
      (fun _ _ h' => ⟨fun hr => (by cases hr), fun _ _ => h'.1⟩) ?_
    rintro _ v₃ ⟨h₃, -⟩
    exact atomicMoveNew_keeps h₃ List.mem_cons_self rfl (hfit staged.suffix)
  refine Prog.wp_mono (publish_keeps hmoved) fun _ _ h' =>
    ⟨h'.1.fewer (List.subset_cons_self _ _), fun saved hr => ?_⟩
  obtain ⟨rfl, hthere, -⟩ := h'.2 saved hr
  exact ⟨rfl, hthere⟩

/-- `replace`: staged and committed at once. -/
def replace (setup : Setup Doc) (epoch : Epoch) (contents : List UInt8) :
    Prog Error StorePrim (Option String) := do
  let staged ← stage setup epoch contents
  commitReplace setup staged epoch

theorem restore_eq (setup : Setup Doc) (saved : Backup) : restore setup saved = (do
    validateExistingRegularTarget setup saved.artifact
    let contents ← Manager.file (.read saved.artifact)
    replace setup saved.epoch contents) := rfl

theorem replace_keeps (k : Terms) (may : Artifact → List UInt8 → Prop) (h : Intact k handles v)
    (hcontents : ∀ n, k.staged ⟨epoch, n⟩ contents)
    (hmay : ∀ a bytes, k.may a bytes → may a bytes)
    (hfit : ∀ n bytes, k.staged ⟨epoch, n⟩ bytes → may (.config epoch.get) bytes) :
    (replace setup epoch contents).wp (k.widen may).reading (fun r v' =>
      (∀ warning, r = .ok warning → Intact (k.widen may) handles v' ∧ (warning = none →
        ∃ n bytes, k.staged ⟨epoch, n⟩ bytes ∧ v'.disk.Stored (.config epoch.get) bytes)) ∧
      ∀ e, r = .error e → Intact k handles v') v := by
  refine Prog.wp_seq (wp_widen hmay (stage_keeps h hcontents))
    (fun _ _ h' => ⟨fun _ hr => (by cases hr), fun _ _ => h'.2 _ rfl⟩) ?_
  rintro staged v₁ ⟨hstaged, -⟩
  obtain ⟨rfl, h₁⟩ := hstaged staged rfl
  refine Prog.wp_mono (commitReplace_keeps h₁ List.mem_cons_self hmay fun _ => hfit staged.suffix)
    fun r v₂ h₂ => ⟨fun warning hr => ?_, fun e hr => ?_⟩
  · obtain ⟨hkept, hstored⟩ := h₂.1 warning hr
    exact ⟨hkept.fewer (List.subset_cons_self _ _), fun hw => ⟨staged.suffix, hstored hw⟩⟩
  · exact (h₂.2 e hr).fewer (List.subset_cons_self _ _)

theorem restore_keeps {saved : Backup} (h : Intact k handles v)
    (hread : ∀ n bytes, k.may saved.artifact bytes → k.staged ⟨saved.epoch, n⟩ bytes)
    (hfit : ∀ n bytes, k.staged ⟨saved.epoch, n⟩ bytes →
      k.may (.config saved.epoch.get) bytes) :
    (restore setup saved).wp k.reading (fun r v' => Intact k handles v' ∧ (r = .ok none →
      ∃ n bytes, k.staged ⟨saved.epoch, n⟩ bytes ∧
        v'.disk.Stored (.config saved.epoch.get) bytes)) v := by
  rw [restore_eq]
  refine Prog.wp_seq (harmless_keeps only_validateExisting h rfl)
    (fun _ _ h' => ⟨h'.1, fun hr => (by cases hr)⟩) ?_
  rintro _ v₁ ⟨h₁, -⟩
  refine read_keeps h₁ (fun _ _ h' => ⟨h', fun hr => (by cases hr)⟩) ?_
  rintro bytes ⟨file, hfile, rfl⟩
  have hbytes := (h₁.whole _ rfl file (Disk.holds_of_entries hfile)).2
  refine Prog.wp_mono (replace_keeps k k.may h₁ (fun n => hread n _ hbytes) (fun _ _ => id) hfit)
    fun r v₂ h₂ => ?_
  cases r with
  | ok warning =>
    obtain ⟨hkept, hstored⟩ := h₂.1 warning rfl
    refine ⟨hkept, fun hr => ?_⟩
    cases hr
    exact hstored rfl
  | error e => exact ⟨h₂.2 e rfl, fun hr => (by cases hr)⟩

end Keeps

end Chimera.Manager
