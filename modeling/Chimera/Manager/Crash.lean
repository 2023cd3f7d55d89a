import Chimera.Manager.Volume
import Chimera.Manager.Manager

/-! The store over the lives of its managers, each ended by a crash at any of its
operations, and its replacement of one file. -/

namespace Chimera.Manager
open Chimera.Model Chimera.Lib.Program Chimera.Lib.Durable

/-- What the store is called for. A staged file is known by its place among those held. -/
inductive Call where
  | stage (epoch : Epoch) (contents : List UInt8)
  | commitNew (index : Nat) (epoch : Epoch)
  | commitReplace (index : Nat) (epoch : Epoch)
  | discard (index : Nat)
  | replace (epoch : Epoch) (contents : List UInt8)
  | backup (epoch : Epoch) (generation : Nat)
  | restore (saved : Backup)
  | removeBackup (saved : Backup)
  | cleanup (number : Nat)

/-- The bytes that the call stages, and for which number. -/
def Call.contents : Call → List (Nat × List UInt8)
  | .stage epoch contents | .replace epoch contents => [(epoch.get, contents)]
  | _ => []

variable {Doc : Type}

/-- A call that takes no staged file, whatever its answer. -/
def holding {β : Type} (handles : List Staged) (p : Prog Error StorePrim β) :
    Prog Error StorePrim (List Staged) := do
  let _ ← (p.attempt : Prog Error StorePrim (Except Error β))
  pure handles

/-- A call that a staged file is moved into. -/
def consuming {β : Type} (handles : List Staged) (index : Nat)
    (p : Staged → Prog Error StorePrim β) : Prog Error StorePrim (List Staged) :=
  match handles[index]? with
  | some staged => holding (handles.eraseIdx index) (p staged)
  | none => pure handles

def Call.run (setup : Setup Doc) (handles : List Staged) :
    Call → Prog Error StorePrim (List Staged)
  | .stage epoch contents => do
    match ← ((Manager.stage setup epoch contents).attempt :
        Prog Error StorePrim (Except Error Staged)) with
    | .ok staged => pure (staged :: handles)
    | .error _ => pure handles
  | .commitNew index epoch =>
    consuming handles index fun staged => Manager.commitNew setup staged epoch
  | .commitReplace index epoch =>
    consuming handles index fun staged => Manager.commitReplace setup staged epoch
  | .discard index => consuming handles index dropStaged
  | .replace epoch contents => holding handles (Manager.replace setup epoch contents)
  | .backup epoch generation => holding handles (Manager.backup setup epoch generation)
  | .restore saved => holding handles (Manager.restore setup saved)
  | .removeBackup saved => holding handles (Manager.removeBackup setup saved)
  | .cleanup number => holding handles (cleanupArtifacts setup number)

def storeCalls (setup : Setup Doc) : List Call → List Staged → Prog Error StorePrim (List Staged)
  | [], handles => pure handles
  | call :: calls, handles => call.run setup handles >>= storeCalls setup calls

/-- The directory over the lives of its managers. Each starts with no staged file, and a
crash ends it. -/
inductive Lived (setup : Setup Doc) :
    Disk Artifact UInt8 → List (List Call) → Disk Artifact UInt8 → Prop
  | found (d : Disk Artifact UInt8) : Lived setup d [] d
  | crash {d d₁ d₂ : Disk Artifact UInt8} {calls : List Call} {lives : List (List Call)}
      {temp : Nat} {v : Volume}
      (run : (storeCalls setup calls []).At StorePrim.does ⟨d, temp⟩ v) (crash : v.disk.Crash d₁)
      (rest : Lived setup d₁ lives d₂) : Lived setup d (calls :: lives) d₂

/-- Committed files have bytes that fit their number, and so has what is staged for it. -/
def fitting (fit : Nat → List UInt8 → Prop) : Terms where
  may a bytes := fit a.number bytes
  staged s bytes := fit s.epoch.get bytes
  there := ∅
  there_committed := Set.empty_subset _

section Lives

variable {setup : Setup Doc} {fit : Nat → List UInt8 → Prop} {handles : List Staged}
  {v : Volume} {call : Call} {calls : List Call} {k : Terms}

theorem holding_keeps {β : Type} {p : Prog Error StorePrim β}
    (h : p.wp k.reading (fun _ v' => Intact k handles v') v) :
    (holding handles p).wp k.reading
      (fun r v' => ∃ held, r = .ok held ∧ Intact k held v') v :=
  Prog.wp_attempt_seq h fun _ _ h' => ⟨handles, rfl, h'⟩

theorem consuming_keeps {β : Type} {p : Staged → Prog Error StorePrim β} {index : Nat}
    (h : Intact k handles v) (hp : ∀ staged ∈ handles,
      (p staged).wp k.reading (fun _ v' => Intact k handles v') v) :
    (consuming handles index p).wp k.reading
      (fun r v' => ∃ held, r = .ok held ∧ Intact k held v') v := by
  unfold consuming
  split
  · rename_i staged hstaged
    refine holding_keeps (Prog.wp_mono (hp staged (List.mem_of_getElem? hstaged)) ?_)
    exact fun _ _ h' => h'.fewer List.eraseIdx_subset
  · exact ⟨handles, rfl, h⟩

theorem Call.run_keeps (h : Intact (fitting fit) handles v)
    (hcall : ∀ number bytes, (number, bytes) ∈ call.contents → fit number bytes) :
    (call.run setup handles).wp (fitting fit).reading
      (fun r v' => ∃ held, r = .ok held ∧ Intact (fitting fit) held v') v := by
  cases call with
  | stage epoch contents =>
    have hcontents := hcall _ _ List.mem_cons_self
    refine Prog.wp_attempt_seq (stage_keeps h fun _ => hcontents) fun r v' h' => ?_
    cases r with
    | ok staged => exact ⟨_, rfl, (h'.1 staged rfl).2⟩
    | error e => exact ⟨_, rfl, h'.2 e rfl⟩
  | commitNew index epoch =>
    refine consuming_keeps h fun staged hs => ?_
    refine Prog.wp_mono (commitNew_keeps h hs ?_) fun _ _ h' => h'.1
    rintro rfl
    exact fun _ => id
  | commitReplace index epoch =>
    refine consuming_keeps h fun staged hs => ?_
    refine Prog.wp_mono (commitReplace_keeps h hs (fun _ _ => id) ?_) fun r v' h' => ?_
    · rintro rfl
      exact fun _ => id
    · cases r with
      | ok warning => exact (h'.1 warning rfl).1
      | error e => exact h'.2 e rfl
  | discard index =>
    exact consuming_keeps h fun staged hs =>
      Prog.wp_mono (harmless_keeps only_dropStaged h rfl) fun _ _ h' => h'.1
  | replace epoch contents =>
    have hcontents := hcall _ _ List.mem_cons_self
    refine holding_keeps (Prog.wp_mono (replace_keeps _ _ h (fun _ => hcontents) (fun _ _ => id)
      fun _ _ => id) fun r v' h' => ?_)
    cases r with
    | ok warning => exact (h'.1 warning rfl).1
    | error e => exact h'.2 e rfl
  | backup epoch generation =>
    exact holding_keeps (Prog.wp_mono (backup_keeps h (fun _ _ => id) fun _ _ => id)
      fun _ _ h' => h'.1)
  | restore saved =>
    exact holding_keeps (Prog.wp_mono (restore_keeps h (fun _ _ => id) fun _ _ => id)
      fun _ _ h' => h'.1)
  | removeBackup saved =>
    exact holding_keeps (Prog.wp_mono (harmless_keeps (only_removeRegularFile id) h rfl)
      fun _ _ h' => h'.1)
  | cleanup number =>
    exact holding_keeps (Prog.wp_mono (harmless_keeps (only_cleanupArtifacts rfl) h rfl)
      fun _ _ h' => h'.1)

theorem storeCalls_keeps (h : Intact (fitting fit) handles v) (hcalls : ∀ call ∈ calls,
      ∀ number bytes, (number, bytes) ∈ call.contents → fit number bytes) :
    (storeCalls setup calls handles).wp (fitting fit).reading
      (fun r v' => ∃ held, r = .ok held ∧ Intact (fitting fit) held v') v := by
  induction calls generalizing handles v with
  | nil => exact ⟨handles, rfl, h⟩
  | cons call calls ih =>
    refine Prog.wp_seq (Call.run_keeps h (hcalls call List.mem_cons_self)) ?_ ?_
    · rintro e v' ⟨held, hr, -⟩
      cases hr
    · rintro x v' ⟨held, hr, h'⟩
      cases hr
      exact ih h' fun c hc => hcalls c (List.mem_cons_of_mem _ hc)

theorem intact_found {d : Disk Artifact UInt8} (hfresh : d.Fresh)
    (hwhole : d.Whole committedNames (fitting fit).may) (temp : Nat) :
    Intact (fitting fit) [] ⟨d, temp⟩ where
  fresh := hfresh
  whole := hwhole
  stays _ ha := by cases ha
  below _ hs := by cases hs
  staged _ hs := by cases hs

/-- What a crash at any operation of a session leaves. -/
theorem storeCalls_crashes {d d' : Disk Artifact UInt8} {temp : Nat}
    (h : Intact (fitting fit) [] ⟨d, temp⟩) (hcalls : ∀ call ∈ calls,
      ∀ number bytes, (number, bytes) ∈ call.contents → fit number bytes)
    (hrun : (storeCalls setup calls []).At StorePrim.does ⟨d, temp⟩ v) (hcrash : v.disk.Crash d')
    (temp' : Nat) :
    Intact (fitting fit) [] ⟨d', temp'⟩ := by
  have hthere : v.disk.Fresh ∧ v.disk.Whole committedNames (fitting fit).may := by
    refine Prog.wp_at (I := fun u => u.disk.Fresh ∧ u.disk.Whole committedNames (fitting fit).may)
      (storeCalls_keeps h hcalls) hrun (fun _ _ hpre => ⟨hpre.1, hpre.2.1⟩) ?_
    rintro r u ⟨_, -, h'⟩
    exact ⟨h'.fresh, h'.whole⟩
  exact intact_found (hcrash.fresh hthere.1) (hcrash.whole hthere.2) temp'

theorem Lived.intact {d d' : Disk Artifact UInt8} {lives : List (List Call)}
    (h : Lived setup d lives d') (hd : ∀ temp, Intact (fitting fit) [] ⟨d, temp⟩)
    (hlives : ∀ calls ∈ lives, ∀ call ∈ calls,
      ∀ number bytes, (number, bytes) ∈ call.contents → fit number bytes) (temp : Nat) :
    Intact (fitting fit) [] ⟨d', temp⟩ := by
  induction h with
  | found d => exact hd temp
  | crash run crash rest ih =>
    refine ih (storeCalls_crashes (hd _) (hlives _ List.mem_cons_self) run crash) ?_
    exact fun calls hcalls => hlives calls (List.mem_cons_of_mem _ hcalls)

/-- After any lives, a committed file is absent or has the very bytes that were once staged
for its number, or that a file of it had at first. -/
theorem committed_whole {d d' : Disk Artifact UInt8} {lives : List (List Call)} {a : Artifact}
    {bytes : List UInt8} (hd : d.Settled) (h : Lived setup d lives d')
    (ha : a.isCommitted = true) (himage : d'.image a = some bytes) :
    (∃ calls ∈ lives, ∃ call ∈ calls, (a.number, bytes) ∈ call.contents) ∨
      ∃ b, b.isCommitted = true ∧ b.number = a.number ∧ d.image b = some bytes := by
  let fit : Nat → List UInt8 → Prop := fun number bytes =>
    (∃ calls ∈ lives, ∃ call ∈ calls, (number, bytes) ∈ call.contents) ∨
      ∃ b, b.isCommitted = true ∧ b.number = number ∧ d.image b = some bytes
  have hstart : ∀ temp, Intact (fitting fit) [] ⟨d, temp⟩ := fun temp =>
    intact_found hd.fresh (hd.whole fun b hb bytes hbytes => .inr ⟨b, hb, rfl, hbytes⟩) temp
  have hend := h.intact hstart (fun calls hcalls call hcall number bytes hbytes =>
    .inl ⟨calls, hcalls, call, hcall, hbytes⟩) 0
  exact hend.whole.image ha himage

end Lives

/-- A directory with one committed file. -/
def oneFile : Disk Artifact UInt8 where
  stored a := if a = .config 1 then some 0 else none
  pending := []
  files _ := ⟨[1], true⟩
  next := 1

theorem oneFile_settled : oneFile.Settled where
  pending := rfl
  synced _ := rfl
  fresh := by
    rintro name file (hstored | ⟨c, hc, -⟩)
    · simp only [oneFile, Option.ite_none_right_eq_some, Option.some.injEq] at hstored
      exact hstored.2 ▸ Nat.one_pos
    · cases hc

/-- The file is replaced, and the directory not yet synced. -/
def replacing : Disk Artifact UInt8 :=
  (((oneFile.create (.staging 1 0)).write 1 [2]).sync 1).change
    (.move (.staging 1 0) (.config 1) 1)

/-- What a crash leaves of it that loses no change. -/
def replaced : Disk Artifact UInt8 where
  stored := replacing.entries
  pending := []
  files file := ⟨(replacing.files file).bytes, true⟩
  next := 2

theorem at_ok {α β : Type} {op : StorePrim (Except String β)}
    {next : Except String β → Prog Error StorePrim α} {v t v' : Volume} (answer : β)
    (hstep : op.does v (.ok answer) t) (hnext : (next (.ok answer)).At StorePrim.does t v') :
    (Prog.call op next).At StorePrim.does v v' := Prog.at_call hstep hnext

theorem replacing_reached : (storeCalls plainSetup [.replace .one [2]] []).At StorePrim.does
    ⟨oneFile, 0⟩ ⟨replacing, 1⟩ := by
  refine Prog.at_call (b := 0) ⟨rfl, rfl⟩ ?_
  refine at_ok none ⟨rfl, by decide⟩ ?_
  refine at_ok () ⟨by decide, rfl⟩ ?_
  refine at_ok () rfl ?_
  refine at_ok () ⟨1, by decide, [2], rfl, fun _ => rfl⟩ ?_
  refine at_ok () ⟨1, by decide, rfl⟩ ?_
  refine at_ok (some (.file [2])) ⟨rfl, by decide⟩ ?_
  refine at_ok (some (.file [1])) ⟨rfl, by decide⟩ ?_
  refine at_ok () ⟨1, by decide, rfl⟩ ?_
  exact .inl rfl

theorem replacing_lived : Lived plainSetup oneFile [[.replace .one [2]]] replaced :=
  .crash replacing_reached ⟨_, _, .refl _, fun _ _ => rfl, rfl⟩ (.found _)

theorem replaced_whole :
    (∃ calls ∈ [[Call.replace .one [2]]], ∃ call ∈ calls, (1, [2]) ∈ call.contents) ∨
      ∃ b : Artifact, b.isCommitted = true ∧ b.number = 1 ∧ oneFile.image b = some [2] :=
  committed_whole (a := .config 1) oneFile_settled replacing_lived rfl rfl

/-! ## Replacement -/

section Replacement

variable {setup : Setup Doc} {d d' : Disk Artifact UInt8} {k : Terms} {handles : List Staged}
  {v : Volume} {epoch : Epoch} {contents : List UInt8}

/-- The store with every crash of it leading to what is allowed. -/
def crashReading (allowed : Disk Artifact UInt8 → Prop) : Reading StorePrim Volume where
  step := StorePrim.does
  pre := fun _ v => ∀ d', v.disk.Crash d' → allowed d'

/-- The committed files are those of `d`. -/
def Preserved (d d' : Disk Artifact UInt8) : Prop :=
  ∀ a, a.isCommitted = true → d'.image a = d.image a

/-- They are, but for one that may have been given the contents. -/
def Superseded (d : Disk Artifact UInt8) (target : Artifact) (contents : List UInt8)
    (d' : Disk Artifact UInt8) : Prop :=
  ∀ a, a.isCommitted = true →
    d'.image a = d.image a ∨ a = target ∧ d'.image a = some contents

def present (d : Disk Artifact UInt8) : Set Artifact :=
  { a | a.isCommitted = true ∧ (d.image a).isSome = true }

/-- The committed files as they are at first, and what is staged. -/
def keeping (d : Disk Artifact UInt8) (contents : List UInt8) : Terms where
  may a bytes := d.image a = some bytes
  staged _ bytes := bytes = contents
  there := present d
  there_committed _ ha := ha.1

/-- What may be the bytes of a file in the end. -/
def mayReplace (d : Disk Artifact UInt8) (target : Artifact) (contents : List UInt8)
    (a : Artifact) (bytes : List UInt8) : Prop :=
  d.image a = some bytes ∨ a = target ∧ bytes = contents

theorem intact_keeping (hd : d.Settled) (temp : Nat) :
    Intact (keeping d contents) [] ⟨d, temp⟩ where
  fresh := hd.fresh
  whole := hd.whole fun _ _ _ => id
  stays _ ha := hd.stays ha.2
  below _ hs := by cases hs
  staged _ hs := by cases hs

/-- What is whole and not removed is found after a crash. -/
theorem image_crash {may : Artifact → List UInt8 → Prop} {a : Artifact}
    (hwhole : v.disk.Whole committedNames may)
    (hstays : ∀ a ∈ present d, v.disk.Stays a) (hcrash : v.disk.Crash d')
    (ha : a.isCommitted = true) :
    d'.image a = d.image a ∨ ∃ bytes, d'.image a = some bytes ∧ may a bytes := by
  cases himage : d'.image a with
  | some bytes => exact .inr ⟨bytes, rfl, (hcrash.whole hwhole).image ha himage⟩
  | none =>
    left
    by_contra hne
    have hthere := hcrash.stays (hstays a ⟨ha, Option.isSome_iff_ne_none.2 fun h => hne h.symm⟩)
    simpa [himage] using hthere.image

theorem preserved_crash (h : Intact (keeping d contents) handles v) (hcrash : v.disk.Crash d') :
    Preserved d d' := by
  intro a ha
  obtain hsame | ⟨bytes, himage, hmay⟩ := image_crash h.whole h.stays hcrash ha
  · exact hsame
  · exact himage.trans hmay.symm

theorem superseded_crash {target : Artifact}
    (hwhole : v.disk.Whole committedNames (mayReplace d target contents))
    (hstays : ∀ a ∈ present d, v.disk.Stays a) (hcrash : v.disk.Crash d') :
    Superseded d target contents d' := by
  intro a ha
  obtain hsame | ⟨bytes, himage, hold | ⟨rfl, rfl⟩⟩ := image_crash hwhole hstays hcrash ha
  · exact .inl hsame
  · exact .inl (himage.trans hold.symm)
  · exact .inr ⟨rfl, himage⟩

/-- A replacement has happened whole or not at all, wherever it crashes, and touches no other
committed file. One that fails has not happened, and one without a warning is for good. -/
theorem replace_is_atomic (hd : d.Settled) (temp : Nat) :
    (replace setup epoch contents).wp
      (crashReading (Superseded d (.config epoch.get) contents)) (fun r v' =>
        (∀ d', v'.disk.Crash d' → Superseded d (.config epoch.get) contents d') ∧
        (∀ e, r = .error e → ∀ d', v'.disk.Crash d' → Preserved d d') ∧
        (r = .ok none → v'.disk.Stored (.config epoch.get) contents)) ⟨d, temp⟩ := by
  refine Prog.wp_reading_mono (Prog.wp_mono (replace_keeps (keeping d contents)
    (mayReplace d (.config epoch.get) contents) (intact_keeping hd temp) (fun _ => rfl)
    (fun _ _ => .inl) fun _ _ hbytes => .inr ⟨rfl, hbytes⟩) fun r v' h => ?_)
    (fun _ _ _ _ => id) fun _ _ hpre d' hcrash => superseded_crash hpre.2.1 hpre.2.2 hcrash
  cases r with
  | ok warning =>
    obtain ⟨hkept, hstored⟩ := h.1 warning rfl
    refine ⟨fun d' hcrash => superseded_crash hkept.whole hkept.stays hcrash,
      fun _ hr => (by cases hr), fun hr => ?_⟩
    cases hr
    obtain ⟨_, bytes, hbytes, hfinal⟩ := hstored rfl
    exact hbytes ▸ hfinal
  | error e =>
    have hkept := h.2 e rfl
    exact ⟨fun d' hcrash a ha => .inl (preserved_crash hkept hcrash a ha),
      fun _ _ _ => preserved_crash hkept, fun hr => (by cases hr)⟩

theorem oneFile_replace : (replace plainSetup .one [2]).wp
    (crashReading (Superseded oneFile (.config Epoch.one.get) [2])) (fun r v' =>
      (∀ d', v'.disk.Crash d' → Superseded oneFile (.config Epoch.one.get) [2] d') ∧
      (∀ e, r = .error e → ∀ d', v'.disk.Crash d' → Preserved oneFile d') ∧
      (r = .ok none → v'.disk.Stored (.config Epoch.one.get) [2])) ⟨oneFile, 0⟩ :=
  replace_is_atomic oneFile_settled 0

/-- A replacement that is undone. -/
def rollback (setup : Setup Doc) (epoch : Epoch) (generation : Nat) (contents : List UInt8) :
    Prog Error StorePrim (Option String) := do
  let saved ← backup setup epoch generation
  let _ ← ((replace setup epoch contents).attempt :
    Prog Error StorePrim (Except Error (Option String)))
  restore setup saved

/-- The committed files are those of `d`, but for two: one may have been given the contents,
and the other the bytes of the first. -/
def Saving (d : Disk Artifact UInt8) (target saved : Artifact) (contents : List UInt8)
    (d' : Disk Artifact UInt8) : Prop :=
  ∀ a, a.isCommitted = true → d'.image a = d.image a ∨
    (a = target ∧ d'.image a = some contents) ∨ (a = saved ∧ d'.image a = d.image target)

/-- The committed files as they are at first, and one that is saved. -/
def saving (d : Disk Artifact UInt8) (target saved : Artifact) : Terms where
  may a bytes := d.image a = some bytes ∨ a = saved ∧ d.image target = some bytes
  staged _ bytes := d.image target = some bytes
  there := present d
  there_committed _ ha := ha.1

def maySave (d : Disk Artifact UInt8) (target saved : Artifact) (contents : List UInt8)
    (a : Artifact) (bytes : List UInt8) : Prop :=
  (d.image a = some bytes ∨ a = saved ∧ d.image target = some bytes) ∨ a = target ∧ bytes = contents

theorem intact_saving {target saved : Artifact} (hd : d.Settled) (temp : Nat) :
    Intact (saving d target saved) [] ⟨d, temp⟩ where
  fresh := hd.fresh
  whole := hd.whole fun _ _ _ => .inl
  stays _ ha := hd.stays ha.2
  below _ hs := by cases hs
  staged _ hs := by cases hs

theorem saving_crash {target saved : Artifact}
    (hwhole : v.disk.Whole committedNames (maySave d target saved contents))
    (hstays : ∀ a ∈ present d, v.disk.Stays a) (hcrash : v.disk.Crash d') :
    Saving d target saved contents d' := by
  intro a ha
  obtain hsame | ⟨bytes, himage, (hold | ⟨rfl, hold⟩) | ⟨rfl, rfl⟩⟩ :=
    image_crash hwhole hstays hcrash ha
  · exact .inl hsame
  · exact .inl (himage.trans hold.symm)
  · exact .inr (.inr ⟨rfl, himage.trans hold.symm⟩)
  · exact .inr (.inl ⟨rfl, himage⟩)

/-- Before anything is staged, anything may be. -/
theorem Intact.restage {staged : Staged → List UInt8 → Prop} (h : Intact k [] v) :
    Intact { k with staged } [] v :=
  ⟨h.fresh, h.whole, h.stays, h.below, fun _ hs => by cases hs⟩

theorem rollback_keeps {generation : Nat} (hd : d.Settled) (temp : Nat) :
    (rollback setup epoch generation contents).wp
      ((saving d (.config epoch.get) (.backup epoch.get generation)).widen
        (maySave d (.config epoch.get) (.backup epoch.get generation) contents)).reading
      (fun r v' => Intact ((saving d (.config epoch.get) (.backup epoch.get generation)).widen
          (maySave d (.config epoch.get) (.backup epoch.get generation) contents)) [] v' ∧
        (r = .ok none → ∃ bytes, d.image (.config epoch.get) = some bytes ∧
          v'.disk.Stored (.config epoch.get) bytes)) ⟨d, temp⟩ := by
  have hread : ∀ (_ : Nat) (bytes : List UInt8),
      (saving d (.config epoch.get) (.backup epoch.get generation)).may (.config epoch.get) bytes →
      d.image (.config epoch.get) = some bytes := by
    rintro - bytes (hold | ⟨hname, -⟩)
    · exact hold
    · cases hname
  refine Prog.wp_seq (wp_widen (fun _ _ => .inl) (backup_keeps (intact_saving hd temp) hread
    fun _ _ hold => .inr ⟨rfl, hold⟩))
    (fun _ _ h' => ⟨h'.1.widen fun _ _ => .inl, fun hr => (by cases hr)⟩) ?_
  rintro saved v₁ ⟨h₁, hsaved⟩
  obtain ⟨rfl, hfree⟩ := hsaved saved rfl
  refine Prog.wp_attempt_seq (replace_keeps
    { saving d (.config epoch.get) (.backup epoch.get generation) with
      staged := fun _ bytes => bytes = contents } _ h₁.restage
    (fun _ => rfl) (fun _ _ => .inl) fun _ _ hbytes => .inr ⟨rfl, hbytes⟩) ?_
  rintro r v₂ ⟨hok, herror⟩
  have h₂ : Intact ((saving d (.config epoch.get) (.backup epoch.get generation)).widen
      (maySave d (.config epoch.get) (.backup epoch.get generation) contents)) [] v₂ := by
    cases r with
    | ok warning => exact (hok warning rfl).1.restage
    | error e => exact ((herror e rfl).widen fun _ _ => .inl).restage
  have hsame : d.image (.backup epoch.get generation) = none := by
    by_contra hne
    exact hfree ⟨rfl, Option.isSome_iff_ne_none.2 hne⟩
  refine Prog.wp_mono (restore_keeps h₂ ?_ fun _ _ hold => .inl (.inl hold))
    fun r v₃ h₃ => ⟨h₃.1, fun hr => ?_⟩
  · rintro - bytes ((hold | ⟨-, hold⟩) | ⟨hname, -⟩)
    · cases hsame.symm.trans hold
    · exact hold
    · cases hname
  · obtain ⟨_, bytes, hold, hstored⟩ := h₃.2 hr
    exact ⟨bytes, hold, hstored⟩

/-- The file has its first bytes or the contents wherever an undone replacement crashes, and
if it is undone without a warning, its first bytes for good. -/
theorem rollback_restores {generation : Nat} (hd : d.Settled) (temp : Nat) :
    (rollback setup epoch generation contents).wp
      (crashReading (Saving d (.config epoch.get) (.backup epoch.get generation) contents))
      (fun r v' => (∀ d', v'.disk.Crash d' →
          Saving d (.config epoch.get) (.backup epoch.get generation) contents d') ∧
        (r = .ok none → ∃ bytes, d.image (.config epoch.get) = some bytes ∧
          v'.disk.Stored (.config epoch.get) bytes)) ⟨d, temp⟩ := by
  refine Prog.wp_reading_mono (Prog.wp_mono (rollback_keeps hd temp) fun r v' h => ?_)
    (fun _ _ _ _ => id) fun _ _ hpre d' hcrash => saving_crash hpre.2.1 hpre.2.2 hcrash
  exact ⟨fun d' hcrash => saving_crash h.1.whole h.1.stays hcrash, h.2⟩

theorem oneFile_rollback : (rollback plainSetup .one 3 [2]).wp
    (crashReading (Saving oneFile (.config Epoch.one.get) (.backup Epoch.one.get 3) [2]))
    (fun r v' => (∀ d', v'.disk.Crash d' →
        Saving oneFile (.config Epoch.one.get) (.backup Epoch.one.get 3) [2] d') ∧
      (r = .ok none → ∃ bytes, oneFile.image (.config Epoch.one.get) = some bytes ∧
        v'.disk.Stored (.config Epoch.one.get) bytes)) ⟨oneFile, 0⟩ :=
  rollback_restores oneFile_settled 0

end Replacement

end Chimera.Manager
