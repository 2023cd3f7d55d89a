import Chimera.Manager.Frame
import Mathlib.Data.Set.Insert

/-! What the store does to the runtime files. Each primitive touches the names it
is given; so the store's functions are read as changes of a few names, and of
their bytes where a caller depends on them. -/

namespace Chimera.Manager
open Chimera.Model Chimera.Lib.Program

variable {Doc : Type}

/-- The runtime files without the runtimes' own artifacts. -/
abbrev Files := Artifact → Option Node

def World.files (w : World Doc) : Files := fun a => if a.ofRuntime then none else w.artifacts.find a

theorem World.files_eq {w : World Doc} {a : Artifact} (ha : a.ofRuntime = false) :
    w.files a = w.artifacts.find a := by
  simp only [World.files, ha]
  rfl

@[simp] theorem World.files_elapse (env : Env Doc) (w : World Doc) :
    (w.elapse env).files = w.files := by
  funext a
  simp only [World.files]
  split
  · rfl
  · rename_i ha
    exact World.elapse_find (by simpa using ha)

theorem World.files_setArtifacts {w : World Doc} {d : Directory} {S : Set Artifact}
    (h : ∀ a ∉ S, d.find a = w.artifacts.find a) (a : Artifact) (ha : a ∉ S) :
    (w.setArtifacts d).files a = w.files a := by
  simp only [World.files, World.setArtifacts]
  split
  · rfl
  · exact h a ha

/-! ## The primitives -/

/-- The names a primitive may change. -/
def StorePrim.touched {β : Type} : StorePrim β → Set Artifact
  | .createNew a | .write a _ | .remove a => {a}
  | .link _ target => {target}
  | .rename source target => {source, target}
  | _ => ∅

/-- What a caller may know of the bytes. -/
def StorePrim.outcome : ∀ {β : Type}, StorePrim β → Files → β → Files → Prop
  | _, .write a bytes, _, r, f' => r = .ok () → a.ofRuntime = false → f' a = some (.file bytes)
  | _, .link source target, f, r, f' =>
    r = .ok () → source.ofRuntime = false → target.ofRuntime = false → f' target = f source
  | _, .rename source target, f, r, f' =>
    (r = .ok () → source.ofRuntime = false → target.ofRuntime = false → f' target = f source) ∧
    ∀ e, r = .error e → f' = f
  | _, .read a, f, r, _ => ∀ bytes, r = .ok bytes → a.ofRuntime = false → f a = some (.file bytes)
  | _, _, _, _, _ => True

def filesReading : Reading StorePrim Files where
  step := fun op f b f' => (∀ a ∉ op.touched, f' a = f a) ∧ op.outcome f b f'
  pre := fun _ _ => True

section Primitives

variable {env : Env Doc} {w t : World Doc}

/-- An operation on the directory, seen through the files. -/
theorem onDirectory_files {β : Type} {act : Directory → Except String β × Directory}
    {r : Except String β} (h : onDirectory env act w = (.ok r, t)) :
    (∃ text, r = .error text ∧ t.files = w.files) ∨
    (r = (act (w.elapse env).artifacts).1 ∧
      t = (w.elapse env).setArtifacts (act (w.elapse env).artifacts).2) := by
  simp only [onDirectory] at h
  have ha := outside_ok h
  split at ha
  · cases ha
    exact .inl ⟨_, rfl, World.files_elapse env w⟩
  · cases ha
    exact .inr ⟨rfl, rfl⟩

/-- The directory is only looked at. -/
theorem onDirectory_reads {β : Type} {act : Directory → Except String β × Directory}
    {r : Except String β} (hact : ∀ d, (act d).2 = d) (h : onDirectory env act w = (.ok r, t)) :
    t.files = w.files := by
  rcases onDirectory_files h with ⟨text, -, ht⟩ | ⟨-, rfl⟩
  · exact ht
  · rw [hact]
    exact World.files_elapse env w

/-- The directory changes at the names of `S`. -/
theorem onDirectory_touches {β : Type} {act : Directory → Except String β × Directory}
    {r : Except String β} {S : Set Artifact}
    (hact : ∀ (d : Directory), ∀ a ∉ S, (act d).2.find a = d.find a)
    (h : onDirectory env act w = (.ok r, t)) : ∀ a ∉ S, t.files a = w.files a := by
  intro a ha
  rcases onDirectory_files h with ⟨text, -, ht⟩ | ⟨-, rfl⟩
  · rw [ht]
  · rw [World.files_setArtifacts (hact _) a ha, World.files_elapse]

theorem createNew_find {d : Directory} {a b : Artifact} (h : b ∉ ({a} : Set Artifact)) :
    (d.createNew a).2.find b = d.find b := by
  unfold Directory.createNew
  split
  · rfl
  · exact Directory.find_put.trans (if_neg h)

theorem link_find {d : Directory} {source target b : Artifact}
    (h : b ∉ ({target} : Set Artifact)) : (d.link source target).2.find b = d.find b := by
  unfold Directory.link
  split
  · exact Directory.find_put.trans (if_neg h)
  · rfl
  · rfl

theorem link_target {d : Directory} {source target : Artifact}
    (h : (d.link source target).1 = .ok ()) :
    (d.link source target).2.find target = d.find source := by
  unfold Directory.link at h ⊢
  split
  · rename_i hs ht
    rw [hs]
    exact Directory.find_put.trans (if_pos rfl)
  · rename_i hs ht
    simp only [hs, ht] at h
    cases h
  · rename_i hs
    simp only [hs] at h
    cases h

theorem rename_find {d : Directory} {source target b : Artifact}
    (h : b ∉ ({source, target} : Set Artifact)) : (d.rename source target).2.find b = d.find b := by
  have hs : b ≠ source := fun he => h (.inl he)
  have ht : b ≠ target := fun he => h (.inr he)
  unfold Directory.rename
  split
  · rw [Directory.find_put, if_neg ht, Directory.find_erase, if_neg hs]
  · rfl

theorem rename_target {d : Directory} {source target : Artifact}
    (h : (d.rename source target).1 = .ok ()) :
    (d.rename source target).2.find target = d.find source := by
  unfold Directory.rename at h ⊢
  split
  · rename_i hs
    rw [hs]
    exact Directory.find_put.trans (if_pos rfl)
  · rename_i hs
    simp only [hs] at h
    cases h

theorem rename_failed {d : Directory} {source target : Artifact} {e : String}
    (h : (d.rename source target).1 = .error e) : (d.rename source target).2 = d := by
  unfold Directory.rename at h ⊢
  split
  · rename_i hs
    simp only [hs] at h
    cases h
  · rfl

theorem remove_find {d : Directory} {a b : Artifact} (h : b ∉ ({a} : Set Artifact)) :
    (d.remove a).2.find b = d.find b := by
  unfold Directory.remove
  split
  · exact Directory.find_erase.trans (if_neg h)
  · rfl

theorem storeHandle_files {β : Type} (op : StorePrim β) (b : β)
    (h : storeHandle env op w = (.ok b, t)) : filesReading.step op w.files b t.files := by
  have reads : t.files = w.files → ∀ a ∉ op.touched, t.files a = w.files a := by
    intro ht a _
    rw [ht]
  cases op with
  | temp =>
    cases h
    exact ⟨fun _ _ => rfl, trivial⟩
  | stat a | setPermissions a | sync a | readDir | syncDir =>
    exact ⟨reads (onDirectory_reads (fun _ => rfl) h), trivial⟩
  | createNew a => exact ⟨onDirectory_touches (fun d b hb => createNew_find hb) h, trivial⟩
  | remove a => exact ⟨onDirectory_touches (fun d b hb => remove_find hb) h, trivial⟩
  | write a bytes =>
    simp only [storeHandle] at h
    have hput : ∀ (n : Node), ∀ b ∉ ({a} : Set Artifact),
        ((w.elapse env).setArtifacts ((w.elapse env).artifacts.put a n)).files b = w.files b := by
      intro n b hb
      rw [World.files_setArtifacts (fun _ hc => Directory.find_put.trans (if_neg hc)) b hb,
        World.files_elapse]
    have ha := outside_ok h
    split at ha
    · cases ha
      exact ⟨hput _, (by rintro ⟨⟩)⟩
    · cases ha
      refine ⟨hput _, fun _ hr => ?_⟩
      rw [World.files_eq hr]
      exact Directory.find_put.trans (if_pos rfl)
  | link source target =>
    simp only [storeHandle] at h
    refine ⟨onDirectory_touches (fun d b hb => link_find hb) h, ?_⟩
    intro hr hs ht
    rcases onDirectory_files h with ⟨text, he, -⟩ | ⟨hb, rfl⟩
    · rw [hr] at he
      cases he
    · rw [World.files_eq ht, ← World.files_elapse env w, World.files_eq hs]
      exact link_target (hb.symm.trans hr)
  | rename source target =>
    simp only [storeHandle] at h
    refine ⟨onDirectory_touches (fun d b hb => rename_find hb) h, ?_, ?_⟩
    · intro hr hs ht
      rcases onDirectory_files h with ⟨text, he, -⟩ | ⟨hb, rfl⟩
      · rw [hr] at he
        cases he
      · rw [World.files_eq ht, ← World.files_elapse env w, World.files_eq hs]
        exact rename_target (hb.symm.trans hr)
    · intro e hr
      rcases onDirectory_files h with ⟨text, -, ht⟩ | ⟨hb, rfl⟩
      · exact ht
      · rw [rename_failed (hb.symm.trans hr)]
        exact World.files_elapse env w
  | read a =>
    simp only [storeHandle] at h
    refine ⟨reads (onDirectory_reads (fun _ => rfl) h), ?_⟩
    intro bytes hr ha
    rcases onDirectory_files h with ⟨text, he, -⟩ | ⟨hb, -⟩
    · rw [hr] at he
      cases he
    · have hread : (w.elapse env).artifacts.read a = .ok bytes := hb.symm.trans hr
      rw [← World.files_elapse env w, World.files_eq ha]
      unfold Directory.read at hread
      split at hread
      · rename_i heq
        rw [heq, Except.ok.inj hread]
      · cases hread
      · cases hread

theorem filesReading_sound (env : Env Doc) :
    filesReading.Sound (storeHandle env) (fun _ _ => True) World.files :=
  ⟨fun op _ _ b _ h => storeHandle_files op b h⟩

theorem exec_files {ε α : Type} {p : Prog ε StorePrim α} {r : Except ε α}
    {Q : Except ε α → Files → Prop} (hp : p.wp filesReading Q w.files)
    (h : exec (storeHandle env) p w = (.ok r, t)) : Q r t.files :=
  (filesReading_sound env).returns
    (along_of_forall (h := storeHandle env) (fun _ _ => trivial) _) hp h

end Primitives

/-! ## Which names a function touches -/

/-- Whatever happens, only names of `S` change. -/
def Touches {ε α : Type} (S : Set Artifact) (p : Prog ε StorePrim α) : Prop :=
  ∀ f, p.wp filesReading (fun _ f' => ∀ a ∉ S, f' a = f a) f

section Touches

variable {ε α β : Type} {S : Set Artifact}

theorem Touches.ret (r : Except ε α) : Touches S (Prog.ret r : Prog ε StorePrim α) :=
  fun _ _ _ => rfl

theorem Touches.call {op : StorePrim β} {next : β → Prog ε StorePrim α} (hop : op.touched ⊆ S)
    (hnext : ∀ b, Touches S (next b)) : Touches S (Prog.call op next) := by
  intro f
  refine ⟨trivial, fun b f₁ hstep => ?_⟩
  refine Prog.wp_mono (hnext b f₁) fun r f₂ h a ha => ?_
  exact (h a ha).trans (hstep.1 a fun hm => ha (hop hm))

theorem Touches.bind {p : Prog ε StorePrim α} {f : α → Prog ε StorePrim β} (hp : Touches S p)
    (hf : ∀ x, Touches S (f x)) : Touches S (p >>= f) := by
  intro g
  refine Prog.wp_seq (hp g) (fun e g' h => h) ?_
  intro x g₁ h₁
  refine Prog.wp_mono (hf x g₁) fun r g₂ h₂ a ha => ?_
  exact (h₂ a ha).trans (h₁ a ha)

theorem Touches.attempt {ε' : Type} {p : Prog ε StorePrim α} (hp : Touches S p) :
    Touches S (p.attempt : Prog ε' StorePrim (Except ε α)) :=
  fun f => (Prog.wp_attempt ..).2 (hp f)

theorem Touches.file {op : StorePrim (Except String α)} (hop : op.touched ⊆ S) :
    Touches S (file op) :=
  .call hop fun _ => .ret _

theorem Touches.perform {op : StorePrim α} (hop : op.touched ⊆ S) :
    Touches S (perform op : Prog ε StorePrim α) :=
  .call hop fun _ => .ret _

variable {setup : Setup Doc} {a source target : Artifact}

theorem touches_validateAbsent : Touches S (validateAbsentRegularTarget setup a) := by
  refine .bind (.file (Set.empty_subset _)) fun n => ?_
  split
  · exact .ret _
  · exact .ret _
  · exact .ret _

theorem touches_validateExisting : Touches S (validateExistingRegularTarget setup a) := by
  refine .bind (.file (Set.empty_subset _)) fun n => ?_
  split
  · exact .ret _
  · exact .ret _
  · exact .ret _

theorem touches_removeRegularFile (ha : a ∈ S) : Touches S (removeRegularFile setup a) := by
  refine .bind (.file (Set.empty_subset _)) fun n => ?_
  split
  · exact .ret _
  · exact .file (Set.singleton_subset_iff.2 ha)
  · exact .ret _

theorem touches_removeSocketArtifact (ha : a ∈ S) : Touches S (removeSocketArtifact setup a) := by
  refine .bind (.file (Set.empty_subset _)) fun n => ?_
  split
  · exact .ret _
  · exact .file (Set.singleton_subset_iff.2 ha)
  · exact .ret _

theorem touches_atomicMoveNew (hs : source ∈ S) (ht : target ∈ S) :
    Touches S (atomicMoveNew source target) :=
  .bind (.file (Set.singleton_subset_iff.2 ht)) fun _ => .file (Set.singleton_subset_iff.2 hs)

theorem touches_dropStaged {staged : Staged} (h : staged.artifact ∈ S) :
    Touches S (dropStaged staged) :=
  .bind (.perform (Set.singleton_subset_iff.2 h)) fun _ => .ret _

theorem touches_orDropStaged {staged : Staged} {move : Prog Error StorePrim Unit}
    (h : staged.artifact ∈ S) (hmove : Touches S move) : Touches S (orDropStaged staged move) := by
  refine .bind hmove.attempt fun r => ?_
  split
  · exact .ret _
  · exact .bind (touches_dropStaged h) fun _ => .ret _

end Touches

/-! ## The functions of the store -/

/-- The names of staging files. -/
def stagings : Set Artifact := {a | ∃ number suffix, a = .staging number suffix}

theorem Staged.mem_stagings (staged : Staged) : staged.artifact ∈ stagings := ⟨_, _, rfl⟩

section Store

variable {setup : Setup Doc} {epoch : Epoch} {S : Set Artifact} {staged : Staged} {saved : Backup}
  {f : Files}

theorem touches_stage {contents : List UInt8} (hS : stagings ⊆ S) :
    Touches S (stage setup epoch contents) := by
  refine .bind (.perform (Set.empty_subset _)) fun counter => ?_
  have ha : Artifact.staging epoch.get counter ∈ S := hS ⟨_, _, rfl⟩
  have hsub : ({Artifact.staging epoch.get counter} : Set Artifact) ⊆ S :=
    Set.singleton_subset_iff.2 ha
  refine .bind touches_validateAbsent fun _ => .bind (.file hsub) fun _ => ?_
  refine .bind (.file (Set.empty_subset _)) fun _ => ?_
  refine .bind (Touches.attempt (.bind (.file hsub) fun _ => .file (Set.empty_subset _))) fun r => ?_
  split
  · exact .ret _
  · exact .bind (.perform hsub) fun _ => .ret _

theorem touches_validateStaged : Touches S (validateStaged setup staged epoch) := by
  unfold validateStaged
  split
  · exact .ret _
  · exact touches_validateExisting

theorem touches_commitNew (hS : stagings ⊆ S) (hc : Artifact.config epoch.get ∈ S) :
    Touches S (commitNew setup staged epoch) := by
  have hs := hS staged.mem_stagings
  refine .bind (touches_orDropStaged hs ?_) fun _ => .bind (.file (Set.empty_subset _)) fun _ => .ret _
  exact .bind touches_validateStaged fun _ => .bind touches_validateAbsent fun _ =>
    touches_atomicMoveNew hs hc

theorem touches_commitReplace (hS : stagings ⊆ S) (hc : Artifact.config epoch.get ∈ S) :
    Touches S (commitReplace setup staged epoch) := by
  have hs := hS staged.mem_stagings
  refine .bind (touches_orDropStaged hs ?_) fun _ => .bind (.perform (Set.empty_subset _)) fun _ =>
    .ret _
  refine .bind touches_validateStaged fun _ => .bind touches_validateExisting fun _ => ?_
  exact .file (Set.insert_subset hs (Set.singleton_subset_iff.2 hc))

theorem touches_backup {generation : Nat} (hS : stagings ⊆ S)
    (hb : Artifact.backup epoch.get generation ∈ S) : Touches S (backup setup epoch generation) := by
  refine .bind touches_validateExisting fun _ => .bind (.file (Set.empty_subset _)) fun _ => ?_
  refine .bind (touches_stage hS) fun staged => ?_
  have hs := hS staged.mem_stagings
  refine .bind (touches_orDropStaged hs ?_) fun _ => .bind (.file (Set.empty_subset _)) fun _ => .ret _
  exact .bind touches_validateAbsent fun _ => touches_atomicMoveNew hs hb

theorem touches_restore (hS : stagings ⊆ S) (hc : Artifact.config saved.epoch.get ∈ S) :
    Touches S (restore setup saved) := by
  refine .bind touches_validateExisting fun _ => .bind (.file (Set.empty_subset _)) fun _ => ?_
  exact .bind (touches_stage hS) fun _ => touches_commitReplace hS hc

theorem touches_removeAll {entries : List Artifact} (h : ∀ a ∈ entries, a ∈ S) :
    Touches S (removeAll setup entries) := by
  induction entries with
  | nil => exact .ret _
  | cons a rest ih =>
    exact .bind (touches_removeRegularFile (h a (by simp))) fun _ =>
      ih fun b hb => h b (by simp [hb])

theorem touches_cleanupArtifacts {number : Nat} (hS : ∀ a : Artifact, a.number = number → a ∈ S) :
    Touches S (cleanupArtifacts setup number) := by
  refine .bind (touches_removeRegularFile (hS _ rfl)) fun _ => ?_
  refine .bind (touches_removeRegularFile (hS _ rfl)) fun _ => ?_
  refine .bind (touches_removeSocketArtifact (hS _ rfl)) fun _ => ?_
  refine .bind (.file (Set.empty_subset _)) fun entries => ?_
  refine .bind (touches_removeAll ?_) fun _ => .file (Set.empty_subset _)
  intro a ha
  have hloose := (List.mem_filter.1 ha).2
  refine hS a ?_
  cases a <;> simp only [Artifact.isLoose, decide_eq_true_eq, Bool.false_eq_true] at hloose <;>
    exact hloose

/-! ### Bytes -/

theorem wp_file {α : Type} {op : StorePrim (Except String α)} {Q : Except Error α → Files → Prop}
    (h : ∀ r f', filesReading.step op f r f' → Q (r.mapError Error.io) f') :
    (file op).wp filesReading Q f :=
  ⟨trivial, h⟩

/-- A staged file holds what was written. -/
theorem stage_holds {contents : List UInt8} :
    (stage setup epoch contents).wp filesReading (fun r f' => ∀ staged, r = .ok staged →
      f' staged.artifact = some (.file contents)) f := by
  refine Prog.wp_perform_bind trivial ?_
  intro counter f₁ _
  refine Prog.wp_seq (touches_validateAbsent (S := ∅) _) (fun _ _ _ _ h => by cases h) ?_
  intro _ f₂ _
  refine Prog.wp_seq (Touches.file (Set.subset_univ _) _) (fun _ _ _ _ h => by cases h) ?_
  intro _ f₃ _
  refine Prog.wp_seq (Touches.file (Set.subset_univ _) _) (fun _ _ _ _ h => by cases h) ?_
  intro _ f₄ _
  have written : (file (.write (.staging epoch.get counter) contents) >>= fun _ =>
      file (.sync (.staging epoch.get counter)) : Prog Error StorePrim Unit).wp filesReading
      (fun r f' => r = .ok () → f' (.staging epoch.get counter) = some (.file contents)) f₄ := by
    rw [Prog.wp_bind]
    refine wp_file fun r f₅ hw => ?_
    cases r with
    | error e =>
      intro h
      cases h
    | ok _ =>
      refine wp_file fun r f₆ hsync _ => ?_
      rw [hsync.1 _ (Set.notMem_empty _)]
      exact hw.2 rfl rfl
  refine Prog.wp_attempt_seq written ?_
  intro r f₅ hr
  cases r with
  | ok _ =>
    intro staged hs
    cases hs
    exact hr rfl
  | error e =>
    refine Prog.wp_perform_bind trivial ?_
    intro _ f₆ _ staged hs
    cases hs

theorem files_same {f f' : Files} (h : ∀ a ∉ (∅ : Set Artifact), f' a = f a) : f' = f :=
  funext fun a => h a (Set.notMem_empty a)

theorem orDropStaged_moves {move : Prog Error StorePrim Unit} {P : Files → Prop}
    (h : move.wp filesReading (fun r f' => r = .ok () → P f') f) :
    (orDropStaged staged move).wp filesReading (fun r f' => r = .ok () → P f') f := by
  refine Prog.wp_attempt_seq h ?_
  intro r f₁ hr
  cases r with
  | ok _ => exact hr
  | error e =>
    refine Prog.wp_seq (touches_dropStaged (Set.mem_singleton _) f₁) ?_ ?_
    · intro e f' _ h
      cases h
    · intro _ f' _ h
      cases h

/-- The staged bytes are in place, or the file is as it was. -/
theorem commitReplace_spec :
    (commitReplace setup staged epoch).wp filesReading (fun r f' =>
      (∀ warning, r = .ok warning → f' (.config epoch.get) = f staged.artifact) ∧
      ∀ e, r = .error e → f' (.config epoch.get) = f (.config epoch.get)) f := by
  have move : (do
      validateStaged setup staged epoch
      validateExistingRegularTarget setup (.config epoch.get)
      file (.rename staged.artifact (.config epoch.get)) : Prog Error StorePrim Unit).wp filesReading
      (fun r f' => (r = .ok () → f' (.config epoch.get) = f staged.artifact) ∧
        ∀ e, r = .error e → f' = f) f := by
    refine Prog.wp_seq (touches_validateStaged f) (fun e f' h => ⟨nofun, fun _ _ => files_same h⟩) ?_
    intro _ f₁ h₁
    obtain rfl := files_same h₁
    refine Prog.wp_seq (touches_validateExisting f₁)
      (fun e f' h => ⟨nofun, fun _ _ => files_same h⟩) ?_
    intro _ f₂ h₂
    obtain rfl := files_same h₂
    refine wp_file fun r f' h => ⟨?_, ?_⟩
    · intro hr
      cases r with
      | ok _ => exact h.2.1 rfl rfl rfl
      | error e => cases hr
    · intro e hr
      cases r with
      | ok _ => cases hr
      | error e => exact h.2.2 e rfl
  have installed : (orDropStaged staged (do
      validateStaged setup staged epoch
      validateExistingRegularTarget setup (.config epoch.get)
      file (.rename staged.artifact (.config epoch.get)))).wp filesReading
      (fun r f' => (r = .ok () → f' (.config epoch.get) = f staged.artifact) ∧
        ∀ e, r = .error e → f' (.config epoch.get) = f (.config epoch.get)) f := by
    refine Prog.wp_attempt_seq move ?_
    intro r f₁ hr
    cases r with
    | ok _ => exact ⟨fun _ => hr.1 rfl, nofun⟩
    | error e =>
      obtain rfl := hr.2 e rfl
      refine Prog.wp_seq (touches_dropStaged (Set.mem_singleton _) f₁) ?_ ?_
      · intro e f' h
        exact ⟨nofun, fun _ _ => h _ nofun⟩
      · intro _ f' h
        exact ⟨nofun, fun _ _ => h _ nofun⟩
  refine Prog.wp_seq installed ?_ ?_
  · intro e f' h
    exact ⟨nofun, fun _ _ => h.2 e rfl⟩
  · intro _ f₁ h₁
    refine Prog.wp_perform_bind trivial ?_
    intro r f₂ hsync
    obtain rfl := files_same hsync.1
    exact ⟨fun _ _ => h₁.1 rfl, nofun⟩

/-- A restore puts the saved bytes back. -/
theorem restore_spec :
    (restore setup saved).wp filesReading (fun r f' => ∀ warning, r = .ok warning →
      f' (.config saved.epoch.get) = f saved.artifact) f := by
  refine Prog.wp_seq (touches_validateExisting (S := ∅) f) (fun _ _ _ _ h => by cases h) ?_
  intro _ f₁ h₁
  obtain rfl := files_same h₁
  rw [Prog.wp_bind]
  refine wp_file fun r f₂ hread => ?_
  obtain rfl := files_same hread.1
  cases r with
  | error e =>
    intro _ h
    cases h
  | ok contents =>
    have hsaved : f₂ saved.artifact = some (.file contents) := hread.2 contents rfl rfl
    refine Prog.wp_seq stage_holds (fun _ _ _ _ h => by cases h) ?_
    intro staged f₃ hstaged
    refine Prog.wp_mono commitReplace_spec fun r f₄ h warning hr => ?_
    rw [h.1 warning hr, hstaged staged rfl, hsaved]

/-- A backup holds the bytes of the file. -/
theorem backup_spec {generation : Nat} :
    (backup setup epoch generation).wp filesReading (fun r f' => ∀ saved, r = .ok saved →
      saved = ⟨epoch, generation⟩ ∧ f' saved.artifact = f (.config epoch.get)) f := by
  refine Prog.wp_seq (touches_validateExisting (S := ∅) f) (fun _ _ _ _ h => by cases h) ?_
  intro _ f₁ h₁
  obtain rfl := files_same h₁
  rw [Prog.wp_bind]
  refine wp_file fun r f₂ hread => ?_
  obtain rfl := files_same hread.1
  cases r with
  | error e =>
    intro _ h
    cases h
  | ok contents =>
    have hfile : f₂ (.config epoch.get) = some (.file contents) := hread.2 contents rfl rfl
    refine Prog.wp_seq stage_holds (fun _ _ _ _ h => by cases h) ?_
    intro staged f₃ hstaged
    have moved : (do
        validateAbsentRegularTarget setup (Backup.artifact ⟨epoch, generation⟩)
        atomicMoveNew staged.artifact (Backup.artifact ⟨epoch, generation⟩) :
          Prog Error StorePrim Unit).wp filesReading (fun r f' => r = .ok () →
        f' (Backup.artifact ⟨epoch, generation⟩) = f₃ staged.artifact) f₃ := by
      refine Prog.wp_seq (touches_validateAbsent (S := ∅) f₃) (fun _ _ _ h => by cases h) ?_
      intro _ f₄ h₄
      obtain rfl := files_same h₄
      rw [atomicMoveNew, Prog.wp_bind]
      refine wp_file fun r f₅ hlink => ?_
      cases r with
      | error e =>
        intro h
        cases h
      | ok _ =>
        refine wp_file fun r f₆ hremove _ => ?_
        have hkept : f₆ (Backup.artifact ⟨epoch, generation⟩) = f₅ (Backup.artifact ⟨epoch, generation⟩) :=
          hremove.1 _ nofun
        rw [hkept]
        exact hlink.2 rfl rfl rfl
    refine Prog.wp_seq (orDropStaged_moves moved) (fun _ _ _ _ h => by cases h) ?_
    intro _ f₄ h₄
    rw [Prog.wp_bind]
    refine wp_file fun r f₅ hsync => ?_
    obtain rfl := files_same hsync.1
    cases r with
    | error e =>
      intro _ h
      cases h
    | ok _ =>
      intro saved hs
      cases hs
      exact ⟨rfl, by rw [h₄ rfl, hstaged staged rfl, hfile]⟩

end Store

end Chimera.Manager
