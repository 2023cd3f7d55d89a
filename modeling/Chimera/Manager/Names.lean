import Chimera.Manager.Frame
import Mathlib.Data.Set.Insert

/-! The names in the runtime directory, and what the store's functions do to
them. The runtimes may write names of their own at any tick; what is said here
is said of all names but those. -/

namespace Chimera.Manager
open Chimera.Model Chimera.Lib.Program

variable {Doc : Type}

def Directory.names (d : Directory) : Set Artifact := {a | (d.find a).isSome = true}

def World.names (w : World Doc) : Set Artifact := w.artifacts.names

theorem mem_names {d : Directory} {a : Artifact} : a ∈ d.names ↔ (d.find a).isSome = true := Iff.rfl

@[simp] theorem names_put {d : Directory} {a : Artifact} {n : Node} :
    (d.put a n).names = insert a d.names := by
  ext b
  rw [mem_names, Directory.find_put, Set.mem_insert_iff, mem_names]
  by_cases hb : b = a <;> simp [hb]

@[simp] theorem names_erase {d : Directory} {a : Artifact} : (d.erase a).names = d.names \ {a} := by
  ext b
  rw [mem_names, Directory.find_erase, Set.mem_sdiff, mem_names, Set.mem_singleton_iff]
  by_cases hb : b = a <;> simp [hb]

theorem mem_map_fst {d : Directory} {a : Artifact} (ha : a ∈ d.names) : a ∈ d.map Prod.fst := by
  induction d with
  | nil => cases ha
  | cons entry rest ih =>
    obtain ⟨x, node⟩ := entry
    by_cases hx : a = x
    · simp [hx]
    · refine List.mem_cons_of_mem _ (ih ?_)
      rwa [mem_names, Directory.find, List.lookup_cons, beq_eq_false_iff_ne.2 hx] at ha

section Directory

variable {d : Directory} {a source target : Artifact}

theorem createNew_names : ((d.createNew a).1 = .ok () → (d.createNew a).2.names = insert a d.names) ∧
    ∀ e, (d.createNew a).1 = .error e → (d.createNew a).2 = d := by
  unfold Directory.createNew
  split
  · exact ⟨nofun, fun _ _ => rfl⟩
  · exact ⟨fun _ => names_put, nofun⟩

theorem link_names :
    ((d.link source target).1 = .ok () →
      source ∈ d.names ∧ (d.link source target).2.names = insert target d.names) ∧
    ∀ e, (d.link source target).1 = .error e → (d.link source target).2 = d := by
  unfold Directory.link
  split
  · rename_i hsource htarget
    exact ⟨fun _ => ⟨by rw [mem_names, hsource]; rfl, names_put⟩, nofun⟩
  · exact ⟨nofun, fun _ _ => rfl⟩
  · exact ⟨nofun, fun _ _ => rfl⟩

theorem rename_names :
    ((d.rename source target).1 = .ok () →
      (d.rename source target).2.names = insert target (d.names \ {source})) ∧
    ∀ e, (d.rename source target).1 = .error e → (d.rename source target).2 = d := by
  unfold Directory.rename
  split
  · exact ⟨fun _ => by rw [names_put, names_erase], nofun⟩
  · exact ⟨nofun, fun _ _ => rfl⟩

theorem remove_names : (d.remove a).2.names = d.names \ {a} ∧
    ∀ e, (d.remove a).1 = .error e → a ∉ d.names := by
  unfold Directory.remove
  split
  · exact ⟨names_erase, nofun⟩
  · rename_i hfind
    have absent : a ∉ d.names := by simp [mem_names, hfind]
    exact ⟨(Set.sdiff_singleton_eq_self absent).symm, fun _ _ => absent⟩

end Directory

/-! ## Time -/

/-- At this tick the runtimes write names of `B` alone. -/
def Env.Writes (env : Env Doc) (B : Set Artifact) (tick : Nat) : Prop :=
  ∀ a node, .artifact a node ∈ env.background tick → a.ofRuntime = true → a ∈ B

theorem sdiff_singleton_sdiff {B n : Set Artifact} {a : Artifact} (ha : a ∈ B) :
    (n \ {a}) \ B = n \ B := by
  rw [Set.sdiff_sdiff, Set.union_eq_self_of_subset_left (Set.singleton_subset_iff.2 ha)]

theorem names_background {B : Set Artifact} {now : Int} {w : World Doc} {b : Background}
    (hb : ∀ a node, b = .artifact a node → a.ofRuntime = true → a ∈ B) :
    (World.background now w b).names \ B = w.names \ B := by
  cases b with
  | report number status =>
    simp only [World.background]
    split
    · rfl
    · rfl
  | forward number =>
    simp only [World.background, World.forward]
    split
    · rfl
    · split
      · rfl
      · rfl
  | artifact a node =>
    simp only [World.background]
    split
    · rename_i ha
      have haB := hb a node rfl ha
      cases node with
      | some n =>
        show (w.artifacts.put a n).names \ B = _
        rw [names_put, Set.insert_sdiff_of_mem _ haB]
        rfl
      | none =>
        show (w.artifacts.erase a).names \ B = _
        rw [names_erase, sdiff_singleton_sdiff haB]
        rfl
    · rfl

theorem names_elapse {env : Env Doc} {B : Set Artifact} {w : World Doc}
    (hw : env.Writes B w.tick) : (w.elapse env).names \ B = w.names \ B := by
  have fold : ∀ (l : List Background) (u : World Doc), (∀ b ∈ l, b ∈ env.background w.tick) →
      (l.foldl (World.background (env.now w.tick)) u).names \ B = u.names \ B := by
    intro l
    induction l with
    | nil => exact fun _ _ => rfl
    | cons b rest ih =>
      intro u hl
      rw [List.foldl_cons, ih _ fun c hc => hl c (List.mem_cons_of_mem _ hc)]
      refine names_background ?_
      intro a node hb
      exact hw a node (hb ▸ hl b List.mem_cons_self)
  exact fold _ w fun _ hb => hb

/-! ## The primitives -/

/-- No removal is made to fail. -/
def StorePrim.removing (env : Env Doc) : ∀ {β : Type}, StorePrim β → World Doc → Prop
  | _, .remove _, u => env.fault u.tick = none
  | _, _, _ => True

/-- Neither a change of permissions nor a synchronization of the directory is
made to fail. -/
def StorePrim.firm (env : Env Doc) : ∀ {β : Type}, StorePrim β → World Doc → Prop
  | _, .setPermissions _, u | _, .syncDir, u => env.fault u.tick = none
  | _, _, _ => True

/-- What a primitive does to the names outside `B`, where `sure` and `firm` say
what may not fail. -/
def StorePrim.onNames (B : Set Artifact) (sure firm : Prop) :
    ∀ {β : Type}, StorePrim β → Set Artifact → β → Set Artifact → Prop
  | _, .stat a, n, r, n' => n' = n ∧ ∀ node, r = .ok node →
      (node = none → a ∉ n) ∧ (a ∉ B → node.isSome = true → a ∈ n)
  | _, .createNew a, n, r, n' => a ∉ B → (r = .ok () → n' = insert a n) ∧
      ∀ e, r = .error e → n' = n
  | _, .setPermissions _, n, r, n' | _, .syncDir, n, r, n' =>
    n' = n ∧ ∀ e, r = .error e → ¬firm
  | _, .write a _, n, _, n' => a ∉ B → n' = insert a n
  | _, .link source target, n, r, n' => source ∉ B → target ∉ B →
      (r = .ok () → source ∈ n ∧ n' = insert target n) ∧ ∀ e, r = .error e → n' = n
  | _, .rename source target, n, r, n' => source ∉ B → target ∉ B →
      (r = .ok () → n' = insert target (n \ {source})) ∧ ∀ e, r = .error e → n' = n
  | _, .remove a, n, r, n' => n' ⊆ n ∧ (r = .ok () → n' = n \ {a}) ∧
      (sure → n' = n \ {a} ∧ ∀ e, r = .error e → a ∉ n)
  | _, .readDir, n, r, n' => n' = n ∧ ∀ entries, r = .ok entries → ∀ a ∈ n, a ∈ entries
  | _, _, n, _, n' => n' = n

def namesReading (B : Set Artifact) (sure firm : Prop) : Reading StorePrim (Set Artifact) where
  step := fun op n b n' => op.onNames B sure firm n b n'
  pre := fun _ _ => True

/-- What is asked of the surroundings at a primitive. -/
def StorePrim.Calm (env : Env Doc) (B : Set Artifact) (sure firm : Prop) {β : Type}
    (op : StorePrim β) (u : World Doc) : Prop :=
  (u.tick < (storeHandle env op u).2.tick → env.Writes B u.tick) ∧
    (sure → op.removing env u) ∧ (firm → op.firm env u)

section Primitives

variable {env : Env Doc} {B : Set Artifact} {sure firm : Prop} {u t : World Doc}

/-- An operation on the directory fails with no effect, or acts on the names
that time has left. -/
theorem onDirectory_names {β : Type} {act : Directory → Except String β × Directory}
    {r : Except String β} (h : onDirectory env act u = (.ok r, t)) : u.tick < t.tick ∧
    ((∃ text, env.fault u.tick = some text ∧ r = .error text ∧ t.names = (u.elapse env).names) ∨
    (env.fault u.tick = none ∧ r = (act (u.elapse env).artifacts).1 ∧
      t.names = (act (u.elapse env).artifacts).2.names)) := by
  simp only [onDirectory] at h
  have ha := outside_ok h
  split at ha
  · rename_i text htext
    cases ha
    exact ⟨Nat.lt_succ_self _, .inl ⟨text, htext, rfl, rfl⟩⟩
  · rename_i hnone
    cases ha
    exact ⟨Nat.lt_succ_self _, .inr ⟨hnone, rfl, rfl⟩⟩

theorem storeHandle_names {β : Type} {op : StorePrim β} {b : β} (hc : op.Calm env B sure firm u)
    (h : storeHandle env op u = (.ok b, t)) :
    op.onNames B sure firm (u.names \ B) b (t.names \ B) := by
  obtain ⟨hwrites, hremoving, hfirm⟩ := hc
  rw [h] at hwrites
  have elapsed (ht : u.tick < t.tick) : (u.elapse env).names \ B = u.names \ B :=
    names_elapse (hwrites ht)
  -- A directory operation, once time has passed.
  have acts {γ : Type} {act : Directory → Except String γ × Directory} {r : Except String γ}
      (h : onDirectory env act u = (.ok r, t)) : ((u.elapse env).names \ B = u.names \ B) ∧
      ((∃ text, env.fault u.tick = some text ∧ r = .error text ∧ t.names \ B = u.names \ B) ∨
      (env.fault u.tick = none ∧ r = (act (u.elapse env).artifacts).1 ∧
        t.names \ B = (act (u.elapse env).artifacts).2.names \ B)) := by
    obtain ⟨ht, h⟩ := onDirectory_names h
    refine ⟨elapsed ht, ?_⟩
    rcases h with ⟨text, hfault, hr, hn⟩ | ⟨hnone, hr, hn⟩
    · exact .inl ⟨text, hfault, hr, by rw [hn, elapsed ht]⟩
    · exact .inr ⟨hnone, hr, by rw [hn]⟩
  cases op with
  | temp =>
    cases h
    rfl
  | stat a =>
    obtain ⟨hsame, ⟨text, -, rfl, hn⟩ | ⟨-, rfl, hn⟩⟩ := acts h
    · exact ⟨hn, (by rintro _ ⟨⟩)⟩
    · refine ⟨hn.trans hsame, ?_⟩
      intro node he
      cases he
      rw [← hsame]
      refine ⟨?_, fun haB hsome => ⟨hsome, haB⟩⟩
      intro hnone ha
      have hsome : ((u.elapse env).artifacts.find a).isSome = true := ha.1
      rw [hnone] at hsome
      cases hsome
  | createNew a =>
    simp only [storeHandle] at h
    intro haB
    obtain ⟨hsame, ⟨text, -, rfl, hn⟩ | ⟨-, rfl, hn⟩⟩ := acts h
    · exact ⟨(by rintro ⟨⟩), fun _ _ => hn⟩
    · refine ⟨?_, ?_⟩
      · intro he
        rw [hn, createNew_names.1 he, Set.insert_sdiff_of_notMem _ haB, ← hsame]
        rfl
      · intro e he
        rw [hn, createNew_names.2 e he]
        exact hsame
  | setPermissions a | syncDir =>
    obtain ⟨hsame, ⟨text, hfault, rfl, hn⟩ | ⟨-, rfl, hn⟩⟩ := acts h
    · refine ⟨hn, ?_⟩
      intro e _ hf
      have hnone : env.fault u.tick = none := hfirm hf
      rw [hnone] at hfault
      cases hfault
    · exact ⟨hn.trans hsame, (by rintro _ ⟨⟩)⟩
  | sync a | read a =>
    obtain ⟨hsame, ⟨text, -, rfl, hn⟩ | ⟨-, rfl, hn⟩⟩ := acts h
    · exact hn
    · exact hn.trans hsame
  | write a bytes =>
    intro haB
    simp only [storeHandle] at h
    have put (ht : u.tick < t.tick) (node : Node) :
        ((u.elapse env).artifacts.put a node).names \ B = insert a (u.names \ B) := by
      rw [names_put, Set.insert_sdiff_of_notMem _ haB, ← elapsed ht]
      rfl
    have ha := outside_ok h
    split at ha
    · cases ha
      exact put (Nat.lt_succ_self _) _
    · cases ha
      exact put (Nat.lt_succ_self _) _
  | link source target =>
    simp only [storeHandle] at h
    intro _ ht
    obtain ⟨hsame, ⟨text, -, rfl, hn⟩ | ⟨-, rfl, hn⟩⟩ := acts h
    · exact ⟨(by rintro ⟨⟩), fun _ _ => hn⟩
    · refine ⟨?_, ?_⟩
      · intro he
        obtain ⟨hsource, hnames⟩ := link_names.1 he
        rw [hn, hnames, Set.insert_sdiff_of_notMem _ ht, ← hsame]
        exact ⟨⟨hsource, ‹source ∉ B›⟩, rfl⟩
      · intro e he
        rw [hn, link_names.2 e he]
        exact hsame
  | rename source target =>
    simp only [storeHandle] at h
    intro _ ht
    obtain ⟨hsame, ⟨text, -, rfl, hn⟩ | ⟨-, rfl, hn⟩⟩ := acts h
    · exact ⟨(by rintro ⟨⟩), fun _ _ => hn⟩
    · refine ⟨?_, ?_⟩
      · intro he
        rw [hn, rename_names.1 he, Set.insert_sdiff_of_notMem _ ht, Set.sdiff_sdiff_comm, ← hsame]
        rfl
      · intro e he
        rw [hn, rename_names.2 e he]
        exact hsame
  | remove a =>
    simp only [storeHandle] at h
    obtain ⟨hsame, ⟨text, hfault, rfl, hn⟩ | ⟨-, rfl, hn⟩⟩ := acts h
    · refine ⟨hn.subset, (by rintro ⟨⟩), fun hsure => ?_⟩
      have hnone : env.fault u.tick = none := hremoving hsure
      rw [hnone] at hfault
      cases hfault
    · have gone : t.names \ B = (u.names \ B) \ {a} := by
        rw [hn, remove_names.1, Set.sdiff_sdiff_comm, ← hsame]
        rfl
      refine ⟨gone.trans_subset Set.sdiff_subset, fun _ => gone, fun _ => ⟨gone, ?_⟩⟩
      intro e he ha
      rw [← hsame] at ha
      exact remove_names.2 e he ha.1
  | readDir =>
    obtain ⟨hsame, ⟨text, -, rfl, hn⟩ | ⟨-, rfl, hn⟩⟩ := acts h
    · exact ⟨hn, (by rintro _ ⟨⟩)⟩
    · refine ⟨hn.trans hsame, ?_⟩
      intro entries he a ha
      cases he
      rw [← hsame] at ha
      exact mem_map_fst ha.1

theorem namesReading_sound (env : Env Doc) (B : Set Artifact) (sure firm : Prop) :
    (namesReading B sure firm).Sound (storeHandle env) (fun op u => op.Calm env B sure firm u)
      (fun u => u.names \ B) :=
  ⟨fun _ _ _ _ hc h => storeHandle_names hc h⟩

end Primitives

/-! ## The functions of the store -/

/-- What `cleanup_artifacts` removes. -/
def Artifact.isSwept (number : Nat) : Artifact → Bool
  | .config n | .backup n _ | .staging n _ | .pid n | .pidStaging n _ | .socket n => n = number
  | .alias _ _ => false

def swept (number : Nat) : Set Artifact := {a | a.isSwept number = true}

theorem mem_swept {number : Nat} {a : Artifact} : a ∈ swept number ↔
    a = .config number ∨ a = .pid number ∨ a = .socket number ∨ a.isLoose number = true := by
  show a.isSwept number = true ↔ _
  cases a <;> simp [Artifact.isSwept, Artifact.isLoose]

theorem swept_number {number : Nat} {a : Artifact} (h : a ∈ swept number) : a.number = number := by
  rcases mem_swept.1 h with rfl | rfl | rfl | hloose
  · rfl
  · rfl
  · rfl
  · cases a with
    | backup _ _ | staging _ _ | pidStaging _ _ => exact of_decide_eq_true hloose
    | _ => cases hloose

section Store

variable {setup : Setup Doc} {B : Set Artifact} {sure firm : Prop} {n : Set Artifact}
  {a source target : Artifact} {epoch : Epoch} {staged : Staged} {saved : Backup} {α β : Type}

theorem names_file {op : StorePrim (Except String α)} {Q : Except Error α → Set Artifact → Prop}
    (h : ∀ r n', op.onNames B sure firm n r n' → Q (r.mapError Error.io) n') :
    (file op).wp (namesReading B sure firm) Q n :=
  ⟨trivial, h⟩

theorem names_file_bind {op : StorePrim (Except String α)} {f : α → Prog Error StorePrim β}
    {T : Except Error β → Set Artifact → Prop}
    (error : ∀ e n', op.onNames B sure firm n (.error e) n' → T (.error (.io e)) n')
    (ok : ∀ x n', op.onNames B sure firm n (.ok x) n' → (f x).wp (namesReading B sure firm) T n') :
    (file op >>= f).wp (namesReading B sure firm) T n := by
  rw [Prog.wp_bind]
  refine names_file ?_
  intro r n' h
  cases r with
  | error e => exact error e n' h
  | ok x => exact ok x n' h

theorem validateAbsent_names : (validateAbsentRegularTarget setup a).wp (namesReading B sure firm)
    (fun r n' => n' = n ∧ (r = .ok () → a ∉ n)) n := by
  refine names_file_bind (fun e n' hstat => ⟨hstat.1, nofun⟩) ?_
  intro node n' hstat
  obtain ⟨rfl, hstat⟩ := hstat
  split
  · exact ⟨rfl, fun _ => (hstat _ rfl).1 rfl⟩
  · exact ⟨rfl, nofun⟩
  · exact ⟨rfl, nofun⟩

theorem validateExisting_names : (validateExistingRegularTarget setup a).wp (namesReading B sure firm)
    (fun r n' => n' = n ∧ (r = .ok () → a ∉ B → a ∈ n)) n := by
  refine names_file_bind (fun e n' hstat => ⟨hstat.1, nofun⟩) ?_
  intro node n' hstat
  obtain ⟨rfl, hstat⟩ := hstat
  split
  · exact ⟨rfl, nofun⟩
  · exact ⟨rfl, fun _ haB => (hstat _ rfl).2 haB rfl⟩
  · exact ⟨rfl, nofun⟩

theorem validateStaged_names : (validateStaged setup staged epoch).wp (namesReading B sure firm)
    (fun _ n' => n' = n) n := by
  unfold validateStaged
  split
  · exact rfl
  · exact Prog.wp_mono validateExisting_names fun _ _ h => h.1

/-- Where a removal returns, the name is gone. -/
theorem removeRegularFile_names : (removeRegularFile setup a).wp (namesReading B sure firm)
    (fun r n' => r = .ok () → n' = n \ {a}) n := by
  refine names_file_bind (fun e n' _ => nofun) ?_
  intro node n' hstat
  obtain ⟨rfl, hstat⟩ := hstat
  split
  · exact fun _ => (Set.sdiff_singleton_eq_self ((hstat _ rfl).1 rfl)).symm
  · refine names_file ?_
    intro r n' hremove hr
    cases r with
    | ok _ => exact hremove.2.1 rfl
    | error e => cases hr
  · exact nofun

theorem removeSocketArtifact_names : (removeSocketArtifact setup a).wp (namesReading B sure firm)
    (fun r n' => r = .ok () → n' = n \ {a}) n := by
  refine names_file_bind (fun e n' _ => nofun) ?_
  intro node n' hstat
  obtain ⟨rfl, hstat⟩ := hstat
  split
  · exact fun _ => (Set.sdiff_singleton_eq_self ((hstat _ rfl).1 rfl)).symm
  · refine names_file ?_
    intro r n' hremove hr
    cases r with
    | ok _ => exact hremove.2.1 rfl
    | error e => cases hr
  · exact nofun

theorem removeAll_names {entries : List Artifact} :
    (removeAll setup entries).wp (namesReading B sure firm)
      (fun r n' => r = .ok () → n' = n \ {a | a ∈ entries}) n := by
  induction entries generalizing n with
  | nil => exact fun _ => by simp
  | cons a rest ih =>
    refine Prog.wp_seq removeRegularFile_names (fun _ _ _ => nofun) ?_
    intro _ n₁ h₁
    obtain rfl := h₁ rfl
    refine Prog.wp_mono ih ?_
    intro r n₂ h₂ hr
    rw [h₂ hr]
    ext b
    simp only [Set.mem_sdiff, Set.mem_singleton_iff, Set.mem_ofPred_eq, List.mem_cons, not_or,
      and_assoc]

/-- Where a cleanup returns, the epoch's names are gone. -/
theorem cleanupArtifacts_names {number : Nat} :
    (cleanupArtifacts setup number).wp (namesReading B sure firm)
      (fun r n' => r = .ok () → n' = n \ swept number) n := by
  refine Prog.wp_seq removeRegularFile_names (fun _ _ _ => nofun) ?_
  intro _ n₁ h₁
  obtain rfl := h₁ rfl
  refine Prog.wp_seq removeRegularFile_names (fun _ _ _ => nofun) ?_
  intro _ n₂ h₂
  obtain rfl := h₂ rfl
  refine Prog.wp_seq removeSocketArtifact_names (fun _ _ _ => nofun) ?_
  intro _ n₃ h₃
  obtain rfl := h₃ rfl
  refine names_file_bind (fun e n' _ => nofun) ?_
  intro entries n₄ hread
  obtain ⟨rfl, hread⟩ := hread
  refine Prog.wp_seq removeAll_names (fun _ _ _ => nofun) ?_
  intro _ n₅ h₅
  obtain rfl := h₅ rfl
  refine names_file ?_
  intro r n₆ hsync _
  rw [hsync.1]
  ext b
  have hb := hread entries rfl b
  simp only [Set.mem_sdiff, Set.mem_singleton_iff, Set.mem_ofPred_eq, List.mem_filter,
    mem_swept] at hb ⊢
  tauto

/-- A staged file is new; a failed stage leaves at most its own. -/
def stageOn (epoch : Epoch) (firm : Prop) (n : Set Artifact) :
    Except Error Staged → Set Artifact → Prop
  | .ok staged, n' => staged.epoch = epoch ∧ staged.artifact ∉ n ∧ n' = insert staged.artifact n
  | .error _, n' =>
    (n' = n ∨ ∃ suffix, n' = insert (.staging epoch.get suffix) n) ∧ (firm → n' = n)

theorem stage_names (hB : ∀ a ∈ B, a.ofRuntime = true) {contents : List UInt8} :
    (stage setup epoch contents).wp (namesReading B True firm) (stageOn epoch firm n) n := by
  refine Prog.wp_perform_bind trivial ?_
  intro counter n₀ h₀
  obtain rfl : n₀ = n := h₀
  have hout : Artifact.staging epoch.get counter ∉ B := fun h => by cases hB _ h
  refine Prog.wp_seq validateAbsent_names (fun e n' h => ⟨.inl h.1, fun _ => h.1⟩) ?_
  intro _ n₁ h₁
  obtain ⟨rfl, habsent⟩ := h₁
  have habsent := habsent rfl
  refine names_file_bind (fun e n' h => ?_) ?_
  · have hsame := (h hout).2 e rfl
    exact ⟨.inl hsame, fun _ => hsame⟩
  intro _ n₂ h₂
  obtain rfl := (h₂ hout).1 rfl
  refine names_file_bind (fun e n' h => ?_) ?_
  · exact ⟨.inr ⟨counter, h.1⟩, fun hfirm => absurd hfirm (h.2 e rfl)⟩
  intro _ n₃ h₃
  obtain ⟨rfl, -⟩ := h₃
  have written : (file (.write (.staging epoch.get counter) contents) >>= fun _ =>
      file (.sync (.staging epoch.get counter)) : Prog Error StorePrim Unit).wp
      (namesReading B True firm) (fun _ n' => n' = insert (.staging epoch.get counter) n₁)
      (insert (.staging epoch.get counter) n₁) := by
    have twice {n' : Set Artifact}
        (h : n' = insert (.staging epoch.get counter) (insert (.staging epoch.get counter) n₁)) :
        n' = insert (.staging epoch.get counter) n₁ := by rw [h, Set.insert_idem]
    refine names_file_bind (fun e n' h => twice (h hout)) ?_
    intro _ n₄ h₄
    obtain rfl := twice (h₄ hout)
    exact names_file fun r n' h => h
  refine Prog.wp_attempt_seq written ?_
  intro r n₄ h₄
  subst h₄
  cases r with
  | ok _ => exact ⟨rfl, habsent, rfl⟩
  | error e =>
    refine Prog.wp_perform_bind trivial ?_
    intro _ n₅ h₅
    have hsame : n₅ = n₁ := (h₅.2.2 trivial).1.trans (Set.insert_sdiff_self_of_notMem habsent)
    exact ⟨.inl hsame, fun _ => hsame⟩

theorem dropStaged_names : (dropStaged staged).wp (namesReading B True firm)
    (fun _ n' => n' = n \ {staged.artifact}) n := by
  refine Prog.wp_perform_bind trivial ?_
  intro _ n' h
  exact (h.2.2 trivial).1

theorem atomicMoveNew_names (hs : source ∉ B) (ht : target ∉ B) :
    (atomicMoveNew source target).wp (namesReading B True firm)
      (fun r n' => (r = .ok () → n' = insert target n \ {source}) ∧ ∀ e, r = .error e → n' = n)
      n := by
  refine names_file_bind (fun e n' h => ⟨nofun, fun _ _ => (h hs ht).2 e rfl⟩) ?_
  intro _ n₁ h₁
  obtain ⟨hsource, rfl⟩ := (h₁ hs ht).1 rfl
  refine names_file ?_
  intro r n₂ h₂
  obtain ⟨hgone, habsent⟩ := h₂.2.2 trivial
  refine ⟨fun _ => hgone, ?_⟩
  intro e he
  cases r with
  | ok _ => cases he
  | error e => exact absurd (Set.mem_insert_of_mem target hsource) (habsent e rfl)

/-- The staged file is consumed by its move, or dropped. -/
theorem orDropStaged_names {move : Prog Error StorePrim Unit} {P : Set Artifact → Prop}
    (h : move.wp (namesReading B True firm)
      (fun r n' => (r = .ok () → P n') ∧ ∀ e, r = .error e → n' = n) n) :
    (orDropStaged staged move).wp (namesReading B True firm)
      (fun r n' => (r = .ok () → P n') ∧ ∀ e, r = .error e → n' = n \ {staged.artifact}) n := by
  refine Prog.wp_attempt_seq h ?_
  intro r n₁ h₁
  cases r with
  | ok _ => exact ⟨fun _ => h₁.1 rfl, nofun⟩
  | error e =>
    obtain rfl := h₁.2 e rfl
    refine Prog.wp_seq dropStaged_names (fun _ n' hn => ⟨nofun, fun _ _ => hn⟩) ?_
    intro _ n' hn
    exact ⟨nofun, fun _ _ => hn⟩

/-- A commit that fails once it has linked leaves the new file. -/
def commitNewOn (staged : Staged) (epoch : Epoch) (firm : Prop) (n : Set Artifact) :
    Except Error Utf8Path → Set Artifact → Prop
  | .ok _, n' => n' = insert (.config epoch.get) n \ {staged.artifact}
  | .error _, n' => (n' = n \ {staged.artifact} ∨
      n' = insert (.config epoch.get) n \ {staged.artifact}) ∧ (firm → n' = n \ {staged.artifact})

theorem not_runtime (hB : ∀ a ∈ B, a.ofRuntime = true) (ha : a.ofRuntime = false) : a ∉ B := by
  intro h
  rw [hB a h] at ha
  cases ha

theorem commitNew_names (hB : ∀ a ∈ B, a.ofRuntime = true) :
    (commitNew setup staged epoch).wp (namesReading B True firm) (commitNewOn staged epoch firm n) n := by
  have move : (do
      validateStaged setup staged epoch
      validateAbsentRegularTarget setup (.config epoch.get)
      atomicMoveNew staged.artifact (.config epoch.get) : Prog Error StorePrim Unit).wp
      (namesReading B True firm)
      (fun r n' => (r = .ok () → n' = insert (.config epoch.get) n \ {staged.artifact}) ∧
        ∀ e, r = .error e → n' = n) n := by
    refine Prog.wp_seq validateStaged_names (fun _ _ h => ⟨nofun, fun _ _ => h⟩) ?_
    intro _ n₁ h₁
    obtain rfl : n₁ = n := h₁
    refine Prog.wp_seq validateAbsent_names (fun _ _ h => ⟨nofun, fun _ _ => h.1⟩) ?_
    intro _ n₂ h₂
    obtain ⟨rfl, -⟩ := h₂
    exact atomicMoveNew_names (not_runtime hB rfl) (not_runtime hB rfl)
  refine Prog.wp_seq (orDropStaged_names move) ?_ ?_
  · intro e n₁ h₁
    exact ⟨.inl (h₁.2 e rfl), fun _ => h₁.2 e rfl⟩
  · intro _ n₁ h₁
    obtain rfl := h₁.1 rfl
    refine names_file_bind (fun e n' h => ?_) fun _ n' h => h.1
    exact ⟨.inr h.1, fun hfirm => absurd hfirm (h.2 e rfl)⟩

/-- Whether it succeeds or not, a commit over a file leaves nothing staged. -/
theorem commitReplace_names (hB : ∀ a ∈ B, a.ofRuntime = true) :
    (commitReplace setup staged epoch).wp (namesReading B True firm)
      (fun _ n' => n' = n \ {staged.artifact}) n := by
  have move : (do
      validateStaged setup staged epoch
      validateExistingRegularTarget setup (.config epoch.get)
      file (.rename staged.artifact (.config epoch.get)) : Prog Error StorePrim Unit).wp
      (namesReading B True firm)
      (fun r n' => (r = .ok () → n' = n \ {staged.artifact}) ∧ ∀ e, r = .error e → n' = n) n := by
    refine Prog.wp_seq validateStaged_names (fun _ _ h => ⟨nofun, fun _ _ => h⟩) ?_
    intro _ n₁ h₁
    obtain rfl : n₁ = n := h₁
    refine Prog.wp_seq validateExisting_names (fun _ _ h => ⟨nofun, fun _ _ => h.1⟩) ?_
    intro _ n₂ h₂
    obtain ⟨rfl, hexists⟩ := h₂
    have hconfig : Artifact.config epoch.get ∈ n₂ := hexists rfl (not_runtime hB rfl)
    refine names_file ?_
    intro r n₃ h₃
    obtain ⟨hok, herror⟩ := h₃ (not_runtime hB rfl) (not_runtime hB rfl)
    cases r with
    | error e => exact ⟨nofun, fun _ _ => herror e rfl⟩
    | ok _ =>
      refine ⟨fun _ => ?_, nofun⟩
      have hkept : Artifact.config epoch.get ∈ n₂ \ {staged.artifact} := ⟨hconfig, nofun⟩
      rw [hok rfl, Set.insert_eq_of_mem hkept]
  refine Prog.wp_seq (orDropStaged_names move) (fun e n' h => h.2 e rfl) ?_
  intro _ n₁ h₁
  obtain rfl := h₁.1 rfl
  refine Prog.wp_perform_bind trivial ?_
  intro _ n₂ h₂
  exact h₂.1

/-- Where a restoration returns, no name has changed. -/
theorem restore_names (hB : ∀ a ∈ B, a.ofRuntime = true) :
    (restore setup saved).wp (namesReading B True firm)
      (fun r n' => ∀ warning, r = .ok warning → n' = n) n := by
  refine Prog.wp_seq validateExisting_names (fun _ _ _ => nofun) ?_
  intro _ n₁ h₁
  obtain ⟨rfl, -⟩ := h₁
  refine names_file_bind (fun _ _ _ => nofun) ?_
  intro contents n₂ h₂
  obtain rfl : n₂ = n₁ := h₂
  refine Prog.wp_seq (stage_names hB) (fun _ _ _ => nofun) ?_
  intro staged n₃ h₃
  obtain ⟨-, habsent, rfl⟩ := h₃
  refine Prog.wp_mono (commitReplace_names hB) ?_
  intro r n₄ h₄ _ _
  exact h₄.trans (Set.insert_sdiff_self_of_notMem habsent)

/-- A backup is new; a failed one leaves nothing where the store is firm. -/
def backupOn (epoch : Epoch) (generation : Nat) (firm : Prop) (n : Set Artifact) :
    Except Error Backup → Set Artifact → Prop
  | .ok saved, n' => saved = ⟨epoch, generation⟩ ∧ saved.artifact ∉ n ∧ n' = insert saved.artifact n
  | .error _, n' => firm → n' = n

theorem backup_names (hB : ∀ a ∈ B, a.ofRuntime = true) {generation : Nat} :
    (backup setup epoch generation).wp (namesReading B True firm)
      (backupOn epoch generation firm n) n := by
  refine Prog.wp_seq validateExisting_names (fun _ _ h _ => h.1) ?_
  intro _ n₁ h₁
  obtain ⟨rfl, -⟩ := h₁
  refine names_file_bind (fun _ _ h _ => h) ?_
  intro contents n₂ h₂
  obtain rfl : n₂ = n₁ := h₂
  refine Prog.wp_seq (stage_names hB) (fun _ _ h => h.2) ?_
  intro staged n₃ h₃
  obtain ⟨-, habsent, rfl⟩ := h₃
  have move : (do
      validateAbsentRegularTarget setup (Backup.artifact ⟨epoch, generation⟩)
      atomicMoveNew staged.artifact (Backup.artifact ⟨epoch, generation⟩) :
        Prog Error StorePrim Unit).wp (namesReading B True firm)
      (fun r n' => (r = .ok () → Backup.artifact ⟨epoch, generation⟩ ∉ n₂ ∧
          n' = insert (Backup.artifact ⟨epoch, generation⟩) n₂) ∧
        ∀ e, r = .error e → n' = insert staged.artifact n₂) (insert staged.artifact n₂) := by
    refine Prog.wp_seq validateAbsent_names (fun _ _ h => ⟨nofun, fun _ _ => h.1⟩) ?_
    intro _ n₄ h₄
    obtain ⟨rfl, hnew⟩ := h₄
    refine Prog.wp_mono (atomicMoveNew_names (not_runtime hB rfl) (not_runtime hB rfl)) ?_
    intro r n₅ h₅
    refine ⟨fun hr => ⟨fun h => hnew rfl (Set.mem_insert_of_mem _ h), ?_⟩, h₅.2⟩
    rw [h₅.1 hr, Set.insert_comm]
    refine Set.insert_sdiff_self_of_notMem ?_
    rintro (he | hm)
    · cases he
    · exact habsent hm
  refine Prog.wp_seq (orDropStaged_names move) ?_ ?_
  · intro e n₄ h₄ _
    exact (h₄.2 e rfl).trans (Set.insert_sdiff_self_of_notMem habsent)
  · intro _ n₄ h₄
    obtain ⟨hnew, rfl⟩ := h₄.1 rfl
    refine names_file_bind (fun e n' h hfirm => absurd hfirm (h.2 e rfl)) ?_
    intro _ n₅ h₅
    exact ⟨rfl, hnew, h₅.1⟩

/-- A sweep finds the number of every name. -/
theorem artifactEpochs_names : artifactEpochs.wp (namesReading B sure firm)
    (fun r n' => n' = n ∧ ∀ numbers, r = .ok numbers → ∀ a ∈ n, a.number < 2 ^ 64 →
      a.number ∈ numbers) n := by
  refine names_file_bind (fun e n' h => ⟨h.1, nofun⟩) ?_
  intro entries n' h
  refine ⟨h.1, ?_⟩
  intro numbers hr a ha hlt
  cases hr
  rw [List.mem_insertionSort, List.mem_dedup, List.mem_filter]
  exact ⟨List.mem_map_of_mem (h.2 entries rfl a ha), decide_eq_true hlt⟩

theorem pidExists_names {number : Nat} : (pidExists number).wp (namesReading B sure firm)
    (fun _ n' => n' = n) n :=
  names_file_bind (fun _ _ h => h.1) fun _ _ h => h.1

end Store

end Chimera.Manager
