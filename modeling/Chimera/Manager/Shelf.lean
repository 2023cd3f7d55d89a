import Chimera.Manager.Books
import Chimera.Manager.Names

/-! The books beside the names in the runtime directory, as the operations of a
control transaction leave them. A transaction allocates at most one epoch; the
names that the runtime of that epoch writes while it lives, and those that
others write all the time, are told apart from what the manager itself does. -/

namespace Chimera.Manager
open Chimera.Model Chimera.Lib.Program

variable {Doc : Type}

structure Shelf (Doc : Type) where
  books : Books Doc
  names : Set Artifact

def World.shelf (w : World Doc) : Shelf Doc := ⟨w.books, w.names⟩

/-! ## The runtimes -/

/-- The epoch was launched since it was allocated, and its stop has not been
confirmed. -/
def Lives (number : Nat) : List (Event Doc) → Prop
  | [] => False
  | .allocated e :: rest => e.get ≠ number ∧ Lives number rest
  | .launched _ e (.ok ()) :: rest => e.get = number ∨ Lives number rest
  | .stopped e (.ok ()) :: rest => e.get ≠ number ∧ Lives number rest
  | _ :: rest => Lives number rest

def Op.starts {β : Type} : Op Doc β → Nat → Prop
  | .launch _ plan, number => plan.revision.epoch.get = number
  | _, _ => False

/-- The names that runtimes may write around an operation: those of `X`, and
those of the epoch after `last`, once it is allocated, while its runtime is
being launched or lives. -/
def Op.written (X : Set Artifact) (last : Nat) {β : Type} (op : Op Doc β) (a : Books Doc) :
    Set Artifact :=
  {x | x.ofRuntime = true ∧ (x ∈ X ∨ (x.number = last + 1 ∧ last < a.last ∧
    (op.starts (last + 1) ∨ Lives (last + 1) a.trace)))}

/-- While the operation lasts the runtimes write no other names. -/
def Tended (setup : Setup Doc) (env : Env Doc) (X : Set Artifact) (last : Nat) {β : Type}
    (op : Op Doc β) (v : World Doc) : Prop :=
  ∀ tick, v.tick ≤ tick → tick < (handle setup env op v).2.tick →
    env.Writes (op.written X last v.books) tick

/-! ## What may fail -/

/-- Removals succeed: those the store makes of its staging files, the removal of a
backup, and the cleanup of the epoch after `last`. -/
def Removing (setup : Setup Doc) (env : Env Doc) (last : Nat) :
    ∀ {β : Type}, Op Doc β → World Doc → Prop
  | _, .stage epoch contents, v =>
    Along (storeHandle env) (fun op u => op.removing env u) (stage setup epoch contents) v
  | _, .dropStaged staged, v =>
    Along (storeHandle env) (fun op u => op.removing env u) (dropStaged staged) v
  | _, .commitNew staged epoch, v =>
    Along (storeHandle env) (fun op u => op.removing env u) (commitNew setup staged epoch) v
  | _, .commitReplace staged epoch, v =>
    Along (storeHandle env) (fun op u => op.removing env u) (commitReplace setup staged epoch) v
  | _, .backup epoch generation, v =>
    Along (storeHandle env) (fun op u => op.removing env u) (backup setup epoch generation) v
  | _, .restore saved, v =>
    Along (storeHandle env) (fun op u => op.removing env u) (restore setup saved) v
  | _, .removeBackup saved, v =>
    ∀ e t, handle setup env (.removeBackup saved) v ≠ (.ok (.error e), t)
  | _, .cleanupEpoch site epoch, v => last < epoch.get →
    ∀ e t, handle setup env (.cleanupEpoch site epoch) v ≠ (.ok (.error e), t)
  | _, _, _ => True

/-- The steps after which an apply goes on to no cleanup do not fail: the change
of permissions of a staged file, the synchronization of the directory after a
new link, and the DNS deactivation of a plan whose file is installed, with the
backup of the old file beside it. `names` are those the apply found. -/
def Firm (setup : Setup Doc) (env : Env Doc) (names : Set Artifact) :
    ∀ {β : Type}, Op Doc β → World Doc → Prop
  | _, .stage epoch contents, v =>
    Along (storeHandle env) (fun op u => op.firm env u) (stage setup epoch contents) v
  | _, .commitNew staged epoch, v =>
    Along (storeHandle env) (fun op u => op.firm env u) (commitNew setup staged epoch) v
  | _, .backup epoch generation, v =>
    Along (storeHandle env) (fun op u => op.firm env u) (backup setup epoch generation) v
  | _, .dnsDeactivate plan, v => v.ctrl.current.isSome = true →
    (∃ saved : Backup, saved.artifact ∈ v.names \ names) →
    (∀ staged : Staged, staged.artifact ∉ v.names \ names) →
    ∀ e t, handle setup env (.dnsDeactivate plan) v ≠ (.ok (.error e), t)
  | _, _, _ => True

/-! ## The reading -/

/-- What an operation does to the names that only the manager writes. -/
def Op.onNames (last : Nat) (firm : Prop) :
    ∀ {β : Type}, Op Doc β → Set Artifact → β → Set Artifact → Prop
  | _, .stage epoch _, n, r, n' => stageOn epoch firm n r n'
  | _, .dropStaged staged, n, _, n' => n' = n \ {staged.artifact}
  | _, .commitNew staged epoch, n, r, n' => commitNewOn staged epoch firm n r n'
  | _, .commitReplace staged _, n, _, n' => n' = n \ {staged.artifact}
  | _, .backup epoch generation, n, r, n' => backupOn epoch generation firm n r n'
  | _, .restore _, n, r, n' => ∀ warning, r = .ok warning → n' = n
  | _, .removeBackup saved, n, _, n' => n' = n \ {saved.artifact}
  | _, .cleanupEpoch _ epoch, n, _, n' => last < epoch.get → n' = n \ swept epoch.get
  | _, .cleanupArtifacts _, _, _, _ => True
  | _, _, n, _, n' => n' = n

/-- What a steady apply relies on its answers for. -/
def Op.Answers (names : Set Artifact) : ∀ {β : Type}, Op Doc β → Shelf Doc → β → Prop
  | _, .dnsDeactivate _, s, r => s.books.current.isSome = true →
    (∃ saved : Backup, saved.artifact ∈ s.names \ names) →
    (∀ staged : Staged, staged.artifact ∉ s.names \ names) → ∀ e, r ≠ .error e
  | _, _, _, _ => True

def shelfReading (X : Set Artifact) (last : Nat) (names : Set Artifact) (firm : Prop) :
    Reading (Op Doc) (Shelf Doc) where
  step := fun op s b s' => Books.step op s.books b s'.books ∧
    op.onNames last firm (s.names \ op.written X last s.books) b
      (s'.names \ op.written X last s.books) ∧
    (firm → op.Answers names s b)
  pre := fun _ _ => True

/-! ## Ticks -/

section Ticks

variable {env : Env Doc} {v t : World Doc}

theorem along_ticks {O : Type → Type} {ε α : Type} {h : Handler O (World Doc) Abort}
    (mono : ∀ {β : Type} (op : O β) (u : World Doc), u.tick ≤ (h op u).2.tick) (p : Prog ε O α) :
    Along h (fun op u => v.tick ≤ u.tick ∧ (h op u).2.tick ≤ (exec h p v).2.tick) p v := by
  induction p generalizing v with
  | ret r => trivial
  | call op next ih =>
    have hop := mono op v
    simp only [Along, exec]
    rcases hstep : h op v with ⟨x | b, t⟩
    · exact ⟨⟨le_rfl, le_rfl⟩, trivial⟩
    · rw [hstep] at hop
      have hrest : t.tick ≤ (exec h (next b) t).2.tick :=
        exec_invariant (h := h) (I := fun u => t.tick ≤ u.tick)
          (fun op u hu => hu.trans (mono op u)) (next b) le_rfl
      refine ⟨⟨le_rfl, hrest⟩, (ih b).mono fun op u hu => ⟨?_, hu.2⟩⟩
      exact le_trans hop hu.1

theorem outside_tick {β : Type} {call : Nat → World Doc → β × World Doc}
    (hcall : (call v.tick (v.elapse env)).2.tick = (v.elapse env).tick) :
    v.tick ≤ (outside env call v).2.tick := by
  simp only [outside]
  split
  · exact le_rfl
  · exact (Nat.le_succ _).trans_eq hcall.symm

theorem storeHandle_tick {β : Type} (op : StorePrim β) (v : World Doc) :
    v.tick ≤ (storeHandle env op v).2.tick := by
  have hdir {γ : Type} (act : Directory → Except String γ × Directory) :
      v.tick ≤ (onDirectory env act v).2.tick := by
    refine outside_tick ?_
    split
    · rfl
    · rfl
  cases op with
  | temp => exact le_rfl
  | write a bytes =>
    refine outside_tick ?_
    split
    · rfl
    · rfl
  | stat a | createNew a | setPermissions a | sync a | remove a | read a => exact hdir _
  | link source target | rename source target => exact hdir _
  | readDir | syncDir => exact hdir _

/-- A DNS primitive lets time pass, or does nothing to the names. -/
theorem dnsHandle_names {β : Type} (op : DnsPrim Doc β) (v : World Doc) :
    v.tick ≤ (dnsHandle env op v).2.tick ∧ ∀ B : Set Artifact,
      (v.tick < (dnsHandle env op v).2.tick → env.Writes B v.tick) →
        (dnsHandle env op v).2.names \ B = v.names \ B := by
  have hout {γ : Type} {call : Nat → World Doc → γ × World Doc}
      (hcall : (call v.tick (v.elapse env)).2.tick = (v.elapse env).tick ∧
        (call v.tick (v.elapse env)).2.names = (v.elapse env).names) :
      v.tick ≤ (outside env call v).2.tick ∧ ∀ B : Set Artifact,
        (v.tick < (outside env call v).2.tick → env.Writes B v.tick) →
          (outside env call v).2.names \ B = v.names \ B := by
    obtain ⟨htick, hnames⟩ := hcall
    refine ⟨outside_tick htick, ?_⟩
    intro B hB
    simp only [outside] at hB ⊢
    split
    · rfl
    · rename_i hcrash
      rw [if_neg hcrash] at hB
      rw [hnames]
      exact names_elapse (hB (by rw [htick]; exact Nat.lt_succ_self _))
  cases op with
  | record | setRecord _ | applying _ _ => exact ⟨le_rfl, fun _ _ => rfl⟩
  | running => exact hout ⟨rfl, rfl⟩
  | createStaging | writeStaging _ | syncStaging | removeStaging | recordExists | syncDir
  | applied _ _ | restore _ =>
    refine hout ?_
    split
    · exact ⟨rfl, rfl⟩
    · exact ⟨rfl, rfl⟩
  | readRecord | removeRecord =>
    refine hout ?_
    split
    · exact ⟨rfl, rfl⟩
    · split
      · exact ⟨rfl, rfl⟩
      · exact ⟨rfl, rfl⟩
  | renameStaging | linkStaging =>
    refine hout ?_
    split
    · exact ⟨rfl, rfl⟩
    · dsimp only
      split <;> exact ⟨rfl, rfl⟩

theorem exec_dns_names {ε α : Type} {B : Set Artifact} (p : Prog ε (DnsPrim Doc) α)
    (hB : ∀ tick, v.tick ≤ tick → tick < (exec (dnsHandle env) p v).2.tick → env.Writes B tick) :
    (exec (dnsHandle env) p v).2.names \ B = v.names \ B := by
  have hticks := along_ticks (h := dnsHandle env) (v := v) (fun op u => (dnsHandle_names op u).1) p
  refine Along.invariant (h := dnsHandle env) (I := fun u => u.names \ B = v.names \ B)
    hticks ?_ rfl
  intro β op u hu hsame
  refine ((dnsHandle_names op u).2 B fun hlt => ?_).trans hsame
  exact hB u.tick hu.1 (lt_of_lt_of_le hlt hu.2)

theorem exec_store_names {ε α : Type} {B : Set Artifact} (sure firm : Prop)
    {p : Prog ε StorePrim α} {r : Except ε α} {Q : Except ε α → Set Artifact → Prop}
    (hp : p.wp (namesReading B sure firm) Q (v.names \ B))
    (hB : ∀ tick, v.tick ≤ tick → tick < t.tick → env.Writes B tick)
    (hsure : sure → Along (storeHandle env) (fun op u => op.removing env u) p v)
    (hfirm : firm → Along (storeHandle env) (fun op u => op.firm env u) p v)
    (h : exec (storeHandle env) p v = (.ok r, t)) : Q r (t.names \ B) := by
  have hticks := along_ticks (h := storeHandle env) (v := v) storeHandle_tick p
  rw [h] at hticks
  have granted {P : Prop} {G : ∀ {β : Type}, StorePrim β → World Doc → Prop}
      (hG : P → Along (storeHandle env) (fun op u => G op u) p v) :
      Along (storeHandle env) (fun op u => P → G op u) p v := by
    by_cases hP : P
    · exact (hG hP).mono fun _ _ hg _ => hg
    · exact along_of_forall (h := storeHandle env) (fun _ _ hp => absurd hp hP) p
  refine (namesReading_sound env B sure firm).returns ?_ hp h
  refine (hticks.and ((granted hsure).and (granted hfirm))).mono ?_
  intro β op u hu
  refine ⟨fun hlt => hB u.tick hu.1.1 (lt_of_lt_of_le hlt hu.1.2), hu.2.1, hu.2.2⟩

end Ticks

/-! ## The operations -/

section Operations

variable {setup : Setup Doc} {env : Env Doc} {X names : Set Artifact} {last : Nat} {firm : Prop}
  {v t : World Doc}

/-- What is asked of the surroundings at an operation. -/
def Clear (setup : Setup Doc) (env : Env Doc) (X : Set Artifact) (last : Nat)
    (names : Set Artifact) (firm : Prop) {β : Type} (op : Op Doc β) (v : World Doc) : Prop :=
  Tended setup env X last op v ∧ Removing setup env last op v ∧
    (firm → Firm setup env names op v)

theorem Op.written_runtime {β : Type} {op : Op Doc β} {a : Books Doc} :
    ∀ x ∈ op.written X last a, x.ofRuntime = true := fun _ hx => hx.1

/-- Time passes, and the names are as time leaves them. -/
theorem outside_names {β : Type} {B : Set Artifact} {call : Nat → World Doc → β × World Doc} {b : β}
    (h : outside env call v = (.ok b, t))
    (hcall : (call v.tick (v.elapse env)).2.tick = (v.elapse env).tick ∧
      (call v.tick (v.elapse env)).2.names = (v.elapse env).names)
    (hB : ∀ tick, v.tick ≤ tick → tick < t.tick → env.Writes B tick) :
    t.names \ B = v.names \ B := by
  have ha := outside_ok h
  rw [ha] at hcall
  obtain ⟨htick, hnames⟩ := hcall
  rw [hnames]
  refine names_elapse (hB v.tick le_rfl ?_)
  rw [htick]
  exact Nat.lt_succ_self _

theorem cleanupEpoch_names {site : Site} {epoch : Epoch} {B : Set Artifact}
    (h : handle setup env (.cleanupEpoch site epoch) v = (.ok (.ok ()), t))
    (hB : ∀ tick, v.tick ≤ tick → tick < t.tick → env.Writes B tick) :
    t.names \ B = (v.names \ B) \ swept epoch.get := by
  simp only [handle] at h
  rcases hc : ask env (env.cleanupController · epoch) v with ⟨x | (e | _), u⟩
  · rw [hc] at h
    cases h
  · rw [hc] at h
    cases h
  · rw [hc] at h
    obtain rfl : v.elapse env = u := congrArg Prod.snd (outside_ok hc)
    rcases hs : exec (storeHandle env) (cleanupArtifacts setup epoch.get) (v.elapse env) with
      ⟨x | (e | _), u⟩
    · simp only [afterwards, hs] at h
      cases h
    · simp only [afterwards, hs] at h
      cases h
    · simp only [afterwards, hs] at h
      cases h
      have hle : (v.elapse env).tick ≤ u.tick := by
        have hmono := exec_invariant (h := storeHandle env)
          (I := fun w => (v.elapse env).tick ≤ w.tick)
          (fun op w hw => hw.trans (storeHandle_tick op w)) (cleanupArtifacts setup epoch.get) le_rfl
        rw [hs] at hmono
        exact hmono
      have hcleaned : u.names \ B = ((v.elapse env).names \ B) \ swept epoch.get :=
        exec_store_names False False cleanupArtifacts_names
          (fun tick hge hlt => hB tick ((Nat.le_succ _).trans hge) hlt) False.elim False.elim hs rfl
      show u.names \ B = _
      rw [hcleaned, names_elapse (hB v.tick le_rfl (Nat.lt_of_succ_le hle))]

/-- The operations that go to the store. -/
def Op.files {β : Type} : Op Doc β → Bool
  | .stage _ _ | .dropStaged _ | .commitNew _ _ | .commitReplace _ _ | .backup _ _ | .restore _
  | .removeBackup _ | .cleanupEpoch _ _ | .cleanupArtifacts _ | .artifactEpochs | .pidExists _ =>
    true
  | _ => false

/-- Any other operation lets time pass at most. -/
theorem handle_names_others {β : Type} {op : Op Doc β} {b : β} {B : Set Artifact}
    (hop : op.files = false) (h : handle setup env op v = (.ok b, t))
    (hB : ∀ tick, v.tick ≤ tick → tick < t.tick → env.Writes B tick) :
    t.names \ B = v.names \ B := by
  have snd : (handle setup env op v).2 = t := by rw [h]
  cases op with
  | panic message => cases h
  | current | lastSpec | quarantine | take | install _ _ _ | adopt _ | retainSource _
  | retainSpec _ | record _ _ | proveDeath _ | release _ | commitConfig _ | boot _ =>
    cases h
    rfl
  | nextEpoch =>
    simp only [handle] at h
    split at h
    · cases h
      rfl
    · cases h
  | publish _ _ | publishSnapshot _ _ _ _ | instanceStatus _ | abortForwarder _ | pid _
  | waitReady _ | stop _ _ | reconciled | checkConfig _ | load _ | validateLaunchable _
  | resolveFeatures _ | cleanupController _ | reapOrphan _ =>
    simp only [handle, ask] at h
    exact outside_names h ⟨rfl, rfl⟩ hB
  | launch site plan =>
    simp only [handle] at h
    refine outside_names h ?_ hB
    split
    · exact ⟨rfl, rfl⟩
    · exact ⟨rfl, rfl⟩
  | reap epoch =>
    simp only [handle] at h
    refine outside_names h ?_ hB
    split
    · exact ⟨rfl, rfl⟩
    · exact ⟨rfl, rfl⟩
  | dnsActivate _ | dnsDeactivate _ | dnsConverge | dnsRestore | reconcileOrphan =>
    have hsame := exec_dns_names _ (v := v) (by rw [show (exec (dnsHandle env) _ v).2 = t from snd]
                                                exact hB)
    rw [show (exec (dnsHandle env) _ v).2 = t from snd] at hsame
    exact hsame
  | stage _ _ | dropStaged _ | commitNew _ _ | commitReplace _ _ | backup _ _ | restore _
  | removeBackup _ | cleanupEpoch _ _ | cleanupArtifacts _ | artifactEpochs | pidExists _ =>
    cases hop

theorem handle_names {β : Type} {op : Op Doc β} {b : β}
    (hc : Clear setup env X last names firm op v) (h : handle setup env op v = (.ok b, t)) :
    op.onNames last firm (v.names \ op.written X last v.books) b
      (t.names \ op.written X last v.books) := by
  obtain ⟨hB, hremoving, hfirm⟩ := hc
  unfold Tended at hB
  rw [h] at hB
  cases op with
  | stage epoch contents =>
    exact exec_store_names True firm (stage_names Op.written_runtime) hB (fun _ => hremoving) hfirm h
  | dropStaged staged =>
    exact exec_store_names True False dropStaged_names hB (fun _ => hremoving) False.elim h
  | commitNew staged epoch =>
    exact exec_store_names True firm (commitNew_names Op.written_runtime) hB (fun _ => hremoving)
      hfirm h
  | commitReplace staged epoch =>
    exact exec_store_names True False (commitReplace_names Op.written_runtime) hB
      (fun _ => hremoving) False.elim h
  | backup epoch generation =>
    exact exec_store_names True firm (backup_names Op.written_runtime) hB (fun _ => hremoving)
      hfirm h
  | restore saved =>
    exact exec_store_names True False (restore_names Op.written_runtime) hB
      (fun _ => hremoving) False.elim h
  | removeBackup saved =>
    cases b with
    | error e => exact absurd h (hremoving e t)
    | ok _ => exact exec_store_names False False removeRegularFile_names hB False.elim False.elim h rfl
  | cleanupEpoch site epoch =>
    intro hlt
    cases b with
    | error e => exact absurd h (hremoving hlt e t)
    | ok _ => exact cleanupEpoch_names h hB
  | cleanupArtifacts number => trivial
  | artifactEpochs =>
    exact (exec_store_names False False artifactEpochs_names hB False.elim False.elim h).1
  | pidExists number =>
    exact exec_store_names False False pidExists_names hB False.elim False.elim h
  | _ => exact handle_names_others rfl h hB

theorem shelfReading_sound (setup : Setup Doc) (env : Env Doc) (X : Set Artifact) (last : Nat)
    (names : Set Artifact) (firm : Prop) :
    (shelfReading X last names firm).Sound (handle setup env)
      (fun op v => Clear setup env X last names firm op v) World.shelf where
  step := by
    intro β op v t b hc h
    refine ⟨books_step setup env op v t b h, handle_names hc h, ?_⟩
    intro hf
    have hfirm := hc.2.2 hf
    cases op with
    | dnsDeactivate plan =>
      intro hcurrent hbackup hstaged e he
      subst he
      exact hfirm hcurrent hbackup hstaged e t h
    | _ => trivial

end Operations

end Chimera.Manager
