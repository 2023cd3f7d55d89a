import Chimera.Manager.Files
import Chimera.Manager.Runs

/-! Whether an apply that does not take leaves everything as it was: the current
plan, the retained spec and the bytes of the epoch's file. -/

namespace Chimera.Manager
open Chimera.Model Chimera.Lib.Program Chimera.Lib.Transition

variable {Doc : Type}

/-! ## The page

What an apply has to put back, and the names its functions touch. -/

def Artifact.isDurable : Artifact → Bool
  | .config _ | .backup _ _ => true
  | _ => false

structure Page (Doc : Type) where
  last : Nat
  current : Option (Active Doc)
  lastSpec : Option InstanceSpec
  files : Files

def World.durable (w : World Doc) : Files := fun a => if a.isDurable then w.files a else none

def World.page (w : World Doc) : Page Doc :=
  ⟨w.ctrl.last, w.ctrl.current, w.ctrl.lastSpec, w.durable⟩

/-- The files differ at the names of `S`. -/
def Page.Moved (S : Set Artifact) (p p' : Page Doc) : Prop :=
  ∃ files, p' = { p with files } ∧ ∀ a ∉ S, files a = p.files a

def Page.step : ∀ {β : Type}, Op Doc β → Page Doc → β → Page Doc → Prop
  | _, .panic _, _, _, _ => False
  | _, .current, p, b, p' => b = p.current ∧ p' = p
  | _, .nextEpoch, p, epoch, p' => epoch.get = p.last + 1 ∧ p' = { p with last := p.last + 1 }
  | _, .take, p, b, p' => b = p.current ∧ p' = { p with current := none }
  | _, .install inst plan _, p, _, p' => p' =
    { p with current := some ⟨inst, plan⟩, lastSpec := some plan.sourceSpec }
  | _, .adopt _, _, _, _ | _, .retainSource _, _, _, _ | _, .retainSpec _, _, _, _
  | _, .boot _, _, _, _ => True
  | _, .commitNew _ epoch, p, _, p' => p.Moved {.config epoch.get} p'
  | _, .commitReplace _ epoch, p, r, p' =>
    p.Moved {.config epoch.get} p' ∧ ∀ e, r = .error e → p' = p
  | _, .backup epoch generation, p, r, p' => p.Moved {.backup epoch.get generation} p' ∧
    ∀ saved, r = .ok saved → saved = ⟨epoch, generation⟩ ∧
      p'.files saved.artifact = p.files (.config epoch.get)
  | _, .restore saved, p, r, p' => p.Moved {.config saved.epoch.get} p' ∧
    ∀ warning, r = .ok warning → p'.files (.config saved.epoch.get) = p.files saved.artifact
  | _, .removeBackup saved, p, _, p' => p.Moved {saved.artifact} p'
  | _, .cleanupEpoch _ epoch, p, _, p' => p.Moved {a | a.number = epoch.get} p'
  | _, .cleanupArtifacts number, p, _, p' => p.Moved {a | a.number = number} p'
  | _, _, p, _, p' => p' = p

section Sound

variable {setup : Setup Doc} {env : Env Doc} {w t : World Doc}

theorem durable_eq {a : Artifact} (ha : a.isDurable = true) : w.durable a = w.files a :=
  if_pos ha

theorem durable_none {a : Artifact} (ha : ¬a.isDurable = true) : w.durable a = none :=
  if_neg ha

@[simp] theorem World.durable_elapse (env : Env Doc) (w : World Doc) :
    (w.elapse env).durable = w.durable := by
  funext a
  unfold World.durable
  rw [World.files_elapse]

theorem exec_dns_durable {ε α : Type} (env : Env Doc) (p : Prog ε (DnsPrim Doc) α) (w : World Doc) :
    (exec (dnsHandle env) p w).2.durable = w.durable :=
  exec_same (h := dnsHandle env) (fun op w => dnsHandle_same (f := World.durable)
    (World.durable_elapse env) (fun _ _ => rfl) (fun _ _ _ _ => rfl) op w) p

/-- The page of equal books and files. -/
theorem page_eq (hb : t.books = w.books) (hd : t.durable = w.durable) : t.page = w.page := by
  have hlast : t.ctrl.last = w.ctrl.last := congrArg Books.last hb
  have hcurrent : t.ctrl.current = w.ctrl.current := congrArg Books.current hb
  have hspec : t.ctrl.lastSpec = w.ctrl.lastSpec := congrArg Books.lastSpec hb
  simp only [World.page, hlast, hcurrent, hspec, hd]

/-- A store function that touches `S` and staging files. -/
theorem exec_moved {ε α : Type} {p : Prog ε StorePrim α} {r : Except ε α} {S : Set Artifact}
    (hp : Touches (S ∪ stagings) p) (h : exec (storeHandle env) p w = (.ok r, t)) :
    w.page.Moved S t.page := by
  have hb : t.books = w.books := by
    have hb := exec_store_books env p w
    rw [h] at hb
    exact hb
  have hlast : t.ctrl.last = w.ctrl.last := congrArg Books.last hb
  have hcurrent : t.ctrl.current = w.ctrl.current := congrArg Books.current hb
  have hspec : t.ctrl.lastSpec = w.ctrl.lastSpec := congrArg Books.lastSpec hb
  refine ⟨t.durable, by simp only [World.page, hlast, hcurrent, hspec], ?_⟩
  intro a ha
  change t.durable a = w.durable a
  by_cases hd : a.isDurable = true
  · rw [durable_eq hd, durable_eq hd]
    refine exec_files (hp w.files) h a ?_
    rintro (hS | ⟨n, k, rfl⟩)
    · exact ha hS
    · cases hd
  · rw [durable_none hd, durable_none hd]

theorem Page.Moved.refl {S : Set Artifact} (p : Page Doc) : p.Moved S p := ⟨_, rfl, fun _ _ => rfl⟩

theorem Page.Moved.same {p p' : Page Doc} (h : p.Moved ∅ p') : p' = p := by
  obtain ⟨files, rfl, hf⟩ := h
  have heq : files = p.files := funext fun a => hf a (Set.notMem_empty a)
  rw [heq]

@[simp] theorem World.page_elapse (env : Env Doc) (w : World Doc) :
    (w.elapse env).page = w.page :=
  page_eq (World.books_elapse env w) (World.durable_elapse env w)

theorem commitReplace_page {staged : Staged} {epoch : Epoch} {r : Except Error (Option String)}
    (h : exec (storeHandle env) (commitReplace setup staged epoch) w = (.ok r, t)) :
    w.page.Moved {.config epoch.get} t.page ∧ ∀ e, r = .error e → t.page = w.page := by
  have hmoved : w.page.Moved {.config epoch.get} t.page :=
    exec_moved (touches_commitReplace (fun _ ha => .inr ha) (.inl rfl)) h
  refine ⟨hmoved, ?_⟩
  intro e he
  obtain ⟨files, hpage, hf⟩ := hmoved
  have hspec := (exec_files commitReplace_spec h).2 e he
  have heq : files = w.page.files := by
    funext a
    by_cases ha : a = .config epoch.get
    · subst ha
      have hd : files = t.durable := (congrArg Page.files hpage).symm
      rw [hd, durable_eq rfl, hspec]
      exact (durable_eq rfl).symm
    · exact hf a ha
  rw [hpage, heq]

theorem backup_page {epoch : Epoch} {generation : Nat} {r : Except Error Backup}
    (h : exec (storeHandle env) (backup setup epoch generation) w = (.ok r, t)) :
    w.page.Moved {.backup epoch.get generation} t.page ∧
      ∀ saved, r = .ok saved → saved = ⟨epoch, generation⟩ ∧
        t.page.files saved.artifact = w.page.files (.config epoch.get) := by
  refine ⟨exec_moved (touches_backup (fun _ ha => .inr ha) (.inl rfl)) h, ?_⟩
  intro saved hr
  obtain ⟨rfl, hfile⟩ := exec_files backup_spec h saved hr
  refine ⟨rfl, ?_⟩
  have hsaved : t.durable (Backup.artifact ⟨epoch, generation⟩) = _ := durable_eq rfl
  have hconfig : w.durable (.config epoch.get) = _ := durable_eq rfl
  exact hsaved.trans (hfile.trans hconfig.symm)

theorem restore_page {saved : Backup} {r : Except Error (Option String)}
    (h : exec (storeHandle env) (restore setup saved) w = (.ok r, t)) :
    w.page.Moved {.config saved.epoch.get} t.page ∧
      ∀ warning, r = .ok warning →
        t.page.files (.config saved.epoch.get) = w.page.files saved.artifact := by
  refine ⟨exec_moved (touches_restore (fun _ ha => .inr ha) (.inl rfl)) h, ?_⟩
  intro warning hr
  have hfile := exec_files restore_spec h warning hr
  have hsaved : w.durable saved.artifact = _ := durable_eq rfl
  have hconfig : t.durable (.config saved.epoch.get) = _ := durable_eq rfl
  exact hconfig.trans (hfile.trans hsaved.symm)

theorem cleanupEpoch_page {site : Site} {epoch : Epoch} {r : Except Error Unit}
    (h : handle setup env (.cleanupEpoch site epoch) w = (.ok r, t)) :
    w.page.Moved {a | a.number = epoch.get} t.page := by
  simp only [handle] at h
  rcases hc : ask env (env.cleanupController · epoch) w with ⟨x | (e | _), u⟩
  · rw [hc] at h
    cases h
  · rw [hc] at h
    cases h
    obtain rfl : w.elapse env = _ := congrArg Prod.snd (outside_ok hc)
    rw [World.page_elapse]
    exact .refl _
  · rw [hc] at h
    obtain rfl : w.elapse env = u := congrArg Prod.snd (outside_ok hc)
    rcases hs : exec (storeHandle env) (cleanupArtifacts setup epoch.get) (w.elapse env) with
      ⟨x | (e | _), v⟩
    · simp only [afterwards, hs] at h
      cases h
    · simp only [afterwards, hs] at h
      cases h
      rw [← World.page_elapse env w]
      exact exec_moved (touches_cleanupArtifacts fun a ha => .inl ha) hs
    · simp only [afterwards, hs] at h
      cases h
      have hmoved : (w.elapse env).page.Moved {a | a.number = epoch.get} v.page :=
        exec_moved (touches_cleanupArtifacts fun a ha => .inl ha) hs
      rw [← World.page_elapse env w]
      exact hmoved

theorem page_step {β : Type} (op : Op Doc β) (b : β) (h : handle setup env op w = (.ok b, t)) :
    Page.step op w.page b t.page := by
  have snd : (handle setup env op w).2 = t := by rw [h]
  have elapsed := World.page_elapse env w
  cases op with
  | panic message => cases h
  | current | take =>
    cases h
    exact ⟨rfl, rfl⟩
  | lastSpec | quarantine | record _ _ | proveDeath _ | release _ | commitConfig _ =>
    cases h
    rfl
  | nextEpoch =>
    have hb := books_step setup env .nextEpoch w t b h
    simp only [handle] at h
    split at h
    · cases h
      exact ⟨hb.1, rfl⟩
    · cases h
  | install inst plan rollback =>
    cases h
    rfl
  | adopt _ | retainSource _ | retainSpec _ | boot _ => trivial
  | launch site plan =>
    simp only [handle] at h
    have ha := outside_ok h
    split at ha
    · cases ha
      exact elapsed
    · cases ha
      exact elapsed
  | reap epoch =>
    simp only [handle] at h
    have ha := outside_ok h
    split at ha
    · cases ha
      exact elapsed
    · cases ha
      exact elapsed
  | publish _ _ | publishSnapshot _ _ _ _ | instanceStatus _ | abortForwarder _ | pid _
  | waitReady _ | stop _ _ | reconciled | checkConfig _ | load _ | validateLaunchable _
  | resolveFeatures _ | cleanupController _ | reapOrphan _ =>
    rw [← snd]
    exact outside_same elapsed rfl
  | stage epoch contents => exact (exec_moved (touches_stage fun _ ha => .inr ha) h).same
  | dropStaged staged =>
    exact (exec_moved (touches_dropStaged (.inr staged.mem_stagings)) h).same
  | commitNew staged epoch =>
    exact exec_moved (touches_commitNew (fun _ ha => .inr ha) (.inl rfl)) h
  | commitReplace staged epoch => exact commitReplace_page h
  | backup epoch generation => exact backup_page h
  | restore saved => exact restore_page h
  | removeBackup saved => exact exec_moved (touches_removeRegularFile (.inl rfl)) h
  | cleanupEpoch site epoch => exact cleanupEpoch_page h
  | cleanupArtifacts number => exact exec_moved (touches_cleanupArtifacts fun a ha => .inl ha) h
  | artifactEpochs =>
    exact (exec_moved (.bind (.file (Set.empty_subset _)) fun _ => .ret _) h).same
  | pidExists number =>
    exact (exec_moved (.bind (.file (Set.empty_subset _)) fun _ => .ret _) h).same
  | dnsActivate _ | dnsDeactivate _ | dnsConverge | dnsRestore | reconcileOrphan =>
    rw [← snd]
    exact page_eq (exec_dns_books env _ w) (exec_dns_durable env _ w)

end Sound

/-! ## Atomicity -/

def isRollback : ApplyOutcome → Bool
  | .rolledBack _ _ => true
  | .durabilityUncertain outcome _ => isRollback outcome
  | _ => false

/-- The apply ends with the old epoch's plan in place: it failed while a runtime
lives on, or rolled back. -/
def OldInPlace (r : Except Error ApplyOutcome) (t : World Doc) : Prop :=
  match r with
  | .error _ => t.running.isSome = true
  | .ok outcome => isRollback outcome = true

/-- The current plan, the retained spec and the file of the current epoch. -/
structure Unchanged (w t : World Doc) : Prop where
  plan : t.ctrl.current.map Active.plan = w.ctrl.current.map Active.plan
  spec : t.ctrl.lastSpec = w.ctrl.lastSpec
  file : ∀ active, w.ctrl.current = some active →
    t.artifacts.find (.config active.plan.revision.epoch.get) =
      w.artifacts.find (.config active.plan.revision.epoch.get)

def Atomic (w : World Doc) (r : Except Error ApplyOutcome) (t : World Doc) : Prop :=
  OldInPlace r t → Unchanged w t

/-- No DNS deactivation fails, with the runtime still living, while the file of
the current epoch is not the one that the apply found. -/
def Unstranded (setup : Setup Doc) (env : Env Doc) (w : World Doc) {β : Type} :
    Op Doc β → World Doc → Prop
  | .dnsDeactivate plan, v => ∀ active error t, w.ctrl.current = some active →
      v.ctrl.current.isSome = true →
      v.artifacts.find (.config active.plan.revision.epoch.get) ≠
        w.artifacts.find (.config active.plan.revision.epoch.get) →
      handle setup env (.dnsDeactivate plan) v = (.ok (.error error), t) → t.running = none
  | _, _ => True

section Outcomes

variable {w v : World Doc} {r : Except Error ApplyOutcome} {active : Active Doc}

theorem atomic_durability {warning : Option String} :
    Atomic w (withDurabilityResult r warning) v ↔ Atomic w r v := by
  cases r with
  | ok outcome => cases warning <;> exact Iff.rfl
  | error e => cases warning <;> exact Iff.rfl

theorem atomic_warning {outcome : ApplyOutcome} {warning : Option String} :
    Atomic w (.ok (withDurabilityWarning outcome warning)) v ↔ Atomic w (.ok outcome) v := by
  cases warning <;> exact Iff.rfl

theorem page_config (v : World Doc) (number : Nat) :
    v.page.files (.config number) = v.artifacts.find (.config number) := by
  change v.durable (.config number) = _
  rw [durable_eq rfl, World.files_eq rfl]

theorem file_eq {number : Nat} :
    v.artifacts.find (.config number) = w.artifacts.find (.config number) ↔
      v.page.files (.config number) = w.page.files (.config number) := by
  rw [page_config, page_config]

/-- What an apply of `active` keeps until it changes something. -/
structure Kept (active : Active Doc) (w v : World Doc) : Prop where
  current : v.page.current = some active
  spec : v.page.lastSpec = w.page.lastSpec
  file : v.page.files (.config active.plan.revision.epoch.get) =
    w.page.files (.config active.plan.revision.epoch.get)

/-- The plan of `active` is current, on whatever instance. -/
structure Returned (active : Active Doc) (w v : World Doc) : Prop where
  plan : v.page.current.map Active.plan = some active.plan
  spec : v.page.lastSpec = w.page.lastSpec
  file : v.page.files (.config active.plan.revision.epoch.get) =
    w.page.files (.config active.plan.revision.epoch.get)

theorem Returned.atomic (hw : w.ctrl.current = some active) (h : Returned active w v) :
    Atomic w r v := by
  intro _
  refine ⟨?_, h.spec, ?_⟩
  · rw [hw]
    exact h.plan
  · intro other ho
    obtain rfl : active = other := Option.some.inj (hw.symm.trans ho)
    exact file_eq.2 h.file

theorem Kept.returned (h : Kept active w v) : Returned active w v := by
  refine ⟨?_, h.spec, h.file⟩
  rw [h.current]
  rfl

theorem vacant_atomic {e : Error} (h : v.page.current = none) : Atomic w (.error e) v := by
  intro hrun
  have hv : v.ctrl.current = none := h
  simp only [OldInPlace, World.running, hv] at hrun
  cases hrun

end Outcomes

/-! ## The apply, function by function

Each specification starts and, but for the stranded apply, ends with the mark
in place; what it says of the world, it says of the page. -/

abbrev marked (setup : Setup Doc) (env : Env Doc) (w : World Doc) :
    Reading (Op Doc) (World Doc × Prop) :=
  flagged (handle setup env) (Unstranded setup env w)

section Rules

variable {setup : Setup Doc} {env : Env Doc} {w v : World Doc} {α β : Type}
  {T : Except Error α → World Doc × Prop → Prop}

theorem marked_perform {op : Op Doc β} {f : β → Control Doc α} (hG : Unstranded setup env w op v)
    (next : ∀ b v', Page.step op v.page b v'.page → (f b).wp (marked setup env w) T (v', True)) :
    (perform op >>= f).wp (marked setup env w) T (v, True) := by
  refine Prog.wp_perform_bind trivial ?_
  intro b a' hstep
  obtain ⟨v', rfl, hop⟩ := flagged_true hG hstep
  exact next b v' (page_step op b hop)

theorem marked_demand {op : Op Doc (Except Error β)} {f : β → Control Doc α}
    (hG : Unstranded setup env w op v)
    (error : ∀ e v', Page.step op v.page (.error e) v'.page → T (.error e) (v', True))
    (ok : ∀ b v', Page.step op v.page (.ok b) v'.page →
      (f b).wp (marked setup env w) T (v', True)) :
    (demand op >>= f).wp (marked setup env w) T (v, True) := by
  refine Prog.wp_demand_bind trivial ?_ ?_
  · intro e a' hstep
    obtain ⟨v', rfl, hop⟩ := flagged_true hG hstep
    exact error e v' (page_step op _ hop)
  · intro b a' hstep
    obtain ⟨v', rfl, hop⟩ := flagged_true hG hstep
    exact ok b v' (page_step op _ hop)

/-- With no current epoch, a failed DNS deactivation strands nothing. -/
theorem unstranded_vacant {plan : EpochPlan Doc} (h : v.page.current = none) :
    Unstranded setup env w (.dnsDeactivate plan) v := by
  intro active e t _ hsome
  have hv : v.ctrl.current = none := h
  rw [hv] at hsome
  cases hsome

/-- Neither where the file is the one that was found. -/
theorem unstranded_kept {plan : EpochPlan Doc} {active : Active Doc}
    (hw : w.ctrl.current = some active) (h : Kept active w v) :
    Unstranded setup env w (.dnsDeactivate plan) v := by
  intro other e t ho _ hne
  obtain rfl : active = other := Option.some.inj (hw.symm.trans ho)
  exact absurd (file_eq.2 h.file) hne

/-! ### Functions that leave the page -/

theorem publish_page {state : CoreState} {plan : Option (EpochPlan Doc)} {f : Unit → Control Doc α}
    (next : ∀ v', v'.page = v.page → (f ()).wp (marked setup env w) T (v', True)) :
    (perform (.publish state plan) >>= f).wp (marked setup env w) T (v, True) :=
  marked_perform trivial fun _ v' hp => next v' hp

theorem publishAndFail_page {error : Error}
    (h : ∀ v', v'.page = v.page → T (.error error) (v', True)) :
    (publishAndFail error : Control Doc α).wp (marked setup env w) T (v, True) :=
  marked_perform trivial fun _ v' hp => h v' hp

theorem dropStagedFile_page {staged : Staged} {f : Unit → Control Doc α}
    (next : ∀ v', v'.page = v.page → (f ()).wp (marked setup env w) T (v', True)) :
    (dropStagedFile staged >>= f).wp (marked setup env w) T (v, True) := by
  rw [Prog.wp_bind]
  refine marked_perform trivial ?_
  intro _ v' hp
  exact next v' hp

theorem checkStaged_page {spec : InstanceSpec} {staged : Staged} {f : Unit → Control Doc α}
    (error : ∀ e v', v'.page = v.page → T (.error e) (v', True))
    (next : ∀ v', v'.page = v.page → (f ()).wp (marked setup env w) T (v', True)) :
    (checkStaged setup spec staged >>= f).wp (marked setup env w) T (v, True) := by
  rw [Prog.wp_bind]
  refine marked_perform trivial ?_
  intro r v₁ h₁
  cases r with
  | ok _ => exact next v₁ h₁
  | error e =>
    refine dropStagedFile_page ?_
    intro v₂ h₂
    exact error e v₂ (h₂.trans h₁)

theorem publishInstance_page {inst : Instance} {state : CoreState} {plan : EpochPlan Doc}
    {T : Except Error Unit → World Doc × Prop → Prop}
    (h : ∀ v', v'.page = v.page → T (.ok ()) (v', True)) :
    (publishInstance inst state plan).wp (marked setup env w) T (v, True) := by
  refine marked_perform trivial ?_
  intro snapshot v₁ h₁
  have announced : ∀ {v : World Doc} {T : Except Error Unit → World Doc × Prop → Prop},
      (∀ v', v'.page = v.page → T (.ok ()) (v', True)) →
      (announceConfig state snapshot.instanceId plan).wp (marked setup env w) T (v, True) := by
    intro v T h
    unfold announceConfig
    split
    · exact marked_perform trivial fun _ v' hp => h v' hp
    · exact h v rfl
  refine (Prog.wp_bind ..).2 (announced ?_)
  intro v₂ h₂
  refine marked_perform trivial ?_
  intro _ v₃ h₃
  exact h v₃ (h₃.trans (h₂.trans h₁))

theorem latchQuarantine_page {epoch : Epoch} {error : Error}
    (h : ∀ v', v'.page = v.page → T (.error error) (v', True)) :
    (latchQuarantine epoch error : Control Doc α).wp (marked setup env w) T (v, True) := by
  refine marked_perform trivial ?_
  intro _ v₁ h₁
  refine marked_perform trivial ?_
  intro list v₂ h₂
  split
  · refine marked_perform trivial ?_
    intro _ v₃ h₃
    exact h v₃ (h₃.trans (h₂.trans h₁))
  · exact marked_perform trivial fun b _ _ => b.elim

/-! ### Functions that move files -/

theorem removeBackupQuietly_page {saved : Backup} {f : Unit → Control Doc α}
    (next : ∀ v', v.page.Moved {saved.artifact} v'.page →
      (f ()).wp (marked setup env w) T (v', True)) :
    (removeBackupQuietly saved >>= f).wp (marked setup env w) T (v, True) := by
  rw [Prog.wp_bind]
  refine marked_perform trivial ?_
  intro _ v' hp
  exact next v' hp

theorem cleanupQuietly_page {epoch : Epoch} {f : Unit → Control Doc α}
    (next : ∀ v', v.page.Moved {a | a.number = epoch.get} v'.page →
      (f ()).wp (marked setup env w) T (v', True)) :
    (cleanupQuietly epoch >>= f).wp (marked setup env w) T (v, True) := by
  rw [Prog.wp_bind]
  refine marked_perform trivial ?_
  intro _ v' hp
  exact next v' hp

theorem prepareLaunch_page {spec : InstanceSpec} {epoch : Epoch} {snapshot : Snapshot Doc}
    {T : Except Error (EpochPlan Doc) → World Doc × Prop → Prop}
    (h : ∀ r v', v.page.Moved {.config epoch.get} v'.page → T r (v', True)) :
    (prepareLaunch setup spec epoch snapshot).wp (marked setup env w) T (v, True) := by
  have same : ∀ r v', v'.page = v.page → T r (v', True) := by
    intro r v' hp
    refine h r v' ?_
    rw [hp]
    exact .refl _
  refine marked_demand trivial (fun e v' hp => same _ v' hp) ?_
  intro _ v₁ h₁
  refine marked_demand trivial (fun e v' hp => same _ v' (hp.trans h₁)) ?_
  intro resolved v₂ h₂
  have h₂ := h₂.trans h₁
  unfold prepareLaunchWithFeatures
  rw [Prog.wp_bind, Prog.wp_ret]
  cases setup.prepareFull snapshot epoch resolved.runtime (localIpcSettings setup spec) with
  | error e => exact same _ v₂ h₂
  | ok full =>
    rw [Prog.andThen_ok, Prog.wp_bind, Prog.wp_ret]
    cases nativePaths setup spec full with
    | error e => exact same _ v₂ h₂
    | ok prepared =>
      refine marked_demand trivial (fun e v' hp => same _ v' (hp.trans h₂)) ?_
      intro staged v₃ h₃
      have h₃ := h₃.trans h₂
      refine checkStaged_page (fun e v' hp => same _ v' (hp.trans h₃)) ?_
      intro v₄ h₄
      have h₄ := h₄.trans h₃
      refine marked_demand trivial ?_ ?_
      · intro e v' hp
        rw [h₄] at hp
        exact h _ v' hp
      · intro path v' hp
        rw [h₄] at hp
        exact h _ v' hp

theorem prepareApply_page {active : Active Doc} {input : InstanceSpec} {snapshot : Snapshot Doc}
    {T : Except Error (PreparedApply Doc) → World Doc × Prop → Prop}
    (h : ∀ r v', v'.page = v.page → T r (v', True)) :
    (prepareApply setup active input snapshot).wp (marked setup env w) T (v, True) := by
  refine marked_demand trivial (fun e v' hp => h _ v' hp) ?_
  intro _ v₁ h₁
  refine marked_demand trivial (fun e v' hp => h _ v' (hp.trans h₁)) ?_
  intro resolved v₂ h₂
  have h₂ := h₂.trans h₁
  rw [Prog.wp_bind, Prog.wp_ret]
  cases setup.prepareFull snapshot active.plan.revision.epoch resolved.runtime
      (localIpcSettings setup input) with
  | error e => exact h _ v₂ h₂
  | ok full =>
    rw [Prog.andThen_ok, Prog.wp_bind, Prog.wp_ret]
    cases nativePaths setup input full with
    | error e => exact h _ v₂ h₂
    | ok prepared =>
      refine marked_demand trivial (fun e v' hp => h _ v' (hp.trans h₂)) ?_
      intro staged v₃ h₃
      have h₃ := h₃.trans h₂
      refine checkStaged_page (fun e v' hp => h _ v' (hp.trans h₃)) ?_
      intro v₄ h₄
      have h₄ := h₄.trans h₃
      rw [Prog.wp_bind]
      unfold nextGeneration
      split
      · exact h _ v₄ h₄
      · exact marked_perform trivial fun b _ _ => b.elim

/-! ### Retiring and replacing -/

theorem spawnReplacement_page {plan : EpochPlan Doc}
    {T : Except Error Instance → World Doc × Prop → Prop} (hv : v.page.current = none)
    (h : ∀ r v', v'.page = v.page → T r (v', True)) :
    (spawnReplacement plan).wp (marked setup env w) T (v, True) := by
  refine marked_demand (unstranded_vacant hv) (fun e v' hp => h _ v' hp) ?_
  intro _ v₁ h₁
  refine marked_demand trivial (fun e v' hp => h _ v' (hp.trans h₁)) ?_
  intro _ v₂ h₂
  have h₂ := h₂.trans h₁
  refine marked_demand trivial (fun e v' hp => h _ v' (hp.trans h₂)) ?_
  intro inst v₃ h₃
  have h₃ := h₃.trans h₂
  refine marked_perform trivial ?_
  intro ready v₄ h₄
  cases ready with
  | ok _ => exact h _ v₄ (h₄.trans h₃)
  | error e =>
    refine marked_perform trivial ?_
    intro stopped v₅ h₅
    cases stopped with
    | ok _ => exact h _ v₅ (h₅.trans (h₄.trans h₃))
    | error e => exact h _ v₅ (h₅.trans (h₄.trans h₃))

theorem retireOld_page {message : String} {next : EpochPlan Doc → Control Doc α}
    {onFailure : RetireFailure → Control Doc α} {active : Active Doc}
    (hv : v.page.current = some active)
    (hnext : ∀ v', v'.page = { v.page with current := none } →
      (next active.plan).wp (marked setup env w) T (v', True))
    (hfail : ∀ failure v', v'.page = { v.page with current := none } →
      (onFailure failure).wp (marked setup env w) T (v', True)) :
    (retireOld message next onFailure).wp (marked setup env w) T (v, True) := by
  unfold retireOld
  rw [Prog.wp_bind]
  refine marked_perform trivial ?_
  intro current v₁ h₁
  obtain ⟨hc, h₁⟩ := h₁
  rw [hv] at hc
  subst hc
  refine marked_perform trivial ?_
  intro _ v₂ h₂
  have h₂ := h₂.trans h₁
  refine marked_perform trivial ?_
  intro stopped v₃ h₃
  cases stopped with
  | ok _ => exact hnext v₃ (h₃.trans h₂)
  | error e => exact hfail _ v₃ (h₃.trans h₂)

theorem installAndPublish_page {inst : Instance} {plan : EpochPlan Doc} {rollback : Bool}
    {f : Unit → Control Doc α}
    (next : ∀ v', v'.page = { v.page with
        current := some ⟨inst, plan⟩
        lastSpec := some plan.sourceSpec } → (f ()).wp (marked setup env w) T (v', True)) :
    (installAndPublish inst plan rollback >>= f).wp (marked setup env w) T (v, True) := by
  rw [Prog.wp_bind]
  refine marked_perform trivial ?_
  intro pid v₁ h₁
  refine marked_perform trivial ?_
  intro _ v₂ h₂
  rw [h₁] at h₂
  exact publishInstance_page fun v₃ h₃ => next v₃ (h₃.trans h₂)

end Rules

/-! ### Compensation -/

section Compensation

variable {setup : Setup Doc} {env : Env Doc} {w v : World Doc} {active : Active Doc}

/-- The mark stands for what it should. -/
def Told (w : World Doc) (r : Except Error ApplyOutcome) (a : World Doc × Prop) : Prop :=
  a.2 ↔ Atomic w r a.1

/-- The current epoch is gone, and everything else as the apply found it. -/
structure Vacant (active : Active Doc) (w v : World Doc) : Prop where
  current : v.page.current = none
  spec : v.page.lastSpec = w.page.lastSpec
  file : v.page.files (.config active.plan.revision.epoch.get) =
    w.page.files (.config active.plan.revision.epoch.get)

theorem Vacant.same {v' : World Doc} (h : Vacant active w v) (hp : v'.page = v.page) :
    Vacant active w v' := by
  refine ⟨?_, ?_, ?_⟩
  · rw [hp, h.current]
  · rw [hp, h.spec]
  · rw [hp, h.file]

theorem Kept.same {v' : World Doc} (h : Kept active w v) (hp : v'.page = v.page) :
    Kept active w v' := by
  refine ⟨?_, ?_, ?_⟩
  · rw [hp, h.current]
  · rw [hp, h.spec]
  · rw [hp, h.file]

theorem told_vacant {e : Error} (h : v.page.current = none) : Told w (.error e) (v, True) :=
  iff_of_true trivial (vacant_atomic h)

theorem told_kept {r : Except Error ApplyOutcome} (hw : w.ctrl.current = some active)
    (h : Kept active w v) : Told w r (v, True) :=
  iff_of_true trivial (h.returned.atomic hw)

theorem told_new {outcome : ApplyOutcome} (h : isRollback outcome = false) :
    Told w (.ok outcome) (v, True) := by
  refine iff_of_true trivial fun hold => ?_
  have hold : isRollback outcome = true := hold
  rw [h] at hold
  cases hold

/-- The result under a durability warning. -/
theorem told_durability {p : Control Doc ApplyOutcome} {warning : Option String}
    (h : p.wp (marked setup env w) (Told w) (v, True)) :
    (do
      let result ← p.attempt
      Prog.ret (withDurabilityResult result warning) : Control Doc ApplyOutcome).wp
      (marked setup env w) (Told w) (v, True) := by
  refine Prog.wp_attempt_seq h ?_
  intro r a hr
  exact hr.trans atomic_durability.symm

theorem retireFailed_page {text : String} {failure : RetireFailure}
    (h : v.page.current = none) :
    (retireFailed text failure : Control Doc ApplyOutcome).wp (marked setup env w) (Told w)
      (v, True) := by
  unfold retireFailed
  split
  · exact latchQuarantine_page fun v' hp => told_vacant (by rw [hp, h])
  · exact publishAndFail_page fun v' hp => told_vacant (by rw [hp, h])

/-- The old plan comes back over an empty slot. -/
theorem rollBack_page {applyText text : String} {onSuccess : Control Doc Unit}
    (hs : w.ctrl.lastSpec = some active.plan.sourceSpec) (h : Vacant active w v)
    (success : ∀ v', Returned active w v' → v'.page.files = v.page.files →
      (onSuccess >>= fun _ => pure (.rolledBack active.plan.revision applyText) :
        Control Doc ApplyOutcome).wp (marked setup env w) (Told w) (v', True)) :
    (rollBack active.plan applyText text onSuccess).wp (marked setup env w) (Told w) (v, True) := by
  refine publish_page ?_
  intro v₁ h₁
  have hvacant := h.same h₁
  refine (Prog.wp_bind ..).2 ((Prog.wp_attempt ..).2 (spawnReplacement_page hvacant.current ?_))
  intro r v₂ h₂
  have hvacant := hvacant.same h₂
  cases r with
  | ok inst =>
    refine installAndPublish_page ?_
    intro v₃ h₃
    refine success v₃ ⟨?_, ?_, ?_⟩ ?_
    · rw [h₃]
      rfl
    · rw [h₃]
      exact hs.symm
    · rw [h₃]
      exact hvacant.file
    · rw [h₃, h₂, h₁]
  | error e =>
    simp only [Prog.andThen_ok]
    split
    · exact latchQuarantine_page fun v' hp => told_vacant (by rw [hp, hvacant.current])
    · exact publishAndFail_page fun v' hp => told_vacant (by rw [hp, hvacant.current])

/-- A backup of the file that the apply found. -/
structure Saved (active : Active Doc) (w v : World Doc) (saved : Backup) : Prop where
  epoch : saved.epoch = active.plan.revision.epoch
  bytes : v.page.files saved.artifact =
    w.page.files (.config active.plan.revision.epoch.get)

theorem rollBackRestart_page {saved : Backup} {applyText : String}
    (hw : w.ctrl.current = some active) (hs : w.ctrl.lastSpec = some active.plan.sourceSpec)
    (hcurrent : v.page.current = none) (hspec : v.page.lastSpec = w.page.lastSpec)
    (hsaved : Saved active w v saved) :
    (rollBackRestart active.plan saved applyText).wp (marked setup env w) (Told w) (v, True) := by
  refine marked_perform trivial ?_
  intro r v₁ h₁
  obtain ⟨⟨files, hpage, hfiles⟩, hrestored⟩ := h₁
  cases r with
  | error e =>
    refine publishAndFail_page fun v' hp => told_vacant ?_
    rw [hp, hpage, hcurrent]
  | ok warning =>
    have hbytes := hrestored warning rfl
    rw [hsaved.epoch, hsaved.bytes] at hbytes
    have hvacant : Vacant active w v₁ := by
      refine ⟨?_, ?_, hbytes⟩
      · rw [hpage, hcurrent]
      · rw [hpage, hspec]
    refine told_durability (rollBack_page hs hvacant ?_)
    intro v₂ hreturned _
    refine removeBackupQuietly_page ?_
    intro v₃ hmoved
    obtain ⟨files₃, hpage₃, hfiles₃⟩ := hmoved
    refine iff_of_true trivial (Returned.atomic hw ⟨?_, ?_, ?_⟩)
    · rw [hpage₃, hreturned.plan]
    · rw [hpage₃, hreturned.spec]
    · rw [hpage₃]
      exact (hfiles₃ (.config active.plan.revision.epoch.get) nofun).trans hreturned.file

/-- The stranded apply: its mark falls exactly when it is one. -/
theorem deactivate_told {plan : EpochPlan Doc} {error : Error} {t : World Doc}
    (hw : w.ctrl.current = some active) (hcurrent : v.page.current = some active)
    (hspec : v.page.lastSpec = w.page.lastSpec)
    (hop : handle setup env (.dnsDeactivate plan) v = (.ok (.error error), t)) :
    Told w (.error error) (t, True ∧ Unstranded setup env w (.dnsDeactivate plan) v) := by
  have hpage : t.page = v.page := page_step (.dnsDeactivate plan) _ hop
  have hfile : ∀ number, t.artifacts.find (.config number) = v.artifacts.find (.config number) :=
    fun number => file_eq.2 (by rw [hpage])
  constructor
  · rintro ⟨-, hguard⟩ hrunning
    have hrunning : t.running.isSome = true := hrunning
    by_cases hsame : v.artifacts.find (.config active.plan.revision.epoch.get) =
        w.artifacts.find (.config active.plan.revision.epoch.get)
    · refine Returned.atomic (r := .error error) hw ⟨?_, ?_, ?_⟩ hrunning
      · rw [hpage, hcurrent]
        rfl
      · rw [hpage, hspec]
      · rw [hpage]
        exact file_eq.1 hsame
    · have hv : v.ctrl.current = some active := hcurrent
      have hnone := hguard active error t hw (by rw [hv]; rfl) hsame hop
      rw [hnone] at hrunning
      cases hrunning
  · intro hatomic
    refine ⟨trivial, fun other e t' ho _ hne hop' => ?_⟩
    obtain rfl : active = other := Option.some.inj (hw.symm.trans ho)
    obtain ⟨-, rfl⟩ : error = e ∧ t = t' := by
      rw [hop] at hop'
      cases hop'
      exact ⟨rfl, rfl⟩
    by_contra hlive
    have hunchanged := hatomic (show t.running.isSome = true from Option.isSome_iff_ne_none.2 hlive)
    exact hne ((hfile _).symm.trans (hunchanged.file active hw))

theorem restartWithCompensation_page {desired : EpochPlan Doc} {saved : Backup}
    (hw : w.ctrl.current = some active) (hs : w.ctrl.lastSpec = some active.plan.sourceSpec)
    (hcurrent : v.page.current = some active) (hspec : v.page.lastSpec = w.page.lastSpec)
    (hsaved : Saved active w v saved) :
    (restartWithCompensation desired saved).wp (marked setup env w) (Told w) (v, True) := by
  refine Prog.wp_demand_bind trivial ?_ ?_
  · intro e a' hstep
    obtain ⟨t, P⟩ := a'
    obtain ⟨hop, hP⟩ := hstep
    obtain rfl : P = _ := hP
    exact deactivate_told hw hcurrent hspec hop
  intro _ a' hstep
  have hG : Unstranded setup env w (.dnsDeactivate desired) v := by
    intro other e t _ _ _ hop
    rw [show handle setup env (.dnsDeactivate desired) v = _ from hstep.1] at hop
    cases hop
  obtain ⟨v₁, rfl, hop⟩ := flagged_true hG hstep
  have h₁ : v₁.page = v.page := page_step (.dnsDeactivate desired) _ hop
  refine retireOld_page (by rw [h₁, hcurrent]) ?_ ?_
  · intro v₂ h₂
    refine publish_page ?_
    intro v₃ h₃
    have hvacant : v₃.page.current = none := by rw [h₃, h₂]
    refine (Prog.wp_bind ..).2 ((Prog.wp_attempt ..).2 (spawnReplacement_page hvacant ?_))
    intro r v₄ h₄
    have h₄ : v₄.page = { v.page with current := none } := by rw [h₄, h₃, h₂, h₁]
    cases r with
    | ok inst =>
      refine installAndPublish_page fun v₅ _ => ?_
      refine removeBackupQuietly_page fun v₆ _ => ?_
      exact told_new rfl
    | error e =>
      simp only [Prog.andThen_ok]
      split
      · exact latchQuarantine_page fun v' hp => told_vacant (by rw [hp, h₄])
      · refine rollBackRestart_page hw hs (by rw [h₄]) (by rw [h₄]; exact hspec) ⟨hsaved.epoch, ?_⟩
        rw [h₄]
        exact hsaved.bytes
  · intro failure v₂ h₂
    exact retireFailed_page (by rw [h₂])

/-- A file of another epoch moves. -/
theorem Kept.moved {v' : World Doc} {S : Set Artifact} (h : Kept active w v)
    (hS : Artifact.config active.plan.revision.epoch.get ∉ S) (hm : v.page.Moved S v'.page) :
    Kept active w v' := by
  obtain ⟨files, hpage, hfiles⟩ := hm
  refine ⟨?_, ?_, ?_⟩
  · rw [hpage, h.current]
  · rw [hpage, h.spec]
  · rw [hpage]
    exact (hfiles _ hS).trans h.file

theorem Vacant.moved {v' : World Doc} {S : Set Artifact} (h : Vacant active w v)
    (hS : Artifact.config active.plan.revision.epoch.get ∉ S) (hm : v.page.Moved S v'.page) :
    Vacant active w v' := by
  obtain ⟨files, hpage, hfiles⟩ := hm
  refine ⟨?_, ?_, ?_⟩
  · rw [hpage, h.current]
  · rw [hpage, h.spec]
  · rw [hpage]
    exact (hfiles _ hS).trans h.file

theorem switchWithCompensation_page {input : InstanceSpec} {snapshot : Snapshot Doc}
    (hw : w.ctrl.current = some active) (hs : w.ctrl.lastSpec = some active.plan.sourceSpec)
    (hkept : Kept active w v) (hle : active.plan.revision.epoch.get ≤ v.page.last) :
    (switchWithCompensation setup input snapshot).wp (marked setup env w) (Told w) (v, True) := by
  refine marked_perform trivial ?_
  intro epoch v₁ h₁
  obtain ⟨hepoch, h₁⟩ := h₁
  have hne : active.plan.revision.epoch.get ≠ epoch.get := by omega
  have hconfig : Artifact.config active.plan.revision.epoch.get ∉ ({.config epoch.get} : Set Artifact) :=
    fun he => hne (Artifact.config.inj he)
  have hclean : Artifact.config active.plan.revision.epoch.get ∉ {a | a.number = epoch.get} := hne
  have hkept₁ : Kept active w v₁ := by
    refine ⟨?_, ?_, ?_⟩
    · rw [h₁]
      exact hkept.current
    · rw [h₁]
      exact hkept.spec
    · rw [h₁]
      exact hkept.file
  refine (Prog.wp_bind ..).2 (prepareLaunch_page ?_)
  intro r v₂ h₂
  have hkept₂ := hkept₁.moved hconfig h₂
  cases r with
  | error e => exact told_kept hw hkept₂
  | ok desired =>
    refine marked_perform (unstranded_kept hw hkept₂) ?_
    intro r v₃ h₃
    cases r with
    | error e =>
      refine cleanupQuietly_page fun v₄ h₄ => ?_
      exact told_kept hw ((hkept₂.same h₃).moved hclean h₄)
    | ok _ =>
      have hkept₃ := hkept₂.same h₃
      refine retireOld_page hkept₃.current ?_ ?_
      · intro v₄ h₄
        have hvacant₄ : Vacant active w v₄ := by
          refine ⟨?_, ?_, ?_⟩
          · rw [h₄]
          · rw [h₄]
            exact hkept₃.spec
          · rw [h₄]
            exact hkept₃.file
        refine publish_page ?_
        intro v₅ h₅
        have hvacant₅ := hvacant₄.same h₅
        refine (Prog.wp_bind ..).2
          ((Prog.wp_attempt ..).2 (spawnReplacement_page hvacant₅.current ?_))
        intro r v₆ h₆
        have hvacant₆ := hvacant₅.same h₆
        cases r with
        | ok inst =>
          refine installAndPublish_page fun v₇ _ => ?_
          refine cleanupQuietly_page fun v₈ _ => ?_
          exact told_new rfl
        | error e =>
          simp only [Prog.andThen_ok]
          split
          · exact latchQuarantine_page fun v' hp => told_vacant (by rw [hp, hvacant₆.current])
          · refine cleanupQuietly_page fun v₇ h₇ => ?_
            refine rollBack_page hs (hvacant₆.moved hclean h₇) fun v₈ hreturned _ => ?_
            exact iff_of_true trivial (hreturned.atomic hw)
      · intro failure v₄ h₄
        refine cleanupQuietly_page fun v₅ h₅ => ?_
        refine retireFailed_page ?_
        obtain ⟨files, hpage, -⟩ := h₅
        rw [hpage, h₄]

/-! ### The transaction -/

theorem commitChange_page {saved : Backup} {prepared : PreparedApply Doc}
    {T : Except Error (Option String) → World Doc × Prop → Prop}
    (hw : w.ctrl.current = some active) (hkept : Kept active w v) (hsaved : Saved active w v saved)
    (error : ∀ e v', Kept active w v' → T (.error e) (v', True))
    (ok : ∀ warning v', v'.page.current = some active → v'.page.lastSpec = w.page.lastSpec →
      Saved active w v' saved → T (.ok warning) (v', True)) :
    (commitChange saved prepared).wp (marked setup env w) T (v, True) := by
  have hbackup : Artifact.config active.plan.revision.epoch.get ∉ ({saved.artifact} : Set Artifact) :=
    nofun
  refine marked_perform (unstranded_kept hw hkept) ?_
  intro r v₁ h₁
  cases r with
  | error e =>
    refine removeBackupQuietly_page fun v₂ h₂ => ?_
    refine dropStagedFile_page fun v₃ h₃ => ?_
    exact error e v₃ (((hkept.same h₁).moved hbackup h₂).same h₃)
  | ok _ =>
    have hkept₁ := hkept.same h₁
    refine marked_perform trivial ?_
    intro r v₂ h₂
    cases r with
    | error e =>
      refine marked_perform trivial ?_
      intro _ v₃ h₃
      refine removeBackupQuietly_page fun v₄ h₄ => ?_
      refine dropStagedFile_page fun v₅ h₅ => ?_
      exact error e v₅ ((((hkept₁.same h₂).same h₃).moved hbackup h₄).same h₅)
    | ok _ =>
      have hkept₂ := hkept₁.same h₂
      refine marked_perform trivial ?_
      intro current v₃ h₃
      obtain ⟨hc, h₃⟩ := h₃
      have hkept₃ := hkept₂.same h₃
      have hpage₃ : v₃.page = v.page := h₃.trans (h₂.trans h₁)
      rw [hkept₂.current] at hc
      subst hc
      refine marked_perform trivial ?_
      intro r v₄ h₄
      obtain ⟨hmoved, hfailed⟩ := h₄
      cases r with
      | error e =>
        refine marked_perform trivial ?_
        intro _ v₅ h₅
        refine removeBackupQuietly_page fun v₆ h₆ => ?_
        exact error e v₆ (((hkept₃.same (hfailed e rfl)).same h₅).moved hbackup h₆)
      | ok warning =>
        obtain ⟨files, hpage, hfiles⟩ := hmoved
        refine ok warning v₄ ?_ ?_ ⟨hsaved.epoch, ?_⟩
        · rw [hpage]
          exact hkept₃.current
        · rw [hpage]
          exact hkept₃.spec
        · rw [hpage]
          have hbytes : files saved.artifact = v₃.page.files saved.artifact := hfiles _ nofun
          refine hbytes.trans ?_
          rw [hpage₃]
          exact hsaved.bytes

theorem adoptInPlace_page {inst : Active Doc} {desired : EpochPlan Doc} {saved : Backup} {α : Type}
    {T : Except Error α → World Doc × Prop → Prop} {f : Unit → Control Doc α}
    (next : ∀ v', (f ()).wp (marked setup env w) T (v', True)) :
    (adoptInPlace inst desired saved >>= f).wp (marked setup env w) T (v, True) := by
  rw [Prog.wp_bind]
  refine marked_perform trivial fun _ v₁ _ => ?_
  refine marked_perform trivial fun pid v₂ _ => ?_
  refine (Prog.wp_bind ..).2 (publishInstance_page fun v₃ _ => ?_)
  refine marked_perform trivial fun _ v₄ _ => ?_
  exact marked_perform trivial fun _ v₅ _ => next v₅

theorem applyChange_page {prepared : PreparedApply Doc} {outcome : ConfigRevision → ApplyOutcome}
    (hw : w.ctrl.current = some active) (hs : w.ctrl.lastSpec = some active.plan.sourceSpec)
    (hkept : Kept active w v) (hnew : ∀ revision, isRollback (outcome revision) = false) :
    (applyChange active prepared outcome).wp (marked setup env w) (Told w) (v, True) := by
  have hbackup : ∀ generation, Artifact.config active.plan.revision.epoch.get ∉
      ({.backup active.plan.revision.epoch.get generation} : Set Artifact) := fun _ => nofun
  refine (Prog.wp_bind ..).2 ?_
  unfold orDrop
  rw [Prog.wp_bind, Prog.wp_attempt, Prog.wp_demand]
  refine ⟨trivial, fun r a' hstep => ?_⟩
  have hG : Unstranded setup env w
      (.backup active.plan.revision.epoch prepared.plan.revision.generation) v := trivial
  obtain ⟨v₁, rfl, hop⟩ := flagged_true hG hstep
  have h₁ := page_step (.backup active.plan.revision.epoch prepared.plan.revision.generation) r hop
  obtain ⟨hmoved, hbytes⟩ := h₁
  have hkept₁ := hkept.moved (hbackup _) hmoved
  cases r with
  | error e => exact dropStagedFile_page fun v₂ h₂ => told_kept hw (hkept₁.same h₂)
  | ok saved =>
    obtain ⟨rfl, hbytes⟩ := hbytes saved rfl
    have hsaved : Saved active w v₁ _ := ⟨rfl, hbytes.trans hkept.file⟩
    refine (Prog.wp_bind ..).2 (commitChange_page hw hkept₁ hsaved ?_ ?_)
    · intro e v' h
      exact told_kept hw h
    · intro warning v₂ hcurrent hspec hsaved₂
      refine marked_perform trivial ?_
      intro reconciled v₃ h₃
      cases reconciled with
      | true =>
        refine adoptInPlace_page fun v' => ?_
        exact (told_new (hnew _)).trans atomic_warning.symm
      | false =>
        refine told_durability (restartWithCompensation_page hw hs ?_ ?_ ⟨hsaved₂.epoch, ?_⟩)
        · rw [h₃, hcurrent]
        · rw [h₃, hspec]
        · rw [h₃, hsaved₂.bytes]

theorem applyLocked_page {input : InstanceSpec} {expected : Option RevisionId}
    (standing : ∀ active, w.ctrl.current = some active →
      w.ctrl.lastSpec = some active.plan.sourceSpec ∧
        active.plan.revision.epoch.get ≤ w.ctrl.last) :
    (applyLocked setup input expected).wp (marked setup env w) (Told w) (w, True) := by
  refine marked_perform trivial ?_
  intro current v₁ h₁
  obtain ⟨hc, h₁⟩ := h₁
  cases current with
  | none => exact told_vacant (by rw [h₁]; exact hc.symm)
  | some active =>
    have hw : w.ctrl.current = some active := hc.symm
    obtain ⟨hs, hle⟩ := standing active hw
    have hkept : Kept active w w := ⟨hw, rfl, rfl⟩
    have hkept₁ := hkept.same h₁
    refine marked_perform trivial ?_
    intro status v₂ h₂
    have hkept₂ := hkept₁.same h₂
    split
    · exact told_kept hw hkept₂
    · simp only
      split
      · exact told_kept hw hkept₂
      · refine marked_demand trivial (fun e v' hp => told_kept hw (hkept₂.same hp)) ?_
        intro snapshot v₃ h₃
        have hkept₃ := hkept₂.same h₃
        refine (Prog.wp_bind ..).2 (prepareApply_page ?_)
        intro r v₄ h₄
        have hkept₄ := hkept₃.same h₄
        cases r with
        | error e => exact told_kept hw hkept₄
        | ok prepared =>
          have hpage : v₄.page = w.page := h₄.trans (h₃.trans (h₂.trans h₁))
          simp only [Prog.andThen_ok]
          split
          · exact dropStagedFile_page fun v' hp => told_kept hw (hkept₄.same hp)
          · refine marked_perform trivial fun _ v₅ _ => ?_
            refine marked_perform trivial fun _ v₆ _ => ?_
            exact dropStagedFile_page fun v' _ => told_new rfl
          · refine dropStagedFile_page fun v₅ h₅ => ?_
            refine switchWithCompensation_page hw hs (hkept₄.same h₅) ?_
            rw [h₅, hpage]
            exact hle
          · exact applyChange_page hw hs hkept₄ fun _ => rfl
          · exact applyChange_page hw hs hkept₄ fun _ => rfl

end Compensation

/-- An apply that ends with the old epoch's plan in place leaves the plan, the
retained spec and the epoch's file as it found them, exactly when no DNS
deactivation strands it; and the retained spec is always the current plan's. The
apply begins where `apply_config` or `reconcile` has looked at the runtime. -/
theorem apply_atomic_iff (setup : Setup Doc) (env : Env Doc) (artifacts : Directory)
    (recordFile : Option (List UInt8)) (recordStaging : Option RecordStaging) {s : System Doc}
    (hs : (manager setup env artifacts recordFile recordStaging).Reachable s) (hup : s.up = true)
    {w : World Doc} (hw : Waited env s.world w) :
    (∀ input expected r t,
      exec (handle setup env) (applyLocked setup input expected) w = (.ok r, t) →
        (Atomic w r t ↔
          Along (handle setup env) (Unstranded setup env w) (applyLocked setup input expected) w)) ∧
    ∀ active, s.world.ctrl.current = some active →
      s.world.ctrl.lastSpec = some active.plan.sourceSpec := by
  have hg := reachable_good hs hup false
  have hctrl : w.ctrl = s.world.ctrl := hw.same fun _ => World.elapse_ctrl
  refine ⟨?_, fun active h => (hg.standing active h).retained⟩
  intro input expected r t hr
  have standing : ∀ active, w.ctrl.current = some active →
      w.ctrl.lastSpec = some active.plan.sourceSpec ∧
        active.plan.revision.epoch.get ≤ w.ctrl.last := by
    intro active h
    rw [hctrl] at h ⊢
    exact ⟨(hg.standing active h).retained, (hg.standing active h).held.le_last⟩
  have htold := flagged_returns (h := handle setup env) (G := Unstranded setup env w)
    (applyLocked_page standing) hr
  exact (htold.symm.trans (and_iff_right trivial))

/-- A host whose record file cannot be removed once, and whose resolver cannot be
restored after that; the second document wants no override, and the core does
not take it in place. -/
def strandingEnv : Env Nat :=
  { plainEnv 7 with
    load := fun tick path => .ok ⟨path, if tick < 51 then 7 else 8⟩
    fault := fun tick => if tick = 79 then some "Input/output error (os error 5)" else none
    reconciled := fun _ => false
    dnsApply := fun _ intent epoch => .ok (hostRecord intent epoch)
    dnsRestore := fun tick _ => if tick < 79 then .ok () else .error .timedOut }

theorem apply_strands :
    ((manager hostSetup strandingEnv [] none none).run
      (manager hostSetup strandingEnv [] none none).init [.build, .call (.start plainSpec)]).any
      (fun s => s.up && match exec (handle hostSetup strandingEnv)
          (applyLocked hostSetup plainSpec none) s.world with
        | (.ok (.error _), t) => t.running.isSome && s.world.ctrl.current.any fun active =>
            t.artifacts.find (.config active.plan.revision.epoch.get) ≠
              s.world.artifacts.find (.config active.plan.revision.epoch.get)
        | _ => false) = true := by
  decide +kernel

/-- The second document is written over the first, the apply fails, and the old
core lives on beside it. -/
theorem stranded_apply :
    ∃ s r t, (manager hostSetup strandingEnv [] none none).Reachable s ∧ s.up = true ∧
      exec (handle hostSetup strandingEnv) (applyLocked hostSetup plainSpec none) s.world =
        (.ok r, t) ∧ ¬Atomic s.world r t := by
  obtain ⟨s, hs, ho⟩ := (Option.any_eq_true _ _).1 apply_strands
  obtain ⟨hup, ho⟩ := (Bool.and_eq_true _ _).mp ho
  split at ho
  · rename_i error t hr
    obtain ⟨hrunning, hfile⟩ := (Bool.and_eq_true _ _).mp ho
    obtain ⟨active, hactive, hne⟩ := (Option.any_eq_true _ _).1 hfile
    refine ⟨s, _, t, Machine.run_reachable .init hs, hup, hr, ?_⟩
    intro hatomic
    exact of_decide_eq_true hne ((hatomic hrunning).file active hactive)
  · cases ho

/-- An apply of the running document. -/
theorem noop_apply_atomic :
    ∃ s r t, (manager plainSetup (plainEnv 7) [] none none).Reachable s ∧
      exec (handle plainSetup (plainEnv 7)) (applyLocked plainSetup plainSpec none) s.world =
        (.ok r, t) ∧
      (Atomic s.world r t ↔ Along (handle plainSetup (plainEnv 7))
        (Unstranded plainSetup (plainEnv 7) s.world) (applyLocked plainSetup plainSpec none)
        s.world) := by
  have applies : ((manager plainSetup (plainEnv 7) [] none none).run
      (manager plainSetup (plainEnv 7) [] none none).init [.build, .call (.start plainSpec)]).any
      (fun s => s.up && (exec (handle plainSetup (plainEnv 7))
        (applyLocked plainSetup plainSpec none) s.world).1.isOk) = true := by decide +kernel
  obtain ⟨s, hs, ho⟩ := (Option.any_eq_true _ _).1 applies
  obtain ⟨hup, hok⟩ := (Bool.and_eq_true _ _).mp ho
  have hreach := Machine.run_reachable .init hs
  rcases hr : exec (handle plainSetup (plainEnv 7)) (applyLocked plainSetup plainSpec none)
      s.world with ⟨x | r, t⟩
  · rw [hr] at hok
    cases hok
  · exact ⟨s, r, t, hreach, hr,
      (apply_atomic_iff plainSetup (plainEnv 7) [] none none hreach hup .refl).1 _ _ r t hr⟩

end Chimera.Manager
