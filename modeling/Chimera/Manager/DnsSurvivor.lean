import Chimera.Manager.DnsFront

/-! What a rejected transition leaves of host DNS: the override that the surviving
plan wants.

A transition changes host DNS before it is sure of the runtime that the change is
for. The surviving plan has its override back when a compensating convergence can
write its record; a graceful bootstrap that does not come up is not compensated. -/

namespace Chimera.Manager
open Chimera.Model Chimera.Lib.Program Chimera.Lib.Transition

variable {Doc : Type} {setup : Setup Doc} {env : Env Doc} {a : Front Doc} {α β : Type}

/-! ## Steady functions -/

theorem Front.Same.refl (a : Front Doc) : a.Same a := ⟨rfl, rfl, id⟩

theorem Front.Same.trans {a b c : Front Doc} (h : a.Same b) (h' : b.Same c) : a.Same c :=
  ⟨h'.current.trans h.current, h'.held.trans h.held, fun ha => h'.ended (h.ended ha)⟩

theorem Front.Same.fits {a a' : Front Doc} (h : a.Same a') (ha : a.Fits setup) :
    a'.Fits setup := by
  intro active hactive
  rw [h.held]
  exact ha active (h.current.symm.trans hactive)

theorem Front.Same.calm {a a' : Front Doc} (h : a.Same a') (ha : a.Calm setup) :
    a'.Calm setup :=
  ha.imp h.fits h.ended

theorem Front.step_same {op : Op Doc β} {a a' : Front Doc} {b : β} (hop : op.steady = true)
    (h : Front.step setup env op a b a') : a.Same a' := by
  cases op with
  | current =>
    rw [h.2]
    exact .refl a
  | instanceStatus inst => exact h.1
  | waitReady inst => exact h.1
  | take | install _ _ _ | adopt _ | retainSource _ | launch _ _ | dnsActivate _
  | dnsDeactivate _ | dnsConverge | dnsRestore | reconcileOrphan | boot _ => cases hop
  | _ => exact h

theorem Steady.same {p : Control Doc α} (hp : Steady p) :
    p.wp (frontReading setup env) (fun _ a' => a.Same a') a :=
  Prog.Only.keeps (I := fun a' : Front Doc => a.Same a') hp (fun _ _ _ _ => trivial)
    (fun _ _ _ _ hop h ha => ha.trans (Front.step_same hop h)) (.refl a)

theorem Steady.then {p : Control Doc α} {f : α → Control Doc β}
    {T : Except Error β → Front Doc → Prop} (hp : Steady p)
    (error : ∀ e a', a.Same a' → T (.error e) a')
    (next : ∀ x a', a.Same a' → (f x).wp (frontReading setup env) T a') :
    (p >>= f).wp (frontReading setup env) T a :=
  Prog.wp_seq hp.same error next

/-! ## Changing the runtime -/

/-- Nothing is current: nothing is wanted of the host. -/
theorem Front.calm_of_none (h : a.current = none) : a.Calm setup := by
  refine .inl ?_
  intro active hactive
  rw [h] at hactive
  cases hactive

theorem Steady.calmly {p : Control Doc α} (hp : Steady p) (ha : a.Calm setup) :
    p.wp (frontReading setup env) (fun _ a' => a'.Calm setup) a :=
  Prog.wp_mono hp.same fun _ _ h => h.calm ha

theorem Steady.idle {p : Control Doc α} (hp : Steady p) (ha : a.current = none) :
    p.wp (frontReading setup env) (fun _ a' => a'.Calm setup) a :=
  hp.calmly (Front.calm_of_none ha)

/-- Host DNS is brought to what the plan wants, in either order. -/
theorem held_wanted {plan : EpochPlan Doc} {a₁ a₂ : Front Doc} {r r' : Except Error Unit}
    (h : Front.step setup env (.dnsDeactivate plan) a r a₁)
    (h' : Front.step setup env (.dnsActivate plan) a₁ r' a₂) (hok : r'.isOk = true) :
    a₂.held = wantedBy setup plan := by
  obtain ⟨-, -, hheld⟩ := h
  obtain ⟨-, ⟨hnone, hsame⟩ | ⟨intent, hsome, happlied⟩⟩ := h'
  · rw [hsame, hheld, hnone]
    rfl
  · rw [happlied hok, hsome]

theorem held_wanted' {plan : EpochPlan Doc} {a₁ a₂ : Front Doc} {r r' : Except Error Unit}
    (h : Front.step setup env (.dnsActivate plan) a r a₁) (hok : r.isOk = true)
    (h' : Front.step setup env (.dnsDeactivate plan) a₁ r' a₂) :
    a₂.held = wantedBy setup plan := by
  obtain ⟨-, -, hheld⟩ := h'
  obtain ⟨-, ⟨hnone, -⟩ | ⟨intent, hsome, happlied⟩⟩ := h
  · rw [hheld, hnone]
    rfl
  · rw [hheld, hsome, happlied hok]
    rfl

theorem spawnReplacement_front {plan : EpochPlan Doc} (ha : a.current = none) :
    (spawnReplacement plan).wp (frontReading setup env) (fun r a' => a'.current = none ∧
      (r.isOk = true → a'.held = wantedBy setup plan)) a := by
  refine Prog.wp_demand_bind trivial (fun e a₁ h => by cases h.1) ?_
  intro _ a₁ h₁
  have hc₁ : a₁.current = none := h₁.2.1.trans ha
  refine Prog.wp_demand_bind trivial (fun e a₂ h => ⟨h.1.trans hc₁, nofun⟩) ?_
  intro _ a₂ h₂
  have hc₂ : a₂.current = none := h₂.1.trans hc₁
  have hheld : a₂.held = wantedBy setup plan :=
    held_wanted (show Front.step setup env _ a _ a₁ from h₁) h₂ rfl
  refine Prog.wp_demand_bind trivial (fun e a₃ h => ⟨h.1.trans hc₂, nofun⟩) ?_
  intro inst a₃ h₃
  have hc₃ : a₃.current = none := h₃.1.trans hc₂
  refine Prog.wp_perform_bind trivial ?_
  intro r a₄ h₄
  have hc₄ : a₄.current = none := h₄.1.current.trans hc₃
  cases r with
  | ok _ => exact ⟨hc₄, fun _ => h₄.1.held.trans (h₃.2.1.trans hheld)⟩
  | error e =>
    refine Prog.wp_perform_bind trivial ?_
    intro r a₅ h₅
    have hsame : a₄.Same a₅ := h₅
    have hc₅ : a₅.current = none := hsame.current.trans hc₄
    cases r with
    | ok _ => exact ⟨hc₅, nofun⟩
    | error e => exact ⟨hc₅, nofun⟩

/-- A plan is installed that the host is ready for. -/
theorem install_front {inst : Instance} {plan : EpochPlan Doc} {rollback : Bool}
    {f : Unit → Control Doc α} {T : Except Error α → Front Doc → Prop}
    (ha : a.held = wantedBy setup plan)
    (next : ∀ a', a'.Fits setup → (f ()).wp (frontReading setup env) T a') :
    (perform (.install inst plan rollback) >>= f).wp (frontReading setup env) T a := by
  refine Prog.wp_perform_bind trivial ?_
  intro _ a' h
  refine next a' ?_
  intro active hactive
  rw [h.1] at hactive
  cases hactive
  exact h.2.trans ha

theorem installAndPublish_front {inst : Instance} {plan : EpochPlan Doc} {rollback : Bool}
    (ha : a.held = wantedBy setup plan) :
    (installAndPublish inst plan rollback).wp (frontReading setup env)
      (fun _ a' => a'.Fits setup) a := by
  refine Prog.wp_perform_bind trivial ?_
  intro pid a₁ h₁
  have hsame : a.Same a₁ := h₁
  refine install_front (hsame.held.trans ha) ?_
  intro a₂ h₂
  exact Prog.wp_mono (publishRunning_steady _ _ _).same fun _ _ h => h.fits h₂

theorem retireCurrent_front (site : Site) :
    (retireCurrent site : Control Doc _).wp (frontReading setup env)
      (fun r a' => r.isOk = true ∧ a'.current = none ∧ a'.held = a.held) a := by
  refine Prog.wp_perform_bind trivial ?_
  intro current a₁ h₁
  obtain ⟨-, hc₁, hheld₁⟩ := h₁
  cases current with
  | none => exact ⟨rfl, hc₁, hheld₁⟩
  | some active =>
    refine Prog.wp_perform_bind trivial ?_
    intro _ a₂ h₂
    refine Prog.wp_perform_bind trivial ?_
    intro r a₃ h₃
    have hsame : a₁.Same a₃ := Front.Same.trans h₂ h₃
    cases r with
    | ok _ => exact ⟨rfl, hsame.current.trans hc₁, hsame.held.trans hheld₁⟩
    | error e => exact ⟨rfl, hsame.current.trans hc₁, hsame.held.trans hheld₁⟩

theorem retireOld_front {message : String} {next : EpochPlan Doc → Control Doc α}
    {onFailure : RetireFailure → Control Doc α} {T : Except Error α → Front Doc → Prop}
    (hnext : ∀ plan a', a'.current = none → a'.held = a.held →
      (next plan).wp (frontReading setup env) T a')
    (hfailure : ∀ failure a', a'.current = none →
      (onFailure failure).wp (frontReading setup env) T a') :
    (retireOld message next onFailure).wp (frontReading setup env) T a := by
  refine Prog.wp_seq (retireCurrent_front .current) (fun e a' h => by cases h.1) ?_
  intro r a' h
  obtain ⟨-, hc, hheld⟩ := h
  cases r with
  | error failure => exact hfailure failure a' hc
  | ok plan =>
    cases plan with
    | some plan => exact hnext plan a' hc hheld
    | none =>
      refine Prog.wp_perform_bind trivial ?_
      intro b
      exact nomatch b

theorem discardStale_front :
    (discardStale : Control Doc Unit).wp (frontReading setup env)
      (fun _ a' => a'.current = none) a := by
  refine Prog.wp_seq (retireCurrent_front .stale) (fun e a' h => h.2.1) ?_
  intro r a₁ h
  have steady {p : Control Doc Unit} (hp : Steady p) :
      p.wp (frontReading setup env) (fun _ a' => a'.current = none) a₁ :=
    Prog.wp_mono hp.same fun _ _ h' => h'.current.trans h.2.1
  cases r with
  | error failure =>
    simp only
    split
    · exact steady (latchQuarantine_steady _ _)
    · exact h.2.1
  | ok plan =>
    cases plan with
    | none => exact h.2.1
    | some plan => exact steady (.demand rfl)

/-! ## The transactions -/

/-- A program that leaves host DNS as the current plan wants it. -/
abbrev Calmly (setup : Setup Doc) (env : Env Doc) (a : Front Doc) (p : Control Doc α) : Prop :=
  p.wp (frontReading setup env) (fun _ a' => a'.Calm setup) a

theorem Calmly.bind {p : Control Doc α} {f : α → Control Doc β} (hp : Calmly setup env a p)
    (hf : ∀ x a', a'.Calm setup → Calmly setup env a' (f x)) : Calmly setup env a (p >>= f) :=
  Prog.wp_seq hp (fun _ _ h => h) hf

theorem restoreDnsQuietly_idle (ha : a.current = none) {f : Unit → Control Doc α}
    (next : ∀ a', a'.current = none → Calmly setup env a' (f ())) :
    Calmly setup env a (restoreDnsQuietly >>= f) := by
  rw [restoreDnsQuietly, Calmly, Prog.wp_bind]
  refine Prog.wp_perform_bind trivial ?_
  intro _ a' h
  exact next a' (h.trans ha)

theorem startPrepared_front {plan : EpochPlan Doc} (ha : a.current = none) :
    Calmly setup env a (startPrepared plan) := by
  have restored {a : Front Doc} (ha : a.current = none) (error : Error) :
      Calmly setup env a
        (restoreDnsQuietly >>= fun _ => rejectLaunch plan.revision.epoch error : Control Doc Unit) :=
    restoreDnsQuietly_idle ha fun _ h => (rejectLaunch_steady _ _).idle h
  refine Prog.wp_perform_bind trivial ?_
  intro r a₁ h₁
  have hc₁ : a₁.current = none := h₁.1.trans ha
  cases r with
  | error e => exact restored hc₁ e
  | ok _ =>
  refine Prog.wp_perform_bind trivial ?_
  intro r a₂ h₂
  have hc₂ : a₂.current = none := h₂.2.1.trans hc₁
  cases r with
  | error e => cases h₂.1
  | ok _ =>
  have hheld : a₂.held = wantedBy setup plan :=
    held_wanted' (show Front.step setup env _ a _ a₁ from h₁) rfl h₂
  refine Prog.wp_perform_bind trivial ?_
  intro _ a₃ h₃
  have hs₃ : a₂.Same a₃ := h₃
  refine Prog.wp_perform_bind trivial ?_
  intro r a₄ h₄
  have hc₄ : a₄.current = none := h₄.1.trans (hs₃.current.trans hc₂)
  cases r with
  | error e => exact restored hc₄ e
  | ok inst =>
  refine Prog.wp_perform_bind trivial ?_
  intro r a₅ h₅
  have hs₅ : a₄.Same a₅ := h₅.1
  cases r with
  | error readiness =>
    refine Prog.wp_perform_bind trivial ?_
    intro r a₆ h₆
    have hs₆ : a₅.Same a₆ := h₆
    have hc₆ : a₆.current = none := hs₆.current.trans (hs₅.current.trans hc₄)
    cases r with
    | ok _ => exact restored hc₆ readiness
    | error e => exact (latchQuarantine_steady _ _).idle hc₆
  | ok _ =>
  refine Prog.wp_perform_bind trivial ?_
  intro pid a₆ h₆
  have hs₆ : a₅.Same a₆ := h₆
  refine (publishRunning_steady _ _ _).then (fun e a' h => ?_) ?_
  · exact Front.calm_of_none (h.current.trans (hs₆.current.trans (hs₅.current.trans hc₄)))
  intro _ a₇ h₇
  have hheld₇ : a₇.held = wantedBy setup plan := by
    rw [h₇.held, hs₆.held, hs₅.held, h₄.2.1, hs₃.held, hheld]
  refine (Prog.wp_perform _).2 ⟨trivial, ?_⟩
  intro _ a₈ h₈
  refine .inl ?_
  intro active hactive
  rw [h₈.1] at hactive
  cases hactive
  exact h₈.2.trans hheld₇

theorem startLocked_front {spec : InstanceSpec} (ha : a.current = none) :
    Calmly setup env a (startLocked setup spec) := by
  refine Prog.wp_perform_bind trivial ?_
  intro epoch a₁ h₁
  have hs₁ : a.Same a₁ := h₁
  refine Prog.wp_perform_bind trivial ?_
  intro r a₂ h₂
  have hs₂ : a₁.Same a₂ := h₂
  have hc₂ : a₂.current = none := hs₂.current.trans (hs₁.current.trans ha)
  cases r with
  | error e => exact (publishAndFail_steady _).idle hc₂
  | ok snapshot =>
  refine Prog.wp_attempt_seq (prepareLaunch_steady _ _ _).same ?_
  intro r a₃ h₃
  have hc₃ : a₃.current = none := h₃.current.trans hc₂
  cases r with
  | error e => exact (rejectLaunch_steady _ _).idle hc₃
  | ok plan => exact startPrepared_front hc₃

theorem runtimeAlive_front {f : Bool → Control Doc α} {T : Except Error α → Front Doc → Prop}
    (hf : ∀ alive a', a.Same a' → (alive = true → a'.ended = false) →
      (f alive).wp (frontReading setup env) T a') :
    (runtimeAlive >>= f).wp (frontReading setup env) T a := by
  rw [Prog.wp_bind]
  refine Prog.wp_perform_bind trivial ?_
  intro current a₁ h₁
  obtain ⟨hcurrent, rfl⟩ := h₁
  cases current with
  | none => exact hf false a₁ (.refl a₁) nofun
  | some active =>
    refine Prog.wp_perform_bind trivial ?_
    intro status a₂ h₂
    refine hf _ a₂ h₂.1 ?_
    intro halive
    rw [h₂.2 active hcurrent.symm rfl]
    simpa using halive

theorem hardSwitch_front {spec : InstanceSpec} {snapshot : Snapshot Doc}
    {resolved : ResolvedFeatures} (ha : a.Calm setup) :
    Calmly setup env a (hardSwitch setup spec snapshot resolved) := by
  refine Prog.wp_perform_bind trivial ?_
  intro epoch a₁ h₁
  have hs₁ : a.Same a₁ := h₁
  refine Prog.wp_attempt_seq (prepareLaunchWithFeatures_steady _ _ _ _).same ?_
  intro r a₂ h₂
  cases r with
  | error e => exact (abandonCandidate_steady _ _).calmly (h₂.calm (hs₁.calm ha))
  | ok plan =>
  refine Prog.wp_perform_bind trivial ?_
  intro r a₃ h₃
  cases r with
  | error e => cases h₃.1
  | ok _ =>
  refine Prog.wp_perform_bind trivial ?_
  intro old a₄ _
  refine Prog.wp_perform_bind trivial ?_
  intro _ a₅ _
  refine retireOld_front ?_ ?_
  · intro retired a₆ hc₆ _
    refine Prog.wp_perform_bind trivial ?_
    intro r a₇ h₇
    have hs₇ : a₆.Same a₇ := h₇
    cases r with
    | error e => exact (publishAndFail_steady _).idle (hs₇.current.trans hc₆)
    | ok _ => exact startPrepared_front (hs₇.current.trans hc₆)
  · intro failure a₆ hc₆
    exact Steady.idle ((cleanupQuietly_steady _).bind fun _ => stopFailed_steady _ _) hc₆

theorem completeSwitch_front {inst : Instance} {plan : EpochPlan Doc} {old : Epoch}
    {outcome : SwitchOutcome} (ha : a.held = wantedBy setup plan) (hc : a.current = none) :
    Calmly setup env a (completeSwitch inst plan old outcome) := by
  refine Prog.wp_perform_bind trivial ?_
  intro pid a₁ h₁
  have hs₁ : a.Same a₁ := h₁
  refine (publishRunning_steady _ _ _).then (fun e a' h => ?_) ?_
  · exact Front.calm_of_none (h.current.trans (hs₁.current.trans hc))
  intro _ a₂ h₂
  refine install_front (h₂.held.trans (hs₁.held.trans ha)) ?_
  intro a₃ h₃
  exact Steady.calmly ((Prog.Only.demand rfl).bind fun _ => .ret _) (.inl h₃)

theorem replaceBootstrap_front {inst : Instance} {plan : EpochPlan Doc} {old : Epoch}
    (hc : a.current = none) : Calmly setup env a (replaceBootstrap inst plan old) := by
  refine Prog.wp_perform_bind trivial ?_
  intro r a₁ h₁
  have hs₁ : a.Same a₁ := h₁
  have hc₁ : a₁.current = none := hs₁.current.trans hc
  cases r with
  | error e => exact (stopFailed_steady _ _).idle hc₁
  | ok _ =>
  refine Prog.wp_attempt_seq (spawnReplacement_front hc₁) ?_
  intro r a₂ h₂
  cases r with
  | ok replacement => exact completeSwitch_front (h₂.2 rfl) h₂.1
  | error e =>
    simp only
    split
    · exact (latchQuarantine_steady _ _).idle h₂.1
    · exact (rejectLaunch_steady _ _).idle h₂.1

theorem takeOver_front {inst : Instance} {plan : EpochPlan Doc} {staged : Staged}
    (ha : a.held = wantedBy setup plan) : Calmly setup env a (takeOver inst plan staged) := by
  refine retireOld_front ?_ ?_
  · intro retired a₁ hc₁ hheld₁
    refine Prog.wp_perform_bind trivial ?_
    intro r a₂ h₂
    have hs₂ : a₁.Same a₂ := h₂
    have hc₂ : a₂.current = none := hs₂.current.trans hc₁
    cases r with
    | error e => exact (commitFailed_steady _ _ _).idle hc₂
    | ok warning =>
    refine Prog.wp_perform_bind trivial ?_
    intro taken a₃ h₃
    have hs₃ : a₂.Same a₃ := h₃
    have hc₃ : a₃.current = none := hs₃.current.trans hc₂
    have hheld₃ : a₃.held = wantedBy setup plan := by
      rw [hs₃.held, hs₂.held, hheld₁, ha]
    split
    · exact Prog.wp_attempt_seq (completeSwitch_front hheld₃ hc₃) fun _ _ h => h
    · exact Prog.wp_attempt_seq (replaceBootstrap_front hc₃) fun _ _ h => h
  · intro failure a₁ hc₁
    exact Steady.idle ((dropStagedFile_steady _).bind fun _ => retreatFromBoth_steady _ _ _) hc₁

/-- A graceful bootstrap that does not come up changed nothing that the current
plan minds. -/
theorem bootstrap_fits {plan : EpochPlan Doc} {a₁ a₂ : Front Doc} (ha : a.Fits setup)
    (h₁ : Front.step setup env (.dnsActivate plan) a (.ok ()) a₁) (hs : a₁.Same a₂)
    (compat : ∀ intent, wantedBy setup plan = some intent →
      ∀ active, a₂.current = some active → wantedBy setup active.plan = some intent) :
    a₂.Fits setup := by
  obtain ⟨hc₁, ⟨-, hsame⟩ | ⟨intent, hsome, happlied⟩⟩ := h₁
  · intro active hactive
    rw [hs.held, hsame]
    exact ha active (hc₁.symm.trans (hs.current.symm.trans hactive))
  · intro active hactive
    rw [hs.held, happlied rfl, compat intent hsome active hactive]

theorem gracefulSwitch_front {spec : InstanceSpec} {snapshot : Snapshot Doc}
    {resolved : ResolvedFeatures} (ha : a.Fits setup) :
    Calmly setup env a (gracefulSwitch setup spec snapshot resolved) := by
  refine Prog.wp_perform_bind trivial ?_
  intro old a₁ h₁
  obtain ⟨-, rfl⟩ := h₁
  refine Prog.wp_perform_bind trivial ?_
  intro epoch a₂ h₂
  have hs₂ : a₁.Same a₂ := h₂
  refine Prog.wp_attempt_seq (prepareGraceful_steady _ _ _ _).same ?_
  intro r a₃ h₃
  have hf₃ : a₃.Fits setup := h₃.fits (hs₂.fits ha)
  cases r with
  | error e => exact (abandonCandidate_steady _ _).calmly (.inl hf₃)
  | ok prepared =>
  obtain ⟨plan, fullStaged⟩ := prepared
  refine Prog.wp_perform_bind trivial ?_
  intro r a₄ h₄
  cases r with
  | error e =>
    refine Prog.wp_perform_bind trivial ?_
    intro _ a₅ h₅
    exact Steady.calmly ((dropStagedFile_steady _).bind fun _ => abandonCandidate_steady _ _) h₅.2
  | ok _ =>
  refine Prog.wp_perform_bind trivial ?_
  intro _ a₅ h₅
  have hs₅ : a₄.Same a₅ := h₅
  refine Prog.wp_perform_bind trivial ?_
  intro r a₆ h₆
  obtain ⟨hc₆, hheld₆, htick₆, hbootstrap⟩ := h₆
  -- the bootstrap failed: then the host is as the current plan wants it
  have failed (h : ¬(r.isOk = true ∧ (env.waitReady (a₅.tick + 1)).isOk = true)) :
      a₆.Fits setup := by
    have hf₅ : a₅.Fits setup := bootstrap_fits hf₃
      (show Front.step setup env (.dnsActivate plan) a₃ (.ok ()) a₄ from h₄) hs₅
      ((hbootstrap rfl).resolve_left h)
    intro active hactive
    rw [hheld₆]
    exact hf₅ active (hc₆.symm.trans hactive)
  cases r with
  | error e =>
    exact Steady.calmly ((dropStagedFile_steady _).bind fun _ => abandonCandidate_steady _ _)
      (.inl (failed fun h => by cases h.1))
  | ok inst =>
  refine Prog.wp_perform_bind trivial ?_
  intro r a₇ h₇
  obtain ⟨hs₇, hready⟩ := h₇
  cases r with
  | error e =>
    have hf₆ := failed fun h => by
      rw [← htick₆, ← hready] at h
      cases h.2
    exact Steady.calmly ((dropStagedFile_steady _).bind fun _ => rejectBootstrap_steady _ _ _ _)
      (.inl (hs₇.fits hf₆))
  | ok _ =>
  refine Prog.wp_perform_bind trivial ?_
  intro r a₈ h₈
  cases r with
  | error e => cases h₈.1
  | ok _ =>
  refine takeOver_front ?_
  obtain ⟨-, -, hheld₈⟩ := h₈
  rw [hheld₈, hs₇.held, hheld₆, hs₅.held]
  obtain ⟨-, ⟨hnone, -⟩ | ⟨intent, hsome, happlied⟩⟩ := h₄
  · rw [hnone]
    rfl
  · rw [hsome, happlied rfl]
    rfl

theorem switchLocked_front {spec : InstanceSpec} (ha : a.Calm setup) :
    Calmly setup env a (switchLocked setup spec) := by
  refine runtimeAlive_front ?_
  intro alive a₁ h₁ halive
  cases alive with
  | false =>
    refine Prog.wp_seq discardStale_front (fun e a' h => Front.calm_of_none h) ?_
    intro _ a₂ hc₂
    exact (startLocked_front hc₂).bind fun _ _ h => h
  | true =>
    have hf₁ : a₁.Fits setup := by
      rcases h₁.calm ha with hfits | hended
      · exact hfits
      · rw [halive rfl] at hended
        cases hended
    refine Steady.then (.demand rfl) (fun e a' h => .inl (h.fits hf₁)) ?_
    intro snapshot a₂ h₂
    refine Steady.then (.demand rfl) (fun e a' h => .inl (h.fits (h₂.fits hf₁))) ?_
    intro _ a₃ h₃
    refine Steady.then (.demand rfl) (fun e a' h => .inl (h.fits (h₃.fits (h₂.fits hf₁)))) ?_
    intro resolved a₄ h₄
    refine Steady.then (.perform rfl) (fun e a' h => ?_) ?_
    · exact .inl (h.fits (h₄.fits (h₃.fits (h₂.fits hf₁))))
    intro current a₅ h₅
    have hf₅ : a₅.Fits setup := h₅.fits (h₄.fits (h₃.fits (h₂.fits hf₁)))
    split
    · exact (hardSwitch_front (.inl hf₅)).bind fun _ _ h => h
    · simp only
      split
      · exact (hardSwitch_front (.inl hf₅)).bind fun _ _ h => h
      · exact gracefulSwitch_front hf₅

/-! ## Applying -/

theorem rollBack_front {oldPlan : EpochPlan Doc} {applyText text : String}
    {onSuccess : Control Doc Unit} (hs : Steady onSuccess) (hc : a.current = none) :
    Calmly setup env a (rollBack oldPlan applyText text onSuccess) := by
  refine Prog.wp_perform_bind trivial ?_
  intro _ a₁ h₁
  have hs₁ : a.Same a₁ := h₁
  refine Prog.wp_attempt_seq (spawnReplacement_front (hs₁.current.trans hc)) ?_
  intro r a₂ h₂
  cases r with
  | ok inst =>
    refine Prog.wp_seq (installAndPublish_front (h₂.2 rfl)) (fun _ _ h => .inl h) ?_
    intro _ a₃ h₃
    exact Steady.calmly (hs.bind fun _ => .ret _) (.inl h₃)
  | error e =>
    simp only
    split
    · exact (latchQuarantine_steady _ _).idle h₂.1
    · exact (publishAndFail_steady _).idle h₂.1

theorem rollBackRestart_front {oldPlan : EpochPlan Doc} {saved : Backup} {applyText : String}
    (hc : a.current = none) : Calmly setup env a (rollBackRestart oldPlan saved applyText) := by
  refine Prog.wp_perform_bind trivial ?_
  intro r a₁ h₁
  have hs₁ : a.Same a₁ := h₁
  have hc₁ : a₁.current = none := hs₁.current.trans hc
  cases r with
  | error e => exact (publishAndFail_steady _).idle hc₁
  | ok warning =>
    exact Prog.wp_attempt_seq (rollBack_front (removeBackupQuietly_steady saved) hc₁)
      fun _ _ h => h

theorem restartWithCompensation_front {desired : EpochPlan Doc} {saved : Backup} :
    Calmly setup env a (restartWithCompensation desired saved) := by
  refine Prog.wp_demand_bind trivial (fun e a' h => by cases h.1) ?_
  intro _ a₁ _
  refine retireOld_front ?_ ?_
  · intro oldPlan a₂ hc₂ _
    refine Prog.wp_perform_bind trivial ?_
    intro _ a₃ h₃
    have hs₃ : a₂.Same a₃ := h₃
    refine Prog.wp_attempt_seq (spawnReplacement_front (hs₃.current.trans hc₂)) ?_
    intro r a₄ h₄
    cases r with
    | ok inst =>
      refine Prog.wp_seq (installAndPublish_front (h₄.2 rfl)) (fun _ _ h => .inl h) ?_
      intro _ a₅ h₅
      exact Steady.calmly ((removeBackupQuietly_steady _).bind fun _ => .ret _) (.inl h₅)
    | error e =>
      simp only
      split
      · exact (latchQuarantine_steady _ _).idle h₄.1
      · exact rollBackRestart_front h₄.1
  · intro failure a₂ hc₂
    exact (retireFailed_steady _ _).idle hc₂

theorem switchWithCompensation_front {input : InstanceSpec} {snapshot : Snapshot Doc}
    (ha : a.Fits setup) : Calmly setup env a (switchWithCompensation setup input snapshot) := by
  refine Steady.then (.perform rfl) (fun e a' h => .inl (h.fits ha)) ?_
  intro epoch a₁ h₁
  refine (prepareLaunch_steady _ _ _).then (fun e a' h => .inl (h.fits (h₁.fits ha))) ?_
  intro desired a₂ h₂
  refine Prog.wp_perform_bind trivial ?_
  intro r a₃ h₃
  cases r with
  | error e => cases h₃.1
  | ok _ =>
  refine retireOld_front ?_ ?_
  · intro oldPlan a₄ hc₄ _
    refine Prog.wp_perform_bind trivial ?_
    intro _ a₅ h₅
    have hs₅ : a₄.Same a₅ := h₅
    refine Prog.wp_attempt_seq (spawnReplacement_front (hs₅.current.trans hc₄)) ?_
    intro r a₆ h₆
    cases r with
    | ok inst =>
      refine Prog.wp_seq (installAndPublish_front (h₆.2 rfl)) (fun _ _ h => .inl h) ?_
      intro _ a₇ h₇
      exact Steady.calmly ((cleanupQuietly_steady _).bind fun _ => .ret _) (.inl h₇)
    | error e =>
      simp only
      split
      · exact (latchQuarantine_steady _ _).idle h₆.1
      · refine (cleanupQuietly_steady _).then (fun _ _ h => ?_) ?_
        · exact Front.calm_of_none (h.current.trans h₆.1)
        intro _ a₇ h₇
        exact rollBack_front (.ret _) (h₇.current.trans h₆.1)
  · intro failure a₄ hc₄
    exact Steady.idle ((cleanupQuietly_steady _).bind fun _ => retireFailed_steady _ _) hc₄

/-- A change that is refused leaves a host that the current plan can live with, and
one that is committed has the host ready for its plan. -/
theorem commitChange_front {saved : Backup} {prepared : PreparedApply Doc} :
    (commitChange saved prepared).wp (frontReading setup env) (fun r a' =>
      (r.isOk = true → a'.held = wantedBy setup prepared.plan) ∧
        (r.isOk = false → a'.Calm setup)) a := by
  -- what follows a convergence only tidies up and fails
  have refused {a : Front Doc} {p : Control Doc Unit} (error : Error) (hp : Steady p)
      (ha : a.Calm setup) :
      (p >>= fun _ => fail error : Control Doc (Option String)).wp (frontReading setup env)
        (fun r a' => (r.isOk = true → a'.held = wantedBy setup prepared.plan) ∧
          (r.isOk = false → a'.Calm setup)) a :=
    hp.then (fun _ _ h => ⟨nofun, fun _ => h.calm ha⟩) fun _ _ h => ⟨nofun, fun _ => h.calm ha⟩
  refine Prog.wp_perform_bind trivial ?_
  intro r a₁ h₁
  cases r with
  | error e => cases h₁.1
  | ok _ =>
  refine Prog.wp_perform_bind trivial ?_
  intro r a₂ h₂
  cases r with
  | error e =>
    refine Prog.wp_perform_bind trivial ?_
    intro _ a₃ h₃
    have hc₃ : a₃.Calm setup := h₃.2
    refine (removeBackupQuietly_steady saved).then (fun _ _ h => ⟨nofun, fun _ => h.calm hc₃⟩) ?_
    intro _ a₄ h₄
    exact refused e (dropStagedFile_steady prepared.staged) (h₄.calm hc₃)
  | ok _ =>
  have hheld : a₂.held = wantedBy setup prepared.plan :=
    held_wanted (show Front.step setup env _ a _ a₁ from h₁) h₂ rfl
  refine Prog.wp_perform_bind trivial ?_
  intro current a₃ h₃
  obtain ⟨hcurrent, rfl⟩ := h₃
  cases current with
  | none =>
    exact refused .notStarted (dropStagedFile_steady prepared.staged)
      (Front.calm_of_none hcurrent.symm)
  | some active =>
  refine Prog.wp_perform_bind trivial ?_
  intro r a₄ h₄
  have hs₄ : a₃.Same a₄ := h₄
  cases r with
  | error e =>
    refine Prog.wp_perform_bind trivial ?_
    intro _ a₅ h₅
    exact refused e (removeBackupQuietly_steady saved) h₅.2
  | ok warning => exact ⟨fun _ => hs₄.held.trans hheld, nofun⟩

theorem adoptInPlace_front {active : Active Doc} {desired : EpochPlan Doc} {saved : Backup}
    (ha : a.held = wantedBy setup desired) :
    Calmly setup env a (adoptInPlace active desired saved) := by
  refine Prog.wp_perform_bind trivial ?_
  intro _ a₁ h₁
  have hf₁ : a₁.Fits setup := by
    intro other hother
    rw [h₁.1] at hother
    obtain ⟨before, -, rfl⟩ := Option.map_eq_some_iff.1 hother
    exact h₁.2.trans ha
  refine Steady.calmly ((Prog.Only.perform rfl).bind fun pid => ?_) (.inl hf₁)
  refine (publishRunning_steady _ _ _).bind fun _ => (Prog.Only.perform rfl).bind fun _ => ?_
  exact removeBackupQuietly_steady saved

theorem applyChange_front {active : Active Doc} {prepared : PreparedApply Doc}
    {outcome : ConfigRevision → ApplyOutcome} (ha : a.Calm setup) :
    Calmly setup env a (applyChange active prepared outcome) := by
  refine (orDrop_steady (.demand rfl)).then (fun _ _ h => h.calm ha) ?_
  intro saved a₁ h₁
  refine Prog.wp_seq commitChange_front (fun _ _ h => h.2 rfl) ?_
  intro warning a₂ h₂
  refine Prog.wp_perform_bind trivial ?_
  intro taken a₃ h₃
  have hs₃ : a₂.Same a₃ := h₃
  split
  · exact (adoptInPlace_front (hs₃.held.trans (h₂.1 rfl))).bind fun _ _ h => h
  · exact Prog.wp_attempt_seq restartWithCompensation_front fun _ _ h => h

theorem retainSource_fits {spec : InstanceSpec} {a' : Front Doc} (ha : a.Fits setup)
    (h : Front.step setup env (.retainSource spec) a () a') : a'.Fits setup := by
  intro active hactive
  rw [h.2] at hactive
  obtain ⟨before, hbefore, rfl⟩ := Option.map_eq_some_iff.1 hactive
  exact h.1.trans (ha before hbefore)

theorem applyLocked_front {input : InstanceSpec} {expected : Option RevisionId}
    (ha : a.Calm setup) : Calmly setup env a (applyLocked setup input expected) := by
  refine Prog.wp_perform_bind trivial ?_
  intro current a₁ h₁
  obtain ⟨hcurrent, rfl⟩ := h₁
  cases current with
  | none => exact ha
  | some active =>
  refine Prog.wp_perform_bind trivial ?_
  intro status a₂ h₂
  have hcalm₂ : a₂.Calm setup := h₂.1.calm ha
  split
  · exact hcalm₂
  rename_i halive
  -- the runtime is live: the host has what its plan wants
  have hf₂ : a₂.Fits setup := by
    rcases hcalm₂ with hfits | hended
    · exact hfits
    · rw [h₂.2 active hcurrent.symm rfl] at hended
      exact absurd hended halive
  simp only
  split
  · exact .inl hf₂
  refine Steady.then (.demand rfl) (fun _ _ h => .inl (h.fits hf₂)) ?_
  intro snapshot a₃ h₃
  refine (prepareApply_steady _ _ _).then (fun _ _ h => .inl (h.fits (h₃.fits hf₂))) ?_
  intro prepared a₄ h₄
  have hf₄ : a₄.Fits setup := h₄.fits (h₃.fits hf₂)
  split
  · exact Steady.calmly ((dropStagedFile_steady _).bind fun _ => .ret _) (.inl hf₄)
  · refine Prog.wp_perform_bind trivial ?_
    intro _ a₅ h₅
    have hf₅ : a₅.Fits setup :=
      retainSource_fits hf₄ (show Front.step setup env (.retainSource input) a₄ () a₅ from h₅)
    refine Steady.calmly ((Prog.Only.perform rfl).bind fun _ => ?_) (.inl hf₅)
    exact (dropStagedFile_steady _).bind fun _ => .ret _
  · refine (dropStagedFile_steady _).then (fun _ _ h => .inl (h.fits hf₄)) ?_
    intro _ a₅ h₅
    exact switchWithCompensation_front (h₅.fits hf₄)
  · exact applyChange_front (.inl hf₄)
  · exact applyChange_front (.inl hf₄)

theorem reconcileLocked_front {spec : InstanceSpec} {expected : Option RevisionId}
    (ha : a.Calm setup) : Calmly setup env a (reconcileLocked setup spec expected) := by
  refine runtimeAlive_front ?_
  intro alive a₁ h₁ _
  split
  · exact applyLocked_front (h₁.calm ha)
  · cases expected with
    | some expected => exact h₁.calm ha
    | none =>
    refine Prog.wp_seq discardStale_front (fun _ _ h => Front.calm_of_none h) ?_
    intro _ a₂ hc₂
    refine (startLocked_front hc₂).bind ?_
    intro _ a₃ h₃
    refine Steady.calmly ((Prog.Only.perform rfl).bind fun current => ?_) h₃
    cases current with
    | some active => exact .ret _
    | none => exact expect_steady _

/-! ## The operations -/

theorem finishDnsConverge_front {result : Except Error α} (ha : a.Calm setup) :
    Calmly setup env a (finishDnsConverge result) := by
  refine runtimeAlive_front ?_
  intro alive a₁ h₁ _
  split
  · refine Prog.wp_perform_bind trivial ?_
    intro dns a₂ h₂
    exact h₂.2
  · exact h₁.calm ha

theorem converged_front {p : Control Doc α} (hp : Calmly setup env a p) :
    Calmly setup env a (p.attempt >>= finishDnsConverge) :=
  Prog.wp_attempt_seq hp fun _ _ h => finishDnsConverge_front h

theorem gated_front {p : Control Doc α} (ha : a.Calm setup)
    (hp : ∀ a' : Front Doc, a'.Calm setup → Calmly setup env a' p) :
    Calmly setup env a (rejectQuarantine >>= fun _ => p) :=
  Calmly.bind (rejectQuarantine_steady.calmly ha) fun _ a' h => hp a' h

theorem replied_front {p : Control Doc α} {f : α → Reply} (hp : Calmly setup env a p) :
    Calmly setup env a (p >>= fun x => pure (f x)) :=
  hp.bind fun _ _ h => h

theorem transition_front {command : Command} (hc : command.isGated = true) (ha : a.Calm setup) :
    Calmly setup env a (program setup command) := by
  cases command with
  | start spec =>
    refine replied_front (f := fun _ => .done) (gated_front ha ?_)
    intro a₁ h₁
    refine runtimeAlive_front ?_
    intro alive a₂ h₂ _
    split
    · exact h₂.calm h₁
    · refine Prog.wp_seq discardStale_front (fun _ _ h => Front.calm_of_none h) ?_
      intro _ a₃ hc₃
      exact converged_front (startLocked_front hc₃)
  | switch spec =>
    exact replied_front (gated_front ha fun _ h => converged_front (switchLocked_front h))
  | restart =>
    refine replied_front (gated_front ha ?_)
    intro a₁ h₁
    refine Steady.then (.perform rfl) (fun _ _ h => h.calm h₁) ?_
    intro last a₂ h₂
    cases last with
    | none => exact h₂.calm h₁
    | some spec => exact converged_front (switchLocked_front (h₂.calm h₁))
  | applyConfig spec expected =>
    exact replied_front (gated_front ha fun _ h => converged_front (applyLocked_front h))
  | reconcile spec expected =>
    exact replied_front (gated_front ha fun _ h => converged_front (reconcileLocked_front h))
  | stop | shutdown | recoverQuarantine => cases hc

/-! ## Every run -/

theorem World.front_calm {w : World Doc} : w.front.Calm setup ↔ DnsFits setup w := by
  constructor
  · intro h plan epoch hlive
    rcases h with hfits | hended
    · obtain ⟨active, hactive, rfl⟩ := running_eq_some hlive
      exact hfits active hactive
    · have hnone : w.running.isNone = true := hended
      rw [hlive] at hnone
      cases hnone
  · intro h
    cases hlive : w.running with
    | none => exact .inr (show w.running.isNone = true by rw [hlive]; rfl)
    | some live =>
      obtain ⟨plan, epoch⟩ := live
      refine .inl ?_
      intro active hactive
      obtain ⟨other, hother, rfl⟩ := running_eq_some hlive
      rw [show w.ctrl.current = some active from hactive] at hother
      cases hother
      exact h _ epoch hlive

theorem reachable_registered {artifacts : Directory}
    {recordFile : Option (List UInt8)} {recordStaging : Option RecordStaging} {s : System Doc}
    (hs : (manager setup env artifacts recordFile recordStaging).Reachable s)
    (hup : s.up = true) : s.world.ledger.Registered setup := by
  refine reachable_ledger_kept (I := Ledger.Registered setup) handle_registered ?_ hs hup
  intro a calls hmem _ hsome
  rw [hmem] at hsome
  cases hsome

/-- A transition with a controller that does what it is asked to, over a host that
had what the live runtime wants, leaves it as the runtime that is then live wants
it; so also when it was rejected and the old runtime lives on. -/
theorem rejected_dns_fits (setup : Setup Doc) (env : Env Doc) (artifacts : Directory)
    (recordFile : Option (List UInt8)) (recordStaging : Option RecordStaging)
    (encodes : ∀ record, (setup.encodeRecord record).isOk = true)
    {s : System Doc} (hs : (manager setup env artifacts recordFile recordStaging).Reachable s)
    (hup : s.up = true) (before : DnsFits setup s.world) {command : Command}
    (hc : command.isGated = true) {r : Except Error Reply} {t : World Doc}
    (hr : exec (handle setup env) (program setup command) s.world = (.ok r, t))
    (answered : Along (handle setup env) (Op.Answered setup env) (program setup command) s.world)
    (compensated : Along (handle setup env) (Op.Compensated setup env) (program setup command)
      s.world) : DnsFits setup t := by
  have accounted : Along (handle setup env) (fun _ w => w.ledger.Accounted)
      (program setup command) s.world :=
    call_ledger_kept (I := Ledger.Accounted) handle_accounted (reachable_accounted hs hup) _
  have registered : Along (handle setup env) (fun _ w => w.ledger.Registered setup)
      (program setup command) s.world :=
    call_ledger_kept (I := Ledger.Registered setup) handle_registered
      (reachable_registered hs hup) _
  have favoured := (answered.and compensated).and (accounted.and registered)
  exact World.front_calm.1 ((frontReading_sound encodes).returns favoured
    (transition_front hc (World.front_calm.2 before)) hr)

/-! ## A host for two cores

A configuration file's document is the length of its path. The core can be spoken to
through a local socket, so that a switch is graceful. -/

def overlapSetup (desired : Nat → Option DnsIntent) : Setup Nat :=
  { hostSetup with dns := some desired }

/-- Nothing launches from one tick on, and the disk may be full from another. -/
def overlapEnv (launches : Nat) (full : Option Nat) : Env Nat :=
  { plainEnv 1 with
    load := fun _ path => .ok ⟨path, path.length⟩
    resolveFeatures := fun _ _ => .ok ⟨∅, {.localIpc}⟩
    launch := fun tick => if tick < launches then .ok () else .error (.io "Resource unavailable")
    fault := fun tick => if full.any (· ≤ tick) then some "No space left on device" else none
    dnsApply := fun _ intent epoch => .ok (hostRecord intent epoch) }

def otherSpec : InstanceSpec := { plainSpec with configPath := "/etc/b.yaml" }

/-- Every document wants the same override. -/
def sharedServer : Nat → Option DnsIntent := fun _ => some ⟨["127.0.0.1"]⟩

/-- The document of `otherSpec` wants one of its own. -/
def ownServer : Nat → Option DnsIntent :=
  fun document => some ⟨[if document = 11 then "127.0.0.2" else "127.0.0.1"]⟩

section Overlap

variable {desired : Nat → Option DnsIntent} {launches : Nat} {full : Option Nat} {α : Type}

theorem overlapEnv_answered (p : Control Nat α) (w : World Nat) :
    Along (handle (overlapSetup desired) (overlapEnv launches full))
      (Op.Answered (overlapSetup desired) (overlapEnv launches full)) p w := by
  have prims {ε α : Type} (p : Prog ε (DnsPrim Nat) α) (w : World Nat) :
      Along (dnsHandle (overlapEnv launches full)) (DnsPrim.Answered (overlapEnv launches full))
        p w := by
    refine along_of_forall ?_ p
    intro β op w
    cases op with
    | applied _ _ | restore _ => rfl
    | _ => trivial
  refine along_of_forall ?_ p
  intro β op w
  cases op with
  | dnsActivate _ | dnsDeactivate _ | dnsConverge | dnsRestore => exact prims _ w
  | _ => trivial

theorem sharedServer_compensated (p : Control Nat α) (w : World Nat) :
    Along (handle (overlapSetup sharedServer) (overlapEnv launches none))
      (Op.Compensated (overlapSetup sharedServer) (overlapEnv launches none)) p w := by
  refine along_of_forall ?_ p
  intro β op w
  cases op with
  | launch site plan =>
    cases site with
    | bootstrap => exact .inr fun _ hintent _ _ => hintent
    | initial | replacement | stale | current => trivial
  | dnsConverge =>
    refine .inr (along_of_forall ?_ _)
    intro β op w
    cases op <;> first | rfl | trivial
  | _ => trivial

end Overlap

theorem overlapping_switch_refused :
    ((manager (overlapSetup sharedServer) (overlapEnv 60 none) [] none none).run
      (manager (overlapSetup sharedServer) (overlapEnv 60 none) [] none none).init
      [.build, .call (.start plainSpec)]).any (fun s => s.up &&
        decide (held s.world.dnsTrace = some ⟨["127.0.0.1"]⟩) &&
        match exec (handle (overlapSetup sharedServer) (overlapEnv 60 none))
          (program (overlapSetup sharedServer) (.switch otherSpec)) s.world with
        | (.ok (.error _), t) => t.running.isSome
        | _ => false) = true := by
  decide +kernel

/-- A bootstrap does not launch beside a core that wants the same override. -/
theorem refused_bootstrap_fits :
    ∃ s e t, (manager (overlapSetup sharedServer) (overlapEnv 60 none) [] none none).Reachable s ∧
      exec (handle (overlapSetup sharedServer) (overlapEnv 60 none))
        (program (overlapSetup sharedServer) (.switch otherSpec)) s.world = (.ok (.error e), t) ∧
      t.running.isSome = true ∧ DnsFits (overlapSetup sharedServer) t := by
  obtain ⟨s, hs, ho⟩ := (Option.any_eq_true _ _).1 overlapping_switch_refused
  obtain ⟨ho, hrejected⟩ := (Bool.and_eq_true _ _).mp ho
  obtain ⟨hup, hheld⟩ := (Bool.and_eq_true _ _).mp ho
  have hreach := Machine.run_reachable .init hs
  split at hrejected
  · rename_i e t hr
    exact ⟨s, e, t, hreach, hr, hrejected, rejected_dns_fits _ _ _ _ _ (fun _ => rfl) hreach hup
      (fun _ _ _ => of_decide_eq_true hheld) rfl hr (overlapEnv_answered _ _)
      (sharedServer_compensated _ _)⟩
  · cases hrejected

/-- The runtime lives through a rejected transition, and is left with the override
of the rejected plan. -/
def Misled (env : Env Nat) (before : List Label) (command : Command) : Prop :=
  ∃ s e t, (manager (overlapSetup ownServer) env [] none none).run
      (manager (overlapSetup ownServer) env [] none none).init before = some s ∧
    exec (handle (overlapSetup ownServer) env) (program (overlapSetup ownServer) command) s.world =
      (.ok (.error e), t) ∧
    Along (handle (overlapSetup ownServer) env) (Op.Answered (overlapSetup ownServer) env)
      (program (overlapSetup ownServer) command) s.world ∧
    t.running.map (fun live => (live.1.effectiveDocument, live.2)) = some (24, Epoch.one) ∧
    ownServer 24 = some ⟨["127.0.0.1"]⟩ ∧ held t.dnsTrace = some ⟨["127.0.0.2"]⟩

theorem overlapEnv_misled {launches : Nat} {full : Option Nat} {before : List Label}
    {command : Command}
    (h : ((manager (overlapSetup ownServer) (overlapEnv launches full) [] none none).run
      (manager (overlapSetup ownServer) (overlapEnv launches full) [] none none).init before).any
        (fun s => match exec (handle (overlapSetup ownServer) (overlapEnv launches full))
            (program (overlapSetup ownServer) command) s.world with
          | (.ok (.error _), t) => decide (t.running.map (fun live =>
              (live.1.effectiveDocument, live.2)) = some (24, Epoch.one) ∧
              held t.dnsTrace = some ⟨["127.0.0.2"]⟩)
          | _ => false) = true) :
    Misled (overlapEnv launches full) before command := by
  obtain ⟨s, hs, hrejected⟩ := (Option.any_eq_true _ _).1 h
  split at hrejected
  · rename_i e t hr
    obtain ⟨hlive, hheld⟩ := of_decide_eq_true hrejected
    exact ⟨s, e, t, hs, hr, overlapEnv_answered _ _, hlive, rfl, hheld⟩
  · cases hrejected

/-- The host keeps the override of a rejected plan: the disk is full, and the record
that the compensation begins with cannot be written; the next transition is rejected
before it touches the host; or the bootstrap of a graceful switch does not launch. -/
theorem rejected_plan_overrides :
    Misled (overlapEnv 200 (some 85)) [.build, .call (.start plainSpec)]
        (.applyConfig otherSpec none) ∧
      Misled (overlapEnv 200 (some 85))
        [.build, .call (.start plainSpec), .call (.applyConfig otherSpec none)]
        (.applyConfig otherSpec none) ∧
      Misled (overlapEnv 60 none) [.build, .call (.start plainSpec)] (.switch otherSpec) := by
  refine ⟨overlapEnv_misled ?_, overlapEnv_misled ?_, overlapEnv_misled ?_⟩
  · decide +kernel
  · decide +kernel
  · decide +kernel

end Chimera.Manager
