import Chimera.Manager.Runs

/-! Revisions as tokens of optimistic concurrency: they only grow, a rollback
goes back to what was there, and a caller whose token is not the applied one is
turned away. -/

namespace Chimera.Manager
open Chimera.Model Chimera.Lib.Program Chimera.Lib.Transition

variable {Doc : Type} {setup : Setup Doc} {env : Env Doc} {α : Type}

/-! ## A stale token -/

/-- Nothing is asked of the operations. -/
abbrev freely (setup : Setup Doc) (env : Env Doc) : Reading (Op Doc) (World Doc) :=
  worldReading setup env fun _ _ => True

theorem exec_freely {p : Control Doc α} {Q : Except Error α → World Doc → Prop} {w t : World Doc}
    {r : Except Error α} (hp : p.wp (freely setup env) Q w)
    (hr : exec (handle setup env) p w = (.ok r, t)) : Q r t :=
  (worldReading_sound setup env fun _ _ => True).returns
    (along_of_forall (h := handle setup env) (fun _ _ => trivial) _) hp hr

theorem running_eq {w : World Doc} {active : Active Doc} (h : w.ctrl.current = some active) :
    w.running.isSome = !(w.instances active.inst.number).state.isTerminal := by
  simp only [World.running, h]
  split
  · rename_i ht
    simp [ht]
  · rename_i ht
    simp [ht]

theorem running_none {w : World Doc} (h : w.ctrl.current = none) : w.running = none := by
  simp only [World.running, h]

section Stale

variable {w u : World Doc} {T : Except Error α → World Doc → Prop}

/-- Looking at the runtime takes time and does nothing. -/
theorem runtimeAlive_waited {T : Except Error Bool → World Doc → Prop} (hu : Waited env w u)
    (h : ∀ v, Waited env w v → T (.ok v.running.isSome) v) :
    runtimeAlive.wp (freely setup env) T u := by
  refine Prog.wp_perform_bind trivial ?_
  rintro current _ ⟨-, hop⟩
  cases hop
  split
  · rename_i hnone
    have h₁ := h u hu
    rw [running_none hnone] at h₁
    exact h₁
  · rename_i active hsome
    refine Prog.wp_perform_bind trivial ?_
    rintro status v ⟨-, hop⟩
    obtain ⟨rfl, rfl⟩ := handle_instanceStatus hop
    have hrun : (u.elapse env).running.isSome = _ :=
      running_eq (by rw [World.elapse_ctrl, hsome])
    have h₁ := h _ hu.elapse
    rw [hrun] at h₁
    exact h₁

/-- Turned away with this error: nothing but time passes while the runtime
lives, and after its end only the converge tail runs. -/
def TurnedAway (setup : Setup Doc) (env : Env Doc) (w : World Doc) (error : Error)
    (r : Except Error α) (t : World Doc) : Prop :=
  (Waited env w t ∧ t.running.isSome = true ∧ r = .error error) ∨
  ∃ u dns, Waited env w u ∧ u.running = none ∧
    exec (dnsHandle env) (dnsConverge setup) u = (.ok dns, t) ∧ r = joinDns (.error error) dns

theorem finishDnsConverge_turnedAway {error : Error} (hu : Waited env w u) :
    (finishDnsConverge (.error error) : Control Doc α).wp (freely setup env)
      (TurnedAway setup env w error) u := by
  refine (Prog.wp_bind ..).2 (runtimeAlive_waited hu ?_)
  intro v hv
  simp only [Prog.andThen_ok]
  split
  · rename_i hdead
    refine Prog.wp_perform_bind trivial ?_
    rintro dns t ⟨-, hop⟩
    have hnone : v.running.isSome = false := by simpa [Except.isOk, Except.toBool] using hdead
    exact .inr ⟨v, dns, hv, by simpa using hnone, hop, rfl⟩
  · rename_i halive
    have hsome : ¬v.running.isSome = false := by simpa [Except.isOk, Except.toBool] using halive
    exact .inl ⟨hv, Bool.eq_true_of_not_eq_false hsome, rfl⟩

/-- Why a stale token is refused: it is not the applied revision, or no runtime
is there to have one. -/
def StaleError (env : Env Doc) (w : World Doc) (other : RevisionId) (error : Error) : Prop :=
  (∃ active, w.ctrl.current = some active ∧
    error = .revisionConflict other (some active.plan.revision.id)) ∨
  ∃ v, Waited env w v ∧ v.running = none ∧
    (error = .notStarted ∨ error = .revisionConflict other none)

theorem applyLocked_stale {input : InstanceSpec} {other : RevisionId} (hu : Waited env w u)
    (hne : ∀ active, w.ctrl.current = some active → active.plan.revision.id ≠ other) :
    (applyLocked setup input (some other)).wp (freely setup env)
      (fun r v => Waited env w v ∧ ∃ error, r = .error error ∧ StaleError env w other error) u := by
  have hctrl : u.ctrl = w.ctrl := hu.same fun _ => World.elapse_ctrl
  refine Prog.wp_perform_bind trivial ?_
  rintro current _ ⟨-, hop⟩
  cases hop
  split
  · rename_i hnone
    exact ⟨hu, _, rfl, .inr ⟨u, hu, running_none hnone, .inl rfl⟩⟩
  · rename_i active hsome
    refine Prog.wp_perform_bind trivial ?_
    rintro status v ⟨-, hop⟩
    obtain ⟨rfl, rfl⟩ := handle_instanceStatus hop
    split
    · rename_i hterminal
      refine ⟨hu.elapse, _, rfl, .inr ⟨_, hu.elapse, ?_, .inl rfl⟩⟩
      have hrun : (u.elapse env).running.isSome = _ :=
        running_eq (by rw [World.elapse_ctrl, hsome])
      rw [hterminal] at hrun
      simpa using hrun
    · rw [hctrl] at hsome
      have hfilter : (some other).filter (· ≠ active.plan.revision.id) = some other := by
        simpa using (hne active hsome).symm
      simp only [hfilter]
      exact ⟨hu.elapse, _, rfl, .inl ⟨active, hsome, rfl⟩⟩

theorem rejectQuarantine_open {f : Unit → Control Doc α} (hq : w.ctrl.quarantine = [])
    (h : (f ()).wp (freely setup env) T w) :
    (rejectQuarantine >>= f).wp (freely setup env) T w := by
  rw [Prog.wp_bind]
  refine Prog.wp_perform_bind trivial ?_
  rintro list _ ⟨-, hop⟩
  cases hop
  rw [hq]
  exact h

/-- The end of a refused operation. -/
def Refused (setup : Setup Doc) (env : Env Doc) (w : World Doc) (other : RevisionId)
    (r : Except Error α) (t : World Doc) : Prop :=
  ∃ error, StaleError env w other error ∧ TurnedAway setup env w error r t

theorem applyConfig_stale {input : InstanceSpec} {other : RevisionId}
    (hq : w.ctrl.quarantine = [])
    (hne : ∀ active, w.ctrl.current = some active → active.plan.revision.id ≠ other) :
    (applyConfig setup input (some other)).wp (freely setup env) (Refused setup env w other) w := by
  refine rejectQuarantine_open hq ?_
  refine Prog.wp_attempt_seq (applyLocked_stale .refl hne) ?_
  rintro _ v ⟨hv, error, rfl, herror⟩
  exact Prog.wp_mono (finishDnsConverge_turnedAway hv) fun r t h => ⟨error, herror, h⟩

theorem reconcile_stale {spec : InstanceSpec} {other : RevisionId} (hq : w.ctrl.quarantine = [])
    (hne : ∀ active, w.ctrl.current = some active → active.plan.revision.id ≠ other) :
    (reconcile setup spec (some other)).wp (freely setup env) (Refused setup env w other) w := by
  have locked : (reconcileLocked setup spec (some other)).wp (freely setup env)
      (fun r v => Waited env w v ∧ ∃ error, r = .error error ∧ StaleError env w other error) w := by
    refine (Prog.wp_bind ..).2 (runtimeAlive_waited .refl ?_)
    intro v hv
    simp only [Prog.andThen_ok]
    split
    · exact applyLocked_stale hv hne
    · rename_i hdead
      exact ⟨hv, _, rfl, .inr ⟨v, hv, by simpa using hdead, .inr rfl⟩⟩
  refine rejectQuarantine_open hq ?_
  refine Prog.wp_attempt_seq locked ?_
  rintro _ v ⟨hv, error, rfl, herror⟩
  exact Prog.wp_mono (finishDnsConverge_turnedAway hv) fun r t h => ⟨error, herror, h⟩

/-- The converge tail keeps the books and the runtime files. -/
theorem TurnedAway.books {error : Error} {r : Except Error α} {t : World Doc}
    (h : TurnedAway setup env w error r t) : t.books = w.books := by
  rcases h with ⟨hw, -⟩ | ⟨u, dns, hu, -, hr, -⟩
  · exact hw.same (World.books_elapse env)
  · have hb := exec_dns_books env (dnsConverge setup) u
    rw [hr] at hb
    exact hb.trans (hu.same (World.books_elapse env))

/-- So do the files that are not a runtime's own. -/
theorem TurnedAway.files {error : Error} {r : Except Error α} {t : World Doc} {a : Artifact}
    (ha : a.ofRuntime = false) (h : TurnedAway setup env w error r t) :
    t.artifacts.find a = w.artifacts.find a := by
  rcases h with ⟨hw, -⟩ | ⟨u, dns, hu, -, hr, -⟩
  · exact hw.find ha
  · have hf := exec_dns_find env ha (dnsConverge setup) u
    rw [hr] at hf
    exact hf.trans (hu.find ha)

end Stale

/-! ## What a construction finds -/

theorem artifactEpochs_finds {w t : World Doc} {numbers : List Nat}
    (h : exec (storeHandle env) artifactEpochs w = (.ok (.ok numbers), t)) :
    ∀ entry ∈ (w.elapse env).artifacts, entry.1.number < 2 ^ 64 → entry.1.number ∈ numbers := by
  have reads : ∀ r t, storeHandle env .readDir w = (.ok r, t) → ∀ names, r = .ok names →
      names = (w.elapse env).artifacts.map Prod.fst := by
    intro r t hop names hr
    simp only [storeHandle, onDirectory] at hop
    have ha := outside_ok hop
    split at ha
    · cases ha
      cases hr
    · cases ha
      exact (Except.ok.inj hr).symm
  rw [artifactEpochs, exec_bind] at h
  simp only [file, exec] at h
  rcases hop : storeHandle env .readDir w with ⟨x | (e | names), u⟩
  · rw [hop] at h
    cases h
  · rw [hop] at h
    cases h
  · rw [hop] at h
    cases h
    intro entry he hlt
    obtain rfl := reads _ _ hop names rfl
    simp only [List.mem_insertionSort, List.mem_dedup, List.mem_filter, List.mem_map]
    exact ⟨⟨entry.1, ⟨entry, he, rfl⟩, rfl⟩, by simpa using hlt⟩

/-- Whatever in the directory names an epoch is found. -/
theorem build_found {w u : World Doc} (hr : exec (handle setup env) build w = (.ok (.ok ()), u)) :
    ∀ entry ∈ (w.elapse env).artifacts, entry.1.number < 2 ^ 64 →
      entry.1.number ∈ found u.trace := by
  have finds : (build : Control Doc Unit).wp (freely setup env) (fun r t => r = .ok () →
      ∀ entry ∈ (w.elapse env).artifacts, entry.1.number < 2 ^ 64 →
        entry.1.number ∈ found t.trace) w := by
    refine Prog.wp_demand_bind trivial (fun e t _ h => by cases h) ?_
    rintro numbers w₁ ⟨-, hop⟩
    have hnumbers := artifactEpochs_finds hop
    refine Prog.wp_seq (Prog.wp_true fun _ _ => trivial) (fun e t _ h => by cases h) ?_
    intro _ w₂ _
    refine Prog.wp_perform_bind trivial ?_
    intro _ w₃ _
    refine (Prog.wp_perform _).2 ⟨trivial, ?_⟩
    rintro _ _ ⟨-, hop⟩ -
    cases hop
    exact hnumbers
  exact exec_freely finds hr rfl

/-! ## Every run -/

section Runs

variable {artifacts : Directory} {recordFile : Option (List UInt8)}
  {recordStaging : Option RecordStaging} {s t : System Doc}

/-- A rollback brings back the plan that was there before the operation. -/
theorem step_rollback {label : Label}
    (hs : (manager setup env artifacts recordFile recordStaging).Reachable s) (hup : s.up = true)
    (hstep : s.step setup env label = some t) (ht : t.up = true) :
    ∃ new, t.world.trace = new ++ s.world.trace ∧ ∀ plan, .committed plan true ∈ new →
      s.world.ctrl.current.map Active.plan = some plan := by
  cases label with
  | build => simp [System.step, hup] at hstep
  | idle =>
    simp only [System.step, Option.some.injEq] at hstep
    subst hstep
    exact ⟨[], by simp, by simp⟩
  | call command =>
    obtain ⟨new, hnew⟩ := call_since hs hstep ht
    refine ⟨new, hnew.trace, ?_⟩
    cases command <;> exact hnew.rollbacks

end Runs

/-- Over every run of a manager: each newly committed plan is past all plans
committed before, each allocated epoch past every number that the construction
found in the directory, and a rollback brings back the plan that was there. A
token that is not the applied revision is refused: no epoch is allocated, the
control state, the runtime files and the history stay, and only where no runtime
lives the converge tail settles the host DNS. -/
theorem revision_discipline (setup : Setup Doc) (env : Env Doc) (artifacts : Directory)
    (recordFile : Option (List UInt8)) (recordStaging : Option RecordStaging) {s : System Doc}
    (hs : (manager setup env artifacts recordFile recordStaging).Reachable s) :
    (s.up = true → Disciplined s.world.trace) ∧
    (∀ t, s.step setup env .build = some t → t.up = true →
      ∀ entry ∈ (s.world.elapse env).artifacts, entry.1.number < 2 ^ 64 →
        entry.1.number ∈ found t.world.trace) ∧
    (∀ label t, s.up = true → s.step setup env label = some t → t.up = true →
      ∃ new, t.world.trace = new ++ s.world.trace ∧ ∀ plan, .committed plan true ∈ new →
        s.world.ctrl.current.map Active.plan = some plan) ∧
    ∀ other spec, s.world.ctrl.quarantine = [] →
      (∀ active, s.world.ctrl.current = some active → active.plan.revision.id ≠ other) →
      ∀ r t, (exec (handle setup env) (applyConfig setup spec (some other)) s.world = (.ok r, t) ∨
          exec (handle setup env) (reconcile setup spec (some other)) s.world = (.ok r, t)) →
        ∃ error, StaleError env s.world other error ∧
          TurnedAway setup env s.world error r t ∧ t.books = s.world.books ∧
          ∀ a : Artifact, a.ofRuntime = false → t.artifacts.find a = s.world.artifacts.find a := by
  refine ⟨fun hup => (reachable_good hs hup false).disciplined, ?_, ?_, ?_⟩
  · intro t hstep ht
    rcases System.step_cases hstep with ⟨-, -, r, hr, hiff⟩ | ⟨_, h, -⟩ | ⟨h, -⟩
    · obtain rfl := hiff.1 ht
      exact build_found hr
    · cases h
    · cases h
  · intro label t hup hstep ht
    exact step_rollback hs hup hstep ht
  · intro other spec hq hne r t hr
    have hrefused : Refused setup env s.world other r t := by
      rcases hr with hr | hr
      · exact exec_freely (applyConfig_stale hq hne) hr
      · exact exec_freely (reconcile_stale hq hne) hr
    obtain ⟨error, herror, hturned⟩ := hrefused
    exact ⟨error, herror, hturned, hturned.books, fun a ha => hturned.files ha⟩

/-- A revision that no run commits. -/
def staleToken : RevisionId := ⟨Epoch.one, 9, "stale"⟩

/-- A host on which the first runtime ends by itself after its start. -/
def crashedEnv : Env Nat :=
  { plainEnv 7 with
    background := fun tick =>
      if tick = 51 then [.report 0 ⟨none, .stopped (.error "exited"), none⟩] else []
    dnsApply := fun _ intent epoch => .ok (hostRecord intent epoch) }

/-- After the runtime has ended, `reconcile` turns a stale token away and
restores the host DNS on the way; `apply_config` does not even call it a
conflict. -/
theorem stale_token_settles_dns :
    ∃ s, (manager hostSetup crashedEnv [] none none).Reachable s ∧ s.up = true ∧
      s.world.ctrl.quarantine = [] ∧ s.world.ctrl.dnsRecord.isSome = true ∧
      s.world.recordFile.isSome = true ∧
      (let refused := exec (handle hostSetup crashedEnv)
        (reconcile hostSetup plainSpec (some staleToken)) s.world
      refused.1 = .ok (.error (.revisionConflict staleToken none)) ∧
        refused.2.ctrl.dnsRecord = none ∧ refused.2.recordFile = none) ∧
      (exec (handle hostSetup crashedEnv)
        (applyConfig hostSetup plainSpec (some staleToken)) s.world).1 =
          .ok (.error .notStarted) := by
  have settles : ((manager hostSetup crashedEnv [] none none).run
      (manager hostSetup crashedEnv [] none none).init [.build, .call (.start plainSpec)]).any
      (fun s => decide (s.up = true ∧ s.world.ctrl.quarantine = [] ∧
        s.world.ctrl.dnsRecord.isSome = true ∧ s.world.recordFile.isSome = true ∧
        (let refused := exec (handle hostSetup crashedEnv)
          (reconcile hostSetup plainSpec (some staleToken)) s.world
        refused.1 = .ok (.error (.revisionConflict staleToken none)) ∧
          refused.2.ctrl.dnsRecord = none ∧ refused.2.recordFile = none) ∧
        (exec (handle hostSetup crashedEnv)
          (applyConfig hostSetup plainSpec (some staleToken)) s.world).1 =
            .ok (.error .notStarted))) = true := by decide +kernel
  obtain ⟨s, hs, ho⟩ := (Option.any_eq_true _ _).1 settles
  exact ⟨s, Machine.run_reachable .init hs, of_decide_eq_true ho⟩

/-- While the runtime lives a stale token changes nothing. -/
theorem stale_token_refused :
    ∃ s, (manager plainSetup (plainEnv 7) [] none none).Reachable s ∧ Disciplined s.world.trace ∧
      ∃ r t, exec (handle plainSetup (plainEnv 7))
          (applyConfig plainSetup plainSpec (some staleToken)) s.world = (.ok r, t) ∧
        t.books = s.world.books := by
  have starts : ((manager plainSetup (plainEnv 7) [] none none).run
      (manager plainSetup (plainEnv 7) [] none none).init [.build, .call (.start plainSpec)]).any
      (fun s => s.up && decide (s.world.ctrl.quarantine = [] ∧
        s.world.ctrl.current.all (fun active => active.plan.revision.id ≠ staleToken) = true) &&
        (exec (handle plainSetup (plainEnv 7))
          (applyConfig plainSetup plainSpec (some staleToken)) s.world).1.isOk) = true := by
    decide +kernel
  obtain ⟨s, hs, ho⟩ := (Option.any_eq_true _ _).1 starts
  simp only [Bool.and_eq_true, decide_eq_true_eq] at ho
  obtain ⟨⟨hup, hq, hall⟩, hok⟩ := ho
  have hreach := Machine.run_reachable .init hs
  have hmain := revision_discipline _ _ _ _ _ hreach
  rcases hrun : exec (handle plainSetup (plainEnv 7))
      (applyConfig plainSetup plainSpec (some staleToken)) s.world with ⟨x | r, t⟩
  · rw [hrun] at hok
    cases hok
  · obtain ⟨error, -, -, hbooks, -⟩ := hmain.2.2.2 staleToken plainSpec hq (fun active h => by
      rw [h] at hall
      simpa using hall) r t (.inl hrun)
    exact ⟨s, hreach, hmain.1 hup, r, t, hrun, hbooks⟩

end Chimera.Manager
