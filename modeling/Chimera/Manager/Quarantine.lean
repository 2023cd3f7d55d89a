import Chimera.Manager.Runs

/-! The quarantine: which epochs enter it, how the gate it makes turns every
transaction away, and how an entry leaves it again. -/

namespace Chimera.Manager
open Chimera.Model Chimera.Lib.Program Chimera.Lib.Transition

variable {Doc : Type} {setup : Setup Doc} {env : Env Doc} {artifacts : Directory}
  {recordFile : Option (List UInt8)} {recordStaging : Option RecordStaging} {s : System Doc}

/-! ## Completeness

`start_prepared` and the graceful bootstrap clean up after a failed launch
without asking whether the launch could confirm that nothing runs. Everywhere
else an unconfirmed stop is latched. -/

/-- A launch that is not latched does not answer that it left something
running. -/
def Op.Calm (env : Env Doc) {β : Type} : Op Doc β → World Doc → Prop
  | .launch site _, w => latchedSite site = false →
      ∀ error, env.launch w.tick = .error error → error.isStopUnconfirmed = false
  | _, _ => True

/-- The launches of the step are calm. -/
def CalmStep (setup : Setup Doc) (env : Env Doc) (s : System Doc) : Label → Prop
  | .call command => Along (handle setup env) (Op.Calm env) (program setup command) s.world
  | _ => True

/-- The launches of this manager were calm. -/
def CalmTrace : List (Event Doc) → Prop
  | [] | .built _ :: _ => True
  | .launched site _ (.error error) :: rest =>
    (latchedSite site = false → error.isStopUnconfirmed = false) ∧ CalmTrace rest
  | _ :: rest => CalmTrace rest

theorem CalmTrace.unconfirmed {trace : List (Event Doc)} {epoch : Epoch} (h : CalmTrace trace)
    (hu : Unconfirmed (fun _ => true) trace epoch) : Unconfirmed latchedSite trace epoch := by
  induction trace with
  | nil => exact hu
  | cons event rest ih =>
    cases event with
    | built numbers => exact hu
    | released e => exact ⟨hu.1, ih h hu.2⟩
    | launched site e result =>
      cases result with
      | ok _ => exact hu.imp_right (ih h)
      | error error =>
        rcases hu with ⟨-, he, heq⟩ | hu
        · refine .inl ⟨?_, he, heq⟩
          by_contra hsite
          have := h.1 (by simpa using hsite)
          rw [this] at he
          cases he
        · exact .inr (ih h.2 hu)
    | stopped e result =>
      cases result with
      | ok _ => exact hu.imp_right (ih h)
      | error _ => exact hu.imp_right (ih h)
    | allocated _ | committed _ _ | reaped _ _ | cleaned _ => exact hu.imp_right (ih h)

theorem handle_calm {β : Type} (op : Op Doc β) (w : World Doc) (hop : op.Calm env w)
    (h : CalmTrace w.trace) : CalmTrace (handle setup env op w).2.trace := by
  have same : ∀ t u : World Doc, t.books = u.books → CalmTrace u.trace → CalmTrace t.trace := by
    intro t u hb hu
    have ht : t.trace = u.trace := congrArg Books.trace hb
    rw [ht]
    exact hu
  have elapsed : CalmTrace (w.elapse env).trace := by simpa using h
  cases op with
  | launch site plan =>
    simp only [handle, outside]
    split
    · exact h
    · split
      · exact elapsed
      · rename_i error herror
        exact ⟨fun hsite => hop hsite error herror, elapsed⟩
  | stop site inst =>
    simp only [handle, outside]
    split
    · exact h
    · exact elapsed
  | reap epoch =>
    simp only [handle, outside]
    split
    · exact h
    · split
      · exact elapsed
      · exact elapsed
  | nextEpoch =>
    simp only [handle]
    split
    · exact h
    · exact h
  | cleanupEpoch site epoch =>
    refine afterwards_keeps (I := fun t => CalmTrace t.trace)
      (same _ w (outside_same (World.books_elapse env w) rfl) h) fun u hu => ?_
    exact afterwards_keeps (I := fun t => CalmTrace t.trace)
      (same _ u (exec_store_books env _ u) hu) fun _ hv => hv
  | install _ _ _ | adopt _ | release _ => exact h
  | boot numbers => exact trivial
  | panic _ | current | lastSpec | quarantine | take | retainSource _ | retainSpec _ | record _ _
  | proveDeath _ | commitConfig _ => exact h
  | publish _ _ | publishSnapshot _ _ _ _ | instanceStatus _ | abortForwarder _ | pid _
  | waitReady _ | reconciled | checkConfig _ | load _ | validateLaunchable _
  | resolveFeatures _ | cleanupController _ | reapOrphan _ =>
    exact same _ w (outside_same (World.books_elapse env w) rfl) h
  | stage _ _ | dropStaged _ | commitNew _ _ | commitReplace _ _ | backup _ _ | restore _
  | removeBackup _ | cleanupArtifacts _ | artifactEpochs | pidExists _ =>
    exact same _ w (exec_store_books env _ w) h
  | dnsActivate _ | dnsDeactivate _ | dnsConverge | dnsRestore | reconcileOrphan =>
    exact same _ w (exec_dns_books env _ w) h

theorem calm_reachable
    (hs : (manager setup env artifacts recordFile recordStaging).ReachableBy (CalmStep setup env) s)
    (hup : s.up = true) : CalmTrace s.world.trace := by
  revert hup
  refine hs.invariant (I := fun s => s.up = true → CalmTrace s.world.trace) (by simp [manager]) ?_
  intro s label t ih hcalm hstep hup
  rcases System.step_cases hstep with
    ⟨-, -, r, hr, hiff⟩ | ⟨command, rfl, hs, r, hr, -⟩ | ⟨-, rfl⟩
  · obtain rfl := hiff.1 hup
    obtain ⟨numbers, trace, hb⟩ := build_books hr
    have ht : t.world.trace = .built numbers :: trace := congrArg Books.trace hb
    rw [ht]
    trivial
  · have h := Along.invariant (h := handle setup env) (I := fun w => CalmTrace w.trace) hcalm
      (fun op w hop hw => handle_calm op w hop hw) (ih hs)
    rw [hr] at h
    exact h
  · simpa using ih hup

/-! ### What an operation does to the entries -/

/-- An entry leaves only in a recovery, and with its release. -/
theorem entry_leaves {label : Label} {t : System Doc}
    (hs : (manager setup env artifacts recordFile recordStaging).Reachable s) (hup : s.up = true)
    (hstep : s.step setup env label = some t) (ht : t.up = true) :
    ∃ new, t.world.trace = new ++ s.world.trace ∧ ∀ epoch,
      Latched s.world.ctrl.quarantine epoch → ¬Latched t.world.ctrl.quarantine epoch →
        label = .call .recoverQuarantine ∧ .released epoch ∈ new := by
  cases label with
  | build => simp [System.step, hup] at hstep
  | idle =>
    simp only [System.step, Option.some.injEq] at hstep
    subst hstep
    refine ⟨[], by simp, fun epoch h hn => ?_⟩
    simp only [World.elapse_ctrl] at hn
    exact absurd h hn
  | call command =>
    obtain ⟨new, hnew⟩ := call_since hs hstep ht
    refine ⟨new, hnew.trace, fun epoch h hn => ?_⟩
    have hr : .released epoch ∈ new := (hnew.kept epoch h).resolve_left hn
    refine ⟨?_, hr⟩
    have hrec := hnew.releases epoch hr
    cases command with
    | recoverQuarantine => rfl
    | start _ | stop | shutdown | switch _ | restart | applyConfig _ _ | reconcile _ _ => cases hrec

/-- In every run whose unlatched launches are calm: an epoch whose launch or stop
could not be confirmed is quarantined when the operation returns, and stays so
until a recovery releases it. -/
theorem unconfirmed_quarantined (setup : Setup Doc) (env : Env Doc) (artifacts : Directory)
    (recordFile : Option (List UInt8)) (recordStaging : Option RecordStaging) {s : System Doc}
    (hs : (manager setup env artifacts recordFile recordStaging).ReachableBy (CalmStep setup env) s)
    (hup : s.up = true) :
    (∀ epoch, Unconfirmed (fun _ => true) s.world.trace epoch →
      Latched s.world.ctrl.quarantine epoch) ∧
    ∀ label t, s.step setup env label = some t → t.up = true → ∀ epoch,
      Latched s.world.ctrl.quarantine epoch → label ≠ .call .recoverQuarantine →
        Latched t.world.ctrl.quarantine epoch := by
  refine ⟨?_, ?_⟩
  · intro epoch hu
    have hg := reachable_good hs.reachable hup false
    rcases hg.settled epoch ((calm_reachable hs hup).unconfirmed hu) with h | h
    · cases h
    · exact h
  · intro label t hstep ht epoch hl hne
    obtain ⟨new, -, hleaves⟩ := entry_leaves hs.reachable hup hstep ht
    by_contra hn
    exact hne (hleaves epoch hl hn).1

/-- A host on which no stop can be confirmed. -/
def deafEnv : Env Nat :=
  { plainEnv 7 with
    waitReady := fun _ => .error (.io "not ready")
    stop := fun _ => .error (.stopUnconfirmed "still there") }

/-- A start that is not ready in time and cannot be stopped. -/
theorem deaf_start_quarantined :
    ∃ s, (manager plainSetup deafEnv [] none none).ReachableBy (CalmStep plainSetup deafEnv) s ∧
      s.up = true ∧ Unconfirmed (fun _ => true) s.world.trace Epoch.one ∧
      Latched s.world.ctrl.quarantine Epoch.one := by
  have calm : ∀ s label, CalmStep plainSetup deafEnv s label := by
    intro s label
    cases label with
    | call command =>
      refine along_of_forall (h := handle plainSetup deafEnv) (fun op w => ?_) _
      cases op <;> first | trivial | exact fun _ _ h => by cases h
    | build | idle => trivial
  have fails : ((manager plainSetup deafEnv [] none none).run
      (manager plainSetup deafEnv [] none none).init [.build, .call (.start plainSpec)]).any
      (fun s => s.up && decide (Unconfirmed (fun _ => true) s.world.trace Epoch.one)) = true := by
    decide
  obtain ⟨s, hs, ho⟩ := (Option.any_eq_true _ _).1 fails
  have ho := (Bool.and_eq_true _ _).mp ho
  have hreach := (Machine.run_reachable .init hs).weaken fun s label _ => calm s label
  have hu := of_decide_eq_true ho.2
  exact ⟨s, hreach, ho.1, hu, (unconfirmed_quarantined _ _ _ _ _ hreach ho.1).1 _ hu⟩

/-- A launch that leaves something running, as the default backend's can. -/
def looseEnv : Env Nat :=
  { plainEnv 7 with launch := fun _ => .error (.stopUnconfirmed "still there") }

/-- The start returns and nothing is quarantined. -/
theorem loose_launch_forgotten :
    ∃ s, (manager plainSetup looseEnv [] none none).Reachable s ∧ s.up = true ∧
      Unconfirmed (fun _ => true) s.world.trace Epoch.one ∧
      ¬Latched s.world.ctrl.quarantine Epoch.one := by
  have fails : ((manager plainSetup looseEnv [] none none).run
      (manager plainSetup looseEnv [] none none).init [.build, .call (.start plainSpec)]).any
      (fun s => s.up && decide (Unconfirmed (fun _ => true) s.world.trace Epoch.one ∧
        ¬Latched s.world.ctrl.quarantine Epoch.one)) = true := by decide
  obtain ⟨s, hs, ho⟩ := (Option.any_eq_true _ _).1 fails
  have ho := (Bool.and_eq_true _ _).mp ho
  exact ⟨s, Machine.run_reachable .init hs, ho.1, of_decide_eq_true ho.2⟩

/-! ## The gate -/

/-- The operations that a quarantine turns away. -/
def Command.isGated : Command → Bool
  | .start _ | .switch _ | .restart | .applyConfig _ _ | .reconcile _ _ => true
  | .stop | .shutdown | .recoverQuarantine => false

theorem quarantineError_cases {list : List QuarantinedEpoch} (h : list ≠ []) :
    ∃ epoch reason, quarantineError list = some (.managerQuarantined epoch reason) := by
  match list, h with
  | [q], _ => exact ⟨_, _, rfl⟩
  | _ :: _ :: _, _ => exact ⟨_, _, rfl⟩

theorem exec_gate {w : World Doc} :
    exec (handle setup env) rejectQuarantine w =
      exec (handle setup env) (match quarantineError w.ctrl.quarantine with
        | some error => fail error
        | none => pure ()) w := rfl

/-- Whatever comes after the gate is not reached. -/
theorem exec_rejectQuarantine {α : Type} {w : World Doc} {epoch : Epoch} {reason : String}
    (h : quarantineError w.ctrl.quarantine = some (.managerQuarantined epoch reason))
    (next : Unit → Control Doc α) :
    exec (handle setup env) (rejectQuarantine >>= next) w =
      (.ok (.error (.managerQuarantined epoch reason)), w) := by
  have gate : exec (handle setup env) rejectQuarantine w =
      (.ok (.error (.managerQuarantined epoch reason)), w) := by
    rw [exec_gate, h]
    rfl
  rw [exec_bind, gate]

/-- A gated operation does nothing while the manager is quarantined. -/
theorem gated_rejected {command : Command} (hgated : command.isGated = true) {w : World Doc}
    (hq : w.ctrl.quarantine ≠ []) :
    ∃ epoch reason, exec (handle setup env) (program setup command) w =
      (.ok (.error (.managerQuarantined epoch reason)), w) := by
  obtain ⟨epoch, reason, h⟩ := quarantineError_cases hq
  refine ⟨epoch, reason, ?_⟩
  cases command with
  | start spec =>
    simp only [program, start]
    rw [exec_bind, exec_rejectQuarantine h]
  | switch spec =>
    simp only [program, switch]
    rw [exec_bind, exec_rejectQuarantine h]
  | restart =>
    simp only [program, restart]
    rw [exec_bind, exec_rejectQuarantine h]
  | applyConfig spec expected =>
    simp only [program, applyConfig]
    rw [exec_bind, exec_rejectQuarantine h]
  | reconcile spec expected =>
    simp only [program, reconcile]
    rw [exec_bind, exec_rejectQuarantine h]
  | stop | shutdown | recoverQuarantine => cases hgated

/-! ## Recovery -/

/-- The loop's failures leave an entry behind. -/
theorem failures_quarantined {w t : World Doc} {failures : List String}
    (hg : Good (w.books.context true) ∅ w.books)
    (hr : exec (handle setup env) (recoverEntries w.ctrl.quarantine) w = (.ok (.ok failures), t))
    (hf : failures ≠ []) : t.ctrl.quarantine ≠ [] := by
  have hwp := recoverEntries_spec (P := fun _ => True) hg rfl hg.unique hg.proven
    fun q hq => ⟨q, hq, rfl⟩
  obtain ⟨_, h, -, hkept, -⟩ := (readBooks_sound setup env fun _ => True).returns
    (along_of_forall (h := handle setup env) (fun _ _ => trivial) _) hwp hr
  cases h
  exact hkept hf

/-- A recovery returns or crashes. -/
theorem recoverQuarantine_no_panic {w t : World Doc} {message : String}
    (hg : Good (w.books.context true) ∅ w.books) :
    exec (handle setup env) recoverQuarantine w ≠ (.error (.panic message), t) := by
  intro hr
  have hwp := recoverQuarantine_spec (P := fun _ => False) hg rfl
  obtain ⟨β, op, u, hpre, hop⟩ := (readBooks_sound setup env fun _ => False).aborts
    (along_of_forall (h := handle setup env) (fun _ _ => trivial) _) hwp hr
  have hpanic := (handle_panic hop).1
  exact Op.needs_panic (P := fun _ => False) hpanic
    (hpre (by rw [hpanic, Bool.true_or, Bool.true_or])).2

/-- While epochs are quarantined the gated operations are turned away with the
world as it was; an entry leaves only in a recovery, which releases it after its
process was found dead and its artifacts were removed; no epoch has two
entries; and a recovery with failures leaves an entry, so it does not panic. -/
theorem quarantine_gate (setup : Setup Doc) (env : Env Doc) (artifacts : Directory)
    (recordFile : Option (List UInt8)) (recordStaging : Option RecordStaging) {s : System Doc}
    (hs : (manager setup env artifacts recordFile recordStaging).Reachable s) (hup : s.up = true) :
    (s.world.ctrl.quarantine ≠ [] → ∀ command, command.isGated = true → ∃ epoch reason,
      exec (handle setup env) (program setup command) s.world =
        (.ok (.error (.managerQuarantined epoch reason)), s.world)) ∧
    (∀ label t, s.step setup env label = some t → t.up = true →
      ∃ new, t.world.trace = new ++ s.world.trace ∧ ∀ epoch,
        Latched s.world.ctrl.quarantine epoch → ¬Latched t.world.ctrl.quarantine epoch →
          label = .call .recoverQuarantine ∧ .released epoch ∈ new) ∧
    Justified s.world.trace ∧
    (s.world.ctrl.quarantine.map QuarantinedEpoch.epoch).Nodup ∧
    (∀ failures t, exec (handle setup env) (recoverEntries s.world.ctrl.quarantine) s.world =
      (.ok (.ok failures), t) → failures ≠ [] → t.ctrl.quarantine ≠ []) ∧
    ∀ message t, exec (handle setup env) recoverQuarantine s.world ≠ (.error (.panic message), t) := by
  have hg := reachable_good hs hup true
  refine ⟨?_, ?_, hg.justified, hg.unique, ?_, ?_⟩
  · intro hq command hgated
    exact gated_rejected hgated hq
  · intro label t hstep ht
    exact entry_leaves hs hup hstep ht
  · intro failures t hr hf
    exact failures_quarantined hg hr hf
  · intro message t
    exact recoverQuarantine_no_panic hg

/-- The gate closes after a start that could not be stopped. -/
theorem deaf_start_gated :
    ∃ s, (manager plainSetup deafEnv [] none none).Reachable s ∧ s.up = true ∧
      s.world.ctrl.quarantine ≠ [] ∧ ∃ epoch reason,
        exec (handle plainSetup deafEnv) (program plainSetup .restart) s.world =
          (.ok (.error (.managerQuarantined epoch reason)), s.world) := by
  have quarantined : ((manager plainSetup deafEnv [] none none).run
      (manager plainSetup deafEnv [] none none).init [.build, .call (.start plainSpec)]).any
      (fun s => s.up && !s.world.ctrl.quarantine.isEmpty) = true := by decide
  obtain ⟨s, hs, ho⟩ := (Option.any_eq_true _ _).1 quarantined
  have ho := (Bool.and_eq_true _ _).mp ho
  have hreach := Machine.run_reachable .init hs
  have hq : s.world.ctrl.quarantine ≠ [] := by simpa using ho.2
  exact ⟨s, hreach, ho.1, hq, (quarantine_gate _ _ _ _ _ hreach ho.1).1 hq .restart rfl⟩

end Chimera.Manager
