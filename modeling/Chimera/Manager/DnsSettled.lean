import Chimera.Manager.DnsBaseline
import Chimera.Manager.Quarantine

/-! Success means that host DNS is as the runtime wants it: the converge tail is
the last thing a transition does, and what it finds in memory tells whether an
override may be in place. -/

namespace Chimera.Manager
open Chimera.Model Chimera.Lib.Program Chimera.Lib.Transition

variable {Doc : Type}

/-- An override was attempted by this manager and not undone since. -/
def attempted : List DnsEvent → Bool
  | [] => false
  | .applying _ _ :: _ => true
  | .restored _ :: _ | .built :: _ => false
  | .applied _ :: rest | .published _ :: rest => attempted rest

/-- What this manager had the controller do, newest first. -/
def actions : List DnsEvent → List DnsEvent
  | [] => []
  | .built :: _ => []
  | .published _ :: rest => actions rest
  | e :: rest => e :: actions rest

/-- Nothing in memory, nothing attempted. -/
def Ledger.Accounted (a : Ledger) : Prop := a.memory = none → attempted a.host.calls = false

/-! ## The functions -/

section Functions

variable {setup : Setup Doc} {F : Faults} {a a' : Ledger} {ok : Bool}

theorem Ledger.accounted_of_isSome (h : a.memory.isSome = true) : a.Accounted := by
  intro hnone
  rw [hnone] at h
  cases h

theorem Written.isSome {entry : DnsOverrideRecord}
    (h : Written setup F (some entry) entry a ok a') (ha : a.memory.isSome = true) :
    a'.memory.isSome = true := by
  cases h with
  | visible encoded => rfl
  | refused failed => exact ha
  | torn linked failed => exact ha
  | linked absent encoded failed => exact ha

theorem Written.accounted {entry : DnsOverrideRecord}
    (h : Written setup F (some entry) entry a ok a') (ha : a.Accounted) : a'.Accounted := by
  cases h with
  | visible encoded => exact nofun
  | refused failed => exact ha
  | torn linked failed => exact ha
  | linked absent encoded failed => exact ha

theorem Overridden.accounted {intent : DnsIntent} {epoch : Epoch}
    (h : Overridden setup F intent epoch a ok a') (ha : a.Accounted) : a'.Accounted := by
  have recorded {pre : DnsOverrideRecord} {a₁ : Ledger}
      (h : Written setup F (some pre) pre a true a₁) : a₁.memory.isSome = true := by
    cases h with
    | visible encoded => rfl
  cases h with
  | unrecorded hpre h => exact h.accounted ha
  | refused hpre h failed =>
    refine Ledger.accounted_of_isSome ?_
    simpa using recorded h
  | moved hpre h _ _ =>
    refine Ledger.accounted_of_isSome ?_
    simpa using recorded h
  | applied hpre h same h' =>
    refine Ledger.accounted_of_isSome (h'.isSome ?_)
    simpa using recorded h

theorem Restored.accounted (h : Restored setup F a ok a') (ha : a.Accounted) : a'.Accounted := by
  cases h with
  | nothing h => exact ha
  | unregistered h none => exact ha
  | failed h registered marked refused => exact marked.accounted ha
  | done h registered marked cleared =>
    cases cleared with
    | done => exact fun _ => rfl
    | failed h => exact fun _ => rfl

/-- A restoration that succeeds leaves nothing attempted. -/
theorem Restored.settled (h : Restored setup F a true a') (ha : a.Accounted) :
    attempted a'.host.calls = false := by
  cases h with
  | nothing h => exact ha h
  | done h registered marked cleared =>
    cases cleared with
    | done => rfl
    | failed h => rfl

theorem Reached.accounted {goal : Option (DnsIntent × Epoch)} (h : Reached setup F a ok a' goal)
    (ha : a.Accounted) : a'.Accounted := by
  cases goal with
  | none => exact Restored.accounted h ha
  | some goal => exact Overridden.accounted h ha

theorem reconcileOrphanRecord_accounted (ha : a.Accounted) :
    (reconcileOrphanRecord setup).wp (ledgerReading F) (fun _ a' => a'.Accounted) a := by
  refine Prog.wp_mono reconcileOrphanRecord_outcome ?_
  intro r a' h hnone
  obtain ⟨hmem, hcalls | ⟨record, hcalls⟩⟩ := h
  · rw [hcalls]
    exact ha (hmem.symm.trans hnone)
  · rw [hcalls]
    rfl

end Functions

/-! ## Runs -/

section Runs

variable {setup : Setup Doc} {env : Env Doc} {w t : World Doc}

theorem handle_accounted {β : Type} {op : Op Doc β} {b : β} (hw : w.ledger.Accounted)
    (h : handle setup env op w = (.ok b, t)) : t.ledger.Accounted := by
  have same (hfree : op.dnsFree = true) : t.ledger.Accounted := by
    have ht : t = (handle setup env op w).2 := by rw [h]
    rw [ht, handle_ledger setup env w hfree]
    exact hw
  cases op with
  | dnsActivate plan =>
    rcases dnsActivate_run within_any h with ⟨-, ht⟩ | ⟨intent, -, hover⟩
    · rw [ht]
      exact hw
    · exact hover.accounted hw
  | dnsDeactivate plan =>
    rcases dnsDeactivate_run within_any h with ⟨-, -, ht⟩ | ⟨-, hrestored⟩
    · rw [ht]
      exact hw
    · exact hrestored.accounted hw
  | dnsConverge => exact (dnsConverge_run within_any h).accounted hw
  | dnsRestore => exact (dnsRestore_run within_any h).accounted hw
  | reconcileOrphan => exact exec_outcome within_any (reconcileOrphanRecord_accounted hw) h
  | boot found =>
    cases h
    exact fun _ => rfl
  | _ => exact same rfl

section Kept

variable {I : Ledger → Prop}
  (keep : ∀ {β : Type} {op : Op Doc β} {w t : World Doc} {b : β}, I w.ledger →
    handle setup env op w = (.ok b, t) → I t.ledger)

include keep

/-- What every operation keeps of the record and the host holds at every operation
of a call. -/
theorem call_ledger_kept (hw : I w.ledger) {α : Type} (p : Control Doc α) :
    Along (handle setup env) (fun _ w => I w.ledger) p w := by
  have hG : Along (handle setup env) (fun _ _ => True) p w :=
    along_of_forall (h := handle setup env) (fun _ _ => trivial) p
  exact (hG.keeps (I := fun w => I w.ledger) hw fun op w t b _ hw h => keep hw h).1

theorem call_leaves_ledger_kept (hw : I w.ledger) {α : Type} {p : Control Doc α}
    {r : Except Abort (Except Error α)} (hr : exec (handle setup env) p w = (r, t))
    (hc : r ≠ .error .crash) : I t.ledger := by
  rcases r with (_ | message) | r
  · exact absurd rfl hc
  · obtain ⟨β, op, u, hu, herror⟩ := (call_ledger_kept keep hw p).ends hr
    rw [(handle_panic herror).2]
    exact hu
  · have hG : Along (handle setup env) (fun _ _ => True) p w :=
      along_of_forall (h := handle setup env) (fun _ _ => trivial) p
    exact (hG.keeps (I := fun w => I w.ledger) hw fun op w t b _ hw h => keep hw h).2 r t hr

theorem reachable_ledger_kept
    (built : ∀ a calls, a.memory = none → a.host.calls = .built :: calls → I a)
    {artifacts : Directory} {recordFile : Option (List UInt8)}
    {recordStaging : Option RecordStaging} {s : System Doc}
    (hs : (manager setup env artifacts recordFile recordStaging).Reachable s)
    (hup : s.up = true) : I s.world.ledger := by
  revert hup
  refine hs.invariant (I := fun s => s.up = true → I s.world.ledger) (by simp [manager]) ?_
  intro s label t ih _ hstep hup
  rcases System.step_cases hstep with
    ⟨-, -, r, hr, hiff⟩ | ⟨command, -, hs, r, hr, hiff⟩ | ⟨-, rfl⟩
  · obtain rfl := hiff.1 hup
    obtain ⟨hmem, calls, hcalls⟩ := build_ledger hr
    exact built t.world.ledger calls hmem hcalls
  · refine call_leaves_ledger_kept keep (ih hs) hr ?_
    intro hcrash
    rw [hiff.2 hcrash] at hup
    cases hup
  · rw [World.ledger_elapse]
    exact ih hup

end Kept

theorem reachable_accounted {artifacts : Directory} {recordFile : Option (List UInt8)}
    {recordStaging : Option RecordStaging} {s : System Doc}
    (hs : (manager setup env artifacts recordFile recordStaging).Reachable s)
    (hup : s.up = true) : s.world.ledger.Accounted := by
  refine reachable_ledger_kept (I := Ledger.Accounted) handle_accounted ?_ hs hup
  intro a calls _ hcalls _
  rw [hcalls]
  rfl

/-! ## The converge tail -/

/-- Host DNS is as the current runtime wants it: the last action was the override
that it wants, and its record is kept; or it wants none, and none was attempted
since the last restoration. -/
def DnsSettled (setup : Setup Doc) (w : World Doc) : Prop :=
  match wanted setup w.running with
  | some (intent, epoch) => ∃ record rest previous,
      actions w.dnsTrace = .applied record :: .applying intent epoch :: rest ∧
        w.ctrl.dnsRecord = some { record with previous } ∧
        w.recordFile.bind setup.decodeRecord = some { record with previous }
  | none => attempted w.dnsTrace = false

/-- The runtime that the converge tail sees is the one that is there when it is
done. -/
def Op.Still (setup : Setup Doc) (env : Env Doc) {β : Type} : Op Doc β → World Doc → Prop
  | .dnsConverge, w => (handle setup env .dnsConverge w).2.running = (w.elapse env).running
  | _, _ => True

theorem converge_settles
    (codec : ∀ r bytes, setup.encodeRecord r = .ok bytes → setup.decodeRecord bytes = some r)
    (hw : w.ledger.Accounted) (still : Op.Still setup env .dnsConverge w)
    (h : handle setup env .dnsConverge w = (.ok (.ok ()), t)) : DnsSettled setup t := by
  have hreached : Reached setup .any w.ledger true t.ledger (wanted setup (w.elapse env).running) :=
    dnsConverge_run within_any h
  simp only [Op.Still, h] at still
  rw [← still] at hreached
  unfold DnsSettled
  cases hgoal : wanted setup t.running with
  | none =>
    rw [hgoal] at hreached
    exact Restored.settled hreached hw
  | some goal =>
    rw [hgoal] at hreached
    generalize hledger : t.ledger = a' at hreached
    have hcalls : t.dnsTrace = a'.host.calls := by rw [← hledger]; rfl
    have hmem : t.ctrl.dnsRecord = a'.memory := by rw [← hledger]; rfl
    have hfile : t.recordFile = a'.host.record := by rw [← hledger]; rfl
    simp only [hcalls, hmem, hfile]
    cases hreached with
    | applied hpre h₁ same h₂ =>
      cases h₂ with
      | visible encoded =>
        exact ⟨_, _, _, rfl, rfl, codec _ _ encoded⟩

/-- A transition that returned `Ok` ended with a converge tail that did. -/
def Tail (setup : Setup Doc) (env : Env Doc) (G : ∀ {β : Type}, Op Doc β → World Doc → Prop)
    {α : Type} (r : Except Error α) (t : World Doc) : Prop :=
  r.isOk = true → ∃ u, G .dnsConverge u ∧ handle setup env .dnsConverge u = (.ok (.ok ()), t)

section Transitions

variable {G : ∀ {β : Type}, Op Doc β → World Doc → Prop} {α β : Type}

theorem Tail.error {e : Error} : Tail setup env G (.error e : Except Error α) t :=
  fun h => by cases h

theorem converged_wp {p : Control Doc α} :
    (p.attempt >>= finishDnsConverge).wp (worldReading setup env G) (Tail setup env G) w := by
  refine Prog.wp_attempt_seq (Prog.wp_true fun _ _ => trivial) ?_
  intro result w₁ _
  refine Prog.wp_seq (Prog.wp_true fun _ _ => trivial) (fun e t _ => .error) ?_
  intro alive w₂ _
  split
  · refine Prog.wp_perform_bind trivial ?_
    intro dns t hstep hok
    obtain ⟨hG, hstep⟩ := hstep
    refine ⟨w₂, hG, ?_⟩
    cases result with
    | error e => cases dns <;> cases hok
    | ok x =>
      cases dns with
      | error e => cases hok
      | ok _ => exact hstep
  · rename_i hfailed
    intro hok
    rw [hok] at hfailed
    exact absurd rfl hfailed

theorem gated_wp {p : Control Doc α}
    (hp : ∀ t, p.wp (worldReading setup env G) (Tail setup env G) t) :
    (rejectQuarantine >>= fun _ => p).wp (worldReading setup env G) (Tail setup env G) w :=
  Prog.wp_seq (Prog.wp_true fun _ _ => trivial) (fun _ _ _ => .error) fun _ t _ => hp t

theorem replied_wp {p : Control Doc α} {f : α → Reply}
    (hp : p.wp (worldReading setup env G) (Tail setup env G) w) :
    (p >>= fun a => pure (f a)).wp (worldReading setup env G) (Tail setup env G) w :=
  Prog.wp_seq hp (fun _ _ _ => .error) fun _ _ h _ => h rfl

theorem transition_wp {command : Command} (hc : command.isGated = true) :
    (program setup command).wp (worldReading setup env G) (Tail setup env G) w := by
  cases command with
  | start spec =>
    refine replied_wp (f := fun _ => .done) (gated_wp fun t => ?_)
    refine Prog.wp_seq (Prog.wp_true fun _ _ => trivial) (fun _ _ _ => .error) ?_
    intro alive w₁ _
    split
    · exact Tail.error
    · exact Prog.wp_seq (Prog.wp_true fun _ _ => trivial) (fun _ _ _ => .error) fun _ _ _ =>
        converged_wp
  | switch spec => exact replied_wp (gated_wp fun _ => converged_wp)
  | restart =>
    refine replied_wp (gated_wp fun t => ?_)
    refine Prog.wp_seq (Prog.wp_true fun _ _ => trivial) (fun _ _ _ => .error) ?_
    intro last w₁ _
    cases last with
    | none => exact Tail.error
    | some spec => exact converged_wp
  | applyConfig spec expected => exact replied_wp (gated_wp fun _ => converged_wp)
  | reconcile spec expected => exact replied_wp (gated_wp fun _ => converged_wp)
  | stop | shutdown | recoverQuarantine => cases hc

end Transitions

/-! ## Stopping -/

/-- The program leaves host DNS alone. -/
abbrev DnsFree {α : Type} (p : Control Doc α) : Prop := p.Only fun op => op.dnsFree = true

section Stopping

variable {α β : Type}

theorem DnsFree.keeps {p : Control Doc α} {G : ∀ {β : Type}, Op Doc β → World Doc → Prop}
    (hp : DnsFree p) :
    p.wp (worldReading setup env G) (fun _ t => t.ledger = w.ledger) w := by
  refine Prog.Only.keeps (I := fun t : World Doc => t.ledger = w.ledger) hp
    (fun _ _ _ _ => trivial) ?_ rfl
  intro β op u t b hop hstep hu
  have hledger := handle_ledger setup env u hop
  rw [hstep.2] at hledger
  exact hledger.trans hu

theorem publishAndFail_dnsFree (error : Error) :
    DnsFree (publishAndFail error : Control Doc α) :=
  (Prog.Only.perform rfl).bind fun _ => .ret _

theorem latchQuarantine_dnsFree (epoch : Epoch) (error : Error) :
    DnsFree (latchQuarantine epoch error : Control Doc α) := by
  refine (Prog.Only.perform rfl).bind fun _ => (Prog.Only.perform rfl).bind fun list => ?_
  split
  · exact (Prog.Only.perform rfl).bind fun _ => .ret _
  · exact (Prog.Only.perform rfl).bind fun b => nomatch b

theorem stopActive_dnsFree (active : Active Doc) : DnsFree (stopActive active) := by
  refine (Prog.Only.perform rfl).bind fun _ => (Prog.Only.perform rfl).bind fun r => ?_
  cases r with
  | error error =>
    simp only [stopFailed]
    split
    · exact latchQuarantine_dnsFree _ _
    · exact publishAndFail_dnsFree _
  | ok _ =>
    refine (Prog.Only.perform rfl).bind fun r => ?_
    cases r with
    | error error => exact publishAndFail_dnsFree _
    | ok _ => exact .perform rfl

theorem stopEnded_dnsFree (active : Active Doc) (captured : InstanceStatus) :
    DnsFree (stopEnded active captured) := by
  refine (Prog.Only.perform rfl).bind fun _ => (Prog.Only.perform rfl).bind fun r => ?_
  cases r with
  | error error =>
    simp only
    split
    · exact latchQuarantine_dnsFree _ _
    · exact .ret _
  | ok _ =>
    refine (Prog.Only.perform rfl).bind fun r => ?_
    cases r with
    | error error => exact publishAndFail_dnsFree _
    | ok _ => exact .ret _

/-- After the restoration that it begins with, a stop leaves host DNS alone. -/
theorem restoreFirst_wp {p : Control Doc Unit} (hp : DnsFree p) :
    ((demand .dnsRestore : Control Doc Unit) >>= fun _ => p).wp
      (worldReading setup env fun _ w => w.ledger.Accounted)
      (fun r t => r.isOk = true → attempted t.dnsTrace = false) w := by
  refine Prog.wp_demand_bind trivial (fun _ _ _ h => by cases h) ?_
  intro _ w₁ hstep
  have hsettled : attempted w₁.ledger.host.calls = false :=
    Restored.settled (dnsRestore_run within_any hstep.2) hstep.1
  refine Prog.wp_mono hp.keeps ?_
  intro r t ht _
  rw [← ht] at hsettled
  exact hsettled

theorem stopping_wp {command : Command} (hc : command = .stop ∨ command = .shutdown) :
    (program setup command).wp (worldReading setup env fun _ w => w.ledger.Accounted)
      (fun r t => r.isOk = true → attempted t.dnsTrace = false) w := by
  have reply {p : Control Doc Unit}
      (hp : p.wp (worldReading setup env fun _ w => w.ledger.Accounted)
        (fun r t => r.isOk = true → attempted t.dnsTrace = false) w) :
      (p >>= fun _ => pure Reply.done).wp (worldReading setup env fun _ w => w.ledger.Accounted)
        (fun r t => r.isOk = true → attempted t.dnsTrace = false) w :=
    Prog.wp_seq hp (fun _ _ _ h => by cases h) fun _ _ h _ => h rfl
  rcases hc with rfl | rfl
  · refine reply (restoreFirst_wp ((Prog.Only.perform rfl).bind fun current => ?_))
    cases current with
    | none => exact .ret _
    | some active =>
      refine (Prog.Only.perform rfl).bind fun captured => (Prog.Only.perform rfl).bind fun _ => ?_
      split
      · exact stopEnded_dnsFree _ _
      · exact stopActive_dnsFree _
  · refine reply (restoreFirst_wp ((Prog.Only.perform rfl).bind fun current => ?_))
    cases current with
    | none => exact trivial
    | some active => exact (Prog.Only.perform rfl).bind fun _ => stopActive_dnsFree _

end Stopping

end Runs

/-! ## Every run -/

/-- In every run: a transition that returns `Ok`, over a runtime whose state does
not change during the converge tail, leaves host DNS as the current plan wants
it; a stop or shutdown that returns `Ok` leaves no override attempted since the
last restoration. -/
theorem success_dns_settled (setup : Setup Doc) (env : Env Doc) (artifacts : Directory)
    (recordFile : Option (List UInt8)) (recordStaging : Option RecordStaging)
    (codec : ∀ r bytes, setup.encodeRecord r = .ok bytes → setup.decodeRecord bytes = some r)
    {s : System Doc} (hs : (manager setup env artifacts recordFile recordStaging).Reachable s)
    (hup : s.up = true) {command : Command} {reply : Reply} {t : World Doc}
    (hr : exec (handle setup env) (program setup command) s.world = (.ok (.ok reply), t)) :
    (command.isGated = true →
      Along (handle setup env) (Op.Still setup env) (program setup command) s.world →
        DnsSettled setup t) ∧
    (command = .stop ∨ command = .shutdown → attempted t.dnsTrace = false) := by
  have halong : Along (handle setup env) (fun _ w => w.ledger.Accounted) (program setup command)
      s.world :=
    call_ledger_kept (I := Ledger.Accounted) handle_accounted (reachable_accounted hs hup) _
  refine ⟨?_, ?_⟩
  · intro hgated still
    obtain ⟨u, hu, hconverged⟩ := (worldReading_sound setup env _).returns (still.and halong)
      (transition_wp hgated) hr rfl
    exact converge_settles codec hu.2 hu.1 hconverged
  · intro hstops
    exact (worldReading_sound setup env _).returns halong (stopping_wp hstops) hr rfl

/-- Where nothing happens beside the manager, no runtime changes its state. -/
theorem still_of_quiet {setup : Setup Doc} {env : Env Doc} (quiet : ∀ tick, env.background tick = [])
    {β : Type} (op : Op Doc β) (w : World Doc) : Op.Still setup env op w := by
  have elapse : ∀ w : World Doc, (w.elapse env).running = w.running := by
    intro w
    simp only [World.elapse, quiet, List.foldl_nil]
    rfl
  cases op with
  | dnsConverge =>
    refine Eq.trans ?_ (elapse w).symm
    exact exec_same (h := dnsHandle env) (f := World.running)
      (fun op w => dnsHandle_same elapse (fun _ _ => rfl) (fun _ _ _ _ => rfl) op w) _
  | _ => trivial

theorem protected_start :
    ((manager (recordsSetup [firstRecord, protectedRecord]) forgetfulEnv [] none none).run
      (manager (recordsSetup [firstRecord, protectedRecord]) forgetfulEnv [] none none).init
      [.build]).any (fun s => s.up && match exec (handle (recordsSetup
        [firstRecord, protectedRecord]) forgetfulEnv) (program (recordsSetup
          [firstRecord, protectedRecord]) (.start plainSpec)) s.world with
        | (.ok (.ok .done), t) => decide (wanted (recordsSetup [firstRecord, protectedRecord])
            t.running = some (⟨["127.0.0.1"]⟩, Epoch.one))
        | _ => false) = true := by
  decide +kernel

/-- A first start that wants the override. -/
theorem protected_start_settled :
    ∃ s t, (manager (recordsSetup [firstRecord, protectedRecord]) forgetfulEnv [] none none).Reachable
        s ∧ s.up = true ∧
      exec (handle (recordsSetup [firstRecord, protectedRecord]) forgetfulEnv)
        (program (recordsSetup [firstRecord, protectedRecord]) (.start plainSpec)) s.world =
          (.ok (.ok .done), t) ∧
      wanted (recordsSetup [firstRecord, protectedRecord]) t.running =
        some (⟨["127.0.0.1"]⟩, Epoch.one) ∧
      DnsSettled (recordsSetup [firstRecord, protectedRecord]) t := by
  obtain ⟨s, hs, ho⟩ := (Option.any_eq_true _ _).1 protected_start
  obtain ⟨hup, ho⟩ := (Bool.and_eq_true _ _).mp ho
  have hreach := Machine.run_reachable .init hs
  split at ho
  · rename_i t hr
    have codec := recordsSetup_codec [firstRecord, protectedRecord] records_distinct
    exact ⟨s, t, hreach, hup, hr, of_decide_eq_true ho,
      (success_dns_settled _ _ _ _ _ codec hreach hup hr).1 rfl
        (along_of_forall (h := handle (recordsSetup [firstRecord, protectedRecord]) forgetfulEnv)
          (still_of_quiet fun _ => rfl) _)⟩
  · cases ho

end Chimera.Manager
