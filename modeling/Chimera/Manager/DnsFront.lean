import Chimera.Manager.DnsSettled
import Chimera.Manager.Revisions
import Chimera.Manager.Steady

/-! The current runtime and what the host has for it, and what every operation does
to the two, given its answer. Under the conditions below the controller does what
it is asked to, so that the last action on the host is known after each of them. -/

namespace Chimera.Manager
open Chimera.Model Chimera.Lib.Program Chimera.Lib.Transition

variable {Doc : Type}

/-- The override of the last successful action, in this manager's history. -/
def held : List DnsEvent → Option DnsIntent
  | [] => none
  | .built :: _ | .restored _ :: _ => none
  | .applied _ :: .applying intent _ :: _ => some intent
  | _ :: rest => held rest

/-- Host DNS is what the plan of a live runtime wants. -/
def DnsFits (setup : Setup Doc) (w : World Doc) : Prop :=
  ∀ plan epoch, w.running = some (plan, epoch) → held w.dnsTrace = wantedBy setup plan

/-! ## Runtimes that have ended -/

section Ended

variable {setup : Setup Doc} {env : Env Doc} {w t u : World Doc}

/-- What has ended stays so. -/
def Ends (w t : World Doc) : Prop :=
  ∀ n, (w.instances n).state.isTerminal = true → (t.instances n).state.isTerminal = true

theorem Ends.of_eq (h : t.instances = w.instances) : Ends w t := by
  intro n hn
  rw [h]
  exact hn

theorem Ends.trans (h : Ends w u) (h' : Ends u t) : Ends w t := fun n hn => h' n (h n hn)

theorem World.background_ends (now : Int) (w : World Doc) (b : Background) :
    Ends w (World.background now w b) := by
  cases b with
  | report number status =>
    simp only [World.background]
    split
    · exact .of_eq rfl
    · rename_i halive
      intro n hn
      by_cases hnumber : n = number
      · subst hnumber
        exact absurd hn halive
      · simpa [Function.update_of_ne hnumber] using hn
  | forward number =>
    simp only [World.background, World.forward]
    split
    · exact .of_eq rfl
    · split
      · exact .of_eq rfl
      · exact .of_eq rfl
  | artifact entry node =>
    simp only [World.background]
    split
    · exact .of_eq rfl
    · exact .of_eq rfl

theorem World.elapse_ends (env : Env Doc) (w : World Doc) : Ends w (w.elapse env) := by
  have fold : ∀ (l : List Background) (now : Int) (w : World Doc),
      Ends w (l.foldl (World.background now) w) := by
    intro l
    induction l with
    | nil => exact fun _ _ => .of_eq rfl
    | cons b rest ih => exact fun now w => (World.background_ends now w b).trans (ih now _)
  exact fold _ _ w

theorem outside_ends {β : Type} {call : Nat → World Doc → β × World Doc}
    (hcall : (call w.tick (w.elapse env)).2.instances = (w.elapse env).instances) :
    Ends w (outside env call w).2 := by
  simp only [outside]
  split
  · exact .of_eq rfl
  · exact (World.elapse_ends env w).trans (.of_eq hcall)

theorem exec_store_ends {ε α : Type} (p : Prog ε StorePrim α) :
    Ends w (exec (storeHandle env) p w).2 := by
  refine exec_invariant (h := storeHandle env) (I := fun t => Ends w t) ?_ p (.of_eq rfl)
  intro β op u hu
  refine hu.trans ?_
  have hdir {β : Type} (act : Directory → Except String β × Directory) :
      Ends u (onDirectory env act u).2 := by
    refine outside_ends ?_
    split
    · rfl
    · rfl
  cases op with
  | temp => exact .of_eq rfl
  | write a bytes =>
    refine outside_ends ?_
    split
    · rfl
    · rfl
  | stat a | createNew a | setPermissions a | sync a | remove a | read a => exact hdir _
  | link source target | rename source target => exact hdir _
  | readDir | syncDir => exact hdir _

theorem exec_dns_ends {ε α : Type} (p : Prog ε (DnsPrim Doc) α) :
    Ends w (exec (dnsHandle env) p w).2 := by
  refine exec_invariant (h := dnsHandle env) (I := fun t => Ends w t) ?_ p (.of_eq rfl)
  intro β op u hu
  refine hu.trans ?_
  have out : ∀ {β : Type} {call : Nat → World Doc → β × World Doc},
      (∀ tick v, (call tick v).2.instances = v.instances) → Ends u (outside env call u).2 :=
    fun hcall => outside_ends (hcall _ _)
  cases op <;> simp only [dnsHandle, faulty] <;>
    first
      | exact .of_eq rfl
      | (refine out fun tick v => ?_; (repeat' split) <;> rfl)

theorem running_of_ends {x : EpochPlan Doc × Epoch} (hcurrent : t.ctrl.current = w.ctrl.current)
    (h : Ends w t) (ht : t.running = some x) : w.running = some x := by
  unfold World.running at ht ⊢
  rw [hcurrent] at ht
  cases hc : w.ctrl.current with
  | none =>
    rw [hc] at ht
    cases ht
  | some active =>
    rw [hc] at ht
    simp only at ht ⊢
    split at ht
    · cases ht
    · rename_i halive
      rw [if_neg fun hended => halive (h _ hended)]
      exact ht

theorem World.elapse_ctrl_current : (w.elapse env).ctrl.current = w.ctrl.current := by
  rw [World.elapse_ctrl]

theorem running_none_of_ends (hcurrent : t.ctrl.current = w.ctrl.current) (h : Ends w t)
    (hw : w.running = none) : t.running = none := by
  cases ht : t.running with
  | none => rfl
  | some x =>
    rw [running_of_ends hcurrent h ht] at hw
    cases hw

def Op.launches {β : Type} : Op Doc β → Bool
  | .launch _ _ => true
  | _ => false

theorem handle_ends (setup : Setup Doc) (env : Env Doc) {β : Type} {op : Op Doc β} {w : World Doc}
    (hop : op.launches = false) :
    Ends w (handle setup env op w).2 := by
  have out {β : Type} {call : Nat → World Doc → β × World Doc}
      (hcall : ∀ tick v, (call tick v).2.instances = v.instances) :
      Ends w (outside env call w).2 := outside_ends (hcall _ _)
  cases op with
  | stage _ _ | dropStaged _ | commitNew _ _ | commitReplace _ _ | backup _ _ | restore _
  | removeBackup _ | cleanupArtifacts _ | artifactEpochs | pidExists _ => exact exec_store_ends _
  | dnsActivate _ | dnsDeactivate _ | dnsConverge | dnsRestore | reconcileOrphan =>
    exact exec_dns_ends _
  | cleanupEpoch site epoch =>
    refine afterwards_keeps (I := fun t => Ends w t) (out fun _ _ => rfl)
      fun u hu => afterwards_keeps (I := fun t => Ends w t) ?_ fun v hv => hv.trans (.of_eq rfl)
    exact hu.trans (exec_store_ends _)
  | nextEpoch =>
    simp only [handle]
    split
    · exact .of_eq rfl
    · exact .of_eq rfl
  | reap epoch =>
    refine out fun tick v => ?_
    split
    · rfl
    · rfl
  | launch site plan => cases hop
  | publish _ _ | publishSnapshot _ _ _ _ | instanceStatus _ | abortForwarder _ | pid _
  | waitReady _ | stop _ _ | reconciled | checkConfig _ | load _ | validateLaunchable _
  | resolveFeatures _ | cleanupController _ | reapOrphan _ => exact out fun _ _ => rfl
  | panic _ | current | lastSpec | quarantine | take | install _ _ _ | adopt _ | retainSource _
  | retainSpec _ | record _ _ | proveDeath _ | release _ | commitConfig _ | boot _ =>
    exact .of_eq rfl

end Ended

/-! ## The conditions -/

/-- The controller does what it is asked to. -/
def DnsPrim.Answered (env : Env Doc) {β : Type} : DnsPrim Doc β → World Doc → Prop
  | .applied intent epoch, w => (env.dnsApply w.tick intent epoch).isOk = true
  | .restore entry, w => (env.dnsRestore w.tick entry).isOk = true
  | _, _ => True

/-- No operation on the record's files fails either. -/
def DnsPrim.Recorded (env : Env Doc) {β : Type} : DnsPrim Doc β → World Doc → Prop
  | .createStaging, w | .writeStaging _, w | .syncStaging, w | .recordExists, w
  | .renameStaging, w | .linkStaging, w | .removeStaging, w | .removeRecord, w =>
    env.fault w.tick = none
  | _, _ => True

def Op.Answered (setup : Setup Doc) (env : Env Doc) {β : Type} : Op Doc β → World Doc → Prop
  | .dnsActivate plan, w =>
    Along (dnsHandle env) (DnsPrim.Answered env) (dnsActivateForPlan setup plan) w
  | .dnsDeactivate plan, w =>
    Along (dnsHandle env) (DnsPrim.Answered env) (dnsDeactivateForPlan setup plan) w
  | .dnsConverge, w => Along (dnsHandle env) (DnsPrim.Answered env) (Manager.dnsConverge setup) w
  | .dnsRestore, w => Along (dnsHandle env) (DnsPrim.Answered env) (Manager.dnsRestore setup) w
  | _, _ => True

/-- A graceful bootstrap comes up, unless its plan wants no override or the one of
the current plan; and a convergence that has something to change can write its
record. -/
def Op.Compensated (setup : Setup Doc) (env : Env Doc) {β : Type} : Op Doc β → World Doc → Prop
  | .launch .bootstrap plan, w =>
    ((env.launch w.tick).isOk = true ∧ (env.waitReady (w.tick + 1)).isOk = true) ∨
      ∀ intent, wantedBy setup plan = some intent →
        ∀ active, w.ctrl.current = some active → wantedBy setup active.plan = some intent
  | .dnsConverge, w => DnsFits setup w ∨
    Along (dnsHandle env) (DnsPrim.Recorded env) (Manager.dnsConverge setup) w
  | _, _ => True

/-! ## The reading -/

/-- The current runtime, and what the host has for it. -/
structure Front (Doc : Type) where
  current : Option (Active Doc)
  held : Option DnsIntent
  /-- There is no live runtime. -/
  ended : Bool
  tick : Nat

def World.front (w : World Doc) : Front Doc :=
  ⟨w.ctrl.current, held w.dnsTrace, w.running.isNone, w.tick⟩

namespace Front

/-- Neither the current runtime nor the host changes; the runtime may end. -/
structure Same (a a' : Front Doc) : Prop where
  current : a'.current = a.current
  held : a'.held = a.held
  ended : a.ended = true → a'.ended = true

/-- The host has what the current plan wants. -/
def Fits (setup : Setup Doc) (a : Front Doc) : Prop :=
  ∀ active, a.current = some active → a.held = wantedBy setup active.plan

def Calm (setup : Setup Doc) (a : Front Doc) : Prop := a.Fits setup ∨ a.ended = true

def step (setup : Setup Doc) (env : Env Doc) :
    ∀ {β : Type}, Op Doc β → Front Doc → β → Front Doc → Prop
  | _, .current, a, b, a' => b = a.current ∧ a' = a
  | _, .take, a, b, a' => b = a.current ∧ a'.current = none ∧ a'.held = a.held
  | _, .install inst plan _, a, _, a' => a'.current = some ⟨inst, plan⟩ ∧ a'.held = a.held
  | _, .adopt plan, a, _, a' =>
    a'.current = (a.current.map fun active => { active with plan }) ∧ a'.held = a.held
  | _, .retainSource spec, a, _, a' => a'.held = a.held ∧
    a'.current = a.current.map fun active =>
      { active with plan := { active.plan with sourceSpec := spec } }
  | _, .instanceStatus inst, a, b, a' => a.Same a' ∧
    ∀ active, a.current = some active → active.inst = inst → a'.ended = b.state.isTerminal
  | _, .launch site plan, a, b, a' => a'.current = a.current ∧ a'.held = a.held ∧
    a'.tick = a.tick + 1 ∧ (site = .bootstrap →
      (b.isOk = true ∧ (env.waitReady (a.tick + 1)).isOk = true) ∨
        ∀ intent, wantedBy setup plan = some intent →
          ∀ active, a.current = some active → wantedBy setup active.plan = some intent)
  | _, .waitReady _, a, b, a' => a.Same a' ∧ b = env.waitReady a.tick
  | _, .dnsActivate plan, a, b, a' => a'.current = a.current ∧
    ((wantedBy setup plan = none ∧ a'.held = a.held) ∨
      ∃ intent, wantedBy setup plan = some intent ∧ (b.isOk = true → a'.held = some intent))
  | _, .dnsDeactivate plan, a, b, a' => b.isOk = true ∧ a'.current = a.current ∧
    a'.held = if (wantedBy setup plan).isSome then a.held else none
  | _, .dnsConverge, a, _, a' => a'.current = a.current ∧ a'.Calm setup
  | _, .dnsRestore, a, _, a' => a'.current = a.current
  | _, .reconcileOrphan, _, _, _ | _, .boot _, _, _, _ => True
  | _, _, a, _, a' => a.Same a'

end Front

/-! ## What the functions leave on the host -/

section Functions

variable {setup : Setup Doc} {F : Faults} {a a' : Ledger} {ok : Bool}

theorem held_of_attempted {calls : List DnsEvent} (h : attempted calls = false) :
    held calls = none := by
  induction calls with
  | nil => rfl
  | cons e rest ih =>
    cases e with
    | built | restored _ => rfl
    | applying _ _ => cases h
    | published _ => exact ih h
    | applied record =>
      cases rest with
      | nil => rfl
      | cons e' rest' =>
        cases e' with
        | applying _ _ => cases h
        | built | restored _ => rfl
        | published _ | applied _ => exact ih h

/-- What is in memory can be undone. -/
def Ledger.Registered (setup : Setup Doc) (a : Ledger) : Prop :=
  a.memory.isSome = true → setup.dns.isSome = true

theorem Restored.registered (h : Restored setup F a ok a') (ha : a.Registered setup) :
    a'.Registered setup := by
  cases h with
  | nothing h => exact ha
  | unregistered h none => exact ha
  | failed h registered _ _ => exact fun _ => registered
  | done h registered _ _ => exact fun _ => registered

theorem Written.held {entry : DnsOverrideRecord}
    (h : Written setup F (some entry) entry a ok a') :
    Manager.held a'.host.calls = Manager.held a.host.calls := by
  cases h with
  | visible encoded => rfl
  | refused failed => rfl
  | torn linked failed => rfl
  | linked absent encoded failed => rfl

/-- With a controller that does what it is asked to, a restoration succeeds. -/
theorem Restored.held (h : Restored setup F a ok a') (answered : ¬F.controller)
    (ha : a.Accounted) (hr : a.Registered setup) :
    ok = true ∧ Manager.held a'.host.calls = none := by
  cases h with
  | nothing h => exact ⟨rfl, held_of_attempted (ha h)⟩
  | unregistered h none =>
    have hdns := hr (by rw [h]; rfl)
    rw [none] at hdns
    cases hdns
  | failed h registered marked refused => exact absurd refused answered
  | done h registered marked cleared =>
    cases cleared with
    | done => exact ⟨rfl, rfl⟩
    | failed h => exact ⟨rfl, rfl⟩

/-- The override is in place, or its record could not be written before it. -/
theorem Overridden.held {intent : DnsIntent} {epoch : Epoch}
    (h : Overridden setup F intent epoch a ok a') (answered : ¬F.controller) :
    Manager.held a'.host.calls = some intent ∨ (ok = false ∧
      Manager.held a'.host.calls = Manager.held a.host.calls ∧
      ∃ pre, Written setup F (some pre) pre a false a') := by
  cases h with
  | unrecorded hpre h => exact .inr ⟨rfl, h.held, _, h⟩
  | refused hpre h failed => exact absurd failed answered
  | moved hpre h _ _ => exact .inl rfl
  | applied hpre h same h' => exact .inl h'.held

end Functions

section Sound

variable {setup : Setup Doc} {env : Env Doc} {w t : World Doc}

def answeredFaults : Faults := ⟨True, True, fun _ => True, False⟩

def recordedFaults : Faults := ⟨False, False, fun _ => False, False⟩

theorem DnsPrim.Answered.within {p : Prog Error (DnsPrim Doc) Unit}
    (h : Along (dnsHandle env) (DnsPrim.Answered env) p w) :
    Along (dnsHandle env) (fun op w => op.Within env answeredFaults w) p w := by
  refine h.mono ?_
  intro β op w hw
  cases op with
  | applied intent epoch | restore entry =>
    intro hfailed
    rw [show _ = true from hw] at hfailed
    cases hfailed
  | createStaging | linkStaging | removeStaging | removeRecord => exact fun _ => trivial
  | writeStaging _ | syncStaging | recordExists | renameStaging =>
    exact fun _ => ⟨trivial, fun _ => trivial⟩
  | record | setRecord _ | running | readRecord | syncDir | applying _ _ => trivial

theorem DnsPrim.Recorded.within {p : Prog Error (DnsPrim Doc) Unit}
    (h : Along (dnsHandle env) (DnsPrim.Recorded env) p w)
    (h' : Along (dnsHandle env) (DnsPrim.Answered env) p w) :
    Along (dnsHandle env) (fun op w => op.Within env recordedFaults w) p w := by
  refine (h.and h').mono ?_
  intro β op w hw
  cases op with
  | applied intent epoch | restore entry =>
    intro hfailed
    rw [show _ = true from hw.2] at hfailed
    cases hfailed
  | createStaging | writeStaging _ | syncStaging | recordExists | renameStaging | linkStaging
  | removeStaging | removeRecord =>
    intro hfault
    rw [show env.fault w.tick = none from hw.1] at hfault
    cases hfault
  | record | setRecord _ | running | readRecord | syncDir | applying _ _ => trivial

/-- The convergence looks at the runtime before anything else. -/
theorem dnsConverge_ends {r : Except Error Unit} (hdns : setup.dns.isSome = true)
    (h : handle setup env .dnsConverge w = (.ok r, t)) : Ends (w.elapse env) t := by
  obtain ⟨desired, hdesired⟩ := Option.isSome_iff_exists.1 hdns
  simp only [handle, dnsConverge, hdesired, exec_perform_bind] at h
  rcases hrun : dnsHandle env .running w with ⟨x | live, u⟩
  · rw [hrun] at h
    cases h
  rw [hrun] at h
  simp only [dnsHandle] at hrun
  cases outside_ok hrun
  rw [← show _ = t from congrArg Prod.snd h]
  exact exec_dns_ends _

theorem running_eq_some {plan : EpochPlan Doc} {epoch : Epoch}
    (h : w.running = some (plan, epoch)) :
    ∃ active, w.ctrl.current = some active ∧ active.plan = plan := by
  unfold World.running at h
  cases hc : w.ctrl.current with
  | none =>
    rw [hc] at h
    cases h
  | some active =>
    rw [hc] at h
    simp only at h
    split at h
    · cases h
    · cases h
      exact ⟨active, rfl, rfl⟩

theorem handle_current {β : Type} {op : Op Doc β} {b : β}
    (h : handle setup env op w = (.ok b, t)) (hstep : Books.step op w.books b t.books →
      t.books.current = w.books.current) : t.ctrl.current = w.ctrl.current :=
  hstep (books_step setup env op w t b h)

theorem Written.not_refused {entry : DnsOverrideRecord} {a a' : Ledger}
    (encodes : ∀ record, (setup.encodeRecord record).isOk = true)
    (h : Written setup recordedFaults (some entry) entry a false a') : False := by
  cases h with
  | refused failed => exact failed (encodes entry)
  | torn linked failed => exact failed.1
  | linked absent encoded failed => exact failed

theorem dnsConverge_calm {r : Except Error Unit}
    (encodes : ∀ record, (setup.encodeRecord record).isOk = true)
    (answered : Op.Answered setup env .dnsConverge w)
    (compensated : Op.Compensated setup env .dnsConverge w)
    (hw : w.ledger.Accounted) (hr : w.ledger.Registered setup)
    (h : handle setup env .dnsConverge w = (.ok r, t)) : t.front.Calm setup := by
  have hcurrent : t.ctrl.current = w.ctrl.current :=
    handle_current h fun hstep => by rw [hstep]
  have hreached := dnsConverge_run (DnsPrim.Answered.within answered) h
  have fits {plan : EpochPlan Doc} {epoch : Epoch}
      (hlive : (w.elapse env).running = some (plan, epoch))
      (hheld : held t.dnsTrace = wantedBy setup plan) : t.front.Calm setup := by
    obtain ⟨active, hactive, rfl⟩ := running_eq_some hlive
    refine .inl ?_
    intro other hother
    rw [World.elapse_ctrl] at hactive
    rw [show t.front.current = some active from hcurrent.trans hactive] at hother
    cases hother
    exact hheld
  by_cases hdns : setup.dns.isSome = true
  · cases hlive : (w.elapse env).running with
    | none =>
      have hended := running_none_of_ends (hcurrent.trans World.elapse_ctrl_current.symm)
        (dnsConverge_ends hdns h) hlive
      exact .inr (by simp [World.front, hended])
    | some live =>
      obtain ⟨plan, epoch⟩ := live
      rw [hlive] at hreached
      cases hwanted : wantedBy setup plan with
      | none =>
        simp only [wanted, Option.bind_some, hwanted, Option.map_none] at hreached
        exact fits hlive ((Restored.held hreached id hw hr).2.trans hwanted.symm)
      | some intent =>
        simp only [wanted, Option.bind_some, hwanted, Option.map_some] at hreached
        rcases Overridden.held hreached id with hheld | ⟨-, hheld, -⟩
        · exact fits hlive (hheld.trans hwanted.symm)
        rcases compensated with hfits | hrecorded
        · -- the record could not be written, and nothing had to change
          have hbefore : w.running = some (plan, epoch) :=
            running_of_ends World.elapse_ctrl_current (World.elapse_ends env w) hlive
          exact fits hlive (hheld.trans (hfits plan epoch hbefore))
        · have hreached' := dnsConverge_run (DnsPrim.Recorded.within hrecorded answered) h
          rw [hlive] at hreached'
          simp only [wanted, Option.bind_some, hwanted, Option.map_some] at hreached'
          rcases Overridden.held hreached' id with hheld' | ⟨-, -, pre, hwritten⟩
          · exact fits hlive (hheld'.trans hwanted.symm)
          · exact (hwritten.not_refused encodes).elim
  · have hnone : setup.dns = none := by simpa using hdns
    have hwanted : ∀ plan, wantedBy setup plan = none := fun plan => by simp [wantedBy, hnone]
    have hgoal : wanted setup (w.elapse env).running = none := by simp [wanted, hwanted]
    rw [hgoal] at hreached
    exact .inl fun active _ => (Restored.held hreached id hw hr).2.trans (hwanted _).symm

theorem handle_registered {β : Type} {op : Op Doc β} {b : β} (hw : w.ledger.Registered setup)
    (h : handle setup env op w = (.ok b, t)) : t.ledger.Registered setup := by
  have same (hfree : op.dnsFree = true) : t.ledger.Registered setup := by
    have ht : t = (handle setup env op w).2 := by rw [h]
    rw [ht, handle_ledger setup env w hfree]
    exact hw
  have injected {plan : EpochPlan Doc} {intent : DnsIntent} (hplan : wantedBy setup plan = some intent) :
      setup.dns.isSome = true := by
    obtain ⟨desired, hdns, -⟩ := Option.bind_eq_some_iff.1 hplan
    rw [hdns]
    rfl
  cases op with
  | dnsActivate plan =>
    rcases dnsActivate_run within_any h with ⟨-, ht⟩ | ⟨intent, hplan, -⟩
    · rw [ht]
      exact hw
    · exact fun _ => injected hplan
  | dnsDeactivate plan =>
    rcases dnsDeactivate_run within_any h with ⟨-, -, ht⟩ | ⟨-, hrestored⟩
    · rw [ht]
      exact hw
    · exact hrestored.registered hw
  | dnsConverge =>
    have hreached := dnsConverge_run within_any h
    cases hgoal : wanted setup (w.elapse env).running with
    | none =>
      rw [hgoal] at hreached
      exact Restored.registered hreached hw
    | some goal =>
      obtain ⟨live, -, hlive⟩ := Option.bind_eq_some_iff.1 hgoal
      obtain ⟨intent, hplan, -⟩ := Option.map_eq_some_iff.1 hlive
      exact fun _ => injected hplan
  | dnsRestore => exact (dnsRestore_run within_any h).registered hw
  | reconcileOrphan =>
    obtain ⟨hmem, -⟩ := exec_outcome within_any reconcileOrphanRecord_outcome h
    intro hsome
    rw [hmem] at hsome
    exact hw hsome
  | boot found =>
    cases h
    exact nofun
  | _ => exact same rfl

theorem handle_same {β : Type} {op : Op Doc β} {b : β} (hop : op.steady = true)
    (h : handle setup env op w = (.ok b, t)) : w.front.Same t.front := by
  have hcurrent : t.ctrl.current = w.ctrl.current := by
    have hbooks := books_step setup env op w t b h
    cases op with
    | current | lastSpec | quarantine | nextEpoch => exact congrArg Books.current hbooks.2
    | cleanupEpoch site epoch | reap epoch =>
      cases b with
      | ok _ => exact congrArg Books.current hbooks
      | error e => exact congrArg Books.current hbooks
    | take | install _ _ _ | adopt _ | retainSource _ | launch _ _ | dnsActivate _
    | dnsDeactivate _ | dnsConverge | dnsRestore | reconcileOrphan | boot _ => cases hop
    | panic _ => cases h
    | _ => exact congrArg Books.current hbooks
  have hlaunches : op.launches = false := by
    cases op <;> first | rfl | cases hop
  have hfree : op.dnsFree = true := by
    cases op <;> first | rfl | cases hop
  have ht : t = (handle setup env op w).2 := by rw [h]
  refine ⟨hcurrent, ?_, ?_⟩
  · have hledger := handle_ledger setup env w hfree
    rw [← ht] at hledger
    exact congrArg (fun a : Ledger => held a.host.calls) hledger
  · intro hended
    have hends : Ends w t := by
      rw [ht]
      exact handle_ends setup env hlaunches
    have hrunning := running_none_of_ends hcurrent hends (Option.isNone_iff_eq_none.1 hended)
    simp [World.front, hrunning]

/-- An operation under the conditions, over a record that accounts for the
host. -/
def Op.Favoured (setup : Setup Doc) (env : Env Doc) {β : Type} (op : Op Doc β) (w : World Doc) :
    Prop :=
  (op.Answered setup env w ∧ op.Compensated setup env w) ∧
    w.ledger.Accounted ∧ w.ledger.Registered setup

def frontReading (setup : Setup Doc) (env : Env Doc) : Reading (Op Doc) (Front Doc) where
  step := Front.step setup env
  pre := fun _ _ => True

theorem launch_front {site : Site} {plan : EpochPlan Doc} {r : Except Error Instance}
    (compensated : Op.Compensated setup env (.launch site plan) w)
    (h : handle setup env (.launch site plan) w = (.ok r, t)) :
    Front.step setup env (.launch site plan) w.front r t.front := by
  have ht : t = (handle setup env (.launch site plan) w).2 := by rw [h]
  have hbooks := books_step setup env (.launch site plan) w t r h
  have hledger : t.ledger = w.ledger := by
    rw [ht]
    exact handle_ledger setup env w rfl
  simp only [handle] at h
  have ha := outside_ok h
  refine ⟨?_, congrArg (fun a : Ledger => held a.host.calls) hledger, ?_, ?_⟩
  · cases r with
    | ok inst => exact congrArg Books.current hbooks.2
    | error e => exact congrArg Books.current hbooks
  · split at ha <;> cases ha <;> rfl
  · intro hsite
    subst hsite
    rcases compensated with ⟨hlaunch, hready⟩ | hcompat
    · refine .inl ⟨?_, hready⟩
      split at ha
      · cases ha
        rfl
      · rename_i hfailed
        rw [hfailed] at hlaunch
        cases hlaunch
    · exact .inr hcompat

theorem frontReading_sound (encodes : ∀ record, (setup.encodeRecord record).isOk = true) :
    (frontReading setup env).Sound (handle setup env) (Op.Favoured setup env) World.front := by
  refine ⟨?_⟩
  intro β op w t b hG h
  obtain ⟨⟨answered, compensated⟩, hw, hr⟩ := hG
  have ht : t = (handle setup env op w).2 := by rw [h]
  have hbooks := books_step setup env op w t b h
  have heldSame (hfree : op.dnsFree = true) : t.front.held = w.front.held := by
    have hledger := handle_ledger setup env w hfree
    rw [← ht] at hledger
    exact congrArg (fun a : Ledger => held a.host.calls) hledger
  cases op with
  | current =>
    cases h
    exact ⟨rfl, rfl⟩
  | take => exact ⟨hbooks.1, congrArg Books.current hbooks.2, heldSame rfl⟩
  | install inst plan rollback => exact ⟨congrArg Books.current hbooks, heldSame rfl⟩
  | adopt plan => exact ⟨congrArg Books.current hbooks, heldSame rfl⟩
  | retainSource spec => exact ⟨heldSame rfl, congrArg Books.current hbooks⟩
  | instanceStatus inst =>
    refine ⟨handle_same rfl h, ?_⟩
    intro active hactive hinst
    obtain ⟨rfl, rfl⟩ := handle_instanceStatus h
    subst hinst
    have hcurrent : (w.elapse env).ctrl.current = some active := by
      rw [World.elapse_ctrl]
      exact hactive
    have hrunning := running_eq hcurrent
    simp only [World.front, ← Option.not_isSome, hrunning, Bool.not_not]
  | launch site plan => exact launch_front compensated h
  | waitReady inst =>
    refine ⟨handle_same rfl h, ?_⟩
    simp only [handle, ask] at h
    exact (congrArg Prod.fst (outside_ok h)).symm
  | dnsActivate plan =>
    refine ⟨congrArg Books.current hbooks, ?_⟩
    rcases dnsActivate_run (DnsPrim.Answered.within answered) h with
      ⟨hnone, hledger⟩ | ⟨intent, hplan, hover⟩
    · exact .inl ⟨hnone, congrArg (fun a : Ledger => held a.host.calls) hledger⟩
    · refine .inr ⟨intent, hplan, ?_⟩
      intro hok
      rcases hover.held id with hheld | ⟨hfailed, -⟩
      · exact hheld
      · rw [hok] at hfailed
        cases hfailed
  | dnsDeactivate plan =>
    rcases dnsDeactivate_run (DnsPrim.Answered.within answered) h with
      ⟨hplan, hok, hledger⟩ | ⟨hplan, hrestored⟩
    · refine ⟨hok, congrArg Books.current hbooks, ?_⟩
      rw [if_pos hplan]
      exact congrArg (fun a : Ledger => held a.host.calls) hledger
    · obtain ⟨hok, hheld⟩ := hrestored.held id hw hr
      refine ⟨hok, congrArg Books.current hbooks, ?_⟩
      rw [hplan]
      exact hheld
  | dnsConverge =>
    exact ⟨congrArg Books.current hbooks, dnsConverge_calm encodes answered compensated hw hr h⟩
  | dnsRestore => exact congrArg Books.current hbooks
  | reconcileOrphan | boot _ => trivial
  | _ => exact handle_same rfl h

end Sound

end Chimera.Manager
