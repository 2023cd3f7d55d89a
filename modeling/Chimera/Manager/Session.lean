import Chimera.Manager.Books
import Chimera.Manager.Manager

/-! One manager while a transaction is under way: the transaction performs its
operations one by one, and between any two of them the runtimes report and the
forwarders publish, the forwarders of retired epochs included. Whatever the
order, no published status pairs a state with another epoch's revision. -/

namespace Chimera.Manager
open Chimera.Model Chimera.Lib.Program Chimera.Lib.Transition

variable {Doc : Type}

/-! ## Sessions -/

/-- What holds the control lock. -/
inductive Phase (Doc : Type) : Type 1
  | idle
  /-- A transaction with these operations before it. -/
  | within (rest : Control Doc Reply)
  /-- The process has crashed. -/
  | gone

structure Session (Doc : Type) : Type 1 where
  world : World Doc
  phase : Phase Doc

inductive Turn where
  | call (command : Command)
  /-- The transaction performs its next operation, or returns. -/
  | operation
  | background (now : Int) (b : Background)
  /-- A forwarder of this epoch, current or retired, delivers a status. -/
  | late (now : Int) (epoch : Epoch) (inst : InstanceStatus)

/-- What runs beside the manager takes turns of its own. -/
def Env.quiet (env : Env Doc) : Env Doc := { env with background := fun _ => [] }

/-- What is left of a transaction after an operation's answer. -/
def Session.resume {β : Type} (next : β → Control Doc Reply) :
    Except Abort β × World Doc → Session Doc
  | (.ok b, w) => ⟨w, .within (next b)⟩
  | (.error .crash, w) => ⟨w, .gone⟩
  | (.error (.panic _), w) => ⟨w, .idle⟩

def Session.operate (setup : Setup Doc) (env : Env Doc) (w : World Doc) :
    Control Doc Reply → Session Doc
  | .ret _ => ⟨w, .idle⟩
  | .call op next => Session.resume next (handle setup env.quiet op w)

def Session.step (setup : Setup Doc) (env : Env Doc) (s : Session Doc) :
    Turn → Option (Session Doc)
  | .call command => match s.phase with
    | .idle => some { s with phase := .within (program setup command) }
    | _ => none
  | .operation => match s.phase with
    | .within rest => some (Session.operate setup env s.world rest)
    | _ => none
  | .background now b => match s.phase with
    | .gone => none
    | _ => some { s with world := World.background now s.world b }
  | .late now epoch inst => match s.phase with
    | .gone => none
    | _ => some { s with world := { s.world with
        status := publishEpochStatus now epoch inst s.world.status } }

/-- A manager that was built over the world `w`. -/
def session (setup : Setup Doc) (env : Env Doc) (w : World Doc) (now : Int) (found : List Nat) :
    Machine (Session Doc) Turn where
  init := ⟨w.boot now found, .idle⟩
  step := Session.step setup env

/-- The epoch whose forwarder publishes in this turn. -/
def Turn.delivers (w : World Doc) : Turn → Option Epoch
  | .late _ epoch _ => some epoch
  | .background _ (.forward number) => w.forwarders.lookup number
  | _ => none

/-! ## Coherent statuses -/

/-- The epoch that a state carries; of a switch, its target. -/
def carriedEpoch : CoreState → Option Epoch
  | .stopped _ => none
  | .starting epoch | .running epoch _ | .restarting epoch _ | .stopping epoch => some epoch
  | .switching _ target => some target

/-- A state that carries an epoch stands beside that epoch's revision. -/
def Coherent (status : CoreStatus) : Prop :=
  ∀ epoch, carriedEpoch status.state = some epoch →
    status.revision.map ConfigRevision.epoch = some epoch

/-- `changed_at` moves only with the state. -/
def Stamped (before after : CoreStatus) : Prop :=
  after.changedAt ≠ before.changedAt → after.state ≠ before.state

section Publications

variable {now : Int} {status : CoreStatus} {state : CoreState} {epoch : Epoch}
  {plan : EpochPlan Doc}

theorem Coherent.initial (now : Int) : Coherent (CoreStatus.initialAt now) := nofun

theorem Stamped.refl (status : CoreStatus) : Stamped status status := fun h => absurd rfl h

/-- The rule by which every publication sets the time. -/
theorem Stamped.of_rule {before after : CoreStatus} (hstate : after.state = state)
    (htime : after.changedAt = if before.state ≠ state then now else before.changedAt) :
    Stamped before after := by
  intro hne heq
  rw [hstate] at heq
  rw [htime, if_neg (by simp [heq])] at hne
  exact hne rfl

theorem carriedEpoch_instance {inst : InstanceState} {e : Epoch}
    (h : carriedEpoch (instanceCoreState epoch inst) = some e) : e = epoch := by
  cases inst with
  | stopped reason => cases h
  | starting | running pid | restarting attempt | stopping =>
    cases h
    rfl

theorem publishState_coherent {plan : Option (EpochPlan Doc)}
    (h : ∀ e, carriedEpoch state = some e → plan.map (fun p => p.revision.epoch) = some e) :
    Coherent (publishState now state plan status) := by
  intro e he
  have hplan := h e he
  cases plan with
  | none => cases hplan
  | some p => exact hplan

theorem publishSnapshot_coherent {inst : Instance} {snapshot : InstanceStatus}
    (h : ∀ e, carriedEpoch state = some e → plan.revision.epoch = e) :
    Coherent (publishSnapshot now inst snapshot state plan status) := by
  intro e he
  exact congrArg some (h e he)

/-- A forwarder's event finds its own epoch, or changes nothing. -/
theorem publishEpochStatus_cases (now : Int) (epoch : Epoch) (inst : InstanceStatus)
    (status : CoreStatus) :
    publishEpochStatus now epoch inst status = status ∨
    (status.revision.map ConfigRevision.epoch = some epoch ∧
      publishEpochStatus now epoch inst status = { status with
        state := instanceCoreState epoch inst.state
        health := inst.health
        instanceId := inst.instanceId
        changedAt := if status.state ≠ instanceCoreState epoch inst.state then now
          else status.changedAt }) := by
  unfold publishEpochStatus applyEpochStatus
  split
  · exact .inl rfl
  · rename_i hepoch
    simp only
    split
    · exact .inl rfl
    · exact .inr ⟨not_not.1 hepoch, rfl⟩

theorem publishEpochStatus_other {inst : InstanceStatus}
    (h : status.revision.map ConfigRevision.epoch ≠ some epoch) :
    publishEpochStatus now epoch inst status = status := by
  simp [publishEpochStatus, applyEpochStatus, h]

theorem Coherent.forwarded (h : Coherent status) (now : Int) (epoch : Epoch)
    (inst : InstanceStatus) : Coherent (publishEpochStatus now epoch inst status) := by
  rcases publishEpochStatus_cases now epoch inst status with heq | ⟨hepoch, heq⟩
  · rw [heq]
    exact h
  · rw [heq]
    intro e he
    rw [carriedEpoch_instance he]
    exact hepoch

theorem publishEpochStatus_stamped (now : Int) (epoch : Epoch) (inst : InstanceStatus)
    (status : CoreStatus) : Stamped status (publishEpochStatus now epoch inst status) := by
  rcases publishEpochStatus_cases now epoch inst status with heq | ⟨-, heq⟩
  · rw [heq]
    exact .refl status
  · rw [heq]
    exact .of_rule rfl rfl

end Publications

/-! ## What the transactions publish -/

/-- The current instance runs its plan's epoch, which is `pin` where one is
given. -/
structure Books.Pinned (pin : Option Epoch) (a : Books Doc) : Prop where
  aligned : ∀ active, a.current = some active → active.inst.epoch = active.plan.revision.epoch
  pinned : ∀ epoch active, pin = some epoch → a.current = some active →
    active.plan.revision.epoch = epoch

/-- Publications carry their plan's epoch, and plans enter the slot with the
instance of their epoch; a manager is not built again. -/
def coherentOp : ∀ {β : Type}, Op Doc β → Books Doc → Prop
  | _, .publish state plan, _ =>
    ∀ e, carriedEpoch state = some e → plan.map (fun p => p.revision.epoch) = some e
  | _, .publishSnapshot _ _ state plan, _ =>
    ∀ e, carriedEpoch state = some e → plan.revision.epoch = e
  | _, .install inst plan _, _ => inst.epoch = plan.revision.epoch
  | _, .adopt plan, a => ∀ active, a.current = some active →
    plan.revision.epoch = active.plan.revision.epoch
  | _, .boot _, _ => False
  | _, _, _ => True

def Op.installs {β : Type} : Op Doc β → Bool
  | .install _ _ _ => true
  | _ => false

/-- Neither a publication nor a plan for the slot. -/
def Op.isFree {β : Type} : Op Doc β → Bool
  | .publish _ _ | .publishSnapshot _ _ _ _ | .install _ _ _ | .adopt _ | .boot _ => false
  | _ => true

def publicationReading : Reading (Op Doc) (Books Doc) where
  step := Books.step
  pre := coherentOp

section Pinned

variable {a a' : Books Doc} {pin : Option Epoch}

theorem Books.Pinned.same (h : a.Pinned pin) (hc : a'.current = a.current) : a'.Pinned pin where
  aligned := fun active ha => h.aligned active (hc ▸ ha)
  pinned := fun epoch active hp ha => h.pinned epoch active hp (hc ▸ ha)

theorem Books.Pinned.of_none (hc : a.current = none) : a.Pinned pin where
  aligned := fun active ha => by rw [hc] at ha; cases ha
  pinned := fun epoch active _ ha => by rw [hc] at ha; cases ha

theorem Books.Pinned.unpin (h : a.Pinned pin) : a.Pinned none where
  aligned := h.aligned
  pinned := fun _ _ hp => by cases hp

/-- A coherent operation keeps the slot aligned. -/
theorem Books.Pinned.step {β : Type} {op : Op Doc β} {b : β} (h : a.Pinned pin)
    (hop : coherentOp op a) (hi : op.installs = true → pin = none) (hs : Books.step op a b a') :
    a'.Pinned pin := by
  cases op with
  | install inst plan rollback =>
    cases hs
    refine ⟨?_, ?_⟩
    · intro active ha
      cases ha
      exact hop
    · intro epoch active hp _
      rw [hi rfl] at hp
      cases hp
  | adopt plan =>
    cases hs
    refine ⟨?_, ?_⟩
    · intro active ha
      obtain ⟨active₀, h₀, rfl⟩ := Option.map_eq_some_iff.1 ha
      exact (h.aligned active₀ h₀).trans (hop active₀ h₀).symm
    · intro epoch active hp ha
      obtain ⟨active₀, h₀, rfl⟩ := Option.map_eq_some_iff.1 ha
      exact (hop active₀ h₀).trans (h.pinned epoch active₀ hp h₀)
  | retainSource spec =>
    cases hs
    refine ⟨?_, ?_⟩
    · intro active ha
      obtain ⟨active₀, h₀, rfl⟩ := Option.map_eq_some_iff.1 ha
      exact h.aligned active₀ h₀
    · intro epoch active hp ha
      obtain ⟨active₀, h₀, rfl⟩ := Option.map_eq_some_iff.1 ha
      exact h.pinned epoch active₀ hp h₀
  | take =>
    obtain ⟨-, rfl⟩ := hs
    exact .of_none rfl
  | boot found => exact hop.elim
  | panic message => exact hs.elim
  | current | lastSpec | quarantine | nextEpoch =>
    obtain ⟨-, rfl⟩ := hs
    exact h.same rfl
  | launch site plan =>
    cases b with
    | ok inst =>
      obtain ⟨-, rfl⟩ := hs
      exact h.same rfl
    | error e =>
      cases hs
      exact h.same rfl
  | reap epoch | cleanupEpoch site epoch =>
    cases b with
    | ok outcome =>
      cases hs
      exact h.same rfl
    | error e =>
      cases hs
      exact h.same rfl
  | _ =>
    cases hs
    exact h.same rfl

theorem coherentOp_of_free {β : Type} {op : Op Doc β} (h : op.isFree = true) (a : Books Doc) :
    coherentOp op a := by
  cases op with
  | publish _ _ | publishSnapshot _ _ _ _ | install _ _ _ | adopt _ | boot _ => cases h
  | _ => trivial

theorem installs_of_free {β : Type} {op : Op Doc β} (h : op.isFree = true) :
    op.installs = true → pin = none := by
  cases op with
  | install _ _ _ => cases h
  | _ => exact nofun

end Pinned

/-! ## One specification for each transaction

`Yields pin P p`: performed where the slot is pinned, `p` performs coherent
operations only, leaves the slot pinned, and returns a value of `P`. -/

def Yields {α : Type} (pin : Option Epoch) (P : α → Prop) (p : Control Doc α) : Prop :=
  ∀ a : Books Doc, a.Pinned pin →
    p.wp publicationReading (fun r a' => a'.Pinned pin ∧ ∀ x, r = .ok x → P x) a

/-- A program of which nothing but its publications matters. -/
abbrev Publishes {α : Type} (pin : Option Epoch) (p : Control Doc α) : Prop :=
  Yields pin (fun _ => True) p

section Rules

variable {α β : Type} {pin : Option Epoch} {P P' : α → Prop} {Q : β → Prop} {p : Control Doc α}
  {f : α → Control Doc β}

theorem Yields.mono (h : Yields pin P p) (hP : ∀ x, P x → P' x) : Yields pin P' p := by
  intro a ha
  exact Prog.wp_mono (h a ha) fun r a' hr => ⟨hr.1, fun x hx => hP x (hr.2 x hx)⟩

theorem Yields.ret {r : Except Error α} (h : ∀ x, r = .ok x → P x) :
    Yields pin P (Prog.ret r : Control Doc α) :=
  fun _ ha => ⟨ha, h⟩

theorem Yields.pure {x : α} (h : P x) : Yields pin P (pure x : Control Doc α) := by
  refine Yields.ret ?_
  intro y hy
  cases hy
  exact h

theorem Yields.fail {e : Error} : Yields pin P (fail e : Control Doc α) := Yields.ret nofun

theorem Yields.bind (hp : Yields pin P p) (hf : ∀ x, P x → Yields pin Q (f x)) :
    Yields pin Q (p >>= f) := by
  intro a ha
  refine Prog.wp_seq (hp a ha) ?_ ?_
  · intro e a' he
    exact ⟨he.1, nofun⟩
  · intro x a' hx
    exact hf x (hx.2 x rfl) a' hx.1

theorem Yields.attempt (hp : Yields pin P p) :
    Yields pin (fun r => ∀ x, r = .ok x → P x) (p.attempt : Control Doc (Except Error α)) := by
  intro a ha
  rw [Prog.wp_attempt]
  refine Prog.wp_mono (hp a ha) ?_
  intro r a' hr
  refine ⟨hr.1, ?_⟩
  intro s hs
  cases hs
  exact hr.2

theorem Yields.perform {op : Op Doc α} (hop : ∀ a : Books Doc, a.Pinned pin → coherentOp op a)
    (hi : op.installs = true → pin = none)
    (hP : ∀ a b a', a.Pinned pin → Books.step op a b a' → P b) : Yields pin P (perform op) := by
  intro a ha
  refine (Prog.wp_perform _).2 ⟨hop a ha, ?_⟩
  intro b a' hs
  refine ⟨ha.step (hop a ha) hi hs, ?_⟩
  intro x hx
  cases hx
  exact hP a b a' ha hs

/-- A publication, or a plan for the slot. -/
theorem Publishes.perform {op : Op Doc α}
    (hop : ∀ a : Books Doc, a.Pinned pin → coherentOp op a)
    (hi : op.installs = true → pin = none) : Publishes pin (perform op) :=
  Yields.perform hop hi fun _ _ _ _ _ => trivial

theorem Publishes.free {op : Op Doc α} (h : op.isFree = true) :
    Publishes pin (Lib.Program.perform op) :=
  .perform (fun a _ => coherentOp_of_free h a) (installs_of_free h)

theorem Publishes.freeDemand {op : Op Doc (Except Error α)} (h : op.isFree = true) :
    Publishes pin (demand op) := by
  intro a ha
  refine (Prog.wp_demand _).2 ⟨coherentOp_of_free h a, ?_⟩
  intro r a' hs
  exact ⟨ha.step (coherentOp_of_free h a) (installs_of_free h) hs, fun _ _ => trivial⟩

/-- A free operation, whatever it answers. -/
theorem Yields.next {op : Op Doc α} (h : op.isFree = true) (hf : ∀ x, Yields pin Q (f x)) :
    Yields pin Q (Lib.Program.perform op >>= f) :=
  (Publishes.free h).bind fun x _ => hf x

theorem Yields.demanded {op : Op Doc (Except Error α)} (h : op.isFree = true)
    (hf : ∀ x, Yields pin Q (f x)) : Yields pin Q (demand op >>= f) :=
  (Publishes.freeDemand h).bind fun x _ => hf x

end Rules

/-! ### Pieces -/

section Pieces

variable {α : Type} {pin : Option Epoch} {P : α → Prop}

theorem expect_yields {message : String} : Yields pin P (expect message : Control Doc α) := by
  intro a ha
  refine Prog.wp_perform_bind trivial ?_
  intro b a' hs
  exact hs.elim

theorem publishTerminalError_publishes (error : Error) :
    Publishes pin (publishTerminalError error : Control Doc Unit) :=
  Publishes.perform (fun _ _ => nofun) nofun

theorem publishAndFail_yields {error : Error} :
    Yields pin P (publishAndFail error : Control Doc α) :=
  (publishTerminalError_publishes error).bind fun _ _ => .fail

theorem publishInstance_publishes {inst : Instance} {state : CoreState} {plan : EpochPlan Doc}
    (h : ∀ e, carriedEpoch state = some e → plan.revision.epoch = e) :
    Publishes pin (publishInstance inst state plan) := by
  refine Yields.next rfl fun snapshot => ?_
  refine Yields.bind (P := fun _ => True) ?_ fun _ _ => Publishes.perform (fun _ _ => h) nofun
  unfold announceConfig
  split
  · exact Publishes.free rfl
  · exact .pure trivial

theorem publishRunning_publishes {inst : Instance} {pid : Option Nat} {plan : EpochPlan Doc} :
    Publishes pin (publishRunning inst pid plan) := by
  refine publishInstance_publishes ?_
  intro e he
  cases he
  rfl

theorem current_yields : Yields pin
    (fun current : Option (Active Doc) => ∀ active, current = some active →
      active.inst.epoch = active.plan.revision.epoch) (perform .current) := by
  refine Yields.perform (fun _ _ => trivial) nofun ?_
  intro a b a' ha hs
  obtain ⟨rfl, -⟩ := hs
  exact ha.aligned

theorem take_yields : Yields pin
    (fun current : Option (Active Doc) => ∀ active, current = some active →
      active.inst.epoch = active.plan.revision.epoch) (perform .take) := by
  refine Yields.perform (fun _ _ => trivial) nofun ?_
  intro a b a' ha hs
  obtain ⟨rfl, -⟩ := hs
  exact ha.aligned

theorem republishRetained_publishes : Publishes pin (republishRetained : Control Doc Unit) := by
  refine current_yields.bind fun current hcurrent => ?_
  split
  · exact .pure trivial
  · rename_i active
    refine Yields.next rfl fun status => ?_
    refine publishInstance_publishes ?_
    intro e he
    rw [carriedEpoch_instance he, hcurrent active rfl]

theorem quarantineError_publishes {error : Error} {list : List QuarantinedEpoch} :
    Yields pin P (match quarantineError list with
      | some quarantine => do
        publishTerminalError quarantine
        fail error
      | none => expect "quarantine was just inserted" : Control Doc α) := by
  split
  · exact (publishTerminalError_publishes _).bind fun _ _ => .fail
  · exact expect_yields

theorem latchQuarantine_yields {epoch : Epoch} {error : Error} :
    Yields pin P (latchQuarantine epoch error : Control Doc α) := by
  refine Yields.next rfl fun _ => ?_
  exact Yields.next rfl fun list => quarantineError_publishes

theorem rejectQuarantine_publishes : Publishes pin (rejectQuarantine : Control Doc Unit) := by
  refine Yields.next rfl fun list => ?_
  split
  · exact .fail
  · exact .pure trivial

theorem dropStagedFile_publishes (staged : Staged) :
    Publishes pin (dropStagedFile staged : Control Doc Unit) :=
  Yields.next rfl fun _ => .pure trivial

theorem removeBackupQuietly_publishes (saved : Backup) :
    Publishes pin (removeBackupQuietly saved : Control Doc Unit) :=
  Yields.next rfl fun _ => .pure trivial

theorem cleanupQuietly_publishes (epoch : Epoch) :
    Publishes pin (cleanupQuietly epoch : Control Doc Unit) :=
  Yields.next rfl fun _ => .pure trivial

theorem restoreDnsQuietly_publishes : Publishes pin (restoreDnsQuietly : Control Doc Unit) :=
  Yields.next rfl fun _ => .pure trivial

theorem rejectLaunch_yields {epoch : Epoch} {error : Error} :
    Yields pin P (rejectLaunch epoch error : Control Doc α) :=
  (cleanupQuietly_publishes epoch).bind fun _ _ => publishAndFail_yields

theorem abandonCandidate_yields {epoch : Epoch} {error : Error} :
    Yields pin P (abandonCandidate epoch error : Control Doc α) :=
  (cleanupQuietly_publishes epoch).bind fun _ _ =>
    republishRetained_publishes.bind fun _ _ => .fail

theorem latchOrFail_yields {unconfirmed : Bool} {epoch : Epoch} {error : Error}
    {q : Control Doc α} (hq : Yields pin P q) :
    Yields pin P (if unconfirmed then latchQuarantine epoch error else q) := by
  split
  · exact latchQuarantine_yields
  · exact hq

theorem checkStaged_publishes (setup : Setup Doc) (spec : InstanceSpec) (staged : Staged) :
    Publishes pin (checkStaged setup spec staged) := by
  refine Yields.next rfl fun r => ?_
  split
  · exact .pure trivial
  · exact (dropStagedFile_publishes staged).bind fun _ _ => .fail

theorem orDrop_yields {staged : Staged} {p : Control Doc α} (hp : Yields pin P p) :
    Yields pin P (orDrop staged p) := by
  refine hp.attempt.bind fun r hr => ?_
  split
  · exact .pure (hr _ rfl)
  · exact (dropStagedFile_publishes staged).bind fun _ _ => .fail

/-- A pure answer of the setup. -/
theorem ret_publishes (r : Except Error α) : Publishes pin (Prog.ret r : Control Doc α) :=
  Yields.ret fun _ _ => trivial

end Pieces

end Chimera.Manager
