import Chimera.Control.Registry
import Chimera.Lib.Transition

/-! The control plane as a machine: the callers of `submit` and `shutdown`, the
bounded work queue between them and the executor, and the executor task itself.

Every label is one step of one party, so a run is an interleaving. Steps are cut
where another party can observe a difference: the latch is read and stored
apart from the admission, the executor reads the latch apart from its dequeue,
and it publishes an operation's state apart from closing its queue. The
registry lock makes an admission with its enqueue one step. -/

namespace Chimera.Control
open Chimera.Model Chimera.Lib.Transition

/-- `ControlOptions`, as far as the queue and the registry use them. -/
structure Config where
  queueCapacity : Nat
  registryCapacity : Nat
  defaultLocalIpc : LocalIpcSettings
  deriving Repr

/-- `live_registry_capacity`: the queue and the operation running outside it
always fit. -/
def liveRegistryCapacity (registryCapacity queueCapacity : Nat) : Nat :=
  max registryCapacity (queueCapacity + 1)

def Config.capacity (cfg : Config) : Nat :=
  liveRegistryCapacity cfg.registryCapacity cfg.queueCapacity

/-- `sequence` is not in the source; it remembers which registration queued
the work. -/
structure ExecutorWork where
  id : OperationId
  command : CoreCommand
  sequence : Nat
  deriving DecidableEq

/-- `state` is what the handle's receiver reads: every `send_replace` on the
operation's channel reaches it. -/
structure OperationHandle where
  id : OperationId
  state : OperationState
  newlyAdmitted : Bool
  sequence : Nat
  deriving DecidableEq

/-- Where one call of `CoreControl::submit` or `CoreControl::shutdown` is. -/
inductive Caller where
  /-- `submit`, before it loads the latch. -/
  | submitting (envelope : CoreCommandEnvelope)
  /-- `submit`, past the latch and before the admission. -/
  | admitting (envelope : CoreCommandEnvelope)
  /-- `submit` registered a `Shutdown` and has yet to store the latch. -/
  | latching (handle : OperationHandle)
  | submitted (result : Except CoreError OperationHandle)
  /-- `shutdown`, before it stores the latch. -/
  | closing
  /-- `shutdown`, awaiting `reserve`. -/
  | reserving
  /-- `shutdown`, holding a permit and before the admission. -/
  | permitted
  /-- `shutdown`, awaiting `until_closed` because the queue was closed. -/
  | awaitingExit
  /-- `shutdown`, awaiting its operation. -/
  | waiting (handle : OperationHandle)
  | shutDown (result : Except CoreError Unit)
  /-- The call's future was dropped. -/
  | cancelled

def Caller.holdsPermit : Caller → Bool
  | .permitted => true
  | _ => false

/-- The calls that have returned or were dropped. -/
def Caller.isOver : Caller → Bool
  | .submitted _ | .shutDown _ | .cancelled => true
  | _ => false

inductive ExecutorExit where
  | clean
  | died
  deriving DecidableEq, Repr

/-- Where `executor::run` is. -/
inductive Phase where
  | idle
  | dequeued (work : ExecutorWork)
  | refusing (work : ExecutorWork)
  | starting (work : ExecutorWork)
  | executing (work : ExecutorWork)
  | finished (work : ExecutorWork) (result : Except CoreError OperationOutput)
  | panicked (work : ExecutorWork) (join : String)
  | dying
  | closingQueue (exit : ExecutorExit)
  | draining (exit : ExecutorExit)
  | drained (exit : ExecutorExit) (work : ExecutorWork)
  | returned (exit : ExecutorExit)
  | exited (exit : ExecutorExit)

/-- How the task that runs one operation ends: the transaction's own answer, or
a panic that the executor sees as a `JoinError`. -/
inductive Reply where
  | reconciled (result : Except CoreError ApplyOutcome)
  | answered (result : Except Error Unit)
  | panicked (join : String)
  deriving DecidableEq

/-- What happened to each registration, for stating what the executor never
does. -/
inductive Event where
  /-- An admission registered the work and put it in the queue. -/
  | registered (work : ExecutorWork)
  /-- `closing` is the latch at the dequeue. -/
  | dequeued (work : ExecutorWork) (closing : Bool)
  | began (work : ExecutorWork)
  | ended (work : ExecutorWork) (reply : Reply)
  /-- `registry.set` for an operation taken from the queue. -/
  | given (work : ExecutorWork) (state : OperationState)

/-- `history` is newest first. -/
structure Sys where
  registry : RegistryInner
  queue : List ExecutorWork
  /-- The receiver has not been closed. -/
  receiving : Bool
  closing : Bool
  executor : Phase
  /-- `done_tx` carries `true`. -/
  done : Bool
  callers : List Caller
  /-- Some `CoreControl` clone, and with it a sender, is alive. -/
  attached : Bool
  history : List Event

def Sys.init : Sys where
  registry := .new
  queue := []
  receiving := true
  closing := false
  executor := .idle
  done := false
  callers := []
  attached := true
  history := []

/-- Permits handed out by `reserve` and not yet used. -/
def Sys.permits (s : Sys) : Nat := s.callers.countP Caller.holdsPermit

def Sys.hasSlot (cfg : Config) (s : Sys) : Bool :=
  decide (s.queue.length + s.permits < cfg.queueCapacity)

/-- `mpsc::Sender::try_send`. -/
def Sys.trySend (cfg : Config) (s : Sys) : Except TrySendError Unit :=
  if !s.receiving then .error .closed
  else if s.hasSlot cfg then .ok () else .error .full

/-- The work of a new registration reaches the tail of the queue. -/
def Sys.enqueue (s : Sys) (work : ExecutorWork) : Sys :=
  { s with queue := s.queue ++ [work], history := .registered work :: s.history }

/-! ## Callers -/

def shuttingDown (id : OperationId) (message : String) : CoreError :=
  (CoreError.new .shuttingDown message false).withOperation id

/-- `request.options.local_ipc.get_or_insert(..)` at admission. -/
def CoreCommand.resolveLocalIpc (cfg : Config) : CoreCommand → CoreCommand
  | .reconcile request => .reconcile { request with
      options := { request.options with
        localIpc := some (request.options.localIpc.getD cfg.defaultLocalIpc) } }
  | command => command

def OperationHandle.ofAdmitted (id : OperationId) (newlyAdmitted : Bool) (a : Admitted) :
    OperationHandle :=
  ⟨id, a.state, newlyAdmitted, a.sequence⟩

/-- The next step of `submit`, for the caller and for the shared state. -/
def Sys.submitStep (cfg : Config) (s : Sys) : Caller → Option (Caller × Sys)
  | .submitting envelope =>
    if s.closing then
      some (.submitted (.error (shuttingDown envelope.operationId
        "the control plane is shutting down")), s)
    else some (.admitting envelope, s)
  | .admitting envelope =>
    let id := envelope.operationId
    let command := envelope.command.resolveLocalIpc cfg
    match s.registry.admitOperation cfg.capacity id command.payloadDigest (s.trySend cfg) with
    | (.error error, registry) => some (.submitted (.error error), { s with registry })
    | (.ok (.existing a), registry) =>
      some (.submitted (.ok (.ofAdmitted id false a)), { s with registry })
    | (.ok (.registered a), registry) =>
      let handle := OperationHandle.ofAdmitted id true a
      let next := { s with registry }.enqueue ⟨id, command, a.sequence⟩
      if command.isShutdown then some (.latching handle, next)
      else some (.submitted (.ok handle), next)
  | .latching handle => some (.submitted (.ok handle), { s with closing := true })
  | _ => none

def executorDied : CoreError := CoreError.new .internal "the control executor died" false

/-- The next step of `shutdown`. `fresh` is the id `OperationId::generate`
returns at the admission. -/
def Sys.shutdownStep (cfg : Config) (fresh : OperationId) (s : Sys) :
    Caller → Option (Caller × Sys)
  | .closing => some (.reserving, { s with closing := true })
  | .reserving =>
    if !s.receiving then some (.awaitingExit, s)
    else if s.hasSlot cfg then some (.permitted, s) else none
  | .permitted =>
    match s.registry.admitOperation cfg.capacity fresh CoreCommand.shutdown.payloadDigest (.ok ()) with
    | (.error error, registry) => some (.shutDown (.error error), { s with registry })
    | (.ok (.existing a), registry) =>
      some (.waiting (.ofAdmitted fresh true a), { s with registry })
    | (.ok (.registered a), registry) =>
      some (.waiting (.ofAdmitted fresh true a),
        { s with registry }.enqueue ⟨fresh, .shutdown, a.sequence⟩)
  | .awaitingExit =>
    if s.done then some (.shutDown (.ok ()), s)
    else match s.executor with
      | .exited .died => some (.shutDown (.error executorDied), s)
      | _ => none
  | .waiting handle =>
    match handle.state with
    | .succeeded _ => some (.shutDown (.ok ()), s)
    | .failed error => some (.shutDown (.error error), s)
    | _ => none
  | _ => none

/-! ## The executor -/

/-- A `send_replace` on the channel of registration `sequence`, as a receiver
sees it. -/
def OperationHandle.observe (sequence : Nat) (state : OperationState) (h : OperationHandle) :
    OperationHandle :=
  if h.sequence = sequence then { h with state } else h

def Caller.observe (sequence : Nat) (state : OperationState) : Caller → Caller
  | .latching h => .latching (h.observe sequence state)
  | .submitted (.ok h) => .submitted (.ok (h.observe sequence state))
  | .waiting h => .waiting (h.observe sequence state)
  | caller => caller

/-- `context.registry.set(work.id, state)`. -/
def Sys.give (s : Sys) (work : ExecutorWork) (state : OperationState) : Sys where
  registry := s.registry.set work.id state
  queue := s.queue
  receiving := s.receiving
  closing := s.closing
  executor := s.executor
  done := s.done
  callers := match s.registry.operations.lookup work.id with
    | some operation => s.callers.map (Caller.observe operation.sequence state)
    | none => s.callers
  attached := s.attached
  history := .given work state :: s.history

/-- `execute`, given how the transaction answered. -/
def execute (work : ExecutorWork) (reply : Reply) : Option (Except CoreError OperationOutput) :=
  match work.command, reply with
  | .reconcile _, .reconciled result => some (result.map .reconciled)
  | .stop, .answered result => some (answer .stopped result)
  | .recover, .answered result => some (answer .recovered result)
  | .shutdown, .answered result => some (answer .shutDown result)
  | _, _ => none
where
  answer (output : OperationOutput) (result : Except Error Unit) :
      Except CoreError OperationOutput :=
    match result with
    | .ok () => .ok output
    | .error error => .error (.fromDomain error (some work.id))

/-- The terminal state `drain` gives to work it takes from the queue: after a
panic nothing was accomplished; otherwise a queued `Shutdown` counts as
accomplished by the one that ran. -/
def drainState : ExecutorExit → ExecutorWork → OperationState
  | .died, work => .failed (executorDied.withOperation work.id)
  | .clean, work =>
    if work.command.isShutdown then .succeeded .shutDown
    else .failed (shuttingDown work.id
      "the control plane shut down before this queued operation ran")

def stateOf : Except CoreError OperationOutput → OperationState
  | .ok output => .succeeded output
  | .error error => .failed error

def Sys.advance (s : Sys) : Option Sys :=
  match s.executor with
  | .idle =>
    match s.queue with
    | work :: rest => some { s with
        queue := rest
        executor := .dequeued work
        history := .dequeued work s.closing :: s.history }
    | [] => if s.attached then none else some { s with executor := .closingQueue .clean }
  | .dequeued work =>
    if !work.command.isShutdown && s.closing then some { s with executor := .refusing work }
    else some { s with executor := .starting work }
  | .refusing work =>
    some { s.give work (.failed (shuttingDown work.id "the control plane is shutting down")) with
      executor := .idle }
  | .starting work =>
    let running := s.give work .running
    some { running with executor := .executing work, history := .began work :: running.history }
  | .executing _ => none
  | .finished work result =>
    some { s.give work (stateOf result) with
      executor := if work.command.isShutdown then .closingQueue .clean else .idle }
  | .panicked work join =>
    some { s.give work (.failed ((CoreError.new .internal
        ("the control operation panicked: " ++ join) false).withOperation work.id)) with
      executor := .dying }
  | .dying => some { s with closing := true, executor := .closingQueue .died }
  | .closingQueue exit => some { s with receiving := false, executor := .draining exit }
  | .draining exit =>
    match s.queue with
    | work :: rest => some { s with queue := rest, executor := .drained exit work }
    | [] => if s.permits = 0 then some { s with executor := .returned exit } else none
  | .drained exit work =>
    some { s.give work (drainState exit work) with executor := .draining exit }
  | .returned exit => some { s with done := exit == .clean, executor := .exited exit }
  | .exited _ => none

/-- The running operation's task ends. -/
def Sys.finish (s : Sys) (reply : Reply) : Option Sys :=
  match s.executor with
  | .executing work =>
    match reply with
    | .panicked join => some { s with
        executor := .panicked work join, history := .ended work reply :: s.history }
    | _ => (execute work reply).map fun result => { s with
        executor := .finished work result, history := .ended work reply :: s.history }
  | _ => none

inductive Action where
  | callSubmit (envelope : CoreCommandEnvelope)
  | callShutdown
  | caller (index : Nat) (fresh : OperationId)
  | cancel (index : Nat)
  | detach
  | advance
  | finish (reply : Reply)
  deriving DecidableEq

/-- A caller's step: `submit` and `shutdown` share no caller state. -/
def Sys.callerStep (cfg : Config) (fresh : OperationId) (s : Sys) (c : Caller) :
    Option (Caller × Sys) :=
  match s.submitStep cfg c with
  | some next => some next
  | none => s.shutdownStep cfg fresh c

def Sys.step (cfg : Config) (s : Sys) : Action → Option Sys
  | .callSubmit envelope =>
    if s.attached then some { s with callers := s.callers ++ [.submitting envelope] } else none
  | .callShutdown =>
    if s.attached then some { s with callers := s.callers ++ [.closing] } else none
  | .caller index fresh =>
    match s.callers[index]? with
    | some c => (s.callerStep cfg fresh c).map fun next =>
        { next.2 with callers := next.2.callers.set index next.1 }
    | none => none
  -- only `shutdown` awaits anything, so only its future can be dropped midway
  | .cancel index =>
    match s.callers[index]? with
    | some .reserving | some .permitted | some .awaitingExit | some (.waiting _) =>
      some { s with callers := s.callers.set index .cancelled }
    | _ => none
  | .detach =>
    if s.callers.all Caller.isOver then some { s with attached := false } else none
  | .advance => s.advance
  | .finish reply => s.finish reply

def machine (cfg : Config) : Machine Sys Action where
  init := .init
  step := Sys.step cfg

end Chimera.Control
