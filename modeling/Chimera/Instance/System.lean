import Chimera.Instance.Health
import Chimera.Lib.Transition

/-! One instance and everything that writes its status: the monitor loop, the call of
`stop_and_confirm_dead` and the publications of log frames, interleaved at every access
to what they share. The supervisor, the probe drivers and the clock are their
surroundings. -/

namespace Chimera.Instance
open Chimera.Model Chimera.Lib.Transition

structure TerminatedPayload where
  code : Option Int
  signal : Option Int
  deriving DecidableEq, Repr

inductive SupervisorEvent where
  | started (pid : Nat)
  | ready
  | exited (payload : TerminatedPayload)
  | restarting (attempt : Nat) (delay : Duration)
  | gaveUp
  | preparationFailed (detail : String)
  | stopped
  deriving DecidableEq, Repr

/-! ## The supervisor's handle -/

structure Child where
  pid : Nat
  terminated : Bool
  deriving DecidableEq, Repr

/-- What `acknowledge_ready` looks at; `readyOpen` says that the supervision loop
still receives. -/
structure Supervisor where
  current : Option Child
  readyPending : Nat
  readyOpen : Bool
  deriving DecidableEq, Repr

/-- The first check of `acknowledge_ready`: the current child, if it has this pid and
is alive. -/
def Supervisor.liveChild (supervisor : Supervisor) (pid : Nat) : Option Child :=
  supervisor.current.filter fun child => child.pid = pid && !child.terminated

/-- The rest of `acknowledge_ready`. -/
def Supervisor.commitReady (supervisor : Supervisor) (pid : Nat) : Bool × Supervisor :=
  if supervisor.readyPending = pid then
    if supervisor.readyOpen then (true, { supervisor with readyPending := 0 })
    -- the pid is stored back
    else (false, supervisor)
  else (false, supervisor)

/-! ## The monitor loop -/

structure RunState where
  runId : Nat
  pid : Nat
  ackAttempted : Bool
  ready : Bool
  tracker : HealthTracker
  deriving DecidableEq, Repr

structure ProbeDriver where
  runId : Nat
  pid : Nat
  deriving DecidableEq, Repr

def observationApplies (observation : ProbeObservation) (run : RunState) : Bool :=
  observation.runId = run.runId && observation.pid = run.pid

/-- The branches of the `select`, in the order in which they are polled. A probe
request changes nothing here: its observation comes from the driver. -/
inductive Stage where
  | cancelled | events | initialDeadline | respawnDeadline | observations
  deriving DecidableEq, Repr

/-- Where an observation is applied: in its own branch, or while a deadline drains
the queue. -/
inductive Arm where
  | observation | initialDeadline | respawnDeadline
  deriving DecidableEq, Repr

/-- What goes on once the probe driver has stopped. -/
inductive Work where
  | cancelled
  | started (pid : Nat)
  | restarting (attempt : Nat)
  | exited (payload : TerminatedPayload)
  | preparationFailed (detail : String)
  | gaveUp
  | stopped
  | timedOut
  deriving DecidableEq, Repr

inductive Field where
  | instanceId | state | health
  deriving DecidableEq, Repr

/-- What a status is put together for. -/
inductive Purpose where
  | started (pid : Nat) (startedAt : Instant)
  | restarting (attempt : Nat)
  | running (pid : Nat) (update : TrackerUpdate) (observation : ProbeObservation)
  | health (update : TrackerUpdate) (observation : ProbeObservation) (arm : Arm)
  deriving DecidableEq, Repr

/-- What follows when the pending log records are out: `publish_terminal` decides its
reason, and an error is reported with the diagnostics. -/
inductive Ending where
  | terminal
  | failed (text : String)
  deriving DecidableEq, Repr

/-- An acknowledgement under way. -/
structure Ack where
  pid : Nat
  update : TrackerUpdate
  observation : ProbeObservation
  arm : Arm
  deriving DecidableEq, Repr

inductive Point where
  | select (stage : Stage)
  | stopDriver (work : Work)
  /-- Fields of the status that are still to be read, and what was read. -/
  | draft (reads : List Field) (seen : InstanceStatus) (purpose : Purpose)
  | drain (arm : Arm)
  | lockSupervisor (ack : Ack)
  | checkCurrent (ack : Ack)
  | commitReady (ack : Ack)
  | flush (messages : List String) (ending : Ending)
  | flushSend (seen : InstanceStatus) (messages : List String) (ending : Ending)
  | terminate (reason : StopReason)
  | done
  deriving DecidableEq, Repr

structure Monitor where
  point : Point
  everReady : Bool
  timeoutFired : Bool
  probesCancelled : Bool
  nextRunId : Nat
  current : Option RunState
  driver : Option ProbeDriver
  respawnDeadline : Option Instant
  lastExit : Option TerminatedPayload
  deriving DecidableEq, Repr

/-- Where `stop_and_confirm_dead` is. -/
inductive Stop where
  | idle
  | cancelling
  | checking
  | publishing
  | taking
  | stoppingSupervisor
  | joining (stopped : Bool)
  | aborting (stopped : Bool)
  | reading (stopped confirmed : Bool)
  | reaping (terminal : Bool)
  | publishingStopped
  | returned
  deriving DecidableEq, Repr

/-! ## What happened -/

inductive Origin where
  | monitor | acknowledgement | frame | stop
  deriving DecidableEq, Repr

/-- The history is kept newest first. -/
inductive Entry where
  /-- A run became the current one. -/
  | began (runId pid : Nat) (startedAt : Instant)
  /-- An observation was accepted for the current run. -/
  | observed (observation : ProbeObservation) (update : TrackerUpdate)
  /-- `acknowledge_ready` is called. -/
  | attempted (runId pid : Nat)
  /-- `acknowledge_ready` found this to be the supervisor's current child. -/
  | live (child : Child)
  | acknowledged (runId pid : Nat)
  | published (origin : Origin) (state : InstanceState)
  deriving DecidableEq, Repr

structure System where
  now : Instant
  status : InstanceStatus
  persistenceError : Option String
  userStop : Bool
  probeTimeout : Bool
  cancelled : Bool
  probeCancelled : Bool
  supervisor : Option Supervisor
  events : List SupervisorEvent
  eventsClosed : Bool
  observations : List ProbeObservation
  /-- Log frames that are being published: the status that each has read. -/
  frames : List InstanceStatus
  monitor : Monitor
  stop : Stop
  history : List Entry
  deriving DecidableEq, Repr

/-- The parts of the spec that the instance uses. `admits` says which observations its
channel can get. -/
structure Setup where
  /-- The last instant that the platform represents. -/
  lastInstant : Instant
  kind : CoreKind
  nativeStore : Bool
  health : HealthPolicy
  startupTimeout : Duration
  initialDeadline : Instant
  admits : Option ProbeDriver → ProbeObservation → Bool

/-- The only senders are the probe drivers, each stopped before the next one starts. -/
def fromDriver (driver : Option ProbeDriver) (observation : ProbeObservation) : Bool :=
  driver.any fun driver => driver.runId = observation.runId && driver.pid = observation.pid

/-! ## Publications -/

def containsText (text part : String) : Bool :=
  text.toList.tails.any fun tail => part.toList.isPrefixOf tail

def cacheFailure (kind : CoreKind) (message : String) : Bool :=
  match kind with
  | .clashRust | .chimeraClient =>
    ["failed to read cache file:", "failed to parse cache file:", "failed to write cache file:",
      "failed to serialize cache file:"].any (containsText message)
  | .meow => containsText message "selector store:" &&
    (containsText message "failed" || containsText message "malformed")
  | .mihomo | .clashPremium => containsText message "[CacheFile]" &&
    ["can't open", "failed:", "error:"].any (containsText message)

def Setup.reports (setup : Setup) (message : String) : Bool :=
  setup.nativeStore && cacheFailure setup.kind message

def System.send (s : System) (origin : Origin) (status : InstanceStatus) : System :=
  { s with status, history := .published origin status.state :: s.history }

/-- `Shared::publish`. -/
def System.publish (s : System) (origin : Origin) (state : InstanceState) : System :=
  s.send origin <| match state with
    | .stopping | .stopped _ => ⟨none, state, none⟩
    | _ => { s.status with state }

/-- `Shared::publish_status`: a persistence error makes any health unhealthy. -/
def System.publishStatus (s : System) (origin : Origin) (status : InstanceStatus) : System :=
  s.send origin <| match status.health, s.persistenceError with
    | some health, some error =>
      { status with health := some { health with state := .unhealthy, lastError := some error } }
    | _, _ => status

def System.fail (s : System) (message : String) : System :=
  { s with persistenceError := some ("native store: " ++ message) }

def System.log (s : System) (entry : Entry) : System := { s with history := entry :: s.history }

/-! ## The monitor's steps -/

/-- What the surroundings supply to a step of the monitor: the new UUID, the wall
clock, the log records that a flush releases, and the text of the log tail. -/
structure Input where
  instanceId : Nat := 0
  nowMs : Int := 0
  messages : List String := []
  diagnostics : String := ""
  deriving DecidableEq, Repr

def System.goto (s : System) (point : Point) : System :=
  { s with monitor := { s.monitor with point } }

def System.setCurrent (s : System) (current : Option RunState) : System :=
  { s with monitor := { s.monitor with current } }

/-- No run, and no deadline for one. -/
def System.clearRun (s : System) : System :=
  { s with monitor := { s.monitor with current := none, respawnDeadline := none } }

def nextRun (runId : Nat) : Nat := min (runId + 1) (2 ^ 64 - 1)

/-- Nothing is read yet. -/
def unread : InstanceStatus := ⟨none, .starting, none⟩

/-- The event that is received. -/
def System.receive (s : System) : SupervisorEvent → System
  | .started pid => s.goto (.stopDriver (.started pid))
  | .restarting attempt _ => s.goto (.stopDriver (.restarting attempt))
  | .exited payload => s.goto (.stopDriver (.exited payload))
  | .preparationFailed detail => s.goto (.stopDriver (.preparationFailed detail))
  | .gaveUp => s.goto (.stopDriver .gaveUp)
  | .stopped => s.goto (.stopDriver .stopped)
  | .ready => s.goto (.select .cancelled)

/-- `apply` returned false. -/
def System.afterApply (s : System) : Arm → System
  | .observation => s.goto (.select .cancelled)
  | arm => s.goto (.drain arm)

def beyond (observation : ProbeObservation) (deadline : Instant) : Bool :=
  deadline < observation.completedAt

/-- Beyond the deadline of the first start or of a respawn. -/
def System.late (s : System) (setup : Setup) (observation : ProbeObservation) : Bool :=
  !s.monitor.everReady && beyond observation setup.initialDeadline ||
    s.monitor.respawnDeadline.any (beyond observation)

/-- The monitor's task ends in a panic: its run is dropped, with the probe driver. -/
def System.panicked (s : System) : System :=
  { s with monitor := { s.monitor with driver := none } }.clearRun.goto .done

/-- `ProbeReconcile::apply` up to its first await, for an observation that was taken
from the queue. -/
def System.apply (setup : Setup) (s : System) (observation : ProbeObservation) (arm : Arm) :
    System :=
  match s.monitor.current with
  | none => s.afterApply arm
  | some run =>
    if observationApplies observation run && !s.late setup observation then
      match run.tracker.observe setup.lastInstant observation.completedAt observation.result with
      | none => s.panicked
      | some (update, tracker) =>
        let s := s.log (.observed observation update)
        if !run.ackAttempted && update.state = .healthy then
          ((s.setCurrent (some { run with tracker, ackAttempted := true })).log
            (.attempted run.runId run.pid)).goto
              (.lockSupervisor ⟨run.pid, update, observation, arm⟩)
        else
          (s.setCurrent (some { run with tracker })).goto
            (.draft [.health, .instanceId, .state] unread (.health update observation arm))
    else s.afterApply arm

/-- The queue is empty and nothing became ready. -/
def System.endDrain (s : System) : Arm → System
  | .observation => s.goto (.select .cancelled)
  | .initialDeadline =>
    if s.monitor.everReady then s.goto (.select .cancelled)
    else
      ({ s with monitor := { s.monitor with timeoutFired := true } }.clearRun).goto
        (.stopDriver .timedOut)
  | .respawnDeadline =>
    if s.monitor.respawnDeadline.isSome then s.clearRun.goto (.stopDriver .timedOut)
    else s.goto (.select .cancelled)

/-- The probe driver has stopped. -/
def System.stopped (s : System) (input : Input) : Work → System
  | .cancelled => s.clearRun.goto (.select .cancelled)
  | .started pid =>
    { s with monitor := { s.monitor with nextRunId := nextRun s.monitor.nextRunId } }.goto
      (.draft [.health, .state] unread (.started pid s.now))
  | .restarting attempt => s.clearRun.goto (.draft [.health] unread (.restarting attempt))
  | .exited payload =>
    ({ s with monitor := { s.monitor with lastExit := some payload } }.clearRun).goto
      (.select .cancelled)
  | .preparationFailed detail => (s.publish .monitor (.stopped (.error detail))).goto .done
  | .gaveUp => s.goto (.flush input.messages
      (.failed "core kept crashing; restart budget exhausted"))
  | .stopped => s.goto (.flush input.messages .terminal)
  | .timedOut => { s with probeTimeout := true, probeCancelled := true, cancelled := true }.goto
      (.select .cancelled)

def readField (status seen : InstanceStatus) : Field → InstanceStatus
  | .instanceId => { seen with instanceId := status.instanceId }
  | .state => { seen with state := status.state }
  | .health => { seen with health := status.health }

/-- The deadline of a run that begins, or `none` where it is past the last instant. -/
def System.respawn (setup : Setup) (s : System) : Option (Option Instant) :=
  if s.monitor.everReady then (addDuration setup.lastInstant s.now setup.startupTimeout).map some
  else some none

/-- Everything is read: the status is published. -/
def System.conclude (setup : Setup) (s : System) (input : Input) (seen : InstanceStatus) :
    Purpose → System
  | .started pid startedAt =>
    let s := (s.publishStatus .monitor ⟨some input.instanceId, seen.state,
      some (resetStartingHealth seen.health input.nowMs)⟩).log
        (.began s.monitor.nextRunId pid s.now)
    let s := s.setCurrent
      (some ⟨s.monitor.nextRunId, pid, false, false, .new setup.health startedAt⟩)
    match s.respawn setup with
    | none => s.panicked
    | some respawnDeadline =>
      { s with monitor := { s.monitor with
        point := .select .cancelled
        respawnDeadline
        driver := if s.monitor.probesCancelled then none else some ⟨s.monitor.nextRunId, pid⟩ } }
  | .restarting attempt => (s.publishStatus .monitor ⟨none, .restarting attempt,
      some (resetStartingHealth seen.health input.nowMs)⟩).goto (.select .cancelled)
  | .running pid update observation => (s.publishStatus .acknowledgement ⟨seen.instanceId,
      .running pid, some (healthStatus seen.health update observation)⟩).goto (.select .cancelled)
  | .health update observation arm => (s.publishStatus .monitor ⟨seen.instanceId, seen.state,
      some (healthStatus seen.health update observation)⟩).afterApply arm

/-- The second half of `acknowledge_ready`, and what `apply` does with its answer. -/
def System.acknowledge (s : System) (supervisor : Supervisor) (ack : Ack) : System :=
  match supervisor.commitReady ack.pid with
  | (true, supervisor) =>
    { s with
      supervisor := some supervisor
      history := .acknowledged ack.observation.runId ack.pid :: s.history
      monitor := { s.monitor with
        everReady := true
        respawnDeadline := none
        current := s.monitor.current.map fun run => { run with ready := true }
        point := .draft [.health, .instanceId] unread
          (.running ack.pid ack.update ack.observation) } }
  | (false, supervisor) => { s with supervisor := some supervisor }.afterApply ack.arm

def optionText {α : Type} (text : α → String) : Option α → String
  | some value => "Some(" ++ text value ++ ")"
  | none => "None"

/-- The derived `Debug` text. -/
def TerminatedPayload.debug (payload : TerminatedPayload) : String :=
  "TerminatedPayload \x7b code: " ++ optionText toString payload.code ++ ", signal: " ++
    optionText toString payload.signal ++ " \x7d"

/-- The pending records are out. -/
def System.finish (s : System) (input : Input) : Ending → System
  | .failed text => s.goto (.terminate (.error (text ++ "\n" ++ input.diagnostics)))
  | .terminal =>
    if s.userStop then s.goto (.terminate .user)
    else if s.probeTimeout then s.goto (.flush input.messages (.failed "health probe timed out"))
    else if s.monitor.lastExit.any fun payload => payload.code = some 0 then
      s.goto (.terminate .finished)
    else s.goto (.flush input.messages (.failed ("core exited unexpectedly (" ++
      optionText TerminatedPayload.debug s.monitor.lastExit ++ ")")))

def System.monitorStep (setup : Setup) (s : System) (input : Input) : Option System :=
  match s.monitor.point with
  | .select .cancelled =>
    if s.probeCancelled && !s.monitor.probesCancelled then
      some ({ s with monitor := { s.monitor with probesCancelled := true } }.goto
        (.stopDriver .cancelled))
    else some (s.goto (.select .events))
  | .select .events =>
    match s.events with
    | event :: rest => some ({ s with events := rest }.receive event)
    | [] =>
      if s.eventsClosed then some (s.goto (.flush input.messages .terminal))
      else some (s.goto (.select .initialDeadline))
  | .select .initialDeadline =>
    if !s.monitor.everReady && !s.monitor.timeoutFired && setup.initialDeadline ≤ s.now then
      some (s.goto (.drain .initialDeadline))
    else some (s.goto (.select .respawnDeadline))
  | .select .respawnDeadline =>
    if s.monitor.respawnDeadline.any fun deadline => deadline ≤ s.now then
      some (s.goto (.drain .respawnDeadline))
    else some (s.goto (.select .observations))
  | .select .observations =>
    match s.observations with
    | observation :: rest => some (System.apply setup { s with observations := rest } observation
        .observation)
    | [] => some (s.goto (.select .cancelled))
  | .drain arm =>
    match s.observations with
    | observation :: rest => some (System.apply setup { s with observations := rest } observation arm)
    | [] => some (s.endDrain arm)
  | .stopDriver work =>
    some ({ s with monitor := { s.monitor with driver := none } }.stopped input work)
  | .draft (field :: reads) seen purpose =>
    some (s.goto (.draft reads (readField s.status seen field) purpose))
  | .draft [] seen purpose => some (s.conclude setup input seen purpose)
  | .lockSupervisor ack =>
    match s.supervisor with
    | some _ => some (s.goto (.checkCurrent ack))
    | none => some (s.afterApply ack.arm)
  | .checkCurrent ack =>
    match s.supervisor.bind fun supervisor => supervisor.liveChild ack.pid with
    | some child => some ((s.log (.live child)).goto (.commitReady ack))
    | none => some (s.afterApply ack.arm)
  | .commitReady ack =>
    match s.supervisor with
    | some supervisor => some (s.acknowledge supervisor ack)
    | none => some (s.afterApply ack.arm)
  | .flush (message :: messages) ending =>
    if setup.reports message then
      some ((s.fail message).goto (.flushSend s.status messages ending))
    else some (s.goto (.flush messages ending))
  | .flush [] ending => some (s.finish input ending)
  | .flushSend seen messages ending =>
    some ((s.publishStatus .frame seen).goto (.flush messages ending))
  | .terminate reason => some ((s.send .monitor ⟨none, .stopped reason, none⟩).goto .done)
  | .done => none

/-! ## The steps of a stop -/

/-- The monitor holds the lock of the supervisor's handle. -/
def Point.holdsSupervisor : Point → Bool
  | .checkCurrent _ | .commitReady _ => true
  | _ => false

/-- Where the monitor's task can be aborted. -/
def Point.awaits : Point → Bool
  | .select .cancelled | .stopDriver _ | .lockSupervisor _ | .checkCurrent _ | .done => true
  | _ => false

/-- `ok` is how the awaited part ended: the supervisor stopped, the monitor ended in
time, the reaper found the process dead. -/
def System.stopStep (s : System) (ok : Bool) : Option System :=
  match s.stop with
  | .idle => some { s with userStop := true, stop := .cancelling }
  | .cancelling => some { s with probeCancelled := true, stop := .checking }
  | .checking => some { s with stop := if s.status.state.isTerminal then .taking else .publishing }
  | .publishing => some { s.publish .stop .stopping with stop := .taking }
  | .taking =>
    if s.monitor.point.holdsSupervisor then none
    else some { s with supervisor := none, stop := .stoppingSupervisor }
  | .stoppingSupervisor => some { s with stop := .joining ok }
  | .joining stopped =>
    if ok then
      if s.monitor.point = .done then some { s with stop := .reading stopped true } else none
    else some { s with stop := .aborting stopped }
  | .aborting stopped =>
    if s.monitor.point.awaits then
      some { s with
        monitor := { s.monitor with point := .done, driver := none }
        stop := .reading stopped false }
    else none
  | .reading stopped confirmed =>
    let terminal := s.status.state.isTerminal
    if stopped && (confirmed || terminal) then some { s with stop := .returned }
    else some { s with stop := .reaping terminal }
  | .reaping terminal =>
    some { s with stop := if ok && !terminal then .publishingStopped else .returned }
  | .publishingStopped => some { s.publish .stop (.stopped .user) with stop := .returned }
  | .returned => none

/-! ## The machine -/

inductive Action where
  | monitor (input : Input)
  | stop (ok : Bool)
  /-- Time passes. -/
  | tick (elapsed : Duration)
  | emit (event : SupervisorEvent)
  | closeEvents
  | supervise (supervisor : Supervisor)
  | probe (observation : ProbeObservation)
  /-- The hooks of the native store. -/
  | persist (error : Option String)
  /-- A log frame of another thread: it has read the status, and later sends it. -/
  | readFrame (message : String)
  | sendFrame (index : Nat)
  /-- The `Instance` is dropped. -/
  | drop
  deriving DecidableEq, Repr

def System.step (setup : Setup) (s : System) : Action → Option System
  | .monitor input => s.monitorStep setup input
  | .stop ok => s.stopStep ok
  | .tick elapsed => some { s with now := s.now + elapsed }
  | .emit event => if s.eventsClosed then none else some { s with events := s.events ++ [event] }
  | .closeEvents => some { s with eventsClosed := true }
  | .supervise supervisor =>
    if s.supervisor.isSome then some { s with supervisor := some supervisor } else none
  | .probe observation =>
    if setup.admits s.monitor.driver observation then
      some { s with observations := s.observations ++ [observation] }
    else none
  | .persist error => some { s with persistenceError := error }
  | .readFrame message =>
    if setup.reports message then
      some { s.fail message with frames := s.frames ++ [s.status] }
    else none
  | .sendFrame index =>
    match s.frames[index]? with
    | some seen => some (System.publishStatus { s with frames := s.frames.eraseIdx index } .frame seen)
    | none => none
  | .drop =>
    if s.stop = .idle ∨ s.stop = .returned then
      some { s with probeCancelled := true, cancelled := true }
    else none

def Monitor.init : Monitor := ⟨.select .cancelled, false, false, false, 0, none, none, none, none⟩

def System.init : System where
  now := 0
  status := ⟨none, .starting, some (.startingAt 0)⟩
  persistenceError := none
  userStop := false
  probeTimeout := false
  cancelled := false
  probeCancelled := false
  supervisor := some ⟨none, 0, true⟩
  events := []
  eventsClosed := false
  observations := []
  frames := []
  monitor := .init
  stop := .idle
  history := []

def instanceMachine (setup : Setup) : Machine System Action where
  init := .init
  step := System.step setup

/-! ## Concrete runs -/

def mihomoSetup : Setup where
  lastInstant := lastUnixInstant
  kind := .mihomo
  nativeStore := false
  health := ⟨250 * 10 ^ 6, 10 ^ 9, 3, 1, 0⟩
  startupTimeout := 30 * 10 ^ 9
  initialDeadline := 30 * 10 ^ 9
  admits := fromDriver

/-- The monitor takes this many steps. -/
def monitorSteps (count : Nat) : List Action := List.replicate count (.monitor {})

/-- A process is started, and the monitor waits for its probes. -/
def startRun : List Action := .emit (.started 42) :: monitorSteps 6

def stopSteps (count : Nat) : List Action := List.replicate count (.stop true)

def System.after (actions : List Action) : System :=
  ((instanceMachine mihomoSetup).run .init actions).getD .init

end Chimera.Instance
