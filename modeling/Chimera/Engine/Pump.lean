import Chimera.Lib.Transition
import Chimera.Process.Event

/-! The task that pumps a process: it takes the lines of the process's event stream
to the receiver of its handle's events, one at a time, answers control requests,
kills at deadlines, and once the process is finished delivers what is left. Each
`select!` is polled arm by arm, in its order, and the surroundings may move between
two polls. -/

namespace Chimera.Engine
open Chimera.Lib.Utf8 Chimera.Lib.Transition
open Chimera.Process (Duration Instant TerminatedPayload ProcessEvent)

/-! ## What goes in and out -/

/-- `processkit::ProcessEvent`. -/
inductive StreamEvent where
  | stdout (line : Text)
  | stderr (line : Text)
  | other
  deriving DecidableEq, Repr

inductive ProcessError where
  | stdinUnavailable
  | engine (message : Text)
  deriving DecidableEq, Repr

inductive Ctrl where
  | gracefulKill
  | kill
  | writeStdin (data : List UInt8)
  deriving DecidableEq, Repr

/-- `processkit::Finished`. -/
structure Finished where
  outcome : TerminatedPayload
  stderr : Text
  deriving DecidableEq, Repr

structure FinishOutput where
  payload : TerminatedPayload
  stderrTail : List Text
  error : Option Text
  deriving DecidableEq, Repr

def splitStderrTail (stderr : Text) : List Text :=
  if stderr.isEmpty then [] else stderr.splitOn '\n'

def normalizeFinish : Except Text Finished → FinishOutput
  | .ok finished => ⟨finished.outcome, splitStderrTail finished.stderr, none⟩
  | .error error => ⟨⟨none, none⟩, [], some error⟩

/-- What the termination watch is set to. -/
def FinishOutput.watch (out : FinishOutput) : Except Text TerminatedPayload :=
  match out.error with
  | some error => .error error
  | none => .ok out.payload

/-- `DYING_EVENT_STALL`. -/
def dyingEventStall : Duration := 5000000000

def droppedMessage (count : Nat) : Text :=
  s!"dropped {count} buffered output events: receiver not draining".toList

/-- The terminal events after so many dropped lines. -/
def FinishOutput.events (out : FinishOutput) (dropped : Nat) : List ProcessEvent :=
  out.stderrTail.map .stderr ++ (if 0 < dropped then [.error (droppedMessage dropped)] else []) ++
    out.error.toList.map .error ++ [.terminated out.payload]

structure Setup where
  windows : Bool
  killGrace : Duration
  /-- `event_channel_capacity`. -/
  capacity : Nat
  /-- Whether there is a task that writes to stdin. -/
  stdin : Bool

/-! ## States -/

/-- A line of the process. -/
inductive Line where
  | stdout (line : Text)
  | stderr (line : Text)
  deriving DecidableEq, Repr

def Line.event : Line → ProcessEvent
  | .stdout line => .stdout line
  | .stderr line => .stderr line

/-- Why the process is dying. -/
inductive Cause where
  | stopRequested
  | deadline
  | finished
  /-- Neither the receiver nor a handle is left. -/
  | abandoned
  deriving DecidableEq, Repr

/-- What the pump did, for the record. -/
inductive Entry where
  /-- The stream gave the line. -/
  | line (line : Line)
  /-- The stream ended. -/
  | ended
  /-- The last line waits for the receiver. -/
  | waiting (time : Instant)
  /-- The line that was last was dropped. -/
  | dropped (time : Instant)
  | sent (event : ProcessEvent)
  | dying (cause : Cause) (time : Instant)
  | finished (result : Except Text Finished)
  /-- The termination watch was set. -/
  | terminated (value : Except Text TerminatedPayload)
  | killAll
  | replied (result : Except ProcessError Unit)
  deriving DecidableEq

/-- The loops: over the event stream, until `finish`, and over the terminal events. -/
inductive Phase where
  | draining
  | finishing
  | flushing
  deriving DecidableEq, Repr

inductive Arm where
  | ctrl | hardKill | finish | helper | drop | reserve | closed | next | flushDeadline
  deriving DecidableEq, Repr

/-- The arms of the loop's `select!`, in its order. -/
def Phase.arms : Phase → List Arm
  | .draining => [.ctrl, .hardKill, .finish, .helper, .drop, .reserve, .closed, .next]
  | .finishing => [.ctrl, .hardKill, .closed, .finish, .helper]
  | .flushing => [.ctrl, .hardKill, .closed, .reserve, .flushDeadline]

inductive Pc where
  | top (phase : Phase)
  /-- In the `select!`, with these arms still to poll. -/
  | polling (phase : Phase) (arms : List Arm)
  /-- After a deadline, the shutdown helper is being stopped. -/
  | killed (phase : Phase)
  /-- After `finish`, the shutdown helper is being stopped. -/
  | reaped (phase : Phase) (out : FinishOutput)
  /-- The pid file is being cleaned up. -/
  | cleaning (out : FinishOutput)
  | done
  deriving DecidableEq, Repr

structure State where
  pc : Pc
  finishOutput : Option FinishOutput
  pendingEvent : Option Line
  hardKillAt : Option Instant
  eventsOpen : Bool
  ctrlOpen : Bool
  dying : Bool
  dropOutput : Bool
  dropPendingAt : Option Instant
  droppedOutputEvents : Nat
  abandoned : Bool
  terminalEvents : List ProcessEvent
  flushDeadline : Option Instant
  /-- Whether there is a shutdown helper that is not known to have exited. -/
  shutdownHelper : Bool
  /-- Whether the shutdown was requested, on Windows. -/
  shutdown : Option Bool
  /-- The requests that wait for the pump, and whether a handle is left. -/
  ctrlQueue : List Ctrl
  handles : Bool
  /-- The events that wait for the receiver, and whether it is there. -/
  queued : Nat
  receiver : Bool
  now : Instant
  /-- The terminal events were not taken for the stall period. -/
  stalled : Bool
  /-- The last entry first. -/
  log : List Entry

def State.record (s : State) (entry : Entry) : State := { s with log := entry :: s.log }

def State.goto (s : State) (pc : Pc) : State := { s with pc }

/-- What the surroundings answer to a step of the pump. -/
structure Answers where
  killAll : Except Text Unit
  /-- Whether the group took the signal. -/
  signal : Bool
  /-- Whether the stdin task took the write. -/
  stdin : Bool
  /-- Whether the shutdown helper started. -/
  helperSpawned : Bool
  /-- The next check of the shutdown helper, if it is time for it: whether it has
  exited, and if so whether with success. -/
  helper : Option (Option Bool)
  finish : Option (Except Text Finished)
  /-- What the event stream gives, if it is ready; no event when it has ended. -/
  next : Option (Option StreamEvent)

/-! ## Control requests -/

/-- `group.kill_all()`. -/
def State.killAll (s : State) : State := s.record .killAll

def State.reply (s : State) (result : Except ProcessError Unit) : State := s.record (.replied result)

/-- The group is killed, and the request answered by how that went. -/
def State.killReply (answers : Answers) (s : State) : State :=
  s.killAll.reply (answers.killAll.mapError .engine)

/-- Also whether the request was to stop. -/
def State.handleCtrl (setup : Setup) (answers : Answers) (ctrl : Ctrl) (s : State) :
    State × Bool :=
  match ctrl with
  | .kill => ({ s with hardKillAt := none }.killReply answers, true)
  | .gracefulKill =>
    let deadline := s.now + setup.killGrace
    if setup.windows then
      match s.shutdown with
      | some requested =>
        let s := { s with
          hardKillAt := some (s.hardKillAt.elim deadline (min · deadline)), shutdown := some true }
        if requested then (s.reply (.ok ()), true)
        else if answers.helperSpawned then ({ s with shutdownHelper := true }.reply (.ok ()), true)
        else ({ s with hardKillAt := none }.killReply answers, true)
      | none => (s.killReply answers, true)
    else if answers.signal then
      let s := if s.hardKillAt.all (deadline < ·) then { s with hardKillAt := some deadline } else s
      (s.reply (.ok ()), true)
    else (s.killReply answers, true)
  | .writeStdin _ =>
    if setup.stdin && answers.stdin then (s, false)
    else (s.reply (.error .stdinUnavailable), false)

/-! ## The arms -/

def State.die (s : State) (cause : Cause) : State :=
  { s with dying := true }.record (.dying cause s.now)

/-- The pending event may wait for the stall period from now on. -/
def State.armDrop (s : State) : State :=
  if s.pendingEvent.isSome && s.dropPendingAt.isNone then
    { s with dropPendingAt := some (s.now + dyingEventStall) }
  else s

/-- The receiver is gone. -/
def State.close (s : State) : State :=
  { s with eventsOpen := false, pendingEvent := none, dropPendingAt := none }

def State.send (s : State) (event : ProcessEvent) : State :=
  { s with queued := s.queued + 1 }.record (.sent event)

/-- A line of the stream. -/
def State.take (s : State) (line : Line) : State :=
  let s := s.record (.line line)
  if s.dropOutput then
    { s with droppedOutputEvents := s.droppedOutputEvents + 1 }.record (.dropped s.now)
  else if s.eventsOpen then
    { s with
      pendingEvent := some line
      dropPendingAt := if s.dying then some (s.now + dyingEventStall) else s.dropPendingAt }.record
      (.waiting s.now)
  else s

/-- What an arm does if it is enabled and ready. -/
def State.poll (setup : Setup) (answers : Answers) (phase : Phase) (s : State) :
    Arm → Option State
  | .ctrl =>
    if s.ctrlOpen then
      match s.ctrlQueue with
      | ctrl :: queue =>
        let (s, handled) := { s with ctrlQueue := queue }.handleCtrl setup answers ctrl
        some ((if phase = .draining && handled then (s.die .stopRequested).armDrop else s).goto
          (.top phase))
      | [] => if s.handles then none else some ({ s with ctrlOpen := false }.goto (.top phase))
    else none
  | .hardKill =>
    if s.hardKillAt.any (· ≤ s.now) then
      let s := { s with hardKillAt := none }
      some ((if phase = .draining then s.die .deadline else s).killAll.goto (.killed phase))
    else none
  | .finish =>
    if phase = .draining && s.finishOutput.isSome then none
    else match answers.finish with
    | some result => some ((s.record (.finished result)).goto (.reaped phase (normalizeFinish result)))
    | none => none
  | .helper =>
    if s.shutdownHelper then
      match answers.helper with
      | none => none
      | some none => some (s.goto (.top phase))
      | some (some success) =>
        let s := { s with shutdownHelper := false }
        some ((if success then s else s.killAll).goto (.top phase))
    else none
  | .drop =>
    if s.dying && !s.dropOutput && s.pendingEvent.isSome && s.dropPendingAt.any (· ≤ s.now) then
      some (({ s with
        dropPendingAt := none
        pendingEvent := none
        droppedOutputEvents := s.droppedOutputEvents + 1
        dropOutput := true }.record (.dropped s.now)).goto (.top phase))
    else none
  | .reserve =>
    match phase with
    | .flushing =>
      match s.terminalEvents with
      | [] => none
      | event :: events =>
        if !s.receiver then some ({ s with eventsOpen := false }.goto (.top phase))
        else if s.queued < setup.capacity then
          some (({ s with
            terminalEvents := events
            flushDeadline := some (s.now + dyingEventStall) }.send event).goto (.top phase))
        else none
    | _ =>
      match s.pendingEvent with
      | none => none
      | some line =>
        if s.eventsOpen && !s.dropOutput then
          if !s.receiver then some (s.close.goto (.top phase))
          else if s.queued < setup.capacity then
            some (({ s with pendingEvent := none, dropPendingAt := none }.send line.event).goto
              (.top phase))
          else none
        else none
  | .closed =>
    if s.eventsOpen && !s.receiver then
      some ((if phase = .draining then s.close else { s with eventsOpen := false }).goto (.top phase))
    else none
  | .next =>
    if s.pendingEvent.isSome then none
    else match answers.next with
    | none => none
    | some (some (.stdout line)) => some ((s.take (.stdout line)).goto (.top phase))
    | some (some (.stderr line)) => some ((s.take (.stderr line)).goto (.top phase))
    | some (some .other) => some (s.goto (.top phase))
    | some none =>
      some ((s.record .ended).goto (s.finishOutput.elim (.top .finishing) .cleaning))
  | .flushDeadline =>
    if s.flushDeadline.any (· ≤ s.now) then
      some ({ s with eventsOpen := false, stalled := true }.goto (.top phase))
    else none

/-! ## The loops -/

/-- With neither the receiver nor a handle left the process is killed. -/
def State.abandon (phase : Phase) (s : State) : State :=
  if !s.eventsOpen && !s.ctrlOpen && !s.abandoned then
    let s := { s with abandoned := true, hardKillAt := none }
    (if phase = .draining then s.die .abandoned else s).killAll
  else s

def State.setTerminated (s : State) (out : FinishOutput) : State := s.record (.terminated out.watch)

/-- One step of the pump. -/
def State.advance (setup : Setup) (answers : Answers) (s : State) : Option State :=
  match s.pc with
  | .top .flushing =>
    some (s.goto (if s.eventsOpen && !s.terminalEvents.isEmpty then
      .polling .flushing Phase.flushing.arms else .done))
  | .top phase => some ((s.abandon phase).goto (.polling phase phase.arms))
  -- No arm was ready: the task sleeps, and is woken to poll them again.
  | .polling phase [] => some (s.goto (.polling phase phase.arms))
  | .polling phase (arm :: arms) =>
    some ((s.poll setup answers phase arm).getD (s.goto (.polling phase arms)))
  | .killed phase =>
    let s := if setup.windows then { s with shutdownHelper := false } else s
    some ((if phase = .draining then s.armDrop else s).goto (.top phase))
  | .reaped phase out =>
    let s := if setup.windows then { s with shutdownHelper := false, shutdown := none } else s
    if phase = .draining then
      some ({ (s.die .finished).armDrop.setTerminated out with finishOutput := some out }.goto
        (.top phase))
    else some ((s.setTerminated out).goto (.cleaning out))
  | .cleaning out =>
    some ({ s with
      terminalEvents := out.events s.droppedOutputEvents
      flushDeadline := some (s.now + dyingEventStall) }.goto (.top .flushing))
  | .done => none

/-! ## Everybody else -/

inductive Label where
  | pump (answers : Answers)
  | request (ctrl : Ctrl)
  /-- The last handle is dropped. -/
  | dropHandles
  /-- The receiver takes an event. -/
  | receive
  | dropReceiver
  | tick (duration : Duration)

def State.step (setup : Setup) (s : State) : Label → Option State
  | .pump answers => s.advance setup answers
  | .request ctrl => if s.handles then some { s with ctrlQueue := s.ctrlQueue ++ [ctrl] } else none
  | .dropHandles => some { s with handles := false }
  | .receive => if 0 < s.queued then some { s with queued := s.queued - 1 } else none
  | .dropReceiver => some { s with receiver := false }
  | .tick duration => some { s with now := s.now + duration }

/-- The timeout, and on Windows the shutdown, are the command's. -/
def pump (setup : Setup) (timeoutAt : Option Instant) (shutdown : Bool) (now : Instant) :
    Machine State Label where
  init := {
    pc := .top .draining
    finishOutput := none
    pendingEvent := none
    hardKillAt := timeoutAt
    eventsOpen := true
    ctrlOpen := true
    dying := false
    dropOutput := false
    dropPendingAt := none
    droppedOutputEvents := 0
    abandoned := false
    terminalEvents := []
    flushDeadline := none
    shutdownHelper := false
    shutdown := if shutdown then some false else none
    ctrlQueue := []
    handles := true
    queued := 0
    receiver := true
    now := now
    stalled := false
    log := [] }
  step := State.step setup

end Chimera.Engine
