import Chimera.Lib.Transition
import Chimera.Process.Event

/-! The supervision loop of a child process: it watches a child, and respawns it
within a budget of attempts and a budget of failures in a window of time. Beside
it run the calls that acknowledge readiness, a stop, and whoever cancels the
token; the surroundings decide when what happens. -/

namespace Chimera.Supervision
open Chimera.Lib.Transition
open Chimera.Process (Duration Instant TerminatedPayload)

abbrev Pid := UInt32

/-! ## Configuration -/

inductive RestartPolicy where
  | never
  | onFailure (maxRestarts : UInt32)
  deriving DecidableEq, Repr

/-- `RestartStormPolicy`: at least one failure, at least a millisecond. -/
structure RestartStormPolicy where
  maxFailures : UInt32
  window : Duration
  positive : 0 < maxFailures.toNat

def RestartStormPolicy.new (maxFailures : UInt32) (window : Duration) : RestartStormPolicy where
  maxFailures := if maxFailures = 0 then 1 else maxFailures
  window := max window 1000000
  positive := by
    split
    · decide
    · rename_i h
      exact Nat.pos_of_ne_zero fun hz => h (UInt32.toNat.inj hz)

structure Backoff where
  initial : Duration
  max : Duration
  jitter : Bool

/-- `Duration::MAX`. -/
def durationMax : Duration := 2 ^ 64 * 1000000000 - 1

/-- `delay_for`; the entropy is that of the jitter. There is none where the last addition
panics: in a build with overflow checks, else it wraps. -/
def Backoff.delayFor (backoff : Backoff) (overflowChecks : Bool) (entropy : Nat)
    (attempt : UInt32) : Option Duration :=
  let base := min (min (backoff.initial * 2 ^ min attempt.toNat 30) durationMax) backoff.max
  if !backoff.jitter then some base
  else
    let baseNs := Nat.max base 1 % 2 ^ 64
    let span := baseNs / 2
    let offset := entropy % Nat.max span 1
    let delayNs := baseNs - span / 2 + offset
    if overflowChecks && decide (2 ^ 64 ≤ delayNs) then none else some (delayNs % 2 ^ 64)

inductive ReadinessProbe where
  | aliveAfter (delay : Duration)
  | acknowledged
  deriving DecidableEq, Repr

structure Setup where
  policy : RestartPolicy
  backoff : Backoff
  readiness : ReadinessProbe
  stormPolicy : RestartStormPolicy
  /-- Whether there is a `before_spawn` hook. -/
  preparation : Bool
  /-- Whether the build panics where arithmetic overflows; else it wraps. -/
  overflowChecks : Bool

/-! ## Events -/

inductive SupervisorEvent where
  | started (pid : Pid)
  | ready
  | exited (payload : TerminatedPayload)
  | restarting (attempt : UInt32) (delay : Duration)
  | gaveUp
  | preparationFailed
  | stopped
  deriving DecidableEq, Repr

/-- What the loop and the stop did, for the record. -/
inductive Entry where
  | emitted (event : SupervisorEvent)
  /-- The loop read the token as cancelled. -/
  | cancelObserved
  | preparationFailed
  | abnormalExit (time : Instant)
  | spawnCalled
  /-- A spawn call returned a child; `inFlight` if the token was cancelled by then. -/
  | spawnReturned (child : Nat) (inFlight : Bool)
  /-- The child was handed to `stop_process`. -/
  | stopRequested (child : Nat)
  deriving DecidableEq, Repr

/-! ## States -/

/-- `ProcessHandle`, with the number of the child that it is of. -/
structure Handle where
  child : Nat
  pid : Pid
  deriving DecidableEq, Repr

/-- Where the loop is. -/
inductive Pc where
  /-- In the `select!` over the child's events. -/
  | watching (child : Nat) (readyAt : Instant) (readinessPending cancelled : Bool)
  /-- An arm for readiness was taken, with the message if it came by one, and waits
  for the lock of `current`. -/
  | checking (child : Nat) (readyAt : Instant) (cancelled : Bool) (message : Option Pid)
  /-- The child has terminated. -/
  | ending (payload : TerminatedPayload) (cancelled : Bool)
  | exited (payload : TerminatedPayload) (cancelled : Bool)
  /-- No child came of a spawn call. -/
  | failed
  | backoff (deadline : Instant)
  | woken
  | preparing
  | prepared
  | calling
  | spawning
  /-- The spawn call returned a child. -/
  | storing (child : Nat) (pid : Pid)
  | announcing (child : Nat) (pid : Pid)
  | finished
  deriving DecidableEq, Repr

/-- Where a call of `acknowledge_ready` is. -/
inductive Ack where
  | away
  | current (pid : Pid)
  | taken (pid : Pid)
  deriving DecidableEq, Repr

structure State where
  pc : Pc
  attempt : UInt32
  /-- The oldest first. -/
  abnormalExits : List Instant
  current : Option Handle
  /-- The token. -/
  cancelled : Bool
  readyQueue : List Pid
  readyPending : Pid
  /-- The children whose termination watch is set. -/
  terminated : Nat → Bool
  /-- The number of the next child. -/
  next : Nat
  now : Instant
  acks : Nat → Ack
  /-- A stop was called and has not taken the current child yet. -/
  stopping : Bool
  /-- The supervisor is gone, and the sender of the ready queue with it. -/
  dropped : Bool
  /-- The last entry first. -/
  log : List Entry

def State.record (s : State) (entry : Entry) : State := { s with log := entry :: s.log }

def State.emit (s : State) (event : SupervisorEvent) : State := s.record (.emitted event)

def State.goto (s : State) (pc : Pc) : State := { s with pc }

/-- The current child, if it has not terminated. -/
def State.live (s : State) : Option Handle :=
  s.current.filter fun handle => !s.terminated handle.child

/-- `current.take()`, for `stop_process`. -/
def State.stopCurrent (s : State) : State :=
  match s.current with
  | some handle => { s with current := none }.record (.stopRequested handle.child)
  | none => s

/-! ## The loop -/

/-- The loop reads the token as cancelled and ends. -/
def State.stopped (s : State) : State :=
  ((s.record .cancelObserved).emit .stopped).goto .finished

def State.ready (s : State) : State := { s with attempt := 0 }.emit .ready

/-- Readiness counts if the child is current and alive, and is the one of the
message. A message for another child leaves readiness pending. -/
def State.check (child : Nat) (readyAt : Instant) (cancelled : Bool) (message : Option Pid)
    (s : State) : State :=
  if s.live.any (fun handle => message.all (· = handle.pid)) && !s.cancelled then
    (s.goto (.watching child readyAt false cancelled)).ready
  else s.goto (.watching child readyAt message.isSome cancelled)

/-- The restart that follows an exit or a failed spawn. -/
def State.retry (setup : Setup) (entropy : Nat) (s : State) : State :=
  -- `attempt += 1` panics in a build with overflow checks.
  if setup.overflowChecks && s.attempt == 0xFFFFFFFF then s.goto .finished
  else
    let s := { s with attempt := s.attempt + 1 }
    match setup.policy with
    | .never => s.goto .finished
    | .onFailure maxRestarts =>
      if maxRestarts < s.attempt then (s.emit .gaveUp).goto .finished
      else
        match setup.backoff.delayFor setup.overflowChecks entropy (s.attempt - 1) with
        | none => s.goto .finished
        | some delay =>
          (s.emit (.restarting s.attempt delay)).goto (.backoff (s.now + delay))

/-- An abnormal exit joins the storm window, which ends at it. -/
def State.countExit (setup : Setup) (s : State) : State :=
  { s with abnormalExits := (s.abnormalExits ++ [s.now]).dropWhile fun time =>
      setup.stormPolicy.window < s.now - time }.record (.abnormalExit s.now)

/-- What follows the exit of a child. -/
def State.settle (setup : Setup) (entropy : Nat) (payload : TerminatedPayload) (cancelled : Bool)
    (s : State) : State :=
  let s := { s with readyPending := 0 }.emit (.exited payload)
  if cancelled || s.cancelled then s.stopped
  else if payload.code = some 0 ∨ setup.policy = .never then s.goto .finished
  else
    let s := s.countExit setup
    if setup.stormPolicy.maxFailures.toNat ≤ s.abnormalExits.length then
      (s.emit .gaveUp).goto .finished
    else s.retry setup entropy

/-- A new child is watched; it is announced unless the token is cancelled. -/
def State.announce (setup : Setup) (child : Nat) (pid : Pid) (s : State) : State :=
  let s := if s.cancelled then s.record .cancelObserved
    else
      let s := if setup.readiness = .acknowledged then { s with readyPending := pid } else s
      s.emit (.started pid)
  let delay := match setup.readiness with
    | .aliveAfter delay => delay
    | .acknowledged => 0
  s.goto (.watching child (s.now + delay) true false)

/-- What the surroundings decide about a step of the loop. -/
inductive Choice where
  | go
  /-- An arm of the `select!` over the child's events. -/
  | cancel | readyAt | readyMessage | readyClosed | event
  | terminated (payload : TerminatedPayload)
  | closed
  /-- The outcome of `prepare` or of the spawn call. -/
  | succeeded (pid : Pid)
  | failed
  deriving DecidableEq, Repr

/-- The arms of the `select!` over the child's events; it is biased, and the
token comes first. -/
def State.select (setup : Setup) (s : State) (child : Nat) (readyAt : Instant)
    (pending cancelled : Bool) : Choice → Option State
  | .cancel =>
    if s.cancelled && !cancelled then
      some ((s.record .cancelObserved).stopCurrent.goto (.watching child readyAt false true))
    else none
  | choice =>
    if s.cancelled && !cancelled then none
    else match choice with
    | .readyAt =>
      if pending && decide (setup.readiness ≠ .acknowledged) && decide (readyAt ≤ s.now) then
        some (s.goto (.checking child readyAt cancelled none))
      else none
    | .readyMessage =>
      match s.readyQueue with
      | [] => none
      | pid :: queue =>
        if pending && decide (setup.readiness = .acknowledged) then
          some ({ s with readyQueue := queue }.goto (.checking child readyAt cancelled (some pid)))
        else none
    | .readyClosed =>
      if pending && decide (setup.readiness = .acknowledged) && s.dropped &&
          s.readyQueue.isEmpty then
        some (s.goto (.watching child readyAt false cancelled))
      else none
    | .event => some s
    | .terminated payload => some (s.goto (.ending payload cancelled))
    | .closed => some (s.goto (.ending ⟨none, none⟩ cancelled))
    | _ => none

/-- One step of the loop. -/
def State.advance (setup : Setup) (entropy : Nat) (s : State) (choice : Choice) : Option State :=
  match s.pc, choice with
  | .watching child readyAt pending cancelled, choice =>
    s.select setup child readyAt pending cancelled choice
  | .checking child readyAt cancelled message, .go =>
    some (s.check child readyAt cancelled message)
  -- The kill task is over, `current` is taken.
  | .ending payload cancelled, .go =>
    some ({ s with current := none }.goto (.exited payload cancelled))
  | .exited payload cancelled, .go => some (s.settle setup entropy payload cancelled)
  | .failed, .go => some (if s.cancelled then s.stopped else s.retry setup entropy)
  | .backoff deadline, .go =>
    if s.cancelled then some s.stopped
    else if deadline ≤ s.now then some (s.goto .woken) else none
  | .woken, .go => some (if s.cancelled then s.stopped else s.goto .preparing)
  | .preparing, .succeeded _ => some (s.goto .prepared)
  | .preparing, .failed =>
    if setup.preparation then
      let s := s.record .preparationFailed
      some (if s.cancelled then s.stopped else (s.emit .preparationFailed).goto .finished)
    else none
  | .prepared, .go => some (if s.cancelled then s.stopped else s.goto .calling)
  | .calling, .go => some ((s.record .spawnCalled).goto .spawning)
  | .spawning, .succeeded pid =>
    some (({ s with next := s.next + 1 }.record (.spawnReturned s.next s.cancelled)).goto
      (.storing s.next pid))
  | .spawning, .failed => some (s.goto .failed)
  | .storing child pid, .go =>
    some ({ s with current := some ⟨child, pid⟩ }.goto (.announcing child pid))
  | .announcing child pid, .go => some (s.announce setup child pid)
  | _, _ => none

/-! ## Everybody else -/

inductive Label where
  | loop (choice : Choice) (entropy : Nat)
  /-- Whoever holds the token or a parent of it. -/
  | cancel
  | tick (duration : Duration)
  | terminate (child : Nat)
  /-- The steps of `acknowledge_ready`. -/
  | acknowledge (call : Nat) (pid : Pid)
  | acknowledgeTake (call : Nat)
  | acknowledgeSend (call : Nat)
  /-- The steps of `stop`. -/
  | stop
  | stopTake
  | drop
  deriving Repr

def State.ack (s : State) (call : Nat) (ack : Ack) : State :=
  { s with acks := fun c => if c = call then ack else s.acks c }

def State.step (setup : Setup) (s : State) : Label → Option State
  | .loop choice entropy => s.advance setup entropy choice
  | .cancel => some { s with cancelled := true }
  | .tick duration => some { s with now := s.now + duration }
  | .terminate child => some { s with terminated := fun c => c = child || s.terminated c }
  | .acknowledge call pid =>
    if s.acks call = .away then
      some (if s.live.any (·.pid = pid) then s.ack call (.current pid) else s)
    else none
  | .acknowledgeTake call =>
    match s.acks call with
    | .current pid =>
      some (if s.readyPending = pid then { s with readyPending := 0 }.ack call (.taken pid)
        else s.ack call .away)
    | _ => none
  | .acknowledgeSend call =>
    match s.acks call with
    | .taken pid =>
      -- The receiver is gone once the loop has ended.
      some ((if s.pc = Pc.finished then { s with readyPending := pid }
        else { s with readyQueue := s.readyQueue ++ [pid] }).ack call .away)
    | _ => none
  | .stop => some { s with cancelled := true, stopping := true }
  | .stopTake => if s.stopping then some { s.stopCurrent with stopping := false } else none
  | .drop => some { s with cancelled := true, dropped := true }

/-- The loop starts with the first child, which was spawned and announced by the
call that starts it; the token may be cancelled by then. -/
def supervision (setup : Setup) (pid : Pid) (cancelled : Bool) (now : Instant) :
    Machine State Label where
  init := {
    pc := .watching 0 (now + match setup.readiness with
      | .aliveAfter delay => delay
      | .acknowledged => 0) true false
    attempt := 0
    abnormalExits := []
    current := some ⟨0, pid⟩
    cancelled := cancelled
    readyQueue := []
    readyPending := if setup.readiness = .acknowledged then pid else 0
    terminated := fun _ => false
    next := 1
    now := now
    acks := fun _ => .away
    stopping := false
    dropped := false
    log := [] }
  step := State.step setup

end Chimera.Supervision
