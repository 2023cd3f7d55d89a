import Chimera.Model.State

/-! Probe observations and the tracker that turns them into a health state. Instants are
nanosecond counts, up to the last one that the platform represents. -/

namespace Chimera.Instance
open Chimera.Model

abbrev Instant := Nat

/-- The last instant of a Unix platform, whose seconds are an `i64`. -/
def lastUnixInstant : Instant := (2 ^ 63 - 1) * 10 ^ 9 + 999999999

/-- `Instant + Duration`; `none` is its panic, where the sum is past the last instant. -/
def addDuration (last start : Instant) (duration : Duration) : Option Instant :=
  if start + duration ≤ last then some (start + duration) else none

/-- `u32::saturating_add(1)`. -/
def saturatingSucc (n : Nat) : Nat := min (n + 1) (2 ^ 32 - 1)

inductive ProbeResult where
  | healthy
  | unhealthy (detail : Option String)
  deriving DecidableEq, Repr

def ProbeResult.isHealthy : ProbeResult → Bool
  | .healthy => true
  | .unhealthy _ => false

inductive ProbePhase where
  | readiness | liveness | reconcile
  deriving DecidableEq, Repr

structure ProbeObservation where
  runId : Nat
  pid : Nat
  phase : ProbePhase
  completedAt : Instant
  completedAtMs : Int
  result : ProbeResult
  deriving DecidableEq, Repr

/-! ## The tracker -/

inductive TrackerState where
  | starting | healthy | unhealthy
  deriving DecidableEq, Repr

structure TrackerUpdate where
  state : TrackerState
  transitioned : Bool
  consecutiveFailures : Nat
  lastError : Option String
  deriving DecidableEq, Repr

structure HealthTracker where
  policy : HealthPolicy
  startedAt : Instant
  graceEnded : Bool
  state : TrackerState
  consecutiveFailures : Nat
  consecutiveSuccesses : Nat
  lastError : Option String
  deriving DecidableEq, Repr

def HealthTracker.new (policy : HealthPolicy) (startedAt : Instant) : HealthTracker :=
  ⟨policy, startedAt, false, .starting, 0, 0, none⟩

/-- The characters of a text that fit this many bytes. -/
def fitting (budget : Nat) : List Char → List Char
  | [] => []
  | c :: rest => if c.utf8Size ≤ budget then c :: fitting (budget - c.utf8Size) rest else []

def maxLastErrorBytes : Nat := 512

def capDetail (detail : String) : String :=
  if detail.utf8ByteSize ≤ maxLastErrorBytes then detail
  else String.ofList (fitting maxLastErrorBytes detail.toList)

def HealthTracker.succeed (tracker : HealthTracker) : HealthTracker :=
  let tracker := { tracker with graceEnded := true, consecutiveFailures := 0, lastError := none }
  if tracker.state = .healthy then { tracker with consecutiveSuccesses := 0 }
  else
    let successes := saturatingSucc tracker.consecutiveSuccesses
    if tracker.policy.successThreshold ≤ successes then
      { tracker with state := .healthy, consecutiveSuccesses := 0 }
    else { tracker with consecutiveSuccesses := successes }

/-- Whether the grace period goes on. Its end is not computed once a success has ended it. -/
def HealthTracker.graceActive (last : Instant) (tracker : HealthTracker) (now : Instant) :
    Option Bool :=
  if tracker.graceEnded then some false
  else (addDuration last tracker.startedAt tracker.policy.startPeriod).map fun graceEnd =>
    now < graceEnd

/-- A failure, in the grace period or past it. -/
def HealthTracker.fail (tracker : HealthTracker) (graceActive : Bool) (detail : Option String) :
    HealthTracker :=
  let tracker := { tracker with consecutiveSuccesses := 0, lastError := detail.map capDetail }
  if graceActive then tracker
  else
    let failures := saturatingSucc tracker.consecutiveFailures
    if tracker.state ≠ .unhealthy ∧ tracker.policy.failureThreshold ≤ failures then
      { tracker with consecutiveFailures := failures, state := .unhealthy }
    else { tracker with consecutiveFailures := failures }

/-- The tracker after one more result, unless it panics. -/
def HealthTracker.next (last : Instant) (tracker : HealthTracker) (now : Instant) :
    ProbeResult → Option HealthTracker
  | .healthy => some tracker.succeed
  | .unhealthy detail => (tracker.graceActive last now).map fun graceActive =>
    tracker.fail graceActive detail

/-- `observe`: what it returns and the tracker afterwards, or `none` where it panics. -/
def HealthTracker.observe (last : Instant) (tracker : HealthTracker) (now : Instant)
    (result : ProbeResult) : Option (TrackerUpdate × HealthTracker) :=
  (tracker.next last now result).map fun after =>
    (⟨after.state, tracker.state ≠ after.state, after.consecutiveFailures, after.lastError⟩, after)

/-! ## The published health -/

def TrackerState.health : TrackerState → HealthState
  | .starting => .starting
  | .healthy => .healthy
  | .unhealthy => .unhealthy

def resetStartingHealth (previous : Option HealthStatus) (nowMs : Int) : HealthStatus :=
  let changedAt := match previous.filter fun status => status.state = .starting with
    | some status => status.changedAt
    | none => nowMs
  ⟨.starting, changedAt, 0, none, none⟩

def healthStatus (previous : Option HealthStatus) (update : TrackerUpdate)
    (observation : ProbeObservation) : HealthStatus :=
  let state := update.state.health
  let changedAt := match previous.filter fun status => status.state = state with
    | some status => status.changedAt
    | none => observation.completedAtMs
  let lastSuccessAt :=
    if observation.result.isHealthy then some observation.completedAtMs
    else previous.bind fun status => status.lastSuccessAt
  ⟨state, changedAt, update.consecutiveFailures, update.lastError, lastSuccessAt⟩

end Chimera.Instance
