import Chimera.Model.Spec

/-! The instance and manager state machines, the published status snapshot and
the configuration revisions that both carry. -/

namespace Chimera.Model

/-- `Epoch(NonZeroU64)`: an epoch is never zero and fits 64 bits. -/
structure Epoch where
  val : Nat
  pos : 0 < val
  lt : val < 2 ^ 64
  deriving DecidableEq

/-- `Epoch::new`. -/
def Epoch.new (value : Nat) : Option Epoch :=
  if h : 0 < value ∧ value < 2 ^ 64 then some ⟨value, h.1, h.2⟩ else none

/-- The epoch that a first manager allocates first. -/
def Epoch.one : Epoch := ⟨1, by decide, by decide⟩

def Epoch.get (e : Epoch) : Nat := e.val

@[ext] theorem Epoch.ext {a b : Epoch} (h : a.val = b.val) : a = b := by
  cases a; cases b; cases h; rfl

def Epoch.display (e : Epoch) : String := toString e.val

structure ConfigRevision where
  epoch : Epoch
  generation : Nat
  sourceHash : String
  effectiveHash : String
  runtimePath : Utf8Path
  deriving DecidableEq

structure RevisionId where
  epoch : Epoch
  generation : Nat
  effectiveHash : String
  deriving DecidableEq

def ConfigRevision.id (r : ConfigRevision) : RevisionId :=
  ⟨r.epoch, r.generation, r.effectiveHash⟩

def RevisionId.display (r : RevisionId) : String :=
  "epoch " ++ r.epoch.display ++ " generation " ++ toString r.generation ++
    " (" ++ r.effectiveHash ++ ")"

/-- The derived `Debug` text, which the conflict message prints. -/
def RevisionId.debug (r : RevisionId) : String :=
  "RevisionId \x7b epoch: Epoch(" ++ r.epoch.display ++ "), generation: " ++
    toString r.generation ++ ", effective_hash: \"" ++ r.effectiveHash ++ "\" \x7d"

inductive HealthState where
  | starting | healthy | unhealthy
  deriving DecidableEq, Repr

structure HealthStatus where
  state : HealthState
  changedAt : Int
  consecutiveFailures : Nat
  lastError : Option String
  lastSuccessAt : Option Int
  deriving DecidableEq, Repr

/-- `HealthStatus::starting`, at the clock reading `now`. -/
def HealthStatus.startingAt (now : Int) : HealthStatus :=
  ⟨.starting, now, 0, none, none⟩

inductive StopReason where
  | finished
  | user
  | error (message : String)
  deriving DecidableEq, Repr

inductive InstanceState where
  | starting
  | running (pid : Nat)
  | restarting (attempt : Nat)
  | stopping
  | stopped (reason : StopReason)
  deriving DecidableEq, Repr

def InstanceState.isTerminal : InstanceState → Bool
  | .stopped _ => true
  | _ => false

/-- `instance_id` is a UUID, fresh for each process start; here a number. -/
structure InstanceStatus where
  instanceId : Option Nat
  state : InstanceState
  health : Option HealthStatus
  deriving DecidableEq, Repr

inductive CoreState where
  | stopped (reason : Option StopReason)
  | starting (epoch : Epoch)
  | running (epoch : Epoch) (pid : Nat)
  | restarting (epoch : Epoch) (attempt : Nat)
  | switching (source : Option Epoch) (target : Epoch)
  | stopping (epoch : Epoch)
  deriving DecidableEq

def CoreState.isStopped : CoreState → Bool
  | .stopped _ => true
  | _ => false

/-- The parts of `SpecSummary` a plan supplies. -/
structure SpecSummary where
  kind : CoreKind
  configPath : Utf8Path
  capabilities : Finset String
  runtimeFeatures : Finset RuntimeFeature
  deriving DecidableEq

structure CoreStatus where
  instanceId : Option Nat
  state : CoreState
  changedAt : Int
  health : Option HealthStatus
  spec : Option SpecSummary
  controller : Option Host
  revision : Option ConfigRevision
  deriving DecidableEq

/-- `CoreStatus::initial`, at the clock reading `now`. -/
def CoreStatus.initialAt (now : Int) : CoreStatus :=
  ⟨none, .stopped none, now, none, none, none, none⟩

inductive DegradeReason where
  | notRunning | unsupportedKind | dnsListen | inboundConflict | patchFailed
  | httpController | nativeStoreShared
  deriving DecidableEq, Repr

inductive SwitchOutcome where
  | graceful
  | hard (reason : DegradeReason)
  | durabilityUncertain (outcome : SwitchOutcome) (warning : String)
  deriving DecidableEq

inductive ApplyOutcome where
  | started (revision : ConfigRevision)
  | noop (revision : ConfigRevision)
  | patched (revision : ConfigRevision)
  | reloaded (revision : ConfigRevision)
  | restarted (revision : ConfigRevision)
  | switched (revision : ConfigRevision)
  | rolledBack (revision : ConfigRevision) (failedApply : String)
  | durabilityUncertain (outcome : ApplyOutcome) (warning : String)
  deriving DecidableEq

end Chimera.Model
