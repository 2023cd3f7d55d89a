import Chimera.Model.State

/-! The wire projection of a manager snapshot: what `/status` and the status event both
carry. -/

namespace Chimera.Service
open Chimera.Model

/-- The `CoreState` of the wire. -/
inductive IpcState where
  | running
  | stopped (reason : Option String)
  deriving DecidableEq

def IpcState.isStopped : IpcState → Bool
  | .stopped _ => true
  | .running => false

inductive CoreControllerInfo where
  | namedPipe (path : Utf8Path)
  | unixSocket (path : Utf8Path)
  | http (url : String)
  deriving DecidableEq

structure ConfigRevisionInfo where
  epoch : Nat
  generation : Nat
  sourceHash : String
  effectiveHash : String
  deriving DecidableEq

inductive CoreStateDetail where
  | stopped (reason : Option String)
  | starting (epoch : Nat)
  | running (epoch pid : Nat)
  | restarting (epoch attempt : Nat)
  | switching (source : Option Nat) (target : Nat)
  | stopping (epoch : Nat)
  deriving DecidableEq

/-- `health` has the fields of the manager's own record. -/
structure CoreInfos (CoreType : Type) where
  instanceId : Option String
  type : Option CoreType
  state : IpcState
  stateChangedAt : Int
  configPath : Option Utf8Path
  controller : Option CoreControllerInfo
  health : Option HealthStatus
  revision : Option ConfigRevisionInfo
  detail : Option CoreStateDetail
  deriving DecidableEq

/-- What the projection takes from the `uuid` and `url` crates: the text of an identity,
and that of a URL without its user and password. -/
structure Texts where
  uuid : Nat → String
  bareUrl : String → String

variable {CoreType : Type}

/-- `StopReason::to_string`. -/
def stopReasonText : StopReason → String
  | .finished => "core exited"
  | .user => "stopped by user"
  | .error message => message

def mapCoreState : CoreState → IpcState
  | .running _ _ | .switching _ _ | .stopping _ => .running
  | .starting _ | .restarting _ _ => .stopped none
  | .stopped reason => .stopped (reason.map stopReasonText)

def mapController (texts : Texts) : Model.Host → CoreControllerInfo
  | .namedPipe path => .namedPipe path
  | .unixSocket path => .unixSocket path
  | .http url => .http (texts.bareUrl url)

def mapRevision (revision : ConfigRevision) : ConfigRevisionInfo :=
  ⟨revision.epoch.get, revision.generation, revision.sourceHash, revision.effectiveHash⟩

def mapStateDetail : CoreState → CoreStateDetail
  | .stopped reason => .stopped (reason.map stopReasonText)
  | .starting epoch => .starting epoch.get
  | .running epoch pid => .running epoch.get pid
  | .restarting epoch attempt => .restarting epoch.get attempt
  | .switching source target => .switching (source.map Epoch.get) target.get
  | .stopping epoch => .stopping epoch.get

def projectCoreInfos (texts : Texts) (status : CoreStatus) (requestedCore : Option CoreType) :
    CoreInfos CoreType where
  instanceId := status.instanceId.map texts.uuid
  type := requestedCore
  state := mapCoreState status.state
  stateChangedAt := status.changedAt
  configPath := status.spec.map SpecSummary.configPath
  controller := status.controller.map (mapController texts)
  health := status.health
  revision := status.revision.map mapRevision
  detail := some (mapStateDetail status.state)

def sameIpcState : IpcState → IpcState → Bool
  | .running, .running => true
  | .stopped previous, .stopped next => previous == next
  | _, _ => false

theorem sameIpcState_iff {previous next : IpcState} :
    sameIpcState previous next = true ↔ previous = next := by
  cases previous <;> cases next <;> simp [sameIpcState]

end Chimera.Service
