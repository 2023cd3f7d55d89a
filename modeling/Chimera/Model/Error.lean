import Chimera.Model.State

/-! The domain error of the core manager, its display texts and its wire
classification. Errors of other crates (`StoreError`, `ProcessError`, the API,
YAML and I/O errors) are kept as their display text. -/

namespace Chimera.Model

inductive CoreErrorKind where
  | notStarted | alreadyRunning | revisionConflict | quarantined | configCheckFailed
  | configNotFound | binaryNotFound | invalidConfig | controllerMissing | applyFailed
  | applyRollbackFailed | stopUnconfirmed | nativeStoreUnavailable | shuttingDown
  | queueFull | operationConflict | backendUnavailable | internal
  deriving DecidableEq, Repr

def CoreErrorKind.defaultRetryable : CoreErrorKind → Bool
  | .queueFull | .backendUnavailable => true
  | _ => false

inductive Error where
  | alreadyRunning
  | notStarted
  | configNotFound (path : Utf8Path)
  | binaryNotFound (path : Utf8Path)
  | coreVersionProbeFailed (binaryPath : Utf8Path) (detail : String)
  | controllerMissing
  | requiredLocalIpcUnsupported (kind : CoreKind) (version : String)
  | configCheckFailed (detail : String)
  | invalidConfig (detail : String)
  | invalidManagerOptions (detail : String)
  | invalidHealthPolicy (detail : String)
  | unsafeRuntimeArtifact (path : Utf8Path)
  | runtimeDirectoryOwned (path : Utf8Path)
  | stopUnconfirmed (detail : String)
  | managerQuarantined (epoch : Epoch) (reason : String)
  | revisionConflict (expected : RevisionId) (actual : Option RevisionId)
  | applyFailed (detail : String)
  | applyRollbackFailed (apply rollback : String)
  | durabilityUncertain (source : Error) (warning : String)
  | startupTimeout (stderrTail : String)
  | startupFailed (stderrTail : String)
  | nativeStore (text : String)
  | process (text : String)
  | api (text : String)
  | yaml (text : String)
  | io (text : String)
  deriving DecidableEq

/-- `matches!(error, Error::StopUnconfirmed(_))`: a durability wrapper around
one does not match. -/
def Error.isStopUnconfirmed : Error → Bool
  | .stopUnconfirmed _ => true
  | _ => false

def Error.display : Error → String
  | .alreadyRunning => "core is already running"
  | .notStarted => "core is not running"
  | .configNotFound path => "config file not found: " ++ path
  | .binaryNotFound path => "core binary not found: " ++ path
  | .coreVersionProbeFailed path detail =>
    "failed to probe version from core binary `" ++ path ++ "`: " ++ detail
  | .controllerMissing =>
    "no external controller configured; the version health probe needs one"
  | .requiredLocalIpcUnsupported kind version =>
    "core `" ++ kind.display ++ "` version `" ++ version ++
      "` does not support the required local IPC transport; use LocalIpcPolicy::Prefer or LocalIpcPolicy::Disable"
  | .configCheckFailed detail => "config check failed: " ++ detail
  | .invalidConfig detail => "invalid runtime config: " ++ detail
  | .invalidManagerOptions detail => "invalid manager options: " ++ detail
  | .invalidHealthPolicy detail => "invalid health policy: " ++ detail
  | .unsafeRuntimeArtifact path => "unsafe runtime artifact: " ++ path
  | .runtimeDirectoryOwned path =>
    "runtime directory is already owned by another manager: " ++ path
  | .stopUnconfirmed detail => "core process death could not be confirmed: " ++ detail
  | .managerQuarantined epoch reason =>
    "manager is quarantined by uncertain epoch " ++ epoch.display ++ ": " ++ reason
  | .revisionConflict expected actual =>
    "config revision conflict: expected " ++ expected.display ++ ", actual " ++
      match actual with
      | some r => "Some(" ++ r.debug ++ ")"
      | none => "None"
  | .applyFailed detail => "config apply failed: " ++ detail
  | .applyRollbackFailed apply rollback =>
    "config apply failed (" ++ apply ++ "); rollback also failed (" ++ rollback ++ ")"
  | .durabilityUncertain source warning =>
    source.display ++ "; runtime durability warning: " ++ warning
  | .startupTimeout tail =>
    "core did not become healthy before the startup timeout; diagnostic log tail:\n" ++ tail
  | .startupFailed tail => "core failed to start; diagnostic log tail:\n" ++ tail
  | .nativeStore text | .process text | .api text | .io text => text
  | .yaml text => "failed to process config YAML: " ++ text

def Error.kind : Error → Option CoreErrorKind
  | .alreadyRunning => some .alreadyRunning
  | .notStarted => some .notStarted
  | .configNotFound _ => some .configNotFound
  | .binaryNotFound _ => some .binaryNotFound
  | .controllerMissing => some .controllerMissing
  | .configCheckFailed _ => some .configCheckFailed
  | .invalidConfig _ | .yaml _ => some .invalidConfig
  | .stopUnconfirmed _ => some .stopUnconfirmed
  | .nativeStore _ => some .nativeStoreUnavailable
  | .managerQuarantined _ _ => some .quarantined
  | .revisionConflict _ _ => some .revisionConflict
  | .applyFailed _ => some .applyFailed
  | .applyRollbackFailed _ _ => some .applyRollbackFailed
  | .durabilityUncertain source _ => source.kind
  | .coreVersionProbeFailed _ _ | .requiredLocalIpcUnsupported _ _
  | .invalidManagerOptions _ | .invalidHealthPolicy _ | .unsafeRuntimeArtifact _
  | .runtimeDirectoryOwned _ | .startupTimeout _ | .startupFailed _
  | .process _ | .api _ | .io _ => none

end Chimera.Model
