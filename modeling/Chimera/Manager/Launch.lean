import Chimera.Manager.Ops

/-! Starting, retiring and replacing one epoch: the parts that every control
transaction is made of, and `start`, `stop` and `shutdown` themselves. -/

namespace Chimera.Manager
open Chimera.Model Chimera.Lib.Program

variable {Doc : Type}

/-- A piece of a control transaction. -/
abbrev Control (Doc : Type) := Prog Error (Op Doc)

def expect {α : Type} (message : String) : Control Doc α := do
  nomatch ← perform (.panic message)

/-! ## Publication -/

def publishTerminalError (error : Error) : Control Doc Unit :=
  perform (.publish (.stopped (some (.error error.display))) none)

/-- A `Running` publication with an instance id is a configuration commit. -/
def announceConfig (state : CoreState) (instanceId : Option Nat) (plan : EpochPlan Doc) :
    Control Doc Unit :=
  match state, instanceId with
  | .running _ _, some id => perform (.commitConfig ⟨id, plan.revision, plan.effectiveDocument⟩)
  | _, _ => pure ()

def publishInstance (inst : Instance) (state : CoreState) (plan : EpochPlan Doc) :
    Control Doc Unit := do
  let snapshot ← perform (.instanceStatus inst)
  announceConfig state snapshot.instanceId plan
  perform (.publishSnapshot inst snapshot state plan)

/-- The `Running` publication; `pid().unwrap_or_default()`. -/
def publishRunning (inst : Instance) (pid : Option Nat) (plan : EpochPlan Doc) :
    Control Doc Unit :=
  publishInstance inst (.running plan.revision.epoch (pid.getD 0)) plan

def republishRetained : Control Doc Unit := do
  match ← perform .current with
  | none => pure ()
  | some active =>
    let status ← perform (.instanceStatus active.inst)
    publishInstance active.inst (instanceCoreState active.inst.epoch status.state) active.plan

/-! ## Quarantine -/

def quarantineError : List QuarantinedEpoch → Option Error
  | [] => none
  | [first] => some (.managerQuarantined first.epoch first.reason)
  | first :: rest => some (.managerQuarantined first.epoch
      (first.reason ++ "; additional uncertain epochs: " ++
        ", ".intercalate ((first :: rest).map fun q => q.epoch.display)))

def rejectQuarantine : Control Doc Unit := do
  match quarantineError (← perform .quarantine) with
  | some error => fail error
  | none => pure ()

/-- `return Err(self.latch_quarantine(..))`. -/
def latchQuarantine {α : Type} (epoch : Epoch) (error : Error) : Control Doc α := do
  perform (.record epoch error.display)
  match quarantineError (← perform .quarantine) with
  | some quarantine =>
    publishTerminalError quarantine
    fail error
  | none => expect "quarantine was just inserted"

/-- A terminal error is published and returned. -/
def publishAndFail {α : Type} (error : Error) : Control Doc α := do
  publishTerminalError error
  fail error

/-! ## Preparing a launch -/

def localIpcSettings (setup : Setup Doc) (spec : InstanceSpec) : LocalIpcSettings :=
  spec.options.localIpc.getD ⟨setup.localIpcPolicy, false⟩

def dropStagedFile (staged : Staged) : Control Doc Unit := do
  let _ ← perform (.dropStaged staged)
  pure ()

/-- The core's own check of a staged file. -/
def checkStaged (setup : Setup Doc) (spec : InstanceSpec) (staged : Staged) : Control Doc Unit := do
  match ← perform (.checkConfig { spec with configPath := setup.path staged.artifact }) with
  | .ok () => pure ()
  | .error error =>
    dropStagedFile staged
    fail error

def nativePaths (setup : Setup Doc) (spec : InstanceSpec) (prepared : Prepared Doc) :
    Except Error (Prepared Doc) :=
  match setup.nativeStore with
  | some store => store.nativePaths spec.core.kind prepared
  | none => .ok prepared

/-- The plan of an epoch whose file is at `runtimePath`. -/
def planFor (setup : Setup Doc) (spec : InstanceSpec) (epoch : Epoch) (generation : Nat)
    (runtimePath : Utf8Path) (resolved : ResolvedFeatures) (snapshot : Snapshot Doc)
    (prepared : Prepared Doc) : EpochPlan Doc where
  sourceSpec := spec
  effectiveSpec := { spec with
    workingDir := match setup.nativeStore with
      | some store => store.home spec.core.kind
      | none => spec.workingDir
    configPath := runtimePath
    pidFile := some (setup.path (.pid epoch.get)) }
  controller := prepared.controller
  revision := ⟨epoch, generation, prepared.sourceHash, prepared.effectiveHash, runtimePath⟩
  capabilities := resolved.capabilities
  runtimeFeatures := resolved.runtime
  sourceDocument := snapshot.document
  effectiveDocument := prepared.document

def prepareLaunchWithFeatures (setup : Setup Doc) (spec : InstanceSpec) (epoch : Epoch)
    (snapshot : Snapshot Doc) (resolved : ResolvedFeatures) : Control Doc (EpochPlan Doc) := do
  let full ← Prog.ret (setup.prepareFull snapshot epoch resolved.runtime
    (localIpcSettings setup spec))
  let prepared ← Prog.ret (nativePaths setup spec full)
  let staged ← demand (.stage epoch prepared.bytes)
  checkStaged setup spec staged
  let runtimePath ← demand (.commitNew staged epoch)
  pure (planFor setup spec epoch 1 runtimePath resolved snapshot prepared)

def prepareLaunch (setup : Setup Doc) (spec : InstanceSpec) (epoch : Epoch)
    (snapshot : Snapshot Doc) : Control Doc (EpochPlan Doc) := do
  demand (.validateLaunchable spec)
  let resolved ← demand (.resolveFeatures spec)
  prepareLaunchWithFeatures setup spec epoch snapshot resolved

/-! ## Starting -/

/-- `let _ = self.cleanup_epoch(epoch).await`. -/
def cleanupQuietly (epoch : Epoch) : Control Doc Unit := do
  let _ ← perform (.cleanupEpoch .current epoch)
  pure ()

/-- `if let Err(..) = self.dns_restore(ctrl).await { warn }`. -/
def restoreDnsQuietly : Control Doc Unit := do
  let _ ← perform .dnsRestore
  pure ()

/-- A rejected launch: its artifacts go and its error is published. -/
def rejectLaunch {α : Type} (epoch : Epoch) (error : Error) : Control Doc α := do
  cleanupQuietly epoch
  publishAndFail error

def startPrepared (plan : EpochPlan Doc) : Control Doc Unit := do
  let epoch := plan.revision.epoch
  match ← perform (.dnsActivate plan) with
  | .error error =>
    restoreDnsQuietly
    rejectLaunch epoch error
  | .ok () =>
  match ← perform (.dnsDeactivate plan) with
  | .error error => rejectLaunch epoch error
  | .ok () =>
  perform (.publish (.starting epoch) (some plan))
  match ← perform (.launch .initial plan) with
  | .error error =>
    restoreDnsQuietly
    rejectLaunch epoch error
  | .ok inst =>
  match ← perform (.waitReady inst) with
  | .error readiness =>
    match ← perform (.stop .initial inst) with
    | .ok () =>
      restoreDnsQuietly
      rejectLaunch epoch readiness
    | .error stopError =>
      latchQuarantine epoch (.stopUnconfirmed (readiness.display ++
        "; failed to stop rejected initial instance: " ++ stopError.display))
  | .ok () =>
  let pid ← perform (.pid inst)
  publishRunning inst pid plan
  perform (.install inst plan false)

def startLocked (setup : Setup Doc) (spec : InstanceSpec) : Control Doc Unit := do
  let epoch ← perform .nextEpoch
  match ← perform (.load spec.configPath) with
  | .error error => publishAndFail error
  | .ok snapshot =>
  match ← (prepareLaunch setup spec epoch snapshot).attempt with
  | .error error => rejectLaunch epoch error
  | .ok plan => startPrepared plan

/-! ## Retiring -/

structure RetireFailure where
  epoch : Epoch
  error : Error

def retireCurrent (site : Site) : Control Doc (Except RetireFailure (Option (EpochPlan Doc))) := do
  match ← perform .take with
  | none => pure (.ok none)
  | some active =>
    perform (.abortForwarder active.inst)
    match ← perform (.stop site active.inst) with
    | .ok () => pure (.ok (some active.plan))
    | .error error => pure (.error ⟨active.plan.revision.epoch, error⟩)

def discardStale : Control Doc Unit := do
  match ← retireCurrent .stale with
  | .ok none => pure ()
  | .ok (some plan) => demand (.cleanupEpoch .stale plan.revision.epoch)
  | .error ⟨epoch, error⟩ =>
    if error.isStopUnconfirmed then latchQuarantine epoch error else fail error

/-- The end of every stop: an unconfirmed one latches quarantine, any other
failure is published. -/
def stopFailed {α : Type} (epoch : Epoch) (error : Error) : Control Doc α :=
  if error.isStopUnconfirmed then latchQuarantine epoch error else publishAndFail error

/-- `stop_and_confirm_dead`, `cleanup_epoch` and the `Stopped` publication that
`stop` and `shutdown` share. -/
def stopActive (active : Active Doc) : Control Doc Unit := do
  let epoch := active.inst.epoch
  perform (.publish (.stopping epoch) (some active.plan))
  match ← perform (.stop .current active.inst) with
  | .error error => stopFailed epoch error
  | .ok () =>
  match ← perform (.cleanupEpoch .current epoch) with
  | .error error => publishAndFail error
  | .ok () => perform (.publish (.stopped (some .user)) none)

/-- `stop` of an instance that had already ended. -/
def stopEnded (active : Active Doc) (captured : InstanceStatus) : Control Doc Unit := do
  let epoch := active.inst.epoch
  perform (.publish (instanceCoreState epoch captured.state) (some active.plan))
  match ← perform (.stop .current active.inst) with
  | .error error =>
    if error.isStopUnconfirmed then latchQuarantine epoch error else fail error
  | .ok () =>
  match ← perform (.cleanupEpoch .current epoch) with
  | .error error => publishAndFail error
  | .ok () => fail .notStarted

def stop : Control Doc Unit := do
  demand .dnsRestore
  match ← perform .take with
  | none => fail .notStarted
  | some active =>
    let captured ← perform (.instanceStatus active.inst)
    perform (.abortForwarder active.inst)
    if captured.state.isTerminal then stopEnded active captured else stopActive active

/-- The log archive that `shutdown` closes last is not modelled. -/
def shutdown : Control Doc Unit := do
  demand .dnsRestore
  match ← perform .take with
  | none => pure ()
  | some active =>
    perform (.abortForwarder active.inst)
    stopActive active

/-! ## Replacing -/

def spawnReplacement (plan : EpochPlan Doc) : Control Doc Instance := do
  demand (.dnsDeactivate plan)
  demand (.dnsActivate plan)
  let inst ← demand (.launch .replacement plan)
  match ← perform (.waitReady inst) with
  | .ok () => pure inst
  | .error error =>
    match ← perform (.stop .replacement inst) with
    | .ok () => fail error
    | .error stopError => fail (.stopUnconfirmed (error.display ++
        "; failed to stop rejected replacement: " ++ stopError.display))

end Chimera.Manager
