import Chimera.Manager.Launch

/-! Switching to another spec: hard, by retiring the old epoch first, or
graceful, by bringing a bootstrap up beside it. -/

namespace Chimera.Manager
open Chimera.Model Chimera.Lib.Program

variable {Doc : Type}

def gracefulDegradeReason (localController : Bool) (kind : CoreKind)
    (overlapBlock : Option OverlapBlock) : Option DegradeReason :=
  if !localController then some .httpController
  else if kind ≠ .mihomo then some .unsupportedKind
  else match overlapBlock with
    | some .dnsListen => some .dnsListen
    | some .inboundSurface => some .inboundConflict
    | none => none

def withSwitchDurabilityWarning (outcome : SwitchOutcome) : Option String → SwitchOutcome
  | some warning => .durabilityUncertain outcome warning
  | none => outcome

def withSwitchDurabilityResult (result : Except Error SwitchOutcome) (warning : Option String) :
    Except Error SwitchOutcome :=
  match result, warning with
  | .ok outcome, warning => .ok (withSwitchDurabilityWarning outcome warning)
  | .error error, some warning => .error (.durabilityUncertain error warning)
  | .error error, none => .error error

/-- The old epoch is retired, or `onFailure` deals with the failure. The caller
has made sure that there is one; `message` is its `expect`. -/
def retireOld {α : Type} (message : String) (next : EpochPlan Doc → Control Doc α)
    (onFailure : RetireFailure → Control Doc α) : Control Doc α := do
  match ← retireCurrent .current with
  | .ok (some plan) => next plan
  | .ok none => expect message
  | .error failure => onFailure failure

/-- A candidate is given up while the old epoch is still the owner. -/
def abandonCandidate {α : Type} (epoch : Epoch) (error : Error) : Control Doc α := do
  cleanupQuietly epoch
  republishRetained
  fail error

def hardSwitch (setup : Setup Doc) (spec : InstanceSpec) (snapshot : Snapshot Doc)
    (resolved : ResolvedFeatures) : Control Doc Unit := do
  let epoch ← perform .nextEpoch
  match ← (prepareLaunchWithFeatures setup spec epoch snapshot resolved).attempt with
  | .error error => abandonCandidate epoch error
  | .ok plan =>
  match ← perform (.dnsDeactivate plan) with
  | .error error => abandonCandidate epoch error
  | .ok () =>
  let old ← perform .current
  perform (.publish (.switching (old.map fun active => active.inst.epoch) epoch) (some plan))
  retireOld "running checked by caller"
    (fun retired => do
      match ← perform (.cleanupEpoch .current retired.revision.epoch) with
      | .error error => publishAndFail error
      | .ok () => startPrepared plan)
    (fun failure => do
      cleanupQuietly epoch
      stopFailed failure.epoch failure.error)

/-! ## The graceful switch -/

structure PreparedGraceful (Doc : Type) where
  plan : EpochPlan Doc
  fullStaged : Staged

/-- What is staged for a candidate is dropped when a later step fails. -/
def orDrop {α : Type} (staged : Staged) (p : Control Doc α) : Control Doc α := do
  match ← p.attempt with
  | .ok a => pure a
  | .error error =>
    dropStagedFile staged
    fail error

def prepareGraceful (setup : Setup Doc) (spec : InstanceSpec) (epoch : Epoch)
    (snapshot : Snapshot Doc) (resolved : ResolvedFeatures) :
    Control Doc (PreparedGraceful Doc) := do
  let settings := localIpcSettings setup spec
  let full ← Prog.ret (setup.prepareFull snapshot epoch resolved.runtime settings)
  let bootstrap ← Prog.ret (setup.prepareBootstrap snapshot epoch resolved.runtime settings)
  if full.controller ≠ bootstrap.controller then
    fail (.invalidConfig "full and bootstrap configs resolved different controllers")
  else do
    let _ ← Prog.ret (setup.restorationPatch bootstrap.document full.document)
    let fullStaged ← demand (.stage epoch full.bytes)
    checkStaged setup spec fullStaged
    let runtimePath ← orDrop fullStaged do
      let bootstrapStaged ← demand (.stage epoch bootstrap.bytes)
      checkStaged setup spec bootstrapStaged
      demand (.commitNew bootstrapStaged epoch)
    pure ⟨planFor setup spec epoch 1 runtimePath resolved snapshot full, fullStaged⟩

/-- A bootstrap that is not wanted, while the old epoch is still the owner. -/
def rejectBootstrap {α : Type} (inst : Instance) (epoch : Epoch) (error : Error) (text : String) :
    Control Doc α := do
  match ← perform (.stop .bootstrap inst) with
  | .ok () => abandonCandidate epoch error
  | .error stopError =>
    latchQuarantine epoch (.stopUnconfirmed (error.display ++ text ++ stopError.display))

/-- The old epoch did not retire: the bootstrap goes as well. -/
def retreatFromBoth {α : Type} (inst : Instance) (epoch : Epoch) (failure : RetireFailure) :
    Control Doc α := do
  match ← perform (.stop .bootstrap inst) with
  | .ok () =>
    cleanupQuietly epoch
    stopFailed failure.epoch failure.error
  | .error newError =>
    if failure.error.isStopUnconfirmed then
      perform (.record failure.epoch failure.error.display)
      latchQuarantine epoch (unconfirmed newError)
    else latchQuarantine epoch (unconfirmed newError)
where
  unconfirmed (newError : Error) : Error := .stopUnconfirmed ("old epoch stop failed: " ++
    failure.error.display ++ "; new bootstrap stop also failed: " ++ newError.display)

/-- The full config could not be committed over the bootstrap's. -/
def commitFailed {α : Type} (inst : Instance) (epoch : Epoch) (error : Error) : Control Doc α := do
  match ← perform (.stop .bootstrap inst) with
  | .ok () =>
    cleanupQuietly epoch
    stopFailed epoch error
  | .error newError =>
    latchQuarantine epoch (.stopUnconfirmed ("full runtime commit failed: " ++ error.display ++
      "; bootstrap stop also failed: " ++ newError.display))

/-- `Running` is published, the plan installed and the old epoch's artifacts
removed. -/
def completeSwitch (inst : Instance) (plan : EpochPlan Doc) (old : Epoch)
    (outcome : SwitchOutcome) : Control Doc SwitchOutcome := do
  let pid ← perform (.pid inst)
  publishRunning inst pid plan
  perform (.install inst plan false)
  demand (.cleanupEpoch .current old)
  pure outcome

/-- The bootstrap did not take the full config: a replacement is launched. -/
def replaceBootstrap (inst : Instance) (plan : EpochPlan Doc) (old : Epoch) :
    Control Doc SwitchOutcome := do
  let epoch := plan.revision.epoch
  match ← perform (.stop .bootstrap inst) with
  | .error error => stopFailed epoch error
  | .ok () =>
  match ← (spawnReplacement plan).attempt with
  | .error error =>
    if error.isStopUnconfirmed then latchQuarantine epoch error
    else rejectLaunch epoch error
  | .ok replacement => completeSwitch replacement plan old (.hard .patchFailed)

/-- The graceful switch once the bootstrap is ready and DNS is out of its way. -/
def takeOver (inst : Instance) (plan : EpochPlan Doc) (fullStaged : Staged) :
    Control Doc SwitchOutcome := do
  let epoch := plan.revision.epoch
  retireOld "running checked by caller"
    (fun retired => do
      let old := retired.revision.epoch
      match ← perform (.commitReplace fullStaged epoch) with
      | .error error => commitFailed inst epoch error
      | .ok warning =>
      if ← perform .reconciled then do
        let result ← (completeSwitch inst plan old .graceful).attempt
        Prog.ret (withSwitchDurabilityResult result warning)
      else do
        let result ← (replaceBootstrap inst plan old).attempt
        Prog.ret (withSwitchDurabilityResult result warning))
    (fun failure => do
      dropStagedFile fullStaged
      retreatFromBoth inst epoch failure)

def gracefulSwitch (setup : Setup Doc) (spec : InstanceSpec) (snapshot : Snapshot Doc)
    (resolved : ResolvedFeatures) : Control Doc SwitchOutcome := do
  let old ← perform .current
  let epoch ← perform .nextEpoch
  match ← (prepareGraceful setup spec epoch snapshot resolved).attempt with
  | .error error => abandonCandidate epoch error
  | .ok ⟨plan, fullStaged⟩ =>
  match ← perform (.dnsActivate plan) with
  | .error error =>
    let _ ← perform .dnsConverge
    dropStagedFile fullStaged
    abandonCandidate epoch error
  | .ok () =>
  perform (.publish (.switching (old.map fun active => active.inst.epoch) epoch) (some plan))
  match ← perform (.launch .bootstrap plan) with
  | .error error =>
    dropStagedFile fullStaged
    abandonCandidate epoch error
  | .ok inst =>
  match ← perform (.waitReady inst) with
  | .error error =>
    dropStagedFile fullStaged
    rejectBootstrap inst epoch error "; failed to stop rejected graceful bootstrap: "
  | .ok () =>
  match ← perform (.dnsDeactivate plan) with
  | .error error =>
    dropStagedFile fullStaged
    rejectBootstrap inst epoch error
      "; failed to stop graceful bootstrap after DNS restore failure: "
  | .ok () => takeOver inst plan fullStaged

/-! ## Choosing -/

/-- Whether the current instance has not ended. -/
def runtimeAlive : Control Doc Bool := do
  match ← perform .current with
  | none => pure false
  | some active =>
    let status ← perform (.instanceStatus active.inst)
    pure (!status.state.isTerminal)

/-- `has_http` in `switch_locked`. -/
def hasHttp (setup : Setup Doc) (doc : Doc) : Bool :=
  ["external-controller", "external-controller-tls"].any fun field =>
    match setup.textField doc field with
    | some value => !value.isEmpty
    | none => false

def switchLocked (setup : Setup Doc) (spec : InstanceSpec) : Control Doc SwitchOutcome := do
  if !(← runtimeAlive) then do
    discardStale
    startLocked setup spec
    pure (.hard .notRunning)
  else do
    let snapshot ← demand (.load spec.configPath)
    demand (.validateLaunchable spec)
    let resolved ← demand (.resolveFeatures spec)
    let current ← perform .current
    let httpListener := (current.elim false fun active => hasHttp setup active.plan.effectiveDocument)
      || ((localIpcSettings setup spec).keepHttpController && hasHttp setup snapshot.document)
    if setup.nativeStore.isSome then do
      hardSwitch setup spec snapshot resolved
      pure (.hard .nativeStoreShared)
    else
      match gracefulDegradeReason
          (decide (RuntimeFeature.localIpc ∈ resolved.runtime) && !httpListener)
          spec.core.kind (setup.overlapBlock snapshot.document) with
      | some reason => do
        hardSwitch setup spec snapshot resolved
        pure (.hard reason)
      | none => gracefulSwitch setup spec snapshot resolved

end Chimera.Manager
