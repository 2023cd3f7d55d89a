import Chimera.Manager.Switching

/-! Applying a configuration to the running core: in place where the change
allows it, and with compensation by restart or switch where it does not. -/

namespace Chimera.Manager
open Chimera.Model Chimera.Lib.Program

variable {Doc : Type}

def withDurabilityWarning (outcome : ApplyOutcome) : Option String → ApplyOutcome
  | some warning => .durabilityUncertain outcome warning
  | none => outcome

def withDurabilityResult (result : Except Error ApplyOutcome) (warning : Option String) :
    Except Error ApplyOutcome :=
  match result, warning with
  | .ok outcome, warning => .ok (withDurabilityWarning outcome warning)
  | .error error, some warning => .error (.durabilityUncertain error warning)
  | .error error, none => .error error

structure PreparedApply (Doc : Type) where
  plan : EpochPlan Doc
  staged : Staged

/-- `generation + 1` on a `u64`, as a build with overflow checks computes it. -/
def nextGeneration (generation : Nat) : Control Doc Nat :=
  if generation + 1 < 2 ^ 64 then pure (generation + 1)
  else expect "attempt to add with overflow"

def prepareApply (setup : Setup Doc) (current : Active Doc) (input : InstanceSpec)
    (snapshot : Snapshot Doc) : Control Doc (PreparedApply Doc) := do
  demand (.validateLaunchable input)
  let resolved ← demand (.resolveFeatures input)
  let revision := current.plan.revision
  let full ← Prog.ret (setup.prepareFull snapshot revision.epoch resolved.runtime
    (localIpcSettings setup input))
  let prepared ← Prog.ret (nativePaths setup input full)
  let staged ← demand (.stage revision.epoch prepared.bytes)
  checkStaged setup input staged
  let generation ← nextGeneration revision.generation
  pure ⟨planFor setup input revision.epoch generation revision.runtimePath resolved snapshot
    prepared, staged⟩

/-! ## Compensation -/

/-- The plan is installed, then published as running. -/
def installAndPublish (inst : Instance) (plan : EpochPlan Doc) (rollback : Bool) :
    Control Doc Unit := do
  let pid ← perform (.pid inst)
  perform (.install inst plan rollback)
  publishRunning inst pid plan

def removeBackupQuietly (saved : Backup) : Control Doc Unit := do
  let _ ← perform (.removeBackup saved)
  pure ()

/-- The old epoch could not be stopped for a compensation. -/
def retireFailed {α : Type} (text : String) (failure : RetireFailure) : Control Doc α :=
  if failure.error.isStopUnconfirmed then latchQuarantine failure.epoch failure.error
  else publishAndFail (.applyFailed (text ++ failure.error.display))

/-- The plan that was current before is launched again. -/
def rollBack (oldPlan : EpochPlan Doc) (applyText text : String) (onSuccess : Control Doc Unit) :
    Control Doc ApplyOutcome := do
  perform (.publish (.restarting oldPlan.revision.epoch 0) (some oldPlan))
  match ← (spawnReplacement oldPlan).attempt with
  | .ok inst =>
    installAndPublish inst oldPlan true
    onSuccess
    pure (.rolledBack oldPlan.revision applyText)
  | .error error =>
    if error.isStopUnconfirmed then
      latchQuarantine oldPlan.revision.epoch (.stopUnconfirmed (text ++ " (" ++ applyText ++
        "); rollback replacement " ++ error.display))
    else publishAndFail (.applyRollbackFailed applyText error.display)

/-- The desired restart failed: the old file and the old plan come back. -/
def rollBackRestart (oldPlan : EpochPlan Doc) (saved : Backup) (applyText : String) :
    Control Doc ApplyOutcome := do
  match ← perform (.restore saved) with
  | .error error =>
    publishAndFail (.applyRollbackFailed applyText ("runtime restore failed: " ++ error.display))
  | .ok warning =>
    let result ← (rollBack oldPlan applyText "desired apply failed"
      (removeBackupQuietly saved)).attempt
    Prog.ret (withDurabilityResult result warning)

def restartWithCompensation (desired : EpochPlan Doc) (saved : Backup) :
    Control Doc ApplyOutcome := do
  demand (.dnsDeactivate desired)
  retireOld "current held by control lock"
    (fun oldPlan => do
      perform (.publish (.restarting desired.revision.epoch 0) (some desired))
      match ← (spawnReplacement desired).attempt with
      | .ok inst =>
        installAndPublish inst desired false
        removeBackupQuietly saved
        pure (.restarted desired.revision)
      | .error error =>
        if error.isStopUnconfirmed then latchQuarantine desired.revision.epoch error
        else rollBackRestart oldPlan saved error.display)
    (retireFailed "failed to stop current epoch for reconcile: ")

def switchWithCompensation (setup : Setup Doc) (input : InstanceSpec) (snapshot : Snapshot Doc) :
    Control Doc ApplyOutcome := do
  let epoch ← perform .nextEpoch
  let desired ← prepareLaunch setup input epoch snapshot
  match ← perform (.dnsDeactivate desired) with
  | .error error =>
    cleanupQuietly epoch
    fail error
  | .ok () =>
  retireOld "current held by control lock"
    (fun oldPlan => do
      perform (.publish (.switching (some oldPlan.revision.epoch) desired.revision.epoch)
        (some desired))
      match ← (spawnReplacement desired).attempt with
      | .ok inst =>
        installAndPublish inst desired false
        cleanupQuietly oldPlan.revision.epoch
        pure (.switched desired.revision)
      | .error error =>
        if error.isStopUnconfirmed then latchQuarantine desired.revision.epoch error
        else do
          cleanupQuietly epoch
          rollBack oldPlan error.display "desired switch failed" (pure ()))
    (fun failure => do
      cleanupQuietly epoch
      retireFailed "failed to stop current epoch for switch: " failure)

/-! ## The transaction -/

/-- The in-place change took: the plan is replaced under the live instance. -/
def adoptInPlace (active : Active Doc) (desired : EpochPlan Doc) (saved : Backup) :
    Control Doc Unit := do
  perform (.adopt desired)
  let pid ← perform (.pid active.inst)
  publishRunning active.inst pid desired
  perform (.retainSpec desired.sourceSpec)
  removeBackupQuietly saved

/-- A prepared change is committed over the epoch's file, with the commit's
warning, unless DNS or the store refuses it. -/
def commitChange (saved : Backup) (prepared : PreparedApply Doc) : Control Doc (Option String) := do
  match ← perform (.dnsDeactivate prepared.plan) with
  | .error error =>
    removeBackupQuietly saved
    dropStagedFile prepared.staged
    fail error
  | .ok () =>
  match ← perform (.dnsActivate prepared.plan) with
  | .error error =>
    let _ ← perform .dnsConverge
    removeBackupQuietly saved
    dropStagedFile prepared.staged
    fail error
  | .ok () =>
  match ← perform .current with
  | none =>
    dropStagedFile prepared.staged
    fail .notStarted
  | some _ =>
  match ← perform (.commitReplace prepared.staged prepared.plan.revision.epoch) with
  | .error error =>
    let _ ← perform .dnsConverge
    removeBackupQuietly saved
    fail error
  | .ok warning => pure warning

/-- A change that the core can take without a new process. -/
def applyChange (active : Active Doc) (prepared : PreparedApply Doc)
    (outcome : ConfigRevision → ApplyOutcome) : Control Doc ApplyOutcome := do
  let desired := prepared.plan
  let saved ← orDrop prepared.staged
    (demand (.backup active.plan.revision.epoch desired.revision.generation))
  let warning ← commitChange saved prepared
  if ← perform .reconciled then do
    adoptInPlace active desired saved
    pure (withDurabilityWarning (outcome desired.revision) warning)
  else do
    let result ← (restartWithCompensation desired saved).attempt
    Prog.ret (withDurabilityResult result warning)

def applyLocked (setup : Setup Doc) (input : InstanceSpec) (expected : Option RevisionId) :
    Control Doc ApplyOutcome := do
  match ← perform .current with
  | none => fail .notStarted
  | some active =>
  let status ← perform (.instanceStatus active.inst)
  if status.state.isTerminal then fail .notStarted
  else
    let actual := active.plan.revision.id
    match expected.filter (· ≠ actual) with
    | some other => fail (.revisionConflict other (some actual))
    | none => do
    let snapshot ← demand (.load input.configPath)
    let prepared ← prepareApply setup active input snapshot
    match setup.classify active.plan.classificationView prepared.plan.classificationView with
    | .error error =>
      dropStagedFile prepared.staged
      fail error
    | .ok .noop =>
      perform (.retainSource input)
      perform (.retainSpec input)
      dropStagedFile prepared.staged
      pure (.noop active.plan.revision)
    | .ok .switch =>
      dropStagedFile prepared.staged
      switchWithCompensation setup input snapshot
    | .ok .patch => applyChange active prepared .patched
    | .ok .reload => applyChange active prepared .reloaded

end Chimera.Manager
