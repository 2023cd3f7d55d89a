import Chimera.Manager.Store

/-! What a control transaction does step by step: reads and writes of `Ctrl`
under the control lock, publications, and calls that leave the manager. -/

namespace Chimera.Manager
open Chimera.Model Chimera.Lib.Program

inductive Op (Doc : Type) : Type → Type
  /-- A failed `expect`. -/
  | panic (message : String) : Op Doc Empty
  -- the control state
  | current : Op Doc (Option (Active Doc))
  | lastSpec : Op Doc (Option InstanceSpec)
  | quarantine : Op Doc (List QuarantinedEpoch)
  | nextEpoch : Op Doc Epoch
  /-- `ctrl.current.take()`. -/
  | take : Op Doc (Option (Active Doc))
  /-- `install`; `rollback` when the plan was current before the transaction. -/
  | install (inst : Instance) (plan : EpochPlan Doc) (rollback : Bool) : Op Doc Unit
  /-- `active.plan = desired`. -/
  | adopt (plan : EpochPlan Doc) : Op Doc Unit
  /-- `current.plan.source_spec = input`. -/
  | retainSource (spec : InstanceSpec) : Op Doc Unit
  /-- `ctrl.last_spec = Some(spec)`. -/
  | retainSpec (spec : InstanceSpec) : Op Doc Unit
  /-- `record_quarantine`. -/
  | record (epoch : Epoch) (reason : String) : Op Doc Unit
  /-- `quarantine.death_proven = true`. -/
  | proveDeath (epoch : Epoch) : Op Doc Unit
  /-- The `retain` that removes a recovered entry. -/
  | release (epoch : Epoch) : Op Doc Unit
  -- publications
  | publish (state : CoreState) (plan : Option (EpochPlan Doc)) : Op Doc Unit
  /-- The `send_modify` of `publish_instance`. -/
  | publishSnapshot (inst : Instance) (snapshot : InstanceStatus) (state : CoreState)
      (plan : EpochPlan Doc) : Op Doc Unit
  | commitConfig (snapshot : EffectiveConfigSnapshot Doc) : Op Doc Unit
  -- runtimes
  | instanceStatus (inst : Instance) : Op Doc InstanceStatus
  | abortForwarder (inst : Instance) : Op Doc Unit
  | pid (inst : Instance) : Op Doc (Option Nat)
  | launch (site : Site) (plan : EpochPlan Doc) : Op Doc (Except Error Instance)
  | waitReady (inst : Instance) : Op Doc (Except Error Unit)
  /-- `stop_and_confirm_dead`. -/
  | stop (site : Site) (inst : Instance) : Op Doc (Except Error Unit)
  /-- `reconcile_in_place`, or the restoration of a graceful bootstrap, under
  the reconcile timeout. -/
  | reconciled : Op Doc Bool
  | checkConfig (spec : InstanceSpec) : Op Doc (Except Error Unit)
  | load (path : Utf8Path) : Op Doc (Except Error (Snapshot Doc))
  | validateLaunchable (spec : InstanceSpec) : Op Doc (Except Error Unit)
  | resolveFeatures (spec : InstanceSpec) : Op Doc (Except Error ResolvedFeatures)
  -- the store
  | stage (epoch : Epoch) (contents : List UInt8) : Op Doc (Except Error Staged)
  | dropStaged (staged : Staged) : Op Doc (Except Error Unit)
  | commitNew (staged : Staged) (epoch : Epoch) : Op Doc (Except Error Utf8Path)
  | commitReplace (staged : Staged) (epoch : Epoch) : Op Doc (Except Error (Option String))
  | backup (epoch : Epoch) (generation : Nat) : Op Doc (Except Error Backup)
  | restore (saved : Backup) : Op Doc (Except Error (Option String))
  | removeBackup (saved : Backup) : Op Doc (Except Error Unit)
  | cleanupController (epoch : Epoch) : Op Doc (Except Error Unit)
  | cleanupEpoch (site : Site) (epoch : Epoch) : Op Doc (Except Error Unit)
  | cleanupArtifacts (number : Nat) : Op Doc (Except Error Unit)
  | artifactEpochs : Op Doc (Except Error (List Nat))
  | pidExists (number : Nat) : Op Doc (Except Error Bool)
  | reap (epoch : Epoch) : Op Doc (Except String OrphanReapOutcome)
  | reapOrphan (number : Nat) : Op Doc (Except String OrphanReapOutcome)
  -- host DNS
  | dnsActivate (plan : EpochPlan Doc) : Op Doc (Except Error Unit)
  | dnsDeactivate (plan : EpochPlan Doc) : Op Doc (Except Error Unit)
  | dnsConverge : Op Doc (Except Error Unit)
  | dnsRestore : Op Doc (Except Error Unit)
  | reconcileOrphan : Op Doc (Except Error Unit)
  /-- The end of `build_configured`. -/
  | boot (found : List Nat) : Op Doc Unit

variable {Doc : Type}

/-! ## Effects -/

/-- `iter_mut().find(..)` of an epoch's entry, and a change to it. -/
def updateEntry (epoch : Epoch) (f : QuarantinedEpoch → QuarantinedEpoch) :
    List QuarantinedEpoch → List QuarantinedEpoch
  | [] => []
  | q :: rest => if q.epoch = epoch then f q :: rest else q :: updateEntry epoch f rest

/-- `record_quarantine`. -/
def recordQuarantine (list : List QuarantinedEpoch) (epoch : Epoch) (reason : String) :
    List QuarantinedEpoch :=
  if list.any fun q => q.epoch = epoch then updateEntry epoch (fun q => { q with reason }) list
  else list ++ [⟨epoch, reason, false⟩]

def proveDeath (list : List QuarantinedEpoch) (epoch : Epoch) : List QuarantinedEpoch :=
  updateEntry epoch (fun q => { q with deathProven := true }) list

def releaseEpoch (list : List QuarantinedEpoch) (epoch : Epoch) : List QuarantinedEpoch :=
  list.filter fun q => q.epoch ≠ epoch

namespace World

def log (w : World Doc) (e : Event Doc) : World Doc := { w with trace := e :: w.trace }

def setCurrent (w : World Doc) (current : Option (Active Doc)) : World Doc :=
  { w with ctrl := { w.ctrl with current } }

def setQuarantine (w : World Doc) (quarantine : List QuarantinedEpoch) : World Doc :=
  { w with ctrl := { w.ctrl with quarantine } }

def setLastSpec (w : World Doc) (spec : InstanceSpec) : World Doc :=
  { w with ctrl := { w.ctrl with lastSpec := some spec } }

/-- The forwarder, the retained spec and the slot. -/
def install (w : World Doc) (inst : Instance) (plan : EpochPlan Doc) (rollback : Bool) :
    World Doc :=
  ({ w with forwarders := (inst.number, plan.revision.epoch) :: w.forwarders }.setLastSpec
    plan.sourceSpec).setCurrent (some ⟨inst, plan⟩) |>.log (.committed plan rollback)

def adopt (w : World Doc) (plan : EpochPlan Doc) : World Doc :=
  (w.setCurrent (w.ctrl.current.map fun active => { active with plan })).log (.committed plan false)

def retainSource (w : World Doc) (spec : InstanceSpec) : World Doc :=
  w.setCurrent (w.ctrl.current.map fun active =>
    { active with plan := { active.plan with sourceSpec := spec } })

/-- A runtime that was launched just now. -/
def launched (w : World Doc) (now : Int) : World Doc where
  __ := w
  launches := w.launches + 1
  instances := Function.update w.instances w.launches
    ⟨none, .starting, some (HealthStatus.startingAt now)⟩
  unseen := Function.update w.unseen w.launches false

def boot (w : World Doc) (now : Int) (found : List Nat) : World Doc where
  __ := w
  ctrl := Ctrl.new (found.foldl max 0)
  status := CoreStatus.initialAt now
  configCommit := none
  forwarders := []
  trace := .built found :: w.trace
  dnsTrace := .built :: w.dnsTrace

end World

/-- A file the store looks at outside its own functions. -/
def pidExists (number : Nat) : Prog Error StorePrim Bool := do
  pure (← file (.stat (.pid number))).isSome

/-- A call whose answer has no effect on the world. -/
def ask {β : Type} (env : Env Doc) (answer : Nat → β) (w : World Doc) :
    Except Abort β × World Doc :=
  outside env (fun tick w => (answer tick, w)) w

/-- Two calls, the second made when the first succeeds. -/
def afterwards (r : Except Abort (Except Error Unit) × World Doc)
    (next : World Doc → Except Abort (Except Error Unit) × World Doc) :
    Except Abort (Except Error Unit) × World Doc :=
  match r with
  | (.ok (.ok ()), w) => next w
  | (.ok (.error e), w) => (.ok (.error e), w)
  | (.error x, w) => (.error x, w)

def handle (setup : Setup Doc) (env : Env Doc) : Handler (Op Doc) (World Doc) Abort
  | _, .panic message, w => (.error (.panic message), w)
  | _, .current, w => (.ok w.ctrl.current, w)
  | _, .lastSpec, w => (.ok w.ctrl.lastSpec, w)
  | _, .quarantine, w => (.ok w.ctrl.quarantine, w)
  | _, .nextEpoch, w =>
    match Epoch.new (w.ctrl.last + 1) with
    | some epoch => (.ok epoch,
        { w with ctrl := { w.ctrl with last := w.ctrl.last + 1 } }.log (.allocated epoch))
    | none => (.error (.panic "epoch space exhausted"), w)
  | _, .take, w => (.ok w.ctrl.current, w.setCurrent none)
  | _, .install inst plan rollback, w => (.ok (), w.install inst plan rollback)
  | _, .adopt plan, w => (.ok (), w.adopt plan)
  | _, .retainSource spec, w => (.ok (), w.retainSource spec)
  | _, .retainSpec spec, w => (.ok (), w.setLastSpec spec)
  | _, .record epoch reason, w =>
    (.ok (), w.setQuarantine (recordQuarantine w.ctrl.quarantine epoch reason))
  | _, .proveDeath epoch, w => (.ok (), w.setQuarantine (proveDeath w.ctrl.quarantine epoch))
  | _, .release epoch, w =>
    (.ok (), (w.setQuarantine (releaseEpoch w.ctrl.quarantine epoch)).log (.released epoch))
  | _, .publish state plan, w => outside env (fun tick w =>
    ((), { w with status := publishState (env.now tick) state plan w.status })) w
  | _, .publishSnapshot inst snapshot state plan, w => outside env (fun tick w =>
    ((), { w with
      status := publishSnapshot (env.now tick) inst snapshot state plan w.status })) w
  | _, .commitConfig snapshot, w => (.ok (), { w with configCommit := some snapshot })
  | _, .instanceStatus inst, w => outside env (fun _ w => (w.instances inst.number, w)) w
  | _, .abortForwarder inst, w => outside env (fun _ w =>
    ((), { w with forwarders := w.forwarders.filter fun f => f.1 ≠ inst.number })) w
  | _, .pid _, w => ask env env.pid w
  | _, .launch site plan, w => outside env (fun tick w => match env.launch tick with
    | .ok () => (.ok ⟨w.launches, plan.revision.epoch, plan.controller⟩,
        (w.launched (env.now tick)).log (.launched site plan.revision.epoch (.ok ())))
    | .error e => (.error e, w.log (.launched site plan.revision.epoch (.error e)))) w
  | _, .waitReady _, w => ask env env.waitReady w
  | _, .stop _ inst, w => outside env (fun tick w =>
    (env.stop tick, w.log (.stopped inst.epoch (env.stop tick)))) w
  | _, .reconciled, w => ask env env.reconciled w
  | _, .checkConfig spec, w => ask env (env.checkConfig · spec) w
  | _, .load path, w => ask env (env.load · path) w
  | _, .validateLaunchable spec, w => ask env (env.validateLaunchable · spec) w
  | _, .resolveFeatures spec, w => ask env (env.resolveFeatures · spec) w
  | _, .stage epoch contents, w => exec (storeHandle env) (stage setup epoch contents) w
  | _, .dropStaged staged, w => exec (storeHandle env) (dropStaged staged) w
  | _, .commitNew staged epoch, w => exec (storeHandle env) (commitNew setup staged epoch) w
  | _, .commitReplace staged epoch, w => exec (storeHandle env) (commitReplace setup staged epoch) w
  | _, .backup epoch generation, w => exec (storeHandle env) (backup setup epoch generation) w
  | _, .restore saved, w => exec (storeHandle env) (restore setup saved) w
  | _, .removeBackup saved, w => exec (storeHandle env) (removeBackup setup saved) w
  | _, .cleanupController epoch, w => ask env (env.cleanupController · epoch) w
  | _, .cleanupEpoch _ epoch, w =>
    afterwards (ask env (env.cleanupController · epoch) w) fun w =>
      afterwards (exec (storeHandle env) (cleanupArtifacts setup epoch.get) w) fun w =>
        (.ok (.ok ()), w.log (.cleaned epoch))
  | _, .cleanupArtifacts number, w => exec (storeHandle env) (cleanupArtifacts setup number) w
  | _, .artifactEpochs, w => exec (storeHandle env) artifactEpochs w
  | _, .pidExists number, w => exec (storeHandle env) (pidExists number) w
  | _, .reap epoch, w => outside env (fun tick w => match env.reap tick epoch.get with
    | .ok outcome => (.ok outcome, w.log (.reaped epoch outcome))
    | .error e => (.error e, w)) w
  | _, .reapOrphan number, w => ask env (env.reap · number) w
  | _, .dnsActivate plan, w => exec (dnsHandle env) (dnsActivateForPlan setup plan) w
  | _, .dnsDeactivate plan, w => exec (dnsHandle env) (dnsDeactivateForPlan setup plan) w
  | _, .dnsConverge, w => exec (dnsHandle env) (dnsConverge setup) w
  | _, .dnsRestore, w => exec (dnsHandle env) (dnsRestore setup) w
  | _, .reconcileOrphan, w => exec (dnsHandle env) (reconcileOrphanRecord setup) w
  | _, .boot found, w => (.ok (), w.boot (env.now w.tick) found)

end Chimera.Manager
