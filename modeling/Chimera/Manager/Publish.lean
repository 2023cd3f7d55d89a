import Chimera.Manager.World

/-! Atomic status publication, and the forwarders that publish beside the
control transactions. -/

namespace Chimera.Manager
open Chimera.Model

variable {Doc : Type}

def defaultHealthForState (now : Int) (previous : Option HealthStatus) (state : CoreState) :
    Option HealthStatus :=
  match state with
  | .starting _ | .restarting _ _ | .switching _ _ => some (adopt .starting)
  | .running _ _ => some (adopt .healthy)
  | .stopping _ | .stopped _ => none
where
  adopt (target : HealthState) : HealthStatus :=
    match previous with
    | some p => if p.state = target then
        ⟨target, p.changedAt, p.consecutiveFailures, p.lastError, p.lastSuccessAt⟩
      else { HealthStatus.startingAt now with state := target }
    | none => { HealthStatus.startingAt now with state := target }

def specSummary (plan : EpochPlan Doc) : SpecSummary :=
  ⟨plan.sourceSpec.core.kind, plan.sourceSpec.configPath, plan.capabilities, plan.runtimeFeatures⟩

def instanceCoreState (epoch : Epoch) : InstanceState → CoreState
  | .starting => .starting epoch
  | .running pid => .running epoch pid
  | .restarting attempt => .restarting epoch attempt
  | .stopping => .stopping epoch
  | .stopped reason => .stopped (some reason)

/-- `publish`: `none` publishes a state with no epoch behind it. -/
def publishState (now : Int) (state : CoreState) (plan : Option (EpochPlan Doc))
    (status : CoreStatus) : CoreStatus where
  state := state
  instanceId := none
  health := defaultHealthForState now status.health state
  spec := plan.map specSummary
  controller := plan.map fun p => p.controller.host
  revision := plan.map fun p => p.revision
  changedAt := if status.state ≠ state then now else status.changedAt

/-- `publish_instance`, given what the instance reports. -/
def publishSnapshot (now : Int) (inst : Instance) (snapshot : InstanceStatus) (state : CoreState)
    (plan : EpochPlan Doc) (status : CoreStatus) : CoreStatus where
  state := state
  instanceId := snapshot.instanceId
  health := snapshot.health
  spec := some (specSummary plan)
  controller := some inst.controller.host
  revision := some plan.revision
  changedAt := if status.state ≠ state then now else status.changedAt

/-- `apply_epoch_status`; `none` when nothing is modified. -/
def applyEpochStatus (now : Int) (epoch : Epoch) (inst : InstanceStatus) (status : CoreStatus) :
    Option CoreStatus :=
  if status.revision.map ConfigRevision.epoch ≠ some epoch then none
  else
    let state := instanceCoreState epoch inst.state
    if status.state = state ∧ status.health = inst.health ∧
        status.instanceId = inst.instanceId then none
    else some { status with
      state := state
      health := inst.health
      instanceId := inst.instanceId
      changedAt := if status.state ≠ state then now else status.changedAt }

/-- `publish_epoch_status`. -/
def publishEpochStatus (now : Int) (epoch : Epoch) (inst : InstanceStatus) (status : CoreStatus) :
    CoreStatus :=
  (applyEpochStatus now epoch inst status).getD status

/-- One turn of a forwarder: it delivers an unseen status and ends with a
terminal one. -/
def World.forward (now : Int) (w : World Doc) (number : Nat) : World Doc :=
  match w.forwarders.lookup number with
  | none => w
  | some epoch =>
    if w.unseen number then
      let inst := w.instances number
      { w with
        status := publishEpochStatus now epoch inst w.status
        unseen := Function.update w.unseen number false
        forwarders := if inst.state.isTerminal then
            w.forwarders.filter fun f => f.1 ≠ number
          else w.forwarders }
    else w

/-- A terminal instance has ended: it publishes nothing more. -/
def World.background (now : Int) (w : World Doc) : Background → World Doc
  | .report number status =>
    if (w.instances number).state.isTerminal then w
    else { w with
      instances := Function.update w.instances number status
      unseen := Function.update w.unseen number true }
  | .forward number => w.forward now number
  | .artifact entry node =>
    if entry.ofRuntime then
      { w with artifacts := match node with
          | some n => w.artifacts.put entry n
          | none => w.artifacts.erase entry }
    else w

/-- Time passes: what runs beside the manager goes on. -/
def World.elapse (env : Env Doc) (w : World Doc) : World Doc :=
  { (env.background w.tick).foldl (World.background (env.now w.tick)) w with tick := w.tick + 1 }

/-! ## What time leaves alone -/

section Frame

variable {env : Env Doc} {w : World Doc} {now : Int} {b : Background}

/-- A part of the world that nothing in the background changes is the same
after time has passed. -/
theorem World.elapse_same {β : Type} {f : World Doc → β}
    (background : ∀ now w b, f (World.background now w b) = f w)
    (tick : ∀ (w : World Doc) n, f { w with tick := n } = f w) :
    f (w.elapse env) = f w := by
  have fold : ∀ (l : List Background) (now : Int) (w : World Doc),
      f (l.foldl (World.background now) w) = f w := by
    intro l
    induction l with
    | nil => intro now w; rfl
    | cons b rest ih =>
      intro now w
      rw [List.foldl_cons, ih, background]
  rw [World.elapse, tick, fold]

/-- What the forwarders and runtimes leave as it is. -/
theorem World.background_frame (now : Int) (w : World Doc) (b : Background) :
    ∃ status instances unseen forwarders artifacts, World.background now w b =
      { w with
        status := status
        instances := instances
        unseen := unseen
        forwarders := forwarders
        artifacts := artifacts } := by
  cases b with
  | report number status =>
    simp only [World.background]
    split
    · exact ⟨_, _, _, _, _, rfl⟩
    · exact ⟨_, _, _, _, _, rfl⟩
  | forward number =>
    simp only [World.background, World.forward]
    split
    · exact ⟨_, _, _, _, _, rfl⟩
    · split
      · exact ⟨_, _, _, _, _, rfl⟩
      · exact ⟨_, _, _, _, _, rfl⟩
  | artifact entry node =>
    simp only [World.background]
    split
    · exact ⟨_, _, _, _, _, rfl⟩
    · exact ⟨_, _, _, _, _, rfl⟩

@[simp] theorem World.elapse_ctrl : (w.elapse env).ctrl = w.ctrl := by
  refine World.elapse_same (f := World.ctrl) (fun now w b => ?_) fun _ _ => rfl
  obtain ⟨_, _, _, _, _, h⟩ := World.background_frame now w b
  rw [h]

@[simp] theorem World.elapse_trace : (w.elapse env).trace = w.trace := by
  refine World.elapse_same (f := World.trace) (fun now w b => ?_) fun _ _ => rfl
  obtain ⟨_, _, _, _, _, h⟩ := World.background_frame now w b
  rw [h]

@[simp] theorem World.elapse_dnsTrace : (w.elapse env).dnsTrace = w.dnsTrace := by
  refine World.elapse_same (f := World.dnsTrace) (fun now w b => ?_) fun _ _ => rfl
  obtain ⟨_, _, _, _, _, h⟩ := World.background_frame now w b
  rw [h]

@[simp] theorem World.elapse_recordFile : (w.elapse env).recordFile = w.recordFile := by
  refine World.elapse_same (f := World.recordFile) (fun now w b => ?_) fun _ _ => rfl
  obtain ⟨_, _, _, _, _, h⟩ := World.background_frame now w b
  rw [h]

@[simp] theorem World.elapse_recordStaging : (w.elapse env).recordStaging = w.recordStaging := by
  refine World.elapse_same (f := World.recordStaging) (fun now w b => ?_) fun _ _ => rfl
  obtain ⟨_, _, _, _, _, h⟩ := World.background_frame now w b
  rw [h]

end Frame

/-- A call that leaves the manager: the process may crash at it, and time passes
before it answers. `call` gets the tick it is made at. A crash takes no time; time goes on
where the system is idle, and a later process runs. -/
def outside {β : Type} (env : Env Doc) (call : Nat → World Doc → β × World Doc) (w : World Doc) :
    Except Abort β × World Doc :=
  if env.crash w.tick then (.error .crash, w)
  else
    let (answer, w') := call w.tick (w.elapse env)
    (.ok answer, w')

/-- A call that leaves the manager answers after time has passed. -/
theorem outside_ok {β : Type} {env : Env Doc} {call : Nat → World Doc → β × World Doc}
    {w t : World Doc} {b : β} (h : outside env call w = (.ok b, t)) :
    call w.tick (w.elapse env) = (b, t) := by
  simp only [outside] at h
  split at h
  · cases h
  · cases h
    rfl

/-- It has no effect when it does not answer. -/
theorem outside_error {β : Type} {env : Env Doc} {call : Nat → World Doc → β × World Doc}
    {w t : World Doc} {x : Abort} (h : outside env call w = (.error x, t)) :
    x = .crash ∧ t = w := by
  simp only [outside] at h
  split at h
  · cases h
    exact ⟨rfl, rfl⟩
  · cases h

end Chimera.Manager
