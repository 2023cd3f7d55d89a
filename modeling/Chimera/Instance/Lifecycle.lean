import Chimera.Instance.Readiness

/-! The end of an instance's life: what may be published once `Stopping` or `Stopped`
has been. -/

namespace Chimera.Instance
open Chimera.Model Chimera.Lib.Transition

/-! ## The order of states -/

/-- What may be published over a state: `Stopping` ends in `Stopped`, and that is the
last one. -/
def MayFollow (current next : InstanceState) : Prop :=
  (current = .stopping → next = .stopping ∨ ∃ reason, next = .stopped reason) ∧
    ∀ reason, current = .stopped reason → next = .stopped reason

/-- Every publication may follow the one before it. -/
def Chained : List Entry → Prop
  | [] => True
  | .published _ state :: older => MayFollow (lastState older) state ∧ Chained older
  | _ :: older => Chained older

/-- After `Stopping` only `Stopping` and `Stopped` are published, after `Stopped`
nothing else. -/
def Settled (history : List Entry) : Prop :=
  ∀ newer older origin state, history = newer ++ .published origin state :: older →
    ∀ later next, .published later next ∈ newer → MayFollow state next

def Final : InstanceState → Prop
  | .stopping | .stopped _ => True
  | .starting | .running _ | .restarting _ => False

/-- A state that was read can be sent: a final one is still the published one. -/
def Agrees (current copy : InstanceState) : Prop :=
  (Final current → copy = current) ∧ (¬ Final current → ¬ Final copy)

/-! ## The condition -/

/-- The monitor will publish what it has read, or been told by an event or the supervisor. -/
def Point.underWay : Point → Bool
  | .stopDriver (.restarting _) | .draft _ _ _ | .lockSupervisor _ | .checkCurrent _
  | .commitReady _ | .flushSend _ _ _ => true
  | .select _ | .stopDriver _ | .drain _ | .flush _ _ | .terminate _ | .done => false

/-- The next observation to be taken is the current run's. -/
def System.observes (s : System) : Bool :=
  s.observations.head?.any fun observation => s.monitor.current.any (observationApplies observation)

/-- Nothing else is under way when the end is published: `Stopping` is published while
neither the monitor nor a log frame has a publication under way, and not over `Stopped`;
`Stopped` is published while no log frame has. After `Stopping` no `Restarting` is taken
from the queue, and no observation of the current run before the cancellation is seen.
There are ids for all runs. -/
def undisturbed (s : System) : Action → Bool
  | .stop _ => match s.stop with
    | .publishing => !s.monitor.point.underWay && s.frames.isEmpty && !s.status.state.isTerminal
    | .publishingStopped => s.frames.isEmpty
    | _ => true
  | .monitor _ => match s.monitor.point with
    | .select .events => match s.events with
      | .restarting _ _ :: _ => s.status.state ≠ .stopping
      | _ => true
    | .select .observations | .drain _ =>
      s.status.state ≠ .stopping || s.monitor.probesCancelled || !s.observes
    | .stopDriver (.started _) => s.monitor.nextRunId < 2 ^ 64 - 1
    | .stopDriver (.preparationFailed _) | .terminate _ => s.frames.isEmpty
    | _ => true
  | _ => true

/-! ## What holds under it -/

/-- No probe runs, and none of the queued observations is the current run's. -/
def Quiet (s : System) : Prop :=
  s.monitor.driver = none ∧ ∀ run, s.monitor.current = some run →
    ∀ observation ∈ s.observations, observation.runId < run.runId

/-- The monitor runs: nothing was published as `Stopped`. -/
structure Running (s : System) : Prop where
  state : ∀ reason, s.status.state ≠ .stopped reason
  queued : ∀ observation ∈ s.observations, observation.runId ≤ s.monitor.nextRunId
  driver : ∀ driver, s.monitor.driver = some driver → driver.runId ≤ s.monitor.nextRunId
  cancelled : s.monitor.probesCancelled = true → s.probeCancelled = true

/-- Nothing is under way. -/
structure Idle (s : System) : Prop extends Running s where
  quiet : s.monitor.probesCancelled = true → Quiet s
  stopping : s.status.state = .stopping → s.probeCancelled = true

def Engaged (s : System) : Prop :=
  Running s ∧ s.monitor.probesCancelled = false ∧ s.status.state ≠ .stopping

def PointOrderly (s : System) : Point → Prop
  | .select _ | .drain _ | .flush _ _ | .terminate _ => Idle s
  | .stopDriver .cancelled => Running s ∧ s.monitor.probesCancelled = true
  | .stopDriver (.restarting _) | .draft _ _ (.restarting _) => Idle s ∧ s.status.state ≠ .stopping
  | .stopDriver _ => Idle s
  | .draft reads seen (.started _ _) => Running s ∧
      (s.status.state = .stopping → s.probeCancelled = true) ∧
      s.monitor.driver = none ∧
      (∀ observation ∈ s.observations, observation.runId < s.monitor.nextRunId) ∧
      (.state ∉ reads → Agrees s.status.state seen.state)
  | .draft reads seen (.health _ _ _) => Engaged s ∧
      (.state ∉ reads → Agrees s.status.state seen.state)
  | .draft _ _ (.running _ _ _) | .lockSupervisor _ | .checkCurrent _ | .commitReady _ => Engaged s
  | .flushSend seen _ _ => Idle s ∧ Agrees s.status.state seen.state
  | .done => True

def StopOrderly (s : System) : Stop → Prop
  | .idle | .cancelling | .returned => True
  | .checking | .publishing | .taking | .stoppingSupervisor | .joining _ | .aborting _ =>
    s.probeCancelled = true
  | .reading _ _ => s.monitor.point = .done
  | .reaping terminal => s.monitor.point = .done ∧
      (terminal = false → ∀ reason, s.status.state ≠ .stopped reason)
  | .publishingStopped => s.monitor.point = .done ∧ ∀ reason, s.status.state ≠ .stopped reason

structure Orderly (s : System) : Prop where
  chained : Chained s.history
  last : s.status.state = lastState s.history
  frames : ∀ seen ∈ s.frames, Agrees s.status.state seen.state
  point : PointOrderly s s.monitor.point
  stop : StopOrderly s s.stop

section Order

variable {current next : InstanceState} {history newer older : List Entry}

theorem MayFollow.trans {third : InstanceState} (h : MayFollow current next)
    (h' : MayFollow next third) : MayFollow current third := by
  refine ⟨?_, ?_⟩
  · intro hstopping
    rcases h.1 hstopping with hsame | ⟨reason, hstopped⟩
    · exact h'.1 hsame
    · exact .inr ⟨reason, h'.2 reason hstopped⟩
  · intro reason hstopped
    exact h'.2 reason (h.2 reason hstopped)

theorem MayFollow.refl : MayFollow current current :=
  ⟨fun h => .inl h, fun _ h => h⟩

theorem MayFollow.of_not_final (h : ¬ Final current) : MayFollow current next := by
  refine ⟨?_, ?_⟩
  · intro hstopping
    rw [hstopping] at h
    exact absurd trivial h
  · intro reason hstopped
    rw [hstopped] at h
    exact absurd trivial h

theorem MayFollow.of_agrees (h : Agrees current next) : MayFollow current next := by
  by_cases hfinal : Final current
  · rw [h.1 hfinal]
    exact .refl
  · exact .of_not_final hfinal

theorem not_final (hstopping : current ≠ .stopping) (hstopped : ∀ reason, current ≠ .stopped reason) :
    ¬ Final current := by
  intro h
  cases current with
  | stopping => exact hstopping rfl
  | stopped reason => exact hstopped reason rfl
  | starting | running _ | restarting _ => exact h

/-- Over a state that is not final any other of that kind leaves what agrees. -/
theorem Agrees.over {copy : InstanceState} (h : Agrees current copy) (hcurrent : ¬ Final current)
    (hnext : ¬ Final next) : Agrees next copy :=
  ⟨fun hfinal => absurd hfinal hnext, fun _ => h.2 hcurrent⟩

/-- A copy that agreed agrees with another one once that is sent. -/
theorem Agrees.sent {copy : InstanceState} (h : Agrees current copy) (hnext : Agrees current next) :
    Agrees next copy := by
  by_cases hfinal : Final current
  · rw [hnext.1 hfinal]
    exact h
  · exact h.over hfinal (hnext.2 hfinal)

theorem Agrees.refl : Agrees current current := ⟨fun _ => rfl, fun h => h⟩

theorem Agrees.not_stopped {current copy : InstanceState} (h : Agrees current copy)
    (hcurrent : ∀ reason, current ≠ .stopped reason) : ∀ reason, copy ≠ .stopped reason := by
  intro reason hcopy
  by_cases hfinal : Final current
  · exact hcurrent reason ((h.1 hfinal).symm.trans hcopy)
  · have := h.2 hfinal
    rw [hcopy] at this
    exact this trivial

theorem Agrees.stopping {current copy : InstanceState} (h : Agrees current copy)
    (hcopy : copy = .stopping) : current = .stopping := by
  by_cases hfinal : Final current
  · exact (h.1 hfinal).symm.trans hcopy
  · have := h.2 hfinal
    rw [hcopy] at this
    exact absurd trivial this

/-- Whatever is published later may follow the last state. -/
theorem Chained.later (h : Chained (newer ++ older)) : MayFollow (lastState older)
    (lastState (newer ++ older)) ∧ ∀ origin state, .published origin state ∈ newer →
      MayFollow (lastState older) state := by
  induction newer with
  | nil => exact ⟨.refl, nofun⟩
  | cons entry rest ih =>
    cases entry with
    | published origin state =>
      obtain ⟨hfollow, hrest⟩ := h
      obtain ⟨hlast, hall⟩ := ih hrest
      refine ⟨hlast.trans hfollow, ?_⟩
      intro other next hmem
      rcases List.mem_cons.1 hmem with heq | hmem
      · cases heq
        exact hlast.trans hfollow
      · exact hall other next hmem
    | began _ _ _ | observed _ _ | attempted _ _ | live _ | acknowledged _ _ =>
      obtain ⟨hlast, hall⟩ := ih h
      refine ⟨hlast, ?_⟩
      intro other next hmem
      exact hall other next ((List.mem_cons.1 hmem).resolve_left nofun)

theorem Chained.settled (h : Chained history) : Settled history := by
  intro newer older origin state heq later next hmem
  rw [heq] at h
  exact h.later.2 later next hmem

end Order

section Surroundings

variable {s t : System}

theorem Running.env (h : Running s) (hmonitor : t.monitor = s.monitor)
    (hcancel : s.probeCancelled = true → t.probeCancelled = true)
    (hqueue : ∀ o ∈ t.observations, o ∈ s.observations ∨
      ∃ driver, s.monitor.driver = some driver ∧ driver.runId = o.runId)
    (hagrees : Agrees s.status.state t.status.state) : Running t := by
  refine ⟨hagrees.not_stopped h.state, ?_, ?_, ?_⟩
  · intro o hmem
    rw [hmonitor]
    rcases hqueue o hmem with hold | ⟨driver, hdriver, hid⟩
    · exact h.queued o hold
    · rw [← hid]
      exact h.driver driver hdriver
  · rw [hmonitor]
    exact h.driver
  · rw [hmonitor]
    exact fun hc => hcancel (h.cancelled hc)

theorem Quiet.env (h : Quiet s) (hmonitor : t.monitor = s.monitor)
    (hqueue : ∀ o ∈ t.observations, o ∈ s.observations ∨
      ∃ driver, s.monitor.driver = some driver ∧ driver.runId = o.runId) : Quiet t := by
  refine ⟨by rw [hmonitor]; exact h.1, ?_⟩
  rw [hmonitor]
  intro run hcurrent o hmem
  rcases hqueue o hmem with hold | ⟨driver, hdriver, -⟩
  · exact h.2 run hcurrent o hold
  · rw [h.1] at hdriver
    cases hdriver

theorem Idle.env (h : Idle s) (hmonitor : t.monitor = s.monitor)
    (hcancel : s.probeCancelled = true → t.probeCancelled = true)
    (hqueue : ∀ o ∈ t.observations, o ∈ s.observations ∨
      ∃ driver, s.monitor.driver = some driver ∧ driver.runId = o.runId)
    (hagrees : Agrees s.status.state t.status.state) : Idle t := by
  refine ⟨h.toRunning.env hmonitor hcancel hqueue hagrees, ?_, ?_⟩
  · rw [hmonitor]
    exact fun hc => (h.quiet hc).env hmonitor hqueue
  · exact fun hstopping => hcancel (h.stopping (hagrees.stopping hstopping))

/-- The monitor stays where it is while others read the status, send what they have
read, or change what no point of the monitor depends on. -/
theorem PointOrderly.env {point : Point} (h : PointOrderly s point)
    (hmonitor : t.monitor = s.monitor)
    (hcancel : s.probeCancelled = true → t.probeCancelled = true)
    (hqueue : ∀ o ∈ t.observations, o ∈ s.observations ∨
      ∃ driver, s.monitor.driver = some driver ∧ driver.runId = o.runId)
    (hagrees : Agrees s.status.state t.status.state) : PointOrderly t point := by
  have hrunning : Running s → Running t := fun h => h.env hmonitor hcancel hqueue hagrees
  have hidle : Idle s → Idle t := fun h => h.env hmonitor hcancel hqueue hagrees
  have hstate : s.status.state ≠ .stopping → t.status.state ≠ .stopping :=
    fun h hstopping => h (hagrees.stopping hstopping)
  have hengaged : Engaged s → Engaged t :=
    fun h => ⟨hrunning h.1, by rw [hmonitor]; exact h.2.1, hstate h.2.2⟩
  cases point with
  | select stage => exact hidle h
  | drain arm => exact hidle h
  | flush messages ending => exact hidle h
  | terminate reason => exact hidle h
  | stopDriver work =>
    cases work with
    | cancelled => exact ⟨hrunning h.1, by rw [hmonitor]; exact h.2⟩
    | restarting attempt => exact ⟨hidle h.1, hstate h.2⟩
    | started _ | exited _ | preparationFailed _ | gaveUp | stopped | timedOut => exact hidle h
  | draft reads seen purpose =>
    cases purpose with
    | started pid startedAt =>
      obtain ⟨hrun, hstopping, hdriver, hlt, hread⟩ := h
      refine ⟨hrunning hrun, ?_, by rw [hmonitor]; exact hdriver, ?_,
        fun hrest => (hread hrest).sent hagrees⟩
      · exact fun hstate => hcancel (hstopping (hagrees.stopping hstate))
      · rw [hmonitor]
        intro o hmem
        rcases hqueue o hmem with hold | ⟨driver, hsome, -⟩
        · exact hlt o hold
        · rw [hdriver] at hsome
          cases hsome
    | restarting attempt => exact ⟨hidle h.1, hstate h.2⟩
    | running pid update observation => exact hengaged h
    | health update observation arm => exact ⟨hengaged h.1, fun hrest => (h.2 hrest).sent hagrees⟩
  | lockSupervisor ack => exact hengaged h
  | checkCurrent ack => exact hengaged h
  | commitReady ack => exact hengaged h
  | flushSend seen messages ending => exact ⟨hidle h.1, h.2.sent hagrees⟩
  | done => trivial

/-- A step of others that publishes nothing. -/
theorem Orderly.env (ho : Orderly s) (hmonitor : t.monitor = s.monitor)
    (hhistory : t.history = s.history) (hstatus : t.status = s.status)
    (hframes : ∀ seen ∈ t.frames, seen ∈ s.frames ∨ seen = s.status)
    (hcancel : s.probeCancelled = true → t.probeCancelled = true)
    (hqueue : ∀ o ∈ t.observations, o ∈ s.observations ∨
      ∃ driver, s.monitor.driver = some driver ∧ driver.runId = o.runId)
    (hstop : StopOrderly t t.stop) : Orderly t := by
  refine ⟨?_, ?_, ?_, ?_, hstop⟩
  · rw [hhistory]
    exact ho.chained
  · rw [hstatus, hhistory]
    exact ho.last
  · rw [hstatus]
    intro seen hseen
    rcases hframes seen hseen with hold | hnew
    · exact ho.frames seen hold
    · rw [hnew]
      exact .refl
  · rw [hmonitor]
    refine ho.point.env hmonitor hcancel hqueue ?_
    rw [hstatus]
    exact .refl

end Surroundings

section Monitor

variable {setup : Setup} {s t : System} {point : Point} {status : InstanceStatus} {arm : Arm}

theorem Engaged.idle (h : Engaged s) : Idle s := by
  refine ⟨h.1, ?_, ?_⟩
  · intro hcancelled
    rw [h.2.1] at hcancelled
    cases hcancelled
  · exact fun hstopping => absurd hstopping h.2.2

theorem Engaged.not_final (h : Engaged s) : ¬ Final s.status.state :=
  Instance.not_final h.2.2 h.1.state

/-- A step of the monitor leaves a stop that has not seen its end. -/
theorem StopOrderly.monitor (h : StopOrderly s s.stop) (hrun : s.monitor.point ≠ .done)
    (hstop : t.stop = s.stop) (hcancel : s.probeCancelled = true → t.probeCancelled = true) :
    StopOrderly t t.stop := by
  rw [hstop]
  revert h
  cases s.stop with
  | idle | cancelling | returned => exact fun _ => trivial
  | checking | publishing | taking | stoppingSupervisor | joining _ | aborting _ => exact hcancel
  | reading stopped confirmed => exact fun h => absurd h hrun
  | reaping terminal => exact fun h => absurd h.1 hrun
  | publishingStopped => exact fun h => absurd h.1 hrun

/-- A step of the monitor that publishes nothing. -/
theorem Orderly.move (ho : Orderly s) (hrun : s.monitor.point ≠ .done)
    (hhistory : t.history = s.history) (hstatus : t.status = s.status)
    (hframes : t.frames = s.frames) (hstop : t.stop = s.stop)
    (hcancel : s.probeCancelled = true → t.probeCancelled = true)
    (hpoint : PointOrderly t t.monitor.point) : Orderly t := by
  refine ⟨?_, ?_, ?_, hpoint, ho.stop.monitor hrun hstop hcancel⟩
  · rw [hhistory]
    exact ho.chained
  · rw [hstatus, hhistory]
    exact ho.last
  · rw [hstatus, hframes]
    exact ho.frames

theorem Orderly.goto (ho : Orderly s) (hrun : s.monitor.point ≠ .done)
    (hpoint : PointOrderly (s.goto point) point) : Orderly (s.goto point) :=
  ho.move hrun rfl rfl rfl rfl (fun h => h) hpoint

theorem Running.goto (h : Running s) : Running (s.goto point) :=
  ⟨h.state, h.queued, h.driver, h.cancelled⟩

theorem Idle.goto (h : Idle s) : Idle (s.goto point) :=
  ⟨h.toRunning.goto, h.quiet, h.stopping⟩

theorem Engaged.goto (h : Engaged s) : Engaged (s.goto point) :=
  ⟨h.1.goto, h.2.1, h.2.2⟩

/-- A panic ends the monitor and publishes nothing. -/
theorem Orderly.panicked (ho : Orderly s) (hrun : s.monitor.point ≠ .done) :
    Orderly s.panicked :=
  ho.move hrun rfl rfl rfl rfl (fun h => h) trivial

theorem Idle.afterApply (ho : Orderly s) (hrun : s.monitor.point ≠ .done) (h : Idle s) :
    Orderly (s.afterApply arm) := by
  cases arm with
  | observation | initialDeadline | respawnDeadline => exact ho.goto hrun h.goto

theorem Idle.clearRun (h : Idle s) : Idle s.clearRun :=
  ⟨⟨h.state, h.queued, h.driver, h.cancelled⟩, fun hc => ⟨(h.quiet hc).1, nofun⟩, h.stopping⟩

theorem Idle.endDrain (ho : Orderly s) (hrun : s.monitor.point ≠ .done) (h : Idle s) :
    Orderly (s.endDrain arm) := by
  cases arm with
  | observation => exact ho.goto hrun h.goto
  | initialDeadline =>
    rw [System.endDrain]
    split
    · exact ho.goto hrun h.goto
    · refine ho.move hrun rfl rfl rfl rfl (fun h => h) ?_
      exact ⟨⟨h.state, h.queued, h.driver, h.cancelled⟩, fun hc => ⟨(h.quiet hc).1, (by rintro _ ⟨⟩)⟩,
        h.stopping⟩
  | respawnDeadline =>
    rw [System.endDrain]
    split
    · exact ho.move hrun rfl rfl rfl rfl (fun h => h) h.clearRun.goto
    · exact ho.goto hrun h.goto

/-- An observation is only taken up while the probes run. -/
theorem Idle.apply {observation : ProbeObservation} (ho : Orderly s)
    (hrun : s.monitor.point ≠ .done) (h : Idle s)
    (hengaged : ∀ run, s.monitor.current = some run → observationApplies observation run = true →
      Engaged s) : Orderly (System.apply setup s observation arm) := by
  unfold System.apply
  split
  · exact h.afterApply ho hrun
  · rename_i run hcurrent
    split
    · rename_i haccept
      rw [Bool.and_eq_true] at haccept
      obtain ⟨-, hengaged⟩ := hengaged run hcurrent haccept.1
      split
      · exact ho.panicked hrun
      simp only
      split
      · exact ⟨ho.chained, ho.last, ho.frames,
          ⟨⟨h.state, h.queued, h.driver, h.cancelled⟩, hengaged⟩,
          ho.stop.monitor hrun rfl fun h => h⟩
      · refine ⟨ho.chained, ho.last, ho.frames,
          ⟨⟨⟨h.state, h.queued, h.driver, h.cancelled⟩, hengaged⟩, ?_⟩,
          ho.stop.monitor hrun rfl fun h => h⟩
        intro hread
        exact absurd (by simp) hread
    · exact h.afterApply ho hrun

theorem Orderly.receive (ho : Orderly s) (hrun : s.monitor.point ≠ .done) (h : Idle s)
    (event : SupervisorEvent) (hrestarting : s.status.state = .stopping →
      ∀ attempt delay, event ≠ .restarting attempt delay) : Orderly (s.receive event) := by
  cases event with
  | restarting attempt delay =>
    exact ho.goto hrun ⟨h.goto, fun hstate => hrestarting hstate attempt delay rfl⟩
  | ready => exact ho.goto hrun h.goto
  | started _ | exited _ | preparationFailed _ | gaveUp | stopped => exact ho.goto hrun h.goto

/-- The end is published, and nothing is under way. -/
theorem Orderly.ends {origin : Origin} {reason : StopReason} (ho : Orderly s)
    (hstate : ∀ reason, s.status.state ≠ .stopped reason)
    (hstatus : status.state = .stopped reason) (hframes : s.frames = [])
    (hhistory : t.history = .published origin status.state :: s.history)
    (hsent : t.status = status) (hkept : t.frames = s.frames) (hdone : t.monitor.point = .done)
    (hstop : StopOrderly t t.stop) : Orderly t := by
  refine ⟨?_, ?_, ?_, ?_, hstop⟩
  · rw [hhistory]
    refine ⟨⟨fun _ => .inr ⟨reason, hstatus⟩, ?_⟩, ho.chained⟩
    intro other hother
    rw [← ho.last] at hother
    exact absurd hother (hstate other)
  · rw [hhistory, hsent]
    rfl
  · rw [hkept, hframes]
    exact nofun
  · rw [hdone]
    trivial

/-- The probe driver has stopped. -/
theorem Orderly.stopped {work : Work} (input : Input) (ho : Orderly s)
    (hpoint : s.monitor.point = .stopDriver work)
    (hguard : undisturbed s (.monitor input) = true) :
    Orderly (System.stopped { s with monitor := { s.monitor with driver := none } } input work) := by
  have hrun : s.monitor.point ≠ .done := by
    rw [hpoint]
    exact nofun
  have hp := ho.point
  rw [hpoint] at hp
  simp only [undisturbed, hpoint] at hguard
  have hidle : Idle s → Idle { s with monitor := { s.monitor with driver := none } } :=
    fun h => ⟨⟨h.state, h.queued, nofun, h.cancelled⟩, fun hc => ⟨rfl, (h.quiet hc).2⟩, h.stopping⟩
  cases work with
  | cancelled =>
    obtain ⟨h, hcancelled⟩ := hp
    refine ho.move hrun rfl rfl rfl rfl (fun h => h) ?_
    exact ⟨⟨h.state, h.queued, nofun, h.cancelled⟩, fun _ => ⟨rfl, nofun⟩,
      fun _ => h.cancelled hcancelled⟩
  | started pid =>
    have hnext : nextRun s.monitor.nextRunId = s.monitor.nextRunId + 1 := by
      have hlt : s.monitor.nextRunId < 2 ^ 64 - 1 := of_decide_eq_true hguard
      unfold nextRun
      omega
    have hlt : ∀ o ∈ s.observations, o.runId < nextRun s.monitor.nextRunId := by
      intro o hmem
      have hle := hp.queued o hmem
      omega
    refine ho.move hrun rfl rfl rfl rfl (fun h => h) ?_
    refine ⟨⟨hp.state, fun o hmem => (hlt o hmem).le, nofun, hp.cancelled⟩, hp.stopping, rfl, hlt, ?_⟩
    intro hread
    exact absurd (by simp) hread
  | restarting attempt =>
    exact ho.move hrun rfl rfl rfl rfl (fun h => h) ⟨(hidle hp.1).clearRun.goto, hp.2⟩
  | exited payload =>
    have h := (hidle hp).clearRun
    refine ho.move hrun rfl rfl rfl rfl (fun h => h) ?_
    exact ⟨⟨h.state, h.queued, h.driver, h.cancelled⟩, h.quiet, h.stopping⟩
  | preparationFailed detail =>
    exact ho.ends hp.state rfl (List.isEmpty_iff.1 hguard) rfl rfl rfl rfl (ho.stop.monitor hrun rfl fun h => h)
  | gaveUp => exact ho.move hrun rfl rfl rfl rfl (fun h => h) (hidle hp).goto
  | stopped => exact ho.move hrun rfl rfl rfl rfl (fun h => h) (hidle hp).goto
  | timedOut =>
    have h := hidle hp
    refine ho.move hrun rfl rfl rfl rfl (fun _ => rfl) ?_
    exact ⟨⟨h.state, h.queued, h.driver, fun _ => rfl⟩, h.quiet, fun _ => rfl⟩

/-- A state that agrees is sent, and the monitor goes on. -/
theorem Orderly.copies {origin : Origin} (ho : Orderly s) (hrun : s.monitor.point ≠ .done)
    (hagrees : Agrees s.status.state status.state)
    (hpoint : PointOrderly ((s.send origin status).goto point) point) :
    Orderly ((s.send origin status).goto point) := by
  refine ⟨⟨?_, ho.chained⟩, rfl, fun seen hseen => (ho.frames seen hseen).sent hagrees, hpoint,
    ho.stop.monitor hrun rfl fun h => h⟩
  rw [← ho.last]
  exact .of_agrees hagrees

/-- A state of a run is published over another one. -/
theorem Orderly.proceeds {origin : Origin} (ho : Orderly s) (hrun : s.monitor.point ≠ .done)
    (hcurrent : ¬ Final s.status.state) (hnext : ¬ Final status.state)
    (hpoint : PointOrderly ((s.send origin status).goto point) point) :
    Orderly ((s.send origin status).goto point) := by
  refine ⟨⟨?_, ho.chained⟩, rfl, fun seen hseen => (ho.frames seen hseen).over hcurrent hnext,
    hpoint, ho.stop.monitor hrun rfl fun h => h⟩
  rw [← ho.last]
  exact .of_not_final hcurrent

theorem Idle.take {observation : ProbeObservation} {rest : List ProbeObservation} (ho : Orderly s)
    (hrun : s.monitor.point ≠ .done) (h : Idle s) (hqueue : s.observations = observation :: rest)
    (hguard : (s.status.state ≠ .stopping || s.monitor.probesCancelled || !s.observes) = true) :
    Orderly (System.apply setup { s with observations := rest } observation arm) := by
  have hrest : ∀ o ∈ rest, o ∈ s.observations ∨
      ∃ driver, s.monitor.driver = some driver ∧ driver.runId = o.runId := by
    rw [hqueue]
    exact fun o hmem => .inl (List.mem_cons_of_mem _ hmem)
  have hidle : Idle { s with observations := rest } := h.env rfl (fun h => h) hrest .refl
  have hsame : Orderly { s with observations := rest } :=
    ho.env rfl rfl rfl (fun _ hseen => .inl hseen) (fun h => h) hrest
      (ho.stop.monitor hrun rfl fun h => h)
  refine hidle.apply hsame hrun ?_
  intro run hcurrent happlies
  have hprobes : s.monitor.probesCancelled = false := by
    by_contra hcancelled
    have hlt := (h.quiet (Bool.eq_true_of_not_eq_false hcancelled)).2 run hcurrent observation
      (by rw [hqueue]; exact List.mem_cons_self)
    rw [observationApplies, Bool.and_eq_true, decide_eq_true_eq] at happlies
    exact absurd hlt (by rw [happlies.1]; exact lt_irrefl _)
  have hobserves : s.observes = true := by
    rw [System.observes, hqueue]
    change s.monitor.current.any _ = true
    rw [hcurrent]
    exact happlies
  rw [hprobes, hobserves, Bool.or_false, Bool.not_true, Bool.or_false, decide_eq_true_eq] at hguard
  exact ⟨hidle.toRunning, hprobes, hguard⟩

theorem PointOrderly.read {reads : List Field} {field : Field} {seen : InstanceStatus}
    {purpose : Purpose} (h : PointOrderly s (.draft (field :: reads) seen purpose)) :
    PointOrderly (s.goto (.draft reads (readField s.status seen field) purpose))
      (.draft reads (readField s.status seen field) purpose) := by
  have hread : (.state ∉ field :: reads → Agrees s.status.state seen.state) →
      .state ∉ reads → Agrees s.status.state (readField s.status seen field).state := by
    intro hbefore hrest
    cases field with
    | state => exact .refl
    | instanceId | health => exact hbefore (by simpa using hrest)
  cases purpose with
  | started pid startedAt =>
    obtain ⟨hrunning, hstopping, hdriver, hlt, hagrees⟩ := h
    exact ⟨hrunning.goto, hstopping, hdriver, hlt, hread hagrees⟩
  | restarting attempt => exact ⟨h.1.goto, h.2⟩
  | running pid update observation => exact Engaged.goto h
  | health update observation arm => exact ⟨h.1.goto, hread h.2⟩

theorem Idle.sent {origin : Origin} (h : Idle s) (hagrees : Agrees s.status.state status.state) :
    Idle (s.send origin status) :=
  ⟨⟨hagrees.not_stopped h.state, h.queued, h.driver, h.cancelled⟩, h.quiet,
    fun hstopping => h.stopping (hagrees.stopping hstopping)⟩

/-- A status is put together and published. -/
theorem Orderly.conclude {seen : InstanceStatus} {purpose : Purpose} (input : Input)
    (ho : Orderly s) (hpoint : s.monitor.point = .draft [] seen purpose) :
    Orderly (s.conclude setup input seen purpose) := by
  have hrun : s.monitor.point ≠ .done := by
    rw [hpoint]
    rintro ⟨⟩
  have hp := ho.point
  rw [hpoint] at hp
  cases purpose with
  | started pid startedAt =>
    obtain ⟨h, hstopping, hdriver, hlt, hread⟩ := hp
    have hagrees := hread List.not_mem_nil
    obtain ⟨sent, hsent, heq⟩ := publishStatus_eq s .monitor ⟨some input.instanceId, seen.state,
      some (resetStartingHealth seen.health input.nowMs)⟩
    simp only [System.conclude, heq]
    change sent.state = seen.state at hsent
    rw [← hsent] at hagrees
    have hfollow : MayFollow (lastState s.history) sent.state := ho.last ▸ .of_agrees hagrees
    split
    · exact ⟨⟨hfollow, ho.chained⟩, rfl, fun seen hseen => (ho.frames seen hseen).sent hagrees,
        trivial, ho.stop.monitor hrun rfl fun h => h⟩
    · refine ⟨⟨hfollow, ho.chained⟩, rfl, fun seen hseen => (ho.frames seen hseen).sent hagrees, ?_,
        ho.stop.monitor hrun rfl fun h => h⟩
      refine ⟨⟨hagrees.not_stopped h.state, h.queued, ?_, h.cancelled⟩, ?_, ?_⟩
      · intro driver hnew
        change (if s.monitor.probesCancelled = true then none else _) = some driver at hnew
        split at hnew
        · cases hnew
        · cases hnew
          exact le_rfl
      · intro hcancelled
        refine ⟨if_pos hcancelled, ?_⟩
        intro run hnew
        cases hnew
        exact hlt
      · exact fun hstate => hstopping (hagrees.stopping hstate)
  | restarting attempt =>
    obtain ⟨h, hstopping⟩ := hp
    have hfinal := not_final hstopping h.state
    obtain ⟨sent, hsent, heq⟩ := publishStatus_eq s .monitor ⟨none, .restarting attempt,
      some (resetStartingHealth seen.health input.nowMs)⟩
    rw [System.conclude, heq]
    change sent.state = .restarting attempt at hsent
    refine ho.proceeds hrun hfinal (by rw [hsent]; exact fun h => h) ?_
    refine ⟨⟨?_, h.queued, h.driver, h.cancelled⟩, h.quiet, ?_⟩
    · change ∀ reason, sent.state ≠ .stopped reason
      rw [hsent]
      rintro _ ⟨⟩
    · change sent.state = .stopping → _
      rw [hsent]
      rintro ⟨⟩
  | running pid update observation =>
    have hengaged : Engaged s := hp
    obtain ⟨sent, hsent, heq⟩ := publishStatus_eq s .acknowledgement ⟨seen.instanceId, .running pid,
      some (healthStatus seen.health update observation)⟩
    rw [System.conclude, heq]
    change sent.state = .running pid at hsent
    refine ho.proceeds hrun hengaged.not_final (by rw [hsent]; exact fun h => h) ?_
    have h := hengaged.idle
    refine ⟨⟨?_, h.queued, h.driver, h.cancelled⟩, h.quiet, ?_⟩
    · change ∀ reason, sent.state ≠ .stopped reason
      rw [hsent]
      rintro _ ⟨⟩
    · change sent.state = .stopping → _
      rw [hsent]
      rintro ⟨⟩
  | health update observation arm =>
    obtain ⟨hengaged, hread⟩ := hp
    have hagrees := hread List.not_mem_nil
    obtain ⟨sent, hsent, heq⟩ := publishStatus_eq s .monitor ⟨seen.instanceId, seen.state,
      some (healthStatus seen.health update observation)⟩
    rw [System.conclude, heq]
    change sent.state = seen.state at hsent
    rw [← hsent] at hagrees
    have h : Idle (s.send .monitor sent) := hengaged.idle.sent hagrees
    cases arm with
    | observation => exact ho.copies hrun hagrees h.goto
    | initialDeadline | respawnDeadline => exact ho.copies hrun hagrees h.goto

theorem Idle.finish (ho : Orderly s) (hrun : s.monitor.point ≠ .done) (h : Idle s) (input : Input)
    (ending : Ending) : Orderly (s.finish input ending) := by
  cases ending with
  | failed text => exact ho.goto hrun h.goto
  | terminal =>
    rw [System.finish]
    split
    · exact ho.goto hrun h.goto
    · split
      · exact ho.goto hrun h.goto
      · split
        · exact ho.goto hrun h.goto
        · exact ho.goto hrun h.goto

theorem Engaged.acknowledge {supervisor : Supervisor} {ack : Ack} (ho : Orderly s)
    (hrun : s.monitor.point ≠ .done) (h : Engaged s) : Orderly (s.acknowledge supervisor ack) := by
  unfold System.acknowledge
  split
  · exact ⟨ho.chained, ho.last, ho.frames,
      ⟨⟨h.1.state, h.1.queued, h.1.driver, h.1.cancelled⟩, h.2⟩,
      ho.stop.monitor hrun rfl fun h => h⟩
  · have hidle := h.idle
    rename_i supervisor' _
    have hsame : Idle { s with supervisor := some supervisor' } :=
      ⟨⟨hidle.state, hidle.queued, hidle.driver, hidle.cancelled⟩, hidle.quiet, hidle.stopping⟩
    cases ack.arm with
    | observation => exact ho.move hrun rfl rfl rfl rfl (fun h => h) hsame.goto
    | initialDeadline | respawnDeadline =>
      exact ho.move hrun rfl rfl rfl rfl (fun h => h) hsame.goto

/-- One step of the monitor. -/
theorem Orderly.monitor {input : Input} (ho : Orderly s) (hguard : undisturbed s (.monitor input) = true)
    (h : s.monitorStep setup input = some t) : Orderly t := by
  have hp := ho.point
  have hrun : s.monitor.point ≠ .done := by
    intro hdone
    rw [System.monitorStep, hdone] at h
    cases h
  unfold System.monitorStep at h
  split at h
  · -- the cancellation of the probes
    rename_i hpoint
    rw [hpoint] at hp
    have hidle : Idle s := hp
    split at h
    · rename_i hcancel
      rw [Bool.and_eq_true] at hcancel
      cases h
      refine ho.move hrun rfl rfl rfl rfl (fun h => h) ?_
      exact ⟨⟨hidle.state, hidle.queued, hidle.driver, fun _ => hcancel.1⟩, rfl⟩
    · cases h
      exact ho.goto hrun hidle.goto
  · rename_i hpoint
    rw [hpoint] at hp
    have hidle : Idle s := hp
    simp only [undisturbed, hpoint] at hguard
    split at h
    · rename_i event rest hevents
      cases h
      have hsame : Orderly { s with events := rest } :=
        ho.env rfl rfl rfl (fun _ hseen => .inl hseen) (fun h => h) (fun _ hmem => .inl hmem)
          (ho.stop.monitor hrun rfl fun h => h)
      refine hsame.receive hrun (hidle.env rfl (fun h => h) (fun _ hmem => .inl hmem) .refl) event ?_
      intro hstate attempt delay heq
      rw [hevents, heq] at hguard
      exact of_decide_eq_true hguard hstate
    · split at h
      · cases h
        exact ho.goto hrun hidle.goto
      · cases h
        exact ho.goto hrun hidle.goto
  · rename_i hpoint
    rw [hpoint] at hp
    have hidle : Idle s := hp
    split at h
    · cases h
      exact ho.goto hrun hidle.goto
    · cases h
      exact ho.goto hrun hidle.goto
  · rename_i hpoint
    rw [hpoint] at hp
    have hidle : Idle s := hp
    split at h
    · cases h
      exact ho.goto hrun hidle.goto
    · cases h
      exact ho.goto hrun hidle.goto
  · rename_i hpoint
    rw [hpoint] at hp
    have hidle : Idle s := hp
    simp only [undisturbed, hpoint] at hguard
    split at h
    · rename_i observation rest hqueue
      cases h
      exact hidle.take ho hrun hqueue hguard
    · cases h
      exact ho.goto hrun hidle.goto
  · rename_i arm hpoint
    rw [hpoint] at hp
    have hidle : Idle s := hp
    simp only [undisturbed, hpoint] at hguard
    split at h
    · rename_i observation rest hqueue
      cases h
      exact hidle.take ho hrun hqueue hguard
    · cases h
      exact hidle.endDrain ho hrun
  · rename_i work hpoint
    cases h
    exact ho.stopped input hpoint hguard
  · rename_i field reads seen purpose hpoint
    rw [hpoint] at hp
    cases h
    exact ho.goto hrun hp.read
  · rename_i seen purpose hpoint
    cases h
    exact ho.conclude input hpoint
  · rename_i ack hpoint
    rw [hpoint] at hp
    have hengaged : Engaged s := hp
    split at h
    · cases h
      exact ho.goto hrun hengaged.goto
    · cases h
      exact hengaged.idle.afterApply ho hrun
  · rename_i ack hpoint
    rw [hpoint] at hp
    have hengaged : Engaged s := hp
    split at h
    · cases h
      exact ⟨ho.chained, ho.last, ho.frames,
        ⟨⟨hengaged.1.state, hengaged.1.queued, hengaged.1.driver, hengaged.1.cancelled⟩, hengaged.2⟩,
        ho.stop.monitor hrun rfl fun h => h⟩
    · cases h
      exact hengaged.idle.afterApply ho hrun
  · rename_i ack hpoint
    rw [hpoint] at hp
    have hengaged : Engaged s := hp
    split at h
    · cases h
      exact hengaged.acknowledge ho hrun
    · cases h
      exact hengaged.idle.afterApply ho hrun
  · rename_i message messages ending hpoint
    rw [hpoint] at hp
    have hidle : Idle s := hp
    split at h
    · cases h
      refine ho.move hrun rfl rfl rfl rfl (fun h => h) ⟨?_, .refl⟩
      exact ⟨⟨hidle.state, hidle.queued, hidle.driver, hidle.cancelled⟩, hidle.quiet, hidle.stopping⟩
    · cases h
      exact ho.goto hrun hidle.goto
  · rename_i ending hpoint
    rw [hpoint] at hp
    have hidle : Idle s := hp
    cases h
    exact hidle.finish ho hrun input ending
  · rename_i seen messages ending hpoint
    rw [hpoint] at hp
    obtain ⟨hidle, hagrees⟩ := hp
    cases h
    obtain ⟨sent, hsent, heq⟩ := publishStatus_eq s .frame seen
    rw [heq]
    rw [← hsent] at hagrees
    exact ho.copies hrun hagrees (hidle.sent hagrees).goto
  · rename_i reason hpoint
    rw [hpoint] at hp
    have hidle : Idle s := hp
    simp only [undisturbed, hpoint] at hguard
    cases h
    exact ho.ends hidle.state rfl (List.isEmpty_iff.1 hguard) rfl rfl rfl rfl (ho.stop.monitor hrun rfl fun h => h)
  · cases h

end Monitor

section Stop

variable {setup : Setup} {s t : System}

/-- A step of the stop that publishes nothing. -/
theorem Orderly.wait (ho : Orderly s) (hmonitor : t.monitor = s.monitor)
    (hhistory : t.history = s.history) (hstatus : t.status = s.status)
    (hframes : t.frames = s.frames) (hobservations : t.observations = s.observations)
    (hcancel : s.probeCancelled = true → t.probeCancelled = true) (hstop : StopOrderly t t.stop) :
    Orderly t := by
  refine ho.env hmonitor hhistory hstatus ?_ hcancel ?_ hstop
  · rw [hframes]
    exact fun _ hseen => .inl hseen
  · rw [hobservations]
    exact fun _ hmem => .inl hmem

theorem not_terminal {state : InstanceState} (h : state.isTerminal = false) :
    ∀ reason, state ≠ .stopped reason := by
  intro reason heq
  rw [heq] at h
  cases h

/-- `Stopping` is published over a monitor that has nothing under way. -/
theorem PointOrderly.stopping {point : Point} (h : PointOrderly s point)
    (hpoint : point.underWay = false) (hcancelled : s.probeCancelled = true)
    (hmonitor : t.monitor = s.monitor) (hcancel : t.probeCancelled = s.probeCancelled)
    (hqueue : t.observations = s.observations) (hstate : t.status.state = .stopping) :
    PointOrderly t point := by
  have hrunning (h : Running s) : Running t := by
    refine ⟨by rw [hstate]; exact nofun, ?_, by rw [hmonitor]; exact h.driver, ?_⟩
    · rw [hqueue, hmonitor]
      exact h.queued
    · exact fun _ => hcancel.trans hcancelled
  have hidle (h : Idle s) : Idle t := by
    refine ⟨hrunning h.toRunning, ?_, fun _ => hcancel.trans hcancelled⟩
    unfold Quiet
    rw [hmonitor, hqueue]
    exact h.quiet
  cases point with
  | select stage => exact hidle h
  | drain arm => exact hidle h
  | flush messages ending => exact hidle h
  | terminate reason => exact hidle h
  | stopDriver work =>
    cases work with
    | cancelled => exact ⟨hrunning h.1, by rw [hmonitor]; exact h.2⟩
    | restarting attempt => cases hpoint
    | started _ | exited _ | preparationFailed _ | gaveUp | stopped | timedOut => exact hidle h
  | draft _ _ _ | lockSupervisor _ | checkCurrent _ | commitReady _ | flushSend _ _ _ =>
    cases hpoint
  | done => trivial

theorem Orderly.publishStopping (ho : Orderly s) (hstop : s.stop = .publishing)
    (hpoint : s.monitor.point.underWay = false) (hframes : s.frames = [])
    (hterminal : s.status.state.isTerminal = false) :
    Orderly { s.publish .stop .stopping with stop := .taking } := by
  have hcancelled := ho.stop
  rw [hstop] at hcancelled
  have hstate := not_terminal hterminal
  refine ⟨⟨⟨fun _ => .inl rfl, ?_⟩, ho.chained⟩, rfl, ?_,
    ho.point.stopping hpoint hcancelled rfl rfl rfl rfl, hcancelled⟩
  · intro reason hstopped
    rw [← ho.last] at hstopped
    exact absurd hstopped (hstate reason)
  · change ∀ seen ∈ s.frames, _
    rw [hframes]
    exact nofun

theorem Orderly.stopStep {ok : Bool} (ho : Orderly s)
    (hguard : undisturbed s (.stop ok) = true) (h : s.stopStep ok = some t) : Orderly t := by
  have hs := ho.stop
  unfold System.stopStep at h
  split at h
  · cases h
    exact ho.wait rfl rfl rfl rfl rfl (fun h => h) trivial
  · cases h
    exact ho.wait rfl rfl rfl rfl rfl (fun _ => rfl) rfl
  · rename_i hstop
    rw [hstop] at hs
    cases h
    refine ho.wait rfl rfl rfl rfl rfl (fun h => h) ?_
    by_cases hterminal : s.status.state.isTerminal = true
    · simp only [hterminal, if_true]
      exact hs
    · simp only [hterminal]
      exact hs
  · rename_i hstop
    simp only [undisturbed, hstop, Bool.and_eq_true, List.isEmpty_iff, Bool.not_eq_true']
      at hguard
    cases h
    exact ho.publishStopping hstop hguard.1.1 hguard.1.2 hguard.2
  · rename_i hstop
    rw [hstop] at hs
    split at h
    · cases h
    · cases h
      exact ho.wait rfl rfl rfl rfl rfl (fun h => h) hs
  · rename_i hstop
    rw [hstop] at hs
    cases h
    exact ho.wait rfl rfl rfl rfl rfl (fun h => h) hs
  · rename_i stopped hstop
    rw [hstop] at hs
    split at h
    · split at h
      · rename_i hdone
        cases h
        exact ho.wait rfl rfl rfl rfl rfl (fun h => h) hdone
      · cases h
    · cases h
      exact ho.wait rfl rfl rfl rfl rfl (fun h => h) hs
  · -- the monitor is aborted where it waits
    split at h
    · cases h
      exact ⟨ho.chained, ho.last, ho.frames, trivial, rfl⟩
    · cases h
  · rename_i stopped confirmed hstop
    rw [hstop] at hs
    simp only at h
    split at h
    · cases h
      exact ho.wait rfl rfl rfl rfl rfl (fun h => h) trivial
    · cases h
      exact ho.wait rfl rfl rfl rfl rfl (fun h => h) ⟨hs, fun hterminal => not_terminal hterminal⟩
  · rename_i terminal hstop
    rw [hstop] at hs
    cases h
    refine ho.wait rfl rfl rfl rfl rfl (fun h => h) ?_
    by_cases hdead : (ok && !terminal) = true
    · simp only [hdead, if_true]
      rw [Bool.and_eq_true, Bool.not_eq_true'] at hdead
      exact ⟨hs.1, hs.2 hdead.2⟩
    · simp only [hdead]
      exact trivial
  · rename_i hstop
    rw [hstop] at hs
    simp only [undisturbed, hstop, List.isEmpty_iff] at hguard
    cases h
    exact ho.ends hs.2 rfl hguard rfl rfl rfl hs.1 trivial
  · cases h

theorem StopOrderly.env {stop : Stop} (h : StopOrderly s stop) (hmonitor : t.monitor = s.monitor)
    (hcancel : s.probeCancelled = true → t.probeCancelled = true)
    (hagrees : Agrees s.status.state t.status.state) : StopOrderly t stop := by
  cases stop with
  | idle | cancelling | returned => trivial
  | checking | publishing | taking | stoppingSupervisor | joining _ | aborting _ => exact hcancel h
  | reading stopped confirmed =>
    change t.monitor.point = .done
    rw [hmonitor]
    exact h
  | reaping terminal =>
    refine ⟨by rw [hmonitor]; exact h.1, ?_⟩
    exact fun hterminal => hagrees.not_stopped (h.2 hterminal)
  | publishingStopped =>
    exact ⟨by rw [hmonitor]; exact h.1, hagrees.not_stopped h.2⟩

/-- One step of anything, with observations from the probe driver only. -/
theorem Orderly.step {action : Action} (hadmits : setup.admits = fromDriver) (ho : Orderly s)
    (hguard : undisturbed s action = true) (h : s.step setup action = some t) : Orderly t := by
  cases action with
  | monitor input => exact ho.monitor hguard h
  | stop ok => exact ho.stopStep hguard h
  | tick elapsed =>
    cases h
    exact ho.wait rfl rfl rfl rfl rfl (fun h => h) (ho.stop.env rfl (fun h => h) .refl)
  | closeEvents =>
    cases h
    exact ho.wait rfl rfl rfl rfl rfl (fun h => h) (ho.stop.env rfl (fun h => h) .refl)
  | persist error =>
    cases h
    exact ho.wait rfl rfl rfl rfl rfl (fun h => h) (ho.stop.env rfl (fun h => h) .refl)
  | emit event =>
    simp only [System.step] at h
    split at h
    · cases h
    · cases h
      exact ho.wait rfl rfl rfl rfl rfl (fun h => h) (ho.stop.env rfl (fun h => h) .refl)
  | supervise supervisor =>
    simp only [System.step] at h
    split at h
    · cases h
      exact ho.wait rfl rfl rfl rfl rfl (fun h => h) (ho.stop.env rfl (fun h => h) .refl)
    · cases h
  | probe observation =>
    simp only [System.step, hadmits] at h
    split at h
    · rename_i hfrom
      cases h
      refine ho.env rfl rfl rfl (fun _ hseen => .inl hseen) (fun h => h) ?_
        (ho.stop.env rfl (fun h => h) .refl)
      intro o hmem
      rcases List.mem_append.1 hmem with hold | hnew
      · exact .inl hold
      · rw [List.mem_singleton] at hnew
        rw [fromDriver, Option.any_eq_true] at hfrom
        obtain ⟨driver, hdriver, hid⟩ := hfrom
        rw [Bool.and_eq_true, decide_eq_true_eq] at hid
        exact .inr ⟨driver, hdriver, by rw [hnew]; exact hid.1⟩
    · cases h
  | drop =>
    simp only [System.step] at h
    split at h
    · cases h
      exact ho.wait rfl rfl rfl rfl rfl (fun _ => rfl) (ho.stop.env rfl (fun _ => rfl) .refl)
    · cases h
  | readFrame message =>
    simp only [System.step] at h
    split at h
    · cases h
      refine ho.env rfl rfl rfl ?_ (fun h => h) (fun _ hmem => .inl hmem)
        (ho.stop.env rfl (fun h => h) .refl)
      intro seen hseen
      exact (List.mem_append.1 hseen).imp_right List.mem_singleton.1
    · cases h
  | sendFrame index =>
    simp only [System.step] at h
    split at h
    · rename_i seen hget
      cases h
      have hagrees := ho.frames seen (List.mem_of_getElem? hget)
      obtain ⟨sent, hsent, heq⟩ :=
        publishStatus_eq { s with frames := s.frames.eraseIdx index } .frame seen
      rw [heq]
      rw [← hsent] at hagrees
      refine ⟨⟨?_, ho.chained⟩, rfl, ?_, ?_, ho.stop.env rfl (fun h => h) hagrees⟩
      · change MayFollow (lastState s.history) sent.state
        rw [← ho.last]
        exact .of_agrees hagrees
      · exact fun other hother => (ho.frames other (List.mem_of_mem_eraseIdx hother)).sent hagrees
      · exact ho.point.env rfl (fun h => h) (fun _ hmem => .inl hmem) hagrees
    · cases h

theorem orderly_init : Orderly .init := by
  refine ⟨trivial, rfl, nofun, ⟨⟨nofun, nofun, nofun, nofun⟩, nofun, nofun⟩, trivial⟩

end Stop

/-- In every run in which the end of the instance is published undisturbed, only
`Stopping` and `Stopped` follow `Stopping`, and nothing else follows `Stopped`. -/
theorem lifecycle_settled (setup : Setup) (s : System)
    (h : (instanceMachine { setup with admits := fromDriver }).ReachableBy
      (fun s action => undisturbed s action = true) s) : Settled s.history := by
  have horderly : Orderly s :=
    h.invariant orderly_init fun _ _ _ ho hguard hstep => ho.step rfl hguard hstep
  exact horderly.chained.settled

/-- A started instance is stopped: the supervisor ends, then the monitor. -/
def stoppedRun : List Action :=
  startRun ++ stopSteps 6 ++ [.emit (.exited ⟨some 0, none⟩), .emit .stopped] ++ monitorSteps 10 ++
    stopSteps 2

theorem stopped_run_settled : (System.after stoppedRun).status.state = .stopped .user ∧
    (System.after stoppedRun).stop = .returned ∧ Settled (System.after stoppedRun).history :=
  ⟨by decide +kernel, by decide +kernel,
    lifecycle_settled mihomoSetup (System.after stoppedRun)
      (Machine.guarded_run_reachable .init (l := stoppedRun) (by decide +kernel))⟩

/-- The process crashes, and the stop comes before the monitor has seen the
supervisor's events. -/
def lateRestartRun : List Action :=
  startRun ++ [.emit (.exited ⟨some 1, none⟩), .emit (.restarting 1 (10 ^ 9))] ++ stopSteps 4 ++
    monitorSteps 10

/-- `Restarting` is published after `Stopping`. -/
theorem restarting_after_stopping : ∃ s,
    (instanceMachine mihomoSetup).run .init lateRestartRun = some s ∧
      s.status.state = .restarting 1 ∧ ¬ Settled s.history := by
  refine ⟨System.after lateRestartRun, by decide +kernel, by decide +kernel, ?_⟩
  intro hsettled
  have hfollow := hsettled [.published .monitor (.restarting 1)]
    ((System.after lateRestartRun).history.drop 2) .stop .stopping (by decide +kernel) .monitor
    (.restarting 1) List.mem_cons_self
  rcases hfollow.1 rfl with h | ⟨reason, h⟩
  · cases h
  · cases h

end Chimera.Instance
