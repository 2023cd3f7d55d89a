import Chimera.Instance.System

/-! Readiness: what stands behind a published `Running`. -/

namespace Chimera.Instance
open Chimera.Model Chimera.Lib.Transition

/-! ## Reading the history -/

structure Run where
  runId : Nat
  pid : Nat
  startedAt : Instant
  deriving DecidableEq, Repr

/-- The run that began last. -/
def latestRun : List Entry → Option Run
  | [] => none
  | .began runId pid startedAt :: _ => some ⟨runId, pid, startedAt⟩
  | _ :: older => latestRun older

/-- An acknowledgement succeeded: the instance was ready before. -/
def wasReady : List Entry → Bool
  | [] => false
  | .acknowledged _ _ :: _ => true
  | _ :: older => wasReady older

/-- How often the latest run was acknowledged or tried to be. -/
def attempts : List Entry → Nat
  | [] => 0
  | .began _ _ _ :: _ => 0
  | .attempted _ _ :: older => attempts older + 1
  | _ :: older => attempts older

def lastState : List Entry → InstanceState
  | [] => .starting
  | .published _ state :: _ => state
  | _ :: older => lastState older

/-- The deadline of a run: that of the first start until the instance was ready, then
the respawn's own. -/
def deadline (setup : Setup) (history : List Entry) (run : Run) : Instant :=
  if wasReady history then run.startedAt + setup.startupTimeout else setup.initialDeadline

/-- Every publication since the latest run began is the monitor's. -/
def Own : List Entry → Prop
  | [] | .began _ _ _ :: _ => True
  | .published origin _ :: older => (origin = .monitor ∨ origin = .acknowledgement) ∧ Own older
  | _ :: older => Own older

/-- An observation of the latest run, in time, made its tracker healthy; these entries
came after it. -/
def Evidence (setup : Setup) (history : List Entry) (pid : Nat) (observation : ProbeObservation)
    (update : TrackerUpdate) (marks : List Entry) : Prop :=
  ∃ run mid earlier, history = mid ++ .observed observation update :: earlier ∧
    latestRun mid = none ∧ latestRun earlier = some run ∧ run.pid = pid ∧
    observation.runId = run.runId ∧ observation.pid = run.pid ∧ update.state = .healthy ∧
    update.transitioned = true ∧ observation.completedAt ≤ deadline setup earlier run ∧
    ∀ mark ∈ marks, mark ∈ mid

/-- All that a published `Running` rests on. -/
def Sound (setup : Setup) (history : List Entry) (pid : Nat) : Prop :=
  ∃ observation update, Evidence setup history pid observation update
    [.acknowledged observation.runId pid, .live ⟨pid, false⟩, .attempted observation.runId pid]

/-- A state that was published as `Running` by an acknowledgement, if it is one. -/
def Traced (history : List Entry) (state : InstanceState) : Prop :=
  ∀ pid, state = .running pid → .published .acknowledgement (.running pid) ∈ history

/-- What an entry says about the history before it. -/
def Entry.Justified (setup : Setup) (older : List Entry) : Entry → Prop
  | .published .acknowledgement state => ∃ pid, state = .running pid ∧ Sound setup older pid
  | .published .monitor state => Traced older state ∧
      ∀ pid, state = .running pid → Own older → lastState older = state
  | .published _ state => Traced older state
  | .observed observation _ => ∃ run, latestRun older = some run ∧
      observation.runId = run.runId ∧ observation.pid = run.pid
  | .attempted runId pid => attempts older = 0 ∧ ∃ run, latestRun older = some run ∧
      run.runId = runId ∧ run.pid = pid
  | .began runId _ _ => runId ≤ 2 ^ 64 - 1 ∧
      ∀ run, latestRun older = some run → run.runId < runId ∨ runId = 2 ^ 64 - 1
  | .live _ | .acknowledged _ _ => True

def Justified (setup : Setup) : List Entry → Prop
  | [] => True
  | entry :: older => entry.Justified setup older ∧ Justified setup older

/-! ## What holds of every state -/

/-- The current run is the latest one, and its deadline is the respawn's. -/
def RunKept (setup : Setup) (history : List Entry) (respawn : Option Instant) (run : RunState) :
    Prop :=
  ∃ startedAt, latestRun history = some ⟨run.runId, run.pid, startedAt⟩ ∧
    (run.ackAttempted = false → attempts history = 0 ∧ run.tracker.state ≠ .healthy ∧
      run.ready = false) ∧
    (wasReady history = true → run.ready = false →
      respawn = some (startedAt + setup.startupTimeout))

def Attempted (current : Option RunState) : Prop :=
  ∀ run, current = some run → run.ackAttempted = true

/-- The next run has an id of its own, or the ids have run out. -/
def Fresh (history : List Entry) (runId : Nat) : Prop :=
  ∀ run, latestRun history = some run → run.runId < runId ∨ runId = 2 ^ 64 - 1

def PointKept (setup : Setup) (history : List Entry) (status : InstanceStatus) (runId : Nat)
    (current : Option RunState) : Point → Prop
  | .lockSupervisor ack | .checkCurrent ack => Attempted current ∧
      Evidence setup history ack.pid ack.observation ack.update
        [.attempted ack.observation.runId ack.pid]
  | .commitReady ack => Attempted current ∧
      Evidence setup history ack.pid ack.observation ack.update
        [.live ⟨ack.pid, false⟩, .attempted ack.observation.runId ack.pid]
  | .draft _ _ (.running pid update observation) => Evidence setup history pid observation update
      [.acknowledged observation.runId pid, .live ⟨pid, false⟩, .attempted observation.runId pid]
  | .draft reads seen (.started _ _) => Fresh history runId ∧ (.state ∉ reads →
      Traced history seen.state ∧ (Own history → seen.state = status.state))
  | .draft reads seen (.health _ _ _) => .state ∉ reads →
      Traced history seen.state ∧ (Own history → seen.state = status.state)
  | .flushSend seen _ _ => Traced history seen.state
  | _ => True

structure Kept (setup : Setup) (s : System) : Prop where
  justified : Justified setup s.history
  ready : s.monitor.everReady = wasReady s.history
  last : s.status.state = lastState s.history
  traced : Traced s.history s.status.state
  frames : ∀ seen ∈ s.frames, Traced s.history seen.state
  run : ∀ run, s.monitor.current = some run →
    RunKept setup s.history s.monitor.respawnDeadline run
  ids : ∀ run, latestRun s.history = some run → run.runId ≤ s.monitor.nextRunId
  bounded : s.monitor.nextRunId ≤ 2 ^ 64 - 1
  point : PointKept setup s.history s.status s.monitor.nextRunId s.monitor.current s.monitor.point

section Histories

variable {setup : Setup} {history : List Entry} {state : InstanceState} {pid : Nat}
  {observation : ProbeObservation} {update : TrackerUpdate} {marks : List Entry} {entry : Entry}

theorem latestRun_append {newer older : List Entry} (h : latestRun newer = none) :
    latestRun (newer ++ older) = latestRun older := by
  induction newer with
  | nil => rfl
  | cons entry newer ih =>
    cases entry with
    | began _ _ _ => cases h
    | observed _ _ | attempted _ _ | live _ | acknowledged _ _ | published _ _ => exact ih h

theorem Traced.cons (h : Traced history state) : Traced (entry :: history) state :=
  fun pid hstate => List.mem_cons_of_mem _ (h pid hstate)

/-- An entry that starts no run leaves the evidence, and is one more mark. -/
theorem Evidence.mark (h : Evidence setup history pid observation update marks)
    (hrun : ∀ older, latestRun (entry :: older) = latestRun older) :
    Evidence setup (entry :: history) pid observation update (entry :: marks) := by
  obtain ⟨run, mid, earlier, rfl, hmid, hearlier, hpid, hid, hobs, hstate, htrans, hle, hmarks⟩ := h
  refine ⟨run, entry :: mid, earlier, rfl, (hrun mid).trans hmid, hearlier, hpid, hid, hobs, hstate,
    htrans, hle, ?_⟩
  intro mark hmark
  rcases List.mem_cons.1 hmark with heq | hmem
  · rw [heq]
    exact List.mem_cons_self
  · exact List.mem_cons_of_mem _ (hmarks mark hmem)

theorem Evidence.cons (h : Evidence setup history pid observation update marks)
    (hrun : ∀ older, latestRun (entry :: older) = latestRun older) :
    Evidence setup (entry :: history) pid observation update marks := by
  obtain ⟨run, mid, earlier, heq, hmid, hearlier, hpid, hid, hobs, hstate, htrans, hle, hmarks⟩ :=
    h.mark hrun
  exact ⟨run, mid, earlier, heq, hmid, hearlier, hpid, hid, hobs, hstate, htrans, hle,
    fun mark hmark => hmarks mark (List.mem_cons_of_mem _ hmark)⟩

theorem Justified.older {newer older : List Entry} (h : Justified setup (newer ++ older)) :
    Justified setup older := by
  induction newer with
  | nil => exact h
  | cons _ rest ih => exact ih h.2

theorem Justified.split {newer older : List Entry} (h : Justified setup (newer ++ entry :: older)) :
    entry.Justified setup older :=
  h.older.1

theorem Evidence.latest (h : Evidence setup history pid observation update marks) :
    ∃ run, latestRun history = some run ∧ run.pid = pid := by
  obtain ⟨run, mid, earlier, rfl, hmid, hearlier, hpid, -⟩ := h
  exact ⟨run, (latestRun_append hmid).trans hearlier, hpid⟩

/-- Since the run began nothing was published as `Running`, so its state is that of its
beginning wherever it is `Running`. -/
theorem lastState_began {mid earlier : List Entry} {runId runPid : Nat} {startedAt : Instant}
    (hfirst : ∀ origin other, .published origin (.running other) ∉ mid)
    (h : lastState (mid ++ .began runId runPid startedAt :: earlier) = .running pid) :
    lastState earlier = .running pid := by
  induction mid with
  | nil => exact h
  | cons entry mid ih =>
    have hrest : ∀ origin other, .published origin (.running other) ∉ mid :=
      fun origin other hmem => hfirst origin other (List.mem_cons_of_mem _ hmem)
    cases entry with
    | published origin state =>
      have hstate : state = .running pid := h
      rw [hstate] at hfirst
      exact absurd List.mem_cons_self (hfirst origin pid)
    | began _ _ _ | observed _ _ | attempted _ _ | live _ | acknowledged _ _ => exact ih hrest h

theorem Own.began {mid earlier : List Entry} {runId runPid : Nat} {startedAt : Instant}
    (h : Own mid) : Own (mid ++ .began runId runPid startedAt :: earlier) := by
  induction mid with
  | nil => trivial
  | cons entry mid ih =>
    cases entry with
    | published _ _ => exact ⟨h.1, ih h.2⟩
    | began _ _ _ => trivial
    | observed _ _ | attempted _ _ | live _ | acknowledged _ _ => exact ih h

/-- The first `Running` of a run is its own acknowledgement, or repeats one of before it
began. -/
theorem Justified.first_running {mid earlier : List Entry} {origin : Origin} {runId runPid : Nat}
    {startedAt : Instant} (hj : Justified setup
      (.published origin (.running pid) :: (mid ++ .began runId runPid startedAt :: earlier)))
    (hmid : latestRun mid = none)
    (hfirst : ∀ origin other, .published origin (.running other) ∉ mid) :
    (origin = .acknowledgement ∧ pid = runPid) ∨
    (origin ≠ .acknowledgement ∧ .published .acknowledgement (.running pid) ∈ earlier ∧
      (origin = .monitor → Own mid → lastState earlier = .running pid)) := by
  have hbefore (htraced : Traced (mid ++ .began runId runPid startedAt :: earlier) (.running pid)) :
      .published .acknowledgement (.running pid) ∈ earlier := by
    rcases List.mem_append.1 (htraced pid rfl) with hmem | hmem
    · exact absurd hmem (hfirst _ _)
    · exact (List.mem_cons.1 hmem).resolve_left nofun
  cases origin with
  | acknowledgement =>
    obtain ⟨pid', hpid, observation, update, hevidence⟩ := hj.1
    cases hpid
    obtain ⟨run, hrun, hpid⟩ := hevidence.latest
    rw [latestRun_append hmid] at hrun
    cases hrun
    exact .inl ⟨rfl, hpid.symm⟩
  | monitor =>
    refine .inr ⟨nofun, hbefore hj.1.1, fun _ hown => ?_⟩
    exact lastState_began hfirst (hj.1.2 pid rfl hown.began)
  | frame | stop => exact .inr ⟨nofun, hbefore hj.1, nofun⟩

theorem exists_latest {runId pid : Nat} {startedAt : Instant}
    (h : .began runId pid startedAt ∈ history) : ∃ run, latestRun history = some run := by
  induction history with
  | nil => cases h
  | cons entry older ih =>
    cases entry with
    | began runId pid startedAt => exact ⟨_, rfl⟩
    | observed _ _ | attempted _ _ | live _ | acknowledged _ _ | published _ _ =>
      exact ih ((List.mem_cons.1 h).resolve_left nofun)

theorem Justified.latest_bounded {run : Run} (hj : Justified setup history)
    (hlatest : latestRun history = some run) : run.runId ≤ 2 ^ 64 - 1 := by
  induction history with
  | nil => cases hlatest
  | cons entry older ih =>
    cases entry with
    | began _ _ _ =>
      cases hlatest
      exact hj.1.1
    | observed _ _ | attempted _ _ | live _ | acknowledged _ _ | published _ _ =>
      exact ih hj.2 hlatest

/-- The latest run has the highest id. -/
theorem Justified.latest_id {run : Run} {runId pid : Nat} {startedAt : Instant}
    (hj : Justified setup history) (hlatest : latestRun history = some run)
    (h : .began runId pid startedAt ∈ history) : runId ≤ run.runId := by
  induction history generalizing run with
  | nil => cases h
  | cons entry older ih =>
    cases entry with
    | began latest _ _ =>
      cases hlatest
      rcases List.mem_cons.1 h with heq | hmem
      · cases heq
        exact le_rfl
      · obtain ⟨before, hbefore⟩ := exists_latest hmem
        have hle := ih hj.2 hbefore hmem
        rcases hj.1.2 before hbefore with hlt | hmax
        · exact hle.trans hlt.le
        · change runId ≤ latest
          rw [hmax]
          exact hle.trans (hj.2.latest_bounded hbefore)
    | observed _ _ | attempted _ _ | live _ | acknowledged _ _ | published _ _ =>
      exact ih hj.2 hlatest ((List.mem_cons.1 h).resolve_left nofun)

end Histories

section Steps

variable {setup : Setup} {s t : System} {point : Point} {status : InstanceStatus}

/-- A step that publishes nothing and leaves the run that there is, if it leaves one. -/
theorem Kept.move (hk : Kept setup s) (hhistory : t.history = s.history)
    (hstatus : t.status = s.status) (hframes : t.frames = s.frames)
    (hready : t.monitor.everReady = s.monitor.everReady)
    (hnext : t.monitor.nextRunId = s.monitor.nextRunId)
    (hrun : ∀ run, t.monitor.current = some run → s.monitor.current = some run ∧
      t.monitor.respawnDeadline = s.monitor.respawnDeadline)
    (hpoint : PointKept setup s.history s.status t.monitor.nextRunId t.monitor.current
      t.monitor.point) :
    Kept setup t := by
  refine ⟨?_, ?_, ?_, ?_, ?_, ?_, ?_, ?_, ?_⟩
  · rw [hhistory]
    exact hk.justified
  · rw [hhistory, hready]
    exact hk.ready
  · rw [hhistory, hstatus]
    exact hk.last
  · rw [hhistory, hstatus]
    exact hk.traced
  · rw [hhistory, hframes]
    exact hk.frames
  · intro run hcurrent
    obtain ⟨hold, hrespawn⟩ := hrun run hcurrent
    rw [hhistory, hrespawn]
    exact hk.run run hold
  · rw [hhistory, hnext]
    exact hk.ids
  · rw [hnext]
    exact hk.bounded
  · rw [hhistory, hstatus]
    exact hpoint

/-- A step outside the monitor that publishes nothing. -/
theorem Kept.same (hk : Kept setup s) (hhistory : t.history = s.history)
    (hstatus : t.status = s.status) (hframes : t.frames = s.frames)
    (hmonitor : t.monitor = s.monitor) : Kept setup t := by
  refine hk.move hhistory hstatus hframes (by rw [hmonitor]) (by rw [hmonitor]) ?_ ?_
  · intro run hcurrent
    rw [hmonitor] at hcurrent ⊢
    exact ⟨hcurrent, rfl⟩
  · rw [hmonitor]
    exact hk.point

theorem Kept.goto (hk : Kept setup s)
    (hpoint : PointKept setup s.history s.status s.monitor.nextRunId s.monitor.current point) :
    Kept setup (s.goto point) :=
  hk.move rfl rfl rfl rfl rfl (fun _ h => ⟨h, rfl⟩) hpoint

theorem Kept.clearRun (hk : Kept setup s) (hpoint : ∀ history status runId current,
    PointKept setup history status runId current point) : Kept setup (s.clearRun.goto point) :=
  hk.move rfl rfl rfl rfl rfl nofun (hpoint _ _ _ _)

theorem publishStatus_eq (s : System) (origin : Origin) (status : InstanceStatus) :
    ∃ sent : InstanceStatus, sent.state = status.state ∧
      s.publishStatus origin status = s.send origin sent := by
  unfold System.publishStatus
  split
  · refine ⟨_, ?_, rfl⟩
    rfl
  · exact ⟨status, rfl, rfl⟩

theorem publish_eq (s : System) (origin : Origin) (state : InstanceState) :
    ∃ sent : InstanceStatus, sent.state = state ∧ s.publish origin state = s.send origin sent := by
  unfold System.publish
  split
  · exact ⟨_, rfl, rfl⟩
  · exact ⟨_, rfl, rfl⟩
  · exact ⟨_, rfl, rfl⟩

/-- A publication of another thread leaves the monitor where it is. -/
theorem Kept.foreign {origin : Origin} (hk : Kept setup s)
    (horigin : origin = .frame ∨ origin = .stop) (htraced : Traced s.history status.state) :
    Kept setup (s.send origin status) := by
  have hforeign : ∀ state, ¬ Own (.published origin state :: s.history) := by
    intro state hown
    rcases horigin with rfl | rfl
    · exact hown.1.elim nofun nofun
    · exact hown.1.elim nofun nofun
  refine ⟨⟨?_, hk.justified⟩, hk.ready, rfl, htraced.cons,
    fun seen hseen => (hk.frames seen hseen).cons, hk.run, hk.ids, hk.bounded, ?_⟩
  · rcases horigin with rfl | rfl
    · exact htraced
    · exact htraced
  · have hpoint := hk.point
    revert hpoint
    change PointKept setup s.history s.status s.monitor.nextRunId s.monitor.current s.monitor.point →
      PointKept setup (.published origin status.state :: s.history) status s.monitor.nextRunId
        s.monitor.current s.monitor.point
    generalize s.monitor.point = point
    intro hpoint
    cases point with
    | lockSupervisor ack | checkCurrent ack | commitReady ack =>
      exact ⟨hpoint.1, hpoint.2.cons fun _ => rfl⟩
    | draft reads seen purpose =>
      cases purpose with
      | running pid update observation => exact hpoint.cons fun _ => rfl
      | started pid startedAt =>
        refine ⟨hpoint.1, ?_⟩
        intro hread
        exact ⟨(hpoint.2 hread).1.cons, fun hown => absurd hown (hforeign _)⟩
      | health update observation arm =>
        intro hread
        exact ⟨(hpoint hread).1.cons, fun hown => absurd hown (hforeign _)⟩
      | restarting attempt => trivial
    | flushSend seen messages ending => exact Traced.cons hpoint
    | select _ | stopDriver _ | drain _ | flush _ _ | terminate _ | done => trivial

/-- A publication of the monitor that is no acknowledgement, before it goes on. -/
theorem Kept.own (hk : Kept setup s) (htraced : Traced s.history status.state)
    (hlast : ∀ pid, status.state = .running pid → Own s.history →
      lastState s.history = status.state)
    (hpoint : ∀ history status runId current, PointKept setup history status runId current point) :
    Kept setup ((s.send .monitor status).goto point) :=
  ⟨⟨⟨htraced, hlast⟩, hk.justified⟩, hk.ready, rfl, htraced.cons,
    fun seen hseen => (hk.frames seen hseen).cons, hk.run, hk.ids, hk.bounded, hpoint _ _ _ _⟩

/-- A state that is not `Running` may be published at any time. -/
theorem Kept.other (hk : Kept setup s) (hstate : ∀ pid, status.state ≠ .running pid)
    (hpoint : ∀ history status runId current, PointKept setup history status runId current point) :
    Kept setup ((s.send .monitor status).goto point) :=
  hk.own (fun pid h => absurd h (hstate pid)) (fun pid h => absurd h (hstate pid)) hpoint

theorem Kept.panicked (hk : Kept setup s) : Kept setup s.panicked :=
  hk.move rfl rfl rfl rfl rfl nofun trivial

theorem Kept.afterApply (hk : Kept setup s) (arm : Arm) : Kept setup (s.afterApply arm) := by
  cases arm with
  | observation | initialDeadline | respawnDeadline => exact hk.goto trivial

/-- An observation that is in time for the run is in time for its deadline. -/
theorem in_time {run : RunState} {observation : ProbeObservation} (hk : Kept setup s)
    (hcurrent : s.monitor.current = some run) (hnew : run.ackAttempted = false)
    (hlate : s.late setup observation = false) {startedAt : Instant}
    (hrun : latestRun s.history = some ⟨run.runId, run.pid, startedAt⟩) :
    observation.completedAt ≤ deadline setup s.history ⟨run.runId, run.pid, startedAt⟩ := by
  obtain ⟨startedAt', hlatest, hunready, hrespawn⟩ := hk.run run hcurrent
  rw [hrun] at hlatest
  cases hlatest
  rw [System.late, Bool.or_eq_false_iff, Bool.and_eq_false_iff] at hlate
  unfold deadline
  split
  · rename_i hready
    have hdeadline := hlate.2
    rw [hrespawn hready (hunready hnew).2.2, Option.any_some, beyond, decide_eq_false_iff_not]
      at hdeadline
    exact not_lt.1 hdeadline
  · rename_i hready
    rw [hk.ready, Bool.not_eq_true _ |>.mp hready] at hlate
    have hdeadline := hlate.1.resolve_left (by simp)
    rw [beyond, decide_eq_false_iff_not] at hdeadline
    exact not_lt.1 hdeadline

/-- The state and its change, as an observation that does not panic returns them. -/
theorem observe_returns {last now : Instant} {tracker after : HealthTracker} {result : ProbeResult}
    {update : TrackerUpdate} (h : tracker.observe last now result = some (update, after)) :
    update.state = after.state ∧ update.transitioned = decide (tracker.state ≠ update.state) := by
  obtain ⟨observed, -, h⟩ := Option.map_eq_some_iff.1 h
  cases h
  exact ⟨rfl, rfl⟩

theorem respawn_eq {respawn : Option Instant} (h : s.respawn setup = some respawn)
    (hever : s.monitor.everReady = true) : respawn = some (s.now + setup.startupTimeout) := by
  rw [System.respawn, if_pos hever, addDuration] at h
  split at h
  · cases h
    rfl
  · cases h

theorem Kept.apply {observation : ProbeObservation} {arm : Arm} (hk : Kept setup s) :
    Kept setup (System.apply setup s observation arm) := by
  unfold System.apply
  split
  · exact hk.afterApply arm
  · rename_i run hcurrent
    split
    · rename_i haccept
      rw [Bool.and_eq_true, observationApplies, Bool.and_eq_true, decide_eq_true_eq,
        decide_eq_true_eq, Bool.not_eq_true'] at haccept
      obtain ⟨⟨hid, hpid⟩, hlate⟩ := haccept
      obtain ⟨startedAt, hlatest, hunready, hrespawn⟩ := hk.run run hcurrent
      have hframes : ∀ entry, ∀ seen ∈ s.frames, Traced (entry :: s.history) seen.state :=
        fun entry seen hseen => (hk.frames seen hseen).cons
      split
      · exact hk.panicked
      rename_i update tracker hobserve
      obtain ⟨hstate, htransitioned⟩ := observe_returns hobserve
      have hobserved : Entry.Justified setup s.history (.observed observation update) :=
        ⟨_, hlatest, hid, hpid⟩
      simp only
      split
      · -- the first healthy observation of the run: it is acknowledged
        rename_i hack
        rw [Bool.and_eq_true, Bool.not_eq_true', decide_eq_true_eq] at hack
        obtain ⟨hnew, hhealthy⟩ := hack
        obtain ⟨hnone, htracker, hready⟩ := hunready hnew
        refine ⟨⟨⟨hnone, _, hlatest, rfl, rfl⟩, hobserved, hk.justified⟩, hk.ready, hk.last,
          hk.traced.cons.cons, fun seen hseen => (hframes _ seen hseen).cons, ?_, hk.ids,
          hk.bounded, ?_⟩
        · intro other hother
          cases hother
          exact ⟨startedAt, hlatest, nofun, hrespawn⟩
        · constructor
          · intro other hother
            cases hother
            rfl
          · refine ⟨_, [_], s.history, rfl, rfl, hlatest, rfl, hid, hpid, hhealthy, ?_,
              in_time hk hcurrent hnew hlate hlatest, ?_⟩
            · rw [htransitioned, decide_eq_true_eq, hhealthy]
              exact htracker
            · intro mark hmark
              rw [List.mem_singleton] at hmark
              rw [hmark, hid]
              exact List.mem_singleton_self _
      · rename_i hack
        refine ⟨⟨hobserved, hk.justified⟩, hk.ready, hk.last, hk.traced.cons, hframes _, ?_,
          hk.ids, hk.bounded, ?_⟩
        · intro other hother
          cases hother
          refine ⟨startedAt, hlatest, ?_, hrespawn⟩
          intro hnew
          obtain ⟨hnone, -, hready⟩ := hunready hnew
          refine ⟨hnone, ?_, hready⟩
          intro hhealthy
          refine hack ?_
          rw [Bool.and_eq_true, Bool.not_eq_true', decide_eq_true_eq, hstate]
          exact ⟨hnew, hhealthy⟩
        · intro hread
          exact absurd (by simp) hread
    · exact hk.afterApply arm

theorem Kept.endDrain (hk : Kept setup s) (arm : Arm) : Kept setup (s.endDrain arm) := by
  cases arm with
  | observation => exact hk.goto trivial
  | initialDeadline =>
    rw [System.endDrain]
    split
    · exact hk.goto trivial
    · exact hk.move rfl rfl rfl rfl rfl nofun trivial
  | respawnDeadline =>
    rw [System.endDrain]
    split
    · exact hk.clearRun fun _ _ _ _ => trivial
    · exact hk.goto trivial

theorem Kept.receive (hk : Kept setup s) (event : SupervisorEvent) : Kept setup (s.receive event) := by
  cases event with
  | started _ | restarting _ _ | exited _ | preparationFailed _ | gaveUp | stopped | ready =>
    exact hk.goto trivial

theorem Kept.stopped (hk : Kept setup s) (input : Input) (work : Work) :
    Kept setup (s.stopped input work) := by
  cases work with
  | cancelled => exact hk.clearRun fun _ _ _ _ => trivial
  | started pid =>
    -- the id of the run to come
    have hfresh : Fresh s.history (nextRun s.monitor.nextRunId) := by
      intro run hrun
      have hle := hk.ids run hrun
      unfold nextRun
      omega
    refine ⟨hk.justified, hk.ready, hk.last, hk.traced, hk.frames, hk.run, ?_,
      Nat.min_le_right _ _, hfresh, ?_⟩
    · intro run hrun
      change run.runId ≤ nextRun s.monitor.nextRunId
      rcases hfresh run hrun with hlt | hmax
      · exact hlt.le
      · rw [hmax]
        exact (hk.ids run hrun).trans hk.bounded
    · intro hread
      exact absurd (by simp) hread
  | restarting attempt => exact hk.clearRun fun _ _ _ _ => trivial
  | exited payload => exact hk.move rfl rfl rfl rfl rfl nofun trivial
  | preparationFailed detail =>
    obtain ⟨sent, hsent, heq⟩ := publish_eq s .monitor (.stopped (.error detail))
    rw [System.stopped, heq]
    exact hk.other (by rw [hsent]; exact nofun) fun _ _ _ _ => trivial
  | gaveUp => exact hk.goto trivial
  | stopped => exact hk.goto trivial
  | timedOut => exact hk.move rfl rfl rfl rfl rfl (fun _ h => ⟨h, rfl⟩) trivial

theorem Kept.finish (hk : Kept setup s) (input : Input) (ending : Ending) :
    Kept setup (s.finish input ending) := by
  cases ending with
  | failed text => exact hk.goto trivial
  | terminal =>
    rw [System.finish]
    split
    · exact hk.goto trivial
    · split
      · exact hk.goto trivial
      · split
        · exact hk.goto trivial
        · exact hk.goto trivial

theorem Kept.acknowledge {supervisor : Supervisor} {ack : Ack} (hk : Kept setup s)
    (hattempted : Attempted s.monitor.current)
    (hevidence : Evidence setup s.history ack.pid ack.observation ack.update
      [.live ⟨ack.pid, false⟩, .attempted ack.observation.runId ack.pid]) :
    Kept setup (s.acknowledge supervisor ack) := by
  unfold System.acknowledge
  split
  · refine ⟨⟨trivial, hk.justified⟩, rfl, hk.last, hk.traced.cons,
      fun seen hseen => (hk.frames seen hseen).cons, ?_, hk.ids, hk.bounded, hevidence.mark fun _ => rfl⟩
    intro other hother
    obtain ⟨run, hcurrent, rfl⟩ := Option.map_eq_some_iff.1 hother
    obtain ⟨startedAt, hlatest, -, -⟩ := hk.run run hcurrent
    refine ⟨startedAt, hlatest, ?_, nofun⟩
    intro hnew
    rw [hattempted run hcurrent] at hnew
    cases hnew
  · rename_i supervisor' _
    have hsame : Kept setup { s with supervisor := some supervisor' } := hk.same rfl rfl rfl rfl
    exact hsame.afterApply ack.arm

theorem Kept.conclude {seen : InstanceStatus} {purpose : Purpose}
    (hk : Kept setup s) (input : Input)
    (hpoint : PointKept setup s.history s.status s.monitor.nextRunId s.monitor.current (.draft [] seen purpose)) :
    Kept setup (s.conclude setup input seen purpose) := by
  cases purpose with
  | started pid startedAt =>
    obtain ⟨hfresh, hread⟩ := hpoint
    obtain ⟨htraced, hsame⟩ := hread List.not_mem_nil
    obtain ⟨sent, hsent, heq⟩ := publishStatus_eq s .monitor ⟨some input.instanceId, seen.state,
      some (resetStartingHealth seen.health input.nowMs)⟩
    rw [← hsent] at htraced hsame
    -- the state of the run that has begun, before its deadline is computed
    have hbegan : ∀ respawn driver, (s.monitor.everReady = true →
        respawn = some (s.now + setup.startupTimeout)) → Kept setup
          { (s.send .monitor sent).log (.began s.monitor.nextRunId pid s.now) with
            monitor := { s.monitor with
              point := .select .cancelled
              current := some ⟨s.monitor.nextRunId, pid, false, false, .new setup.health startedAt⟩
              respawnDeadline := respawn
              driver } } := by
      intro respawn driver hrespawn
      refine ⟨⟨⟨hk.bounded, hfresh⟩, ⟨htraced, ?_⟩, hk.justified⟩, hk.ready, rfl, htraced.cons.cons,
        fun seen hseen => (hk.frames seen hseen).cons.cons, ?_, ?_, hk.bounded, trivial⟩
      · intro pid _ hown
        rw [hsame hown, hk.last]
      · intro run hrun
        cases hrun
        refine ⟨s.now, rfl, fun _ => ⟨rfl, nofun, rfl⟩, ?_⟩
        intro hready _
        exact hrespawn (hk.ready.trans hready)
      · intro run hrun
        cases hrun
        exact le_rfl
    simp only [System.conclude, heq]
    split
    · exact (hbegan (some (s.now + setup.startupTimeout)) none fun _ => rfl).panicked
    · rename_i respawnDeadline hrespawn
      exact hbegan respawnDeadline _ fun hever => respawn_eq hrespawn hever
  | restarting attempt =>
    obtain ⟨sent, hsent, heq⟩ := publishStatus_eq s .monitor ⟨none, .restarting attempt,
      some (resetStartingHealth seen.health input.nowMs)⟩
    rw [System.conclude, heq]
    exact hk.other (by rw [hsent]; exact nofun) fun _ _ _ _ => trivial
  | running pid update observation =>
    obtain ⟨sent, hsent, heq⟩ := publishStatus_eq s .acknowledgement ⟨seen.instanceId, .running pid,
      some (healthStatus seen.health update observation)⟩
    rw [System.conclude, heq]
    have hstate : sent.state = .running pid := hsent
    refine ⟨⟨⟨pid, hstate, observation, update, hpoint⟩, hk.justified⟩, hk.ready, rfl, ?_,
      fun seen hseen => (hk.frames seen hseen).cons, hk.run, hk.ids, hk.bounded, trivial⟩
    intro other hother
    change sent.state = .running other at hother
    rw [hstate] at hother
    cases hother
    change _ ∈ Entry.published .acknowledgement sent.state :: s.history
    rw [hstate]
    exact List.mem_cons_self
  | health update observation arm =>
    obtain ⟨htraced, hsame⟩ := hpoint List.not_mem_nil
    obtain ⟨sent, hsent, heq⟩ := publishStatus_eq s .monitor ⟨seen.instanceId, seen.state,
      some (healthStatus seen.health update observation)⟩
    rw [System.conclude, heq]
    rw [← hsent] at htraced hsame
    have hlast : ∀ pid, sent.state = .running pid → Own s.history →
        lastState s.history = sent.state := by
      intro pid _ hown
      rw [hsame hown, hk.last]
    cases arm with
    | observation | initialDeadline | respawnDeadline =>
      exact hk.own htraced hlast fun _ _ _ _ => trivial

theorem PointKept.read {reads : List Field} {field : Field} {seen : InstanceStatus}
    {purpose : Purpose} (htraced : Traced s.history s.status.state)
    (hpoint : PointKept setup s.history s.status s.monitor.nextRunId s.monitor.current
      (.draft (field :: reads) seen purpose)) :
    PointKept setup s.history s.status s.monitor.nextRunId s.monitor.current
      (.draft reads (readField s.status seen field) purpose) := by
  have hread : .state ∉ reads → (.state ∉ field :: reads →
      Traced s.history seen.state ∧ (Own s.history → seen.state = s.status.state)) →
      Traced s.history (readField s.status seen field).state ∧
        (Own s.history → (readField s.status seen field).state = s.status.state) := by
    intro hrest hbefore
    cases field with
    | state => exact ⟨htraced, fun _ => rfl⟩
    | instanceId | health => exact hbefore (by simpa using hrest)
  cases purpose with
  | running pid update observation => exact hpoint
  | started pid startedAt => exact ⟨hpoint.1, fun hrest => hread hrest hpoint.2⟩
  | health update observation arm => exact fun hrest => hread hrest hpoint
  | restarting attempt => trivial

theorem liveChild_eq {supervisor : Supervisor} {pid : Nat} {child : Child}
    (h : supervisor.liveChild pid = some child) : child = ⟨pid, false⟩ := by
  obtain ⟨-, hlive⟩ := Option.filter_eq_some_iff.1 h
  rw [Bool.and_eq_true, decide_eq_true_eq, Bool.not_eq_true'] at hlive
  obtain ⟨pid', terminated⟩ := child
  obtain ⟨rfl, rfl⟩ := hlive
  rfl

theorem Kept.monitor {input : Input} (hk : Kept setup s)
    (h : s.monitorStep setup input = some t) : Kept setup t := by
  have hpoint := hk.point
  unfold System.monitorStep at h
  split at h
  · split at h
    · cases h
      exact hk.move rfl rfl rfl rfl rfl (fun _ h => ⟨h, rfl⟩) trivial
    · cases h
      exact hk.goto trivial
  · split at h
    · rename_i event rest _
      cases h
      have hsame : Kept setup { s with events := rest } := hk.same rfl rfl rfl rfl
      exact hsame.receive event
    · split at h
      · cases h
        exact hk.goto trivial
      · cases h
        exact hk.goto trivial
  · split at h
    · cases h
      exact hk.goto trivial
    · cases h
      exact hk.goto trivial
  · split at h
    · cases h
      exact hk.goto trivial
    · cases h
      exact hk.goto trivial
  · split at h
    · rename_i observation rest _
      cases h
      have hsame : Kept setup { s with observations := rest } := hk.same rfl rfl rfl rfl
      exact hsame.apply
    · cases h
      exact hk.goto trivial
  · split at h
    · rename_i observation rest _
      cases h
      have hsame : Kept setup { s with observations := rest } := hk.same rfl rfl rfl rfl
      exact hsame.apply
    · cases h
      exact hk.endDrain _
  · rename_i work heq
    cases h
    rw [heq] at hpoint
    have hmoved : Kept setup { s with monitor := { s.monitor with driver := none } } :=
      hk.move rfl rfl rfl rfl rfl (fun _ h => ⟨h, rfl⟩) hk.point
    exact hmoved.stopped input work
  · rename_i field reads seen purpose heq
    cases h
    rw [heq] at hpoint
    exact hk.goto (hpoint.read hk.traced)
  · rename_i seen purpose heq
    cases h
    rw [heq] at hpoint
    exact hk.conclude input hpoint
  · rename_i ack heq
    rw [heq] at hpoint
    split at h
    · cases h
      exact hk.goto hpoint
    · cases h
      exact hk.afterApply ack.arm
  · rename_i ack heq
    rw [heq] at hpoint
    split at h
    · cases h
      refine ⟨⟨trivial, hk.justified⟩, hk.ready, hk.last, hk.traced.cons,
        fun seen hseen => (hk.frames seen hseen).cons, hk.run, hk.ids, hk.bounded, hpoint.1, ?_⟩
      rename_i child hchild
      obtain ⟨supervisor, -, hlive⟩ := Option.bind_eq_some_iff.1 hchild
      rw [← liveChild_eq hlive]
      exact hpoint.2.mark fun _ => rfl
    · cases h
      exact hk.afterApply ack.arm
  · rename_i ack heq
    rw [heq] at hpoint
    split at h
    · cases h
      exact hk.acknowledge hpoint.1 hpoint.2
    · cases h
      exact hk.afterApply ack.arm
  · rename_i message messages ending _
    split at h
    · cases h
      exact hk.move rfl rfl rfl rfl rfl (fun _ h => ⟨h, rfl⟩) hk.traced
    · cases h
      exact hk.goto trivial
  · cases h
    exact hk.finish input _
  · rename_i seen messages ending heq
    cases h
    rw [heq] at hpoint
    obtain ⟨sent, hsent, hsend⟩ := publishStatus_eq s .frame seen
    rw [hsend]
    exact (hk.foreign (.inl rfl) (by rw [hsent]; exact hpoint)).goto trivial
  · cases h
    exact hk.other nofun fun _ _ _ _ => trivial
  · cases h

theorem Kept.stop {ok : Bool} (hk : Kept setup s) (h : s.stopStep ok = some t) : Kept setup t := by
  unfold System.stopStep at h
  split at h
  · cases h
    exact hk.same rfl rfl rfl rfl
  · cases h
    exact hk.same rfl rfl rfl rfl
  · cases h
    exact hk.same rfl rfl rfl rfl
  · cases h
    obtain ⟨sent, hsent, heq⟩ := publish_eq s .stop .stopping
    rw [heq]
    have hsend : Kept setup (s.send .stop sent) := by
      refine hk.foreign (.inr rfl) ?_
      rw [hsent]
      exact nofun
    exact hsend.same rfl rfl rfl rfl
  · split at h
    · cases h
    · cases h
      exact hk.same rfl rfl rfl rfl
  · cases h
    exact hk.same rfl rfl rfl rfl
  · split at h
    · split at h
      · cases h
        exact hk.same rfl rfl rfl rfl
      · cases h
    · cases h
      exact hk.same rfl rfl rfl rfl
  · split at h
    · cases h
      exact hk.move rfl rfl rfl rfl rfl (fun _ h => ⟨h, rfl⟩) trivial
    · cases h
  · simp only at h
    split at h
    · cases h
      exact hk.same rfl rfl rfl rfl
    · cases h
      exact hk.same rfl rfl rfl rfl
  · cases h
    exact hk.same rfl rfl rfl rfl
  · cases h
    obtain ⟨sent, hsent, heq⟩ := publish_eq s .stop (.stopped .user)
    rw [heq]
    have hsend : Kept setup (s.send .stop sent) := by
      refine hk.foreign (.inr rfl) ?_
      rw [hsent]
      exact nofun
    exact hsend.same rfl rfl rfl rfl
  · cases h

theorem Kept.step {action : Action} (hk : Kept setup s) (h : s.step setup action = some t) :
    Kept setup t := by
  cases action with
  | monitor input => exact hk.monitor h
  | stop ok => exact hk.stop h
  | tick elapsed =>
    cases h
    exact hk.same rfl rfl rfl rfl
  | closeEvents =>
    cases h
    exact hk.same rfl rfl rfl rfl
  | persist error =>
    cases h
    exact hk.same rfl rfl rfl rfl
  | emit event =>
    simp only [System.step] at h
    split at h
    · cases h
    · cases h
      exact hk.same rfl rfl rfl rfl
  | supervise supervisor =>
    simp only [System.step] at h
    split at h
    · cases h
      exact hk.same rfl rfl rfl rfl
    · cases h
  | probe observation =>
    simp only [System.step] at h
    split at h
    · cases h
      exact hk.same rfl rfl rfl rfl
    · cases h
  | drop =>
    simp only [System.step] at h
    split at h
    · cases h
      exact hk.same rfl rfl rfl rfl
    · cases h
  | readFrame message =>
    simp only [System.step] at h
    split at h
    · cases h
      refine ⟨hk.justified, hk.ready, hk.last, hk.traced, ?_, hk.run, hk.ids, hk.bounded, hk.point⟩
      intro seen hseen
      rcases List.mem_append.1 hseen with hold | hnew
      · exact hk.frames seen hold
      · rw [List.mem_singleton.1 hnew]
        exact hk.traced
    · cases h
  | sendFrame index =>
    simp only [System.step] at h
    split at h
    · rename_i seen hget
      cases h
      have herased : Kept setup { s with frames := s.frames.eraseIdx index } :=
        ⟨hk.justified, hk.ready, hk.last, hk.traced,
          fun other hother => hk.frames other (List.mem_of_mem_eraseIdx hother), hk.run, hk.ids,
          hk.bounded, hk.point⟩
      obtain ⟨sent, hsent, heq⟩ :=
        publishStatus_eq { s with frames := s.frames.eraseIdx index } .frame seen
      rw [heq]
      refine herased.foreign (.inl rfl) ?_
      rw [hsent]
      exact hk.frames seen (List.mem_of_getElem? hget)
    · cases h

theorem kept_init : Kept setup .init := by
  refine ⟨trivial, rfl, rfl, ?_, nofun, nofun, nofun, Nat.zero_le _, trivial⟩
  intro pid h
  cases h

theorem reachable_kept (h : (instanceMachine setup).Reachable s) : Kept setup s :=
  h.invariant kept_init fun _ _ _ hk _ hstep => hk.step hstep

/-- An observation that is not the current run's changes the queue and nothing else. -/
theorem apply_stale {observation : ProbeObservation} {arm : Arm}
    (hstale : ∀ run, s.monitor.current = some run →
      ¬ (observation.runId = run.runId ∧ observation.pid = run.pid)) :
    System.apply setup s observation arm = s.afterApply arm := by
  unfold System.apply
  split
  · rfl
  · rename_i run hcurrent
    rw [if_neg]
    rw [Bool.and_eq_true, observationApplies, Bool.and_eq_true, decide_eq_true_eq,
      decide_eq_true_eq]
    exact fun h => hstale run hcurrent h.1

theorem afterApply_same (s : System) (arm : Arm) : (s.afterApply arm).status = s.status ∧
    (s.afterApply arm).history = s.history ∧
    (s.afterApply arm).monitor.current = s.monitor.current := by
  cases arm with
  | observation | initialDeadline | respawnDeadline => exact ⟨rfl, rfl, rfl⟩

end Steps

/-- `Running` is published by an acknowledgement of the current run: an observation of
that run in time for its deadline made its tracker healthy, and the supervisor found the
run's pid to be its live child. Every other publication of `Running` repeats it, and the
first one of a run is its acknowledgement or repeats one of before the run began. An
observation of another run changes nothing, and each run is acknowledged at most once.
A run is known by its id and pid; the ids of earlier runs are smaller until they run
out. -/
theorem readiness_sound (setup : Setup) (s : System) (h : (instanceMachine setup).Reachable s) :
    (∀ newer older pid, s.history = newer ++ .published .acknowledgement (.running pid) :: older →
      Sound setup older pid) ∧
    (∀ newer older origin pid, s.history = newer ++ .published origin (.running pid) :: older →
      origin ≠ .acknowledgement → .published .acknowledgement (.running pid) ∈ older ∧
        (origin = .monitor → Own older → lastState older = .running pid)) ∧
    (∀ newer mid earlier origin pid runId runPid startedAt, s.history = newer ++
        .published origin (.running pid) :: (mid ++ .began runId runPid startedAt :: earlier) →
      latestRun mid = none → (∀ before other, .published before (.running other) ∉ mid) →
      (origin = .acknowledgement ∧ pid = runPid) ∨
      (origin ≠ .acknowledgement ∧ .published .acknowledgement (.running pid) ∈ earlier ∧
        (origin = .monitor → Own mid → lastState earlier = .running pid))) ∧
    (∀ newer older observation update,
      s.history = newer ++ .observed observation update :: older →
        ∃ run, latestRun older = some run ∧ observation.runId = run.runId ∧
          observation.pid = run.pid) ∧
    (∀ input t observation rest,
      (s.monitor.point = .select .observations ∨ ∃ arm, s.monitor.point = .drain arm) →
      s.observations = observation :: rest →
      (∀ run, s.monitor.current = some run →
        ¬ (observation.runId = run.runId ∧ observation.pid = run.pid)) →
      s.step setup (.monitor input) = some t → t.status = s.status ∧ t.history = s.history ∧
        t.monitor.current = s.monitor.current) ∧
    (∀ newer older runId pid, s.history = newer ++ .attempted runId pid :: older →
      attempts older = 0 ∧ ∃ run, latestRun older = some run ∧ run.runId = runId ∧
        run.pid = pid) ∧
    (∀ newer older runId pid startedAt, s.history = newer ++ .began runId pid startedAt :: older →
      ∀ earlier pid' startedAt', .began earlier pid' startedAt' ∈ older →
        earlier < runId ∨ runId = 2 ^ 64 - 1) := by
  have hj := (reachable_kept h).justified
  refine ⟨?_, ?_, ?_, ?_, ?_, ?_, ?_⟩
  · intro newer older pid heq
    rw [heq] at hj
    obtain ⟨pid', hpid, hsound⟩ := hj.split
    cases hpid
    exact hsound
  · intro newer older origin pid heq horigin
    rw [heq] at hj
    have hentry := hj.split
    cases origin with
    | acknowledgement => exact absurd rfl horigin
    | monitor => exact ⟨hentry.1 pid rfl, fun _ hown => hentry.2 pid rfl hown⟩
    | frame | stop => exact ⟨hentry pid rfl, nofun⟩
  · intro newer mid earlier origin pid runId runPid startedAt heq hmid hfirst
    rw [heq] at hj
    exact hj.older.first_running hmid hfirst
  · intro newer older observation update heq
    rw [heq] at hj
    exact hj.split
  · intro input t observation rest hpoint hqueue hstale hstep
    change s.monitorStep setup input = some t at hstep
    have hsame : ∃ arm, t = System.afterApply { s with observations := rest } arm := by
      rcases hpoint with hpoint | ⟨arm, hpoint⟩
      · simp only [System.monitorStep, hpoint, hqueue, Option.some.injEq] at hstep
        rw [← hstep]
        exact ⟨.observation, apply_stale hstale⟩
      · simp only [System.monitorStep, hpoint, hqueue, Option.some.injEq] at hstep
        rw [← hstep]
        exact ⟨arm, apply_stale hstale⟩
    obtain ⟨arm, rfl⟩ := hsame
    exact afterApply_same { s with observations := rest } arm
  · intro newer older runId pid heq
    rw [heq] at hj
    exact hj.split
  · intro newer older runId pid startedAt heq earlier pid' startedAt' hmem
    rw [heq] at hj
    obtain ⟨run, hrun⟩ := exists_latest hmem
    have hle := hj.older.2.latest_id hrun hmem
    rcases hj.split.2 run hrun with hlt | hmax
    · exact .inl (hle.trans_lt hlt)
    · exact .inr hmax

/-- The first probe succeeds, and the supervisor acknowledges its child. -/
def readyRun : List Action :=
  startRun ++ [.supervise ⟨some ⟨42, false⟩, 42, true⟩, .probe ⟨1, 42, .readiness, 10, 0, .healthy⟩] ++
    monitorSteps 11

theorem ready_after_probe : (System.after readyRun).status.state = .running 42 ∧
    Sound mihomoSetup (System.after readyRun).history.tail 42 :=
  ⟨by decide +kernel,
    (readiness_sound mihomoSetup (System.after readyRun)
      (Machine.run_reachable .init (l := readyRun) (by decide +kernel))).1 []
        (System.after readyRun).history.tail 42 (by decide +kernel)⟩

/-- A second process is started over the first, and its first probe fails. -/
def replacedRun : List Action :=
  readyRun ++ .emit (.started 43) :: monitorSteps 6 ++
    [.probe ⟨2, 43, .readiness, 20, 0, .unhealthy none⟩] ++ monitorSteps 9

/-- The second run is published as the first one's `Running`. -/
theorem replaced_running_kept : ∃ s mid earlier, (instanceMachine mihomoSetup).Reachable s ∧
    s.history = .published .monitor (.running 42) :: (mid ++ .began 2 43 0 :: earlier) ∧
    latestRun mid = none ∧ (∀ origin pid, .published origin (.running pid) ∉ mid) ∧
    ∀ origin, .published origin (.running 43) ∉ s.history := by
  have hrun : (System.after replacedRun).history = .published .monitor (.running 42) ::
      ([.observed ⟨2, 43, .readiness, 20, 0, .unhealthy none⟩ ⟨.starting, false, 1, none⟩] ++
        .began 2 43 0 :: (System.after replacedRun).history.drop 3) := by decide +kernel
  have hall : (System.after replacedRun).history.all (fun entry => match entry with
      | .published _ (.running pid) => pid ≠ 43
      | _ => true) = true := by decide +kernel
  refine ⟨_, _, _, Machine.run_reachable .init (l := replacedRun) (by decide +kernel), hrun, rfl,
    by simp, fun origin hmem => ?_⟩
  simpa using List.all_eq_true.1 hall _ hmem

end Chimera.Instance
