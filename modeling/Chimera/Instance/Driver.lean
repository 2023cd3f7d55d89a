import Chimera.Lib.Transition
import Chimera.Instance.System

/-! The task of a probe driver. It has one probe running at a time: those of its own
rhythm, and those that the monitor asks for, which it answers. Each `select!` is polled
arm by arm, and the surroundings may move between two polls. -/

namespace Chimera.Instance.Driver
open Chimera.Model Chimera.Lib.Transition

/-- `DriverCommand`. A response channel is known by the number of its request. -/
inductive Command where
  | useLiveness
  | reconcile (request : Nat)
  deriving DecidableEq, Repr

/-- What an attempt is made for. -/
inductive Purpose where
  | periodic (phase : ProbePhase)
  | reconcile (request : Nat)
  deriving DecidableEq, Repr

def Purpose.phase : Purpose → ProbePhase
  | .periodic phase => phase
  | .reconcile _ => .reconcile

def Purpose.requests : Purpose → List Nat
  | .periodic _ => []
  | .reconcile request => [request]

inductive Probe where
  | readiness
  | liveness
  deriving DecidableEq, Repr

inductive Arm where
  | cancelled
  | command
  | sleep
  deriving DecidableEq, Repr

inductive Point where
  | select (arm : Arm)
  /-- In `run_attempt`, at its arm of the token and at that of the probe. -/
  | token (purpose : Purpose) (startedAt : Instant)
  | check (purpose : Purpose) (startedAt : Instant)
  | stopped
  deriving DecidableEq, Repr

def Point.requests : Point → List Nat
  | .token purpose _ | .check purpose _ => purpose.requests
  | .select _ | .stopped => []

/-- What was done, for the record. -/
inductive Entry where
  /-- `UseLiveness` was taken. -/
  | switched (time : Instant)
  | began (probe : Probe) (purpose : Purpose) (time : Instant)
  | answered (request : Nat) (result : ProbeResult)
  | published (observation : ProbeObservation) (timedOut : Bool)
  | cancelled
  deriving DecidableEq, Repr

/-- `liveness` is whether there is such a probe, `timeoutText` the debug text of a duration. -/
structure Setup where
  runId : Nat
  pid : Nat
  liveness : Bool
  policy : HealthPolicy
  timeoutText : Duration → String

def Setup.probe (setup : Setup) : Purpose → Probe
  | .periodic .readiness => .readiness
  | .periodic _ => .liveness
  | .reconcile _ => if setup.liveness then .liveness else .readiness

def Setup.timedOut (setup : Setup) : ProbeResult :=
  .unhealthy (some ("probe timed out after " ++ setup.timeoutText setup.policy.timeout))

/-- `sender` is whether the handle of the driver is there, `requests` how many reconcile
requests it has sent; the log has its last entry first. -/
structure State where
  now : Instant
  cancelled : Bool
  sender : Bool
  commands : List Command
  requests : Nat
  periodic : Option ProbePhase
  nextProbe : Instant
  point : Point
  log : List Entry

def State.goto (s : State) (point : Point) : State := { s with point }

def State.record (s : State) (entry : Entry) : State := { s with log := entry :: s.log }

/-- `probe.check(..)` is called. -/
def State.begin (setup : Setup) (s : State) (purpose : Purpose) : State :=
  (s.record (.began (setup.probe purpose) purpose s.now)).goto (.token purpose s.now)

def Setup.observation (setup : Setup) (purpose : Purpose) (now : Instant) (nowMs : Int)
    (result : ProbeResult) : ProbeObservation :=
  ⟨setup.runId, setup.pid, purpose.phase, now, nowMs, result⟩

/-- After an attempt, which has an observation if it was not cancelled. -/
def State.finish (setup : Setup) (s : State) (purpose : Purpose)
    (result : Option (ProbeResult × Bool)) (nowMs : Int) : State :=
  match purpose, result with
  | .reconcile _, none => s.goto (.select .cancelled)
  | .reconcile request, some (result, timedOut) =>
    ((s.record (.answered request result)).record
      (.published (setup.observation purpose s.now nowMs result) timedOut)).goto (.select .cancelled)
  | .periodic _, none =>
    { s with nextProbe := s.now + setup.policy.interval }.goto (.select .cancelled)
  | .periodic _, some (result, timedOut) =>
    ({ s with nextProbe := s.now + setup.policy.interval }.record
      (.published (setup.observation purpose s.now nowMs result) timedOut)).goto (.select .cancelled)

/-- One poll; `answer` is what the probe's future gives when it is polled. -/
def State.poll (setup : Setup) (answer : Option ProbeResult) (nowMs : Int) (s : State) :
    Option State :=
  match s.point with
  | .select .cancelled =>
    some (s.goto (if s.cancelled then .stopped else .select .command))
  | .select .command => match s.commands with
    | .useLiveness :: commands => some (({ s with
        commands := commands
        periodic := if setup.liveness then some .liveness else none
        nextProbe := s.now + setup.policy.interval }.record (.switched s.now)).goto
          (.select .cancelled))
    | .reconcile request :: commands =>
      some ({ s with commands := commands }.begin setup (.reconcile request))
    | [] => some (s.goto (if s.sender then .select .sleep else .stopped))
  | .select .sleep => match s.periodic with
    | some phase =>
      if s.nextProbe ≤ s.now then some (s.begin setup (.periodic phase))
      else some (s.goto (.select .cancelled))
    | none => some (s.goto (.select .cancelled))
  | .token purpose startedAt =>
    if s.cancelled then some (s.finish setup purpose none nowMs)
    else some (s.goto (.check purpose startedAt))
  | .check purpose startedAt => match answer with
    | some result => some (s.finish setup purpose (some (result, false)) nowMs)
    | none =>
      if startedAt + setup.policy.timeout ≤ s.now then
        some (s.finish setup purpose (some (setup.timedOut, true)) nowMs)
      else some (s.goto (.token purpose startedAt))
  | .stopped => none

inductive Label where
  | poll (answer : Option ProbeResult) (nowMs : Int)
  | useLiveness
  | reconcile
  | cancel
  /-- The handle is dropped, which cancels. -/
  | drop
  | tick (duration : Duration)

def State.cancel (s : State) : State :=
  if s.cancelled then s else { s with cancelled := true }.record .cancelled

def State.step (setup : Setup) (s : State) : Label → Option State
  | .poll answer nowMs => s.poll setup answer nowMs
  | .useLiveness =>
    if s.sender then some { s with commands := s.commands ++ [.useLiveness] } else none
  | .reconcile =>
    if s.sender then some { s with
      commands := s.commands ++ [.reconcile s.requests]
      requests := s.requests + 1 }
    else none
  | .cancel => some s.cancel
  | .drop => some { s.cancel with sender := false }
  | .tick duration => some { s with now := s.now + duration }

/-- `ProbeDriver::start`. -/
def start (setup : Setup) (now : Instant) : Machine State Label where
  init := ⟨now, false, true, [], 0, some .readiness, now, .select .cancelled, []⟩
  step := State.step setup

/-! ## What a log says -/

/-- The requests that were answered, the first one first. -/
def answers : List Entry → List (Nat × ProbeResult)
  | [] => []
  | .answered request result :: log => answers log ++ [(request, result)]
  | _ :: log => answers log

def observations : List Entry → List ProbeObservation
  | [] => []
  | .published observation _ :: log => observations log ++ [observation]
  | _ :: log => observations log

/-- Since when the periodic probes have been pausing. -/
def pausedAt : List Entry → Option Instant
  | [] => none
  | .switched time :: _ => some time
  | .published observation _ :: log =>
    if observation.phase = .reconcile then pausedAt log else some observation.completedAt
  | _ :: log => pausedAt log

def switched : List Entry → Bool
  | [] => false
  | .switched _ :: _ => true
  | _ :: log => switched log

/-- The phase of the periodic probes. -/
def Setup.rhythm (setup : Setup) (log : List Entry) : Option ProbePhase :=
  if switched log then if setup.liveness then some .liveness else none else some .readiness

/-- The last attempt that began, of which nothing was published, and what was before it. -/
def Latest (log : List Entry) (probe : Probe) (purpose : Purpose) (startedAt : Instant)
    (older : List Entry) : Prop :=
  ∃ newer, log = newer ++ .began probe purpose startedAt :: older ∧
    (∀ probe purpose time, .began probe purpose time ∉ newer) ∧ observations newer = []

/-- The attempt that is running began before the token was cancelled. -/
def Running (log : List Entry) (probe : Probe) (purpose : Purpose) (startedAt : Instant) : Prop :=
  ∃ older, Latest log probe purpose startedAt older ∧ .cancelled ∉ older

/-- What may be done after what was done. -/
def Setup.Allowed (setup : Setup) (log : List Entry) : Entry → Prop
  | .began probe purpose time => probe = setup.probe purpose ∧
      match purpose with
      | .periodic phase => setup.rhythm log = some phase ∧
          ∀ since, pausedAt log = some since → since + setup.policy.interval ≤ time
      | .reconcile _ => True
  | .answered _ _ => True
  | .published observation timedOut => ∃ purpose startedAt,
      Running log (setup.probe purpose) purpose startedAt ∧
      startedAt ≤ observation.completedAt ∧
      observation = setup.observation purpose observation.completedAt observation.completedAtMs
        observation.result ∧
      (timedOut = true → observation.result = setup.timedOut ∧
        startedAt + setup.policy.timeout ≤ observation.completedAt)
  | .switched _ | .cancelled => True

def Setup.Lawful (setup : Setup) : List Entry → Prop
  | [] => True
  | entry :: log => setup.Allowed log entry ∧ setup.Lawful log

/-! ## What is known of a driver -/

def queuedRequests : List Command → List Nat
  | [] => []
  | .useLiveness :: commands => queuedRequests commands
  | .reconcile request :: commands => request :: queuedRequests commands

/-- What is known where the task is. -/
def State.Reached (setup : Setup) (s : State) : Point → Prop
  | .token purpose startedAt => purpose ≠ .periodic .reconcile ∧ startedAt ≤ s.now ∧
      ∃ older, Latest s.log (setup.probe purpose) purpose startedAt older
  | .check purpose startedAt => purpose ≠ .periodic .reconcile ∧ startedAt ≤ s.now ∧
      Running s.log (setup.probe purpose) purpose startedAt
  | .select _ | .stopped => True

/-- The request that was being served when the token was cancelled. -/
def State.Aborts (s : State) (aborted : List Nat) : Prop :=
  aborted = [] ∨ (aborted.length = 1 ∧ s.cancelled = true ∧
    (s.point = .select .cancelled ∨ s.point = .stopped))

structure Sound (setup : Setup) (s : State) : Prop where
  lawful : setup.Lawful s.log
  cancelled : .cancelled ∈ s.log ↔ s.cancelled = true
  periodic : s.periodic = setup.rhythm s.log
  paused : ∀ since, pausedAt s.log = some since →
    since ≤ s.now ∧ since + setup.policy.interval ≤ s.nextProbe
  reached : s.Reached setup s.point
  served : ∃ aborted, s.Aborts aborted ∧ List.range s.requests =
    (answers s.log).map Prod.fst ++ aborted ++ s.point.requests ++ queuedRequests s.commands
  results : ((observations s.log).filter (·.phase = .reconcile)).map ProbeObservation.result =
    (answers s.log).map Prod.snd
  own : ∀ observation ∈ observations s.log,
    observation.runId = setup.runId ∧ observation.pid = setup.pid

section Steps

variable {setup : Setup} {s t : State} {log older : List Entry} {probe : Probe}
  {purpose : Purpose} {startedAt : Instant}

theorem Latest.cons {entry : Entry} (hbegan : ∀ probe purpose time, entry ≠ .began probe purpose time)
    (hpublished : ∀ observation timedOut, entry ≠ .published observation timedOut)
    (h : Latest log probe purpose startedAt older) :
    Latest (entry :: log) probe purpose startedAt older := by
  obtain ⟨newer, rfl, hnone, hempty⟩ := h
  refine ⟨entry :: newer, rfl, fun probe purpose time hm => ?_, ?_⟩
  · obtain rfl | hm := List.mem_cons.1 hm
    · exact hbegan _ _ _ rfl
    · exact hnone _ _ _ hm
  · cases entry with
    | published observation timedOut => exact absurd rfl (hpublished observation timedOut)
    | _ => exact hempty

theorem latest_began : Latest (.began probe purpose startedAt :: log) probe purpose startedAt log :=
  ⟨[], rfl, fun _ _ _ hm => (by cases hm), rfl⟩

theorem State.Reached.goto {point : Point} (h : s.Reached setup point) :
    (s.goto point).Reached setup point := by
  cases point <;> exact h

theorem queuedRequests_append (commands more : List Command) :
    queuedRequests (commands ++ more) = queuedRequests commands ++ queuedRequests more := by
  induction commands with
  | nil => rfl
  | cons command commands ih =>
    cases command with
    | useLiveness => exact ih
    | reconcile request => exact congrArg (request :: ·) ih

/-- A step of the task that does nothing but go on. -/
theorem Sound.goto {point : Point} (h : Sound setup s) (hreached : s.Reached setup point)
    (hrequests : point.requests = s.point.requests)
    (haborts : ∀ aborted, s.Aborts aborted → (s.goto point).Aborts aborted) :
    Sound setup (s.goto point) :=
  { h with
    reached := hreached.goto
    served := by
      obtain ⟨aborted, hab, heq⟩ := h.served
      refine ⟨aborted, haborts aborted hab, ?_⟩
      change _ = _ ++ _ ++ point.requests ++ _
      rw [hrequests]
      exact heq }

/-- Nothing was aborted while the task is at work. -/
theorem State.Aborts.none {aborted : List Nat} (h : s.Aborts aborted)
    (hpoint : s.point ≠ .select .cancelled) (hstopped : s.point ≠ .stopped) : aborted = [] :=
  h.resolve_right fun ⟨_, _, hp⟩ => hp.elim hpoint hstopped

theorem Sound.cancel (h : Sound setup s) : Sound setup s.cancel := by
  unfold State.cancel
  split
  · exact h
  · rename_i hlive
    refine {
      lawful := ⟨trivial, h.lawful⟩
      cancelled := ⟨fun _ => rfl, fun _ => List.mem_cons_self⟩
      periodic := h.periodic
      paused := h.paused
      reached := ?_
      served := ?_
      results := h.results
      own := h.own }
    · have hreached := h.reached
      change State.Reached setup _ s.point
      cases hp : s.point with
      | select _ | stopped => trivial
      | token purpose startedAt =>
        rw [hp] at hreached
        exact ⟨hreached.1, hreached.2.1, hreached.2.2.imp fun _ hl => hl.cons (by simp) (by simp)⟩
      | check purpose startedAt =>
        rw [hp] at hreached
        exact ⟨hreached.1, hreached.2.1,
          hreached.2.2.imp fun _ hl => ⟨hl.1.cons (by simp) (by simp), hl.2⟩⟩
    · obtain ⟨aborted, hab, heq⟩ := h.served
      refine ⟨aborted, hab.imp_right fun habort => absurd habort.2.1 hlive, heq⟩

theorem rhythm_ne {phase : ProbePhase} (h : setup.rhythm log = some phase) :
    phase ≠ .reconcile := by
  unfold Setup.rhythm at h
  split at h
  · split at h
    · cases h
      simp
    · cases h
  · cases h
    simp

/-- An attempt begins: a periodic one when it is time, or the one a request asks for. -/
theorem Sound.begin (h : Sound setup s) (hpoint : s.point ≠ .select .cancelled)
    (hstopped : s.point ≠ .stopped) (hidle : s.point.requests = [])
    (hperiodic : ∀ phase, purpose = .periodic phase →
      s.periodic = some phase ∧ s.nextProbe ≤ s.now)
    {commands : List Command}
    (hqueued : queuedRequests s.commands = purpose.requests ++ queuedRequests commands) :
    Sound setup ({ s with commands := commands }.begin setup purpose) where
  lawful := by
    refine ⟨⟨rfl, ?_⟩, h.lawful⟩
    cases purpose with
    | reconcile request => trivial
    | periodic phase =>
      obtain ⟨hphase, htime⟩ := hperiodic phase rfl
      exact ⟨h.periodic.symm.trans hphase, fun since hs => (h.paused since hs).2.trans htime⟩
  cancelled := by
    refine Iff.trans ?_ h.cancelled
    simp [State.begin, State.record, State.goto]
  periodic := h.periodic
  paused := h.paused
  reached := by
    refine ⟨?_, le_rfl, s.log, latest_began⟩
    rintro rfl
    exact rhythm_ne (h.periodic.symm.trans (hperiodic _ rfl).1) rfl
  served := by
    obtain ⟨aborted, hab, heq⟩ := h.served
    refine ⟨[], .inl rfl, ?_⟩
    rw [hab.none hpoint hstopped, hidle, hqueued] at heq
    exact heq.trans (by simp [State.begin, State.record, State.goto, Point.requests, answers])
  results := h.results
  own := h.own

/-- The token was cancelled before the attempt was done. -/
theorem Sound.abort {nowMs : Int} (h : Sound setup s) (hpoint : s.point = .token purpose startedAt)
    (hcancelled : s.cancelled = true) : Sound setup (s.finish setup purpose none nowMs) := by
  obtain ⟨aborted, hab, heq⟩ := h.served
  rw [hab.none (by simp [hpoint]) (by simp [hpoint]), hpoint] at heq
  cases purpose with
  | reconcile request =>
    exact { h with
      reached := trivial
      served := ⟨[request], .inr ⟨rfl, hcancelled, .inl rfl⟩, by
        simpa [State.finish, State.goto, Point.requests, Purpose.requests] using heq⟩ }
  | periodic phase =>
    exact { h with
      paused := fun since hs => by
        have hpast := (h.paused since hs).1
        exact ⟨hpast, Nat.add_le_add_right hpast _⟩
      reached := trivial
      served := ⟨[], .inl rfl, by
        simpa [State.finish, State.goto, Point.requests, Purpose.requests] using heq⟩ }

/-- The attempt is done. -/
theorem Sound.publish {result : ProbeResult} {timedOut : Bool} {nowMs : Int} (h : Sound setup s)
    (hpoint : s.point = .check purpose startedAt)
    (htimed : timedOut = true →
      result = setup.timedOut ∧ startedAt + setup.policy.timeout ≤ s.now) :
    Sound setup (s.finish setup purpose (some (result, timedOut)) nowMs) := by
  obtain ⟨aborted, hab, heq⟩ := h.served
  have hreached := h.reached
  rw [hpoint] at hreached
  obtain ⟨hpurpose, hstarted, older, hlatest, hbefore⟩ := hreached
  rw [hab.none (by simp [hpoint]) (by simp [hpoint]), hpoint] at heq
  cases purpose with
  | reconcile request =>
    have hanswered : Latest (.answered request result :: s.log) (setup.probe (.reconcile request))
        (.reconcile request) startedAt older := hlatest.cons (by simp) (by simp)
    exact {
      lawful := ⟨⟨.reconcile request, startedAt, ⟨older, hanswered, hbefore⟩, hstarted, rfl, htimed⟩,
        trivial, h.lawful⟩
      cancelled := by
        refine Iff.trans ?_ h.cancelled
        simp [State.finish, State.record, State.goto]
      periodic := h.periodic
      paused := h.paused
      reached := trivial
      served := ⟨[], .inl rfl, by
        simpa [State.finish, State.record, State.goto, Point.requests, Purpose.requests, answers]
          using heq⟩
      results := by
        have hresults := h.results
        simp only [State.finish, State.record, State.goto, observations, answers]
        rw [List.filter_append, List.map_append, hresults, List.map_append]
        rfl
      own := fun observation hm => by
        obtain hold | hnew := List.mem_append.1 hm
        · exact h.own observation hold
        · rw [List.mem_singleton.1 hnew]
          exact ⟨rfl, rfl⟩ }
  | periodic phase =>
    have hphase : phase ≠ .reconcile := fun hp => hpurpose (congrArg _ hp)
    exact {
      lawful := ⟨⟨.periodic phase, startedAt, ⟨older, hlatest, hbefore⟩, hstarted, rfl, htimed⟩,
        h.lawful⟩
      cancelled := by
        refine Iff.trans ?_ h.cancelled
        simp [State.finish, State.record, State.goto]
      periodic := h.periodic
      paused := fun since hs => by
        cases (if_neg hphase).symm.trans hs
        exact ⟨le_rfl, le_rfl⟩
      reached := trivial
      served := ⟨[], .inl rfl, by
        simpa [State.finish, State.record, State.goto, Point.requests, Purpose.requests, answers]
          using heq⟩
      results := by
        refine Eq.trans ?_ h.results
        simp [State.finish, State.record, State.goto, observations, Setup.observation,
          Purpose.phase, hphase]
      own := fun observation hm => by
        obtain hold | hnew := List.mem_append.1 hm
        · exact h.own observation hold
        · rw [List.mem_singleton.1 hnew]
          exact ⟨rfl, rfl⟩ }

/-- The task starts to use the liveness probe. -/
theorem Sound.use {commands : List Command} (h : Sound setup s)
    (hpoint : s.point = .select .command) (hcommands : s.commands = .useLiveness :: commands) :
    Sound setup (({ s with
      commands := commands
      periodic := if setup.liveness then some .liveness else none
      nextProbe := s.now + setup.policy.interval }.record (.switched s.now)).goto
        (.select .cancelled)) where
  lawful := ⟨trivial, h.lawful⟩
  cancelled := by
    refine Iff.trans ?_ h.cancelled
    simp [State.record, State.goto]
  periodic := rfl
  paused := fun since hs => by
    cases hs
    exact ⟨le_rfl, le_rfl⟩
  reached := trivial
  served := by
    obtain ⟨aborted, hab, heq⟩ := h.served
    refine ⟨[], .inl rfl, ?_⟩
    rw [hab.none (by simp [hpoint]) (by simp [hpoint]), hpoint, hcommands] at heq
    exact heq
  results := h.results
  own := h.own

theorem Sound.poll {answer : Option ProbeResult} {nowMs : Int} (h : Sound setup s)
    (hs : s.poll setup answer nowMs = some t) : Sound setup t := by
  cases hpoint : s.point with
  | select arm =>
    cases arm with
    | cancelled =>
      simp only [State.poll, hpoint] at hs
      cases hs
      split
      · refine h.goto trivial (by rw [hpoint]; rfl) fun aborted hab => ?_
        exact hab.imp_right fun habort => ⟨habort.1, habort.2.1, .inr rfl⟩
      · rename_i hlive
        refine h.goto trivial (by rw [hpoint]; rfl) fun aborted hab => ?_
        exact hab.imp_right fun habort => absurd habort.2.1 hlive
    | command =>
      have hnone : ∀ aborted, s.Aborts aborted → aborted = [] := fun aborted hab =>
        hab.none (by simp [hpoint]) (by simp [hpoint])
      simp only [State.poll, hpoint] at hs
      split at hs
      · rename_i commands hcommands
        cases hs
        exact h.use hpoint hcommands
      · rename_i request commands hcommands
        cases hs
        exact h.begin (by simp [hpoint]) (by simp [hpoint]) (by rw [hpoint]; rfl) (by simp)
          (by rw [hcommands]; rfl)
      · cases hs
        refine h.goto (by split <;> trivial) ?_ fun aborted hab => .inl (hnone aborted hab)
        rw [hpoint]
        split <;> rfl
    | sleep =>
      have hidle : Sound setup (s.goto (.select .cancelled)) :=
        h.goto trivial (by rw [hpoint]; rfl) fun aborted hab =>
          .inl (hab.none (by simp [hpoint]) (by simp [hpoint]))
      simp only [State.poll, hpoint] at hs
      split at hs
      · rename_i phase hphase
        split at hs
        · rename_i htime
          cases hs
          refine h.begin (by simp [hpoint]) (by simp [hpoint]) (by rw [hpoint]; rfl) ?_ rfl
          rintro _ hp
          cases hp
          exact ⟨hphase, htime⟩
        · cases hs
          exact hidle
      · cases hs
        exact hidle
  | token purpose startedAt =>
    have hreached := h.reached
    rw [hpoint] at hreached
    simp only [State.poll, hpoint] at hs
    split at hs
    · rename_i hcancelled
      cases hs
      exact h.abort hpoint hcancelled
    · rename_i hlive
      cases hs
      obtain ⟨hpurpose, hstarted, older, hlatest⟩ := hreached
      refine h.goto ⟨hpurpose, hstarted, older, hlatest, fun hm => hlive (h.cancelled.1 ?_)⟩
        (by rw [hpoint]; rfl) fun aborted hab =>
          .inl (hab.none (by simp [hpoint]) (by simp [hpoint]))
      obtain ⟨newer, hlog, -⟩ := hlatest
      rw [hlog]
      exact List.mem_append_right _ (List.mem_cons_of_mem _ hm)
  | check purpose startedAt =>
    have hreached := h.reached
    rw [hpoint] at hreached
    simp only [State.poll, hpoint] at hs
    split at hs
    · cases hs
      exact h.publish hpoint fun htimed => by cases htimed
    · split at hs
      · rename_i htime
        cases hs
        exact h.publish hpoint fun _ => ⟨rfl, htime⟩
      · cases hs
        obtain ⟨hpurpose, hstarted, older, hlatest, -⟩ := hreached
        exact h.goto ⟨hpurpose, hstarted, older, hlatest⟩ (by rw [hpoint]; rfl) fun aborted hab =>
          .inl (hab.none (by simp [hpoint]) (by simp [hpoint]))
  | stopped => simp [State.poll, hpoint] at hs

theorem Sound.step {label : Label} (h : Sound setup s) (hs : s.step setup label = some t) :
    Sound setup t := by
  cases label with
  | poll answer nowMs => exact h.poll hs
  | useLiveness =>
    simp only [State.step] at hs
    split at hs
    · cases hs
      refine { h with reached := h.reached, served := ?_ }
      obtain ⟨aborted, hab, heq⟩ := h.served
      refine ⟨aborted, hab, heq.trans ?_⟩
      rw [queuedRequests_append, queuedRequests, queuedRequests, List.append_nil]
    · cases hs
  | reconcile =>
    simp only [State.step] at hs
    split at hs
    · cases hs
      refine { h with reached := h.reached, served := ?_ }
      obtain ⟨aborted, hab, heq⟩ := h.served
      refine ⟨aborted, hab, ?_⟩
      rw [List.range_succ, heq, queuedRequests_append, ← List.append_assoc]
      rfl
    · cases hs
  | cancel =>
    cases hs
    exact h.cancel
  | drop =>
    cases hs
    have hc := h.cancel
    exact { hc with reached := hc.reached, served := hc.served }
  | tick duration =>
    cases hs
    refine { h with paused := ?_, reached := ?_, served := h.served }
    · exact fun since hs => ⟨(h.paused since hs).1.trans (Nat.le_add_right ..), (h.paused since hs).2⟩
    · have hreached := h.reached
      change State.Reached setup _ s.point
      cases hp : s.point with
      | select _ | stopped => trivial
      | token _ _ | check _ _ =>
        rw [hp] at hreached
        exact ⟨hreached.1, hreached.2.1.trans (Nat.le_add_right ..), hreached.2.2⟩

end Steps

/-! ## Every run -/

section Runs

variable {setup : Setup} {s : State} {now : Instant}

theorem sound (hr : (start setup now).Reachable s) : Sound setup s := by
  refine hr.invariant ?_ fun s label t h _ hs => h.step hs
  exact {
    lawful := trivial
    cancelled := by simp [start]
    periodic := rfl
    paused := fun since hs => by cases hs
    reached := trivial
    served := ⟨[], .inl rfl, rfl⟩
    results := rfl
    own := fun observation hm => by cases hm }

theorem observations_append (newer older : List Entry) :
    observations (newer ++ older) = observations older ++ observations newer := by
  induction newer with
  | nil => simp [observations]
  | cons entry newer ih => cases entry <;> simp [observations, ih]

/-- Only the attempt that was running when the token was cancelled can publish after that. -/
theorem late_observations {newer older : List Entry}
    (h : setup.Lawful (newer ++ .cancelled :: older)) : (observations newer).length ≤ 1 := by
  induction newer with
  | nil => exact Nat.zero_le _
  | cons entry newer ih =>
    obtain ⟨hallowed, hrest⟩ := h
    cases entry with
    | published observation timedOut =>
      obtain ⟨purpose, startedAt, ⟨before, ⟨since, hlog, -, hempty⟩, hlive⟩, -⟩ := hallowed
      have hnone : observations newer = [] := by
        obtain ⟨rest, rfl, -⟩ | ⟨rest, -, hrest⟩ := List.append_eq_append_iff.1 hlog
        · rw [observations_append] at hempty
          exact (List.append_eq_nil_iff.1 hempty).2
        · cases rest with
          | nil => cases hrest
          | cons _ rest =>
            obtain ⟨-, rfl⟩ := List.cons_eq_cons.1 hrest
            exact absurd (List.mem_append_right _ List.mem_cons_self) hlive
      simp [observations, hnone]
    | _ => exact ih hrest

/-- The requests are answered in their order, each with the result of one observation that
is published, and one is lost only if the token is cancelled while it is served; every
observation is of the driver's own run. -/
theorem requests_served (hr : (start setup now).Reachable s) :
    (∃ aborted, s.Aborts aborted ∧ List.range s.requests =
      (answers s.log).map Prod.fst ++ aborted ++ s.point.requests ++ queuedRequests s.commands) ∧
    ((observations s.log).filter (·.phase = .reconcile)).map ProbeObservation.result =
      (answers s.log).map Prod.snd ∧
    ∀ observation ∈ observations s.log,
      fromDriver (some ⟨setup.runId, setup.pid⟩) observation = true := by
  have h := sound hr
  refine ⟨h.served, h.results, fun observation hm => ?_⟩
  obtain ⟨hrun, hpid⟩ := h.own observation hm
  simp [fromDriver, hrun, hpid]

/-- A periodic attempt begins at its interval after the last one was done or the liveness
probe was put to use, with the probe and the phase of that time; what is published is of the
attempt that began last and before any cancellation, and a timeout is not reported before it
is due; and after the token is cancelled at most one observation is published. -/
theorem driver_keeps_time (hr : (start setup now).Reachable s) :
    setup.Lawful s.log ∧
    ∀ newer older, s.log = newer ++ .cancelled :: older → (observations newer).length ≤ 1 := by
  have h := (sound hr).lawful
  refine ⟨h, fun newer older hlog => ?_⟩
  rw [hlog] at h
  exact late_observations h

end Runs

/-! ## A run -/

def plainSetup : Setup := ⟨1, 42, true, ⟨5, 3, 3, 1, 0⟩, fun _ => "3ns"⟩

/-- A readiness probe, a request, and a liveness probe that times out after the token is
cancelled. -/
def probedThenCancelled : List Label :=
  let polls := fun count => List.replicate count (Label.poll none 0)
  let healthy := Label.poll (some .healthy) 0
  polls 4 ++ [healthy, .reconcile] ++ polls 3 ++ [healthy, .useLiveness] ++ polls 2 ++ [.tick 5] ++
    polls 4 ++ [.tick 3, .cancel] ++ polls 2

def plainDriver : Machine State Label := start plainSetup 0

theorem probed_three_times : (plainDriver.run plainDriver.init probedThenCancelled).any (fun s =>
    decide (s.point = .stopped) && decide ((observations s.log).length = 3) &&
      decide (answers s.log = [(0, .healthy)])) = true := by
  decide +kernel

theorem request_was_served : ∃ s, plainDriver.Reachable s ∧ answers s.log = [(0, .healthy)] ∧
    ∃ aborted, s.Aborts aborted ∧ List.range s.requests =
      (answers s.log).map Prod.fst ++ aborted ++ s.point.requests ++ queuedRequests s.commands := by
  obtain ⟨s, hs, ho⟩ := (Option.any_eq_true _ _).1 probed_three_times
  simp only [Bool.and_eq_true, decide_eq_true_eq] at ho
  have hreach := Machine.run_reachable .init hs
  exact ⟨s, hreach, ho.2, (requests_served hreach).1⟩

theorem cancelled_run_is_lawful : ∃ s, plainDriver.Reachable s ∧
    (observations s.log).length = 3 ∧ plainSetup.Lawful s.log := by
  obtain ⟨s, hs, ho⟩ := (Option.any_eq_true _ _).1 probed_three_times
  simp only [Bool.and_eq_true, decide_eq_true_eq] at ho
  have hreach := Machine.run_reachable .init hs
  exact ⟨s, hreach, ho.1.2, (driver_keeps_time hreach).1⟩

end Chimera.Instance.Driver
