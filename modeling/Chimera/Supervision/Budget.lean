import Chimera.Supervision.Sound

/-! The budgets of the supervision loop, over every run: of restarts between two
`Ready` events and of failures in the storm window. -/

namespace Chimera.Supervision
open Chimera.Lib.Transition
open Chimera.Process (Duration Instant TerminatedPayload)

variable {setup : Setup} {s t : State} {log newer older : List Entry}

theorem supervision_sound {pid : Pid} {cancelled : Bool} {now : Instant}
    (h : (supervision setup pid cancelled now).Reachable s) : Sound setup s := by
  refine Machine.ReachableBy.invariant h ?_ fun s label t hs _ hstep => hs.step hstep
  refine ⟨trivial, fun _ _ _ => ⟨rfl, Nat.zero_le _⟩, rfl, .nil, nofun, ?_, nofun, False.elim,
    nofun, ?_, .inl rfl⟩
  · exact fun _ => setup.stormPolicy.positive
  · intro handle hh
    cases hh
    rfl

/-! ## Logs -/

theorem Lawful.of_append (h : Lawful setup (newer ++ older)) : Lawful setup older := by
  induction newer with
  | nil => exact h
  | cons entry newer ih => exact ih h.2

def isRestarting : Entry → Bool
  | .emitted (.restarting _ _) => true
  | _ => false

/-- The restarts since the last `Ready` are within the budget. -/
theorem Lawful.sinceReady_le {maxRestarts : UInt32} (hc : Countable setup maxRestarts)
    (h : Lawful setup log) : sinceReady log ≤ maxRestarts.toNat := by
  induction log with
  | nil => exact Nat.zero_le _
  | cons entry log ih =>
    cases entry with
    | emitted event =>
      cases event with
      | ready => exact Nat.zero_le _
      | restarting attempt delay => exact h.1 maxRestarts hc
      | _ => exact ih h.2
    | _ => exact ih h.2

/-- A part without `Ready` adds its restarts to those before it. -/
theorem countP_le_sinceReady (h : .emitted .ready ∉ newer) :
    newer.countP isRestarting ≤ sinceReady (newer ++ older) := by
  induction newer with
  | nil => exact Nat.zero_le _
  | cons entry newer ih =>
    replace ih := ih fun hm => h (List.mem_cons_of_mem _ hm)
    cases entry with
    | emitted event =>
      cases event with
      | ready => exact absurd (List.mem_cons_self ..) h
      | restarting attempt delay =>
        show (_ :: newer).countP isRestarting ≤ sinceReady (newer ++ older) + 1
        rw [List.countP_cons]
        exact Nat.add_le_add ih (by split <;> decide)
      | _ => simpa [isRestarting, sinceReady] using ih
    | _ => simpa [isRestarting, sinceReady] using ih

/-- What was final for a spawn call was not in the log before it. -/
theorem Lawful.no_spawn {entry : Entry} (h : Lawful setup (newer ++ entry :: older))
    (hf : Final setup entry) : .spawnCalled ∉ newer := by
  induction newer with
  | nil => nofun
  | cons last newer ih =>
    intro hm
    rcases List.mem_cons.1 hm with rfl | hm
    · exact h.1.1 entry (by simp) hf
    · exact ih h.2 hm

theorem Lawful.not_started {child : Nat}
    (h : Lawful setup (newer ++ .spawnReturned child true :: older)) (pid : Pid) :
    .emitted (.started pid) ∉ newer := by
  induction newer with
  | nil => nofun
  | cons last newer ih =>
    intro hm
    rcases List.mem_cons.1 hm with rfl | hm
    · exact h.1 child (by simp)
    · exact ih h.2 hm

/-- A stop that was owed is owed until it is made. -/
theorem mem_owed {child : Nat} (h : .stopRequested child ∉ newer) :
    child ∈ owed (newer ++ .spawnReturned child true :: older) := by
  induction newer with
  | nil => exact List.mem_cons_self ..
  | cons entry newer ih =>
    replace ih := ih fun hm => h (List.mem_cons_of_mem _ hm)
    cases entry with
    | spawnReturned c inFlight =>
      cases inFlight with
      | false => exact ih
      | true => exact List.mem_cons_of_mem _ ih
    | stopRequested c =>
      refine List.mem_filter.2 ⟨ih, ?_⟩
      have hne : child ≠ c := fun he => h (he ▸ List.mem_cons_self ..)
      simpa using hne
    | _ => exact ih

/-! ## Steps -/

/-- The log grows, and the attempt counter stays or goes up. -/
structure Goes (s t : State) : Prop where
  log : s.log <:+ t.log
  attempt : t.attempt = s.attempt ∨ t.attempt = s.attempt + 1

theorem Goes.same (hlog : s.log <:+ t.log) (hattempt : t.attempt = s.attempt) : Goes s t :=
  ⟨hlog, .inl hattempt⟩

theorem Goes.after {u : State} (h : Goes t u) (hlog : s.log <:+ t.log)
    (hattempt : t.attempt = s.attempt) : Goes s u :=
  ⟨hlog.trans h.log, hattempt ▸ h.attempt⟩

theorem State.stopCurrent_goes (s : State) : Goes s s.stopCurrent := by
  unfold State.stopCurrent
  split
  · exact .same (List.suffix_cons _ _) rfl
  · exact .same List.suffix_rfl rfl

theorem State.stopped_goes (s : State) : Goes s s.stopped :=
  .same ((List.suffix_cons _ _).trans (List.suffix_cons _ _)) rfl

theorem State.retry_goes (entropy : Nat) (s : State) : Goes s (s.retry setup entropy) := by
  unfold State.retry
  dsimp only
  split
  · exact .same List.suffix_rfl rfl
  split
  · exact ⟨List.suffix_rfl, .inr rfl⟩
  split
  · exact ⟨List.suffix_cons _ _, .inr rfl⟩
  split
  · exact ⟨List.suffix_rfl, .inr rfl⟩
  · exact ⟨List.suffix_cons _ _, .inr rfl⟩

theorem State.settle_goes (entropy : Nat) (payload : TerminatedPayload) (cancelled : Bool)
    (s : State) : Goes s (s.settle setup entropy payload cancelled) := by
  have hexit : s.log <:+ .emitted (.exited payload) :: s.log := List.suffix_cons _ _
  unfold State.settle
  dsimp only
  split
  · exact (State.stopped_goes _).after hexit rfl
  split
  · exact .same hexit rfl
  split
  · exact .same (hexit.trans ((List.suffix_cons _ _).trans (List.suffix_cons _ _))) rfl
  · exact (State.retry_goes entropy _).after (hexit.trans (List.suffix_cons _ _)) rfl

theorem State.announce_goes (child : Nat) (pid : Pid) (s : State) :
    Goes s (s.announce setup child pid) := by
  unfold State.announce
  dsimp only
  split
  · exact .same (List.suffix_cons _ _) rfl
  · split <;> exact .same (List.suffix_cons _ _) rfl

/-- The attempts start over only for the current child that is alive, and the
event says so. -/
def Renewed (s t : State) : Prop :=
  t.attempt = 0 ∧ t.log = .emitted .ready :: s.log ∧ s.cancelled = false ∧
    ∃ handle readyAt cancelled message, s.pc = .checking handle.child readyAt cancelled message ∧
      s.current = some handle ∧ s.terminated handle.child = false ∧
      ∀ pid ∈ message, pid = handle.pid

theorem Sound.check_goes {child : Nat} {readyAt : Instant} {cancelled : Bool}
    {message : Option Pid} (h : Sound setup s)
    (hpc : s.pc = .checking child readyAt cancelled message) :
    Goes s (s.check child readyAt cancelled message) ∨
      Renewed s (s.check child readyAt cancelled message) := by
  unfold State.check
  split
  · rename_i hready
    obtain ⟨halive, hcancelled⟩ := Bool.and_eq_true_iff.1 hready
    obtain ⟨handle, hlive, hmessage⟩ := (Option.any_eq_true _ _).1 halive
    obtain ⟨hcurrent, hterminated⟩ := Option.filter_eq_some_iff.1 hlive
    have hholds := h.current handle hcurrent
    rw [hpc] at hholds
    cases hholds
    refine .inr ⟨rfl, rfl, by simpa using hcancelled, handle, readyAt, cancelled, message, hpc,
      hcurrent, by simpa using hterminated, ?_⟩
    rintro pid ⟨⟩
    simpa using hmessage
  · exact .inl (.same List.suffix_rfl rfl)

theorem Sound.advance_goes (h : Sound setup s) (hs : Advances setup s t) :
    Goes s t ∨ Renewed s t := by
  cases hs with
  | select hpc hs =>
    obtain ⟨-, -, rfl⟩ | ⟨-, queue, pc, -, rfl⟩ := State.select_cases hpc hs
    · have hstop := (s.record .cancelObserved).stopCurrent_goes
      exact .inl ⟨(List.suffix_cons _ _).trans hstop.log, hstop.attempt⟩
    · exact .inl (.same List.suffix_rfl rfl)
  | check hpc => exact h.check_goes hpc
  | release hpc => exact .inl (.same List.suffix_rfl rfl)
  | settle hpc => exact .inl (State.settle_goes ..)
  | stopped hpc => exact .inl s.stopped_goes
  | retry hpc => exact .inl (State.retry_goes ..)
  | next hpc => exact .inl (.same List.suffix_rfl rfl)
  | unpreparedStopped hpc => exact .inl ((State.stopped_goes _).after (List.suffix_cons _ _) rfl)
  | unprepared hpc =>
    exact .inl (.same ((List.suffix_cons _ _).trans (List.suffix_cons _ _)) rfl)
  | call hpc => exact .inl (.same (List.suffix_cons _ _) rfl)
  | returned hpc => exact .inl (.same (List.suffix_cons _ _) rfl)
  | store hpc => exact .inl (.same List.suffix_rfl rfl)
  | announce hpc => exact .inl (State.announce_goes ..)

theorem Sound.step_goes {label : Label} (h : Sound setup s) (hs : s.step setup label = some t) :
    Goes s t ∨ Renewed s t := by
  obtain ⟨-, hloop⟩ | ⟨-, haside | hstop⟩ := State.step_cases hs
  · exact h.advance_goes hloop
  · exact .inl (.same (haside.log ▸ List.suffix_rfl) haside.attempt)
  · have hgoes := s.stopCurrent_goes
    refine .inl ⟨?_, ?_⟩
    · rw [hstop.log]
      exact hgoes.log
    · rw [hstop.attempt]
      exact hgoes.attempt

theorem Sound.step_log {label : Label} (h : Sound setup s) (hs : s.step setup label = some t) :
    s.log <:+ t.log := by
  obtain hgoes | ⟨-, hlog, -⟩ := h.step_goes hs
  · exact hgoes.log
  · exact hlog ▸ List.suffix_cons _ _

/-! ## The stop of a child that came too late -/

/-- The steps of the loop until the stop. -/
def remaining (pc : Pc) : Nat :=
  match pc with
  | .storing _ _ => 3
  | .announcing _ _ => 2
  | .watching _ _ _ _ => 1
  | _ => 0

theorem stopCurrent_requested {handle : Handle} (h : s.current = some handle) :
    .stopRequested handle.child ∈ s.stopCurrent.log := by
  unfold State.stopCurrent
  rw [h]
  exact List.mem_cons_self ..

theorem Advances.of_storing {child : Nat} {pid : Pid} (hpc : s.pc = .storing child pid)
    (hs : Advances setup s t) :
    t = { s with current := some ⟨child, pid⟩ }.goto (.announcing child pid) := by
  cases hs with
  | store h =>
    rw [hpc] at h
    cases h
    rfl
  | select h _ | check h | release h | settle h | stopped h | retry h | next h
  | unpreparedStopped h | unprepared h | call h | returned h | announce h =>
    rw [hpc] at h
    cases h

theorem Advances.of_announcing {child : Nat} {pid : Pid} (hpc : s.pc = .announcing child pid)
    (hs : Advances setup s t) : t = s.announce setup child pid := by
  cases hs with
  | announce h =>
    rw [hpc] at h
    cases h
    rfl
  | select h _ | check h | release h | settle h | stopped h | retry h | next h
  | unpreparedStopped h | unprepared h | call h | returned h | store h =>
    rw [hpc] at h
    cases h

/-- A watched child whose token is cancelled is stopped. -/
theorem Advances.of_watching {child : Nat} {readyAt : Instant} {pending : Bool}
    (hpc : s.pc = .watching child readyAt pending false) (hc : s.cancelled = true)
    (hs : Advances setup s t) :
    t = (s.record .cancelObserved).stopCurrent.goto (.watching child readyAt false true) := by
  cases hs with
  | select h hs =>
    obtain ⟨-, -, ht⟩ | ⟨harm, -⟩ := State.select_cases h hs
    · rw [hpc] at h
      cases h
      exact ht
    · rw [hpc] at h
      cases h
      exact absurd ⟨hc, rfl⟩ harm
  | check h | release h | settle h | stopped h | retry h | next h
  | unpreparedStopped h | unprepared h | call h | returned h | store h | announce h =>
    rw [hpc] at h
    cases h

/-- A child whose token is cancelled is not announced. -/
theorem announce_late (child : Nat) (pid : Pid) (hc : s.cancelled = true) :
    ∃ readyAt, s.announce setup child pid =
      (s.record .cancelObserved).goto (.watching child readyAt true false) := by
  unfold State.announce
  rw [if_pos hc]
  exact ⟨_, rfl⟩

/-- The loop steps on towards the stop. -/
theorem Underway.advance {child : Nat} (hu : Underway s child) (hs : Advances setup s t) :
    .stopRequested child ∈ t.log ∨ (Underway t child ∧ remaining t.pc + 1 ≤ remaining s.pc) := by
  obtain ⟨hc, ⟨pid, hpc⟩ | ⟨⟨handle, hcurrent, rfl⟩, ⟨pid, hpc⟩ | ⟨readyAt, pending, hpc⟩⟩⟩ := hu
  · have ht := hs.of_storing hpc
    subst ht
    refine .inr ⟨⟨hc, .inr ⟨⟨_, rfl, rfl⟩, .inl ⟨pid, rfl⟩⟩⟩, ?_⟩
    rw [hpc]
    exact Nat.le_refl 3
  · obtain ⟨readyAt, hlate⟩ := announce_late handle.child pid hc
    have ht := (hs.of_announcing hpc).trans hlate
    subst ht
    refine .inr ⟨⟨hc, .inr ⟨⟨handle, hcurrent, rfl⟩, .inr ⟨readyAt, true, rfl⟩⟩⟩, ?_⟩
    rw [hpc]
    exact Nat.le_refl 2
  · have ht := hs.of_watching hpc hc
    subst ht
    have hcurrent' : (s.record .cancelObserved).current = some handle := hcurrent
    exact .inl (stopCurrent_requested hcurrent')

/-- Nobody else keeps the loop from the stop. -/
theorem Underway.step {child : Nat} {label : Label} (hu : Underway s child)
    (hs : s.step setup label = some t) : .stopRequested child ∈ t.log ∨
      (Underway t child ∧ remaining t.pc + (if label.isLoop then 1 else 0) ≤ remaining s.pc) := by
  obtain ⟨hl, hloop⟩ | ⟨hl, haside | hstop⟩ := State.step_cases hs
  · rw [hl]
    exact hu.advance hloop
  · obtain ⟨hc, hwhere⟩ := hu
    refine .inr ⟨⟨haside.cancelled hc, ?_⟩, ?_⟩
    · rw [haside.pc, haside.current]
      exact hwhere
    · rw [hl, haside.pc]
      exact Nat.le_refl _
  · obtain ⟨hc, ⟨pid, hpc⟩ | ⟨⟨handle, hcurrent, rfl⟩, -⟩⟩ := hu
    · have hpc' : t.pc = s.pc := hstop.pc.trans (State.stopCurrent_pc s)
      have hc' : s.stopCurrent.cancelled = true := by
        unfold State.stopCurrent
        split <;> exact hc
      refine .inr ⟨⟨hstop.cancelled hc', .inl ⟨pid, hpc'.trans hpc⟩⟩, ?_⟩
      rw [hl, hpc']
      exact Nat.le_refl _
    · refine .inl ?_
      rw [hstop.log]
      exact stopCurrent_requested hcurrent

/-- After three steps of the loop the child has been stopped. -/
theorem run_stops {pid : Pid} {cancelled : Bool} {now : Instant} {child : Nat}
    {labels : List Label} :
    ∀ {s t : State} {n : Nat}, Sound setup s →
      .stopRequested child ∈ s.log ∨ (Underway s child ∧ remaining s.pc ≤ n) →
      (supervision setup pid cancelled now).run s labels = some t →
      n ≤ labels.countP Label.isLoop → .stopRequested child ∈ t.log := by
  induction labels with
  | nil =>
    intro s t n _ hu hrun hn
    cases hrun
    obtain hstopped | ⟨⟨-, hwhere⟩, hrem⟩ := hu
    · exact hstopped
    · have hpos : 0 < remaining s.pc := by
        obtain ⟨pid, hpc⟩ | ⟨-, ⟨pid, hpc⟩ | ⟨_, _, hpc⟩⟩ := hwhere
        all_goals
          rw [hpc]
          exact Nat.succ_pos _
      exact absurd (Nat.le_trans hrem hn) (Nat.not_le.2 hpos)
  | cons label labels ih =>
    intro s t n h hu hrun hn
    obtain ⟨u, hstep, hrest⟩ := Option.bind_eq_some_iff.1 hrun
    have hstep : s.step setup label = some u := hstep
    have hnext : .stopRequested child ∈ u.log ∨ (Underway u child ∧
        remaining u.pc ≤ n - if label.isLoop then 1 else 0) := by
      obtain hstopped | ⟨hu, hrem⟩ := hu
      · exact .inl ((h.step_log hstep).subset hstopped)
      · obtain hstopped | ⟨hu', hrem'⟩ := hu.step hstep
        · exact .inl hstopped
        · exact .inr ⟨hu', by omega⟩
    refine ih (h.step hstep) hnext hrest ?_
    rw [List.countP_cons] at hn
    omega

/-- Until then the loop can step. -/
theorem Underway.can_step {child : Nat} (hu : Underway s child) :
    ∃ choice, (s.step setup (.loop choice 0)).isSome := by
  obtain ⟨hc, ⟨pid, hpc⟩ | ⟨-, ⟨pid, hpc⟩ | ⟨_, _, hpc⟩⟩⟩ := hu
  · exact ⟨.go, by unfold State.step State.advance; simp [hpc]⟩
  · exact ⟨.go, by unfold State.step State.advance; simp [hpc]⟩
  · exact ⟨.cancel, by unfold State.step State.advance; simp [State.select, hpc, hc]⟩

/-! ## The budgets -/

/-- Between two `Ready` events there are at most as many restarts as the policy allows, if
its attempts can be counted, and at every spawn call fewer failures lie in the storm
window than the storm policy allows. A clean exit, `RestartPolicy::Never`, a failed
preparation or an observed cancellation is followed by no spawn call. A child whose spawn
was in flight when the token was cancelled is not announced, and within three steps of the
loop it has been stopped. The attempts start over only with the readiness of the current
child, which is alive. -/
theorem restart_budget {pid : Pid} {cancelled : Bool} {now : Instant}
    (h : (supervision setup pid cancelled now).Reachable s) :
    (∀ maxRestarts, Countable setup maxRestarts → ∀ newer between older,
      s.log = newer ++ between ++ older → .emitted .ready ∉ between →
        between.countP isRestarting ≤ maxRestarts.toNat) ∧
    (∀ newer older, s.log = newer ++ .spawnCalled :: older →
      (recent setup older).length < setup.stormPolicy.maxFailures.toNat ∧ setup.policy ≠ .never) ∧
    (∀ newer entry older, s.log = newer ++ entry :: older → Final setup entry →
      .spawnCalled ∉ newer) ∧
    (∀ newer child older, s.log = newer ++ .spawnReturned child true :: older →
      (∀ pid, .emitted (.started pid) ∉ newer) ∧
      (.stopRequested child ∈ newer ∨ ∃ choice, (s.step setup (.loop choice 0)).isSome) ∧
      ∀ labels t, (supervision setup pid cancelled now).run s labels = some t →
        3 ≤ labels.countP Label.isLoop → .stopRequested child ∈ t.log) ∧
    ∀ label t, s.step setup label = some t → Goes s t ∨ Renewed s t := by
  have hs := supervision_sound h
  have hlawful := hs.lawful
  refine ⟨?restarts, ?storm, ?final, ?late, fun label t hstep => hs.step_goes hstep⟩
  case restarts =>
    intro maxRestarts hc newer between older hlog hready
    rw [hlog, List.append_assoc] at hlawful
    exact Nat.le_trans (countP_le_sinceReady hready) (hlawful.of_append.sinceReady_le hc)
  case storm =>
    intro newer older hlog
    rw [hlog] at hlawful
    exact hlawful.of_append.1.2
  case final =>
    intro newer entry older hlog hf
    rw [hlog] at hlawful
    exact hlawful.no_spawn hf
  case late =>
    intro newer child older hlog
    rw [hlog] at hlawful
    have hstop : .stopRequested child ∈ newer ∨ Underway s child := by
      by_cases hn : .stopRequested child ∈ newer
      · exact .inl hn
      · have hm := @mem_owed newer older child hn
        rw [← hlog] at hm
        obtain hnone | ⟨c, hc, hu⟩ := hs.owing
        · rw [hnone] at hm
          cases hm
        · rw [hc, List.mem_singleton] at hm
          exact .inr (hm ▸ hu)
    refine ⟨hlawful.not_started, hstop.imp_right fun hu => hu.can_step, ?_⟩
    intro labels t hrun hthree
    refine run_stops hs (n := 3) ?_ hrun hthree
    obtain hn | hu := hstop
    · exact .inl (hlog ▸ List.mem_append_left _ hn)
    · refine .inr ⟨hu, ?_⟩
      unfold remaining
      split <;> decide

/-- Two restarts, and readiness after a second and a half. -/
def twoRestarts : Setup where
  policy := .onFailure 2
  backoff := ⟨1000000000, 30000000000, false⟩
  readiness := .aliveAfter 1500000000
  stormPolicy := .new 5 300000000000
  preparation := true
  overflowChecks := false

/-- The first child is ready, crashes, and the token is cancelled while the second
one is being spawned. -/
def cancelledLate : List Label :=
  [.tick 1500000000, .loop .readyAt 0, .loop .go 0, .terminate 0,
    .loop (.terminated ⟨some 1, none⟩) 0, .loop .go 0, .loop .go 0, .tick 1000000000, .loop .go 0,
    .loop .go 0, .loop (.succeeded 0) 0, .loop .go 0, .loop .go 0, .cancel, .loop (.succeeded 8) 0,
    .loop .go 0, .loop .go 0, .loop .cancel 0, .loop (.terminated ⟨none, some 15⟩) 0, .loop .go 0,
    .loop .go 0]

def lateLog : List Entry :=
  [.emitted .stopped, .cancelObserved, .emitted (.exited ⟨none, some 15⟩), .stopRequested 1,
    .cancelObserved, .cancelObserved]

def earlyLog : List Entry :=
  [.spawnCalled, .emitted (.restarting 1 1000000000), .abnormalExit 1500000000,
    .emitted (.exited ⟨some 1, none⟩), .emitted .ready]

theorem cancelled_late_budget : ∃ t,
    (supervision twoRestarts 7 false 0).run (supervision twoRestarts 7 false 0).init cancelledLate =
      some t ∧ t.log = lateLog ++ .spawnReturned 1 true :: earlyLog ∧
    ((∀ pid, .emitted (.started pid) ∉ lateLog) ∧ .spawnCalled ∉ lateLog.dropLast) ∧
    (recent twoRestarts earlyLog.tail).length < 5 := by
  have hlog : ((supervision twoRestarts 7 false 0).run (supervision twoRestarts 7 false 0).init
      cancelledLate).map State.log = some (lateLog ++ .spawnReturned 1 true :: earlyLog) := by
    decide +kernel
  obtain ⟨t, hrun, hlog⟩ := Option.map_eq_some_iff.1 hlog
  obtain ⟨-, hstorm, hfinal, hlate, -⟩ := restart_budget (Machine.run_reachable .init hrun)
  refine ⟨t, hrun, hlog, ⟨(hlate _ 1 _ hlog).1, ?_⟩, ?_⟩
  · exact hfinal lateLog.dropLast .cancelObserved (.spawnReturned 1 true :: earlyLog) hlog trivial
  · exact (hstorm (lateLog ++ [.spawnReturned 1 true]) earlyLog.tail hlog).1

/-! ## Attempts that wrap -/

/-- A policy whose attempts cannot be counted, and no delay between them. -/
def uncounted : Setup where
  policy := .onFailure 0xFFFFFFFF
  backoff := ⟨0, 0, false⟩
  readiness := .aliveAfter 0
  stormPolicy := .new 5 300000000000
  preparation := false
  overflowChecks := false

/-- The loop waits for its next attempt after `n` restarts since the only `Ready`. -/
structure Failing (n : Nat) (s : State) : Prop where
  waiting : s.pc = .backoff s.now
  live : s.cancelled = false
  fresh : s.terminated s.next = false
  restarts : ∃ between, s.log = between ++ [.emitted .ready] ∧ .emitted .ready ∉ between ∧
    between.countP isRestarting = n

/-- The first child is ready and crashes. -/
def crashes : List Label :=
  [.loop .readyAt 0, .loop .go 0, .terminate 0, .loop (.terminated ⟨some 1, none⟩) 0,
    .loop .go 0, .loop .go 0]

/-- The wait is over, and the loop calls spawn. -/
def calls : List Label :=
  [.loop .go 0, .loop .go 0, .loop (.succeeded 0) 0, .loop .go 0, .loop .go 0]

/-- An attempt whose spawn call fails. -/
def fails : List Label := calls ++ [.loop .failed 0, .loop .go 0]

/-- An attempt that gives a child which becomes ready. -/
def recovers : List Label :=
  calls ++ ([.loop (.succeeded 8) 0, .loop .go 0, .loop .go 0] ++ [.loop .readyAt 0, .loop .go 0])

/-- No attempt is one too many. -/
theorem retry_uncounted (s : State) : s.retry uncounted 0 =
    ({ s with attempt := s.attempt + 1 }.emit (.restarting (s.attempt + 1) 0)).goto
      (.backoff s.now) := by
  have hfew : ¬ (0xFFFFFFFF : UInt32) < s.attempt + 1 := by
    have := (s.attempt + 1).toNat_lt
    rw [UInt32.lt_iff_toNat_lt]
    change ¬ 4294967295 < _
    omega
  simp [State.retry, uncounted, Backoff.delayFor, hfew]

theorem crashes_failing : ∃ s, (supervision uncounted 7 false 0).Reachable s ∧ Failing 1 s := by
  have hrun : ((supervision uncounted 7 false 0).run (supervision uncounted 7 false 0).init
      crashes).any (fun s => decide (s.pc = .backoff s.now) && decide (s.cancelled = false) &&
        decide (s.terminated s.next = false) && decide (s.log =
          [.emitted (.restarting 1 0), .abnormalExit 0, .emitted (.exited ⟨some 1, none⟩)] ++
            [.emitted .ready])) = true := by
    decide +kernel
  obtain ⟨s, hs, ho⟩ := (Option.any_eq_true _ _).1 hrun
  simp only [Bool.and_eq_true, decide_eq_true_eq] at ho
  obtain ⟨⟨⟨hwaiting, hlive⟩, hfresh⟩, hlog⟩ := ho
  exact ⟨s, Machine.run_reachable .init hs, hwaiting, hlive, hfresh, _, hlog, by decide, by decide⟩

theorem Failing.run_calls {n : Nat} (h : Failing n s) :
    (supervision uncounted 7 false 0).run s calls =
      some ((s.record .spawnCalled).goto .spawning) := by
  have hwake : s.step uncounted (.loop .go 0) = some (s.goto .woken) := by
    unfold State.step State.advance
    simp [h.waiting, h.live]
  have hprepare : (s.goto .woken).step uncounted (.loop .go 0) = some (s.goto .preparing) := by
    unfold State.step State.advance
    simp [State.goto, h.live]
  have hcall : (s.goto .prepared).step uncounted (.loop .go 0) = some (s.goto .calling) := by
    unfold State.step State.advance
    simp [State.goto, h.live]
  rw [calls, Machine.run_cons hwake, Machine.run_cons hprepare,
    Machine.run_cons (t := s.goto .prepared) rfl, Machine.run_cons hcall]
  rfl

/-- The spawn call fails, and the loop waits again. -/
theorem Failing.run_fails {n : Nat} (h : Failing n s) :
    (supervision uncounted 7 false 0).run s fails =
      some (({ s.record .spawnCalled with attempt := s.attempt + 1 }.emit
        (.restarting (s.attempt + 1) 0)).goto (.backoff s.now)) := by
  have hretry : ((s.record .spawnCalled).goto .failed).step uncounted (.loop .go 0) =
      some (((s.record .spawnCalled).goto .failed).retry uncounted 0) := by
    unfold State.step State.advance
    simp [State.goto, State.record, h.live]
  rw [fails, Machine.run_append, h.run_calls, Option.bind_some,
    Machine.run_cons (t := (s.record .spawnCalled).goto .failed) rfl, Machine.run_cons hretry,
    retry_uncounted]
  rfl

theorem Failing.again {n : Nat} (h : Failing n s)
    (hr : (supervision uncounted 7 false 0).Reachable s) :
    ∃ t, (supervision uncounted 7 false 0).Reachable t ∧ Failing (n + 1) t := by
  refine ⟨_, Machine.run_reachable hr h.run_fails, ?_⟩
  obtain ⟨between, hlog, hready, hcount⟩ := h.restarts
  refine ⟨rfl, h.live, h.fresh,
    .emitted (.restarting (s.attempt + 1) 0) :: .spawnCalled :: between, ?_, ?_, ?_⟩
  · exact congrArg (fun log => _ :: _ :: log) hlog
  · simpa using hready
  · rw [List.countP_cons_of_pos rfl, List.countP_cons_of_neg (by decide), hcount]

/-- There is no bound on the restarts. -/
theorem failing (n : Nat) :
    ∃ s, (supervision uncounted 7 false 0).Reachable s ∧ Failing (n + 1) s := by
  induction n with
  | zero => exact crashes_failing
  | succ n ih =>
    obtain ⟨s, hr, h⟩ := ih
    exact h.again hr

/-- The loop with the child that the spawn call gave it. -/
def State.watched (s : State) : State :=
  ({ (s.record .spawnCalled).record (.spawnReturned s.next false) with
    next := s.next + 1
    current := some ⟨s.next, 8⟩ }.emit (.started 8)).goto (.watching s.next s.now true false)

/-- The spawn call succeeds, and the child is ready at once. -/
theorem Failing.run_recovers {n : Nat} (h : Failing n s) :
    (supervision uncounted 7 false 0).run s recovers =
      some (s.watched.goto (.watching s.next s.now false false)).ready := by
  have hreturn : (supervision uncounted 7 false 0).run ((s.record .spawnCalled).goto .spawning)
      [.loop (.succeeded 8) 0, .loop .go 0, .loop .go 0] = some s.watched := by
    cases s
    cases h.live
    rfl
  have hready : s.watched.step uncounted (.loop .readyAt 0) =
      some (s.watched.goto (.checking s.next s.now false none)) := by
    unfold State.step State.advance
    simp [State.watched, State.emit, State.record, State.goto, State.select, uncounted, h.live]
  have hcheck : (s.watched.goto (.checking s.next s.now false none)).step uncounted
      (.loop .go 0) = some (s.watched.goto (.watching s.next s.now false false)).ready := by
    unfold State.step State.advance
    simp [State.watched, State.emit, State.record, State.goto, State.check, State.live, h.live,
      h.fresh]
  rw [recovers, Machine.run_append, h.run_calls, Option.bind_some, Machine.run_append, hreturn,
    Option.bind_some, Machine.run_cons hready, Machine.run_cons hcheck]
  rfl

/-- Where the attempts wrap, there are more restarts between two `Ready` events than the
policy allows. -/
theorem uncounted_restarts : ∃ s newer between older,
    (supervision uncounted 7 false 0).Reachable s ∧
    s.log = newer ++ .emitted .ready :: between ++ .emitted .ready :: older ∧
    .emitted .ready ∉ between ∧ (0xFFFFFFFF : UInt32).toNat < between.countP isRestarting := by
  obtain ⟨s, hr, h⟩ := failing 0xFFFFFFFF
  obtain ⟨between, hlog, hready, hcount⟩ := h.restarts
  refine ⟨_, [], .emitted (.started 8) :: .spawnReturned s.next false :: .spawnCalled :: between,
    [], Machine.run_reachable hr h.run_recovers, ?_, ?_, ?_⟩
  · exact congrArg (fun log => _ :: _ :: _ :: _ :: log) hlog
  · simpa using hready
  · change _ < between.countP isRestarting
    rw [hcount]
    decide

end Chimera.Supervision
