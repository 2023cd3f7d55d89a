import Chimera.Supervision.Loop

/-! What a step of the supervision loop can be, and what a step of anybody else
can be. -/

namespace Chimera.Supervision
open Chimera.Lib.Transition
open Chimera.Process (Duration Instant TerminatedPayload)

variable {setup : Setup} {s t : State} {entropy : Nat} {choice : Choice}

/-- The loop has no child at hand. -/
def Pc.Alone : Pc → Prop
  | .exited _ _ | .failed | .backoff _ | .woken | .preparing | .prepared | .calling
  | .spawning => True
  | _ => False

/-- Where an arm that is not the token's leads. -/
inductive Pc.Arm (child : Nat) (cancelled : Bool) : Pc → Prop
  | watching (readyAt : Instant) (pending : Bool) :
      Arm child cancelled (.watching child readyAt pending cancelled)
  | checking (readyAt : Instant) (message : Option Pid) :
      Arm child cancelled (.checking child readyAt cancelled message)
  | ending (payload : TerminatedPayload) : Arm child cancelled (.ending payload cancelled)

/-- The token comes first. -/
theorem State.select_cases {child : Nat} {readyAt : Instant} {pending cancelled : Bool}
    (hpc : s.pc = .watching child readyAt pending cancelled)
    (h : s.select setup child readyAt pending cancelled choice = some t) :
    (s.cancelled = true ∧ cancelled = false ∧
      t = (s.record .cancelObserved).stopCurrent.goto (.watching child readyAt false true)) ∨
    (¬ (s.cancelled = true ∧ cancelled = false) ∧
      ∃ queue pc, pc.Arm child cancelled ∧ t = { s with readyQueue := queue }.goto pc) := by
  by_cases harm : (s.cancelled && !cancelled) = true
  · have hcancelled : s.cancelled = true ∧ cancelled = false := by simpa using harm
    cases choice with
    | cancel =>
      simp only [State.select, harm, if_true, Option.some.injEq] at h
      exact .inl ⟨hcancelled.1, hcancelled.2, h.symm⟩
    | _ => simp [State.select, harm] at h
  · refine .inr ⟨by simpa using harm, ?_⟩
    cases choice with
    | readyAt =>
      simp only [State.select, if_neg harm] at h
      split at h
      · cases h
        exact ⟨s.readyQueue, _, .checking readyAt none, rfl⟩
      · cases h
    | readyMessage =>
      simp only [State.select, if_neg harm] at h
      split at h
      · cases h
      rename_i pid queue _
      split at h
      · cases h
        exact ⟨queue, _, .checking readyAt (some pid), rfl⟩
      · cases h
    | readyClosed =>
      simp only [State.select, if_neg harm] at h
      split at h
      · cases h
        exact ⟨s.readyQueue, _, .watching readyAt false, rfl⟩
      · cases h
    | event =>
      simp only [State.select, if_neg harm] at h
      cases h
      exact ⟨s.readyQueue, s.pc, hpc ▸ .watching readyAt pending, rfl⟩
    | terminated payload =>
      simp only [State.select, if_neg harm] at h
      cases h
      exact ⟨s.readyQueue, _, .ending payload, rfl⟩
    | closed =>
      simp only [State.select, if_neg harm] at h
      cases h
      exact ⟨s.readyQueue, _, .ending ⟨none, none⟩, rfl⟩
    | cancel | go | succeeded _ | failed => simp [State.select, harm] at h

/-- A step of the loop that reads nothing but the token. -/
inductive Pc.Next (cancelled : Bool) : Pc → Pc → Prop
  | wake (deadline : Instant) : Next cancelled (.backoff deadline) .woken
  | prepare : Next cancelled .woken .preparing
  | prepared : Next cancelled .preparing .prepared
  | call (h : cancelled = false) : Next cancelled .prepared .calling
  | fail : Next cancelled .spawning .failed

inductive Advances (setup : Setup) (s : State) : State → Prop
  | select {child : Nat} {readyAt : Instant} {pending cancelled : Bool} {choice : Choice}
      {t : State} (hpc : s.pc = .watching child readyAt pending cancelled)
      (hs : s.select setup child readyAt pending cancelled choice = some t) : Advances setup s t
  | check {child : Nat} {readyAt : Instant} {cancelled : Bool} {message : Option Pid}
      (hpc : s.pc = .checking child readyAt cancelled message) :
      Advances setup s (s.check child readyAt cancelled message)
  | release {payload : TerminatedPayload} {cancelled : Bool}
      (hpc : s.pc = .ending payload cancelled) :
      Advances setup s ({ s with current := none }.goto (.exited payload cancelled))
  | settle {entropy : Nat} {payload : TerminatedPayload} {cancelled : Bool}
      (hpc : s.pc = .exited payload cancelled) :
      Advances setup s (s.settle setup entropy payload cancelled)
  | stopped (hpc : s.pc.Alone) : Advances setup s s.stopped
  | retry {entropy : Nat} (hpc : s.pc = .failed) : Advances setup s (s.retry setup entropy)
  | next {pc : Pc} (hpc : Pc.Next s.cancelled s.pc pc) : Advances setup s (s.goto pc)
  | unpreparedStopped (hpc : s.pc = .preparing) :
      Advances setup s (s.record .preparationFailed).stopped
  | unprepared (hpc : s.pc = .preparing) : Advances setup s
      (((s.record .preparationFailed).emit .preparationFailed).goto .finished)
  | call (hpc : s.pc = .calling) : Advances setup s ((s.record .spawnCalled).goto .spawning)
  | returned {pid : Pid} (hpc : s.pc = .spawning) : Advances setup s
      (({ s with next := s.next + 1 }.record (.spawnReturned s.next s.cancelled)).goto
        (.storing s.next pid))
  | store {child : Nat} {pid : Pid} (hpc : s.pc = .storing child pid) : Advances setup s
      ({ s with current := some ⟨child, pid⟩ }.goto (.announcing child pid))
  | announce {child : Nat} {pid : Pid} (hpc : s.pc = .announcing child pid) :
      Advances setup s (s.announce setup child pid)

theorem State.advance_cases (hs : s.advance setup entropy choice = some t) :
    Advances setup s t := by
  have halone : ∀ {pc : Pc}, s.pc = pc → pc.Alone → s.pc.Alone := fun hpc ha => hpc ▸ ha
  have hnext : ∀ {pc pc' : Pc}, s.pc = pc → pc.Next s.cancelled pc' →
      Advances setup s (s.goto pc') := fun hpc hn => .next (hpc ▸ hn)
  unfold State.advance at hs
  cases hpc : s.pc with
  | watching child readyAt pending cancelled =>
    simp only [hpc] at hs
    exact .select hpc hs
  | checking child readyAt cancelled message =>
    cases choice <;> simp only [hpc, reduceCtorEq] at hs
    cases hs
    exact .check hpc
  | ending payload cancelled =>
    cases choice <;> simp only [hpc, reduceCtorEq] at hs
    cases hs
    exact .release hpc
  | exited payload cancelled =>
    cases choice <;> simp only [hpc, reduceCtorEq] at hs
    cases hs
    exact .settle hpc
  | failed =>
    cases choice <;> simp only [hpc, reduceCtorEq] at hs
    cases hs
    split
    · exact .stopped (halone hpc trivial)
    · exact .retry hpc
  | backoff deadline =>
    cases choice <;> simp only [hpc, reduceCtorEq] at hs
    split at hs
    · cases hs
      exact .stopped (halone hpc trivial)
    · split at hs
      · cases hs
        exact hnext hpc (.wake deadline)
      · cases hs
  | woken =>
    cases choice <;> simp only [hpc, reduceCtorEq] at hs
    cases hs
    split
    · exact .stopped (halone hpc trivial)
    · exact hnext hpc .prepare
  | preparing =>
    cases choice <;> simp only [hpc, reduceCtorEq] at hs
    · cases hs
      exact hnext hpc .prepared
    · split at hs
      · cases hs
        split
        · exact .unpreparedStopped hpc
        · exact .unprepared hpc
      · cases hs
  | prepared =>
    cases choice <;> simp only [hpc, reduceCtorEq] at hs
    cases hs
    split
    · exact .stopped (halone hpc trivial)
    · rename_i hc
      exact hnext hpc (.call (eq_false_of_ne_true hc))
  | calling =>
    cases choice <;> simp only [hpc, reduceCtorEq] at hs
    cases hs
    exact .call hpc
  | spawning =>
    cases choice <;> simp only [hpc, reduceCtorEq] at hs
    · cases hs
      exact .returned hpc
    · cases hs
      exact hnext hpc .fail
  | storing child pid =>
    cases choice <;> simp only [hpc, reduceCtorEq] at hs
    cases hs
    exact .store hpc
  | announcing child pid =>
    cases choice <;> simp only [hpc, reduceCtorEq] at hs
    cases hs
    exact .announce hpc
  | finished => cases choice <;> simp [hpc] at hs

/-- Nothing that the loop decides by has changed, except that time may have passed
and the token may have been cancelled. -/
structure Aside (s t : State) : Prop where
  pc : t.pc = s.pc
  attempt : t.attempt = s.attempt
  exits : t.abnormalExits = s.abnormalExits
  current : t.current = s.current
  log : t.log = s.log
  now : s.now ≤ t.now
  cancelled : s.cancelled = true → t.cancelled = true

theorem Aside.refl (s : State) : Aside s s :=
  ⟨rfl, rfl, rfl, rfl, rfl, Nat.le_refl _, id⟩

def Label.isLoop : Label → Bool
  | .loop _ _ => true
  | _ => false

/-- What is not a step of the loop takes the current child to stop it, or changes
nothing that the loop decides by. -/
theorem State.step_cases {label : Label} (hs : s.step setup label = some t) :
    (label.isLoop = true ∧ Advances setup s t) ∨
      (label.isLoop = false ∧ (Aside s t ∨ Aside s.stopCurrent t)) := by
  cases label with
  | loop choice entropy => exact .inl ⟨rfl, State.advance_cases hs⟩
  | cancel | stop | drop =>
    cases hs
    exact .inr ⟨rfl, .inl ⟨rfl, rfl, rfl, rfl, rfl, Nat.le_refl _, fun _ => rfl⟩⟩
  | tick duration =>
    cases hs
    exact .inr ⟨rfl, .inl ⟨rfl, rfl, rfl, rfl, rfl, Nat.le_add_right .., id⟩⟩
  | terminate child =>
    cases hs
    exact .inr ⟨rfl, .inl ⟨rfl, rfl, rfl, rfl, rfl, Nat.le_refl _, id⟩⟩
  | acknowledge call pid =>
    simp only [State.step] at hs
    split at hs
    · cases hs
      refine .inr ⟨rfl, .inl ?_⟩
      split
      · exact ⟨rfl, rfl, rfl, rfl, rfl, Nat.le_refl _, id⟩
      · exact .refl s
    · cases hs
  | acknowledgeTake call =>
    simp only [State.step] at hs
    split at hs
    · cases hs
      refine .inr ⟨rfl, .inl ?_⟩
      split <;> exact ⟨rfl, rfl, rfl, rfl, rfl, Nat.le_refl _, id⟩
    · cases hs
  | acknowledgeSend call =>
    simp only [State.step] at hs
    split at hs
    · cases hs
      refine .inr ⟨rfl, .inl ?_⟩
      split <;> exact ⟨rfl, rfl, rfl, rfl, rfl, Nat.le_refl _, id⟩
    · cases hs
  | stopTake =>
    simp only [State.step] at hs
    split at hs
    · cases hs
      exact .inr ⟨rfl, .inr ⟨rfl, rfl, rfl, rfl, rfl, Nat.le_refl _, id⟩⟩
    · cases hs

end Chimera.Supervision
