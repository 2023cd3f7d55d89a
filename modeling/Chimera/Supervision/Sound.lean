import Chimera.Supervision.Steps

/-! What a run of the supervision loop may do: the log is lawful if every entry
was allowed where it was made, and the state knows of the log what the loop
decides by. -/

namespace Chimera.Supervision
open Chimera.Lib.Transition
open Chimera.Process (Duration Instant TerminatedPayload)

/-! ## What a log says -/

/-- The restarts since the last `Ready`. -/
def sinceReady : List Entry → Nat
  | [] => 0
  | .emitted .ready :: _ => 0
  | .emitted (.restarting _ _) :: log => sinceReady log + 1
  | _ :: log => sinceReady log

/-- The last one first. -/
def exitTimes : List Entry → List Instant
  | [] => []
  | .abnormalExit time :: log => time :: exitTimes log
  | _ :: log => exitTimes log

/-- The abnormal exits in the storm window that ends at the last one. -/
def recent (setup : Setup) (log : List Entry) : List Instant :=
  match exitTimes log with
  | [] => []
  | last :: earlier =>
    (last :: earlier).filter fun time => decide (last - time ≤ setup.stormPolicy.window)

/-- The children whose spawn call was in flight when the token was cancelled and
that were not stopped since. -/
def owed : List Entry → List Nat
  | [] => []
  | .spawnReturned child true :: log => child :: owed log
  | .stopRequested child :: log => (owed log).filter (· ≠ child)
  | _ :: log => owed log

/-- After this no child is spawned. -/
def Final (setup : Setup) : Entry → Prop
  | .emitted (.exited payload) => payload.code = some 0 ∨ setup.policy = .never
  | .preparationFailed | .cancelObserved => True
  | _ => False

/-- The attempts of such a policy can be counted. -/
def Countable (setup : Setup) (maxRestarts : UInt32) : Prop :=
  setup.policy = .onFailure maxRestarts ∧
    (setup.overflowChecks = true ∨ maxRestarts ≠ 0xFFFFFFFF)

/-- What may be done after what was done. -/
def Allowed (setup : Setup) (log : List Entry) : Entry → Prop
  | .emitted (.restarting _ _) => ∀ maxRestarts, Countable setup maxRestarts →
      sinceReady log + 1 ≤ maxRestarts.toNat
  | .emitted (.started _) => ∀ child, .spawnReturned child true ∉ log
  | .spawnCalled => (∀ entry ∈ log, ¬ Final setup entry) ∧
      (recent setup log).length < setup.stormPolicy.maxFailures.toNat ∧ setup.policy ≠ .never
  | _ => True

def Lawful (setup : Setup) : List Entry → Prop
  | [] => True
  | entry :: log => Allowed setup log entry ∧ Lawful setup log

/-- The children whose handle may be current where the loop is. -/
def Pc.Holds : Pc → Nat → Prop
  | .watching child _ _ _, c | .checking child _ _ _, c | .announcing child _, c => child = c
  | .ending _ _, _ => True
  | _, _ => False

/-- The loop is about to replace a child. -/
def Pc.Respawning : Pc → Prop
  | .failed | .backoff _ | .woken | .preparing | .prepared | .calling | .spawning
  | .storing _ _ | .announcing _ _ => True
  | _ => False

/-- The loop is about to stop the child. -/
def Underway (s : State) (child : Nat) : Prop :=
  s.cancelled = true ∧ ((∃ pid, s.pc = .storing child pid) ∨
    ((∃ handle, s.current = some handle ∧ handle.child = child) ∧
      ((∃ pid, s.pc = .announcing child pid) ∨
        ∃ readyAt pending, s.pc = .watching child readyAt pending false)))

/-- What the state knows of the log. -/
structure Sound (setup : Setup) (s : State) : Prop where
  lawful : Lawful setup s.log
  attempts : s.pc ≠ .finished → ∀ maxRestarts, Countable setup maxRestarts →
    sinceReady s.log = s.attempt.toNat ∧ s.attempt.toNat ≤ maxRestarts.toNat
  window : s.abnormalExits = (recent setup s.log).reverse
  falling : (exitTimes s.log).Pairwise fun later earlier => earlier ≤ later
  past : ∀ time ∈ exitTimes s.log, time ≤ s.now
  failures : s.pc ≠ .finished → s.abnormalExits.length < setup.stormPolicy.maxFailures.toNat
  final : ∀ entry ∈ s.log, Final setup entry → s.pc = .finished ∨
    (s.cancelled = true ∧ s.pc ≠ .calling)
  respawning : s.pc.Respawning → setup.policy ≠ .never
  inFlight : ∀ child, .spawnReturned child true ∈ s.log → s.cancelled = true
  current : ∀ handle, s.current = some handle → s.pc.Holds handle.child
  owing : owed s.log = [] ∨ ∃ child, owed s.log = [child] ∧ Underway s child

/-! ## What keeps it -/

section Steps

variable {setup : Setup} {s t : State} {entry : Entry} {pc : Pc}

/-- An entry that says nothing of restarts, children and exits to come. -/
def Plain : Entry → Prop
  | .emitted .ready | .emitted (.restarting _ _) | .emitted (.started _) | .abnormalExit _
  | .spawnCalled | .spawnReturned _ _ | .stopRequested _ => False
  | _ => True

structure Neutral (setup : Setup) (log : List Entry) (entry : Entry) : Prop where
  allowed : Allowed setup log entry
  sinceReady : sinceReady (entry :: log) = sinceReady log
  exitTimes : exitTimes (entry :: log) = exitTimes log
  owed : owed (entry :: log) = owed log
  inFlight : ∀ child, entry ≠ .spawnReturned child true

theorem neutral_of_plain (entry : Entry) (log : List Entry) (h : Plain entry) :
    Neutral setup log entry := by
  cases entry with
  | emitted event =>
    cases event with
    | ready | restarting _ _ | started _ => exact h.elim
    | exited _ | gaveUp | preparationFailed | stopped => exact ⟨trivial, rfl, rfl, rfl, nofun⟩
  | cancelObserved | preparationFailed => exact ⟨trivial, rfl, rfl, rfl, nofun⟩
  | abnormalExit _ | spawnCalled | spawnReturned _ _ | stopRequested _ => exact h.elim

theorem recent_congr {log log' : List Entry} (h : exitTimes log' = exitTimes log) :
    recent setup log' = recent setup log := by
  unfold recent
  rw [h]

theorem Sound.final_cons (h : Sound setup s)
    (hentry : Final setup entry → s.pc = .finished ∨ (s.cancelled = true ∧ s.pc ≠ .calling)) :
    ∀ e ∈ entry :: s.log, Final setup e →
      s.pc = .finished ∨ (s.cancelled = true ∧ s.pc ≠ .calling) := by
  intro e he hf
  rcases List.mem_cons.1 he with rfl | he
  · exact hentry hf
  · exact h.final e he hf

theorem Sound.inFlight_cons (h : Sound setup s)
    (hentry : ∀ child, entry ≠ .spawnReturned child true) :
    ∀ child, .spawnReturned child true ∈ entry :: s.log → s.cancelled = true := by
  intro child hc
  rcases List.mem_cons.1 hc with rfl | hc
  · exact absurd rfl (hentry child)
  · exact h.inFlight child hc

theorem Sound.record (h : Sound setup s) (hn : Neutral setup s.log entry)
    (hfinal : Final setup entry → s.pc = .finished ∨ (s.cancelled = true ∧ s.pc ≠ .calling)) :
    Sound setup (s.record entry) where
  lawful := ⟨hn.allowed, h.lawful⟩
  attempts := by
    intro hpc maxRestarts hc
    have hs := h.attempts hpc maxRestarts hc
    rw [← hn.sinceReady] at hs
    exact hs
  window := h.window.trans (congrArg _ (recent_congr hn.exitTimes).symm)
  falling := by
    show (exitTimes (entry :: s.log)).Pairwise _
    rw [hn.exitTimes]
    exact h.falling
  past := by
    show ∀ time ∈ exitTimes (entry :: s.log), time ≤ s.now
    rw [hn.exitTimes]
    exact h.past
  failures := h.failures
  final := h.final_cons hfinal
  respawning := h.respawning
  inFlight := h.inFlight_cons hn.inFlight
  current := h.current
  owing := by
    show owed (entry :: s.log) = [] ∨ ∃ child, owed (entry :: s.log) = [child] ∧ Underway s child
    rw [hn.owed]
    exact h.owing

/-- The loop goes on elsewhere. -/
theorem Sound.move (h : Sound setup s) (hpc : s.pc ≠ .finished)
    (hcalling : pc = .calling → s.cancelled = false)
    (hrespawning : pc.Respawning → setup.policy ≠ .never)
    (hcurrent : ∀ handle, s.current = some handle → pc.Holds handle.child)
    (howed : ∀ child, Underway s child → Underway (s.goto pc) child) :
    Sound setup (s.goto pc) where
  lawful := h.lawful
  attempts := fun _ => h.attempts hpc
  window := h.window
  falling := h.falling
  past := h.past
  failures := fun _ => h.failures hpc
  final := by
    intro e he hf
    refine .inr ?_
    rcases h.final e he hf with hfinished | ⟨hcancelled, -⟩
    · exact absurd hfinished hpc
    · refine ⟨hcancelled, fun hc => ?_⟩
      have hnot := hcalling hc
      rw [hcancelled] at hnot
      cases hnot
  respawning := hrespawning
  inFlight := h.inFlight
  current := hcurrent
  owing := by
    rcases h.owing with hnone | ⟨child, hchild, hu⟩
    · exact .inl hnone
    · exact .inr ⟨child, hchild, howed child hu⟩

theorem Sound.current_none (h : Sound setup s) (hpc : s.pc.Alone) : s.current = none := by
  cases hc : s.current with
  | none => rfl
  | some handle =>
    have hholds := h.current handle hc
    revert hpc hholds
    cases s.pc <;> intro hpc hholds <;> first | exact hpc.elim | exact hholds.elim

theorem Pc.Alone.ne_finished (hpc : s.pc.Alone) : s.pc ≠ .finished := by
  intro he
  rw [he] at hpc
  exact hpc

theorem Pc.Alone.not_underway (hpc : s.pc.Alone) (child : Nat) : ¬ Underway s child := by
  rintro ⟨-, ⟨pid, hs⟩ | ⟨-, ⟨pid, hs⟩ | ⟨_, _, hs⟩⟩⟩ <;> (rw [hs] at hpc; exact hpc)

/-- With no child at hand the loop may end. -/
theorem Sound.finish (h : Sound setup s) (hpc : s.pc.Alone) : Sound setup (s.goto .finished) where
  lawful := h.lawful
  attempts := fun hpc => absurd rfl hpc
  window := h.window
  falling := h.falling
  past := h.past
  failures := fun hpc => absurd rfl hpc
  final := fun _ _ _ => .inl rfl
  respawning := False.elim
  inFlight := h.inFlight
  current := by
    intro handle hh
    have hh : s.current = some handle := hh
    rw [h.current_none hpc] at hh
    cases hh
  owing := by
    rcases h.owing with hnone | ⟨child, -, hu⟩
    · exact .inl hnone
    · exact absurd hu (hpc.not_underway child)

/-- With no child at hand the loop may go on, and calls for a child only if it has
not been cancelled. -/
theorem Sound.move_alone (h : Sound setup s) (hpc : s.pc.Alone)
    (hcalling : pc = .calling → s.cancelled = false)
    (hrespawning : pc.Respawning → setup.policy ≠ .never) : Sound setup (s.goto pc) := by
  refine h.move hpc.ne_finished hcalling hrespawning ?_ fun child hu =>
    absurd hu (hpc.not_underway child)
  intro handle hh
  rw [h.current_none hpc] at hh
  cases hh

theorem Sound.aside (h : Sound setup s) (ha : Aside s t) : Sound setup t where
  lawful := by rw [ha.log]; exact h.lawful
  attempts := by rw [ha.pc, ha.attempt, ha.log]; exact h.attempts
  window := by rw [ha.exits, ha.log]; exact h.window
  falling := by rw [ha.log]; exact h.falling
  past := by
    rw [ha.log]
    exact fun time ht => Nat.le_trans (h.past time ht) ha.now
  failures := by rw [ha.pc, ha.exits]; exact h.failures
  final := by
    rw [ha.log, ha.pc]
    intro e he hf
    exact (h.final e he hf).imp_right fun ⟨hc, hne⟩ => ⟨ha.cancelled hc, hne⟩
  respawning := by rw [ha.pc]; exact h.respawning
  inFlight := by
    rw [ha.log]
    exact fun child hc => ha.cancelled (h.inFlight child hc)
  current := by rw [ha.current, ha.pc]; exact h.current
  owing := by
    rw [ha.log]
    refine h.owing.imp_right fun ⟨child, ho, hc, hu⟩ => ⟨child, ho, ha.cancelled hc, ?_⟩
    rw [ha.pc, ha.current]
    exact hu

theorem not_underway {child : Nat} (hcurrent : s.current = none)
    (hpc : ∀ pid, s.pc ≠ .storing child pid) : ¬ Underway s child := by
  rintro ⟨-, ⟨pid, hs⟩ | ⟨⟨handle, hh, -⟩, -⟩⟩
  · exact hpc pid hs
  · rw [hcurrent] at hh
    cases hh

theorem State.stopCurrent_pc (s : State) : s.stopCurrent.pc = s.pc := by
  unfold State.stopCurrent
  split <;> rfl

/-- Whoever takes the current child stops it. -/
theorem Sound.stopCurrent (h : Sound setup s) :
    Sound setup s.stopCurrent ∧ s.stopCurrent.current = none := by
  unfold State.stopCurrent
  cases hc : s.current with
  | none => exact ⟨h, hc⟩
  | some handle =>
    refine ⟨?_, rfl⟩
    have howed : owed (.stopRequested handle.child :: s.log) = [] := by
      show (owed s.log).filter (· ≠ handle.child) = []
      rcases h.owing with hnone | ⟨child, hchild, -, ⟨pid, hs⟩ | ⟨⟨handle', hh, hu⟩, -⟩⟩
      · rw [hnone]; rfl
      · have hholds := h.current handle hc
        rw [hs] at hholds
        exact hholds.elim
      · rw [hc] at hh
        cases hh
        rw [hchild, hu]
        simp
    exact {
      lawful := ⟨trivial, h.lawful⟩
      attempts := h.attempts
      window := h.window
      falling := h.falling
      past := h.past
      failures := h.failures
      final := h.final_cons False.elim
      respawning := h.respawning
      inFlight := h.inFlight_cons nofun
      current := by intro _ hh; cases hh
      owing := .inl howed }

theorem Sound.ready (h : Sound setup s) : Sound setup s.ready where
  lawful := ⟨trivial, h.lawful⟩
  attempts := fun _ _ _ => ⟨rfl, Nat.zero_le _⟩
  window := h.window
  falling := h.falling
  past := h.past
  failures := h.failures
  final := h.final_cons False.elim
  respawning := h.respawning
  inFlight := h.inFlight_cons nofun
  current := h.current
  owing := h.owing

/-- On a list where `p` only ever ceases to hold, what is left is what `p` does not hold of. -/
theorem dropWhile_eq_filter {α : Type} {p : α → Bool} {l : List α}
    (h : l.Pairwise fun a b => p b = true → p a = true) : l.dropWhile p = l.filter (!p ·) := by
  induction l with
  | nil => rfl
  | cons a l ih =>
    obtain ⟨ha, hl⟩ := List.pairwise_cons.1 h
    by_cases hp : p a = true
    · rw [List.dropWhile_cons_of_pos hp, ih hl, List.filter_cons_of_neg (by simp [hp])]
    · rw [List.dropWhile_cons_of_neg hp, eq_comm, List.filter_eq_self]
      intro b hb
      rcases List.mem_cons.1 hb with rfl | hb
      · simpa using hp
      · simpa using fun hpb => hp (ha b hb hpb)

/-- Of the exits in the window of the last exit, the window of a new one keeps those
that are in it. -/
theorem recent_cons {log : List Entry} {now : Instant} (h : ∀ time ∈ exitTimes log, time ≤ now) :
    recent setup (.abnormalExit now :: log) = (now :: recent setup log).filter fun time =>
      decide (now - time ≤ setup.stormPolicy.window) := by
  unfold recent
  show (now :: exitTimes log).filter _ = _
  cases hl : exitTimes log with
  | nil => rfl
  | cons last earlier =>
    rw [hl] at h
    have hlast := h last (List.mem_cons_self ..)
    show (now :: last :: earlier).filter _ = (now :: (last :: earlier).filter _).filter _
    generalize last :: earlier = exits
    rw [List.filter_cons, List.filter_cons, List.filter_filter]
    have hkept : ∀ time, decide (now - time ≤ setup.stormPolicy.window) =
        (decide (now - time ≤ setup.stormPolicy.window) &&
          decide (last - time ≤ setup.stormPolicy.window)) := by
      intro time
      rw [Bool.eq_self_and, decide_eq_true_eq, decide_eq_true_eq]
      exact Nat.le_trans (Nat.sub_le_sub_right hlast time)
    rw [← List.filter_congr fun time _ => hkept time]

theorem recent_sublist {log : List Entry} : (recent setup log).Sublist (exitTimes log) := by
  unfold recent
  cases exitTimes log with
  | nil => exact List.Sublist.slnil
  | cons last earlier => exact List.filter_sublist

/-- The oldest first, the exits that leave the window stand at its front. -/
theorem Sound.countExit_window (h : Sound setup s) : (s.countExit setup).abnormalExits =
    (recent setup (.abnormalExit s.now :: s.log)).reverse := by
  have hasc : (s.abnormalExits ++ [s.now]).Pairwise (· ≤ ·) := by
    rw [h.window, List.pairwise_append]
    have hrising := List.pairwise_reverse.2 (h.falling.sublist (@recent_sublist setup s.log))
    refine ⟨hrising, List.pairwise_singleton .., ?_⟩
    intro time ht last hlast
    rw [List.mem_singleton.1 hlast]
    exact h.past time (recent_sublist.subset (List.mem_reverse.1 ht))
  show (s.abnormalExits ++ [s.now]).dropWhile _ = _
  rw [dropWhile_eq_filter, recent_cons h.past, h.window, ← List.filter_reverse, List.reverse_cons]
  · refine List.filter_congr fun time _ => ?_
    rw [← decide_not, decide_eq_decide, Nat.not_lt]
  · refine hasc.imp fun {a b} hab hb => ?_
    replace hb : setup.stormPolicy.window < s.now - b := of_decide_eq_true hb
    show decide (setup.stormPolicy.window < s.now - a) = true
    exact decide_eq_true (Nat.lt_of_lt_of_le hb (Nat.sub_le_sub_left hab _))

/-- An exit is counted: the loop goes on only below the failures of a storm. -/
theorem Sound.countExit (h : Sound setup s) (hfew : s.pc ≠ .finished →
      (s.countExit setup).abnormalExits.length < setup.stormPolicy.maxFailures.toNat) :
    Sound setup (s.countExit setup) where
  lawful := ⟨trivial, h.lawful⟩
  attempts := h.attempts
  window := h.countExit_window
  falling := List.pairwise_cons.2 ⟨h.past, h.falling⟩
  past := by
    intro time ht
    rcases List.mem_cons.1 ht with rfl | ht
    · exact Nat.le_refl _
    · exact h.past time ht
  failures := hfew
  final := h.final_cons False.elim
  respawning := h.respawning
  inFlight := h.inFlight_cons nofun
  current := h.current
  owing := h.owing

/-- The loop has read the token as cancelled, and ends. -/
theorem Sound.recordStopped (h : Sound setup s) (hpc : s.pc = .finished) :
    Sound setup ((s.record .cancelObserved).emit .stopped) :=
  (h.record (neutral_of_plain .cancelObserved _ trivial) fun _ => .inl hpc).record
    (neutral_of_plain (.emitted .stopped) _ trivial) fun _ => .inl hpc

theorem Sound.stopped (h : Sound setup s) (hpc : s.pc.Alone) : Sound setup s.stopped :=
  (h.finish hpc).recordStopped rfl

/-- The loop gives up. -/
theorem Sound.gaveUp (h : Sound setup s) (hpc : s.pc = .finished) :
    Sound setup (s.emit .gaveUp) :=
  h.record (neutral_of_plain (.emitted .gaveUp) _ trivial) fun _ => .inl hpc

/-- The attempts that are still allowed are counted without a wrap. -/
theorem attempt_succ {maxRestarts : UInt32} (hc : Countable setup maxRestarts)
    (hle : s.attempt.toNat ≤ maxRestarts.toNat)
    (hover : ¬ (setup.overflowChecks && s.attempt == 0xFFFFFFFF) = true) :
    (s.attempt + 1).toNat = s.attempt.toNat + 1 := by
  have hlt : s.attempt.toNat < 2 ^ 32 - 1 := by
    have hmax := maxRestarts.toNat_lt
    rcases hc.2 with hchecks | hmost
    · have hne : s.attempt ≠ 0xFFFFFFFF := by simpa [hchecks] using hover
      have : s.attempt.toNat ≠ 2 ^ 32 - 1 := fun he => hne (UInt32.toNat.inj he)
      have := s.attempt.toNat_lt
      omega
    · have : maxRestarts.toNat ≠ 2 ^ 32 - 1 := fun he => hmost (UInt32.toNat.inj he)
      omega
  rw [UInt32.toNat_add, show (1 : UInt32).toNat = 1 from rfl]
  exact Nat.mod_eq_of_lt (by omega)

/-- A restart that the budget allows is counted. -/
theorem Sound.restarting {attempt : UInt32} {delay : Duration} (h : Sound setup s)
    (hcount : ∀ maxRestarts, Countable setup maxRestarts →
      sinceReady s.log + 1 = attempt.toNat ∧ attempt.toNat ≤ maxRestarts.toNat) :
    Sound setup ({ s with attempt }.emit (.restarting attempt delay)) where
  lawful := by
    refine ⟨fun maxRestarts hc => ?_, h.lawful⟩
    obtain ⟨hsince, hle⟩ := hcount maxRestarts hc
    exact Nat.le_trans (Nat.le_of_eq hsince) hle
  attempts := fun _ => hcount
  window := h.window
  falling := h.falling
  past := h.past
  failures := h.failures
  final := h.final_cons False.elim
  respawning := h.respawning
  inFlight := h.inFlight_cons nofun
  current := h.current
  owing := h.owing

theorem Sound.retry {entropy : Nat} (h : Sound setup s) (hpc : s.pc.Alone) :
    Sound setup (s.retry setup entropy) := by
  have hfinished : ∀ attempt, Sound setup ({ s with attempt }.goto .finished) := fun attempt =>
    { h.finish hpc with attempts := fun hne => absurd rfl hne }
  unfold State.retry
  split
  · exact h.finish hpc
  rename_i hover
  cases hpolicy : setup.policy with
  | never => exact hfinished _
  | onFailure maxRestarts =>
    dsimp only
    split
    · exact (hfinished _).gaveUp rfl
    rename_i hmore
    have hmore : (s.attempt + 1).toNat ≤ maxRestarts.toNat := Nat.not_lt.1 hmore
    split
    · exact hfinished _
    -- The only policy whose attempts can be counted is the one at hand.
    have hcount : ∀ maxRestarts', Countable setup maxRestarts' →
        sinceReady s.log + 1 = (s.attempt + 1).toNat ∧
          (s.attempt + 1).toNat ≤ maxRestarts'.toNat := by
      intro maxRestarts' hc
      have hsame : maxRestarts' = maxRestarts := by
        have hpolicy' := hc.1
        rw [hpolicy] at hpolicy'
        exact (RestartPolicy.onFailure.inj hpolicy').symm
      obtain ⟨hsince, hle⟩ := h.attempts hpc.ne_finished maxRestarts' hc
      rw [attempt_succ hc hle hover] at hmore ⊢
      rw [hsince, hsame]
      exact ⟨rfl, hmore⟩
    exact (h.restarting hcount).move_alone hpc nofun fun _ => by rw [hpolicy]; nofun

theorem Sound.settle {entropy : Nat} {payload : TerminatedPayload} {cancelled : Bool}
    (h : Sound setup s) (hpc : s.pc.Alone) :
    Sound setup (s.settle setup entropy payload cancelled) := by
  have hplain : Neutral setup s.log (.emitted (.exited payload)) := neutral_of_plain _ _ trivial
  have haside : Sound setup { s with readyPending := 0 } :=
    h.aside ⟨rfl, rfl, rfl, rfl, rfl, Nat.le_refl _, id⟩
  have hdone : Sound setup (({ s with readyPending := 0 }.goto .finished).emit (.exited payload)) :=
    (haside.finish hpc).record hplain fun _ => .inl rfl
  unfold State.settle
  dsimp only
  split
  · exact hdone.recordStopped rfl
  split
  · exact hdone
  rename_i hlast
  have hgo : Sound setup ({ s with readyPending := 0 }.emit (.exited payload)) :=
    haside.record hplain fun hf => absurd hf hlast
  split
  · exact (hdone.countExit fun hne => absurd rfl hne).gaveUp rfl
  · rename_i hfew
    exact (hgo.countExit fun _ => Nat.not_le.1 hfew).retry hpc

theorem Sound.announce {child : Nat} {pid : Pid} (h : Sound setup s)
    (hpc : s.pc = .announcing child pid) : Sound setup (s.announce setup child pid) := by
  have hne : s.pc ≠ .finished := by rw [hpc]; nofun
  have hcalling : s.pc ≠ .calling := by rw [hpc]; nofun
  have hcurrent : ∀ handle, s.current = some handle → handle.child = child := by
    intro handle hh
    have hchild := h.current handle hh
    rw [hpc] at hchild
    exact hchild.symm
  -- To the watch the child goes with its token as it is.
  have hwatch : ∀ {u : State} {readyAt : Instant}, Sound setup u → u.pc = s.pc →
      u.current = s.current → Sound setup (u.goto (.watching child readyAt true false)) := by
    intro u readyAt hu hupc hucurrent
    refine hu.move (by rw [hupc]; exact hne) nofun False.elim ?_ ?_
    · intro handle hh
      rw [hucurrent] at hh
      rw [hcurrent handle hh]
      rfl
    · rintro c ⟨hcancelled, ⟨pid, hs⟩ | ⟨⟨handle, hh, hc⟩, -⟩⟩
      · rw [hupc, hpc] at hs
        cases hs
      · have hsame : c = child := by
          rw [← hc, hcurrent handle (hucurrent ▸ hh)]
        exact ⟨hcancelled, .inr ⟨⟨handle, hh, hc⟩, .inr ⟨readyAt, true, by rw [hsame]; rfl⟩⟩⟩
  unfold State.announce
  dsimp only
  split
  · rename_i hcancelled
    exact hwatch (h.record (neutral_of_plain .cancelObserved _ trivial)
      fun _ => .inr ⟨hcancelled, hcalling⟩) rfl rfl
  · rename_i hcancelled
    have hstarted : ∀ u : State, Sound setup u → u.log = s.log →
        Sound setup (u.emit (.started pid)) := by
      intro u hu hlog
      refine { hu with
        lawful := ⟨?_, hu.lawful⟩
        final := hu.final_cons False.elim
        inFlight := hu.inFlight_cons nofun }
      intro c hc
      rw [hlog] at hc
      exact hcancelled (h.inFlight c hc)
    split
    · exact hwatch (hstarted _ (h.aside ⟨rfl, rfl, rfl, rfl, rfl, Nat.le_refl _, id⟩) rfl) rfl rfl
    · exact hwatch (hstarted _ h rfl) rfl rfl

theorem Sound.check {child : Nat} {readyAt : Instant} {cancelled : Bool} {message : Option Pid}
    (h : Sound setup s) (hpc : s.pc = .checking child readyAt cancelled message) :
    Sound setup (s.check child readyAt cancelled message) := by
  have hwatch : ∀ pending, Sound setup (s.goto (.watching child readyAt pending cancelled)) := by
    intro pending
    refine h.move (by rw [hpc]; nofun) nofun False.elim ?_ ?_
    · intro handle hh
      have hchild := h.current handle hh
      rw [hpc] at hchild
      exact hchild
    · rintro c ⟨-, ⟨pid, hs⟩ | ⟨-, ⟨pid, hs⟩ | ⟨_, _, hs⟩⟩⟩ <;> (rw [hpc] at hs; cases hs)
  unfold State.check
  split
  · exact (hwatch false).ready
  · exact hwatch _

/-- An arm other than the token's is only taken with no stop owed. -/
theorem not_underway_watching {child readyAt : Nat} {pending cancelled : Bool}
    (hpc : s.pc = .watching child readyAt pending cancelled)
    (harm : ¬ (s.cancelled = true ∧ cancelled = false)) (c : Nat) : ¬ Underway s c := by
  rintro ⟨hcancelled, ⟨pid, hs⟩ | ⟨-, ⟨pid, hs⟩ | ⟨_, _, hs⟩⟩⟩
  · rw [hpc] at hs; cases hs
  · rw [hpc] at hs; cases hs
  · rw [hpc] at hs
    cases hs
    exact harm ⟨hcancelled, rfl⟩

theorem Sound.select {child : Nat} {readyAt : Instant} {pending cancelled : Bool} {choice : Choice}
    (h : Sound setup s) (hpc : s.pc = .watching child readyAt pending cancelled)
    (hs : s.select setup child readyAt pending cancelled choice = some t) : Sound setup t := by
  have hne : s.pc ≠ .finished := by rw [hpc]; nofun
  obtain ⟨hcancelled, -, rfl⟩ | ⟨harm, queue, pc, hpc', rfl⟩ := State.select_cases hpc hs
  · obtain ⟨hstop, hnone⟩ := (h.record (neutral_of_plain .cancelObserved _ trivial)
      fun _ => .inr ⟨hcancelled, by rw [hpc]; nofun⟩).stopCurrent
    have hstay : (s.record .cancelObserved).stopCurrent.pc = s.pc := State.stopCurrent_pc _
    refine hstop.move (by rw [hstay]; exact hne) nofun False.elim ?_ ?_
    · intro handle hh
      rw [hnone] at hh
      cases hh
    · exact fun c hu => absurd hu (not_underway hnone (by rw [hstay, hpc]; nofun))
  · have hqueue : Sound setup { s with readyQueue := queue } :=
      h.aside ⟨rfl, rfl, rfl, rfl, rfl, Nat.le_refl _, id⟩
    refine hqueue.move hne (by cases hpc' <;> nofun) (by cases hpc' <;> exact False.elim) ?_ ?_
    · intro handle hh
      have hholds := h.current handle hh
      rw [hpc] at hholds
      cases hpc' with
      | ending payload => trivial
      | watching | checking => exact hholds
    · intro c hu
      exact absurd hu (not_underway_watching (s := { s with readyQueue := queue }) hpc harm c)

/-- Once the child has terminated its handle is let go. -/
theorem Sound.release {payload : TerminatedPayload} {cancelled : Bool} (h : Sound setup s)
    (hpc : s.pc = .ending payload cancelled) :
    Sound setup ({ s with current := none }.goto (.exited payload cancelled)) := by
  have howed : ∀ child, ¬ Underway s child := by
    rintro c ⟨-, ⟨pid, hs⟩ | ⟨-, ⟨pid, hs⟩ | ⟨_, _, hs⟩⟩⟩ <;> (rw [hpc] at hs; cases hs)
  have hgone : Sound setup { s with current := none } :=
    { h with
      current := by intro _ hh; cases hh
      owing := by
        rcases h.owing with hnone | ⟨child, -, hu⟩
        · exact .inl hnone
        · exact absurd hu (howed child) }
  refine hgone.move (by rw [hpc]; nofun) nofun False.elim (by intro _ hh; cases hh) ?_
  intro child hu
  exact absurd hu (not_underway rfl (by rw [hpc]; nofun))

theorem Sound.next (h : Sound setup s) (hpc : Pc.Next s.cancelled s.pc pc) :
    Sound setup (s.goto pc) := by
  have halone : s.pc.Alone ∧ s.pc.Respawning ∧ (pc = .calling → s.cancelled = false) := by
    generalize s.pc = here at hpc
    cases hpc with
    | call hc => exact ⟨trivial, trivial, fun _ => hc⟩
    | wake _ | prepare | prepared | fail => exact ⟨trivial, trivial, nofun⟩
  exact h.move_alone halone.1 halone.2.2 fun _ => h.respawning halone.2.1

theorem Sound.spawnCalled (h : Sound setup s) (hpc : s.pc = .calling) :
    Sound setup ((s.record .spawnCalled).goto .spawning) := by
  have halone : s.pc.Alone := by rw [hpc]; trivial
  have hpolicy : setup.policy ≠ .never := h.respawning (by rw [hpc]; trivial)
  have hallowed : Allowed setup s.log .spawnCalled := by
    refine ⟨fun entry hentry hf => ?_, ?_⟩
    · rcases h.final entry hentry hf with hfinished | ⟨-, hcalling⟩
      · exact halone.ne_finished hfinished
      · exact hcalling hpc
    · have hfew := h.failures halone.ne_finished
      rw [h.window, List.length_reverse] at hfew
      exact ⟨hfew, hpolicy⟩
  have hcalled : Sound setup (s.record .spawnCalled) :=
    h.record ⟨hallowed, rfl, rfl, rfl, nofun⟩ False.elim
  exact hcalled.move_alone halone nofun fun _ => hpolicy

/-- The child of a spawn in flight when the token was cancelled is owed a stop. -/
theorem Sound.spawnReturned {pid : Pid} (h : Sound setup s) (hpc : s.pc = .spawning) :
    Sound setup (({ s with next := s.next + 1 }.record (.spawnReturned s.next s.cancelled)).goto
      (.storing s.next pid)) := by
  have halone : s.pc.Alone := by rw [hpc]; trivial
  have hmoved : Sound setup (s.goto (.storing s.next pid)) :=
    h.move_alone halone nofun fun _ => h.respawning (by rw [hpc]; trivial)
  have hnone : owed s.log = [] := by
    rcases h.owing with hnone | ⟨child, -, hu⟩
    · exact hnone
    · exact absurd hu (halone.not_underway child)
  cases hc : s.cancelled with
  | false =>
    have hneutral : Neutral setup s.log (.spawnReturned s.next false) :=
      ⟨trivial, rfl, rfl, rfl, by simp⟩
    exact (hmoved.record hneutral False.elim).aside
      ⟨rfl, rfl, rfl, rfl, rfl, Nat.le_refl _, fun he => hc.symm.trans he⟩
  | true =>
    exact {
      lawful := ⟨trivial, h.lawful⟩
      attempts := hmoved.attempts
      window := h.window
      falling := h.falling
      past := h.past
      failures := hmoved.failures
      final := fun _ _ _ => .inr ⟨rfl, nofun⟩
      respawning := hmoved.respawning
      inFlight := fun _ _ => rfl
      current := hmoved.current
      owing := by
        refine .inr ⟨s.next, ?_, rfl, .inl ⟨pid, rfl⟩⟩
        show s.next :: owed s.log = [s.next]
        rw [hnone] }

theorem Sound.store {child : Nat} {pid : Pid} (h : Sound setup s)
    (hpc : s.pc = .storing child pid) :
    Sound setup ({ s with current := some ⟨child, pid⟩ }.goto (.announcing child pid)) where
  lawful := h.lawful
  attempts := fun _ => h.attempts (by rw [hpc]; nofun)
  window := h.window
  falling := h.falling
  past := h.past
  failures := fun _ => h.failures (by rw [hpc]; nofun)
  final := by
    intro e he hf
    rcases h.final e he hf with hfinished | ⟨hc, -⟩
    · rw [hpc] at hfinished
      cases hfinished
    · exact .inr ⟨hc, nofun⟩
  respawning := fun _ => h.respawning (by rw [hpc]; trivial)
  inFlight := h.inFlight
  current := by
    intro handle hh
    cases hh
    rfl
  owing := by
    refine h.owing.imp_right fun ⟨c, ho, hc, hu⟩ => ⟨c, ho, hc, .inr ⟨?_, .inl ⟨pid, ?_⟩⟩⟩
    all_goals
      rcases hu with ⟨pid', hs⟩ | ⟨-, ⟨pid', hs⟩ | ⟨_, _, hs⟩⟩
      · rw [hpc] at hs
        cases hs
        first | exact ⟨_, rfl, rfl⟩ | rfl
      · rw [hpc] at hs; cases hs
      · rw [hpc] at hs; cases hs

/-- A step of the loop. -/
theorem Sound.advance (h : Sound setup s) (hs : Advances setup s t) : Sound setup t := by
  cases hs with
  | select hpc hs => exact h.select hpc hs
  | check hpc => exact h.check hpc
  | release hpc => exact h.release hpc
  | settle hpc => exact h.settle (by rw [hpc]; trivial)
  | stopped hpc => exact h.stopped hpc
  | retry hpc => exact h.retry (by rw [hpc]; trivial)
  | next hpc => exact h.next hpc
  | unpreparedStopped hpc =>
    exact ((h.finish (by rw [hpc]; trivial)).record (neutral_of_plain .preparationFailed _ trivial)
      fun _ => .inl rfl).recordStopped rfl
  | unprepared hpc =>
    exact ((h.finish (by rw [hpc]; trivial)).record (neutral_of_plain .preparationFailed _ trivial)
      fun _ => .inl rfl).record (neutral_of_plain (.emitted .preparationFailed) _ trivial)
      False.elim
  | call hpc => exact h.spawnCalled hpc
  | returned hpc => exact h.spawnReturned hpc
  | store hpc => exact h.store hpc
  | announce hpc => exact h.announce hpc

/-- A step of anybody. -/
theorem Sound.step {label : Label} (h : Sound setup s) (hs : s.step setup label = some t) :
    Sound setup t := by
  obtain ⟨-, hloop⟩ | ⟨-, haside | hstop⟩ := State.step_cases hs
  · exact h.advance hloop
  · exact h.aside haside
  · exact h.stopCurrent.1.aside hstop

end Steps

end Chimera.Supervision
