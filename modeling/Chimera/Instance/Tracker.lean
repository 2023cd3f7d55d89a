import Chimera.Lib.Utf8
import Chimera.Instance.Health

/-! The tracker against the history of its observations, the newest one first. It
panics where the end of a grace period that still counts is no instant. -/

namespace Chimera.Instance
open Chimera.Model Chimera.Lib

/-- The observations so far, the newest one first. -/
abbrev History := List (Instant × ProbeResult)

/-- The tracker once it has observed a history, if it has not panicked. -/
def HealthTracker.after (last : Instant) (policy : HealthPolicy) (startedAt : Instant) :
    History → Option HealthTracker
  | [] => some (.new policy startedAt)
  | (now, result) :: past => (HealthTracker.after last policy startedAt past).bind fun tracker =>
    (tracker.observe last now result).map Prod.snd

/-- The range of the thresholds. -/
def NonZeroU32 (n : Nat) : Prop := 0 < n ∧ n < 2 ^ 32

/-! ## What a history says -/

section Specification

variable (policy : HealthPolicy) (startedAt : Instant)

def succeeded (history : History) : Bool := history.any fun (_, result) => result.isHealthy

/-- A failure counts, unless it comes before every success and in the grace period. -/
def Counted (past : History) (now : Instant) : Prop :=
  succeeded past = true ∨ startedAt + policy.startPeriod ≤ now

instance {past : History} {now : Instant} : Decidable (Counted policy startedAt past now) :=
  inferInstanceAs (Decidable (_ ∨ _))

/-- Where the end of the grace period is computed, at a failure before every success, it
is an instant. -/
def GraceEnds (last : Instant) : History → Prop
  | [] => True
  | (_, result) :: past => (result = .healthy ∨ succeeded past = true ∨
      startedAt + policy.startPeriod ≤ last) ∧ GraceEnds last past

/-- The counted failures since the last success. -/
def countedFailures : History → Nat
  | [] => 0
  | (_, .healthy) :: _ => 0
  | (now, .unhealthy _) :: past =>
    if Counted policy startedAt past now then countedFailures past + 1 else countedFailures past

/-- The successes since the last failure, whether it was counted or not. -/
def successStreak : History → Nat
  | (_, .healthy) :: past => successStreak past + 1
  | _ => 0

/-- One more observation completes the successes that are needed. -/
def CompletesSuccesses (past : History) (now : Instant) (result : ProbeResult) : Prop :=
  result = .healthy ∧ successStreak ((now, result) :: past) = policy.successThreshold

/-- One more observation is a failure that counts and the last one that was needed. -/
def CompletesFailures (past : History) (now : Instant) (result : ProbeResult) : Prop :=
  result ≠ .healthy ∧ Counted policy startedAt past now ∧
    countedFailures policy startedAt ((now, result) :: past) = policy.failureThreshold

instance {past : History} {now : Instant} {result : ProbeResult} :
    Decidable (CompletesSuccesses policy past now result) := inferInstanceAs (Decidable (_ ∧ _))

instance {past : History} {now : Instant} {result : ProbeResult} :
    Decidable (CompletesFailures policy startedAt past now result) :=
  inferInstanceAs (Decidable (_ ∧ _))

/-- The state that a history leads to. -/
def stateAfter : History → TrackerState
  | [] => .starting
  | (now, result) :: past =>
    if stateAfter past ≠ .healthy ∧ CompletesSuccesses policy past now result then .healthy
    else if stateAfter past ≠ .unhealthy ∧ CompletesFailures policy startedAt past now result then
      .unhealthy
    else stateAfter past

/-- The longest leading part of a text within a number of bytes. -/
def LongestWithin (limit : Nat) (text kept : Utf8.Text) : Prop :=
  kept <+: text ∧ Utf8.size kept ≤ limit ∧
    ∀ other, other <+: text → Utf8.size other ≤ limit → other <+: kept

/-- What is kept of the newest observation's detail. -/
def KeepsDetail : ProbeResult → Option String → Prop
  | .unhealthy (some detail), lastError =>
    ∃ kept, lastError = some kept ∧ LongestWithin maxLastErrorBytes detail.toList kept.toList
  | _, lastError => lastError = none

end Specification

/-! ## The detail -/

section Details

variable {text kept : Utf8.Text} {detail : String} {n : Nat}

/-- The loop of `cap_detail`. -/
def lastBoundary (text : Utf8.Text) : Nat → Nat
  | 0 => 0
  | n + 1 => if Utf8.isBoundary text (n + 1) then n + 1 else lastBoundary text n

theorem fitting_eq (n : Nat) (text : Utf8.Text) : fitting n text = Utf8.fitting text n := by
  induction text generalizing n with
  | nil => rfl
  | cons c text ih => rw [fitting, Utf8.fitting, ih]

theorem size_toList (detail : String) : Utf8.size detail.toList = detail.utf8ByteSize := by
  rw [← Utf8.length_encode, ← String.size_toByteArray, ← String.utf8Encode_toList]
  exact List.size_toByteArray.symm

theorem longest_fitting : LongestWithin n text (Utf8.fitting text n) :=
  ⟨Utf8.fitting_start text n, Utf8.size_fitting_le text n, fun _ => Utf8.prefix_fitting⟩

theorem longest_capDetail :
    LongestWithin maxLastErrorBytes detail.toList (capDetail detail).toList := by
  unfold capDetail
  split
  · rename_i hle
    rw [← size_toList] at hle
    exact ⟨List.prefix_rfl, hle, fun other hother _ => hother⟩
  · rw [String.toList_ofList, fitting_eq]
    exact longest_fitting

/-- The loop stops at the end of the longest part that fits. -/
theorem lastBoundary_eq (text : Utf8.Text) (n : Nat) :
    lastBoundary text n = Utf8.size (Utf8.fitting text n) := by
  induction n with
  | zero => exact (Nat.le_zero.1 (Utf8.size_fitting_le text 0)).symm
  | succ n ih =>
    obtain ⟨hstart, hsize, hlongest⟩ := @longest_fitting text (n + 1)
    unfold lastBoundary
    split
    · rename_i hboundary
      obtain ⟨⟨front, rest⟩, hsplit⟩ := Option.isSome_iff_exists.1 hboundary
      obtain ⟨rfl, hfront⟩ := Utf8.split_eq_some.1 hsplit
      have hle := Utf8.size_le_of_prefix
        (hlongest front (List.prefix_append front rest) (Nat.le_of_eq hfront.symm))
      omega
    · rename_i hnone
      have hne : Utf8.size (Utf8.fitting text (n + 1)) ≠ n + 1 := by
        intro heq
        have hboundary := Utf8.isBoundary_of_start hstart
        rw [heq] at hboundary
        exact hnone hboundary
      have hle := Utf8.size_le_of_prefix (Utf8.prefix_fitting (n := n) hstart (by omega))
      have hge := Utf8.size_le_of_prefix
        (hlongest _ (Utf8.fitting_start text n)
          (Nat.le_succ_of_le (Utf8.size_fitting_le text n)))
      omega

/-- `cap_detail` as the source has it, by the loop. -/
theorem capDetail_loop (h : maxLastErrorBytes < detail.utf8ByteSize) :
    Utf8.getTo detail.toList (lastBoundary detail.toList maxLastErrorBytes) =
      some (capDetail detail).toList := by
  obtain ⟨rest, hrest⟩ := Utf8.fitting_start detail.toList maxLastErrorBytes
  rw [capDetail, if_neg (Nat.not_le.2 h), String.toList_ofList, fitting_eq, lastBoundary_eq]
  exact Utf8.getTo_eq_some.2 ⟨rest, hrest.symm, rfl⟩

end Details

/-! ## One observation -/

section Tracking

variable {policy : HealthPolicy} {startedAt now last : Instant} {past : History}
  {tracker : HealthTracker} {result : ProbeResult}

/-- What the tracker's fields are, after a history. -/
structure Tracks (policy : HealthPolicy) (startedAt : Instant) (history : History)
    (tracker : HealthTracker) : Prop where
  policy_eq : tracker.policy = policy
  started : tracker.startedAt = startedAt
  grace : tracker.graceEnded = succeeded history
  state : tracker.state = stateAfter policy startedAt history
  failures : tracker.consecutiveFailures =
    min (countedFailures policy startedAt history) (2 ^ 32 - 1)
  fewFailures : tracker.state ≠ .unhealthy →
    countedFailures policy startedAt history < policy.failureThreshold
  successes : tracker.consecutiveSuccesses =
    if tracker.state = .healthy then 0 else successStreak history
  fewSuccesses : tracker.state ≠ .healthy → successStreak history < policy.successThreshold

theorem Tracks.init (hf : 0 < policy.failureThreshold) (hs : 0 < policy.successThreshold) :
    Tracks policy startedAt [] (.new policy startedAt) :=
  ⟨rfl, rfl, rfl, rfl, rfl, fun _ => hf, rfl, fun _ => hs⟩

theorem stateAfter_healthy : stateAfter policy startedAt ((now, .healthy) :: past) =
    if stateAfter policy startedAt past ≠ .healthy ∧
      successStreak past + 1 = policy.successThreshold then .healthy
    else stateAfter policy startedAt past := by
  simp [stateAfter, CompletesSuccesses, CompletesFailures, successStreak]

theorem stateAfter_unhealthy {detail : Option String} :
    stateAfter policy startedAt ((now, .unhealthy detail) :: past) =
      if stateAfter policy startedAt past ≠ .unhealthy ∧ Counted policy startedAt past now ∧
        countedFailures policy startedAt past + 1 = policy.failureThreshold then .unhealthy
      else stateAfter policy startedAt past := by
  by_cases hcounted : Counted policy startedAt past now
  · simp [stateAfter, CompletesSuccesses, CompletesFailures, countedFailures, hcounted]
  · simp [stateAfter, CompletesSuccesses, CompletesFailures, hcounted]

/-- A success: the streak is short as long as the tracker is not healthy, so the
saturation is out of reach. -/
theorem Tracks.succeed (h : Tracks policy startedAt past tracker)
    (hf : 0 < policy.failureThreshold) (hs : policy.successThreshold < 2 ^ 32) :
    Tracks policy startedAt ((now, .healthy) :: past) tracker.succeed := by
  obtain ⟨rfl, rfl, -, hstate, -, -, hsuccesses, hshort⟩ := h
  have hgrace : succeeded ((now, .healthy) :: past) = true := rfl
  by_cases hhealthy : tracker.state = .healthy
  · have hafter := @stateAfter_healthy tracker.policy tracker.startedAt now past
    rw [← hstate, if_neg fun hnot => hnot.1 hhealthy] at hafter
    rw [HealthTracker.succeed, if_pos hhealthy]
    refine ⟨rfl, rfl, hgrace.symm, hafter.symm, rfl, fun _ => hf, ?_, ?_⟩
    · exact (if_pos hhealthy).symm
    · exact fun hnot => absurd hhealthy hnot
  · have hlt := hshort hhealthy
    have hsucc : saturatingSucc tracker.consecutiveSuccesses = successStreak past + 1 := by
      rw [hsuccesses, if_neg hhealthy, saturatingSucc]
      omega
    have hafter := @stateAfter_healthy tracker.policy tracker.startedAt now past
    rw [← hstate] at hafter
    rw [HealthTracker.succeed, if_neg hhealthy]
    simp only [hsucc]
    split
    · rename_i hreached
      have hexact : successStreak past + 1 = tracker.policy.successThreshold := by omega
      rw [if_pos ⟨hhealthy, hexact⟩] at hafter
      refine ⟨rfl, rfl, hgrace.symm, hafter.symm, rfl, fun _ => hf, rfl, ?_⟩
      exact fun hnot => absurd rfl hnot
    · rename_i hbelow
      rw [if_neg fun hboth => hbelow hboth.2.ge] at hafter
      refine ⟨rfl, rfl, hgrace.symm, hafter.symm, rfl, fun _ => hf, ?_, ?_⟩
      · exact (if_neg hhealthy).symm
      · exact fun _ => Nat.lt_of_not_le hbelow

/-- The grace period goes on where a failure is not counted. -/
theorem Tracks.graceActive (h : Tracks policy startedAt past tracker)
    (hends : succeeded past = true ∨ startedAt + policy.startPeriod ≤ last) :
    tracker.graceActive last now = some (decide (¬ Counted policy startedAt past now)) := by
  obtain ⟨rfl, rfl, hgrace, -⟩ := h
  unfold HealthTracker.graceActive Counted
  rw [hgrace]
  split
  · rename_i hsucceeded
    simp [hsucceeded]
  · rename_i hsucceeded
    have hend := hends.resolve_left hsucceeded
    simp [addDuration, hend, hsucceeded]

/-- A failure: the count is below the threshold as long as the tracker is not
unhealthy, and one more counted failure brings it there or not. -/
theorem Tracks.fail {detail : Option String} (h : Tracks policy startedAt past tracker)
    (hf : policy.failureThreshold < 2 ^ 32) (hs : 0 < policy.successThreshold) :
    Tracks policy startedAt ((now, .unhealthy detail) :: past)
      (tracker.fail (decide (¬ Counted policy startedAt past now)) detail) := by
  obtain ⟨rfl, rfl, hgrace, hstate, hfailures, hfew, hsuccesses, -⟩ := h
  have hkept : tracker.graceEnded = succeeded ((now, .unhealthy detail) :: past) := hgrace
  have hstreak (state : TrackerState) : (0 : Nat) = if state = .healthy then 0 else 0 :=
    (ite_self 0).symm
  have hafter := @stateAfter_unhealthy tracker.policy tracker.startedAt now past detail
  rw [← hstate] at hafter
  unfold HealthTracker.fail
  simp only [decide_eq_true_eq]
  split
  · rename_i huncounted
    have hcount : countedFailures tracker.policy tracker.startedAt
        ((now, .unhealthy detail) :: past) =
        countedFailures tracker.policy tracker.startedAt past := if_neg huncounted
    rw [if_neg fun hboth => huncounted hboth.2.1] at hafter
    refine ⟨rfl, rfl, hkept, hafter.symm, ?_, ?_, hstreak _, fun _ => hs⟩
    · rw [hcount]
      exact hfailures
    · rw [hcount]
      exact hfew
  · rename_i hcounted
    rw [not_not] at hcounted
    have hcount : countedFailures tracker.policy tracker.startedAt
        ((now, .unhealthy detail) :: past) =
        countedFailures tracker.policy tracker.startedAt past + 1 := if_pos hcounted
    have hsucc : saturatingSucc tracker.consecutiveFailures =
        min (countedFailures tracker.policy tracker.startedAt past + 1) (2 ^ 32 - 1) := by
      rw [hfailures, saturatingSucc]
      omega
    split
    · rename_i hreached
      have hexact : countedFailures tracker.policy tracker.startedAt past + 1 =
          tracker.policy.failureThreshold := by
        have hlt := hfew hreached.1
        have hle := hreached.2
        omega
      rw [if_pos ⟨hreached.1, hcounted, hexact⟩] at hafter
      refine ⟨rfl, rfl, hkept, hafter.symm, ?_, ?_, hstreak _, fun _ => hs⟩
      · rw [hcount]
        exact hsucc
      · exact fun hnot => absurd rfl hnot
    · rename_i hbelow
      have hrest (hnot : tracker.state ≠ .unhealthy) :
          countedFailures tracker.policy tracker.startedAt past + 1 <
            tracker.policy.failureThreshold := by
        have hlt : ¬ tracker.policy.failureThreshold ≤
            saturatingSucc tracker.consecutiveFailures := fun hle => hbelow ⟨hnot, hle⟩
        omega
      rw [if_neg fun hboth => absurd hboth.2.2 (hrest hboth.1).ne] at hafter
      refine ⟨rfl, rfl, hkept, hafter.symm, ?_, ?_, hstreak _, fun _ => hs⟩
      · rw [hcount]
        exact hsucc
      · rw [hcount]
        exact hrest

theorem Tracks.next (h : Tracks policy startedAt past tracker)
    (hf : NonZeroU32 policy.failureThreshold) (hs : NonZeroU32 policy.successThreshold)
    (hends : GraceEnds policy startedAt last ((now, result) :: past)) :
    ∃ after, tracker.next last now result = some after ∧
      Tracks policy startedAt ((now, result) :: past) after := by
  cases result with
  | healthy => exact ⟨_, rfl, h.succeed hf.1 hs.2⟩
  | unhealthy detail =>
    have hactive : tracker.graceActive last now =
        some (decide (¬ Counted policy startedAt past now)) :=
      h.graceActive (hends.1.resolve_left nofun)
    exact ⟨_, by rw [HealthTracker.next, hactive, Option.map_some], h.fail hf.2 hs.1⟩

theorem after_tracks (hf : NonZeroU32 policy.failureThreshold)
    (hs : NonZeroU32 policy.successThreshold) {history : History}
    (hends : GraceEnds policy startedAt last history) :
    ∃ tracker, HealthTracker.after last policy startedAt history = some tracker ∧
      Tracks policy startedAt history tracker := by
  induction history with
  | nil => exact ⟨_, rfl, .init hf.1 hs.1⟩
  | cons observation past ih =>
    obtain ⟨now, result⟩ := observation
    obtain ⟨tracker, htracker, htracks⟩ := ih hends.2
    obtain ⟨after, hafter, hnext⟩ := htracks.next hf hs hends
    refine ⟨after, ?_, hnext⟩
    rw [HealthTracker.after, htracker, Option.bind_some, HealthTracker.observe, hafter]
    rfl

theorem next_lastError {after : HealthTracker} (h : tracker.next last now result = some after) :
    KeepsDetail result after.lastError := by
  cases result with
  | healthy =>
    cases h
    show tracker.succeed.lastError = none
    unfold HealthTracker.succeed
    dsimp only
    split
    · rfl
    · split
      · rfl
      · rfl
  | unhealthy detail =>
    obtain ⟨graceActive, -, rfl⟩ := Option.map_eq_some_iff.1 h
    have hkept : (tracker.fail graceActive detail).lastError = detail.map capDetail := by
      unfold HealthTracker.fail
      dsimp only
      split
      · rfl
      · split
        · rfl
        · rfl
    rw [hkept]
    cases detail with
    | none => rfl
    | some detail => exact ⟨_, rfl, longest_capDetail⟩

theorem not_both (hsucc : CompletesSuccesses policy past now result)
    (hfail : CompletesFailures policy startedAt past now result) : False :=
  hfail.1 hsucc.1

end Tracking

/-- Whatever was observed, as long as the end of the grace period is an instant wherever it
counts, one more observation returns what the history says: it changes the state where it
completes the successes of a tracker that is not healthy or the failures of one that is not
unhealthy, and nowhere else. -/
theorem tracker_exact (last : Instant) (policy : HealthPolicy) (startedAt : Instant)
    (past : History) (now : Instant) (result : ProbeResult)
    (hf : NonZeroU32 policy.failureThreshold) (hs : NonZeroU32 policy.successThreshold)
    (hends : GraceEnds policy startedAt last ((now, result) :: past)) :
    ∃ before update after, HealthTracker.after last policy startedAt past = some before ∧
      before.observe last now result = some (update, after) ∧
      before.state = stateAfter policy startedAt past ∧
      update.state = stateAfter policy startedAt ((now, result) :: past) ∧
      (update.transitioned = true ∧ update.state = .healthy ↔
        before.state ≠ .healthy ∧ CompletesSuccesses policy past now result) ∧
      (update.transitioned = true ∧ update.state = .unhealthy ↔
        before.state ≠ .unhealthy ∧ CompletesFailures policy startedAt past now result) ∧
      (update.transitioned = true ↔
        before.state ≠ .healthy ∧ CompletesSuccesses policy past now result ∨
        before.state ≠ .unhealthy ∧ CompletesFailures policy startedAt past now result) ∧
      update.consecutiveFailures =
        min (countedFailures policy startedAt ((now, result) :: past)) (2 ^ 32 - 1) ∧
      KeepsDetail result update.lastError := by
  obtain ⟨before, hpast, hbefore⟩ := after_tracks hf hs hends.2
  obtain ⟨after, hnext, hafter⟩ := hbefore.next hf hs hends
  have hstate : after.state = stateAfter policy startedAt ((now, result) :: past) := hafter.state
  have hchange : decide (before.state ≠ after.state) = true ↔ after.state ≠ before.state := by
    rw [decide_eq_true_eq, ne_comm]
  have hstep : after.state =
      if before.state ≠ .healthy ∧ CompletesSuccesses policy past now result then .healthy
      else if before.state ≠ .unhealthy ∧ CompletesFailures policy startedAt past now result then
        .unhealthy
      else before.state := by
    rw [hstate, stateAfter, ← hbefore.state]
  refine ⟨before, ⟨after.state, _, after.consecutiveFailures, after.lastError⟩, after, hpast,
    by rw [HealthTracker.observe, hnext]; rfl, hbefore.state, hstate, ?_, ?_, ?_,
    hafter.failures, next_lastError hnext⟩
  · rw [hchange, hstep]
    split
    · rename_i hturn
      exact ⟨fun _ => hturn, fun _ => ⟨hturn.1.symm, rfl⟩⟩
    · rename_i hnot
      split
      · exact ⟨fun h => absurd h.2 (by simp), fun h => absurd h hnot⟩
      · exact ⟨fun h => absurd rfl h.1, fun h => absurd h hnot⟩
  · rw [hchange, hstep]
    split
    · rename_i hturn
      exact ⟨fun h => absurd h.2 (by simp), fun h => (not_both hturn.2 h.2).elim⟩
    · split
      · rename_i hturn
        exact ⟨fun _ => hturn, fun _ => ⟨hturn.1.symm, rfl⟩⟩
      · rename_i hnot
        exact ⟨fun h => absurd rfl h.1, fun h => absurd h hnot⟩
  · rw [hchange, hstep]
    split
    · rename_i hturn
      exact ⟨fun _ => .inl hturn, fun _ => hturn.1.symm⟩
    · rename_i hnot
      split
      · rename_i hturn
        exact ⟨fun _ => .inr hturn, fun _ => hturn.1.symm⟩
      · rename_i hneither
        exact ⟨fun h => absurd rfl h, fun h => h.elim (absurd · hnot) (absurd · hneither)⟩

/-- Two failures in the grace period do not count; the third one, after a success, does. -/
theorem tracker_exact_grace :
    let policy : HealthPolicy := ⟨10, 20, 1, 2, 30⟩
    let past : History := [(25, .healthy), (20, .unhealthy none), (10, .unhealthy (some "x"))]
    stateAfter policy 0 past = .starting ∧ ∃ before update after,
      HealthTracker.after 100 policy 0 past = some before ∧
      before.observe 100 28 (.unhealthy none) = some (update, after) ∧
      update.state = .unhealthy := by
  refine ⟨by decide, ?_⟩
  obtain ⟨before, update, after, hpast, hobserve, -, hstate, -⟩ :=
    tracker_exact 100 ⟨10, 20, 1, 2, 30⟩ 0 [(25, .healthy), (20, .unhealthy none),
      (10, .unhealthy (some "x"))] 28 (.unhealthy none) ⟨by decide, by decide⟩
      ⟨by decide, by decide⟩ (by simp [GraceEnds, succeeded, ProbeResult.isHealthy])
  refine ⟨before, update, after, hpast, hobserve, hstate.trans ?_⟩
  decide

/-- The longest grace period that a policy can have, `Duration::MAX`. -/
def endlessGrace : HealthPolicy := ⟨250 * 10 ^ 6, 10 ^ 9, 3, 1, (2 ^ 64 - 1) * 10 ^ 9 + 999999999⟩

/-- The first failure in it has no update to return. -/
theorem endlessGrace_panics :
    NonZeroU32 endlessGrace.failureThreshold ∧ NonZeroU32 endlessGrace.successThreshold ∧
    ∃ before, HealthTracker.after lastUnixInstant endlessGrace 0 [] = some before ∧
      ¬ ∃ update after, before.observe lastUnixInstant 10 (.unhealthy none) =
        some (update, after) := by
  refine ⟨⟨by decide, by decide⟩, ⟨by decide, by decide⟩, _, rfl, ?_⟩
  rintro ⟨update, after, h⟩
  rw [show HealthTracker.observe _ _ _ _ = none by decide] at h
  cases h

end Chimera.Instance
