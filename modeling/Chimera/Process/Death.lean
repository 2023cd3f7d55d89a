import Chimera.Lib.Trace
import Chimera.Process.Reap

/-! When an orphan is reported dead. Its pid is observed until an observation
decides; before the kill only proof of death does, after it an uncertain identity
does as well, and this is the one way in which a live process can be reported
dead. -/

namespace Chimera.Process
open Chimera.Lib.Program Prog

/-! ## What an observation says of the recorded process -/

inductive Finding where
  | dead | alive | doubtful | provisional | failed
  deriving DecidableEq, Repr

def finding (target : Target) (record : EpochPidRecord) : Observation → Finding
  | .ok none => .dead
  | .ok (some identity) =>
    match compareIdentity target record identity with
    | .same => .alive
    | .reused => .dead
    | .uncertain => .doubtful
  | .error error => if identityQueryIsProvisional target error then .provisional else .failed

def Op.finding (target : Target) (record : EpochPidRecord) :
    {β : Type} → Op β → β → Option Finding
  | _, .processIdentity pid, answer =>
    if pid = record.pid then some (Process.finding target record answer) else none
  | _, _, _ => none

/-- What the event says, if it is an observation of the recorded pid. -/
def found (target : Target) (record : EpochPidRecord) (e : Event Op) : Option Finding :=
  e.op.finding target record e.answer

/-- The run as far as the attempt to kill the root, with what this returned; none
is made where the root is found dead before. -/
def throughKill (target : Target) (record : EpochPidRecord) :
    Reap (List (UInt32 × Attributable) × Option (Except IoError Unit)) := do
  if ← confirmOwner target record false then
    let descendants ← captureDescendants record.pid
    if ← confirmOwner target record false then
      let killed ← (killRecordedProcess target record).attempt
      pure (descendants, some killed)
    else pure (descendants, none)
  else pure ([], none)

/-- Death is reported on proof: an observation proved it, and the one at which
the root is taken for dead is not an uncertain one. -/
structure OnProof (target : Target) (record : EpochPidRecord) (trace : List (Event Op))
    (result : Except IoError OrphanReapOutcome) : Prop where
  proven : ∀ outcome, result = .ok outcome → ∃ e ∈ trace, found target record e = some .dead
  certain : ∀ u e v outcome, trace = u ++ e :: v →
    (reapRoot target record).Runs (u ++ [e]) (.ok outcome) →
      found target record e ≠ some .doubtful

/-- Once the kill was attempted, no observation is uncertain before one that
proves death. -/
def CertainAfterKill (target : Target) (record : EpochPidRecord) (trace : List (Event Op)) : Prop :=
  ∀ u v e w descendants killed, trace = u ++ (v ++ e :: w) →
    (throughKill target record).Runs u (.ok (descendants, some killed)) →
    (∀ d ∈ v, found target record d ≠ some .dead) → found target record e ≠ some .doubtful

section Root

variable {target : Target} {record : EpochPidRecord} {t u : List (Event Op)}

theorem found_observation (answer : Observation) :
    found target record ⟨.processIdentity record.pid, answer⟩ = some (finding target record answer) :=
  if_pos rfl

/-- What the query returns is what it saw last. -/
theorem identityForReap_runs {attempts : Nat} {error : Option IoError}
    {identity : Option ProcessIdentity}
    (h : (identityForReap target record.pid attempts error).Runs t (.ok identity)) :
    ∃ u, t = u ++ [⟨.processIdentity record.pid, .ok identity⟩] := by
  induction attempts generalizing error t with
  | zero =>
    obtain ⟨-, h⟩ := h
    cases h
  | succ attempts ih =>
    replace h := runs_perform_bind.1 h
    obtain ⟨answer, u, rfl, h⟩ := h
    cases answer with
    | ok identity' =>
      obtain ⟨rfl, h⟩ := h
      cases h
      exact ⟨[], rfl⟩
    | error error =>
      by_cases hp : identityQueryIsProvisional target error = true
      · simp only [hp, if_true] at h
        obtain ⟨u, rfl⟩ := ih h
        exact ⟨_ :: u, rfl⟩
      · simp only [hp] at h
        obtain ⟨-, h⟩ := h
        cases h

/-- Before the kill the root is dead only where an observation proves it. -/
theorem confirmOwner_runs (h : (confirmOwner target record false).Runs t (.ok false)) :
    ∃ u e, t = u ++ [e] ∧ found target record e = some .dead := by
  obtain ⟨q, u, v, rfl, hq, hv⟩ := runs_attempt_bind.1 h
  rcases q with error | identity
  · obtain ⟨-, hv⟩ := hv
    cases hv
  obtain ⟨u, rfl⟩ := identityForReap_runs hq
  cases identity with
  | none =>
    obtain ⟨rfl, -⟩ := hv
    exact ⟨u, _, List.append_nil _, found_observation _⟩
  | some identity =>
    have hfound := @found_observation target record (.ok (some identity))
    simp only [finding] at hfound
    simp only at hv
    split at hv
    · obtain ⟨-, hv⟩ := hv
      cases hv
    · rename_i hreused
      obtain ⟨rfl, -⟩ := hv
      rw [hreused] at hfound
      exact ⟨u, _, List.append_nil _, hfound⟩
    · obtain ⟨-, hv⟩ := hv
      cases hv

/-- While the wait goes on, nothing was decided. -/
def Waiting (target : Target) (record : EpochPidRecord) (e : Event Op) : Prop :=
  found target record e = some .alive ∨ found target record e = some .provisional

/-- The wait ends with this result at this observation. -/
def Decides (target : Target) (record : EpochPidRecord) (e : Event Op)
    (result : Except IoError OrphanReapOutcome) : Prop :=
  (result = .ok .killed ∧
    (found target record e = some .dead ∨ found target record e = some .doubtful)) ∨
  ((∃ error, result = .error error) ∧ found target record e = some .failed)

/-- The wait ends at the first observation that decides, or gives up. -/
theorem awaitDeath_runs {killError error : Option IoError} {attempts : Nat}
    {result : Except IoError OrphanReapOutcome}
    (h : (awaitDeath target record false killError attempts error).Runs t result) :
    (∃ v e, t = v ++ [e] ∧ (∀ d ∈ v, Waiting target record d) ∧ Decides target record e result) ∨
    ((∀ d ∈ t, Waiting target record d) ∧ ∃ error, result = .error error) := by
  induction attempts generalizing error t with
  | zero =>
    refine .inr ?_
    unfold awaitDeath at h
    split at h
    all_goals
      obtain ⟨rfl, rfl⟩ := h
      exact ⟨by simp, _, rfl⟩
  | succ attempts ih =>
    replace h := runs_perform_bind.1 h
    obtain ⟨answer, u, rfl, h⟩ := h
    have hfound := @found_observation target record answer
    -- An observation that decides nothing is followed by the rest of the wait.
    have further {error : Option IoError}
        (hw : Waiting target record ⟨.processIdentity record.pid, answer⟩)
        (h : (awaitDeath target record false killError attempts error).Runs u result) :
        (∃ v e, ⟨.processIdentity record.pid, answer⟩ :: u = v ++ [e] ∧
          (∀ d ∈ v, Waiting target record d) ∧ Decides target record e result) ∨
        ((∀ d ∈ ⟨.processIdentity record.pid, answer⟩ :: u, Waiting target record d) ∧
          ∃ error, result = .error error) := by
      rcases ih h with ⟨v, e, rfl, hv, he⟩ | ⟨hv, he⟩
      · exact .inl ⟨_ :: v, e, rfl, List.forall_mem_cons.2 ⟨hw, hv⟩, he⟩
      · exact .inr ⟨List.forall_mem_cons.2 ⟨hw, hv⟩, he⟩
    have ends (hu : u = [])
        (he : Decides target record ⟨.processIdentity record.pid, answer⟩ result) :
        ∃ v e, ⟨.processIdentity record.pid, answer⟩ :: u = v ++ [e] ∧
          (∀ d ∈ v, Waiting target record d) ∧ Decides target record e result := by
      rw [hu]
      exact ⟨[], _, rfl, by simp, he⟩
    simp only [finding] at hfound
    rcases answer with error | _ | identity
    · simp only at h hfound
      by_cases hp : identityQueryIsProvisional target error = true
      · rw [if_pos hp] at h hfound
        exact further (.inr hfound) h
      · rw [if_neg hp] at h hfound
        obtain ⟨hu, rfl⟩ := h
        exact .inl (ends hu (.inr ⟨⟨_, rfl⟩, hfound⟩))
    · obtain ⟨hu, rfl⟩ := h
      exact .inl (ends hu (.inl ⟨rfl, .inl hfound⟩))
    · simp only [recordMatchesIdentity] at h hfound
      cases hc : compareIdentity target record identity with
      | same =>
        simp only [hc] at h hfound
        exact further (.inl hfound) h
      | reused =>
        simp only [hc] at h hfound
        obtain ⟨hu, rfl⟩ := h
        exact .inl (ends hu (.inl ⟨rfl, .inl hfound⟩))
      | uncertain =>
        simp only [hc] at h hfound
        obtain ⟨hu, rfl⟩ := h
        exact .inl (ends hu (.inl ⟨rfl, .inr hfound⟩))

/-! ## The root -/

theorem reapRoot_eq : reapRoot target record = throughKill target record >>= fun x =>
    match x.2 with
    | none => pure (.alreadyExited, x.1)
    | some killed => awaitDeath target record false (errorOf killed) killWaitAttempts none >>=
        fun outcome => pure (outcome, x.1) := by
  unfold reapRoot throughKill reapRecordWithKill
  rw [Prog.bind_assoc]
  refine congrArg _ (funext fun owned => ?_)
  cases owned with
  | false => rfl
  | true =>
    simp only [if_true]
    rw [Prog.bind_assoc]
    refine congrArg _ (funext fun descendants => ?_)
    rw [Prog.bind_assoc, Prog.bind_assoc]
    refine congrArg _ (funext fun owned => ?_)
    cases owned with
    | false => rfl
    | true =>
      simp only [if_true]
      rw [Prog.bind_assoc, Prog.bind_assoc]
      rfl

theorem throughKill_dead {descendants : List (UInt32 × Attributable)}
    (h : (throughKill target record).Runs t (.ok (descendants, none))) :
    ∃ u e, t = u ++ [e] ∧ found target record e = some .dead := by
  have behind {u v : List (Event Op)}
      (hv : ∃ w e, v = w ++ [e] ∧ found target record e = some .dead) :
      ∃ w e, u ++ v = w ++ [e] ∧ found target record e = some .dead := by
    obtain ⟨w, e, rfl, he⟩ := hv
    exact ⟨u ++ w, e, (List.append_assoc ..).symm, he⟩
  unfold throughKill at h
  rcases runs_bind.1 h with ⟨_, -, h⟩ | ⟨u, v, owned, rfl, hu, hv⟩
  · cases h
  cases owned with
  | false =>
    obtain ⟨rfl, -⟩ := hv
    rw [List.append_nil]
    exact confirmOwner_runs hu
  | true =>
    refine behind ?_
    rcases runs_bind.1 hv with ⟨_, -, h⟩ | ⟨u, v, _, rfl, -, hv⟩
    · cases h
    refine behind ?_
    rcases runs_bind.1 hv with ⟨_, -, h⟩ | ⟨u, v, owned, rfl, hu, hv⟩
    · cases h
    cases owned with
    | false =>
      obtain ⟨rfl, -⟩ := hv
      rw [List.append_nil]
      exact confirmOwner_runs hu
    | true =>
      replace hv := runs_attempt_bind.1 hv
      obtain ⟨_, _, _, -, -, -, hv⟩ := hv
      cases hv

/-- The root is taken for dead at an observation: a proof, or an uncertain one
after the kill. -/
theorem reapRoot_runs {x : OrphanReapOutcome × List (UInt32 × Attributable)}
    (h : (reapRoot target record).Runs t (.ok x)) :
    ∃ u e, t = u ++ [e] ∧ (found target record e = some .dead ∨
      (found target record e = some .doubtful ∧ ∃ u' v descendants killed, u = u' ++ v ∧
        (throughKill target record).Runs u' (.ok (descendants, some killed)) ∧
          ∀ d ∈ v, Waiting target record d)) := by
  rw [reapRoot_eq] at h
  rcases runs_bind.1 h with ⟨_, -, h⟩ | ⟨u, v, ⟨descendants, killed⟩, rfl, hu, hv⟩
  · cases h
  cases killed with
  | none =>
    obtain ⟨rfl, -⟩ := hv
    rw [List.append_nil]
    obtain ⟨w, e, hw, he⟩ := throughKill_dead hu
    exact ⟨w, e, hw, .inl he⟩
  | some killed =>
    rcases runs_bind.1 hv with ⟨_, -, h⟩ | ⟨w, w', outcome, rfl, hw, ⟨rfl, -⟩⟩
    · cases h
    rcases awaitDeath_runs hw with ⟨w, e, rfl, hwait, ⟨-, he⟩ | ⟨⟨_, he⟩, -⟩⟩ | ⟨-, _, he⟩
    · refine ⟨u ++ w, e, by simp, ?_⟩
      rcases he with he | he
      · exact .inl he
      · exact .inr ⟨he, u, w, descendants, killed, rfl, hu, hwait⟩
    · cases he
    · cases he

/-- A run that attempted the kill goes on with the wait. -/
theorem after_kill {w : List (Event Op)} {descendants : List (UInt32 × Attributable)}
    {killed : Except IoError Unit} {result : Except IoError OrphanReapOutcome}
    (hkill : (throughKill target record).Runs u (.ok (descendants, some killed)))
    (h : (reapRecord target record).Runs (u ++ w) result) :
    (∃ w₁ w₂ outcome, w = w₁ ++ w₂ ∧
      (awaitDeath target record false (errorOf killed) killWaitAttempts none).Runs w₁
        (.ok outcome) ∧ (reapRoot target record).Runs (u ++ w₁) (.ok (outcome, descendants))) ∨
    ∃ error, (awaitDeath target record false (errorOf killed) killWaitAttempts none).Runs w
      (.error error) := by
  unfold reapRecord at h
  rcases runs_bind.1 h with ⟨error, he, -⟩ | ⟨t₁, t₂, x, ht, hroot, -⟩
  · rw [reapRoot_eq] at he
    rcases runs_bind.1 he with ⟨_, he, -⟩ | ⟨u', v, y, hw, hu, hv⟩
    · have hu := (hkill.unique he (v := w) (w := []) (by simp)).2
      cases hu
    · obtain ⟨rfl, hy⟩ := hkill.unique hu hw
      cases hy
      obtain rfl := List.append_cancel_left hw
      rcases runs_bind.1 hv with ⟨error, hv, -⟩ | ⟨_, _, _, -, -, ⟨-, hv⟩⟩
      · exact .inr ⟨error, hv⟩
      · cases hv
  · have hroot' := hroot
    rw [reapRoot_eq] at hroot'
    rcases runs_bind.1 hroot' with ⟨_, -, he⟩ | ⟨u', v, y, rfl, hu, hv⟩
    · cases he
    rw [List.append_assoc] at ht
    obtain ⟨rfl, hy⟩ := hkill.unique hu ht
    cases hy
    obtain rfl := List.append_cancel_left ht
    rcases runs_bind.1 hv with ⟨_, -, he⟩ | ⟨w, w', outcome, rfl, hw, ⟨rfl, hx⟩⟩
    · cases he
    cases hx
    rw [List.append_nil] at hroot ⊢
    exact .inl ⟨w, t₂, outcome, rfl, hw, hroot⟩

/-- What decides a wait comes first: what has no decision before it is in the
wait, or decides it. -/
theorem decision_first {v v' w w' : List (Event Op)} {e e' : Event Op}
    (hv' : ∀ d ∈ v', Waiting target record d) (he : found target record e = some .doubtful)
    (hsplit : v ++ e :: w = v' ++ e' :: w') :
    (v = v' ∧ e = e') ∨ ∃ a, v = v' ++ e' :: a ∧ w' = a ++ e :: w := by
  rcases List.append_eq_append_iff.1 hsplit with ⟨a, rfl, ha⟩ | ⟨a, rfl, ha⟩
  · cases a with
    | nil =>
      cases ha
      exact .inl ⟨(List.append_nil _).symm, rfl⟩
    | cons d a =>
      cases ha
      have hwait := hv' e (List.mem_append_right _ List.mem_cons_self)
      rcases hwait with h | h
      · rw [he] at h
        cases h
      · rw [he] at h
        cases h
  · cases a with
    | nil =>
      cases ha
      exact .inl ⟨List.append_nil _, rfl⟩
    | cons d a =>
      cases ha
      exact .inr ⟨a, rfl, rfl⟩

/-- Death is reported on proof exactly where no observation after the kill is
uncertain before one that proves it. -/
theorem reap_record_on_proof_iff (target : Target) (record : EpochPidRecord)
    (trace : List (Event Op)) (result : Except IoError OrphanReapOutcome)
    (h : (reapRecord target record).Runs trace result) :
    OnProof target record trace result ↔ CertainAfterKill target record trace := by
  constructor
  · rintro hproof u v e w descendants killed rfl hkill hv he
    rcases after_kill hkill h with ⟨w₁, w₂, outcome, hw, hwait, hroot⟩ | ⟨error, hwait⟩
    · rcases awaitDeath_runs hwait with ⟨v', e', rfl, hv', hdecides⟩ | ⟨-, _, hr⟩
      · -- The wait ended at `e'`, which was doubtful or came after a proof.
        have hsplit : v ++ e :: w = v' ++ e' :: w₂ := by simpa using hw
        have hdoubtful : found target record e' = some .doubtful := by
          rcases decision_first hv' he hsplit with ⟨-, rfl⟩ | ⟨a, rfl, -⟩
          · exact he
          · rcases hdecides with ⟨-, hdead | hdoubtful⟩ | ⟨⟨_, hr⟩, -⟩
            · exact absurd hdead (hv e' (by simp))
            · exact hdoubtful
            · cases hr
        rw [← List.append_assoc] at hroot
        refine hproof.certain (u ++ v') e' w₂ _ ?_ hroot hdoubtful
        rw [hsplit, List.append_assoc]
      · cases hr
    · rcases awaitDeath_runs hwait with ⟨v', e', hsplit, hv', hdecides⟩ | ⟨hall, -⟩
      · rcases decision_first hv' he hsplit with ⟨-, rfl⟩ | ⟨a, -, ha⟩
        · rcases hdecides with ⟨hr, -⟩ | ⟨-, hfailed⟩
          · cases hr
          · rw [he] at hfailed
            cases hfailed
        · simp at ha
      · rcases hall e (by simp) with hwaiting | hwaiting
        · rw [he] at hwaiting
          cases hwaiting
        · rw [he] at hwaiting
          cases hwaiting
  · intro hcertain
    have decided {u v : List (Event Op)} {e : Event Op}
        {x : OrphanReapOutcome × List (UInt32 × Attributable)} (ht : trace = u ++ e :: v)
        (hroot : (reapRoot target record).Runs (u ++ [e]) (.ok x)) :
        found target record e = some .dead := by
      obtain ⟨u', e', hu, hfound⟩ := reapRoot_runs hroot
      obtain ⟨rfl, he⟩ := List.append_inj' hu rfl
      cases he
      rcases hfound with hdead | ⟨hdoubtful, u₁, v₁, descendants, killed, rfl, hkill, hwait⟩
      · exact hdead
      · refine absurd hdoubtful (hcertain u₁ v₁ e v descendants killed ?_ hkill ?_)
        · rw [ht, List.append_assoc]
        · intro d hd hdead
          rcases hwait d hd with hw | hw
          · rw [hdead] at hw
            cases hw
          · rw [hdead] at hw
            cases hw
    refine ⟨?_, ?_⟩
    · rintro outcome rfl
      unfold reapRecord at h
      rcases runs_bind.1 h with ⟨_, -, hr⟩ | ⟨t₁, t₂, x, ht, hroot, -⟩
      · cases hr
      obtain ⟨u, e, rfl, -⟩ := reapRoot_runs hroot
      have ht : trace = u ++ e :: t₂ := by simpa using ht
      refine ⟨e, ?_, decided ht hroot⟩
      rw [ht]
      simp
    · intro u e v x ht hroot hdoubtful
      rw [decided ht hroot] at hdoubtful
      cases hdoubtful

end Root

/-! ## A live process reported dead -/

def coreRecord : EpochPidRecord := ⟨42, 7, "mihomo".toList, 99, []⟩

def liveCore : ProcessIdentity := ⟨some "mihomo".toList, 99, none⟩

/-- Its executable can no longer be read. -/
def hiddenCore : ProcessIdentity := ⟨none, 99, none⟩

def notPermitted : IoError := ⟨.permissionDenied, some 1, "Operation not permitted (os error 1)"⟩

/-- The kill is refused, and then the executable cannot be read. -/
def refusedKill : List (Event Op) :=
  [⟨.processIdentity 42, .ok (some liveCore)⟩, ⟨.processes, []⟩, ⟨.processes, []⟩,
    ⟨.processIdentity 42, .ok (some liveCore)⟩, ⟨.openProcess 42, .ok ()⟩,
    ⟨.processIdentity 42, .ok (some liveCore)⟩, ⟨.kill 42, .error notPermitted⟩,
    ⟨.processIdentity 42, .ok (some hiddenCore)⟩]

theorem refusedKill_runs : (reapRecord .linux coreRecord).Runs refusedKill (.ok .killed) :=
  play_runs Script.answer (reapRecord .linux coreRecord)
    ⟨[.ok (some liveCore), .ok (some liveCore), .ok (some liveCore), .ok (some hiddenCore)], [],
      .error notPermitted, []⟩

/-- A process that survived its kill is reported dead. -/
theorem refused_kill_reported_dead :
    (reapRecord .linux coreRecord).Runs refusedKill (.ok .killed) ∧
    refusedKill.map (found .linux coreRecord) =
      [some .alive, none, none, some .alive, none, some .alive, none, some .doubtful] ∧
    ¬ OnProof .linux coreRecord refusedKill (.ok .killed) := by
  have hfound : refusedKill.map (found .linux coreRecord) =
      [some .alive, none, none, some .alive, none, some .alive, none, some .doubtful] := by decide
  refine ⟨refusedKill_runs, hfound, ?_⟩
  intro hproof
  obtain ⟨e, he, hdead⟩ := hproof.proven _ rfl
  have hmem : some Finding.dead ∈ refusedKill.map (found .linux coreRecord) :=
    List.mem_map.2 ⟨e, he, hdead⟩
  rw [hfound] at hmem
  simp at hmem

theorem refused_kill_not_certain : OnProof .linux coreRecord refusedKill (.ok .killed) ↔
    CertainAfterKill .linux coreRecord refusedKill :=
  reap_record_on_proof_iff .linux coreRecord refusedKill (.ok .killed) refusedKill_runs

end Chimera.Process
