import Chimera.Control.Command
import Chimera.Lib.Transition
import Mathlib.Data.List.Basic
import Mathlib.Data.Set.Finite.Lemmas

/-! The core type that the service echoes for `/v2` reconciles: one task watches each
admitted reconcile, the tasks run in any order, and `echo_applied` is the sequence of
the newest reconcile that has spoken. -/

namespace Chimera.Service
open Chimera.Model Chimera.Control Chimera.Lib.Transition

variable {CoreType : Type}

/-- A task of `watch_reconcile_echo`; `result` is what `handle.wait()` gives it. -/
structure Watcher (CoreType : Type) where
  sequence : Nat
  coreType : CoreType
  result : Except CoreError OperationOutput

/-- The service, with the watchers that have not run. -/
structure Echo (CoreType : Type) where
  watchers : List (Watcher CoreType)
  echoApplied : Option Nat
  requestedCore : Option CoreType

/-- What `DurabilityUncertain` wraps. -/
def effective : ApplyOutcome → ApplyOutcome
  | .durabilityUncertain outcome _ => effective outcome
  | outcome => outcome

def echoCommits : OperationState → Bool
  | .succeeded (.reconciled outcome) => match effective outcome with
    | .rolledBack _ _ => false
    | _ => true
  | _ => false

def isReconciled : OperationState → Bool
  | .succeeded (.reconciled _) => true
  | _ => false

def Watcher.state (watcher : Watcher CoreType) : OperationState :=
  match watcher.result with
  | .ok output => .succeeded output
  | .error error => .failed error

/-- `None` republishes the type that is there. -/
def Echo.publishRequestedCore (echo : Echo CoreType) (committed : Option CoreType) :
    Echo CoreType :=
  match committed with
  | some coreType => { echo with requestedCore := some coreType }
  | none => echo

/-- The body of the task, which holds the lock of `echo_applied` from the comparison
to the end. -/
def Echo.watchReconcileEcho (echo : Echo CoreType) (watcher : Watcher CoreType) : Echo CoreType :=
  let commits := echoCommits watcher.state
  -- the transaction never reached a commit point
  if !commits && !isReconciled watcher.state then echo
  -- a later reconcile already had the last word
  else if echo.echoApplied.any fun latest => watcher.sequence ≤ latest then echo
  else
    let echo := { echo with echoApplied := some watcher.sequence }
    if commits then echo.publishRequestedCore (some watcher.coreType)
    else echo.publishRequestedCore none

/-- The watcher at this position runs. -/
def Echo.step (echo : Echo CoreType) (index : Nat) : Option (Echo CoreType) :=
  match echo.watchers[index]? with
  | some watcher =>
    some (Echo.watchReconcileEcho { echo with watchers := echo.watchers.eraseIdx index } watcher)
  | none => none

/-- A service that has echoed nothing of these reconciles. -/
def echoMachine (watchers : List (Watcher CoreType)) (requested : Option CoreType) :
    Machine (Echo CoreType) Nat where
  init := ⟨watchers, none, requested⟩
  step := Echo.step

/-! ## What the echo should be -/

inductive RolledBack : ApplyOutcome → Prop
  | rolledBack (revision : ConfigRevision) (failedApply : String) :
      RolledBack (.rolledBack revision failedApply)
  | durabilityUncertain {outcome : ApplyOutcome} (warning : String) :
      RolledBack outcome → RolledBack (.durabilityUncertain outcome warning)

/-- The reconcile succeeded and was not rolled back. -/
def Watcher.Committed (watcher : Watcher CoreType) : Prop :=
  ∃ outcome, watcher.result = .ok (.reconciled outcome) ∧ ¬ RolledBack outcome

/-- The reconcile succeeded and was rolled back. -/
def Watcher.Reverted (watcher : Watcher CoreType) : Prop :=
  ∃ outcome, watcher.result = .ok (.reconciled outcome) ∧ RolledBack outcome

/-- The echo is the type of the newest reconcile that committed, and the one it was
where none did. -/
structure Follows (watchers : List (Watcher CoreType)) (requested echo : Option CoreType) :
    Prop where
  last : ∀ w ∈ watchers, w.Committed →
    (∀ v ∈ watchers, v.Committed → v.sequence ≤ w.sequence) → echo = some w.coreType
  unchanged : (∀ w ∈ watchers, ¬ w.Committed) → echo = requested

/-- Every reconcile that was rolled back has a committed one after it. -/
def Superseded (watchers : List (Watcher CoreType)) : Prop :=
  ∀ r ∈ watchers, r.Reverted → ∃ c ∈ watchers, c.Committed ∧ r.sequence < c.sequence

/-- No committed reconcile asks for another type than the one that is echoed. -/
def SameCore (watchers : List (Watcher CoreType)) (requested : Option CoreType) : Prop :=
  ∀ c ∈ watchers, c.Committed → requested = some c.coreType

/-! ## One watcher -/

section Step

variable {watcher : Watcher CoreType} {echo : Echo CoreType} {outcome : ApplyOutcome}

theorem rolledBack_iff : RolledBack outcome ↔
    ∃ revision failed, effective outcome = .rolledBack revision failed := by
  induction outcome with
  | durabilityUncertain inner warning ih =>
    constructor
    · intro h
      cases h with
      | durabilityUncertain _ hinner => exact ih.1 hinner
    · intro h
      exact .durabilityUncertain warning (ih.2 h)
  | rolledBack revision failed => exact iff_of_true (.rolledBack _ _) ⟨revision, failed, rfl⟩
  | started _ | noop _ | patched _ | reloaded _ | restarted _ | switched _ =>
    exact ⟨nofun, nofun⟩

theorem echoCommits_iff : echoCommits watcher.state = true ↔ watcher.Committed := by
  unfold Watcher.state Watcher.Committed
  cases watcher.result with
  | error e => exact ⟨nofun, nofun⟩
  | ok output =>
    cases output with
    | reconciled outcome =>
      simp only [echoCommits, Except.ok.injEq, OperationOutput.reconciled.injEq, exists_eq_left',
        rolledBack_iff]
      split
      · rename_i revision failed heq
        simp [heq]
      · rename_i hne
        simpa using hne
    | stopped | recovered | shutDown => exact ⟨nofun, nofun⟩

theorem isReconciled_iff : isReconciled watcher.state = true ↔
    watcher.Committed ∨ watcher.Reverted := by
  unfold Watcher.state Watcher.Committed Watcher.Reverted
  cases watcher.result with
  | error e => exact ⟨nofun, nofun⟩
  | ok output =>
    cases output with
    | reconciled outcome =>
      simp only [isReconciled, Except.ok.injEq, OperationOutput.reconciled.injEq, exists_eq_left',
        true_iff]
      exact (em (RolledBack outcome)).symm
    | stopped | recovered | shutDown => exact ⟨nofun, nofun⟩

theorem Watcher.Committed.not_reverted (h : watcher.Committed) : ¬ watcher.Reverted := by
  intro hr
  obtain ⟨outcome, hresult, hback⟩ := h
  obtain ⟨other, hresult', hback'⟩ := hr
  rw [hresult] at hresult'
  cases hresult'
  exact hback hback'

/-- A sequence at or below the mark. -/
def Echo.Past (echo : Echo CoreType) (sequence : Nat) : Prop :=
  ∃ latest, echo.echoApplied = some latest ∧ sequence ≤ latest

/-- All that a watcher does. -/
theorem watch_cases (echo : Echo CoreType) (watcher : Watcher CoreType) :
    (¬ watcher.Committed ∧ ¬ watcher.Reverted ∨ echo.Past watcher.sequence) ∧
        echo.watchReconcileEcho watcher = echo ∨
      ¬ echo.Past watcher.sequence ∧ watcher.Committed ∧
        echo.watchReconcileEcho watcher =
          { echo with echoApplied := some watcher.sequence
                      requestedCore := some watcher.coreType } ∨
      ¬ echo.Past watcher.sequence ∧ watcher.Reverted ∧
        echo.watchReconcileEcho watcher =
          { echo with echoApplied := some watcher.sequence } := by
  have hpast : (echo.echoApplied.any fun latest => watcher.sequence ≤ latest) = true ↔
      echo.Past watcher.sequence := by
    rw [Option.any_eq_true]
    simp [Echo.Past]
  simp only [Echo.watchReconcileEcho]
  split
  · rename_i h
    rw [Bool.and_eq_true, Bool.not_eq_true', Bool.not_eq_true'] at h
    refine .inl ⟨.inl (not_or.1 ?_), rfl⟩
    rw [← isReconciled_iff, h.2]
    exact Bool.false_ne_true
  · rename_i hspeaks
    split
    · rename_i h
      exact .inl ⟨.inr (hpast.1 h), rfl⟩
    · rename_i hnew
      rw [hpast] at hnew
      split
      · rename_i hcommits
        exact .inr (.inl ⟨hnew, echoCommits_iff.1 hcommits, rfl⟩)
      · rename_i hcommits
        refine .inr (.inr ⟨hnew, ?_, rfl⟩)
        rw [echoCommits_iff] at hcommits
        have hreconciled : isReconciled watcher.state = true := by
          by_contra hno
          rw [← echoCommits_iff] at hcommits
          exact hspeaks (by simp [hcommits, hno])
        exact (isReconciled_iff.1 hreconciled).resolve_left hcommits

end Step

/-! ## Runs -/

section Runs

variable {all : List (Watcher CoreType)} {requested : Option CoreType} {echo next : Echo CoreType}
  {watcher r c : Watcher CoreType} {index : Nat}

theorem step_cases (h : echo.step index = some next) : ∃ watcher rest,
    (watcher :: rest).Perm echo.watchers ∧
      next = Echo.watchReconcileEcho { echo with watchers := rest } watcher := by
  unfold Echo.step at h
  split at h
  · rename_i watcher hget
    cases h
    obtain ⟨hlt, heq⟩ := List.getElem?_eq_some_iff.1 hget
    refine ⟨watcher, echo.watchers.eraseIdx index, ?_, rfl⟩
    rw [← heq]
    exact List.getElem_cons_eraseIdx_perm hlt
  · cases h

/-- Any watcher may be the next to run. -/
theorem exists_step (h : watcher ∈ echo.watchers) : ∃ index rest,
    (watcher :: rest).Perm echo.watchers ∧ echo.step index =
      some (Echo.watchReconcileEcho { echo with watchers := rest } watcher) := by
  obtain ⟨index, hlt, heq⟩ := List.mem_iff_getElem.1 h
  refine ⟨index, echo.watchers.eraseIdx index, ?_, ?_⟩
  · rw [← heq]
    exact List.getElem_cons_eraseIdx_perm hlt
  · rw [Echo.step, List.getElem?_eq_getElem hlt, heq]

theorem watch_watchers (echo : Echo CoreType) (watcher : Watcher CoreType) :
    (echo.watchReconcileEcho watcher).watchers = echo.watchers := by
  obtain ⟨-, h⟩ | ⟨-, -, h⟩ | ⟨-, -, h⟩ := watch_cases echo watcher
  · rw [h]
  · rw [h]
  · rw [h]

/-- Watchers always end. -/
theorem exists_completion (all : List (Watcher CoreType)) (requested : Option CoreType) :
    ∀ (count : Nat) (echo : Echo CoreType), echo.watchers.length = count →
    ∃ order final, (echoMachine all requested).run echo order = some final ∧
      final.watchers = [] := by
  intro count
  induction count with
  | zero =>
    intro echo hlen
    exact ⟨[], echo, rfl, List.eq_nil_of_length_eq_zero hlen⟩
  | succ count ih =>
    intro echo hlen
    obtain ⟨watcher, rest, hcons⟩ := List.exists_cons_of_length_eq_add_one hlen
    have hmem : watcher ∈ echo.watchers := by
      rw [hcons]
      exact List.mem_cons_self
    obtain ⟨index, others, hperm, hstep⟩ := exists_step hmem
    have hothers : others.length = count := by
      have := hperm.length_eq
      rw [List.length_cons, hlen] at this
      omega
    obtain ⟨order, final, hrun, hnil⟩ := ih
      (Echo.watchReconcileEcho { echo with watchers := others } watcher)
      (by rw [watch_watchers]; exact hothers)
    refine ⟨index :: order, final, ?_, hnil⟩
    change (echo.step index).bind _ = some final
    rw [hstep]
    exact hrun

/-- Nothing that is still to come moves the echo. -/
def Blocked (requested : Option CoreType) (echo : Echo CoreType) : Prop :=
  (∀ w ∈ echo.watchers, w.Committed → echo.Past w.sequence) ∧ echo.requestedCore = requested

theorem blocked_step (hb : Blocked requested echo) (h : echo.step index = some next) :
    Blocked requested next := by
  obtain ⟨hpast, hcore⟩ := hb
  obtain ⟨watcher, rest, hperm, rfl⟩ := step_cases h
  have hrest : ∀ w ∈ rest, w.Committed → echo.Past w.sequence :=
    fun w hw => hpast w (hperm.mem_iff.1 (List.mem_cons_of_mem _ hw))
  obtain ⟨-, h⟩ | ⟨hnew, hcommitted, -⟩ | ⟨hnew, -, h⟩ :=
    watch_cases { echo with watchers := rest } watcher
  · rw [h]
    exact ⟨hrest, hcore⟩
  · exact absurd (hpast watcher (hperm.mem_iff.1 List.mem_cons_self) hcommitted) hnew
  · rw [h]
    refine ⟨?_, hcore⟩
    intro w hw hc
    obtain ⟨latest, hlatest, hle⟩ := hrest w hw hc
    have hlt : ¬ watcher.sequence ≤ latest := fun hle => hnew ⟨latest, hlatest, hle⟩
    exact ⟨watcher.sequence, rfl, by omega⟩

/-- The newest reconcile that has anything to say: it is to come and nothing newer has
spoken, or it had the last word. -/
def Decided (all : List (Watcher CoreType)) (w : Watcher CoreType) (echo : Echo CoreType) : Prop :=
  (∀ v ∈ echo.watchers, v ∈ all) ∧
    (w ∈ echo.watchers ∧ ¬ echo.Past w.sequence ∨
      echo.echoApplied = some w.sequence ∧ echo.requestedCore = some w.coreType)

theorem same_of_sequence (hdistinct : (all.map Watcher.sequence).Nodup) (hr : r ∈ all)
    (hc : c ∈ all) (h : r.sequence = c.sequence) : r = c :=
  List.inj_on_of_nodup_map hdistinct hr hc h

theorem decided_step {w : Watcher CoreType} (hdistinct : (all.map Watcher.sequence).Nodup)
    (hw : w ∈ all) (hcommitted : w.Committed)
    (hnewest : ∀ v ∈ all, v.Committed ∨ v.Reverted → v.sequence ≤ w.sequence)
    (hd : Decided all w echo) (h : echo.step index = some next) : Decided all w next := by
  obtain ⟨hall, hd⟩ := hd
  obtain ⟨watcher, rest, hperm, rfl⟩ := step_cases h
  have hwatcher : watcher ∈ all := hall watcher (hperm.mem_iff.1 List.mem_cons_self)
  have hrest : ∀ v ∈ rest, v ∈ all :=
    fun v hv => hall v (hperm.mem_iff.1 (List.mem_cons_of_mem _ hv))
  refine ⟨by rw [watch_watchers]; exact hrest, ?_⟩
  rcases hd with ⟨hmem, hnew⟩ | ⟨happlied, hcore⟩
  · by_cases heq : watcher = w
    · subst heq
      obtain ⟨hold, -⟩ | ⟨-, -, h⟩ | ⟨-, hreverted, -⟩ :=
        watch_cases { echo with watchers := rest } watcher
      · exact absurd hold (not_or.2 ⟨fun h => h.1 hcommitted, hnew⟩)
      · rw [h]
        exact .inr ⟨rfl, rfl⟩
      · exact absurd hreverted hcommitted.not_reverted
    · have hmem' : w ∈ rest :=
        (List.mem_cons.1 (hperm.mem_iff.2 hmem)).resolve_left fun h => heq h.symm
      have hlt : watcher.Committed ∨ watcher.Reverted → watcher.sequence < w.sequence := by
        intro hspeaks
        have hle := hnewest watcher hwatcher hspeaks
        have hne : watcher.sequence ≠ w.sequence :=
          fun h => heq (same_of_sequence hdistinct hwatcher hw h)
        omega
      obtain ⟨-, h⟩ | ⟨-, hc, h⟩ | ⟨-, hr, h⟩ := watch_cases { echo with watchers := rest } watcher
      · rw [h]
        exact .inl ⟨hmem', hnew⟩
      · rw [h]
        refine .inl ⟨hmem', ?_⟩
        intro hpast
        obtain ⟨latest, hlatest, hle⟩ := hpast
        cases hlatest
        exact absurd (hlt (.inl hc)) (by omega)
      · rw [h]
        refine .inl ⟨hmem', ?_⟩
        intro hpast
        obtain ⟨latest, hlatest, hle⟩ := hpast
        cases hlatest
        exact absurd (hlt (.inr hr)) (by omega)
  · -- nobody is newer
    right
    obtain ⟨-, h⟩ | ⟨hnew, hc, -⟩ | ⟨hnew, hr, -⟩ :=
      watch_cases { echo with watchers := rest } watcher
    · rw [h]
      exact ⟨happlied, hcore⟩
    · exact absurd ⟨_, happlied, hnewest watcher hwatcher (.inl hc)⟩ hnew
    · exact absurd ⟨_, happlied, hnewest watcher hwatcher (.inr hr)⟩ hnew

theorem sameCore_step (hsame : SameCore echo.watchers requested)
    (hcore : echo.requestedCore = requested) (h : echo.step index = some next) :
    SameCore next.watchers requested ∧ next.requestedCore = requested := by
  obtain ⟨watcher, rest, hperm, rfl⟩ := step_cases h
  constructor
  · rw [watch_watchers]
    exact fun v hv => hsame v (hperm.mem_iff.1 (List.mem_cons_of_mem _ hv))
  · obtain ⟨-, h⟩ | ⟨-, hc, h⟩ | ⟨-, -, h⟩ := watch_cases { echo with watchers := rest } watcher
    · rw [h]
      exact hcore
    · rw [h]
      exact (hsame watcher (hperm.mem_iff.1 List.mem_cons_self) hc).symm
    · rw [h]
      exact hcore

/-- A reverted reconcile that no commit came after speaks before the rest: the echo
stays as it is. -/
theorem reverted_first (all : List (Watcher CoreType)) (requested : Option CoreType)
    (hnew : ¬ echo.Past r.sequence) (hr : r ∈ echo.watchers)
    (hreverted : r.Reverted)
    (hnewest : ∀ v ∈ echo.watchers, v.Committed → v.sequence ≤ r.sequence) :
    ∃ order final, (echoMachine all requested).run echo order = some final ∧
      final.watchers = [] ∧ final.requestedCore = echo.requestedCore := by
  obtain ⟨index, rest, hperm, hstep⟩ := exists_step hr
  have hwatch : Echo.watchReconcileEcho { echo with watchers := rest } r =
      ⟨rest, some r.sequence, echo.requestedCore⟩ := by
    obtain ⟨hold, -⟩ | ⟨-, hc, -⟩ | ⟨-, -, h⟩ := watch_cases { echo with watchers := rest } r
    · exact absurd hold (not_or.2 ⟨fun h => h.2 hreverted, hnew⟩)
    · exact absurd hreverted hc.not_reverted
    · exact h
  rw [hwatch] at hstep
  obtain ⟨order, final, hrun, hnil⟩ := exists_completion all requested rest.length
    ⟨rest, some r.sequence, echo.requestedCore⟩ rfl
  have hblocked : Blocked echo.requestedCore final := by
    refine Machine.run_invariant (fun _ _ _ => blocked_step) ?_ hrun
    refine ⟨?_, rfl⟩
    intro v hv hc
    exact ⟨r.sequence, rfl, hnewest v (hperm.mem_iff.1 (List.mem_cons_of_mem _ hv)) hc⟩
  refine ⟨index :: order, final, ?_, hnil, hblocked.2⟩
  change (echo.step index).bind _ = some final
  rw [hstep]
  exact hrun

/-- A commit speaks first. -/
theorem committed_first (hc : c ∈ echo.watchers) (hcommitted : c.Committed)
    (hnew : ¬ echo.Past c.sequence) : ∃ index rest, (c :: rest).Perm echo.watchers ∧
      echo.step index = some ⟨rest, some c.sequence, some c.coreType⟩ := by
  obtain ⟨index, rest, hperm, hstep⟩ := exists_step hc
  obtain ⟨hold, -⟩ | ⟨-, -, h⟩ | ⟨-, hr, -⟩ := watch_cases { echo with watchers := rest } c
  · exact absurd hold (not_or.2 ⟨fun h => h.1 hcommitted, hnew⟩)
  · exact ⟨index, rest, hperm, by rw [hstep, h]⟩
  · exact absurd hr hcommitted.not_reverted

theorem exists_newest_commit (hc : c ∈ all) (hcommitted : c.Committed) :
    ∃ w ∈ all, w.Committed ∧ ∀ v ∈ all, v.Committed → v.sequence ≤ w.sequence := by
  have hfinite : {w | w ∈ all ∧ w.Committed}.Finite :=
    all.finite_toSet.subset fun _ h => h.1
  obtain ⟨w, hw, hmax⟩ := Set.exists_max_image _ Watcher.sequence hfinite ⟨c, hc, hcommitted⟩
  exact ⟨w, hw.1, hw.2, fun v hv hv' => hmax v ⟨hv, hv'⟩⟩

end Runs

/-- In every order in which the watchers run, the echo ends at the type of the newest
reconcile that committed, if and only if a committed reconcile comes after each one
that was rolled back, or no commit asks for another type than the one echoed. -/
theorem echo_follows_iff (watchers : List (Watcher CoreType)) (requested : Option CoreType)
    (hdistinct : (watchers.map Watcher.sequence).Nodup) :
    (∀ order final, (echoMachine watchers requested).run (echoMachine watchers requested).init
        order = some final → final.watchers = [] →
      Follows watchers requested final.requestedCore) ↔
    Superseded watchers ∨ SameCore watchers requested := by
  have hfresh : ∀ sequence, ¬ (echoMachine watchers requested).init.Past sequence := by
    intro sequence hpast
    obtain ⟨latest, hlatest, -⟩ := hpast
    cases hlatest
  constructor
  · intro hfollows
    by_contra hcond
    obtain ⟨hrolled, hother⟩ := not_or.1 hcond
    simp only [Superseded, SameCore, not_forall, not_exists, not_and, not_lt, exists_prop]
      at hrolled hother
    obtain ⟨r, hr, hreverted, hnewest⟩ := hrolled
    obtain ⟨c, hc, hcommitted, hne⟩ := hother
    obtain ⟨w, hw, hwc, hlast⟩ := exists_newest_commit hc hcommitted
    -- the reverted one first: the echo is as it was
    obtain ⟨order, final, hrun, hnil, hcore⟩ := reverted_first watchers requested
      (hfresh r.sequence) hr hreverted hnewest
    have hrequested := (hfollows order final hrun hnil).last w hw hwc hlast
    rw [hcore] at hrequested
    -- then after the commit of another type: the echo is that type
    obtain ⟨index, rest, hperm, hstep⟩ := committed_first hc hcommitted (hfresh c.sequence)
    have hmem : r ∈ rest := by
      refine (List.mem_cons.1 (hperm.mem_iff.2 hr)).resolve_left ?_
      intro heq
      rw [heq] at hreverted
      exact hcommitted.not_reverted hreverted
    have hnew : ¬ Echo.Past ⟨rest, some c.sequence, some c.coreType⟩ r.sequence := by
      intro hpast
      obtain ⟨latest, hlatest, hle⟩ := hpast
      cases hlatest
      have heq : r = c := same_of_sequence hdistinct hr hc (le_antisymm hle (hnewest c hc hcommitted))
      rw [heq] at hreverted
      exact hcommitted.not_reverted hreverted
    obtain ⟨order', final', hrun', hnil', hcore'⟩ := reverted_first watchers requested
      hnew hmem hreverted
      fun v hv => hnewest v (hperm.mem_iff.1 (List.mem_cons_of_mem _ hv))
    have hwhole : (echoMachine watchers requested).run (echoMachine watchers requested).init
        (index :: order') = some final' := by
      change ((echoMachine watchers requested).init.step index).bind _ = some final'
      rw [hstep]
      exact hrun'
    have hecho := (hfollows _ final' hwhole hnil').last w hw hwc hlast
    rw [hcore'] at hecho
    exact hne (hrequested.trans hecho.symm)
  · intro hcond order final hrun hnil
    have hsame : SameCore watchers requested → final.requestedCore = requested := by
      intro hsame
      refine (Machine.run_invariant (I := fun echo => SameCore echo.watchers requested ∧
        echo.requestedCore = requested) ?_ ⟨hsame, rfl⟩ hrun).2
      intro echo index next hkept hstep
      exact sameCore_step hkept.1 hkept.2 hstep
    refine ⟨?_, ?_⟩
    · intro w hw hwc hlast
      rcases hcond with hsuperseded | hsame'
      · have hnewest : ∀ v ∈ watchers, v.Committed ∨ v.Reverted → v.sequence ≤ w.sequence := by
          intro v hv hspeaks
          rcases hspeaks with hvc | hvr
          · exact hlast v hv hvc
          · obtain ⟨c, hc, hcc, hlt⟩ := hsuperseded v hv hvr
            exact (hlt.trans_le (hlast c hc hcc)).le
        have hdecided : Decided watchers w final := by
          refine Machine.run_invariant (fun _ _ _ => decided_step hdistinct hw hwc hnewest) ?_ hrun
          exact ⟨fun v hv => hv, .inl ⟨hw, hfresh w.sequence⟩⟩
        rcases hdecided.2 with ⟨hmem, -⟩ | ⟨-, hcore⟩
        · rw [hnil] at hmem
          cases hmem
        · exact hcore
      · rw [hsame hsame']
        exact hsame' w hw hwc
    · intro hnone
      exact hsame fun c hc hcc => absurd hcc (hnone c hc)

def firstRevision : ConfigRevision := ⟨.one, 1, "source", "effective", "/run/chimera/config.yaml"⟩

/-- A reconcile that switched, as this operation. -/
def switchedWatcher (sequence : Nat) (coreType : String) : Watcher String :=
  ⟨sequence, coreType, .ok (.reconciled (.switched firstRevision))⟩

def revertedWatcher (sequence : Nat) (coreType : String) : Watcher String :=
  ⟨sequence, coreType, .ok (.reconciled (.rolledBack firstRevision "startup timeout"))⟩

theorem switched_committed (sequence : Nat) (coreType : String) :
    (switchedWatcher sequence coreType).Committed := by
  refine ⟨_, rfl, ?_⟩
  intro h
  cases h

theorem echo_follows_two_switches :
    ([switchedWatcher 1 "mihomo", switchedWatcher 2 "clash-rs"].map Watcher.sequence).Nodup ∧
      ∀ order final, (echoMachine [switchedWatcher 1 "mihomo", switchedWatcher 2 "clash-rs"]
          none).run (echoMachine [switchedWatcher 1 "mihomo", switchedWatcher 2 "clash-rs"]
          none).init order = some final → final.watchers = [] →
        Follows [switchedWatcher 1 "mihomo", switchedWatcher 2 "clash-rs"] none
          final.requestedCore := by
  refine ⟨by decide, (echo_follows_iff _ none (by decide)).2 (.inl ?_)⟩
  intro r hr hreverted
  simp only [List.mem_cons, List.not_mem_nil, or_false] at hr
  rcases hr with rfl | rfl
  · exact absurd hreverted (switched_committed 1 "mihomo").not_reverted
  · exact absurd hreverted (switched_committed 2 "clash-rs").not_reverted

/-- The watcher of the rolled back reconcile runs first: the commit before it is not
echoed. -/
theorem reverted_hides_commit : ∃ final,
    (echoMachine [switchedWatcher 1 "mihomo", revertedWatcher 2 "clash-rs"] none).run
      (echoMachine [switchedWatcher 1 "mihomo", revertedWatcher 2 "clash-rs"] none).init [1, 0] =
        some final ∧ final.watchers = [] ∧ final.requestedCore = none ∧
    ¬ Follows [switchedWatcher 1 "mihomo", revertedWatcher 2 "clash-rs"] none
      final.requestedCore := by
  refine ⟨⟨[], some 2, none⟩, rfl, rfl, rfl, ?_⟩
  intro hfollows
  have hecho := hfollows.last (switchedWatcher 1 "mihomo") List.mem_cons_self
    (switched_committed 1 "mihomo") ?_
  · cases hecho
  · intro v hv hcommitted
    simp only [List.mem_cons, List.not_mem_nil, or_false] at hv
    rcases hv with rfl | rfl
    · exact le_rfl
    · exact absurd ⟨_, rfl, .rolledBack _ _⟩ hcommitted.not_reverted

end Chimera.Service
