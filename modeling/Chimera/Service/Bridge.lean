import Chimera.Control.Shutdown

/-! `CoreManagerService::shutdown` over the control plane: the call that sets the
service's closing flag, interleaved with everything the control plane does. It
shuts down through the control executor, retries while the executor is there,
and falls back to `manager.shutdown()` itself once the executor is gone. -/

namespace Chimera.Service
open Chimera.Model Chimera.Control Chimera.Lib.Transition

/-- Where the call is. `idle` is before it: the closing flag is not set. -/
inductive ShutdownCall where
  | idle
  /-- Awaiting `control.shutdown()` under its timeout, as this caller of the
  control plane. -/
  | calling (index : Nat)
  /-- `control.shutdown()` failed; about to ask whether the executor is closed. -/
  | consulting
  | sleeping
  /-- The call timed out; awaiting `until_closed`. -/
  | awaitingExit
  /-- Awaiting a `manager.shutdown()` of `retry_until_success`. -/
  | retrying
  | backingOff
  | returned
  deriving DecidableEq

/-- `direct` holds the answers of the `manager.shutdown()` calls the service
made itself, newest first. -/
structure Host where
  sys : Sys
  service : ShutdownCall
  direct : List (Except Error Unit)

def Host.init : Host := ⟨.init, .idle, []⟩

inductive HostAction where
  | control (action : Action)
  | shutdown
  | settle
  | timeout
  | consult
  | wake
  | exited
  | answer (result : Except Error Unit)
  | retry
  deriving DecidableEq

/-- A new `control.shutdown()` call, as the newest caller. -/
def Host.call (cfg : Config) (h : Host) : Option Host :=
  (h.sys.step cfg .callShutdown).map fun sys =>
    { h with sys, service := .calling h.sys.callers.length }

def Host.step (cfg : Config) (h : Host) : HostAction → Option Host
  | .control action =>
    match action with
    -- the service holds a `CoreControl` for as long as it lives
    | .detach => none
    -- nobody but its own timeout drops the service's call
    | .cancel index => if h.service = .calling index then none else
        (h.sys.step cfg (.cancel index)).map fun sys => { h with sys }
    | _ => (h.sys.step cfg action).map fun sys => { h with sys }
  | .shutdown => if h.service = .idle then h.call cfg else none
  | .settle =>
    match h.service with
    | .calling index =>
      match h.sys.callers[index]? with
      | some (.shutDown (.ok ())) => some { h with service := .returned }
      | some (.shutDown (.error _)) => some { h with service := .consulting }
      | _ => none
    | _ => none
  | .timeout =>
    match h.service with
    | .calling index => (h.sys.step cfg (.cancel index)).map fun sys =>
        { h with sys, service := .awaitingExit }
    | _ => none
  | .consult =>
    if h.service = .consulting then
      some { h with service := if h.sys.receiving then .sleeping else .retrying }
    else none
  | .wake => if h.service = .sleeping then h.call cfg else none
  | .exited =>
    if h.service = .awaitingExit then
      match h.sys.executor with
      | .exited _ => some { h with service := .retrying }
      | _ => none
    else none
  | .answer result =>
    if h.service = .retrying then
      some { h with
        service := if result.isOk then .returned else .backingOff
        direct := result :: h.direct }
    else none
  | .retry => if h.service = .backingOff then some { h with service := .retrying } else none

def hostMachine (cfg : Config) : Machine Host HostAction where
  init := .init
  step := Host.step cfg

/-- Some `manager.shutdown()` returned `Ok`: one made by the executor, or one
the service made itself. -/
def Host.stopped (h : Host) : Bool := hasShutDown h.sys.history || h.direct.any Except.isOk

/-- The steps that keep the service's call apart from a shutdown that failed
before it could run its own: it asks for a slot only while none has failed, it
is not waiting behind the one that fails, and the id generated for it is new. -/
def Host.unshadowed (h : Host) : HostAction → Bool
  | .control (.caller index fresh) =>
    if h.service = .calling index then
      match h.sys.callers[index]? with
      | some .reserving => !shutdownFailed h.sys.history
      | some .permitted => (h.sys.registry.operations.lookup fresh).isNone
      | _ => true
    else true
  | .control (.finish (.answered (.error _))) =>
    match h.service, h.sys.executor with
    | .calling index, .executing work =>
      if work.command.isShutdown then
        match h.sys.callers[index]? with
        | some .permitted => false
        | some (.waiting handle) => handle.state.isTerminal || handle.sequence == work.sequence
        | _ => true
      else true
    | _, _ => true
  | _ => true

/-! ## The service's call against the executor -/

variable {cfg : Config} {s t : Sys} {h h' : Host}

/-- What the executor's phase says once it is past a `Shutdown`, while no
`manager.shutdown()` has succeeded. -/
def FailedFirst (s : Sys) : Prop :=
  match s.executor with
  | .finished work result => work.command.isShutdown = true →
      shutdownFailed s.history = true ∧ ∃ error, result = .error error
  | .closingQueue .clean | .draining .clean | .drained .clean _ | .returned .clean
  | .exited .clean => shutdownFailed s.history = true
  | _ => True

/-- The service's own operation, while no `manager.shutdown()` has succeeded:
it is over with a failure, or it is pending and nothing failed ahead of it. -/
structure OwnHandle (s : Sys) (handle : OperationHandle) : Prop where
  known : handle.sequence < s.registry.nextSequence
  state : (∃ error, handle.state = .failed error) ∧
      (∀ w ∈ s.pending, w.sequence ≠ handle.sequence) ∨
    handle.state.isTerminal = false ∧ ∃ w ∈ s.pending, w.sequence = handle.sequence ∧
      w.command.isShutdown = true ∧
      (shutdownFailed s.history = true → ∃ error, s.executor = .finished w (.error error))

/-- Where the service's own caller can be while no `manager.shutdown()` has
succeeded. -/
def Own (s : Sys) : Caller → Prop
  | .permitted => shutdownFailed s.history = false
  | .awaitingExit => shutdownFailed s.history = false ∧ s.receiving = false
  | .waiting handle => OwnHandle s handle
  | .shutDown (.ok ()) => False
  | _ => True

/-- The executor while no `manager.shutdown()` has succeeded. -/
structure Unfinished (s : Sys) : Prop where
  attached : s.attached = true
  done : s.done = true → s.executor = .exited .clean
  phase : FailedFirst s

/-- The service's own caller is where it can be. -/
def OwnKept (index : Nat) (s : Sys) : Prop := ∃ c, s.callers[index]? = some c ∧ Own s c

/-- The invariant of the composition, up to a `manager.shutdown()` that
succeeded. -/
structure Pends (h : Host) : Prop where
  sys : Unfinished h.sys
  returned : h.service ≠ .returned
  own : ∀ index, h.service = .calling index → OwnKept index h.sys

/-! ### Steps that leave the executor alone -/

/-- Nothing the service's caller depends on is lost. -/
structure Grows (s t : Sys) : Prop where
  failed : shutdownFailed t.history = shutdownFailed s.history
  receiving : s.receiving = false → t.receiving = false
  sequence : s.registry.nextSequence ≤ t.registry.nextSequence
  pending : ∀ w ∈ s.pending, w ∈ t.pending
  fresh : ∀ w ∈ t.pending, w ∈ s.pending ∨ s.registry.nextSequence ≤ w.sequence
  finished : ∀ w error, s.executor = .finished w (.error error) →
    t.executor = .finished w (.error error)

theorem Own.mono {c : Caller} (hown : Own s c) (hg : Grows s t) : Own t c := by
  cases c with
  | permitted => exact hg.failed.trans hown
  | awaitingExit => exact ⟨hg.failed.trans hown.1, hg.receiving hown.2⟩
  | waiting handle =>
    obtain ⟨hk, hst⟩ := hown
    refine ⟨hk.trans_le hg.sequence, ?_⟩
    rcases hst with ⟨hf, hnone⟩ | ⟨hlive, w, hw, hseq, hsd, hfin⟩
    · refine .inl ⟨hf, fun w hw => ?_⟩
      rcases hg.fresh w hw with hw | hlt
      · exact hnone w hw
      · omega
    · refine .inr ⟨hlive, w, hg.pending w hw, hseq, hsd, fun hf => ?_⟩
      obtain ⟨error, hx⟩ := hfin (hg.failed ▸ hf)
      exact ⟨error, hg.finished w error hx⟩
  | shutDown result =>
    cases result with
    | ok u => exact hown
    | error e => trivial
  | _ => trivial

theorem grows_caller {fresh : OperationId} {c c' : Caller} {s' : Sys} (callers : List Caller)
    (hs : s.callerStep cfg fresh c = some (c', s')) : Grows s { s' with callers } := by
  cases callerStep_effect hs with
  | pass closing =>
    exact ⟨rfl, id, Nat.le_refl _, fun _ hw => hw, fun _ hw => .inl hw, fun _ _ hx => hx⟩
  | reserve =>
    exact ⟨rfl, id, Nat.le_refl _, fun _ hw => hw, fun _ hw => .inl hw, fun _ _ hx => hx⟩
  | settled _ hadm _ =>
    exact ⟨rfl, id, admit_nextSequence_le hadm, fun _ hw => hw, fun _ hw => .inl hw,
      fun _ _ hx => hx⟩
  | @admitted _ registry fresh digest a command _ _ hadm =>
    refine ⟨rfl, id, admit_nextSequence_le hadm, fun w hw => ?_, fun w hw => ?_, fun _ _ hx => hx⟩
    · simp only [Sys.pending, Sys.enqueue, ← List.append_assoc]
      exact List.mem_append_left _ hw
    · simp only [Sys.pending, Sys.enqueue, ← List.append_assoc] at hw
      rcases List.mem_append.mp hw with hw | hw
      · exact .inl hw
      · right
        rw [List.mem_singleton.mp hw]
        exact (admit_registered hadm).2.2.1.ge

theorem grows_calls (callers : List Caller) (attached : Bool) :
    Grows s { s with callers, attached } :=
  ⟨rfl, id, Nat.le_refl _, fun _ hw => hw, fun _ hw => .inl hw, fun _ _ hx => hx⟩

theorem own_submitStep {c c' : Caller} {s' : Sys} (hs : s.submitStep cfg c = some (c', s')) :
    Own t c' := by
  cases c with
  | submitting envelope =>
    simp only [Sys.submitStep] at hs
    split at hs <;> cases hs <;> trivial
  | admitting envelope =>
    simp only [Sys.submitStep] at hs
    split at hs
    · cases hs; trivial
    · cases hs; trivial
    · split at hs <;> cases hs <;> trivial
  | latching handle => cases hs; trivial
  | _ => cases hs

/-- The service's own step, on the terms of the guard. -/
theorem own_callerStep {fresh : OperationId} {c c' : Caller} {s' : Sys} (callers : List Caller)
    (hu : Unfinished s) (hown : Own s c)
    (hreserve : c = .reserving → shutdownFailed s.history = false)
    (hfresh : c = .permitted → s.registry.operations.lookup fresh = none)
    (hs : s.callerStep cfg fresh c = some (c', s')) : Own { s' with callers } c' := by
  unfold Sys.callerStep at hs
  split at hs
  · rename_i hsub
    exact own_submitStep (hsub.trans hs)
  cases c with
  | closing => cases hs; trivial
  | reserving =>
    simp only [Sys.shutdownStep] at hs
    split at hs
    · rename_i hr
      cases hs
      exact ⟨hreserve rfl, by simpa using hr⟩
    · split at hs
      · cases hs
        exact hreserve rfl
      · cases hs
  | permitted =>
    simp only [Sys.shutdownStep] at hs
    cases hadm : s.registry.admitOperation cfg.capacity fresh CoreCommand.shutdown.payloadDigest
        (.ok ()) with
    | mk result registry =>
      rw [hadm] at hs
      rcases result with error | ⟨a⟩ | ⟨a⟩
      · cases hs; trivial
      · obtain ⟨-, -, hseq, hreg⟩ := admit_registered hadm
        have hlive : (OperationHandle.ofAdmitted fresh true a).state.isTerminal = false := by
          rw [show OperationHandle.state _ = a.state from rfl, admit_registered_state hadm]
          rfl
        cases hs
        refine ⟨?_, .inr ⟨hlive, ⟨fresh, .shutdown, a.sequence⟩, ?_, rfl, rfl, fun hf => ?_⟩⟩
        · change a.sequence < registry.nextSequence
          rw [hreg, hseq, ← (evicted_evict cfg.capacity s.registry).sequence]
          exact Nat.lt_succ_self _
        · simp [Sys.pending, Sys.enqueue]
        · have hnone : shutdownFailed s.history = false := hown
          change shutdownFailed s.history = true at hf
          rw [hnone] at hf
          cases hf
      · simp [RegistryInner.admitOperation, hfresh rfl] at hadm
  | awaitingExit =>
    simp only [Sys.shutdownStep] at hs
    split at hs
    · rename_i hd
      have hx := hu.done hd
      have hp := hu.phase
      simp only [FailedFirst, hx] at hp
      rw [hown.1] at hp
      cases hp
    · split at hs
      · cases hs; trivial
      · cases hs
  | waiting handle =>
    simp only [Sys.shutdownStep] at hs
    split at hs
    · rename_i hst
      rcases hown.state with ⟨⟨error, hf⟩, -⟩ | ⟨hlive, -⟩
      · rw [hst] at hf; cases hf
      · rw [hst] at hlive; cases hlive
    · cases hs; trivial
    · cases hs
  | _ => cases hs

/-! ### Steps of the executor -/

def isFinished : Phase → Bool
  | .finished _ _ => true
  | _ => false

/-- The executor moves on with the same work pending. -/
theorem grows_turn {p : Phase} {queue : List ExecutorWork} {receiving closing done : Bool}
    {history : List Event} (hf : shutdownFailed history = shutdownFailed s.history)
    (hr : s.receiving = false → receiving = false)
    (hp : p.inHand.toList ++ queue = s.pending)
    (hx : isFinished s.executor = false) :
    Grows s { s with executor := p, queue, receiving, closing, done, history } := by
  refine ⟨hf, hr, Nat.le_refl _, fun w hw => ?_, fun w hw => .inl ?_, fun w error h => ?_⟩
  · rw [← hp] at hw; exact hw
  · rw [← hp]; exact hw
  · rw [h] at hx; cases hx

theorem callers_give {cfg : Config} {work : ExecutorWork} {index : Nat} {c : Caller}
    (state : OperationState) (hi : Inv cfg s) (hw : work ∈ s.pending)
    (hc : s.callers[index]? = some c) :
    (s.give work state).callers[index]? = some (c.observe work.sequence state) := by
  obtain ⟨op, hop, hseq, -⟩ := hi.tracks.registered work hw
  simp [Sys.give, hop, hseq, hc]

/-- Seeing a new state of another operation, or of one's own. -/
theorem observe_waiting (sequence : Nat) (state : OperationState) (handle : OperationHandle) :
    Caller.observe sequence state (.waiting handle) = .waiting
      (if handle.sequence = sequence then { handle with state } else handle) := rfl

theorem pending_unique (hi : Inv cfg s) {v w : ExecutorWork} (hv : v ∈ s.pending)
    (hw : w ∈ s.pending) (h : v.sequence = w.sequence) : v = w := by
  by_contra hne
  have hpw : s.pending.Pairwise fun a b => a.sequence ≠ b.sequence :=
    hi.tracks.sorted.imp fun hlt => Nat.ne_of_lt hlt
  have : Std.Symm fun a b : ExecutorWork => a.sequence ≠ b.sequence := ⟨fun _ _ h => h.symm⟩
  exact hpw.forall hv hw hne h

/-- The executor gives its work a terminal state: the service's own caller sees
a failure of its own operation, or nothing. -/
theorem own_settle {work : ExecutorWork} {state : OperationState} {p : Phase} {c : Caller}
    (hi : Inv cfg s) (hw : s.executor.inHand = some work) (hp : p.inHand = none)
    (hown : Own s c)
    (hfail : work.command.isShutdown = true →
      (shutdownFailed s.history = true → ∃ error, s.executor = .finished work (.error error)) →
      ∃ error, state = .failed error) :
    Own { s.give work state with executor := p } (c.observe work.sequence state) := by
  have hpend : s.pending = work :: s.queue := Inv.pending_of_inHand hw
  have hsorted := List.pairwise_cons.mp (hpend ▸ hi.tracks.sorted)
  have hworkmem : work ∈ s.pending := by rw [hpend]; exact List.mem_cons_self
  have hpend' : Sys.pending { s.give work state with executor := p } = s.queue := by
    simp [Sys.pending, hp, Sys.give]
  have hnext : (s.give work state).registry.nextSequence = s.registry.nextSequence := by
    simp [Sys.give]
  cases c with
  | waiting handle =>
    obtain ⟨hk, hst⟩ := hown
    rw [observe_waiting]
    rcases hst with ⟨hf, hnone⟩ | ⟨hlive, w, hwp, hseq, hsd, hfin⟩
    · have hne : handle.sequence ≠ work.sequence := (hnone work hworkmem).symm
      rw [if_neg hne]
      refine ⟨hnext ▸ hk, .inl ⟨hf, fun v hv => hnone v ?_⟩⟩
      rw [hpend] at *
      rw [hpend'] at hv
      exact List.mem_cons_of_mem _ hv
    · by_cases hmine : handle.sequence = work.sequence
      · have heq : w = work := pending_unique hi hwp hworkmem (hseq.trans hmine)
        subst heq
        rw [if_pos hmine]
        refine ⟨hnext ▸ hk, .inl ⟨hfail hsd hfin, fun v hv => ?_⟩⟩
        rw [hpend'] at hv
        have := hsorted.1 v hv
        change v.sequence ≠ handle.sequence
        omega
      · rw [if_neg hmine]
        have hne : w ≠ work := by rintro rfl; exact hmine hseq.symm
        refine ⟨hnext ▸ hk, .inr ⟨hlive, w, ?_, hseq, hsd, fun hf => ?_⟩⟩
        · rw [hpend']
          rw [hpend] at hwp
          exact (List.mem_cons.mp hwp).resolve_left hne
        · obtain ⟨error, hx⟩ := hfin hf
          rw [hx] at hw
          exact absurd (Option.some.inj hw) hne
  | permitted => exact hown
  | awaitingExit => exact hown
  | submitted result => cases result <;> trivial
  | shutDown result =>
    cases result with
    | ok u => exact hown
    | error e => trivial
  | _ => exact hown

/-- An operation starts. -/
theorem own_start {work : ExecutorWork} {c : Caller}
    (hx : s.executor = .starting work) (hown : Own s c) :
    Own { s.give work .running with
      executor := .executing work
      history := .began work :: (s.give work .running).history }
      (c.observe work.sequence .running) := by
  have hpend : s.pending = work :: s.queue := Inv.pending_of_inHand (by rw [hx]; rfl)
  have hworkmem : work ∈ s.pending := by rw [hpend]; exact List.mem_cons_self
  have hnext : (s.give work .running).registry.nextSequence = s.registry.nextSequence := by
    simp [Sys.give]
  cases c with
  | waiting handle =>
    obtain ⟨hk, hst⟩ := hown
    rw [observe_waiting]
    rcases hst with ⟨hf, hnone⟩ | ⟨hlive, w, hwp, hseq, hsd, hfin⟩
    · rw [if_neg (hnone work hworkmem).symm]
      exact ⟨hnext ▸ hk, .inl ⟨hf, fun v hv => hnone v (by rw [hpend]; exact hv)⟩⟩
    · have hfalse : shutdownFailed s.history = true → False := by
        intro hf
        obtain ⟨error, hfx⟩ := hfin hf
        rw [hx] at hfx
        cases hfx
      have hwp' : w ∈ work :: s.queue := hpend ▸ hwp
      split
      · exact ⟨hnext ▸ hk, .inr ⟨rfl, w, hwp', hseq, hsd, fun hf => (hfalse hf).elim⟩⟩
      · exact ⟨hnext ▸ hk, .inr ⟨hlive, w, hwp', hseq, hsd, fun hf => (hfalse hf).elim⟩⟩
  | permitted => exact hown
  | awaitingExit => exact hown
  | submitted result => cases result <;> trivial
  | shutDown result =>
    cases result with
    | ok u => exact hown
    | error e => trivial
  | _ => exact hown

theorem OwnKept.of_settle {work : ExecutorWork} {state : OperationState} {p : Phase}
    {index : Nat} {c : Caller} (hi : Inv cfg s) (hw : s.executor.inHand = some work)
    (hp : p.inHand = none) (hc : s.callers[index]? = some c) (hown : Own s c)
    (hfail : work.command.isShutdown = true →
      (shutdownFailed s.history = true → ∃ error, s.executor = .finished work (.error error)) →
      ∃ error, state = .failed error) :
    OwnKept index { s.give work state with executor := p } := by
  have hmem : work ∈ s.pending := by
    rw [Inv.pending_of_inHand hw]; exact List.mem_cons_self
  exact ⟨_, callers_give state hi hmem hc, own_settle hi hw hp hown hfail⟩

theorem own_advance {index : Nat} {c : Caller} (hi : Inv cfg s) (hu : Unfinished s)
    (hc : s.callers[index]? = some c) (hown : Own s c) (ht : s.advance = some t) :
    OwnKept index t := by
  have hphase := hu.phase
  unfold Sys.advance at ht
  cases hx : s.executor with
  | idle =>
    have hpend : s.pending = s.queue := by rw [Sys.pending, hx]; rfl
    simp only [hx] at ht
    split at ht
    · rename_i hq
      cases ht
      exact ⟨c, hc, hown.mono (grows_turn (by rfl) id (by rw [hpend, hq]; rfl) (by rw [hx]; rfl))⟩
    · split at ht
      · cases ht
      · cases ht
        exact ⟨c, hc, hown.mono (grows_turn (by rfl) id hpend.symm (by rw [hx]; rfl))⟩
  | dequeued work =>
    have hpend : s.pending = work :: s.queue := by rw [Sys.pending, hx]; rfl
    simp only [hx] at ht
    split at ht <;> cases ht <;>
      exact ⟨c, hc, hown.mono (grows_turn (by rfl) id hpend.symm (by rw [hx]; rfl))⟩
  | refusing work =>
    simp only [hx] at ht
    cases ht
    exact .of_settle hi (by rw [hx]; rfl) rfl hc hown fun _ _ => ⟨_, rfl⟩
  | starting work =>
    have hmem : work ∈ s.pending := by
      rw [Inv.pending_of_inHand (by rw [hx]; rfl)]; exact List.mem_cons_self
    simp only [hx] at ht
    cases ht
    exact ⟨_, callers_give _ hi hmem hc, own_start hx hown⟩
  | executing work => simp only [hx] at ht; cases ht
  | finished work result =>
    simp only [hx] at ht
    cases ht
    simp only [FailedFirst, hx] at hphase
    refine .of_settle hi (by rw [hx]; rfl) (by split <;> rfl) hc hown fun hsd _ => ?_
    obtain ⟨-, error, rfl⟩ := hphase hsd
    exact ⟨error, rfl⟩
  | panicked work join =>
    simp only [hx] at ht
    cases ht
    exact .of_settle hi (by rw [hx]; rfl) rfl hc hown fun _ _ => ⟨_, rfl⟩
  | dying =>
    have hpend : s.pending = s.queue := by rw [Sys.pending, hx]; rfl
    simp only [hx] at ht
    cases ht
    exact ⟨c, hc, hown.mono (grows_turn (by rfl) id hpend.symm (by rw [hx]; rfl))⟩
  | closingQueue exit =>
    have hpend : s.pending = s.queue := by rw [Sys.pending, hx]; rfl
    simp only [hx] at ht
    cases ht
    exact ⟨c, hc, hown.mono (grows_turn (by rfl) (fun _ => rfl) hpend.symm (by rw [hx]; rfl))⟩
  | draining exit =>
    have hpend : s.pending = s.queue := by rw [Sys.pending, hx]; rfl
    simp only [hx] at ht
    split at ht
    · rename_i hq
      cases ht
      exact ⟨c, hc, hown.mono (grows_turn (by rfl) id (by rw [hpend, hq]; rfl) (by rw [hx]; rfl))⟩
    · split at ht
      · cases ht
        exact ⟨c, hc, hown.mono (grows_turn (by rfl) id hpend.symm (by rw [hx]; rfl))⟩
      · cases ht
  | drained exit work =>
    simp only [hx] at ht
    cases ht
    refine .of_settle hi (by rw [hx]; rfl) rfl hc hown fun _ hfin => ?_
    cases exit with
    | died => exact ⟨_, rfl⟩
    | clean =>
      -- a failure that ends the loop was not this operation's, which never ran
      simp only [FailedFirst, hx] at hphase
      obtain ⟨error, hfx⟩ := hfin hphase
      rw [hx] at hfx
      cases hfx
  | returned exit =>
    have hpend : s.pending = s.queue := by rw [Sys.pending, hx]; rfl
    simp only [hx] at ht
    cases ht
    exact ⟨c, hc, hown.mono (grows_turn (by rfl) id hpend.symm (by rw [hx]; rfl))⟩
  | exited exit => simp only [hx] at ht; cases ht

def isExited : Phase → Bool
  | .exited _ => true
  | _ => false

theorem unfinished_advance (hu : Unfinished s) (ht : s.advance = some t) : Unfinished t := by
  obtain ⟨hattached, hdone, hphase⟩ := hu
  have early (hne : isExited s.executor = false) (hd : s.done = true) (p : Phase) :
      p = .exited .clean := by
    rw [hdone hd] at hne; cases hne
  unfold Sys.advance at ht
  cases hx : s.executor with
  | idle =>
    simp only [hx] at ht
    split at ht
    · cases ht
      exact ⟨hattached, fun hd => early (by rw [hx]; rfl) hd _, trivial⟩
    · rw [hattached] at ht
      cases ht
  | dequeued work =>
    simp only [hx] at ht
    split at ht <;> cases ht <;>
      exact ⟨hattached, fun hd => early (by rw [hx]; rfl) hd _, trivial⟩
  | finished work result =>
    simp only [hx] at ht
    cases ht
    simp only [FailedFirst, hx] at hphase
    refine ⟨hattached, fun hd => early (by rw [hx]; rfl) hd _, ?_⟩
    split
    · rename_i hsd
      exact shutdownFailed_cons (hphase hsd).1
    · trivial
  | executing work => simp only [hx] at ht; cases ht
  | closingQueue exit =>
    simp only [hx] at ht
    cases ht
    refine ⟨hattached, fun hd => early (by rw [hx]; rfl) hd _, ?_⟩
    cases exit with
    | died => trivial
    | clean => simpa only [FailedFirst, hx] using hphase
  | draining exit =>
    simp only [hx] at ht
    repeat' split at ht
    all_goals cases ht
    all_goals refine ⟨hattached, fun hd => early (by rw [hx]; rfl) hd _, ?_⟩
    all_goals cases exit with
      | died => trivial
      | clean => simpa only [FailedFirst, hx] using hphase
  | drained exit work =>
    simp only [hx] at ht
    cases ht
    refine ⟨hattached, fun hd => early (by rw [hx]; rfl) hd _, ?_⟩
    cases exit with
    | died => trivial
    | clean =>
      simp only [FailedFirst, hx] at hphase
      exact shutdownFailed_cons hphase
  | returned exit =>
    simp only [hx] at ht
    cases ht
    cases exit with
    | died => exact ⟨hattached, nofun, trivial⟩
    | clean =>
      simp only [FailedFirst, hx] at hphase
      exact ⟨hattached, fun _ => rfl, hphase⟩
  | exited exit => simp only [hx] at ht; cases ht
  | _ =>
    simp only [hx] at ht
    cases ht
    exact ⟨hattached, fun hd => early (by rw [hx]; rfl) hd _, trivial⟩

theorem shutdownFailed_ended {work : ExecutorWork} {reply : Reply} {history : List Event}
    (h : work.command.isShutdown = false) :
    shutdownFailed (.ended work reply :: history) = shutdownFailed history := by
  have hne : (Event.ended work reply).isShutdownFailure = false := by
    unfold Event.isShutdownFailure
    split
    · rename_i heq
      cases heq
      exact h
    · rfl
  simp only [shutdownFailed, List.any_cons, hne, Bool.false_or]

/-- The end of the running operation: a `manager.shutdown()` that succeeded, or
nothing that frees the service. -/
theorem unfinished_finish {reply : Reply} (hu : Unfinished s) (ht : s.finish reply = some t) :
    hasShutDown t.history = true ∨ Unfinished t := by
  obtain ⟨hattached, hdone, hphase⟩ := hu
  obtain ⟨work, hx, hcases⟩ := finish_cases ht
  have early (hd : s.done = true) (p : Phase) : p = .exited .clean := by
    have := hdone hd
    rw [hx] at this
    cases this
  obtain ⟨join, -, rfl⟩ | ⟨result, hresult, rfl⟩ := hcases
  · exact .inr ⟨hattached, fun hd => early hd _, trivial⟩
  · cases hsd : work.command.isShutdown with
    | false =>
      refine .inr ⟨hattached, fun hd => early hd _, fun hs => ?_⟩
      rw [hsd] at hs
      cases hs
    | true =>
      rcases (execute_cases hresult).2 hsd with hok | ⟨error, reported, rfl, rfl⟩
      · exact .inl (by simp [hasShutDown, hok])
      · refine .inr ⟨hattached, fun hd => early hd _, fun _ => ⟨?_, reported, rfl⟩⟩
        simp [shutdownFailed, Event.isShutdownFailure, hsd]

/-- The end of an operation as the service's caller sees it, on the terms of
the guard: a shutdown that fails does not leave the service's own behind it. -/
theorem own_finish {reply : Reply} {c : Caller} (hi : Inv cfg s) (hown : Own s c)
    (hguard : ∀ error work, reply = .answered (.error error) → s.executor = .executing work →
      work.command.isShutdown = true → c ≠ .permitted ∧
        ∀ handle, c = .waiting handle →
          handle.state.isTerminal = true ∨ handle.sequence = work.sequence)
    (ht : s.finish reply = some t) (hok : hasShutDown t.history = false) : Own t c := by
  obtain ⟨work, hx, hcases⟩ := finish_cases ht
  have hpend : s.pending = work :: s.queue := by rw [Sys.pending, hx]; rfl
  have hfin : isFinished s.executor = false := by rw [hx]; rfl
  obtain ⟨join, rfl, rfl⟩ | ⟨result, hresult, rfl⟩ := hcases
  · exact hown.mono (grows_turn (by rfl) id hpend.symm hfin)
  · cases hsd : work.command.isShutdown with
    | false => exact hown.mono (grows_turn (shutdownFailed_ended hsd) id hpend.symm hfin)
    | true =>
      rcases (execute_cases hresult).2 hsd with hok' | ⟨error, reported, rfl, rfl⟩
      · simp [hasShutDown, hok'] at hok
      · obtain ⟨hpermit, hwait⟩ := hguard error work rfl hx hsd
        cases c with
        | permitted => exact absurd rfl hpermit
        | awaitingExit =>
          have hrecv := hi.receiving
          rw [hown.2, hx] at hrecv
          cases hrecv
        | waiting handle =>
          obtain ⟨hk, hst⟩ := hown
          rcases hst with ⟨hf, hnone⟩ | ⟨hlive, w, hw, hseq, hws, -⟩
          · exact ⟨hk, .inl ⟨hf, fun v hv => hnone v (by rw [hpend]; exact hv)⟩⟩
          · refine ⟨hk, .inr ⟨hlive, w, by rw [hpend] at hw; exact hw, hseq, hws, fun _ => ?_⟩⟩
            have hmine : handle.sequence = work.sequence := by
              rcases hwait handle rfl with hterm | hmine
              · rw [hlive] at hterm; cases hterm
              · exact hmine
            have hmem : work ∈ s.pending := by rw [hpend]; exact List.mem_cons_self
            rw [pending_unique hi hw hmem (hseq.trans hmine)]
            exact ⟨reported, rfl⟩
        | shutDown result =>
          cases result with
          | ok u => exact hown
          | error e => trivial
        | _ => trivial

/-! ## The composition -/

/-- A step of the host takes at most one step of the control plane. -/
theorem host_sys_step {a : HostAction} (ht : h.step cfg a = some h') :
    h'.sys = h.sys ∨ ∃ action, h.sys.step cfg action = some h'.sys := by
  cases a with
  | control action =>
    cases action with
    | detach => cases ht
    | cancel index =>
      simp only [Host.step] at ht
      split at ht
      · cases ht
      · obtain ⟨sys, hs, rfl⟩ := Option.map_eq_some_iff.mp ht
        exact .inr ⟨_, hs⟩
    | _ =>
      obtain ⟨sys, hs, rfl⟩ := Option.map_eq_some_iff.mp ht
      exact .inr ⟨_, hs⟩
  | shutdown =>
    simp only [Host.step] at ht
    split at ht
    · obtain ⟨sys, hs, rfl⟩ := Option.map_eq_some_iff.mp ht
      exact .inr ⟨_, hs⟩
    · cases ht
  | wake =>
    simp only [Host.step] at ht
    split at ht
    · obtain ⟨sys, hs, rfl⟩ := Option.map_eq_some_iff.mp ht
      exact .inr ⟨_, hs⟩
    · cases ht
  | timeout =>
    simp only [Host.step] at ht
    split at ht
    · obtain ⟨sys, hs, rfl⟩ := Option.map_eq_some_iff.mp ht
      exact .inr ⟨_, hs⟩
    · cases ht
  | _ =>
    simp only [Host.step] at ht
    repeat' split at ht
    all_goals first
      | (cases ht; done)
      | (cases ht; exact .inl rfl)

theorem host_inv (hr : (hostMachine cfg).Reachable h) : Inv cfg h.sys := by
  refine hr.invariant (I := fun h => Inv cfg h.sys) (inv_init cfg) fun h a h' hi _ hs => ?_
  rcases host_sys_step hs with he | ⟨action, hstep⟩
  · rw [he]; exact hi
  · exact inv_step hi hstep

/-- History only grows. -/
theorem hasShutDown_step {a : Action} (ht : s.step cfg a = some t)
    (hok : hasShutDown s.history = true) : hasShutDown t.history = true := by
  cases step_effect ht with
  | calls => exact hok
  | caller _ hs =>
    rcases (callerStep_offers hs).grows with ⟨-, hh⟩ | ⟨work, -, hh, -⟩ <;> simp only [hh]
    · exact hok
    · exact hasShutDown_cons hok
  | advance ha =>
    unfold Sys.advance at ha
    repeat' split at ha
    all_goals first
      | (cases ha; done)
      | (cases ha; exact hok)
  | finish hf =>
    obtain ⟨work, -, ⟨join, -, rfl⟩ | ⟨result, -, rfl⟩⟩ := finish_cases hf
    · exact hasShutDown_cons hok
    · exact hasShutDown_cons hok

theorem OwnKept.of_append {index : Nat} {caller : Caller} (hk : OwnKept index s) :
    OwnKept index { s with callers := s.callers ++ [caller] } := by
  obtain ⟨c, hc, hown⟩ := hk
  refine ⟨c, ?_, hown.mono (grows_calls _ s.attached)⟩
  obtain ⟨hlt, -⟩ := List.getElem?_eq_some_iff.mp hc
  exact (List.getElem?_append_left hlt).trans hc

theorem OwnKept.of_callShutdown {callers : List Caller} {attached : Bool} :
    OwnKept callers.length { s with callers := callers ++ [.closing], attached } :=
  ⟨.closing, by simp, trivial⟩

theorem Unfinished.of_callers (hu : Unfinished s) {callers : List Caller} :
    Unfinished { s with callers } :=
  ⟨hu.attached, hu.done, hu.phase⟩

theorem Unfinished.caller {index : Nat} {fresh : OperationId} {c c' : Caller} {s' : Sys}
    (hu : Unfinished s) (hs : s.callerStep cfg fresh c = some (c', s')) :
    Unfinished { s' with callers := s'.callers.set index c' } := by
  have ho := callerStep_offers hs
  have hg := grows_caller (s'.callers.set index c') hs
  have hdone : s'.done = s.done := by
    cases callerStep_effect hs <;> rfl
  refine ⟨ho.attached.trans hu.attached, fun hd => ?_, ?_⟩
  · exact ho.executor.trans (hu.done (hdone ▸ hd))
  · have hp := hu.phase
    unfold FailedFirst at hp ⊢
    simp only [ho.executor]
    have hf : shutdownFailed s'.history = shutdownFailed s.history := hg.failed
    simp only [hf]
    exact hp

/-- What the guard says about the step of a caller. -/
theorem unshadowed_caller {index : Nat} {fresh : OperationId} {c : Caller}
    (hg : h.unshadowed (.control (.caller index fresh)) = true)
    (hservice : h.service = .calling index) (hc : h.sys.callers[index]? = some c) :
    (c = .reserving → shutdownFailed h.sys.history = false) ∧
      (c = .permitted → h.sys.registry.operations.lookup fresh = none) := by
  simp only [Host.unshadowed, hservice, if_true, hc] at hg
  refine ⟨?_, ?_⟩
  · rintro rfl
    simpa using hg
  · rintro rfl
    simpa using hg

theorem unshadowed_finish {index : Nat} {c : Caller} {reply : Reply}
    (hg : h.unshadowed (.control (.finish reply)) = true)
    (hservice : h.service = .calling index) (hc : h.sys.callers[index]? = some c)
    {error : Error} {work : ExecutorWork} (hr : reply = .answered (.error error))
    (hx : h.sys.executor = .executing work) (hsd : work.command.isShutdown = true) :
    c ≠ .permitted ∧ ∀ handle, c = .waiting handle →
      handle.state.isTerminal = true ∨ handle.sequence = work.sequence := by
  subst hr
  simp only [Host.unshadowed, hservice, hx, hsd, if_true, hc] at hg
  refine ⟨?_, ?_⟩
  · rintro rfl
    cases hg
  · rintro handle rfl
    simpa using hg

theorem pends_control {action : Action} (hi : Inv cfg h.sys) (hp : Pends h)
    (hg : h.unshadowed (.control action) = true) (ht : h.step cfg (.control action) = some h') :
    h'.stopped = true ∨ Pends h' := by
  cases action with
  | detach => cases ht
  | cancel index =>
    simp only [Host.step] at ht
    split at ht
    · cases ht
    · rename_i hother
      obtain ⟨sys, hs, rfl⟩ := Option.map_eq_some_iff.mp ht
      have hsys : sys = { h.sys with callers := h.sys.callers.set index .cancelled } := by
        simp only [Sys.step] at hs
        split at hs <;> cases hs <;> rfl
      subst hsys
      refine .inr ⟨hp.sys.of_callers, hp.returned, fun i hi => ?_⟩
      obtain ⟨c, hc, hown⟩ := hp.own i hi
      have hne : index ≠ i := by rintro rfl; exact hother hi
      exact ⟨c, (List.getElem?_set_ne hne).trans hc,
        hown.mono (grows_calls _ h.sys.attached)⟩
  | callSubmit envelope =>
    obtain ⟨sys, hs, rfl⟩ := Option.map_eq_some_iff.mp ht
    cases (if_pos hp.sys.attached).symm.trans hs
    exact .inr ⟨hp.sys.of_callers, hp.returned, fun i hi => (hp.own i hi).of_append⟩
  | callShutdown =>
    obtain ⟨sys, hs, rfl⟩ := Option.map_eq_some_iff.mp ht
    cases (if_pos hp.sys.attached).symm.trans hs
    exact .inr ⟨hp.sys.of_callers, hp.returned, fun i hi => (hp.own i hi).of_append⟩
  | caller index fresh =>
    obtain ⟨sys, hs, rfl⟩ := Option.map_eq_some_iff.mp ht
    simp only [Sys.step] at hs
    split at hs
    · rename_i c hc
      obtain ⟨⟨c', s'⟩, hstep, rfl⟩ := Option.map_eq_some_iff.mp hs
      have hcallers := (callerStep_offers hstep).callers
      refine .inr ⟨hp.sys.caller hstep, hp.returned, fun i hcall => ?_⟩
      obtain ⟨own, hget, hown⟩ := hp.own i hcall
      by_cases hmine : index = i
      · subst hmine
        rw [hc] at hget
        cases hget
        obtain ⟨hreserve, hfresh⟩ := unshadowed_caller hg hcall hc
        refine ⟨c', ?_, own_callerStep _ hp.sys hown hreserve hfresh hstep⟩
        obtain ⟨hlt, -⟩ := List.getElem?_eq_some_iff.mp hc
        simp [hcallers, hlt]
      · refine ⟨own, ?_, hown.mono (grows_caller _ hstep)⟩
        simp only [hcallers]
        exact (List.getElem?_set_ne hmine).trans hget
    · cases hs
  | advance =>
    obtain ⟨sys, hs, rfl⟩ := Option.map_eq_some_iff.mp ht
    refine .inr ⟨unfinished_advance hp.sys hs, hp.returned, fun i hcall => ?_⟩
    obtain ⟨c, hc, hown⟩ := hp.own i hcall
    exact own_advance hi hp.sys hc hown hs
  | finish reply =>
    obtain ⟨sys, hs, rfl⟩ := Option.map_eq_some_iff.mp ht
    cases hok : hasShutDown sys.history with
    | true => exact .inl (by simp [Host.stopped, hok])
    | false =>
      refine .inr ⟨(unfinished_finish hp.sys hs).resolve_left (by simp [hok]), hp.returned,
        fun i hcall => ?_⟩
      obtain ⟨c, hc, hown⟩ := hp.own i hcall
      refine ⟨c, ?_, own_finish hi hown (fun e w => unshadowed_finish hg hcall hc) hs hok⟩
      obtain ⟨work, -, ⟨join, -, rfl⟩ | ⟨result, -, rfl⟩⟩ := finish_cases hs
      · exact hc
      · exact hc

/-- A new call starts at the latch. -/
theorem pends_call (hp : Pends h) (ht : h.call cfg = some h') : Pends h' := by
  obtain ⟨sys, hs, rfl⟩ := Option.map_eq_some_iff.mp ht
  cases (if_pos hp.sys.attached).symm.trans hs
  refine ⟨hp.sys.of_callers, nofun, fun i hcall => ?_⟩
  cases hcall
  exact .of_callShutdown

theorem pends_step {a : HostAction} (hi : Inv cfg h.sys) (hp : Pends h)
    (hg : h.unshadowed a = true) (ht : h.step cfg a = some h') :
    h'.stopped = true ∨ Pends h' := by
  cases a with
  | control action => exact pends_control hi hp hg ht
  | shutdown =>
    simp only [Host.step] at ht
    split at ht
    · exact .inr (pends_call hp ht)
    · cases ht
  | wake =>
    simp only [Host.step] at ht
    split at ht
    · exact .inr (pends_call hp ht)
    · cases ht
  | settle =>
    simp only [Host.step] at ht
    split at ht
    · rename_i index hcall
      obtain ⟨c, hc, hown⟩ := hp.own index hcall
      rw [hc] at ht
      split at ht
      · rename_i heq
        cases heq
        exact hown.elim
      · cases ht
        exact .inr ⟨hp.sys, (by rintro ⟨⟩), (by rintro _ ⟨⟩)⟩
      · cases ht
    · cases ht
  | timeout =>
    simp only [Host.step] at ht
    split at ht
    · rename_i index hcall
      obtain ⟨sys, hs, rfl⟩ := Option.map_eq_some_iff.mp ht
      have hsys : sys = { h.sys with callers := h.sys.callers.set index .cancelled } := by
        simp only [Sys.step] at hs
        split at hs <;> cases hs <;> rfl
      subst hsys
      exact .inr ⟨hp.sys.of_callers, (by rintro ⟨⟩), (by rintro _ ⟨⟩)⟩
    · cases ht
  | consult =>
    simp only [Host.step] at ht
    split at ht
    · cases ht
      refine .inr ⟨hp.sys, ?_, fun i hcall => ?_⟩
      · dsimp only
        split <;> rintro ⟨⟩
      · dsimp only at hcall
        split at hcall <;> cases hcall
    · cases ht
  | exited =>
    simp only [Host.step] at ht
    split at ht
    · split at ht
      · cases ht
        exact .inr ⟨hp.sys, (by rintro ⟨⟩), (by rintro _ ⟨⟩)⟩
      · cases ht
    · cases ht
  | answer result =>
    simp only [Host.step] at ht
    split at ht
    · cases ht
      cases result with
      | ok u => exact .inl (by simp [Host.stopped, Except.toBool])
      | error e => exact .inr ⟨hp.sys, (by rintro ⟨⟩), (by rintro _ ⟨⟩)⟩
    · cases ht
  | retry =>
    simp only [Host.step] at ht
    split at ht
    · cases ht
      exact .inr ⟨hp.sys, (by rintro ⟨⟩), (by rintro _ ⟨⟩)⟩
    · cases ht

theorem direct_step {a : HostAction} (ht : h.step cfg a = some h') :
    h.direct.any Except.isOk = true → h'.direct.any Except.isOk = true := by
  intro hok
  cases a with
  | answer result =>
    simp only [Host.step] at ht
    split at ht
    · cases ht
      simp [hok]
    · cases ht
  | control action =>
    cases action with
    | detach => cases ht
    | cancel index =>
      simp only [Host.step] at ht
      split at ht
      · cases ht
      · obtain ⟨sys, -, rfl⟩ := Option.map_eq_some_iff.mp ht
        exact hok
    | _ =>
      obtain ⟨sys, -, rfl⟩ := Option.map_eq_some_iff.mp ht
      exact hok
  | _ =>
    simp only [Host.step, Host.call] at ht
    repeat' split at ht
    all_goals first
      | (cases ht; done)
      | (cases ht; exact hok)
      | (obtain ⟨sys, -, rfl⟩ := Option.map_eq_some_iff.mp ht; exact hok)

theorem stopped_step {a : HostAction} (ht : h.step cfg a = some h') (hok : h.stopped = true) :
    h'.stopped = true := by
  rcases Bool.or_eq_true_iff.mp hok with hsd | hdirect
  · have hsd' : hasShutDown h'.sys.history = true := by
      rcases host_sys_step ht with he | ⟨action, hs⟩
      · rw [he]; exact hsd
      · exact hasShutDown_step hs hsd
    simp [Host.stopped, hsd']
  · simp [Host.stopped, direct_step ht hdirect]

theorem pends_init : Pends .init :=
  ⟨⟨rfl, nofun, trivial⟩, nofun, nofun⟩

/-- The service stays until the core is really stopped, as long as its own
shutdown is kept apart from one that failed before. -/
theorem shutdown_waits_for_stop {cfg : Config} {h : Host}
    (hr : (hostMachine cfg).ReachableBy (fun h a => h.unshadowed a = true) h)
    (hret : h.service = .returned) : h.stopped = true := by
  have hinv : h.stopped = true ∨ Pends h := by
    refine hr.invariant_of (J := fun h => Inv cfg h.sys) (I := fun h => h.stopped = true ∨ Pends h)
      (fun _ => host_inv) (.inr pends_init) fun h a h' hi hp hg hs => ?_
    rcases hp with hok | hp
    · exact .inl (stopped_step hs hok)
    · exact pends_step hi hp hg hs
  exact hinv.resolve_right fun hp => hp.returned hret

/-- The executor's shutdown fails; the service sees the failure and the closed
queue, and retries by itself until `manager.shutdown()` succeeds. -/
def failsAndRetries : List HostAction :=
  let fresh : OperationId := ⟨1, 1, 1⟩
  [.shutdown, .control (.caller 0 fresh), .control (.caller 0 fresh), .control (.caller 0 fresh),
    .control .advance, .control .advance, .control .advance,
    .control (.finish (.answered (.error (.stopUnconfirmed "core-1.pid")))), .control .advance,
    .control (.caller 0 fresh), .settle, .control .advance, .consult,
    .answer (.error (.stopUnconfirmed "core-1.pid")), .retry, .answer (.ok ())]

theorem failsAndRetries_stopped :
    ∃ h, ((hostMachine twoSlots).guarded Host.unshadowed).run .init failsAndRetries = some h ∧
      h.service = .returned ∧ h.stopped = true := by
  have hrun : (((hostMachine twoSlots).guarded Host.unshadowed).run .init failsAndRetries).map
      Host.service = some .returned := by decide +kernel
  obtain ⟨h, hs, hret⟩ := Option.map_eq_some_iff.mp hrun
  exact ⟨h, hs, hret, shutdown_waits_for_stop (Machine.guarded_run_reachable .init hs) hret⟩

/-- The same failure with the queue not yet closed: the service sleeps, the
executor exits cleanly in the meantime, and the second `control.shutdown()`
takes that exit for a shutdown. -/
def failsAndBelieves : List HostAction :=
  let first : OperationId := ⟨1, 1, 1⟩
  let second : OperationId := ⟨2, 1, 2⟩
  [.shutdown, .control (.caller 0 first), .control (.caller 0 first), .control (.caller 0 first),
    .control .advance, .control .advance, .control .advance,
    .control (.finish (.answered (.error (.stopUnconfirmed "core-1.pid")))), .control .advance,
    .control (.caller 0 first), .settle, .consult, .control .advance, .control .advance,
    .control .advance, .wake, .control (.caller 1 second), .control (.caller 1 second),
    .control (.caller 1 second), .settle]

theorem shutdown_returns_unstopped :
    ((hostMachine twoSlots).run .init failsAndBelieves).map
      (fun h => (h.service, h.stopped)) = some (.returned, false) := by
  decide +kernel

end Chimera.Service
