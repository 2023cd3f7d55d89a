import Chimera.Control.History

/-! Whether `Succeeded(ShutDown)` is the truth. The executor publishes it for a
`Shutdown` whose `manager.shutdown()` returned `Ok`, and the drain publishes it
for every `Shutdown` still queued, on the word that the one that ran
accomplished them. The one that ran ends the loop whether or not it succeeded. -/

namespace Chimera.Control
open Chimera.Model Chimera.Lib.Transition

variable {cfg : Config} {s t : Sys}

/-- A call to `manager.shutdown()` made by the executor returned `Ok`. -/
def Event.isShutDown : Event → Bool
  | .ended work (.answered (.ok ())) => work.command.isShutdown
  | _ => false

/-- A call to `manager.shutdown()` made by the executor returned an error. -/
def Event.isShutdownFailure : Event → Bool
  | .ended work (.answered (.error _)) => work.command.isShutdown
  | _ => false

def hasShutDown (history : List Event) : Bool := history.any Event.isShutDown

def shutdownFailed (history : List Event) : Bool := history.any Event.isShutdownFailure

/-- `Succeeded(ShutDown)` is given only after a `manager.shutdown()` returned
`Ok`. -/
def truthful : List Event → Bool
  | [] => true
  | .given _ (.succeeded .shutDown) :: older => hasShutDown older && truthful older
  | _ :: older => truthful older

/-- The caller's next step registers a `Shutdown`. -/
def Sys.registersShutdown (cfg : Config) (s : Sys) (fresh : OperationId) : Caller → Bool
  | .admitting envelope => envelope.command.isShutdown &&
      (s.registry.operations.lookup envelope.operationId).isNone && (s.trySend cfg).isOk
  | .permitted => (s.registry.operations.lookup fresh).isNone
  | _ => false

/-- The steps that leave no `Shutdown` behind a failed one: none is queued when
`manager.shutdown()` fails, and none is registered afterwards. -/
def Sys.unshadowed (cfg : Config) (s : Sys) : Action → Bool
  | .finish (.answered (.error _)) =>
    match s.executor with
    | .executing work => !work.command.isShutdown ||
        s.queue.all fun queued => !queued.command.isShutdown
    | _ => true
  | .caller index fresh => !shutdownFailed s.history ||
      (s.callers[index]?.all fun c => !s.registersShutdown cfg fresh c)
  | _ => true

/-! ## What the end of the loop rests on -/

/-- No `Shutdown` waits in the queue. -/
def Sys.NoneQueued (s : Sys) : Prop := ∀ w ∈ s.queue, w.command.isShutdown = false

/-- Every queued `Shutdown` was accomplished, or there is none and none can
come. -/
def Sys.Accomplished (s : Sys) : Prop :=
  hasShutDown s.history = true ∨
    s.NoneQueued ∧ (shutdownFailed s.history = true ∨ s.attached = false)

/-- What each phase of the executor has established. -/
def Sys.PhaseTruth (s : Sys) : Prop :=
  match s.executor with
  | .finished work result =>
    (result = .ok .shutDown → hasShutDown s.history = true) ∧
      (work.command.isShutdown = true → s.Accomplished)
  | .closingQueue .clean | .draining .clean => s.Accomplished
  | .drained .clean work =>
    (work.command.isShutdown = true → hasShutDown s.history = true) ∧ s.Accomplished
  | _ => True

structure Truth (s : Sys) : Prop where
  truthful : truthful s.history = true
  phase : s.PhaseTruth
  /-- Without a `CoreControl` there is no call under way. -/
  detached : s.attached = false → s.callers.all Caller.isOver = true

theorem truth_init : Truth .init := ⟨rfl, trivial, fun h => by cases h⟩

/-! ## Steps of the callers -/

/-- What a caller's step does to the queue and the history. -/
structure Offers (cfg : Config) (s : Sys) (fresh : OperationId) (c : Caller) (s' : Sys) :
    Prop where
  executor : s'.executor = s.executor
  attached : s'.attached = s.attached
  callers : s'.callers = s.callers
  grows : s'.queue = s.queue ∧ s'.history = s.history ∨
    ∃ work, s'.queue = s.queue ++ [work] ∧ s'.history = .registered work :: s.history ∧
      (work.command.isShutdown = true → s.registersShutdown cfg fresh c = true)

theorem resolveLocalIpc_isShutdown (cfg : Config) (command : CoreCommand) :
    (command.resolveLocalIpc cfg).isShutdown = command.isShutdown := by
  cases command <;> rfl

theorem callerStep_offers {fresh : OperationId} {c c' : Caller} {s' : Sys}
    (h : s.callerStep cfg fresh c = some (c', s')) : Offers cfg s fresh c s' := by
  cases c with
  | submitting envelope =>
    cases hc : s.closing <;> simp only [Sys.callerStep, Sys.submitStep, hc] at h <;> cases h <;>
      exact ⟨rfl, rfl, rfl, .inl ⟨rfl, rfl⟩⟩
  | admitting envelope =>
    simp only [Sys.callerStep, Sys.submitStep] at h
    cases hadm : s.registry.admitOperation cfg.capacity envelope.operationId
        (envelope.command.resolveLocalIpc cfg).payloadDigest (s.trySend cfg) with
    | mk result registry =>
      rw [hadm] at h
      rcases result with error | ⟨a⟩ | ⟨a⟩
      · cases h; exact ⟨rfl, rfl, rfl, .inl ⟨rfl, rfl⟩⟩
      · obtain ⟨hok, hnew, -, -⟩ := admit_registered hadm
        have hs' : s' = { s with registry }.enqueue
            ⟨envelope.operationId, envelope.command.resolveLocalIpc cfg, a.sequence⟩ := by
          cases hsd : (envelope.command.resolveLocalIpc cfg).isShutdown <;>
            simp only [hsd, if_true, Bool.false_eq_true, if_false, Option.some.injEq,
              Prod.mk.injEq] at h <;>
            exact h.2.symm
        subst hs'
        refine ⟨rfl, rfl, rfl, .inr ⟨_, rfl, rfl, fun hs => ?_⟩⟩
        rw [resolveLocalIpc_isShutdown] at hs
        simp [Sys.registersShutdown, hs, hnew, hok, Except.toBool]
      · cases h; exact ⟨rfl, rfl, rfl, .inl ⟨rfl, rfl⟩⟩
  | permitted =>
    simp only [Sys.callerStep, Sys.submitStep, Sys.shutdownStep] at h
    cases hadm : s.registry.admitOperation cfg.capacity fresh CoreCommand.shutdown.payloadDigest
        (.ok ()) with
    | mk result registry =>
      rw [hadm] at h
      rcases result with error | ⟨a⟩ | ⟨a⟩
      · cases h; exact ⟨rfl, rfl, rfl, .inl ⟨rfl, rfl⟩⟩
      · obtain ⟨-, hnew, -, -⟩ := admit_registered hadm
        cases h
        exact ⟨rfl, rfl, rfl, .inr ⟨_, rfl, rfl, fun _ => by simp [Sys.registersShutdown, hnew]⟩⟩
      · cases h; exact ⟨rfl, rfl, rfl, .inl ⟨rfl, rfl⟩⟩
  | _ =>
    simp only [Sys.callerStep, Sys.submitStep, Sys.shutdownStep] at h
    repeat' split at h
    all_goals cases h
    all_goals exact ⟨rfl, rfl, rfl, .inl ⟨rfl, rfl⟩⟩

theorem callerStep_isOver {fresh : OperationId} {c : Caller} (h : c.isOver = true) :
    s.callerStep cfg fresh c = none := by
  cases c <;> first | rfl | cases h

theorem hasShutDown_cons {e : Event} {h : List Event} (hh : hasShutDown h = true) :
    hasShutDown (e :: h) = true := by
  simp [hasShutDown] at hh ⊢
  exact .inr hh

theorem shutdownFailed_cons {e : Event} {h : List Event} (hh : shutdownFailed h = true) :
    shutdownFailed (e :: h) = true := by
  simp [shutdownFailed] at hh ⊢
  exact .inr hh

/-- A step that keeps the executor where it is. -/
theorem Sys.PhaseTruth.mono (h : s.PhaseTruth) (hx : t.executor = s.executor)
    (hok : hasShutDown s.history = true → hasShutDown t.history = true)
    (hacc : s.Accomplished → t.Accomplished) : t.PhaseTruth := by
  unfold Sys.PhaseTruth at *
  rw [hx]
  split
  · rename_i work result heq
    rw [heq] at h
    exact ⟨fun hr => hok (h.1 hr), fun hs => hacc (h.2 hs)⟩
  · rename_i heq
    rw [heq] at h
    exact hacc h
  · rename_i heq
    rw [heq] at h
    exact hacc h
  · rename_i work heq
    rw [heq] at h
    exact ⟨fun hs => hok (h.1 hs), hacc h.2⟩
  · trivial

theorem Truth.caller {index : Nat} {fresh : OperationId} {c c' : Caller} {s' : Sys} (h : Truth s)
    (hg : s.unshadowed cfg (.caller index fresh) = true) (hc : s.callers[index]? = some c)
    (hs : s.callerStep cfg fresh c = some (c', s')) :
    Truth { s' with callers := s'.callers.set index c' } := by
  have ho := callerStep_offers hs
  have hattached : s.attached = true := by
    cases ha : s.attached with
    | true => rfl
    | false =>
      have hover := List.all_eq_true.mp (h.detached ha) c (List.mem_of_getElem? hc)
      rw [callerStep_isOver hover] at hs
      cases hs
  refine ⟨?_, h.phase.mono ho.executor ?_ ?_, fun ha => ?_⟩
  · rcases ho.grows with ⟨-, hh⟩ | ⟨work, -, hh, -⟩ <;> simp only [hh]
    · exact h.truthful
    · exact h.truthful
  · intro hok
    rcases ho.grows with ⟨-, hh⟩ | ⟨work, -, hh, -⟩ <;> simp only [hh]
    · exact hok
    · exact hasShutDown_cons hok
  · rintro (hok | ⟨hq, hf⟩)
    · left
      rcases ho.grows with ⟨-, hh⟩ | ⟨work, -, hh, -⟩ <;> simp only [hh]
      · exact hok
      · exact hasShutDown_cons hok
    · -- someone is calling, so a shutdown has failed and the guard keeps others out
      have hfailed : shutdownFailed s.history = true := hf.resolve_right (by simp [hattached])
      rcases ho.grows with ⟨hqueue, hh⟩ | ⟨work, hqueue, hh, hreg⟩
      · refine .inr ⟨fun w hw => hq w (hqueue ▸ hw), .inl ?_⟩
        simp only [hh]
        exact hfailed
      · refine .inr ⟨fun w hw => ?_, .inl ?_⟩
        · simp only [hqueue] at hw
          rcases List.mem_append.mp hw with hw | hw
          · exact hq w hw
          · rw [List.mem_singleton.mp hw]
            simp only [Sys.unshadowed, hfailed, hc] at hg
            cases hsd : work.command.isShutdown with
            | false => rfl
            | true => simp [hreg hsd] at hg
        · simp only [hh]
          exact shutdownFailed_cons hfailed
  · simp only [ho.attached, hattached] at ha
    cases ha

/-! ## Steps of the executor -/

theorem isOver_observe (sequence : Nat) (state : OperationState) (c : Caller) :
    (c.observe sequence state).isOver = c.isOver := by
  cases c with
  | submitted result => cases result <;> rfl
  | _ => rfl

theorem all_isOver_give (work : ExecutorWork) (state : OperationState) :
    (s.give work state).callers.all Caller.isOver = s.callers.all Caller.isOver := by
  simp only [Sys.give]
  split
  · simp only [List.all_map]
    congr 1
    funext c
    exact isOver_observe _ _ c
  · rfl

/-- The executor gives its work a state and moves on. -/
theorem Truth.give {work : ExecutorWork} {state : OperationState} {p : Phase} (h : Truth s)
    (hs : state = .succeeded .shutDown → hasShutDown s.history = true)
    (hp : Sys.PhaseTruth { s.give work state with executor := p }) :
    Truth { s.give work state with executor := p } := by
  refine ⟨?_, hp, fun ha => ?_⟩
  · change Control.truthful (.given work state :: s.history) = true
    by_cases hst : state = .succeeded .shutDown
    · rw [hst]
      simp only [Control.truthful, hs hst, h.truthful, Bool.and_self]
    · rw [Control.truthful.eq_3]
      · exact h.truthful
      · intro w heq
        cases heq
        exact hst rfl
  · exact (all_isOver_give work state).trans (h.detached ha)

/-- The executor moves on. -/
theorem Truth.turn {p : Phase} {queue : List ExecutorWork} {receiving closing done : Bool}
    (h : Truth s)
    (hp : Sys.PhaseTruth { s with executor := p, queue, receiving, closing, done }) :
    Truth { s with executor := p, queue, receiving, closing, done } :=
  ⟨h.truthful, hp, h.detached⟩

theorem Sys.Accomplished.give {work : ExecutorWork} {state : OperationState} {p : Phase}
    (h : s.Accomplished) : Sys.Accomplished { s.give work state with executor := p } := by
  rcases h with hok | ⟨hq, hf | ha⟩
  · exact .inl (hasShutDown_cons hok)
  · exact .inr ⟨hq, .inl (shutdownFailed_cons hf)⟩
  · exact .inr ⟨hq, .inr ha⟩

theorem drainState_succeeded {exit : ExecutorExit} {work : ExecutorWork}
    (h : drainState exit work = .succeeded .shutDown) :
    exit = .clean ∧ work.command.isShutdown = true := by
  cases exit with
  | died => cases h
  | clean =>
    simp only [drainState] at h
    split at h
    · rename_i hs
      exact ⟨rfl, hs⟩
    · cases h

theorem Truth.advance (h : Truth s) (ht : s.advance = some t) : Truth t := by
  have hphase := h.phase
  unfold Sys.advance at ht
  cases hx : s.executor with
  | idle =>
    simp only [hx] at ht
    split at ht
    · cases ht
      exact ⟨h.truthful, trivial, h.detached⟩
    · rename_i hq
      split at ht
      · cases ht
      · rename_i ha
        cases ht
        refine h.turn (.inr ⟨?_, .inr (by simpa using ha)⟩)
        rw [Sys.NoneQueued, hq]
        exact fun w hw => (List.not_mem_nil hw).elim
  | dequeued work =>
    simp only [hx] at ht
    split at ht <;> cases ht <;> exact h.turn trivial
  | refusing work =>
    simp only [hx] at ht
    cases ht
    exact h.give nofun trivial
  | starting work =>
    simp only [hx] at ht
    cases ht
    have hg : Truth { s.give work .running with executor := .executing work } := h.give nofun trivial
    exact ⟨hg.truthful, trivial, hg.detached⟩
  | executing work => simp only [hx] at ht; cases ht
  | finished work result =>
    simp only [hx] at ht
    cases ht
    simp only [Sys.PhaseTruth, hx] at hphase
    refine h.give (fun hs => hphase.1 ?_) ?_
    · cases result with
      | error e => cases hs
      | ok output => cases hs; rfl
    · split
      · rename_i hsd
        exact (hphase.2 hsd).give
      · trivial
  | panicked work join =>
    simp only [hx] at ht
    cases ht
    exact h.give nofun trivial
  | dying =>
    simp only [hx] at ht
    cases ht
    exact h.turn trivial
  | closingQueue exit =>
    simp only [hx] at ht
    cases ht
    cases exit with
    | died => exact h.turn trivial
    | clean =>
      simp only [Sys.PhaseTruth, hx] at hphase
      exact h.turn hphase
  | draining exit =>
    simp only [hx] at ht
    split at ht
    · rename_i work rest hq
      cases ht
      cases exit with
      | died => exact h.turn trivial
      | clean =>
        simp only [Sys.PhaseTruth, hx] at hphase
        rcases hphase with hok | ⟨hnone, hf⟩
        · exact h.turn ⟨fun _ => hok, .inl hok⟩
        · rw [Sys.NoneQueued, hq] at hnone
          refine h.turn ⟨fun hs => ?_, .inr ⟨fun w hw => hnone w (List.mem_cons_of_mem _ hw), hf⟩⟩
          rw [hnone work List.mem_cons_self] at hs
          cases hs
    · split at ht
      · cases ht
        exact h.turn trivial
      · cases ht
  | drained exit work =>
    simp only [hx] at ht
    cases ht
    cases exit with
    | died => exact h.give (fun hs => by cases (drainState_succeeded hs).1) trivial
    | clean =>
      simp only [Sys.PhaseTruth, hx] at hphase
      exact h.give (fun hs => hphase.1 (drainState_succeeded hs).2) hphase.2.give
  | returned exit =>
    simp only [hx] at ht
    cases ht
    exact h.turn trivial
  | exited exit => simp only [hx] at ht; cases ht

/-- What the running operation's answer says about `manager.shutdown()`. -/
theorem execute_cases {work : ExecutorWork} {reply : Reply}
    {result : Except CoreError OperationOutput} (h : execute work reply = some result) :
    (result = .ok .shutDown → (Event.ended work reply).isShutDown = true) ∧
      (work.command.isShutdown = true → (Event.ended work reply).isShutDown = true ∨
        ∃ error reported, reply = .answered (.error error) ∧ result = .error reported) := by
  unfold execute at h
  split at h
  · rename_i hc
    rename_i result
    cases h
    rw [hc]
    refine ⟨fun hr => ?_, nofun⟩
    cases result <;> cases hr
  · rename_i result hc
    cases h
    rw [hc]
    refine ⟨fun hr => ?_, nofun⟩
    cases result <;> cases hr
  · rename_i result hc
    cases h
    rw [hc]
    refine ⟨fun hr => ?_, nofun⟩
    cases result <;> cases hr
  · rename_i result hc
    cases h
    refine ⟨fun hr => ?_, fun _ => ?_⟩
    · cases result with
      | ok u => simp [Event.isShutDown, hc, CoreCommand.isShutdown]
      | error e => cases hr
    · cases result with
      | ok u => exact .inl (by simp [Event.isShutDown, hc, CoreCommand.isShutdown])
      | error e => exact .inr ⟨e, _, rfl, rfl⟩
  · cases h

theorem Truth.finish {reply : Reply} (h : Truth s)
    (hg : s.unshadowed cfg (.finish reply) = true) (ht : s.finish reply = some t) : Truth t := by
  obtain ⟨work, hx, ⟨join, -, rfl⟩ | ⟨result, hresult, rfl⟩⟩ := finish_cases ht
  · exact ⟨h.truthful, trivial, h.detached⟩
  · obtain ⟨hok, hsd⟩ := execute_cases hresult
    have now : (Event.ended work reply).isShutDown = true →
        hasShutDown (.ended work reply :: s.history) = true := fun he => by simp [hasShutDown, he]
    refine ⟨h.truthful, ⟨fun hr => now (hok hr), fun hs => ?_⟩, h.detached⟩
    rcases hsd hs with he | ⟨error, _, rfl, -⟩
    · exact .inl (now he)
    · refine .inr ⟨fun w hw => ?_, .inl (by simp [shutdownFailed, Event.isShutdownFailure, hs])⟩
      simp only [Sys.unshadowed, hx, hs, Bool.not_true, Bool.false_or, List.all_eq_true,
        Bool.not_eq_true'] at hg
      exact hg w hw

theorem truth_step {a : Action} (h : Truth s) (hg : s.unshadowed cfg a = true)
    (ht : s.step cfg a = some t) : Truth t := by
  cases step_effect ht with
  | calls callers attached _ ha hover =>
    refine ⟨h.truthful, h.phase.mono rfl id fun hacc => ?_, hover h.detached⟩
    rcases hacc with hok | ⟨hq, hf | hd⟩
    · exact .inl hok
    · exact .inr ⟨hq, .inl hf⟩
    · exact .inr ⟨hq, .inr (ha hd)⟩
  | caller hc hs => exact h.caller hg hc hs
  | advance ha => exact h.advance ha
  | finish hf => exact h.finish hg hf

/-- The drain is truthful as long as no `Shutdown` stands behind one that
failed. -/
theorem shutdown_truthful {cfg : Config} {s : Sys}
    (h : (machine cfg).ReachableBy (fun s a => s.unshadowed cfg a = true) s) :
    truthful s.history = true :=
  (h.invariant truth_init fun _ _ _ ht hg hs => truth_step ht hg hs).truthful

def twoSlots : Config := ⟨2, 3, ⟨.prefer, true⟩⟩

/-- Two callers shut down; the first `Shutdown` runs with the second behind it. -/
def twoShutdowns (reply : Reply) : List Action :=
  let first : OperationId := ⟨1, 1, 1⟩
  let second : OperationId := ⟨2, 1, 2⟩
  [.callShutdown, .callShutdown, .caller 0 first, .caller 0 first, .caller 0 first,
    .caller 1 second, .caller 1 second, .caller 1 second, .advance, .advance, .advance,
    .finish reply, .advance, .advance, .advance, .advance]

theorem twoShutdowns_truthful :
    ∃ s, ((machine twoSlots).guarded (Sys.unshadowed twoSlots)).run .init
      (twoShutdowns (.answered (.ok ()))) = some s ∧ truthful s.history = true := by
  have hrun : (((machine twoSlots).guarded (Sys.unshadowed twoSlots)).run .init
      (twoShutdowns (.answered (.ok ())))).isSome = true := by decide +kernel
  obtain ⟨s, hs⟩ := Option.isSome_iff_exists.mp hrun
  exact ⟨s, hs, shutdown_truthful (Machine.guarded_run_reachable .init hs)⟩

/-- The first one fails, and the second is told that it succeeded. -/
theorem drained_shutdown_untruthful :
    ((machine twoSlots).run .init (twoShutdowns (.answered
      (.error (.stopUnconfirmed "core-1.pid"))))).map (fun s => truthful s.history) =
      some false := by
  decide +kernel

end Chimera.Control
