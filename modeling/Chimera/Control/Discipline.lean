import Chimera.Control.Pending

/-! What every interleaving of the control plane keeps: operations are executed
once, one at a time and in admission order, never behind a shutdown; and the
registry stays within its bound without ever giving up a live operation. The
bound is the clamp of `live_registry_capacity`: the pending work is the queue
and the one operation in the executor's hand. -/

namespace Chimera.Control
open Chimera.Model Chimera.Lib.Transition

variable {cfg : Config} {s t : Sys}

/-! ## The state invariant -/

/-- The work taken from the queue and not yet given a terminal state. -/
def Phase.inHand : Phase → Option ExecutorWork
  | .dequeued work | .refusing work | .starting work | .executing work | .finished work _
  | .panicked work _ | .drained _ work => some work
  | _ => none

def Sys.pending (s : Sys) : List ExecutorWork := s.executor.inHand.toList ++ s.queue

/-- `drain` has closed the receiver. -/
def Phase.closed : Phase → Bool
  | .draining _ | .drained _ _ | .returned _ | .exited _ => true
  | _ => false

/-- The executor task has returned. -/
def Phase.isOver : Phase → Bool
  | .returned _ | .exited _ => true
  | _ => false

theorem Phase.closed_of_isOver {p : Phase} (h : p.isOver = true) : p.closed = true := by
  cases p <;> first | rfl | cases h

structure Inv (cfg : Config) (s : Sys) : Prop where
  tracks : Tracks s.registry s.pending
  slots : s.queue.length + s.permits ≤ cfg.queueCapacity
  room : s.registry.size ≤ cfg.capacity
  receiving : s.receiving = !s.executor.closed
  quiet : s.executor.isOver = true → s.queue = [] ∧ s.permits = 0

theorem Inv.receiving_of_isOver (h : Inv cfg s) (ho : s.executor.isOver = true) :
    s.receiving = false := by
  rw [h.receiving, Phase.closed_of_isOver ho]
  rfl

theorem tracks_new : Tracks .new [] := by
  refine ⟨.nil, fun w hw => (List.not_mem_nil hw).elim, fun w hw => (List.not_mem_nil hw).elim,
    fun id op h => ?_, .nil, fun id => ?_⟩
  · have hn : (RegistryInner.new.operations.lookup id) = none := Finmap.lookup_empty id
    rw [hn] at h
    cases h
  · exact iff_of_false List.not_mem_nil (Finmap.notMem_empty)

theorem inv_init (cfg : Config) : Inv cfg .init :=
  ⟨tracks_new, Nat.zero_le _, Nat.zero_le _, rfl, fun h => by cases h⟩

/-- The clamp: while the queue has a slot, the pending work leaves a registry
entry for the next operation. -/
theorem pending_lt (hq : s.queue.length < cfg.queueCapacity) :
    s.pending.length < cfg.capacity := by
  have hlen : s.pending.length ≤ s.queue.length + 1 := by
    unfold Sys.pending
    cases s.executor.inHand <;> simp
  have hcap : cfg.queueCapacity + 1 ≤ cfg.capacity := Nat.le_max_right _ _
  omega

theorem hasSlot_iff : s.hasSlot cfg = true ↔ s.queue.length + s.permits < cfg.queueCapacity :=
  decide_eq_true_iff

theorem permits_set {l : List Caller} {index : Nat} {c : Caller} (c' : Caller)
    (h : l[index]? = some c) :
    (l.set index c').countP Caller.holdsPermit + (if c.holdsPermit then 1 else 0) =
      l.countP Caller.holdsPermit + (if c'.holdsPermit then 1 else 0) := by
  obtain ⟨hlt, hget⟩ := List.getElem?_eq_some_iff.mp h
  have hpos : c.holdsPermit = true → 0 < l.countP Caller.holdsPermit := fun hc =>
    List.countP_pos_iff.mpr ⟨c, List.mem_of_getElem? h, hc⟩
  rw [List.countP_set hlt, hget]
  cases hc : c.holdsPermit with
  | false => simp
  | true => have := hpos hc; simp; omega

theorem holdsPermit_observe (sequence : Nat) (state : OperationState) (c : Caller) :
    (c.observe sequence state).holdsPermit = c.holdsPermit := by
  cases c with
  | submitted result => cases result <;> rfl
  | _ => rfl

theorem permits_give (s : Sys) (work : ExecutorWork) (state : OperationState) :
    (s.give work state).permits = s.permits := by
  simp only [Sys.permits, Sys.give]
  split
  · rw [List.countP_map]
    exact List.countP_congr fun c _ => by simp [holdsPermit_observe]
  · rfl

/-- Only the callers of the state change: nothing the invariant counts but the
permits. -/
theorem Inv.of_callers (h : Inv cfg s) {callers : List Caller} (attached : Bool)
    (hp : callers.countP Caller.holdsPermit ≤ s.permits) :
    Inv cfg { s with callers, attached } := by
  refine ⟨h.tracks, ?_, h.room, h.receiving, fun ho => ?_⟩
  · have := h.slots
    simp only [Sys.permits] at this hp ⊢
    omega
  · obtain ⟨hq, hz⟩ := h.quiet ho
    refine ⟨hq, ?_⟩
    simp only [Sys.permits] at hz hp ⊢
    omega

theorem Inv.caller {index : Nat} {c c' : Caller} {s' : Sys} (h : Inv cfg s)
    (hc : s.callers[index]? = some c) (he : CallerEffect cfg s c c' s') :
    Inv cfg { s' with callers := s'.callers.set index c' } := by
  have hslots := h.slots
  have hcount := permits_set c' hc
  change _ = s.permits + _ at hcount
  cases he with
  | pass closing _ hn hn' =>
    have hs : Inv cfg { s with closing } := ⟨h.tracks, h.slots, h.room, h.receiving, h.quiet⟩
    refine hs.of_callers s.attached ?_
    change _ ≤ s.permits
    simp only [hn, hn'] at hcount
    simp at hcount ⊢
    omega
  | reserve hr hrecv hslot =>
    simp only [hr, Caller.holdsPermit, if_true, Bool.false_eq_true, if_false] at hcount
    have hlt := hasSlot_iff.mp hslot
    refine ⟨h.tracks, ?_, h.room, h.receiving, fun ho => ?_⟩
    · simp only [Sys.permits]; omega
    · rw [h.receiving_of_isOver ho] at hrecv
      cases hrecv
  | @settled _ registry id digest enqueue result hn hadm hres =>
    have htracks : Tracks registry s.pending := by
      cases result with
      | error e => exact h.tracks.of_rejected hadm
      | ok adm =>
        cases adm with
        | registered a => exact absurd rfl (hres a)
        | existing a => exact admit_existing hadm ▸ h.tracks
    have hroom : registry.size ≤ cfg.capacity :=
      (admit_size_le_of_unregistered hadm hres).trans h.room
    have hs : Inv cfg { s with registry } := ⟨htracks, h.slots, hroom, h.receiving, h.quiet⟩
    refine hs.of_callers s.attached ?_
    change _ ≤ s.permits
    simp only [hn] at hcount
    simp at hcount ⊢
    omega
  | @admitted _ registry id digest a command hslot hn hadm =>
    -- the new work takes the slot the caller reserved or just found
    have hq : s.queue.length + (s.callers.set index c').countP Caller.holdsPermit <
        cfg.queueCapacity := by
      simp only [hn] at hcount
      rcases hslot with hp | hslot
      · simp only [hp] at hcount
        simp at hcount
        omega
      · have hlt := hasSlot_iff.mp hslot.2
        simp at hcount
        omega
    have hroom : registry.size ≤ cfg.capacity :=
      h.tracks.admit_size_le (pending_lt (by omega)) hadm
    have htracks := h.tracks.of_registered command hadm
    refine ⟨?_, ?_, hroom, h.receiving, fun ho => ?_⟩
    · simpa [Sys.pending, Sys.enqueue] using htracks
    · simp only [Sys.enqueue, Sys.permits, List.length_append, List.length_singleton]; omega
    · obtain ⟨-, hz⟩ := h.quiet ho
      rcases hslot with hp | ⟨hrecv, -⟩
      · have := List.countP_pos_iff.mpr ⟨c, List.mem_of_getElem? hc, hp⟩
        change 0 < s.permits at this
        omega
      · rw [h.receiving_of_isOver ho] at hrecv
        cases hrecv

/-- The executor moves on without touching the registry or the queue. -/
theorem Inv.turn (h : Inv cfg s) {p : Phase} (hp : p.inHand = s.executor.inHand)
    (receiving closing done : Bool) (history : List Event) (hr : receiving = !p.closed)
    (ho : p.isOver = true → s.queue = [] ∧ s.permits = 0) :
    Inv cfg { s with executor := p, receiving, closing, done, history } := by
  refine ⟨?_, h.slots, h.room, hr, ho⟩
  simp only [Sys.pending, hp]
  exact h.tracks

theorem Inv.pending_of_inHand {work : ExecutorWork} (h : s.executor.inHand = some work) :
    s.pending = work :: s.queue := by
  simp [Sys.pending, h]

/-- The executor gives the work in its hand a terminal state and lets go of it. -/
theorem Inv.settle {work : ExecutorWork} {state : OperationState} {p : Phase} (h : Inv cfg s)
    (hw : s.executor.inHand = some work) (hs : state.isTerminal = true) (hp : p.inHand = none)
    (hc : p.closed = s.executor.closed) (ho : p.isOver = false) :
    Inv cfg { s.give work state with executor := p } := by
  have htracks : Tracks s.registry (work :: s.queue) := pending_of_inHand hw ▸ h.tracks
  have hpermits : Sys.permits { s.give work state with executor := p } = s.permits :=
    permits_give s work state
  refine ⟨?_, ?_, ?_, ?_, fun hover => ?_⟩
  · simpa [Sys.pending, hp, Sys.give] using htracks.set_terminal hs
  · rw [hpermits]; exact h.slots
  · simpa [Sys.give] using h.room
  · simpa [Sys.give, hc] using h.receiving
  · rw [show Phase.isOver _ = false from ho] at hover
    cases hover

theorem Inv.take {work : ExecutorWork} {rest : List ExecutorWork} {p : Phase} (h : Inv cfg s)
    (hn : s.executor.inHand = none) (hq : s.queue = work :: rest) (hp : p.inHand = some work)
    (hc : p.closed = s.executor.closed) (ho : p.isOver = false) (history : List Event) :
    Inv cfg { s with queue := rest, executor := p, history } := by
  have hpend : s.pending = work :: rest := by simp [Sys.pending, hn, hq]
  have hslots := h.slots
  rw [hq, List.length_cons] at hslots
  refine ⟨?_, ?_, h.room, ?_, fun hover => ?_⟩
  · simpa [Sys.pending, hp] using hpend ▸ h.tracks
  · change rest.length + s.permits ≤ _
    omega
  · simpa [hc] using h.receiving
  · rw [show Phase.isOver _ = false from ho] at hover
    cases hover

theorem Inv.start {work : ExecutorWork} (h : Inv cfg s) (hx : s.executor = .starting work)
    (history : List Event) :
    Inv cfg { s.give work .running with executor := .executing work, history } := by
  have hw : s.executor.inHand = some work := by rw [hx]; rfl
  have htracks : Tracks s.registry (work :: s.queue) := pending_of_inHand hw ▸ h.tracks
  have hpermits : Sys.permits { s.give work .running with executor := .executing work, history } =
      s.permits := permits_give s work .running
  refine ⟨?_, ?_, ?_, ?_, fun hover => by cases hover⟩
  · exact htracks.set_live List.mem_cons_self rfl
  · rw [hpermits]; exact h.slots
  · simpa [Sys.give] using h.room
  · have hrecv := h.receiving
    rw [hx] at hrecv
    exact hrecv

theorem Inv.advance (h : Inv cfg s) (ht : s.advance = some t) : Inv cfg t := by
  have hrecv := h.receiving
  unfold Sys.advance at ht
  cases hx : s.executor with
  | idle =>
    simp only [hx] at ht
    split at ht
    · rename_i hq
      cases ht
      exact h.take (by rw [hx]; rfl) hq rfl (by rw [hx]; rfl) rfl _
    · split at ht
      · cases ht
      · cases ht
        exact h.turn (by rw [hx]; rfl) _ _ _ _ (by rw [hrecv, hx]; rfl) (fun ho => by cases ho)
  | dequeued work =>
    simp only [hx] at ht
    split at ht <;> cases ht <;>
      exact h.turn (by rw [hx]; rfl) _ _ _ _ (by rw [hrecv, hx]; rfl) (fun ho => by cases ho)
  | refusing work =>
    simp only [hx] at ht
    cases ht
    exact h.settle (by rw [hx]; rfl) rfl rfl (by rw [hx]; rfl) rfl
  | starting work =>
    simp only [hx] at ht
    cases ht
    exact h.start hx _
  | executing work => simp only [hx] at ht; cases ht
  | finished work result =>
    simp only [hx] at ht
    cases ht
    have hterm : (stateOf result).isTerminal = true := by cases result <;> rfl
    split
    · exact h.settle (by rw [hx]; rfl) hterm rfl (by rw [hx]; rfl) rfl
    · exact h.settle (by rw [hx]; rfl) hterm rfl (by rw [hx]; rfl) rfl
  | panicked work join =>
    simp only [hx] at ht
    cases ht
    exact h.settle (by rw [hx]; rfl) rfl rfl (by rw [hx]; rfl) rfl
  | dying =>
    simp only [hx] at ht
    cases ht
    exact h.turn (by rw [hx]; rfl) _ _ _ _ (by rw [hrecv, hx]; rfl) (fun ho => by cases ho)
  | closingQueue exit =>
    simp only [hx] at ht
    cases ht
    exact h.turn (by rw [hx]; rfl) _ _ _ _ rfl (fun ho => by cases ho)
  | draining exit =>
    simp only [hx] at ht
    split at ht
    · rename_i hq
      cases ht
      exact h.take (by rw [hx]; rfl) hq rfl (by rw [hx]; rfl) rfl _
    · rename_i hq
      split at ht
      · rename_i hz
        cases ht
        exact h.turn (by rw [hx]; rfl) _ _ _ _ (by rw [hrecv, hx]; rfl) fun _ => ⟨hq, hz⟩
      · cases ht
  | drained exit work =>
    simp only [hx] at ht
    cases ht
    have hterm : (drainState exit work).isTerminal = true := by
      cases exit with
      | died => rfl
      | clean => simp only [drainState]; split <;> rfl
    exact h.settle (by rw [hx]; rfl) hterm rfl (by rw [hx]; rfl) rfl
  | returned exit =>
    simp only [hx] at ht
    cases ht
    exact h.turn (by rw [hx]; rfl) _ _ _ _ (by rw [hrecv, hx]; rfl)
      fun _ => h.quiet (by rw [hx]; rfl)
  | exited exit => simp only [hx] at ht; cases ht

/-- What the end of the running operation's task leaves behind. -/
theorem finish_cases {reply : Reply} (h : s.finish reply = some t) :
    ∃ work, s.executor = .executing work ∧
      ((∃ join, reply = .panicked join ∧ t = { s with
          executor := .panicked work join, history := .ended work reply :: s.history }) ∨
       ∃ result, execute work reply = some result ∧ t = { s with
          executor := .finished work result, history := .ended work reply :: s.history }) := by
  unfold Sys.finish at h
  split at h
  · rename_i work hx
    refine ⟨work, hx, ?_⟩
    split at h
    · rename_i join
      cases h
      exact .inl ⟨join, rfl, rfl⟩
    · obtain ⟨result, hresult, rfl⟩ := Option.map_eq_some_iff.mp h
      exact .inr ⟨result, hresult, rfl⟩
  · cases h

theorem Inv.finish {reply : Reply} (h : Inv cfg s) (ht : s.finish reply = some t) : Inv cfg t := by
  have hrecv := h.receiving
  obtain ⟨work, hx, ⟨join, -, rfl⟩ | ⟨result, -, rfl⟩⟩ := finish_cases ht
  · exact h.turn (by rw [hx]; rfl) _ _ _ _ (by rw [hrecv, hx]; rfl) (fun ho => by cases ho)
  · exact h.turn (by rw [hx]; rfl) _ _ _ _ (by rw [hrecv, hx]; rfl) (fun ho => by cases ho)

theorem permits_append (l : List Caller) {c : Caller} (h : c.holdsPermit = false) :
    (l ++ [c]).countP Caller.holdsPermit = l.countP Caller.holdsPermit := by
  simp [h]

/-- Everything a step can be, seen from the callers. -/
inductive StepEffect (cfg : Config) (s : Sys) : Action → Sys → Prop
  /-- Calls come and go. -/
  | calls {a : Action} (callers : List Caller) (attached : Bool) :
      callers.countP Caller.holdsPermit ≤ s.permits → (s.attached = false → attached = false) →
      ((s.attached = false → s.callers.all Caller.isOver = true) →
        attached = false → callers.all Caller.isOver = true) →
      StepEffect cfg s a { s with callers, attached }
  | caller {index : Nat} {fresh : OperationId} {c c' : Caller} {s' : Sys} :
      s.callers[index]? = some c → s.callerStep cfg fresh c = some (c', s') →
      StepEffect cfg s (.caller index fresh) { s' with callers := s'.callers.set index c' }
  | advance {t : Sys} : s.advance = some t → StepEffect cfg s .advance t
  | finish {t : Sys} {reply : Reply} : s.finish reply = some t → StepEffect cfg s (.finish reply) t

theorem step_effect {a : Action} (h : s.step cfg a = some t) : StepEffect cfg s a t := by
  cases a with
  | callSubmit envelope =>
    simp only [Sys.step] at h
    split at h
    · rename_i ha
      cases h
      exact .calls _ s.attached (permits_append _ rfl).le id
        fun _ hd => by rw [ha] at hd; cases hd
    · cases h
  | callShutdown =>
    simp only [Sys.step] at h
    split at h
    · rename_i ha
      cases h
      exact .calls _ s.attached (permits_append _ rfl).le id
        fun _ hd => by rw [ha] at hd; cases hd
    · cases h
  | caller index fresh =>
    simp only [Sys.step] at h
    split at h
    · rename_i c hc
      obtain ⟨⟨c', s'⟩, hs, rfl⟩ := Option.map_eq_some_iff.mp h
      exact .caller hc hs
    · cases h
  | cancel index =>
    have drop {c : Caller} (hc : s.callers[index]? = some c) :
        (s.callers.set index .cancelled).countP Caller.holdsPermit ≤ s.permits := by
      have hcount := permits_set .cancelled hc
      simp only [Caller.holdsPermit, Bool.false_eq_true, if_false] at hcount
      change _ = s.permits + _ at hcount
      omega
    have allOver (hall : s.attached = false → s.callers.all Caller.isOver = true)
        (hd : s.attached = false) :
        (s.callers.set index .cancelled).all Caller.isOver = true := by
      refine List.all_eq_true.mpr fun c hc => ?_
      rcases List.mem_or_eq_of_mem_set hc with hc | rfl
      · exact List.all_eq_true.mp (hall hd) c hc
      · rfl
    simp only [Sys.step] at h
    split at h
    · rename_i hc; cases h; exact .calls _ s.attached (drop hc) id allOver
    · rename_i hc; cases h; exact .calls _ s.attached (drop hc) id allOver
    · rename_i hc; cases h; exact .calls _ s.attached (drop hc) id allOver
    · rename_i hc; cases h; exact .calls _ s.attached (drop hc) id allOver
    · cases h
  | detach =>
    simp only [Sys.step] at h
    split at h
    · rename_i hall
      cases h
      exact .calls s.callers false (Nat.le_refl _) (fun _ => rfl) fun _ _ => hall
    · cases h
  | advance => exact .advance h
  | finish reply => exact .finish h

theorem inv_step {a : Action} (h : Inv cfg s) (ht : s.step cfg a = some t) : Inv cfg t := by
  cases step_effect ht with
  | calls callers attached hp => exact h.of_callers attached hp
  | caller hc hs => exact h.caller hc (callerStep_effect hs)
  | advance ha => exact h.advance ha
  | finish hf => exact h.finish hf

theorem inv_reachable (h : (machine cfg).Reachable s) : Inv cfg s :=
  h.invariant (inv_init cfg) fun _ _ _ hi _ hs => inv_step hi hs

end Chimera.Control
