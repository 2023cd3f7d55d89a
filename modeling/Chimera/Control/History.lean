import Chimera.Control.Discipline

/-! What the executor does with the registrations over a whole run. The history
records every registration, dequeue, start and end; `Ledger` relates it to where
the executor and the queue are, and the discipline of the executor is read off
it. Histories are newest first. -/

namespace Chimera.Control
open Chimera.Model Chimera.Lib.Transition

/-- The work that admissions registered. -/
def registered (history : List Event) : List ExecutorWork :=
  history.filterMap fun
    | .registered work => some work
    | _ => none

/-- The work that was executed. -/
def begun (history : List Event) : List ExecutorWork :=
  history.filterMap fun
    | .began work => some work
    | _ => none

def running : List Event → Option ExecutorWork
  | [] => none
  | .began work :: _ => some work
  | .ended _ _ :: _ => none
  | _ :: older => running older

/-- One at a time: an operation begins when none is running, and only the
running one ends. -/
def Serial : List Event → Prop
  | [] => True
  | .began _ :: older => running older = none ∧ Serial older
  | .ended work _ :: older => running older = some work ∧ Serial older
  | _ :: older => Serial older

/-- In the order of their sequence numbers, each at most once. -/
def InSequence (works : List ExecutorWork) : Prop :=
  works.Pairwise fun newer older => older.sequence < newer.sequence

theorem InSequence.count_le_one {works : List ExecutorWork} (h : InSequence works)
    (w : ExecutorWork) : works.count w ≤ 1 := by
  refine List.nodup_iff_count_le_one.mp (List.Pairwise.imp ?_ h) w
  rintro a b hlt rfl
  exact Nat.lt_irrefl _ hlt

/-! ## Where the executor is, against its history -/

/-- The work taken from the queue that may still be executed. -/
def Phase.unbegun : Phase → Option ExecutorWork
  | .dequeued work | .refusing work | .starting work => some work
  | _ => none

def Phase.executes : Phase → Option ExecutorWork
  | .executing work => some work
  | _ => none

/-- The loop is over, or will be once the operation in hand is done. -/
def Phase.closingDown : Phase → Bool
  | .executing work | .finished work _ | .panicked work _ => work.command.isShutdown
  | .dying | .closingQueue _ | .draining _ | .drained _ _ | .returned _ | .exited _ => true
  | _ => false

/-- Where a non-shutdown operation that was dequeued behind the latch can be. -/
structure Refused (s : Sys) (w : ExecutorWork) : Prop where
  registered : w ∈ registered s.history
  begun : w ∉ begun s.history
  queue : w ∉ s.queue
  starting : s.executor ≠ .starting w
  latched : s.executor = .dequeued w → s.closing = true

structure Ledger (s : Sys) : Prop where
  fresh : ∀ w ∈ registered s.history, w.sequence < s.registry.nextSequence
  registrations : InSequence (registered s.history)
  pending : ∀ w ∈ s.pending, w ∈ registered s.history
  begun : ∀ w ∈ begun s.history, w ∈ registered s.history
  ordered : InSequence (Control.begun s.history)
  ahead : ∀ w ∈ Control.begun s.history, ∀ v ∈ s.executor.unbegun.toList ++ s.queue,
    w.sequence < v.sequence
  running : running s.history = s.executor.executes
  serial : Serial s.history
  final : (Control.begun s.history).Pairwise fun _ older => older.command.isShutdown = false
  last : ∀ w ∈ Control.begun s.history, w.command.isShutdown = true →
    s.executor.closingDown = true
  refused : ∀ w, .dequeued w true ∈ s.history → w.command.isShutdown = false → Refused s w

theorem ledger_init : Ledger .init where
  fresh := fun _ hw => (List.not_mem_nil hw).elim
  registrations := .nil
  pending := fun _ hw => (List.not_mem_nil hw).elim
  begun := fun _ hw => (List.not_mem_nil hw).elim
  ordered := .nil
  ahead := fun _ hw => (List.not_mem_nil hw).elim
  running := rfl
  serial := trivial
  final := .nil
  last := fun _ hw => (List.not_mem_nil hw).elim
  refused := fun _ hw => (List.not_mem_nil hw).elim

variable {cfg : Config} {s t : Sys}

/-- Steps that neither register, dequeue for execution nor begin anything. -/
theorem Ledger.turn (h : Ledger s)
    (hreg : registered t.history = registered s.history)
    (hbegun : Control.begun t.history = Control.begun s.history)
    (hdeq : ∀ w, .dequeued w true ∈ t.history → .dequeued w true ∈ s.history)
    (hseq : s.registry.nextSequence ≤ t.registry.nextSequence)
    (hpend : ∀ w ∈ t.pending, w ∈ s.pending) (hqueue : ∀ w ∈ t.queue, w ∈ s.queue)
    (hun : t.executor.unbegun = none)
    (hdown : s.executor.closingDown = true → t.executor.closingDown = true)
    (hrun : Control.running t.history = t.executor.executes) (hserial : Serial t.history) :
    Ledger t where
  fresh := by rw [hreg]; exact fun w hw => (h.fresh w hw).trans_le hseq
  registrations := by rw [hreg]; exact h.registrations
  pending := by rw [hreg]; exact fun w hw => h.pending w (hpend w hw)
  begun := by rw [hreg, hbegun]; exact h.begun
  ordered := by rw [hbegun]; exact h.ordered
  ahead := by
    rw [hbegun, hun]
    exact fun w hw v hv => h.ahead w hw v (List.mem_append_right _ (hqueue v hv))
  running := hrun
  serial := hserial
  final := by rw [hbegun]; exact h.final
  last := by rw [hbegun]; exact fun w hw hs => hdown (h.last w hw hs)
  refused := by
    intro w hw hs
    obtain ⟨hr, hb, hq, -, -⟩ := h.refused w (hdeq w hw) hs
    refine ⟨hreg ▸ hr, hbegun ▸ hb, fun hw => hq (hqueue w hw), ?_, ?_⟩
    · intro hx; rw [hx] at hun; cases hun
    · intro hx; rw [hx] at hun; cases hun

/-- Calls come and go, the latch may go down, and admissions that register
nothing may spend sequence numbers. -/
theorem Ledger.of_callers (h : Ledger s) {registry : RegistryInner} {callers : List Caller}
    {attached closing : Bool} (hc : s.closing = true → closing = true)
    (hseq : s.registry.nextSequence ≤ registry.nextSequence) :
    Ledger { s with registry, callers, attached, closing } where
  fresh := fun w hw => (h.fresh w hw).trans_le hseq
  registrations := h.registrations
  pending := h.pending
  begun := h.begun
  ordered := h.ordered
  ahead := h.ahead
  running := h.running
  serial := h.serial
  final := h.final
  last := h.last
  refused := fun w hw hs =>
    let hr := h.refused w hw hs
    ⟨hr.registered, hr.begun, hr.queue, hr.starting, fun hx => hc (hr.latched hx)⟩

theorem admit_nextSequence_le {capacity : Nat} {r r' : RegistryInner} {id : OperationId}
    {digest : String} {enqueue : Except TrySendError Unit} {result : Except CoreError Admission}
    (ha : r.admitOperation capacity id digest enqueue = (result, r')) :
    r.nextSequence ≤ r'.nextSequence := by
  have he : (r.evict capacity).nextSequence = r.nextSequence := (evicted_evict capacity r).sequence
  unfold RegistryInner.admitOperation at ha
  split at ha
  · split at ha <;> exact (Prod.mk.inj ha).2 ▸ Nat.le_refl _
  · split at ha <;> obtain ⟨-, rfl⟩ := Prod.mk.inj ha
    · simp only [RegistryInner.unregister, RegistryInner.register]; omega
    · simp only [RegistryInner.register]; omega

/-- A registration joins the tail of the queue with a number never used
before. -/
theorem Ledger.enqueue {registry : RegistryInner} {id : OperationId} {digest : String}
    {a : Admitted} (h : Ledger s) (command : CoreCommand) (callers : List Caller)
    (ha : s.registry.admitOperation cfg.capacity id digest (.ok ()) = (.ok (.registered a), registry)) :
    Ledger { { s with registry }.enqueue ⟨id, command, a.sequence⟩ with callers } := by
  obtain ⟨-, -, hseq, hreg⟩ := admit_registered ha
  have hnext : registry.nextSequence = a.sequence + 1 := by
    rw [hreg, hseq, ← (evicted_evict cfg.capacity s.registry).sequence]
    rfl
  have hfresh : ∀ w ∈ registered s.history, w.sequence < a.sequence :=
    fun w hw => hseq ▸ h.fresh w hw
  constructor
  case fresh =>
    intro w hw
    change w.sequence < registry.nextSequence
    rcases List.mem_cons.mp hw with rfl | hw
    · change a.sequence < _
      omega
    · have := hfresh w hw
      omega
  case registrations => exact List.pairwise_cons.mpr ⟨hfresh, h.registrations⟩
  case pending =>
    intro w hw
    rw [Sys.pending] at hw
    simp only [Sys.enqueue, ← List.append_assoc] at hw
    rcases List.mem_append.mp hw with hw | hw
    · exact List.mem_cons_of_mem _ (h.pending w hw)
    · exact List.mem_cons.mpr (.inl (List.mem_singleton.mp hw))
  case begun => exact fun w hw => List.mem_cons_of_mem _ (h.begun w hw)
  case ordered => exact h.ordered
  case ahead =>
    intro w hw v hv
    simp only [Sys.enqueue, ← List.append_assoc] at hv
    rcases List.mem_append.mp hv with hv | hv
    · exact h.ahead w hw v hv
    · rw [List.mem_singleton.mp hv]
      exact hfresh w (h.begun w hw)
  case running => exact h.running
  case serial => exact h.serial
  case final => exact h.final
  case last => exact h.last
  case refused =>
    intro w hw hs
    have hr := h.refused w ((List.mem_cons.mp hw).resolve_left (by rintro ⟨⟩)) hs
    refine ⟨List.mem_cons_of_mem _ hr.registered, hr.begun, fun hq => ?_, hr.starting, hr.latched⟩
    rcases List.mem_append.mp hq with hq | hq
    · exact hr.queue hq
    · have hlt := hfresh w hr.registered
      rw [List.mem_singleton.mp hq] at hlt
      exact Nat.lt_irrefl _ hlt

theorem Ledger.caller {index : Nat} {c c' : Caller} {s' : Sys} (h : Ledger s)
    (he : CallerEffect cfg s c c' s') :
    Ledger { s' with callers := s'.callers.set index c' } := by
  cases he with
  | pass closing hc => exact h.of_callers hc (Nat.le_refl _)
  | reserve => exact h.of_callers id (Nat.le_refl _)
  | settled _ hadm _ => exact h.of_callers id (admit_nextSequence_le hadm)
  | admitted command _ _ hadm => exact h.enqueue command _ hadm

/-- The executor takes the oldest work. -/
theorem Ledger.take {work : ExecutorWork} {rest : List ExecutorWork} (h : Ledger s)
    (hi : Inv cfg s) (hx : s.executor = .idle) (hq : s.queue = work :: rest) :
    Ledger { s with
      queue := rest
      executor := .dequeued work
      history := .dequeued work s.closing :: s.history } := by
  have hpend : s.pending = work :: rest := by simp [Sys.pending, hx, Phase.inHand, hq]
  have hsorted := List.pairwise_cons.mp (hpend ▸ hi.tracks.sorted)
  have hahead : ∀ w ∈ Control.begun s.history, ∀ v ∈ work :: rest, w.sequence < v.sequence := by
    intro w hw v hv
    refine h.ahead w hw v ?_
    rw [hx, hq]
    exact hv
  constructor
  case fresh => exact h.fresh
  case registrations => exact h.registrations
  case pending => exact fun w hw => h.pending w (hpend ▸ hw)
  case begun => exact h.begun
  case ordered => exact h.ordered
  case ahead => exact hahead
  case running => exact h.running.trans (by rw [hx]; rfl)
  case serial => exact h.serial
  case final => exact h.final
  case last =>
    intro w hw hs
    have := h.last w hw hs
    rw [hx] at this
    cases this
  case refused =>
    intro w hw hs
    rcases List.mem_cons.mp hw with heq | hw
    · simp only [Event.dequeued.injEq] at heq
      obtain ⟨rfl, hclosing⟩ := heq
      refine ⟨h.pending w (by rw [hpend]; exact List.mem_cons_self), fun hb => ?_, fun hr => ?_,
        (by rintro ⟨⟩), fun _ => hclosing.symm⟩
      · exact Nat.lt_irrefl _ (hahead w hb w List.mem_cons_self)
      · exact Nat.lt_irrefl _ (hsorted.1 w hr)
    · have hr := h.refused w hw hs
      refine ⟨hr.registered, hr.begun, fun hm => hr.queue ?_, (by rintro ⟨⟩), fun hd => ?_⟩
      · rw [hq]; exact List.mem_cons_of_mem _ hm
      · refine absurd ?_ hr.queue
        rw [hq, ← Phase.dequeued.inj hd]
        exact List.mem_cons_self

/-- The executor looks at the latch before it starts what it dequeued. -/
theorem Ledger.choose {work : ExecutorWork} {p : Phase} (h : Ledger s)
    (hx : s.executor = .dequeued work)
    (hp : p = .refusing work ∨
      p = .starting work ∧ (work.command.isShutdown = true ∨ s.closing = false)) :
    Ledger { s with executor := p } := by
  have hin : p.inHand = s.executor.inHand := by rw [hx]; rcases hp with rfl | ⟨rfl, -⟩ <;> rfl
  have hun : p.unbegun = s.executor.unbegun := by rw [hx]; rcases hp with rfl | ⟨rfl, -⟩ <;> rfl
  have hex : p.executes = s.executor.executes := by rw [hx]; rcases hp with rfl | ⟨rfl, -⟩ <;> rfl
  constructor
  case fresh => exact h.fresh
  case registrations => exact h.registrations
  case pending => simp only [Sys.pending, hin]; exact h.pending
  case begun => exact h.begun
  case ordered => exact h.ordered
  case ahead => simp only [hun]; exact h.ahead
  case running => simp only [hex]; exact h.running
  case serial => exact h.serial
  case final => exact h.final
  case last =>
    intro w hw hs
    have := h.last w hw hs
    rw [hx] at this
    cases this
  case refused =>
    intro w hw hs
    have hr := h.refused w hw hs
    refine ⟨hr.registered, hr.begun, hr.queue, fun hst => ?_, fun hd => ?_⟩
    · rcases hp with rfl | ⟨rfl, hsd | hopen⟩
      · cases hst
      · cases hst; rw [hs] at hsd; cases hsd
      · cases hst
        rw [hr.latched hx] at hopen
        cases hopen
    · rcases hp with rfl | ⟨rfl, -⟩ <;> cases hd

theorem Ledger.begin {work : ExecutorWork} (h : Ledger s) (hi : Inv cfg s)
    (hx : s.executor = .starting work) (state : OperationState) :
    Ledger { s.give work state with
      executor := .executing work
      history := .began work :: (s.give work state).history } := by
  have hin : s.executor.inHand = some work := by rw [hx]; rfl
  have hpend : s.pending = work :: s.queue := Inv.pending_of_inHand hin
  have hsorted := List.pairwise_cons.mp (hpend ▸ hi.tracks.sorted)
  have hahead : ∀ w ∈ Control.begun s.history, ∀ v ∈ work :: s.queue,
      w.sequence < v.sequence := by
    intro w hw v hv
    refine h.ahead w hw v ?_
    rw [hx]
    exact hv
  -- a shutdown that ran has left the loop, so none is among the earlier ones
  have hnone : ∀ w ∈ Control.begun s.history, w.command.isShutdown = false := by
    intro w hw
    cases hs : w.command.isShutdown with
    | false => rfl
    | true => have := h.last w hw hs; rw [hx] at this; cases this
  constructor
  case fresh =>
    intro w hw
    simp only [Sys.give, nextSequence_set]
    exact h.fresh w hw
  case registrations => exact h.registrations
  case pending =>
    intro w hw
    exact h.pending w (by rw [hpend]; exact hw)
  case begun =>
    intro w hw
    rcases List.mem_cons.mp hw with rfl | hw
    · exact h.pending w (by rw [hpend]; exact List.mem_cons_self)
    · exact h.begun w hw
  case ordered =>
    exact List.pairwise_cons.mpr ⟨fun w hw => hahead w hw work List.mem_cons_self, h.ordered⟩
  case ahead =>
    intro w hw v hv
    rcases List.mem_cons.mp hw with rfl | hw
    · exact hsorted.1 v hv
    · exact hahead w hw v (List.mem_cons_of_mem _ hv)
  case running => rfl
  case serial =>
    refine ⟨?_, h.serial⟩
    exact h.running.trans (by rw [hx]; rfl)
  case final => exact List.pairwise_cons.mpr ⟨fun w hw => hnone w hw, h.final⟩
  case last =>
    intro w hw hs
    rcases List.mem_cons.mp hw with rfl | hw
    · exact hs
    · rw [hnone w hw] at hs; cases hs
  case refused =>
    intro w hw hs
    have hmem : .dequeued w true ∈ s.history :=
      List.mem_of_ne_of_mem (by rintro ⟨⟩) (List.mem_of_ne_of_mem (by rintro ⟨⟩) hw)
    have hr := h.refused w hmem hs
    refine ⟨hr.registered, fun hb => ?_, hr.queue, (by rintro ⟨⟩), (by rintro ⟨⟩)⟩
    rcases List.mem_cons.mp hb with rfl | hb
    · exact hr.starting hx
    · exact hr.begun hb

/-- The executor gives its work a state and goes on to a phase from which
nothing already dequeued is executed. -/
theorem Ledger.settle {work : ExecutorWork} {state : OperationState} {p : Phase} (h : Ledger s)
    (hex : s.executor.executes = none) (hp : p.inHand = none)
    (hdown : s.executor.closingDown = true → p.closingDown = true) :
    Ledger { s.give work state with executor := p } := by
  have hun : p.unbegun = none := by cases p <;> first | rfl | cases hp
  have hnone : p.executes = none := by cases p <;> first | rfl | cases hp
  refine h.turn rfl rfl (fun w hw => (List.mem_cons.mp hw).resolve_left nofun) ?_ ?_
    (fun w hw => hw) hun hdown ?_ h.serial
  · simp [Sys.give]
  · intro w hw
    simp only [Sys.pending, hp, Option.toList_none, List.nil_append] at hw
    exact List.mem_append_right _ hw
  · exact (h.running.trans hex).trans hnone.symm

/-- The executor moves on, away from its loop. -/
theorem Ledger.leave {p : Phase} {queue : List ExecutorWork} {receiving closing done : Bool}
    (h : Ledger s) (hex : s.executor.executes = none) (hun : p.unbegun = none)
    (hnone : p.executes = none) (hdown : p.closingDown = true)
    (hpend : ∀ w ∈ p.inHand.toList ++ queue, w ∈ s.pending) (hq : ∀ w ∈ queue, w ∈ s.queue) :
    Ledger { s with executor := p, queue, receiving, closing, done } :=
  h.turn rfl rfl (fun _ hw => hw) (Nat.le_refl _) hpend hq hun (fun _ => hdown)
    ((h.running.trans hex).trans hnone.symm) h.serial

theorem Ledger.advance (h : Ledger s) (hi : Inv cfg s) (ht : s.advance = some t) : Ledger t := by
  unfold Sys.advance at ht
  cases hx : s.executor with
  | idle =>
    simp only [hx] at ht
    split at ht
    · rename_i hq
      cases ht
      exact h.take hi hx hq
    · split at ht
      · cases ht
      · cases ht
        exact h.leave (by rw [hx]; rfl) rfl rfl rfl (fun w hw => List.mem_append_right _ hw)
          fun w hw => hw
  | dequeued work =>
    simp only [hx] at ht
    split at ht
    · cases ht
      exact h.choose hx (.inl rfl)
    · rename_i hopen
      cases ht
      refine h.choose hx (.inr ⟨rfl, ?_⟩)
      cases hs : work.command.isShutdown with
      | true => exact .inl rfl
      | false => exact .inr (by simpa [hs] using hopen)
  | refusing work =>
    simp only [hx] at ht
    cases ht
    exact h.settle (by rw [hx]; rfl) rfl (by rw [hx]; nofun)
  | starting work =>
    simp only [hx] at ht
    cases ht
    exact h.begin hi hx _
  | executing work => simp only [hx] at ht; cases ht
  | finished work result =>
    simp only [hx] at ht
    cases ht
    split
    · exact h.settle (by rw [hx]; rfl) rfl fun _ => rfl
    · rename_i hs
      exact h.settle (by rw [hx]; rfl) rfl fun hdown => absurd (by rw [hx] at hdown; exact hdown) hs
  | panicked work join =>
    simp only [hx] at ht
    cases ht
    exact h.settle (by rw [hx]; rfl) rfl fun _ => rfl
  | dying =>
    simp only [hx] at ht
    cases ht
    exact h.leave (by rw [hx]; rfl) rfl rfl rfl (fun w hw => List.mem_append_right _ hw)
      fun w hw => hw
  | closingQueue exit =>
    simp only [hx] at ht
    cases ht
    exact h.leave (by rw [hx]; rfl) rfl rfl rfl (fun w hw => List.mem_append_right _ hw)
      fun w hw => hw
  | draining exit =>
    simp only [hx] at ht
    split at ht
    · rename_i work rest hq
      cases ht
      refine h.leave (by rw [hx]; rfl) rfl rfl rfl (fun w hw => ?_) fun w hw => ?_
      · rw [Sys.pending, hx, hq]
        exact hw
      · rw [hq]
        exact List.mem_cons_of_mem _ hw
    · split at ht
      · cases ht
        exact h.leave (by rw [hx]; rfl) rfl rfl rfl (fun w hw => List.mem_append_right _ hw)
          fun w hw => hw
      · cases ht
  | drained exit work =>
    simp only [hx] at ht
    cases ht
    exact h.settle (by rw [hx]; rfl) rfl fun _ => rfl
  | returned exit =>
    simp only [hx] at ht
    cases ht
    exact h.leave (by rw [hx]; rfl) rfl rfl rfl (fun w hw => List.mem_append_right _ hw)
      fun w hw => hw
  | exited exit => simp only [hx] at ht; cases ht

theorem Ledger.finish {reply : Reply} (h : Ledger s) (ht : s.finish reply = some t) :
    Ledger t := by
  obtain ⟨work, hx, hcases⟩ := finish_cases ht
  have hrun : Control.running s.history = some work := h.running.trans (by rw [hx]; rfl)
  have hpend : ∀ w ∈ work :: s.queue, w ∈ s.pending := by
    rw [Sys.pending, hx]; exact fun w hw => hw
  obtain ⟨join, -, rfl⟩ | ⟨result, -, rfl⟩ := hcases
  · exact h.turn rfl rfl (fun w hw => List.mem_of_ne_of_mem (by rintro ⟨⟩) hw) (Nat.le_refl _)
      hpend (fun w hw => hw) rfl (by rw [hx]; exact id) rfl ⟨hrun, h.serial⟩
  · exact h.turn rfl rfl (fun w hw => List.mem_of_ne_of_mem (by rintro ⟨⟩) hw) (Nat.le_refl _)
      hpend (fun w hw => hw) rfl (by rw [hx]; exact id) rfl ⟨hrun, h.serial⟩

theorem ledger_step {a : Action} (hi : Inv cfg s) (h : Ledger s) (ht : s.step cfg a = some t) :
    Ledger t := by
  cases step_effect ht with
  | calls => exact h.of_callers id (Nat.le_refl _)
  | caller _ hs => exact h.caller (callerStep_effect hs)
  | advance ha => exact h.advance hi ha
  | finish hf => exact h.finish hf

theorem ledger_reachable (h : (machine cfg).Reachable s) : Ledger s :=
  h.invariant_of (fun _ => inv_reachable) ledger_init fun _ _ _ hi hl _ hs => ledger_step hi hl hs

/-! ## Nothing live is evicted -/

/-- Every live operation of `r` is still registered in `r'`. -/
def RegistryInner.Keeps (r r' : RegistryInner) : Prop :=
  ∀ id op, r.operations.lookup id = some op → op.state.isTerminal = false →
    ∃ op', r'.operations.lookup id = some op' ∧ op'.digest = op.digest ∧ op'.sequence = op.sequence

variable {r r' : RegistryInner}

theorem RegistryInner.Keeps.refl (r : RegistryInner) : r.Keeps r :=
  fun _ op hop _ => ⟨op, hop, rfl, rfl⟩

theorem keeps_set (r : RegistryInner) (id : OperationId) (state : OperationState) :
    r.Keeps (r.set id state) := by
  intro x op hop _
  by_cases hx : x = id
  · subst hx; exact ⟨_, lookup_set_self state hop, rfl, rfl⟩
  · exact ⟨op, (lookup_set_ne state hx).trans hop, rfl, rfl⟩

theorem keeps_admit {capacity : Nat} {id : OperationId} {digest : String}
    {enqueue : Except TrySendError Unit} {result : Except CoreError Admission}
    (ha : r.admitOperation capacity id digest enqueue = (result, r')) : r.Keeps r' := by
  cases hlook : r.operations.lookup id with
  | some existing =>
    simp only [RegistryInner.admitOperation, hlook] at ha
    split at ha <;> exact (Prod.mk.inj ha).2 ▸ .refl r
  | none =>
    have he := evicted_evict capacity r
    have hn : (r.evict capacity).operations.lookup id = none := he.lookup_none hlook
    intro x op hop hl
    have hkept : (r.evict capacity).operations.lookup x = some op := he.lookup_live hop hl
    refine ⟨op, ?_, rfl, rfl⟩
    cases enqueue with
    | error e =>
      simp only [RegistryInner.admitOperation, hlook] at ha
      rw [← (Prod.mk.inj ha).2, (unregister_register digest hn).1]
      exact hkept
    | ok u =>
      simp only [RegistryInner.admitOperation, hlook] at ha
      rw [← (Prod.mk.inj ha).2]
      have hne : x ≠ id := by rintro rfl; rw [hlook] at hop; cases hop
      exact (Finmap.lookup_insert_of_ne _ hne).trans hkept

theorem advance_registry (h : s.advance = some t) :
    t.registry = s.registry ∨ ∃ id state, t.registry = s.registry.set id state := by
  unfold Sys.advance at h
  repeat' split at h
  all_goals first
    | cases h; done
    | cases h; exact .inl rfl
    | cases h; exact .inr ⟨_, _, rfl⟩

theorem keeps_step {a : Action} (h : s.step cfg a = some t) : s.registry.Keeps t.registry := by
  cases step_effect h with
  | calls => exact .refl _
  | caller _ hs =>
    cases callerStep_effect hs with
    | pass => exact .refl _
    | reserve => exact .refl _
    | settled _ hadm _ => exact keeps_admit hadm
    | admitted _ _ _ hadm => exact keeps_admit hadm
  | advance ha =>
    rcases advance_registry ha with he | ⟨id, state, he⟩
    · rw [he]; exact .refl _
    · rw [he]; exact keeps_set _ _ _
  | finish hf =>
    obtain ⟨work, -, ⟨join, -, rfl⟩ | ⟨result, -, rfl⟩⟩ := finish_cases hf
    · exact .refl _
    · exact .refl _

/-! ## The discipline of the executor -/

structure Disciplined (cfg : Config) (s : Sys) : Prop where
  /-- A registration is named by its sequence number. -/
  registrations : InSequence (registered s.history)
  executed : ∀ w ∈ begun s.history, w ∈ registered s.history
  once : ∀ w ∈ registered s.history, (begun s.history).count w ≤ 1
  serial : Serial s.history
  ordered : InSequence (begun s.history)
  refused : ∀ w, .dequeued w true ∈ s.history → w.command.isShutdown = false →
    w ∉ begun s.history
  /-- Nothing is executed after a shutdown. -/
  final : ∀ newer w older, begun s.history = newer ++ w :: older →
    w.command.isShutdown = true → newer = []
  kept : ∀ a t, s.step cfg a = some t → s.registry.Keeps t.registry
  bounded : s.registry.size ≤ cfg.capacity
  indexed : s.registry.Indexed
  /-- Once the executor has returned, whatever is retained is terminal. -/
  complete : s.executor.isOver = true → ∀ id op, s.registry.operations.lookup id = some op →
    op.state.isTerminal = true

theorem Ledger.nothing_after_shutdown (h : Ledger s) {newer older : List ExecutorWork}
    {w : ExecutorWork} (heq : Control.begun s.history = newer ++ w :: older)
    (hs : w.command.isShutdown = true) : newer = [] := by
  have hf := h.final
  rw [heq, List.pairwise_append] at hf
  cases newer with
  | nil => rfl
  | cons v rest =>
    have := hf.2.2 v List.mem_cons_self w List.mem_cons_self
    rw [hs] at this
    cases this

theorem Inv.terminal_of_isOver (h : Inv cfg s) (ho : s.executor.isOver = true) {id : OperationId}
    {op : RegisteredOperation} (hop : s.registry.operations.lookup id = some op) :
    op.state.isTerminal = true := by
  have hnone : s.pending = [] := by
    rw [Sys.pending, (h.quiet ho).1]
    cases hx : s.executor <;> rw [hx] at ho <;> first | rfl | cases ho
  cases hterm : op.state.isTerminal with
  | true => rfl
  | false =>
    obtain ⟨w, hw, -⟩ := h.tracks.live id op hop hterm
    rw [hnone] at hw
    cases hw

/-- Whatever callers, cancellations and panics interleave. -/
theorem executor_disciplined {cfg : Config} {s : Sys} (h : (machine cfg).Reachable s) :
    Disciplined cfg s := by
  have hi := inv_reachable h
  have hl := ledger_reachable h
  exact {
    registrations := hl.registrations
    executed := hl.begun
    once := fun w _ => hl.ordered.count_le_one w
    serial := hl.serial
    ordered := hl.ordered
    refused := fun w hw hs => (hl.refused w hw hs).begun
    final := fun _ _ _ heq hs => hl.nothing_after_shutdown heq hs
    kept := fun _ _ hs => keeps_step hs
    bounded := hi.room
    indexed := hi.tracks.indexed
    complete := fun ho _ _ hop => hi.terminal_of_isOver ho hop }

/-- A queue of one and the smallest registry bound it allows. -/
def smallConfig : Config := ⟨1, 1, ⟨.prefer, true⟩⟩

/-- A caller submits `Stop` and `shutdown` overtakes it at the latch: the stop
is refused, the shutdown runs, and the executor exits. -/
def overtaken : List Action :=
  let fresh : OperationId := ⟨9, 1, 1⟩
  [.callSubmit ⟨⟨7, 1, 0⟩, .stop⟩, .caller 0 fresh, .caller 0 fresh, .callShutdown,
    .caller 1 fresh, .advance, .caller 1 fresh, .caller 1 fresh, .advance, .advance, .advance,
    .advance, .advance, .finish (.answered (.ok ())), .advance, .advance, .advance, .advance]

theorem overtaken_disciplined :
    ∃ s, (machine smallConfig).run .init overtaken = some s ∧ Disciplined smallConfig s := by
  have hrun : ((machine smallConfig).run .init overtaken).isSome = true := by decide +kernel
  obtain ⟨s, hs⟩ := Option.isSome_iff_exists.mp hrun
  exact ⟨s, hs, executor_disciplined (Machine.run_reachable .init hs)⟩

end Chimera.Control
