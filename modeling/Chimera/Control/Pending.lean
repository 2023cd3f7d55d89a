import Chimera.Control.Executor
import Mathlib.Data.Finset.Card

/-! The registry against the work between admission and completion.

`Tracks r pending` says that the pending work, in queue order, is exactly the
registry's non-terminal operations. Every registry operation keeps it, with the
pending work changed in the one way that operation changes the queue; and it
bounds the registry, because whatever is not pending can be evicted. -/

namespace Chimera.Control
open Chimera.Model Chimera.Lib.Transition

/-! ## The order queue and the map -/

/-- The order queue is a duplicate-free permutation of the map's keys. -/
def RegistryInner.Indexed (r : RegistryInner) : Prop :=
  r.order.Nodup ∧ ∀ id, id ∈ r.order ↔ id ∈ r.operations

theorem eraseP_eq_erase_of_find {α : Type} [DecidableEq α] {p : α → Bool} {l : List α} {a : α}
    (h : l.find? p = some a) : l.eraseP p = l.erase a := by
  induction l with
  | nil => simp at h
  | cons x rest ih =>
    cases hx : p x with
    | true =>
      simp only [List.find?_cons, hx, Option.some.injEq] at h
      subst h
      simp [hx]
    | false =>
      have ha : p a = true := List.find?_some h
      have hne : x ≠ a := by rintro rfl; rw [hx] at ha; cases ha
      simp only [List.find?_cons, hx] at h
      rw [List.eraseP_cons_of_neg (by simp [hx]), List.erase_cons_tail (by simpa using hne), ih h]

theorem indexed_evictOldest {r : RegistryInner} {id : OperationId} (h : r.Indexed)
    (hf : r.order.find? r.terminalAt = some id) : (r.evictOldest id).Indexed := by
  obtain ⟨hn, hm⟩ := h
  simp only [RegistryInner.Indexed, RegistryInner.evictOldest, eraseP_eq_erase_of_find hf]
  refine ⟨hn.erase id, fun x => ?_⟩
  rw [hn.mem_erase_iff, Finmap.mem_erase, hm]

theorem indexed_evictLoop (capacity fuel : Nat) {r : RegistryInner} (h : r.Indexed) :
    (RegistryInner.evictLoop capacity fuel r).Indexed := by
  induction fuel generalizing r with
  | zero => exact h
  | succ fuel ih =>
    simp only [RegistryInner.evictLoop]
    split
    · split
      · exact h
      · rename_i hf
        exact ih (indexed_evictOldest h hf)
    · exact h

theorem indexed_register {r : RegistryInner} {id : OperationId} (digest : String) (h : r.Indexed)
    (hn : r.operations.lookup id = none) : (r.register id digest).Indexed := by
  obtain ⟨hd, hm⟩ := h
  have hnew : id ∉ r.order := by rw [hm]; exact Finmap.lookup_eq_none.mp hn
  refine ⟨?_, fun x => ?_⟩
  · simp only [RegistryInner.register, List.nodup_append, hd, List.nodup_singleton, true_and]
    intro a ha b hb hab
    simp only [List.mem_singleton] at hb
    exact hnew (hb ▸ hab ▸ ha)
  · simp [RegistryInner.register, Finmap.mem_insert, hm, or_comm]

theorem indexed_set {r : RegistryInner} (id : OperationId) (state : OperationState)
    (h : r.Indexed) : (r.set id state).Indexed := by
  unfold RegistryInner.set
  split
  · rename_i op hop
    refine ⟨h.1, fun x => ?_⟩
    rw [Finmap.mem_insert, h.2]
    constructor
    · exact .inr
    · rintro (rfl | hx)
      · exact Finmap.mem_of_lookup_eq_some hop
      · exact hx
  · exact h

/-! ## The registry and the pending work -/

structure Tracks (r : RegistryInner) (pending : List ExecutorWork) : Prop where
  sorted : pending.Pairwise fun a b => a.sequence < b.sequence
  bounded : ∀ w ∈ pending, w.sequence < r.nextSequence
  registered : ∀ w ∈ pending, ∃ op, r.operations.lookup w.id = some op ∧
    op.sequence = w.sequence ∧ op.state.isTerminal = false
  live : ∀ id op, r.operations.lookup id = some op → op.state.isTerminal = false →
    ∃ w ∈ pending, w.id = id
  indexed : r.Indexed

variable {r r' : RegistryInner} {pending : List ExecutorWork} {capacity : Nat}
  {id : OperationId} {digest : String} {enqueue : Except TrySendError Unit}

theorem Tracks.evict (h : Tracks r pending) : Tracks (r.evict capacity) pending := by
  have he := evicted_evict capacity r
  refine ⟨h.sorted, ?_, ?_, ?_, indexed_evictLoop _ _ h.indexed⟩
  · rw [he.sequence]; exact h.bounded
  · intro w hw
    obtain ⟨op, hop, hs, hl⟩ := h.registered w hw
    exact ⟨op, he.lookup_live hop hl, hs, hl⟩
  · exact fun id op hop hl => h.live id op (he.lookup_some hop) hl

/-- A refused admission leaves the live operations alone. -/
theorem Tracks.of_rejected {error : CoreError} (h : Tracks r pending)
    (ha : r.admitOperation capacity id digest enqueue = (.error error, r')) : Tracks r' pending := by
  cases hlook : r.operations.lookup id with
  | some existing =>
    simp only [RegistryInner.admitOperation, hlook] at ha
    split at ha
    · cases ha
    · exact (Prod.mk.inj ha).2 ▸ h
  | none =>
    cases enqueue with
    | ok u => simp [RegistryInner.admitOperation, hlook] at ha
    | error e =>
      simp only [RegistryInner.admitOperation, hlook] at ha
      obtain ⟨-, rfl⟩ := Prod.mk.inj ha
      have hn : (r.evict capacity).operations.lookup id = none :=
        (evicted_evict capacity r).lookup_none hlook
      obtain ⟨hops, hord⟩ := unregister_register digest hn
      have ht : Tracks (r.evict capacity) pending := h.evict
      refine ⟨ht.sorted, fun w hw => Nat.lt_succ_of_lt (ht.bounded w hw), ?_, ?_, ?_⟩
      · rw [hops]; exact ht.registered
      · rw [hops]; exact ht.live
      · rw [RegistryInner.Indexed, hops, hord]; exact ht.indexed

theorem admit_existing {a : Admitted}
    (ha : r.admitOperation capacity id digest enqueue = (.ok (.existing a), r')) : r' = r := by
  cases hlook : r.operations.lookup id with
  | some existing =>
    simp only [RegistryInner.admitOperation, hlook] at ha
    split at ha
    · exact (Prod.mk.inj ha).2.symm
    · cases ha
  | none => cases enqueue <;> simp [RegistryInner.admitOperation, hlook] at ha

/-- Everything a successful registration says. -/
theorem admit_registered {a : Admitted}
    (ha : r.admitOperation capacity id digest enqueue = (.ok (.registered a), r')) :
    enqueue = .ok () ∧ r.operations.lookup id = none ∧ a.sequence = r.nextSequence ∧
      r' = (r.evict capacity).register id digest := by
  cases hlook : r.operations.lookup id with
  | some existing =>
    simp only [RegistryInner.admitOperation, hlook] at ha
    split at ha <;> cases ha
  | none =>
    cases enqueue with
    | error e => simp [RegistryInner.admitOperation, hlook] at ha
    | ok u =>
      simp only [RegistryInner.admitOperation, hlook, Prod.mk.injEq, Except.ok.injEq,
        Admission.registered.injEq] at ha
      obtain ⟨rfl, rfl⟩ := ha
      exact ⟨rfl, rfl, (evicted_evict capacity r).sequence, rfl⟩

theorem admit_registered_state {a : Admitted}
    (ha : r.admitOperation capacity id digest enqueue = (.ok (.registered a), r')) :
    a.state = .queued := by
  obtain ⟨rfl, hlook, -, -⟩ := admit_registered ha
  simp only [RegistryInner.admitOperation, hlook, Prod.mk.injEq, Except.ok.injEq,
    Admission.registered.injEq] at ha
  rw [← ha.1]

/-- A registration appends its work to the pending work. -/
theorem Tracks.of_registered {a : Admitted} (command : CoreCommand) (h : Tracks r pending)
    (ha : r.admitOperation capacity id digest enqueue = (.ok (.registered a), r')) :
    Tracks r' (pending ++ [⟨id, command, a.sequence⟩]) := by
  obtain ⟨-, hlook, hseq, rfl⟩ := admit_registered ha
  have he := evicted_evict capacity r
  have ht : Tracks (r.evict capacity) pending := h.evict
  have hn : (r.evict capacity).operations.lookup id = none := he.lookup_none hlook
  have hseq' : a.sequence = (r.evict capacity).nextSequence := hseq.trans he.sequence.symm
  have hother : ∀ x, x ≠ id →
      ((r.evict capacity).register id digest).operations.lookup x =
        (r.evict capacity).operations.lookup x :=
    fun x hx => Finmap.lookup_insert_of_ne _ hx
  refine ⟨?_, ?_, ?_, ?_, indexed_register digest ht.indexed hn⟩
  · rw [List.pairwise_append]
    refine ⟨ht.sorted, List.pairwise_singleton _ _, fun w hw b hb => ?_⟩
    rw [List.mem_singleton.mp hb]
    exact hseq' ▸ ht.bounded w hw
  · intro w hw
    rcases List.mem_append.mp hw with hw | hw
    · exact Nat.lt_succ_of_lt (ht.bounded w hw)
    · rw [List.mem_singleton.mp hw]
      exact hseq' ▸ Nat.lt_succ_self _
  · intro w hw
    rcases List.mem_append.mp hw with hw | hw
    · obtain ⟨op, hop, hs, hl⟩ := ht.registered w hw
      have hne : w.id ≠ id := by rintro he'; rw [he', hn] at hop; cases hop
      exact ⟨op, (hother _ hne).trans hop, hs, hl⟩
    · rw [List.mem_singleton.mp hw]
      exact ⟨_, Finmap.lookup_insert _, hseq'.symm, rfl⟩
  · intro x op hop hl
    by_cases hx : x = id
    · exact ⟨_, List.mem_append_right _ (List.mem_singleton.mpr rfl), hx.symm⟩
    · rw [hother x hx] at hop
      obtain ⟨w, hw, hid⟩ := ht.live x op hop hl
      exact ⟨w, List.mem_append_left _ hw, hid⟩

theorem lookup_set_self {op : RegisteredOperation} (state : OperationState)
    (h : r.operations.lookup id = some op) :
    (r.set id state).operations.lookup id = some { op with state } := by
  simp only [RegistryInner.set, h]
  exact Finmap.lookup_insert _

theorem lookup_set_ne {x : OperationId} (state : OperationState) (h : x ≠ id) :
    (r.set id state).operations.lookup x = r.operations.lookup x := by
  unfold RegistryInner.set
  split
  · exact Finmap.lookup_insert_of_ne _ h
  · rfl

@[simp] theorem nextSequence_set (r : RegistryInner) (id : OperationId) (state : OperationState) :
    (r.set id state).nextSequence = r.nextSequence := by
  unfold RegistryInner.set
  split <;> rfl

@[simp] theorem size_set (r : RegistryInner) (id : OperationId) (state : OperationState) :
    (r.set id state).size = r.size := by
  unfold RegistryInner.set
  split
  · rename_i op hop
    simp only [RegistryInner.size, keys_insert]
    rw [Finset.insert_eq_of_mem (Finmap.mem_keys.mpr (Finmap.mem_of_lookup_eq_some hop))]
  · rfl

/-- Two pending works of one id are one work: the registry holds one sequence
for it. -/
theorem Tracks.id_inj (h : Tracks r pending) {a b : ExecutorWork} (ha : a ∈ pending)
    (hb : b ∈ pending) (hid : a.id = b.id) : a.sequence = b.sequence := by
  obtain ⟨op, hop, hs, _⟩ := h.registered a ha
  obtain ⟨op', hop', hs', _⟩ := h.registered b hb
  rw [hid, hop'] at hop
  cases hop
  exact hs.symm.trans hs'

/-- Moving the work in hand to another live state. -/
theorem Tracks.set_live {w : ExecutorWork} {state : OperationState} (h : Tracks r pending)
    (hw : w ∈ pending) (hs : state.isTerminal = false) : Tracks (r.set w.id state) pending := by
  obtain ⟨op, hop, hseq, hl⟩ := h.registered w hw
  refine ⟨h.sorted, by simpa using h.bounded, ?_, ?_, indexed_set _ _ h.indexed⟩
  · intro v hv
    by_cases hid : v.id = w.id
    · refine ⟨{ op with state }, ?_, hseq.trans (h.id_inj hw hv hid.symm), hs⟩
      rw [hid]; exact lookup_set_self state hop
    · rw [lookup_set_ne state hid]; exact h.registered v hv
  · intro x op' hop' hl'
    by_cases hid : x = w.id
    · exact ⟨w, hw, hid.symm⟩
    · rw [lookup_set_ne state hid] at hop'; exact h.live x op' hop' hl'

/-- Giving the work in hand its terminal state takes it out of the pending
work. -/
theorem Tracks.set_terminal {w : ExecutorWork} {state : OperationState}
    (h : Tracks r (w :: pending)) (hs : state.isTerminal = true) :
    Tracks (r.set w.id state) pending := by
  have hsort := List.pairwise_cons.mp h.sorted
  have hne : ∀ v ∈ pending, v.id ≠ w.id := by
    intro v hv hid
    have hlt := hsort.1 v hv
    have heq := h.id_inj (List.mem_cons_of_mem _ hv) List.mem_cons_self hid
    omega
  refine ⟨hsort.2, fun v hv => ?_, ?_, ?_, indexed_set _ _ h.indexed⟩
  · simpa using h.bounded v (List.mem_cons_of_mem _ hv)
  · intro v hv
    rw [lookup_set_ne state (hne v hv)]
    exact h.registered v (List.mem_cons_of_mem _ hv)
  · intro x op' hop' hl'
    by_cases hid : x = w.id
    · obtain ⟨op, hop, _⟩ := h.registered w List.mem_cons_self
      rw [hid, lookup_set_self state hop] at hop'
      cases hop'
      rw [hs] at hl'; cases hl'
    · rw [lookup_set_ne state hid] at hop'
      obtain ⟨v, hv, hvid⟩ := h.live x op' hop' hl'
      rcases List.mem_cons.mp hv with rfl | hv
      · exact absurd hvid.symm hid
      · exact ⟨v, hv, hvid⟩

/-- A registry with more room than pending work always finds something to
evict, so a registration keeps it within its bound. -/
theorem Tracks.evict_size_lt (h : Tracks r pending) (hp : pending.length < capacity) :
    (r.evict capacity).size < capacity := by
  by_contra hge
  have ht : Tracks (r.evict capacity) pending := h.evict
  have hsub : (r.evict capacity).operations.keys ⊆ (pending.map ExecutorWork.id).toFinset := by
    intro x hx
    obtain ⟨op, hop⟩ := Finmap.mem_iff.mp (Finmap.mem_keys.mp hx)
    have hlive : op.state.isTerminal = false := by
      cases hterm : op.state.isTerminal with
      | false => rfl
      | true =>
        refine absurd ⟨by omega, x, (ht.indexed.2 x).mpr (Finmap.mem_keys.mp hx), ?_⟩
          (evict_done capacity r)
        simp [RegistryInner.terminalAt, hop, hterm]
    obtain ⟨w, hw, hid⟩ := ht.live x op hop hlive
    exact List.mem_toFinset.mpr (List.mem_map.mpr ⟨w, hw, hid⟩)
  have hcard := Finset.card_le_card hsub
  have hlen := List.toFinset_card_le (pending.map ExecutorWork.id)
  simp only [List.length_map] at hlen
  simp only [RegistryInner.size] at hge
  omega

theorem size_register (r : RegistryInner) (id : OperationId) (digest : String) :
    (r.register id digest).size ≤ r.size + 1 := by
  simp only [RegistryInner.size, RegistryInner.register, keys_insert]
  exact Finset.card_insert_le _ _

theorem Evicted.size_le (h : Evicted r r') : r'.size ≤ r.size := by
  apply Finset.card_le_card
  intro x hx
  obtain ⟨op, hop⟩ := Finmap.mem_iff.mp (Finmap.mem_keys.mp hx)
  exact Finmap.mem_keys.mpr (Finmap.mem_of_lookup_eq_some (h.lookup_some hop))

/-- An admission that registers nothing can only shrink the registry. -/
theorem admit_size_le_of_unregistered {result : Except CoreError Admission}
    (ha : r.admitOperation capacity id digest enqueue = (result, r'))
    (hres : ∀ a, result ≠ .ok (.registered a)) : r'.size ≤ r.size := by
  cases hlook : r.operations.lookup id with
  | some existing =>
    simp only [RegistryInner.admitOperation, hlook] at ha
    split at ha <;> exact (Prod.mk.inj ha).2 ▸ Nat.le_refl _
  | none =>
    cases enqueue with
    | error e =>
      simp only [RegistryInner.admitOperation, hlook] at ha
      obtain ⟨-, rfl⟩ := Prod.mk.inj ha
      have hn : (r.evict capacity).operations.lookup id = none :=
        (evicted_evict capacity r).lookup_none hlook
      rw [RegistryInner.size, (unregister_register digest hn).1]
      exact (evicted_evict capacity r).size_le
    | ok u =>
      simp only [RegistryInner.admitOperation, hlook] at ha
      exact absurd (Prod.mk.inj ha).1.symm (hres _)

/-- A registration with more room than pending work stays within the bound. -/
theorem Tracks.admit_size_le {a : Admitted} (h : Tracks r pending) (hp : pending.length < capacity)
    (ha : r.admitOperation capacity id digest enqueue = (.ok (.registered a), r')) :
    r'.size ≤ capacity := by
  obtain ⟨-, -, -, rfl⟩ := admit_registered ha
  have hlt := h.evict_size_lt hp
  have := size_register (r.evict capacity) id digest
  omega

/-! ## What a caller's step can do -/

inductive CallerEffect (cfg : Config) (s : Sys) (c : Caller) : Caller → Sys → Prop
  /-- No admission: the latch may have gone down. -/
  | pass {c' : Caller} (closing : Bool) : (s.closing = true → closing = true) →
      c.holdsPermit = false → c'.holdsPermit = false →
      CallerEffect cfg s c c' { s with closing }
  | reserve : c = .reserving → s.receiving = true → s.hasSlot cfg = true →
      CallerEffect cfg s c .permitted s
  /-- An admission that registers nothing. -/
  | settled {c' : Caller} {registry : RegistryInner} {id : OperationId} {digest : String}
      {enqueue : Except TrySendError Unit} {result : Except CoreError Admission} :
      c'.holdsPermit = false →
      s.registry.admitOperation cfg.capacity id digest enqueue = (result, registry) →
      (∀ a, result ≠ .ok (.registered a)) → CallerEffect cfg s c c' { s with registry }
  /-- A registration, with its work at the tail of the queue. -/
  | admitted {c' : Caller} {registry : RegistryInner} {id : OperationId} {digest : String}
      {a : Admitted} (command : CoreCommand) :
      c.holdsPermit = true ∨ s.receiving = true ∧ s.hasSlot cfg = true → c'.holdsPermit = false →
      s.registry.admitOperation cfg.capacity id digest (.ok ()) = (.ok (.registered a), registry) →
      CallerEffect cfg s c c' ({ s with registry }.enqueue ⟨id, command, a.sequence⟩)

theorem trySend_ok {cfg : Config} {s : Sys} (h : s.trySend cfg = .ok ()) :
    s.receiving = true ∧ s.hasSlot cfg = true := by
  unfold Sys.trySend at h
  split at h
  · cases h
  · split at h
    · simp_all
    · cases h

theorem submitStep_effect {cfg : Config} {s s' : Sys} {c c' : Caller}
    (h : s.submitStep cfg c = some (c', s')) : CallerEffect cfg s c c' s' := by
  cases c with
  | submitting envelope =>
    simp only [Sys.submitStep] at h
    split at h <;> obtain ⟨rfl, rfl⟩ := Prod.mk.inj (Option.some.inj h)
    · exact .pass s.closing id rfl rfl
    · exact .pass s.closing id rfl rfl
  | admitting envelope =>
    simp only [Sys.submitStep] at h
    split at h
    · rename_i hadm
      obtain ⟨rfl, rfl⟩ := Prod.mk.inj (Option.some.inj h)
      exact .settled rfl hadm nofun
    · rename_i hadm
      obtain ⟨rfl, rfl⟩ := Prod.mk.inj (Option.some.inj h)
      exact .settled rfl hadm nofun
    · rename_i hadm
      have hok := (admit_registered hadm).1
      rw [hok] at hadm
      have hslot := trySend_ok hok
      split at h <;> obtain ⟨rfl, rfl⟩ := Prod.mk.inj (Option.some.inj h)
      · exact .admitted _ (.inr hslot) rfl hadm
      · exact .admitted _ (.inr hslot) rfl hadm
  | latching handle =>
    obtain ⟨rfl, rfl⟩ := Prod.mk.inj (Option.some.inj h)
    exact .pass true (fun _ => rfl) rfl rfl
  | _ => simp [Sys.submitStep] at h

theorem shutdownStep_effect {cfg : Config} {fresh : OperationId} {s s' : Sys} {c c' : Caller}
    (h : s.shutdownStep cfg fresh c = some (c', s')) : CallerEffect cfg s c c' s' := by
  cases c with
  | closing =>
    obtain ⟨rfl, rfl⟩ := Prod.mk.inj (Option.some.inj h)
    exact .pass true (fun _ => rfl) rfl rfl
  | reserving =>
    simp only [Sys.shutdownStep] at h
    split at h
    · obtain ⟨rfl, rfl⟩ := Prod.mk.inj (Option.some.inj h)
      exact .pass s.closing id rfl rfl
    · split at h
      · obtain ⟨rfl, rfl⟩ := Prod.mk.inj (Option.some.inj h)
        exact .reserve rfl (by simp_all) (by simp_all)
      · cases h
  | permitted =>
    simp only [Sys.shutdownStep] at h
    split at h
    · rename_i hadm
      obtain ⟨rfl, rfl⟩ := Prod.mk.inj (Option.some.inj h)
      exact .settled rfl hadm nofun
    · rename_i hadm
      obtain ⟨rfl, rfl⟩ := Prod.mk.inj (Option.some.inj h)
      exact .settled rfl hadm nofun
    · rename_i hadm
      obtain ⟨rfl, rfl⟩ := Prod.mk.inj (Option.some.inj h)
      exact .admitted _ (.inl rfl) rfl hadm
  | awaitingExit =>
    simp only [Sys.shutdownStep] at h
    split at h
    · obtain ⟨rfl, rfl⟩ := Prod.mk.inj (Option.some.inj h)
      exact .pass s.closing id rfl rfl
    · split at h
      · obtain ⟨rfl, rfl⟩ := Prod.mk.inj (Option.some.inj h)
        exact .pass s.closing id rfl rfl
      · cases h
  | waiting handle =>
    simp only [Sys.shutdownStep] at h
    split at h
    · obtain ⟨rfl, rfl⟩ := Prod.mk.inj (Option.some.inj h)
      exact .pass s.closing id rfl rfl
    · obtain ⟨rfl, rfl⟩ := Prod.mk.inj (Option.some.inj h)
      exact .pass s.closing id rfl rfl
    · cases h
  | _ => simp [Sys.shutdownStep] at h

theorem callerStep_effect {cfg : Config} {fresh : OperationId} {s s' : Sys} {c c' : Caller}
    (h : s.callerStep cfg fresh c = some (c', s')) : CallerEffect cfg s c c' s' := by
  unfold Sys.callerStep at h
  split at h
  · rename_i hs
    exact submitStep_effect (hs.trans h)
  · exact shutdownStep_effect h

end Chimera.Control
