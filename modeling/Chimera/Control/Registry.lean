import Chimera.Control.Command
import Mathlib.Data.Finmap
import Mathlib.Data.List.Perm.Basic

/-! The bounded registry of recent operations: the idempotency table of the
control plane. An admission looks the id up, evicts terminal entries until the
new one fits, registers it and enqueues the work, all under one lock; the
enqueue can still be refused, and then the registration is undone. -/

namespace Chimera.Control

/-- `state` is the value held by the operation's watch channel. -/
structure RegisteredOperation where
  digest : String
  sequence : Nat
  state : OperationState
  deriving DecidableEq

structure RegistryInner where
  operations : Finmap fun _ : OperationId => RegisteredOperation
  order : List OperationId
  nextSequence : Nat

def RegistryInner.new : RegistryInner := ⟨∅, [], 0⟩

/-- `operations.len()`. -/
def RegistryInner.size (r : RegistryInner) : Nat := r.operations.keys.card

inductive TrySendError where
  | full
  | closed
  deriving DecidableEq, Repr

/-- `state` is what the returned receiver reads at subscription. -/
structure Admitted where
  sequence : Nat
  state : OperationState
  deriving DecidableEq

inductive Admission where
  | registered (admitted : Admitted)
  | existing (admitted : Admitted)
  deriving DecidableEq

/-- The eviction test: the id names a retained operation in a terminal state. -/
def RegistryInner.terminalAt (r : RegistryInner) (id : OperationId) : Bool :=
  match r.operations.lookup id with
  | some operation => operation.state.isTerminal
  | none => false

/-- One pass of the eviction loop: the oldest terminal entry leaves the order
queue and the map. -/
def RegistryInner.evictOldest (r : RegistryInner) (id : OperationId) : RegistryInner :=
  { r with operations := r.operations.erase id, order := r.order.eraseP r.terminalAt }

/-- `while operations.len() >= capacity`. Every pass shortens the order queue,
so its length is enough fuel (`evict_done`). -/
def RegistryInner.evictLoop (capacity : Nat) : Nat → RegistryInner → RegistryInner
  | 0, r => r
  | fuel + 1, r =>
    if capacity ≤ r.size then
      match r.order.find? r.terminalAt with
      | none => r
      | some evicted => evictLoop capacity fuel (r.evictOldest evicted)
    else r

def RegistryInner.evict (capacity : Nat) (r : RegistryInner) : RegistryInner :=
  evictLoop capacity r.order.length r

/-- Registration of a fresh id: a new watch channel, the next sequence number,
the map entry and the tail of the order queue. -/
def RegistryInner.register (r : RegistryInner) (id : OperationId) (digest : String) :
    RegistryInner where
  operations := r.operations.insert id ⟨digest, r.nextSequence, .queued⟩
  order := r.order ++ [id]
  nextSequence := r.nextSequence + 1

/-- The undo after a refused enqueue: the entry and the tail of the order
queue go; the sequence number stays spent. -/
def RegistryInner.unregister (r : RegistryInner) (id : OperationId) : RegistryInner :=
  { r with operations := r.operations.erase id, order := r.order.dropLast }

def conflictError (id : OperationId) : CoreError :=
  (CoreError.new .operationConflict
    ("operation " ++ id.display ++ " was already submitted with a different payload")
    false).withOperation id

def TrySendError.toCoreError (id : OperationId) : TrySendError → CoreError
  | .full => (CoreError.new .queueFull "the operation queue is full" true).withOperation id
  | .closed => (CoreError.new .internal "the control executor is gone" false).withOperation id

/-- `Registry::admit`. `enqueue` is the outcome of the non-blocking enqueue,
which cannot look at the registry. -/
def RegistryInner.admitOperation (capacity : Nat) (r : RegistryInner) (id : OperationId)
    (digest : String) (enqueue : Except TrySendError Unit) :
    Except CoreError Admission × RegistryInner :=
  match r.operations.lookup id with
  | some existing =>
    if existing.digest = digest then
      (.ok (.existing ⟨existing.sequence, existing.state⟩), r)
    else (.error (conflictError id), r)
  | none =>
    let registered := (r.evict capacity).register id digest
    match enqueue with
    | .error error => (.error (error.toCoreError id), registered.unregister id)
    | .ok () => (.ok (.registered ⟨(r.evict capacity).nextSequence, .queued⟩), registered)

/-- `Registry::set`: an evicted id is ignored. -/
def RegistryInner.set (r : RegistryInner) (id : OperationId) (state : OperationState) :
    RegistryInner :=
  match r.operations.lookup id with
  | some operation =>
    { r with operations := r.operations.insert id { operation with state := state } }
  | none => r

def RegistryInner.get (r : RegistryInner) (id : OperationId) : Option OperationState :=
  (r.operations.lookup id).map (·.state)

/-! ## What the eviction loop can do -/

theorem keys_insert (m : Finmap fun _ : OperationId => RegisteredOperation) (id : OperationId)
    (op : RegisteredOperation) : (m.insert id op).keys = insert id m.keys := by
  ext x
  simp only [Finmap.mem_keys, Finmap.mem_insert, Finset.mem_insert]

/-- One registry after another with some terminal entries gone and nothing
else changed. -/
structure Evicted (r r' : RegistryInner) : Prop where
  sequence : r'.nextSequence = r.nextSequence
  order : r'.order.Sublist r.order
  lookup : ∀ id, r'.operations.lookup id = r.operations.lookup id ∨
    r'.operations.lookup id = none ∧ r.terminalAt id = true

theorem Evicted.refl (r : RegistryInner) : Evicted r r :=
  ⟨rfl, .refl _, fun _ => .inl rfl⟩

theorem terminalAt_of_lookup_eq {r r' : RegistryInner} {id : OperationId}
    (h : r'.operations.lookup id = r.operations.lookup id) : r'.terminalAt id = r.terminalAt id := by
  simp only [RegistryInner.terminalAt, h]

theorem Evicted.trans {r₁ r₂ r₃ : RegistryInner} (h : Evicted r₁ r₂) (h' : Evicted r₂ r₃) :
    Evicted r₁ r₃ := by
  refine ⟨h'.sequence.trans h.sequence, h'.order.trans h.order, fun id => ?_⟩
  rcases h.lookup id with hl | ⟨hn, ht⟩
  · rcases h'.lookup id with hl' | ⟨hn', ht'⟩
    · exact .inl (hl'.trans hl)
    · exact .inr ⟨hn', (terminalAt_of_lookup_eq hl).symm.trans ht'⟩
  · rcases h'.lookup id with hl' | ⟨hn', _⟩
    · exact .inr ⟨hl'.trans hn, ht⟩
    · exact .inr ⟨hn', ht⟩

theorem evicted_evictOldest {r : RegistryInner} {id : OperationId} (h : r.terminalAt id = true) :
    Evicted r (r.evictOldest id) := by
  refine ⟨rfl, List.eraseP_sublist, fun x => ?_⟩
  by_cases hx : x = id
  · subst hx; exact .inr ⟨Finmap.lookup_erase _ _, h⟩
  · exact .inl (Finmap.lookup_erase_ne hx)

theorem evicted_evictLoop (capacity fuel : Nat) (r : RegistryInner) :
    Evicted r (RegistryInner.evictLoop capacity fuel r) := by
  induction fuel generalizing r with
  | zero => exact .refl r
  | succ fuel ih =>
    simp only [RegistryInner.evictLoop]
    split
    · split
      · exact .refl r
      · rename_i evicted hfind
        exact (evicted_evictOldest (List.find?_some hfind)).trans (ih _)
    · exact .refl r

theorem evicted_evict (capacity : Nat) (r : RegistryInner) : Evicted r (r.evict capacity) :=
  evicted_evictLoop capacity _ r

theorem Evicted.lookup_live {r r' : RegistryInner} (h : Evicted r r') {id : OperationId}
    {op : RegisteredOperation} (ho : r.operations.lookup id = some op)
    (hl : op.state.isTerminal = false) : r'.operations.lookup id = some op := by
  rcases h.lookup id with he | ⟨_, ht⟩
  · exact he.trans ho
  · simp [RegistryInner.terminalAt, ho, hl] at ht

theorem Evicted.lookup_some {r r' : RegistryInner} (h : Evicted r r') {id : OperationId}
    {op : RegisteredOperation} (ho : r'.operations.lookup id = some op) :
    r.operations.lookup id = some op := by
  rcases h.lookup id with he | ⟨hn, _⟩
  · exact he.symm.trans ho
  · rw [hn] at ho; cases ho

theorem Evicted.lookup_none {r r' : RegistryInner} (h : Evicted r r') {id : OperationId}
    (hn : r.operations.lookup id = none) : r'.operations.lookup id = none := by
  rcases h.lookup id with he | ⟨hn', _⟩
  · exact he.trans hn
  · exact hn'

/-- Whether the loop takes its first pass. -/
def RegistryInner.Crowded (capacity : Nat) (r : RegistryInner) : Prop :=
  capacity ≤ r.size ∧ ∃ id ∈ r.order, r.terminalAt id = true

theorem evictLoop_eq_self {capacity fuel : Nat} {r : RegistryInner} (h : ¬ r.Crowded capacity) :
    RegistryInner.evictLoop capacity fuel r = r := by
  cases fuel with
  | zero => rfl
  | succ fuel =>
    simp only [RegistryInner.evictLoop]
    split
    · rename_i hc
      have hn : r.order.find? r.terminalAt = none :=
        List.find?_eq_none.mpr fun id hid ht => h ⟨hc, id, hid, ht⟩
      rw [hn]
    · rfl

theorem evict_eq_self {capacity : Nat} {r : RegistryInner} (h : ¬ r.Crowded capacity) :
    r.evict capacity = r := evictLoop_eq_self h

theorem evictOldest_length {r : RegistryInner} {id : OperationId} {x : OperationId}
    (h : r.order.find? r.terminalAt = some id) :
    (r.evictOldest x).order.length + 1 = r.order.length := by
  have hm := List.mem_of_find?_eq_some h
  have hp := List.length_pos_of_mem hm
  simp only [RegistryInner.evictOldest]
  rw [List.length_eraseP_of_mem hm (List.find?_some h)]
  omega

/-- A crowded registry loses an entry of its order queue. -/
theorem evict_length_lt {capacity : Nat} {r : RegistryInner} (h : r.Crowded capacity) :
    (r.evict capacity).order.length < r.order.length := by
  obtain ⟨hc, id, hid, ht⟩ := h
  cases hl : r.order.length with
  | zero => rw [List.length_eq_zero_iff.mp hl] at hid; cases hid
  | succ fuel =>
    simp only [RegistryInner.evict, hl, RegistryInner.evictLoop, hc, if_true]
    cases hf : r.order.find? r.terminalAt with
    | none => exact absurd ht (List.find?_eq_none.mp hf id hid)
    | some evicted =>
      have hle := (evicted_evictLoop capacity fuel (r.evictOldest evicted)).order.length_le
      have hlen := evictOldest_length (x := evicted) hf
      simp only
      omega

/-- The fuel suffices: the loop ends because the entry fits or because nothing
terminal is left to evict. -/
theorem evictLoop_done (capacity : Nat) :
    ∀ (fuel : Nat) (r : RegistryInner), r.order.length ≤ fuel →
      ¬ (RegistryInner.evictLoop capacity fuel r).Crowded capacity
  | 0, r, hl => by
    rintro ⟨_, id, hid, _⟩
    have hn : r.order = [] := List.length_eq_zero_iff.mp (by omega)
    simp [RegistryInner.evictLoop, hn] at hid
  | fuel + 1, r, hl => by
    simp only [RegistryInner.evictLoop]
    split
    · split
      · rename_i hf
        rintro ⟨_, id, hid, ht⟩
        exact List.find?_eq_none.mp hf id hid ht
      · rename_i evicted hf
        have hlen := evictOldest_length (x := evicted) hf
        exact evictLoop_done capacity fuel _ (by omega)
    · rename_i hc
      exact fun h => hc h.1

theorem evict_done (capacity : Nat) (r : RegistryInner) : ¬ (r.evict capacity).Crowded capacity :=
  evictLoop_done capacity _ r (Nat.le_refl _)

/-! ## A rejected admission -/

theorem unregister_register {r : RegistryInner} {id : OperationId} (digest : String)
    (h : r.operations.lookup id = none) :
    ((r.register id digest).unregister id).operations = r.operations ∧
      ((r.register id digest).unregister id).order = r.order := by
  refine ⟨Finmap.ext_lookup fun x => ?_, by simp [RegistryInner.unregister, RegistryInner.register]⟩
  simp only [RegistryInner.unregister, RegistryInner.register]
  by_cases hx : x = id
  · subst hx; rw [Finmap.lookup_erase, h]
  · rw [Finmap.lookup_erase_ne hx, Finmap.lookup_insert_of_ne _ hx]

/-- What a caller whose admission was rejected may rely on: the retained
operations and the order queue are the ones before the call, and every
completed operation still answers a retry with its original result. -/
def Undisturbed (capacity : Nat) (r r' : RegistryInner) : Prop :=
  r'.operations = r.operations ∧ r'.order = r.order ∧
    ∀ id op, r.operations.lookup id = some op → op.state.isTerminal = true →
      ∀ enqueue, r'.admitOperation capacity id op.digest enqueue =
        (.ok (.existing ⟨op.sequence, op.state⟩), r')

theorem undisturbed_of_same {capacity : Nat} {r r' : RegistryInner}
    (ho : r'.operations = r.operations) (hq : r'.order = r.order) :
    Undisturbed capacity r r' := by
  refine ⟨ho, hq, fun id op hop _ enqueue => ?_⟩
  simp [RegistryInner.admitOperation, ho, hop]

/-- The undo covers the registration but not the evictions made for it, so a
rejected admission disturbs nothing exactly when it evicted nothing: the id is
already known, the enqueue is accepted, the registry has room, or no retained
operation is terminal. -/
theorem rejected_admit_undisturbed_iff (capacity : Nat) (r : RegistryInner) (id : OperationId)
    (digest : String) (enqueue : Except TrySendError Unit) :
    (∀ error r', r.admitOperation capacity id digest enqueue = (.error error, r') →
      Undisturbed capacity r r') ↔
    (r.operations.lookup id ≠ none ∨ enqueue = .ok () ∨ r.size < capacity ∨
      ∀ x ∈ r.order, r.terminalAt x = false) := by
  cases hlook : r.operations.lookup id with
  | some existing =>
    refine iff_of_true (fun error r' h => ?_) (.inl (by simp))
    have hr : r' = r := by
      simp only [RegistryInner.admitOperation, hlook] at h
      split at h
      · cases h
      · exact (Prod.mk.inj h).2.symm
    exact hr ▸ undisturbed_of_same rfl rfl
  | none =>
    cases enqueue with
    | ok u =>
      refine iff_of_true (fun error r' h => ?_) (by simp)
      simp [RegistryInner.admitOperation, hlook] at h
    | error e =>
      have hnone : (r.evict capacity).operations.lookup id = none :=
        (evicted_evict capacity r).lookup_none hlook
      obtain ⟨hops, hord⟩ := unregister_register digest hnone
      by_cases hc : r.Crowded capacity
      · refine iff_of_false (fun h => ?_) ?_
        · obtain ⟨_, hq, _⟩ := h _ _ (by simp only [RegistryInner.admitOperation, hlook]; rfl)
          have hlt := evict_length_lt hc
          rw [hord] at hq
          rw [hq] at hlt
          exact Nat.lt_irrefl _ hlt
        · obtain ⟨hcap, x, hx, ht⟩ := hc
          rintro (h | h | h | h)
          · exact h rfl
          · cases h
          · omega
          · rw [h x hx] at ht; cases ht
      · refine iff_of_true (fun error r' h => ?_) ?_
        · simp only [RegistryInner.admitOperation, hlook] at h
          obtain ⟨-, rfl⟩ := Prod.mk.inj h
          exact undisturbed_of_same (by rw [hops, evict_eq_self hc]) (by rw [hord, evict_eq_self hc])
        · by_cases hs : r.size < capacity
          · exact .inr (.inr (.inl hs))
          · refine .inr (.inr (.inr fun x hx => ?_))
            cases ht : r.terminalAt x with
            | false => rfl
            | true => exact absurd ⟨by omega, x, hx, ht⟩ hc

/-- Three operations behind a registry of three entries and a queue of one:
the first completed, the second runs, the third fills the queue. -/
def fullRegistry : RegistryInner :=
  let first := ((RegistryInner.new.admitOperation 3 ⟨1, 1, 1⟩ "stop" (.ok ())).2.set ⟨1, 1, 1⟩
    (.succeeded .stopped))
  let second := (first.admitOperation 3 ⟨2, 1, 2⟩ "recover" (.ok ())).2.set ⟨2, 1, 2⟩ .running
  (second.admitOperation 3 ⟨3, 1, 3⟩ "stop" (.ok ())).2

/-- A fourth submit meets the full queue: it is refused, and the completed
operation is gone, so a retry of it would be executed again. -/
theorem refused_submit_forgets_completed :
    fullRegistry.get ⟨1, 1, 1⟩ = some (.succeeded .stopped) ∧
    (fullRegistry.admitOperation 3 ⟨4, 1, 4⟩ "stop" (.error .full)).1 =
      .error (TrySendError.full.toCoreError ⟨4, 1, 4⟩) ∧
    (fullRegistry.admitOperation 3 ⟨4, 1, 4⟩ "stop" (.error .full)).2.get ⟨1, 1, 1⟩ = none ∧
    ¬ ∀ error r', fullRegistry.admitOperation 3 ⟨4, 1, 4⟩ "stop" (.error .full) = (.error error, r') →
      Undisturbed 3 fullRegistry r' := by
  have hlost : (fullRegistry.admitOperation 3 ⟨4, 1, 4⟩ "stop" (.error .full)).2.get
      ⟨1, 1, 1⟩ = none := by
    decide
  have hkept : fullRegistry.get ⟨1, 1, 1⟩ = some (.succeeded .stopped) := by decide
  refine ⟨hkept, rfl, hlost, fun h => ?_⟩
  obtain ⟨hops, _⟩ := h _ _ rfl
  have hsame : (fullRegistry.admitOperation 3 ⟨4, 1, 4⟩ "stop" (.error .full)).2.get ⟨1, 1, 1⟩ =
      fullRegistry.get ⟨1, 1, 1⟩ := by
    simp only [RegistryInner.get]
    exact congrArg (fun m => Option.map _ (Finmap.lookup _ m)) hops
  rw [hlost, hkept] at hsame
  cases hsame

end Chimera.Control
