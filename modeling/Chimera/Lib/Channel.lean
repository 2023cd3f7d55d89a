import Mathlib.Data.List.Basic

/-! Two channels with many receivers. A broadcast keeps the newest values, and a
receiver is a position in what was sent: one that falls behind is told how many values
it lost and goes on with the oldest that is kept. A watch keeps one value, and a
receiver is the version it has seen. -/

namespace Chimera.Lib.Channel

universe u

/-! ## Broadcast -/

/-- Everything that was sent; the last `capacity` values are kept. -/
structure Broadcast (α : Type u) where
  capacity : Nat
  sent : List α

inductive Received (α : Type u) where
  | value (a : α)
  | lagged (skipped : Nat)

variable {α : Type u} {c : Broadcast α} {a b : α} {r : Received α} {next later : Nat}

/-- Where a new receiver starts. -/
def Broadcast.tail (c : Broadcast α) : Nat := c.sent.length

def Broadcast.oldest (c : Broadcast α) : Nat := c.sent.length - c.capacity

def Broadcast.send (c : Broadcast α) (a : α) : Broadcast α := { c with sent := c.sent ++ [a] }

/-- What a receiver at `next` is given, and where it is then; `none` when it has
everything. -/
def Broadcast.recv (c : Broadcast α) (next : Nat) : Option (Received α × Nat) :=
  if next < c.oldest then some (.lagged (c.oldest - next), c.oldest)
  else c.sent[next]?.map fun a => (.value a, next + 1)

@[simp] theorem Broadcast.send_sent : (c.send a).sent = c.sent ++ [a] := rfl

@[simp] theorem Broadcast.send_capacity : (c.send a).capacity = c.capacity := rfl

@[simp] theorem Broadcast.send_tail : (c.send a).tail = c.tail + 1 := by
  simp [tail]

theorem Broadcast.recv_cases (h : c.recv next = some (r, later)) :
    (∃ a, c.sent[next]? = some a ∧ r = .value a ∧ later = next + 1) ∨
      (later = c.oldest ∧ next < later ∧ later + c.capacity = c.tail ∧
        r = .lagged (later - next)) := by
  unfold recv at h
  split at h
  · rename_i hbehind
    cases h
    refine .inr ⟨rfl, hbehind, ?_, rfl⟩
    unfold oldest tail at *
    omega
  · obtain ⟨a, ha, heq⟩ := Option.map_eq_some_iff.1 h
    cases heq
    exact .inl ⟨a, ha, rfl, rfl⟩

theorem Broadcast.recv_bounds (h : c.recv next = some (r, later)) :
    next < later ∧ later ≤ c.tail := by
  obtain ⟨a, ha, -, rfl⟩ | ⟨-, hlt, htail, -⟩ := recv_cases h
  · exact ⟨Nat.lt_succ_self _, (List.getElem?_eq_some_iff.1 ha).1⟩
  · exact ⟨hlt, by omega⟩

/-- A receiver waits exactly when it is at the tail. -/
theorem Broadcast.recv_eq_none (h : next ≤ c.tail) : c.recv next = none ↔ next = c.tail := by
  unfold recv
  split
  · rename_i hbehind
    simp only [reduceCtorEq, false_iff]
    unfold oldest tail at *
    omega
  · simp only [Option.map_eq_none_iff, List.getElem?_eq_none_iff]
    unfold tail at *
    omega

/-! ## What a receiver has been told -/

/-- The values between two positions. -/
def Broadcast.between (c : Broadcast α) (first last : Nat) : List α :=
  (c.sent.drop first).take (last - first)

/-- Each value is received in its place, or counted among the lost. -/
inductive Accounts : List (Received α) → List α → Prop
  | nil : Accounts [] []
  | value {items : List (Received α)} {l : List α} (a : α) : Accounts items l →
      Accounts (.value a :: items) (a :: l)
  | lagged {items : List (Received α)} {l : List α} (lost : List α) : Accounts items l →
      Accounts (.lagged lost.length :: items) (lost ++ l)

theorem Accounts.append {items more : List (Received α)} {l m : List α} (h : Accounts items l)
    (hmore : Accounts more m) : Accounts (items ++ more) (l ++ m) := by
  induction h with
  | nil => exact hmore
  | value a _ ih => exact .value a ih
  | lagged lost _ ih =>
    rw [List.append_assoc]
    exact .lagged lost ih

theorem Broadcast.between_append {middle : Nat} (hfirst : next ≤ middle) (hlast : middle ≤ later) :
    c.between next middle ++ c.between middle later = c.between next later := by
  unfold between
  obtain ⟨m, rfl⟩ := Nat.exists_eq_add_of_le hfirst
  obtain ⟨n, rfl⟩ := Nat.exists_eq_add_of_le hlast
  rw [Nat.add_sub_cancel_left, Nat.add_sub_cancel_left, Nat.add_assoc, Nat.add_sub_cancel_left,
    List.take_add, List.drop_drop]

theorem Broadcast.between_send (h : later ≤ c.tail) :
    (c.send a).between next later = c.between next later := by
  unfold between
  by_cases hle : next ≤ later
  · rw [send_sent, List.drop_append_of_le_length (Nat.le_trans hle h), List.take_append_of_le_length]
    rw [List.length_drop]
    exact Nat.sub_le_sub_right h next
  · rw [Nat.sub_eq_zero_of_le (Nat.le_of_not_le hle), List.take_zero, List.take_zero]

theorem Broadcast.between_self : c.between next next = [] := by
  simp [between]

theorem Broadcast.length_between (h : later ≤ c.tail) :
    (c.between next later).length = later - next := by
  unfold between
  rw [List.length_take, List.length_drop]
  unfold tail at h
  omega

/-- One receive tells of exactly the values it moves past. -/
theorem Broadcast.recv_accounts (h : c.recv next = some (r, later)) :
    Accounts [r] (c.between next later) := by
  obtain ⟨a, ha, rfl, rfl⟩ | ⟨-, hlt, htail, rfl⟩ := recv_cases h
  · have hone : c.between next (next + 1) = [a] := by
      obtain ⟨hlt, heq⟩ := List.getElem?_eq_some_iff.1 ha
      rw [between, Nat.add_sub_cancel_left, List.drop_eq_getElem_cons hlt, heq]
      rfl
    rw [hone]
    exact .value a .nil
  · have hlength : (c.between next later).length = later - next := length_between (by omega)
    have h := Accounts.lagged (c.between next later) .nil
    rwa [hlength, List.append_nil] at h

/-! ## Watch -/

/-- The value of a watch, and the values it had before. -/
structure Watch (α : Type u) where
  past : List α
  value : α
  closed : Bool

variable {w : Watch α} {seen v : Nat}

def Watch.version (w : Watch α) : Nat := w.past.length

def Watch.send (w : Watch α) (a : α) : Watch α :=
  { w with past := w.past ++ [w.value], value := a }

def Watch.close (w : Watch α) : Watch α := { w with closed := true }

/-- `changed().await`, which marks the version it reports as seen: an error once the
channel is closed and everything is seen, `none` while it waits. -/
def Watch.changed (w : Watch α) (seen : Nat) : Option (Except Unit Nat) :=
  if seen < w.version then some (.ok w.version)
  else if w.closed then some (.error ())
  else none

/-- The value of a version. -/
def Watch.at? (w : Watch α) (version : Nat) : Option α := (w.past ++ [w.value])[version]?

@[simp] theorem Watch.send_version : (w.send a).version = w.version + 1 := by
  simp [version, send]

@[simp] theorem Watch.send_value : (w.send a).value = a := rfl

@[simp] theorem Watch.close_version : w.close.version = w.version := rfl

@[simp] theorem Watch.close_value : w.close.value = w.value := rfl

@[simp] theorem Watch.at_version : w.at? w.version = some w.value := by
  simp [at?, version]

@[simp] theorem Watch.close_at : w.close.at? v = w.at? v := rfl

theorem Watch.at_le (h : w.at? v = some b) : v ≤ w.version := by
  have hlt := (List.getElem?_eq_some_iff.1 h).1
  rw [List.length_append, List.length_singleton] at hlt
  exact Nat.le_of_lt_succ hlt

/-- A version keeps its value. -/
theorem Watch.send_at (h : w.at? v = some b) : (w.send a).at? v = some b := by
  unfold at? send at *
  rw [List.getElem?_append_left (List.getElem?_eq_some_iff.1 h).1]
  exact h

theorem Watch.changed_cases {e : Except Unit Nat} (h : w.changed seen = some e) :
    (seen < w.version ∧ e = .ok w.version) ∨
      (w.version ≤ seen ∧ w.closed = true ∧ e = .error ()) := by
  unfold changed at h
  split at h
  · rename_i hlt
    cases h
    exact .inl ⟨hlt, rfl⟩
  · rename_i hle
    split at h
    · rename_i hclosed
      cases h
      exact .inr ⟨Nat.le_of_not_lt hle, hclosed, rfl⟩
    · cases h

end Chimera.Lib.Channel
