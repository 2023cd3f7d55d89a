import Mathlib.Order.Lattice
import Mathlib.Data.List.Basic

/-! Finite maps as lists of entries in the order of their keys: equal as lists when
they hold the same values. -/

namespace Chimera.Lib.Keyed

variable {κ α : Type} [LinearOrder κ]

/-- Strictly increasing keys: each key once. -/
def Ordered (m : List (κ × α)) : Prop := m.Pairwise fun x y => x.1 < y.1

instance (m : List (κ × α)) : Decidable (Ordered m) :=
  inferInstanceAs (Decidable (m.Pairwise _))

def put (m : List (κ × α)) (key : κ) (value : α) : List (κ × α) :=
  match m with
  | [] => [(key, value)]
  | (k, v) :: rest =>
    if key < k then (key, value) :: (k, v) :: rest
    else if key = k then (key, value) :: rest
    else (k, v) :: put rest key value

def remove (m : List (κ × α)) (key : κ) : List (κ × α) := m.filter fun entry => entry.1 ≠ key

section Lookup

variable {m m' : List (κ × α)} {key other : κ} {value : α}

theorem lookup_cons_eq (k : κ) (v : α) (rest : List (κ × α)) (key : κ) :
    ((k, v) :: rest).lookup key = if key = k then some v else rest.lookup key := by
  rw [List.lookup_cons]
  by_cases h : key = k
  · simp [h]
  · rw [if_neg h, beq_false_of_ne h]

theorem lookup_mem (h : m.lookup key = some value) : (key, value) ∈ m := by
  induction m with
  | nil => cases h
  | cons entry rest ih =>
    obtain ⟨k, v⟩ := entry
    rw [lookup_cons_eq] at h
    split at h
    · rename_i hk
      cases h
      rw [hk]
      exact List.mem_cons_self
    · exact List.mem_cons_of_mem _ (ih h)

theorem lookup_none_of_lt (h : ∀ entry ∈ m, key < entry.1) : m.lookup key = none := by
  cases hm : m.lookup key with
  | none => rfl
  | some value => exact absurd (h _ (lookup_mem hm)) (lt_irrefl key)

theorem Ordered.lookup_of_mem (hm : Ordered m) (h : (key, value) ∈ m) :
    m.lookup key = some value := by
  induction m with
  | nil => cases h
  | cons entry rest ih =>
    obtain ⟨k, v⟩ := entry
    obtain ⟨hhead, hrest⟩ := List.pairwise_cons.1 hm
    rw [lookup_cons_eq]
    rcases List.mem_cons.1 h with heq | hmem
    · cases heq
      rw [if_pos rfl]
    · rw [if_neg (ne_of_gt (hhead _ hmem))]
      exact ih hrest hmem

theorem mem_keys_iff : key ∈ m.map Prod.fst ↔ (m.lookup key).isSome = true := by
  induction m with
  | nil => simp
  | cons entry rest ih =>
    obtain ⟨k, v⟩ := entry
    rw [lookup_cons_eq, List.map_cons, List.mem_cons, ih]
    by_cases h : key = k
    · simp [h]
    · simp [h]

theorem lookup_put : (put m key value).lookup other =
    if other = key then some value else m.lookup other := by
  induction m with
  | nil => simp only [put, lookup_cons_eq, List.lookup_nil]
  | cons entry rest ih =>
    obtain ⟨k, v⟩ := entry
    unfold put
    split
    · rw [lookup_cons_eq]
    · split
      · rename_i hk
        subst hk
        rw [lookup_cons_eq, lookup_cons_eq]
        by_cases h : other = key
        · simp [h]
        · simp [h]
      · rename_i hk
        rw [lookup_cons_eq, lookup_cons_eq, ih]
        by_cases h : other = k
        · rw [if_pos h, if_neg fun ho => hk (ho.symm.trans h), if_pos h]
        · rw [if_neg h, if_neg h]

theorem lookup_filter (p : κ → Bool) : (m.filter fun entry => p entry.1).lookup key =
    if p key = true then m.lookup key else none := by
  induction m with
  | nil => simp
  | cons entry rest ih =>
    obtain ⟨k, v⟩ := entry
    rw [List.filter_cons, lookup_cons_eq]
    by_cases hk : p k = true
    · rw [if_pos hk, lookup_cons_eq, ih]
      by_cases h : key = k
      · rw [if_pos h, if_pos h, if_pos (h ▸ hk)]
      · rw [if_neg h, if_neg h]
    · rw [if_neg hk, ih]
      by_cases h : key = k
      · rw [if_neg (h ▸ hk), if_neg (h ▸ hk)]
      · rw [if_neg h]

theorem lookup_remove : (remove m key).lookup other =
    if other = key then none else m.lookup other := by
  have hfilter : (remove m key).lookup other =
      if decide (other ≠ key) = true then m.lookup other else none :=
    lookup_filter fun k => decide (k ≠ key)
  rw [hfilter]
  by_cases h : other = key
  · simp [h]
  · simp [h]

theorem mem_put {v : α} (h : (other, value) ∈ put m key v) :
    (other = key ∧ value = v) ∨ (other, value) ∈ m := by
  induction m with
  | nil => simpa [put] using h
  | cons entry rest ih =>
    obtain ⟨k, w⟩ := entry
    unfold put at h
    split at h
    · rcases List.mem_cons.1 h with heq | hmem
      · cases heq
        exact .inl ⟨rfl, rfl⟩
      · exact .inr hmem
    · split at h
      · rcases List.mem_cons.1 h with heq | hmem
        · cases heq
          exact .inl ⟨rfl, rfl⟩
        · exact .inr (List.mem_cons_of_mem _ hmem)
      · rcases List.mem_cons.1 h with heq | hmem
        · cases heq
          exact .inr List.mem_cons_self
        · exact (ih hmem).imp id fun h => List.mem_cons_of_mem _ h

theorem Ordered.put (hm : Ordered m) : Ordered (put m key value) := by
  induction m with
  | nil => exact List.pairwise_singleton _ _
  | cons entry rest ih =>
    obtain ⟨k, v⟩ := entry
    obtain ⟨hhead, hrest⟩ := List.pairwise_cons.1 hm
    unfold Keyed.put
    split
    · rename_i hlt
      refine List.pairwise_cons.2 ⟨?_, hm⟩
      intro x hx
      rcases List.mem_cons.1 hx with rfl | hmem
      · exact hlt
      · exact lt_trans hlt (hhead x hmem)
    · rename_i hge
      split
      · rename_i hk
        subst hk
        exact List.pairwise_cons.2 ⟨hhead, hrest⟩
      · rename_i hk
        refine List.pairwise_cons.2 ⟨?_, ih hrest⟩
        intro x hx
        obtain ⟨k', v'⟩ := x
        rcases mem_put hx with ⟨rfl, -⟩ | hmem
        · exact lt_of_le_of_ne (not_lt.1 hge) (Ne.symm hk)
        · exact hhead _ hmem

theorem Ordered.remove (hm : Ordered m) : Ordered (remove m key) := List.Pairwise.filter _ hm

/-- Two such lists that answer every lookup alike are one. -/
theorem Ordered.ext (hm : Ordered m) (hm' : Ordered m')
    (h : ∀ key, m.lookup key = m'.lookup key) : m = m' := by
  induction m generalizing m' with
  | nil =>
    cases m' with
    | nil => rfl
    | cons entry rest =>
      have hlookup := h entry.1
      rw [List.lookup_nil, lookup_cons_eq, if_pos rfl] at hlookup
      cases hlookup
  | cons entry rest ih =>
    obtain ⟨k, v⟩ := entry
    obtain ⟨hhead, hrest⟩ := List.pairwise_cons.1 hm
    cases m' with
    | nil =>
      have hlookup := h k
      rw [List.lookup_nil, lookup_cons_eq, if_pos rfl] at hlookup
      cases hlookup
    | cons entry' rest' =>
      obtain ⟨k', v'⟩ := entry'
      obtain ⟨hhead', hrest'⟩ := List.pairwise_cons.1 hm'
      -- the smaller of the two first keys is in only one of the lists
      have hk : k = k' := by
        rcases lt_trichotomy k k' with hlt | heq | hgt
        · have hlookup := h k
          rw [lookup_cons_eq, if_pos rfl, lookup_cons_eq, if_neg (ne_of_lt hlt),
            lookup_none_of_lt fun x hx => lt_trans hlt (hhead' x hx)] at hlookup
          cases hlookup
        · exact heq
        · have hlookup := h k'
          rw [lookup_cons_eq, if_neg (ne_of_lt hgt),
            lookup_none_of_lt fun x hx => lt_trans hgt (hhead x hx), lookup_cons_eq,
            if_pos rfl] at hlookup
          cases hlookup
      subst hk
      have hv := h k
      rw [lookup_cons_eq, if_pos rfl, lookup_cons_eq, if_pos rfl] at hv
      cases hv
      congr 1
      refine ih hrest hrest' ?_
      intro key
      by_cases hkey : key = k
      · subst hkey
        rw [lookup_none_of_lt hhead, lookup_none_of_lt hhead']
      · have hlookup := h key
        rwa [lookup_cons_eq, if_neg hkey, lookup_cons_eq, if_neg hkey] at hlookup

end Lookup

end Chimera.Lib.Keyed
