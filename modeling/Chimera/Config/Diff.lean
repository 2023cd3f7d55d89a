import Chimera.Config.Value
import Mathlib.Data.List.Sort
import Mathlib.Data.List.Dedup

/-! Differences of two documents, as the paths at which they part. -/

namespace Chimera.Config
open Chimera.Lib.Keyed

structure DiffEntry where
  path : List String
  new : Option Value
  deriving DecidableEq

/-- The entries of a value that is a mapping. -/
def mappingOf (value : Option Value) : Mapping := (value.bind Value.asMapping).getD []

/-- Both sides can be compared key by key: mappings, or one and nothing. -/
def comparable (current desired : Option Value) : Bool :=
  let currentMapping := (current.bind Value.asMapping).isSome
  let desiredMapping := (desired.bind Value.asMapping).isSome
  (currentMapping || desiredMapping) &&
    (current.isNone || currentMapping && (desired.isNone || desiredMapping))

/-- The `BTreeSet` of both sides' keys. -/
def bothKeys (current desired : Option Value) : List String :=
  ((mappingOf current).keys ++ (mappingOf desired).keys).dedup.insertionSort (· ≤ ·)

section Size

noncomputable def weight (value : Option Value) : Nat := value.elim 0 sizeOf

theorem sizeOf_get {m : Mapping} {key : String} {value : Value} (h : m.get key = some value) :
    sizeOf value < sizeOf m := by
  induction m with
  | nil => cases h
  | cons entry rest ih =>
    obtain ⟨k, v⟩ := entry
    rw [Mapping.get, lookup_cons_eq] at h
    split at h
    · cases h
      simp
      omega
    · have hrest := ih h
      simp
      omega

theorem weight_get_lt {m : Mapping} (key : String) :
    weight (m.get key) < weight (some (.mapping m)) := by
  cases h : m.get key with
  | none => simp [weight]
  | some value =>
    have hsize := sizeOf_get h
    simp [weight]
    omega

theorem comparable_cases {current desired : Option Value}
    (h : comparable current desired = true) :
    (current = none ∧ ∃ m : Mapping, desired = some (.mapping m)) ∨
      (∃ m : Mapping, current = some (.mapping m) ∧
        (desired = none ∨ ∃ m' : Mapping, desired = some (.mapping m'))) := by
  cases current with
  | none =>
    cases desired with
    | none => simp [comparable] at h
    | some d => cases d <;> simp [comparable, Value.asMapping] at h ⊢
  | some c =>
    cases desired with
    | none => cases c <;> simp [comparable, Value.asMapping] at h ⊢
    | some d =>
      cases c <;> simp [comparable, Value.asMapping] at h
      cases d <;> simp at h ⊢

theorem weight_comparable {current desired : Option Value}
    (h : comparable current desired = true) (key : String) :
    weight ((mappingOf current).get key) + weight ((mappingOf desired).get key) <
      weight current + weight desired := by
  rcases comparable_cases h with ⟨rfl, m, rfl⟩ | ⟨m, rfl, rfl | ⟨m', rfl⟩⟩
  · have hm := weight_get_lt (m := m) key
    simp only [mappingOf, Value.asMapping, Option.bind_none, Option.bind_some, Option.getD_none,
      Option.getD_some, Mapping.get_nil]
    omega
  · have hm := weight_get_lt (m := m) key
    simp only [mappingOf, Value.asMapping, Option.bind_none, Option.bind_some, Option.getD_none,
      Option.getD_some, Mapping.get_nil]
    omega
  · have hm := weight_get_lt (m := m) key
    have hm' := weight_get_lt (m := m') key
    simp only [mappingOf, Value.asMapping, Option.bind_some, Option.getD_some]
    omega

end Size

def diffValue (current desired : Option Value) (path : List String) : List DiffEntry :=
  if current = desired then []
  else if comparable current desired = true ∧ bothKeys current desired ≠ [] then
    (bothKeys current desired).flatMap fun key =>
      diffValue ((mappingOf current).get key) ((mappingOf desired).get key) (path ++ [key])
  else [⟨path, desired⟩]
termination_by weight current + weight desired
decreasing_by
  rename_i h
  exact weight_comparable h.1 key

def diff (current desired : Mapping) : List DiffEntry :=
  diffValue (some (.mapping current)) (some (.mapping desired)) []

def valueAt (value : Value) : List String → Option Value
  | [] => some value
  | key :: rest => match value.asMapping with
    | some m => match m.get key with
      | some inner => valueAt inner rest
      | none => none
    | none => none

/-! ## What the entries say -/

section Entries

variable {current desired : Option Value} {path : List String} {entry : DiffEntry} {key : String}

theorem diffValue_self (value : Option Value) (path : List String) :
    diffValue value value path = [] := by
  rw [diffValue, if_pos rfl]

theorem mem_bothKeys : key ∈ bothKeys current desired ↔
    ((mappingOf current).get key).isSome = true ∨ ((mappingOf desired).get key).isSome = true := by
  rw [bothKeys, List.mem_insertionSort, List.mem_dedup, List.mem_append, Mapping.mem_keys,
    Mapping.mem_keys]

theorem mappingOf_get_canonical {value : Option Value}
    (hvalue : ∀ v, value = some v → v.canonical = true) :
    ∀ v, (mappingOf value).get key = some v → v.canonical = true := by
  intro v hv
  cases value with
  | none => cases hv
  | some w =>
    cases w with
    | mapping m => exact Mapping.Canonical.of_get (hvalue _ rfl) hv
    | null | bool _ | number _ | string _ | sequence _ => cases hv

/-- Values that are compared key by key and are not equal differ at some key. -/
theorem exists_differing_key (hcurrent : ∀ v, current = some v → v.canonical = true)
    (hdesired : ∀ v, desired = some v → v.canonical = true) (hne : current ≠ desired)
    (hcomparable : comparable current desired = true) (hkeys : bothKeys current desired ≠ []) :
    ∃ key ∈ bothKeys current desired,
      (mappingOf current).get key ≠ (mappingOf desired).get key := by
  rcases comparable_cases hcomparable with ⟨rfl, m, rfl⟩ | ⟨m, rfl, rfl | ⟨m', rfl⟩⟩
  · obtain ⟨key, hkey⟩ := List.exists_mem_of_ne_nil _ hkeys
    refine ⟨key, hkey, ?_⟩
    intro heq
    rw [mem_bothKeys, ← heq] at hkey
    simp [mappingOf] at hkey
  · obtain ⟨key, hkey⟩ := List.exists_mem_of_ne_nil _ hkeys
    refine ⟨key, hkey, ?_⟩
    intro heq
    rw [mem_bothKeys, heq] at hkey
    simp [mappingOf] at hkey
  · have hdiffer : ∃ key, m.get key ≠ m'.get key := by
      by_contra hall
      push Not at hall
      have hm : m = m' := Mapping.Canonical.ext (hcurrent _ rfl) (hdesired _ rfl) hall
      exact hne (by rw [hm])
    obtain ⟨key, hkey⟩ := hdiffer
    refine ⟨key, ?_, hkey⟩
    rw [mem_bothKeys]
    change (m.get key).isSome = true ∨ (m'.get key).isSome = true
    cases hm : m.get key with
    | some v => exact .inl rfl
    | none =>
      rw [hm] at hkey
      exact .inr (Option.isSome_iff_ne_none.2 hkey.symm)

theorem diffValue_ne_nil (hcurrent : ∀ v, current = some v → v.canonical = true)
    (hdesired : ∀ v, desired = some v → v.canonical = true) (hne : current ≠ desired) :
    diffValue current desired path ≠ [] := by
  fun_induction diffValue current desired path with
  | case1 current path => exact absurd rfl hne
  | case2 current desired path _ hcomparable ih =>
    obtain ⟨key, hkey, hdiffer⟩ :=
      exists_differing_key hcurrent hdesired hne hcomparable.1 hcomparable.2
    intro hnil
    exact ih key (mappingOf_get_canonical hcurrent) (mappingOf_get_canonical hdesired) hdiffer
      (List.flatMap_eq_nil_iff.1 hnil key hkey)
  | case3 current desired path _ _ => exact List.cons_ne_nil _ _

/-- Every entry's path goes on from the path of the comparison. -/
theorem diffValue_path (h : entry ∈ diffValue current desired path) :
    ∃ rest, entry.path = path ++ rest := by
  fun_induction diffValue current desired path with
  | case1 current path => cases h
  | case2 current desired path _ hcomparable ih =>
    obtain ⟨key, hkey, hentry⟩ := List.mem_flatMap.1 h
    obtain ⟨rest, hrest⟩ := ih key hentry
    exact ⟨key :: rest, by rw [hrest, List.append_assoc]; rfl⟩
  | case3 current desired path _ _ =>
    cases List.mem_singleton.1 h
    exact ⟨[], (List.append_nil path).symm⟩

/-- Where nothing is desired, nothing is new. -/
theorem diffValue_removed (hdesired : desired = none)
    (h : entry ∈ diffValue current desired path) : entry.new = none := by
  fun_induction diffValue current desired path with
  | case1 current path => cases h
  | case2 current desired path _ hcomparable ih =>
    subst hdesired
    obtain ⟨key, -, hentry⟩ := List.mem_flatMap.1 h
    exact ih key rfl hentry
  | case3 current desired path _ _ =>
    cases List.mem_singleton.1 h
    exact hdesired

/-- What is compared key by key differs where its keys do. -/
theorem mem_diffValue_keys (hne : current ≠ desired) (hcomparable : comparable current desired = true)
    (hkeys : bothKeys current desired ≠ []) :
    entry ∈ diffValue current desired path ↔ ∃ key, entry ∈ diffValue ((mappingOf current).get key)
      ((mappingOf desired).get key) (path ++ [key]) := by
  rw [diffValue, if_neg hne, if_pos ⟨hcomparable, hkeys⟩, List.mem_flatMap]
  constructor
  · intro h
    obtain ⟨key, -, hentry⟩ := h
    exact ⟨key, hentry⟩
  · intro h
    obtain ⟨key, hentry⟩ := h
    refine ⟨key, ?_, hentry⟩
    -- a key that is on neither side makes no entry
    by_contra hkey
    rw [mem_bothKeys, not_or, Option.not_isSome_iff_eq_none, Option.not_isSome_iff_eq_none] at hkey
    rw [hkey.1, hkey.2, diffValue_self] at hentry
    cases hentry

theorem diffValue_leaf (hne : current ≠ desired) (hcomparable : comparable current desired = false) :
    diffValue current desired path = [⟨path, desired⟩] := by
  rw [diffValue, if_neg hne, if_neg]
  rw [hcomparable]
  exact fun h => by cases h.1

theorem mem_diffValue_mappings {m m' : Mapping} :
    entry ∈ diffValue (some (.mapping m)) (some (.mapping m')) path ↔
      ∃ key, entry ∈ diffValue (m.get key) (m'.get key) (path ++ [key]) := by
  by_cases hne : m = m'
  · subst hne
    simp [diffValue_self]
  · refine mem_diffValue_keys (by simpa using hne) rfl ?_
    intro hkeys
    have hnil : m.keys ++ m'.keys = [] := by
      refine List.eq_nil_iff_forall_not_mem.2 ?_
      intro key hkey
      have hmem : key ∈ bothKeys (some (.mapping m)) (some (.mapping m')) := by
        rw [mem_bothKeys]
        exact (List.mem_append.1 hkey).imp Mapping.mem_keys.1 Mapping.mem_keys.1
      rw [hkeys] at hmem
      cases hmem
    rw [List.append_eq_nil_iff, Mapping.keys, Mapping.keys, List.map_eq_nil_iff,
      List.map_eq_nil_iff] at hnil
    exact hne (hnil.1.trans hnil.2.symm)

end Entries

/-! ## Two documents -/

section Documents

variable {current desired : Mapping} {entry : DiffEntry} {key : String}

theorem mem_diff : entry ∈ diff current desired ↔
    ∃ key, entry ∈ diffValue (current.get key) (desired.get key) [key] :=
  mem_diffValue_mappings

theorem diff_eq_nil_iff (hcurrent : current.Canonical) (hdesired : desired.Canonical) :
    diff current desired = [] ↔ current = desired := by
  constructor
  · intro h
    by_contra hne
    refine diffValue_ne_nil ?_ ?_ ?_ h
    · intro v hv
      cases hv
      exact hcurrent
    · intro v hv
      cases hv
      exact hdesired
    · simpa using hne
  · intro h
    rw [h]
    exact diffValue_self _ _

/-- Documents part at a key only with an entry under it. -/
theorem exists_entry_of_ne (hcurrent : current.Canonical) (hdesired : desired.Canonical)
    (hne : current.get key ≠ desired.get key) :
    ∃ entry ∈ diff current desired, ∃ rest, entry.path = key :: rest := by
  have hnil : diffValue (current.get key) (desired.get key) [key] ≠ [] :=
    diffValue_ne_nil (fun _ h => hcurrent.of_get h) (fun _ h => hdesired.of_get h) hne
  obtain ⟨entry, hentry⟩ := List.exists_mem_of_ne_nil _ hnil
  obtain ⟨rest, hrest⟩ := diffValue_path hentry
  exact ⟨entry, mem_diff.2 ⟨key, hentry⟩, rest, hrest⟩

end Documents

end Chimera.Config
