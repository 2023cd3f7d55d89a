import Chimera.Config.Diff

/-! Differences of documents whose entries are in any order, with the equality of
`serde_yaml_ng`, which does not see the order: nothing that differs is missed, at any
depth, and no entry lies inside another. On canonical documents they are the same. -/

namespace Chimera.Config.Unordered
open Chimera.Lib.Keyed

/-! ## Equality -/

mutual

/-- `==` of values: mappings have as many entries, and each is one of the other's. -/
def eqv : Value → Value → Bool
  | .null, .null => true
  | .bool a, .bool b => a == b
  | .number a, .number b => a == b
  | .string a, .string b => a == b
  | .sequence a, .sequence b => eqvItems a b
  | .mapping a, .mapping b => a.length == b.length && eqvEntries a b
  | _, _ => false

def eqvItems : List Value → List Value → Bool
  | [], [] => true
  | a :: as, b :: bs => eqv a b && eqvItems as bs
  | _, _ => false

def eqvEntries : Mapping → Mapping → Bool
  | [], _ => true
  | (k, a) :: rest, other => (match other.get k with
    | some b => eqv a b
    | none => false) && eqvEntries rest other

end

def eqvOption : Option Value → Option Value → Bool
  | none, none => true
  | some a, some b => eqv a b
  | _, _ => false

mutual

/-- The keys of every mapping are distinct. -/
def distinct : Value → Bool
  | .sequence items => distinctItems items
  | .mapping entries => decide (Mapping.keys entries).Nodup && distinctEntries entries
  | _ => true

def distinctItems : List Value → Bool
  | [] => true
  | v :: rest => distinct v && distinctItems rest

def distinctEntries : Mapping → Bool
  | [] => true
  | (_, v) :: rest => distinct v && distinctEntries rest

end

/-- A document with string keys, each once in its mapping, in any order. -/
structure Document where
  entries : Mapping
  distinct : distinct (.mapping entries) = true

def Document.value (d : Document) : Value := .mapping d.entries

section Equality

variable {a b m m' other : Mapping} {key : String} {value : Value}
  {current desired : Option Value}

theorem distinctEntries_iff :
    distinctEntries m = true ↔ ∀ entry ∈ m, Unordered.distinct entry.2 = true := by
  induction m with
  | nil => simp [distinctEntries]
  | cons entry rest ih =>
    obtain ⟨k, v⟩ := entry
    rw [distinctEntries, Bool.and_eq_true, ih, List.forall_mem_cons]

theorem distinct_mapping : Unordered.distinct (.mapping m) = true ↔
    m.keys.Nodup ∧ ∀ entry ∈ m, Unordered.distinct entry.2 = true := by
  rw [Unordered.distinct, Bool.and_eq_true, decide_eq_true_iff, distinctEntries_iff]

theorem get_of_mem (hm : m.keys.Nodup) (h : (key, value) ∈ m) : m.get key = some value := by
  induction m with
  | nil => cases h
  | cons entry rest ih =>
    obtain ⟨k, v⟩ := entry
    obtain ⟨hhead, hrest⟩ := List.nodup_cons.1 hm
    rw [Mapping.get, lookup_cons_eq]
    rcases List.mem_cons.1 h with heq | hmem
    · cases heq
      exact if_pos rfl
    · have hne : key ≠ k := by
        rintro rfl
        exact hhead (List.mem_map.2 ⟨_, hmem, rfl⟩)
      rw [if_neg hne]
      exact ih hrest hmem

theorem eqvEntries_iff : eqvEntries m other = true ↔
    ∀ entry ∈ m, ∃ v, other.get entry.1 = some v ∧ eqv entry.2 v = true := by
  induction m with
  | nil => simp [eqvEntries]
  | cons entry rest ih =>
    obtain ⟨k, a⟩ := entry
    rw [eqvEntries, Bool.and_eq_true, ih, List.forall_mem_cons]
    refine and_congr_left fun _ => ?_
    cases other.get k <;> simp

/-- Mappings are equal when they are at every key. -/
theorem eqv_mapping_iff (ha : a.keys.Nodup) (hb : b.keys.Nodup) :
    eqv (.mapping a) (.mapping b) = true ↔
      ∀ key, eqvOption (a.get key) (b.get key) = true := by
  rw [eqv, Bool.and_eq_true, beq_iff_eq, eqvEntries_iff]
  have hkeys (m : Mapping) : m.keys.length = m.length := List.length_map _
  constructor
  · intro h key
    obtain ⟨hlength, hentries⟩ := h
    have hsub : a.keys ⊆ b.keys := by
      intro k hk
      obtain ⟨v, hv⟩ := Option.isSome_iff_exists.1 (Mapping.mem_keys.1 hk)
      obtain ⟨w, hw, -⟩ := hentries _ (lookup_mem hv)
      exact Mapping.mem_keys.2 (by rw [hw]; rfl)
    have hperm : a.keys.Perm b.keys :=
      (List.subperm_of_subset ha hsub).perm_of_length_le (by rw [hkeys, hkeys, hlength])
    cases hget : a.get key with
    | some v =>
      obtain ⟨w, hw, heqv⟩ := hentries _ (lookup_mem hget)
      rw [show b.get key = some w from hw]
      exact heqv
    | none =>
      have hnone : b.get key = none := by
        by_contra hsome
        have hmem := hperm.mem_iff.2 (Mapping.mem_keys.2 (Option.isSome_iff_ne_none.2 hsome))
        rw [Mapping.mem_keys, hget] at hmem
        cases hmem
      rw [hnone]
      rfl
  · intro h
    have hmem (key : String) : key ∈ a.keys ↔ key ∈ b.keys := by
      have hkey := h key
      rw [Mapping.mem_keys, Mapping.mem_keys]
      cases ha : a.get key <;> cases hb : b.get key <;> simp [ha, hb, eqvOption] at hkey ⊢
    refine ⟨?_, ?_⟩
    · have hperm : a.keys.Perm b.keys := (List.perm_ext_iff_of_nodup ha hb).2 hmem
      rw [← hkeys a, ← hkeys b]
      exact hperm.length_eq
    · intro entry hentry
      obtain ⟨k, v⟩ := entry
      have hkey := h k
      rw [get_of_mem ha hentry] at hkey
      cases hget : b.get k with
      | none =>
        rw [hget] at hkey
        cases hkey
      | some w =>
        rw [hget] at hkey
        exact ⟨w, rfl, hkey⟩

end Equality

/-! ## Differences -/

def diffValue (current desired : Option Value) (path : List String) : List DiffEntry :=
  if eqvOption current desired then []
  else if comparable current desired = true ∧ bothKeys current desired ≠ [] then
    (bothKeys current desired).flatMap fun key =>
      diffValue ((mappingOf current).get key) ((mappingOf desired).get key) (path ++ [key])
  else [⟨path, desired⟩]
termination_by weight current + weight desired
decreasing_by
  rename_i h
  exact weight_comparable h.1 key

def diff (current desired : Mapping) : List DiffEntry :=
  diffValue (some (.mapping current)) (some (.mapping desired)) []

/-- What stands at a path of nothing or of a value. -/
def reach (value : Option Value) : List String → Option Value
  | [] => value
  | key :: rest => reach ((mappingOf value).get key) rest

section Paths

variable {current desired value : Option Value} {path : List String} {entry : DiffEntry}
  {key : String}

theorem reach_none (path : List String) : reach none path = none := by
  induction path with
  | nil => rfl
  | cons key rest ih => exact ih

theorem reach_some (value : Value) (path : List String) :
    reach (some value) path = valueAt value path := by
  induction path generalizing value with
  | nil => rfl
  | cons key rest ih =>
    cases value with
    | mapping m =>
      show reach (Mapping.get m key) rest = match Mapping.get m key with
        | some inner => valueAt inner rest
        | none => none
      cases Mapping.get m key with
      | none => exact reach_none rest
      | some inner => exact ih inner
    | null | bool _ | number _ | string _ | sequence _ => exact reach_none rest

/-- Nothing, or a value whose mappings have distinct keys. -/
def Distinct (value : Option Value) : Prop := ∀ v, value = some v → Unordered.distinct v = true

theorem Distinct.nodup (h : Distinct value) : (mappingOf value).keys.Nodup := by
  cases value with
  | none => exact List.nodup_nil
  | some v =>
    cases v with
    | mapping m => exact (distinct_mapping.1 (h _ rfl)).1
    | null | bool _ | number _ | string _ | sequence _ => exact List.nodup_nil

theorem Distinct.get (h : Distinct value) (key : String) :
    Distinct ((mappingOf value).get key) := by
  intro v hv
  cases value with
  | none => cases hv
  | some w =>
    cases w with
    | mapping m => exact (distinct_mapping.1 (h _ rfl)).2 _ (lookup_mem hv)
    | null | bool _ | number _ | string _ | sequence _ => cases hv

/-- Equal values are equal at every key. -/
theorem eqv_get (hcurrent : Distinct current) (hdesired : Distinct desired)
    (h : eqvOption current desired = true) (key : String) :
    eqvOption ((mappingOf current).get key) ((mappingOf desired).get key) = true := by
  cases current with
  | none =>
    cases desired with
    | none => rfl
    | some d => cases h
  | some c =>
    cases desired with
    | none => cases h
    | some d =>
      cases c with
      | mapping m =>
        cases d with
        | mapping m' =>
          exact (eqv_mapping_iff hcurrent.nodup hdesired.nodup).1 h key
        | null | bool _ | number _ | string _ | sequence _ => simp [eqvOption, eqv] at h
      | null | bool _ | number _ | string _ | sequence _ =>
        cases d with
        | mapping m' => simp [eqvOption, eqv] at h
        | null | bool _ | number _ | string _ | sequence _ => rfl

theorem eqv_reach (hcurrent : Distinct current) (hdesired : Distinct desired)
    (h : eqvOption current desired = true) (path : List String) :
    eqvOption (reach current path) (reach desired path) = true := by
  induction path generalizing current desired with
  | nil => exact h
  | cons key rest ih => exact ih (hcurrent.get key) (hdesired.get key) (eqv_get hcurrent hdesired h key)

/-- Values that are compared key by key and differ, differ at one of their keys. -/
theorem exists_differing_key (hcurrent : Distinct current) (hdesired : Distinct desired)
    (hne : ¬eqvOption current desired = true) (hcomparable : comparable current desired = true)
    (hkeys : bothKeys current desired ≠ []) : ∃ key ∈ bothKeys current desired,
      ¬eqvOption ((mappingOf current).get key) ((mappingOf desired).get key) = true := by
  rcases comparable_cases hcomparable with ⟨rfl, m, rfl⟩ | ⟨m, rfl, rfl | ⟨m', rfl⟩⟩
  · obtain ⟨key, hkey⟩ := List.exists_mem_of_ne_nil _ hkeys
    refine ⟨key, hkey, ?_⟩
    have hsome : (Mapping.get m key).isSome = true := (mem_bothKeys.1 hkey).resolve_left nofun
    obtain ⟨v, hv⟩ := Option.isSome_iff_exists.1 hsome
    show ¬eqvOption none (Mapping.get m key) = true
    rw [hv]
    exact nofun
  · obtain ⟨key, hkey⟩ := List.exists_mem_of_ne_nil _ hkeys
    refine ⟨key, hkey, ?_⟩
    have hsome : (Mapping.get m key).isSome = true := (mem_bothKeys.1 hkey).resolve_right nofun
    obtain ⟨v, hv⟩ := Option.isSome_iff_exists.1 hsome
    show ¬eqvOption (Mapping.get m key) none = true
    rw [hv]
    exact nofun
  · have hdiffer : ∃ key, ¬eqvOption (m.get key) (m'.get key) = true := by
      by_contra hall
      push Not at hall
      exact hne ((eqv_mapping_iff hcurrent.nodup hdesired.nodup).2 hall)
    obtain ⟨key, hkey⟩ := hdiffer
    refine ⟨key, ?_, hkey⟩
    rw [mem_bothKeys]
    show (m.get key).isSome = true ∨ (m'.get key).isSome = true
    cases hm : m.get key with
    | some v => exact .inl rfl
    | none =>
      cases hm' : m'.get key with
      | some v => exact .inr rfl
      | none =>
        rw [hm, hm'] at hkey
        exact absurd rfl hkey

theorem diffValue_ne_nil (hcurrent : Distinct current) (hdesired : Distinct desired)
    (hne : ¬eqvOption current desired = true) : diffValue current desired path ≠ [] := by
  fun_induction diffValue current desired path with
  | case1 current desired path heqv => exact absurd heqv hne
  | case2 current desired path _ hcomparable ih =>
    obtain ⟨key, hkey, hdiffer⟩ :=
      exists_differing_key hcurrent hdesired hne hcomparable.1 hcomparable.2
    intro hnil
    exact ih key (hcurrent.get key) (hdesired.get key) hdiffer
      (List.flatMap_eq_nil_iff.1 hnil key hkey)
  | case3 current desired path _ _ => exact List.cons_ne_nil _ _

/-- Every entry has a path below the compared one, what is desired there, and a
difference. -/
theorem diffValue_entry (h : entry ∈ diffValue current desired path) :
    ∃ rest, entry.path = path ++ rest ∧ entry.new = reach desired rest ∧
      ¬eqvOption (reach current rest) (reach desired rest) = true := by
  fun_induction diffValue current desired path with
  | case1 current desired path _ => cases h
  | case2 current desired path _ hcomparable ih =>
    obtain ⟨key, -, hentry⟩ := List.mem_flatMap.1 h
    obtain ⟨rest, hpath, hnew, hdiffer⟩ := ih key hentry
    exact ⟨key :: rest, by rw [hpath, List.append_assoc]; rfl, hnew, hdiffer⟩
  | case3 current desired path hne _ =>
    cases List.mem_singleton.1 h
    exact ⟨[], (List.append_nil path).symm, rfl, hne⟩

/-- Neither path leads the other. -/
def Apart (a b : DiffEntry) : Prop := ¬a.path <+: b.path ∧ ¬b.path <+: a.path

theorem bothKeys_nodup (current desired : Option Value) : (bothKeys current desired).Nodup :=
  (List.perm_insertionSort _ _).nodup_iff.2 (List.nodup_dedup _)

theorem diffValue_apart (current desired : Option Value) (path : List String) :
    (diffValue current desired path).Pairwise Apart := by
  fun_induction diffValue current desired path with
  | case1 current desired path _ => exact .nil
  | case2 current desired path _ hcomparable ih =>
    refine List.pairwise_flatMap.2 ⟨fun key _ => ih key, ?_⟩
    refine (bothKeys_nodup current desired).imp fun {key key'} hne a ha b hb => ?_
    obtain ⟨rest, hpath, -⟩ := diffValue_entry ha
    obtain ⟨rest', hpath', -⟩ := diffValue_entry hb
    rw [Apart, hpath, hpath', List.append_assoc, List.append_assoc]
    constructor
    · intro hlead
      have hkeys := (List.prefix_append_right_inj _).1 hlead
      exact hne (List.cons_prefix_cons.1 hkeys).1
    · intro hlead
      have hkeys := (List.prefix_append_right_inj _).1 hlead
      exact hne (List.cons_prefix_cons.1 hkeys).1.symm
  | case3 current desired path _ _ => exact List.pairwise_singleton _ _

/-- Where the values differ there is an entry, above, below or at the path. -/
theorem diffValue_covers (hcurrent : Distinct current) (hdesired : Distinct desired)
    {below : List String}
    (hne : ¬eqvOption (reach current below) (reach desired below) = true) :
    ∃ entry ∈ diffValue current desired path, ∃ rest, entry.path = path ++ rest ∧
      (rest <+: below ∨ below <+: rest) := by
  fun_induction diffValue current desired path generalizing below with
  | case1 current desired path heqv =>
    exact absurd (eqv_reach hcurrent hdesired heqv below) hne
  | case2 current desired path hdiffer hcomparable ih =>
    cases below with
    | nil =>
      obtain ⟨key, hkey, hinner⟩ :=
        exists_differing_key hcurrent hdesired hdiffer hcomparable.1 hcomparable.2
      obtain ⟨entry, hentry⟩ := List.exists_mem_of_ne_nil _
        (@diffValue_ne_nil _ _ (path ++ [key]) (hcurrent.get key) (hdesired.get key) hinner)
      obtain ⟨rest, hpath, -⟩ := diffValue_entry hentry
      exact ⟨entry, List.mem_flatMap.2 ⟨key, hkey, hentry⟩, key :: rest,
        by rw [hpath, List.append_assoc]; rfl, .inr List.nil_prefix⟩
    | cons key below =>
      have hkey : key ∈ bothKeys current desired := by
        by_contra hnone
        rw [mem_bothKeys, not_or, Option.not_isSome_iff_eq_none,
          Option.not_isSome_iff_eq_none] at hnone
        rw [reach, reach, hnone.1, hnone.2, reach_none] at hne
        exact hne rfl
      obtain ⟨entry, hentry, rest, hpath, hlead⟩ := ih key (hcurrent.get key) (hdesired.get key) hne
      refine ⟨entry, List.mem_flatMap.2 ⟨key, hkey, hentry⟩, key :: rest,
        by rw [hpath, List.append_assoc]; rfl, ?_⟩
      exact hlead.imp (List.prefix_cons_inj key).2 (List.prefix_cons_inj key).2
  | case3 current desired path _ _ =>
    exact ⟨_, List.mem_singleton_self _, [], (List.append_nil path).symm, .inl List.nil_prefix⟩

end Paths

/-! ## Canonical documents -/

theorem canonical_nodup {m : Mapping} (hm : m.Canonical) : m.keys.Nodup :=
  List.pairwise_map.2 ((Mapping.canonical_iff.1 hm).1.imp fun h => ne_of_lt h)

mutual

theorem eqv_canonical : ∀ {a b : Value}, a.canonical = true → b.canonical = true →
    eqv a b = true → a = b
  | .null, b, _, _, h => by cases b <;> simp [eqv] at h ⊢
  | .bool _, b, _, _, h => by cases b <;> simp_all [eqv]
  | .number _, b, _, _, h => by cases b <;> simp_all [eqv]
  | .string _, b, _, _, h => by cases b <;> simp_all [eqv]
  | .sequence as, b, ha, hb, h => by
    cases b with
    | sequence bs =>
      rw [eqvItems_canonical ha hb h]
    | null | bool _ | number _ | string _ | mapping _ => simp [eqv] at h
  | .mapping m, b, ha, hb, h => by
    cases b with
    | mapping m' =>
      have hkeys := (eqv_mapping_iff (canonical_nodup ha) (canonical_nodup hb)).1 h
      rw [eqv, Bool.and_eq_true] at h
      have hentries := eqvEntries_canonical (Bool.and_eq_true _ _ ▸ ha).2
        (Bool.and_eq_true _ _ ▸ hb).2 h.2
      rw [Mapping.Canonical.ext ha hb]
      intro key
      cases hget : Mapping.get m key with
      | some v => exact (hentries _ (lookup_mem hget)).symm
      | none =>
        have hkey := hkeys key
        rw [hget] at hkey
        cases hother : Mapping.get m' key with
        | none => rfl
        | some w =>
          rw [hother] at hkey
          cases hkey
    | null | bool _ | number _ | string _ | sequence _ => simp [eqv] at h

theorem eqvItems_canonical : ∀ {a b : List Value}, Value.canonicalItems a = true →
    Value.canonicalItems b = true → eqvItems a b = true → a = b
  | [], b, _, _, h => by cases b <;> simp [eqvItems] at h ⊢
  | v :: rest, b, ha, hb, h => by
    cases b with
    | nil => simp [eqvItems] at h
    | cons w more =>
      simp only [eqvItems, Value.canonicalItems, Bool.and_eq_true] at h ha hb
      rw [eqv_canonical ha.1 hb.1 h.1, eqvItems_canonical ha.2 hb.2 h.2]

theorem eqvEntries_canonical : ∀ {a other : Mapping}, Value.canonicalEntries a = true →
    Value.canonicalEntries other = true → eqvEntries a other = true →
    ∀ entry ∈ a, other.get entry.1 = some entry.2
  | [], _, _, _, _ => nofun
  | (k, v) :: rest, other, ha, hother, h => by
    simp only [eqvEntries, Value.canonicalEntries, Bool.and_eq_true] at h ha
    cases hget : other.get k with
    | none => simp [hget] at h
    | some w =>
      rw [hget] at h
      have hw := Value.canonicalEntries_iff.1 hother _ (lookup_mem hget)
      obtain rfl := eqv_canonical ha.1 hw h.1
      exact List.forall_mem_cons.2 ⟨hget, eqvEntries_canonical ha.2 hother h.2⟩

end

mutual

theorem eqv_self : ∀ {v : Value}, v.canonical = true → eqv v v = true
  | .null, _ => rfl
  | .bool _, _ => by simp [eqv]
  | .number _, _ => by simp [eqv]
  | .string _, _ => by simp [eqv]
  | .sequence items, h => eqvItems_self h
  | .mapping m, h => by
    rw [eqv, beq_self_eq_true, Bool.true_and, eqvEntries_iff]
    intro entry hentry
    exact ⟨entry.2, get_of_mem (canonical_nodup h) hentry,
      eqvEntries_self (Bool.and_eq_true _ _ ▸ h).2 entry hentry⟩

theorem eqvItems_self : ∀ {items : List Value}, Value.canonicalItems items = true →
    eqvItems items items = true
  | [], _ => rfl
  | v :: rest, h => by
    rw [Value.canonicalItems, Bool.and_eq_true] at h
    rw [eqvItems, eqv_self h.1, eqvItems_self h.2]
    rfl

theorem eqvEntries_self : ∀ {m : Mapping}, Value.canonicalEntries m = true →
    ∀ entry ∈ m, eqv entry.2 entry.2 = true
  | [], _ => nofun
  | (k, v) :: rest, h => by
    rw [Value.canonicalEntries, Bool.and_eq_true] at h
    exact List.forall_mem_cons.2 ⟨eqv_self h.1, eqvEntries_self h.2⟩

end

/-- Canonical values are equal when they are the same. -/
theorem eqvOption_canonical {current desired : Option Value}
    (hcurrent : ∀ v, current = some v → v.canonical = true)
    (hdesired : ∀ v, desired = some v → v.canonical = true) :
    eqvOption current desired = true ↔ current = desired := by
  constructor
  · intro h
    cases current with
    | none =>
      cases desired with
      | none => rfl
      | some d => cases h
    | some c =>
      cases desired with
      | none => cases h
      | some d => rw [eqv_canonical (hcurrent c rfl) (hdesired d rfl) h]
  · rintro rfl
    cases current with
    | none => rfl
    | some c => exact eqv_self (hcurrent c rfl)

theorem diffValue_canonical {current desired : Option Value}
    (hcurrent : ∀ v, current = some v → v.canonical = true)
    (hdesired : ∀ v, desired = some v → v.canonical = true) (path : List String) :
    diffValue current desired path = Config.diffValue current desired path := by
  fun_induction diffValue current desired path with
  | case1 current desired path heqv =>
    rw [(eqvOption_canonical hcurrent hdesired).1 heqv, diffValue_self]
  | case2 current desired path hne hcomparable ih =>
    rw [eqvOption_canonical hcurrent hdesired] at hne
    rw [Config.diffValue, if_neg hne, if_pos hcomparable]
    congr 1
    funext key
    exact ih key (mappingOf_get_canonical hcurrent) (mappingOf_get_canonical hdesired)
  | case3 current desired path hne hleaf =>
    rw [eqvOption_canonical hcurrent hdesired] at hne
    rw [Config.diffValue, if_neg hne, if_neg hleaf]

/-- On canonical documents, this is the difference that is classified. -/
theorem diff_canonical {current desired : Mapping} (hcurrent : current.Canonical)
    (hdesired : desired.Canonical) : diff current desired = Config.diff current desired := by
  refine diffValue_canonical ?_ ?_ []
  · rintro _ ⟨⟩
    exact hcurrent
  · rintro _ ⟨⟩
    exact hdesired

end Chimera.Config.Unordered
