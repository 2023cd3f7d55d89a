import Chimera.Config.Prepare

/-! The canonical form of a YAML value: string keys in increasing order at every depth,
and no tags. What is equal up to the order of its mappings has one canonical form, and so
one hash. -/

namespace Chimera.Config
open Chimera.Model

/-- A YAML value as it is parsed, over any representation of numbers. -/
inductive Yaml (ν : Type) where
  | null
  | bool (value : Bool)
  | number (value : ν)
  | string (value : String)
  | sequence (items : List (Yaml ν))
  | mapping (entries : List (Yaml ν × Yaml ν))
  | tagged (tag : String) (value : Yaml ν)

namespace Yaml

variable {ν : Type}

/-! ## Values -/

mutual

/-- The keys of every mapping are distinct. -/
def Distinct : Yaml ν → Prop
  | .sequence items => DistinctItems items
  | .mapping entries => (entries.map Prod.fst).Nodup ∧ DistinctEntries entries
  | .tagged _ value => Distinct value
  | _ => True

def DistinctItems : List (Yaml ν) → Prop
  | [] => True
  | v :: rest => Distinct v ∧ DistinctItems rest

def DistinctEntries : List (Yaml ν × Yaml ν) → Prop
  | [] => True
  | (k, v) :: rest => Distinct k ∧ Distinct v ∧ DistinctEntries rest

end

mutual

/-- Equal up to the order of the entries of mappings. -/
def Same : Yaml ν → Yaml ν → Prop
  | .null, .null => True
  | .bool a, .bool b => a = b
  | .number a, .number b => a = b
  | .string a, .string b => a = b
  | .sequence a, .sequence b => SameItems a b
  | .mapping a, .mapping b => ∃ c, c.Perm b ∧ SameEntries a c
  | .tagged t a, .tagged u b => t = u ∧ Same a b
  | _, _ => False

def SameItems : List (Yaml ν) → List (Yaml ν) → Prop
  | [], [] => True
  | a :: as, b :: bs => Same a b ∧ SameItems as bs
  | _, _ => False

def SameEntries : List (Yaml ν × Yaml ν) → List (Yaml ν × Yaml ν) → Prop
  | [], [] => True
  | (k, a) :: as, (l, b) :: bs => Same k l ∧ Same a b ∧ SameEntries as bs
  | _, _ => False

end

mutual

/-- Every key is a string and nothing is tagged, at any depth. -/
def Plain : Yaml ν → Prop
  | .sequence items => PlainItems items
  | .mapping entries => PlainEntries entries
  | .tagged _ _ => False
  | _ => True

def PlainItems : List (Yaml ν) → Prop
  | [] => True
  | v :: rest => Plain v ∧ PlainItems rest

def PlainEntries : List (Yaml ν × Yaml ν) → Prop
  | [] => True
  | (k, v) :: rest => (∃ key, k = .string key) ∧ Plain v ∧ PlainEntries rest

end

mutual

/-- The keys of every mapping are strings in strictly increasing order. -/
def Sorted : Yaml ν → Prop
  | .sequence items => SortedItems items
  | .mapping entries => (∃ keys : List String, entries.map Prod.fst = keys.map .string ∧
      keys.Pairwise (· < ·)) ∧ SortedEntries entries
  | .tagged _ _ => False
  | _ => True

def SortedItems : List (Yaml ν) → Prop
  | [] => True
  | v :: rest => Sorted v ∧ SortedItems rest

def SortedEntries : List (Yaml ν × Yaml ν) → Prop
  | [] => True
  | (_, v) :: rest => Sorted v ∧ SortedEntries rest

end

/-! ## `canonicalize` -/

/-- `Mapping::insert` of a string key: in the place of an equal key, or at the end. -/
def insertEntry (key : String) (value : Yaml ν) :
    List (Yaml ν × Yaml ν) → List (Yaml ν × Yaml ν)
  | [] => [(.string key, value)]
  | (.string k, v) :: rest =>
    if k = key then (.string k, value) :: rest else (.string k, v) :: insertEntry key value rest
  | entry :: rest => entry :: insertEntry key value rest

/-- The stable sort of the entries by their keys. -/
def sortEntries (entries : List (String × Yaml ν)) : List (String × Yaml ν) :=
  entries.mergeSort fun a b => decide (a.1 ≤ b.1)

def collect (entries : List (String × Yaml ν)) : List (Yaml ν × Yaml ν) :=
  entries.foldl (fun m entry => insertEntry entry.1 entry.2 m) []

mutual

def canonicalize : Yaml ν → Except Error (Yaml ν)
  | .mapping entries => do
    let entries ← canonicalizeEntries entries
    pure (.mapping (collect (sortEntries entries)))
  | .sequence items => do
    let items ← canonicalizeItems items
    pure (.sequence items)
  | .tagged _ _ =>
    .error (.invalidConfig "tagged YAML values are not supported in runtime configs")
  | .null => .ok .null
  | .bool value => .ok (.bool value)
  | .number value => .ok (.number value)
  | .string value => .ok (.string value)

def canonicalizeItems : List (Yaml ν) → Except Error (List (Yaml ν))
  | [] => .ok []
  | v :: rest => do
    let v ← canonicalize v
    let rest ← canonicalizeItems rest
    pure (v :: rest)

def canonicalizeEntries : List (Yaml ν × Yaml ν) → Except Error (List (String × Yaml ν))
  | [] => .ok []
  | (.string key, v) :: rest => do
    let v ← canonicalize v
    let rest ← canonicalizeEntries rest
    pure ((key, v) :: rest)
  | _ :: _ => .error (.invalidConfig "all YAML mapping keys must be strings")

end

/-- What `ConfigSnapshot::from_bytes` keeps of a parsed value. -/
structure Snapshot (ν : Type) where
  document : List (Yaml ν × Yaml ν)
  sourceHash : String

def snapshot (serialize : List (Yaml ν × Yaml ν) → Except Error (List UInt8)) (value : Yaml ν) :
    Except Error (Snapshot ν) := do
  match ← canonicalize value with
  | .mapping document =>
    let canonical ← serialize document
    pure ⟨document, semanticHash canonical⟩
  | _ => .error (.invalidConfig "top-level YAML document must be a mapping")

/-! ## Entries that were sorted -/

section Entries

variable {entries more : List (String × Yaml ν)} {m : List (Yaml ν × Yaml ν)}

/-- Entries with string keys, as a mapping has them. -/
def named (entries : List (String × Yaml ν)) : List (Yaml ν × Yaml ν) :=
  entries.map fun entry => (.string entry.1, entry.2)

theorem insertEntry_named {key : String} (value : Yaml ν) (h : ∀ entry ∈ entries, entry.1 ≠ key) :
    insertEntry key value (named entries) = named (entries ++ [(key, value)]) := by
  induction entries with
  | nil => rfl
  | cons entry rest ih =>
    obtain ⟨hhead, hrest⟩ := List.forall_mem_cons.1 h
    simp only [named, List.map_cons, insertEntry, if_neg hhead] at ih ⊢
    rw [ih hrest]
    simp

/-- Distinct keys are all kept, in their order. -/
theorem collect_eq (h : (entries.map Prod.fst).Nodup) : collect entries = named entries := by
  suffices hfold : ∀ done : List (String × Yaml ν), ((done ++ entries).map Prod.fst).Nodup →
      entries.foldl (fun m entry => insertEntry entry.1 entry.2 m) (named done) =
        named (done ++ entries) from hfold [] h
  clear h
  induction entries with
  | nil => simp
  | cons entry rest ih =>
    intro done hdone
    have hfresh : ∀ other ∈ done, other.1 ≠ entry.1 := by
      intro other hother heq
      simp only [List.map_append, List.map_cons, List.nodup_append] at hdone
      exact hdone.2.2 _ (List.mem_map_of_mem hother) _ List.mem_cons_self heq
    have hassoc : done ++ entry :: rest = (done ++ [entry]) ++ rest := by simp
    rw [hassoc] at hdone
    rw [List.foldl_cons, insertEntry_named entry.2 hfresh, hassoc]
    exact ih (done ++ [entry]) hdone

theorem perm_sortEntries (entries : List (String × Yaml ν)) :
    (sortEntries entries).Perm entries := List.mergeSort_perm _ _

theorem sortEntries_nodup (h : (entries.map Prod.fst).Nodup) :
    ((sortEntries entries).map Prod.fst).Nodup :=
  ((perm_sortEntries entries).map Prod.fst).nodup_iff.2 h

theorem sortEntries_strict (h : (entries.map Prod.fst).Nodup) :
    (sortEntries entries).Pairwise fun a b => a.1 < b.1 := by
  have hle : (sortEntries entries).Pairwise fun a b => decide (a.1 ≤ b.1) = true :=
    List.pairwise_mergeSort (fun a b c hab hbc => by simp at *; exact le_trans hab hbc)
      (fun a b => by simp [le_total]) entries
  have hne : (sortEntries entries).Pairwise fun a b => a.1 ≠ b.1 :=
    List.pairwise_map.1 (sortEntries_nodup h)
  exact hle.imp₂ (fun _ _ hle hne => lt_of_le_of_ne (of_decide_eq_true hle) hne) hne

/-- The order that entries come in does not matter. -/
theorem sortEntries_perm (h : (entries.map Prod.fst).Nodup) (hperm : entries.Perm more) :
    sortEntries entries = sortEntries more := by
  have hmore : (more.map Prod.fst).Nodup := (hperm.map Prod.fst).nodup_iff.1 h
  have hsorted : (sortEntries entries).Perm (sortEntries more) :=
    (perm_sortEntries entries).trans (hperm.trans (perm_sortEntries more).symm)
  exact hsorted.eq_of_pairwise (fun a b _ _ hab hba => absurd hba (lt_asymm hab))
    (sortEntries_strict h) (sortEntries_strict hmore)

/-- Entries in order are left as they are. -/
theorem sortEntries_eq (h : entries.Pairwise fun a b => a.1 < b.1) : sortEntries entries = entries := by
  have hnodup : (entries.map Prod.fst).Nodup := List.pairwise_map.2 (h.imp fun h => ne_of_lt h)
  exact (perm_sortEntries entries).eq_of_pairwise (fun a b _ _ hab hba => absurd hba (lt_asymm hab))
    (sortEntries_strict hnodup) h

end Entries

/-! ## Values and what is in them -/

mutual

/-- Induction over a value: what holds of all that is in it holds of it. -/
@[elab_as_elim]
theorem induct {P : Yaml ν → Prop} (null : P .null) (bool : ∀ value, P (.bool value))
    (number : ∀ value, P (.number value)) (string : ∀ value, P (.string value))
    (sequence : ∀ items, (∀ v ∈ items, P v) → P (.sequence items))
    (mapping : ∀ entries, (∀ entry ∈ entries, P entry.1 ∧ P entry.2) → P (.mapping entries))
    (tagged : ∀ tag value, P value → P (.tagged tag value)) : ∀ v, P v
  | .null => null
  | .bool value => bool value
  | .number value => number value
  | .string value => string value
  | .sequence items =>
    sequence items (inductItems null bool number string sequence mapping tagged items)
  | .mapping entries =>
    mapping entries (inductEntries null bool number string sequence mapping tagged entries)
  | .tagged tag value =>
    tagged tag value (induct null bool number string sequence mapping tagged value)

theorem inductItems {P : Yaml ν → Prop} (null : P .null) (bool : ∀ value, P (.bool value))
    (number : ∀ value, P (.number value)) (string : ∀ value, P (.string value))
    (sequence : ∀ items, (∀ v ∈ items, P v) → P (.sequence items))
    (mapping : ∀ entries, (∀ entry ∈ entries, P entry.1 ∧ P entry.2) → P (.mapping entries))
    (tagged : ∀ tag value, P value → P (.tagged tag value)) :
    ∀ items : List (Yaml ν), ∀ v ∈ items, P v
  | [] => nofun
  | v :: rest => List.forall_mem_cons.2
    ⟨induct null bool number string sequence mapping tagged v,
      inductItems null bool number string sequence mapping tagged rest⟩

theorem inductEntries {P : Yaml ν → Prop} (null : P .null) (bool : ∀ value, P (.bool value))
    (number : ∀ value, P (.number value)) (string : ∀ value, P (.string value))
    (sequence : ∀ items, (∀ v ∈ items, P v) → P (.sequence items))
    (mapping : ∀ entries, (∀ entry ∈ entries, P entry.1 ∧ P entry.2) → P (.mapping entries))
    (tagged : ∀ tag value, P value → P (.tagged tag value)) :
    ∀ entries : List (Yaml ν × Yaml ν), ∀ entry ∈ entries, P entry.1 ∧ P entry.2
  | [] => nofun
  | (k, v) :: rest => List.forall_mem_cons.2
    ⟨⟨induct null bool number string sequence mapping tagged k,
      induct null bool number string sequence mapping tagged v⟩,
      inductEntries null bool number string sequence mapping tagged rest⟩

end

section Inside

variable {items others : List (Yaml ν)} {entries pairs : List (Yaml ν × Yaml ν)}

theorem distinctItems_iff : DistinctItems items ↔ ∀ v ∈ items, v.Distinct := by
  induction items with
  | nil => simp [DistinctItems]
  | cons v rest ih => simp [DistinctItems, ih]

theorem distinctEntries_iff :
    DistinctEntries entries ↔ ∀ entry ∈ entries, entry.1.Distinct ∧ entry.2.Distinct := by
  induction entries with
  | nil => simp [DistinctEntries]
  | cons entry rest ih =>
    obtain ⟨k, v⟩ := entry
    rw [DistinctEntries, ih, List.forall_mem_cons, and_assoc]

theorem sameItems_iff : SameItems items others ↔ List.Forall₂ Same items others := by
  induction items generalizing others with
  | nil => cases others <;> simp [SameItems]
  | cons v rest ih => cases others <;> simp [SameItems, ih]

theorem sameEntries_iff : SameEntries entries pairs ↔
    List.Forall₂ (fun a b => Same a.1 b.1 ∧ Same a.2 b.2) entries pairs := by
  induction entries generalizing pairs with
  | nil => cases pairs <;> simp [SameEntries]
  | cons entry rest ih =>
    obtain ⟨k, v⟩ := entry
    cases pairs with
    | nil => simp [SameEntries]
    | cons pair more => rw [SameEntries, ih, List.forall₂_cons, and_assoc]

theorem plainItems_iff : PlainItems items ↔ ∀ v ∈ items, v.Plain := by
  induction items with
  | nil => simp [PlainItems]
  | cons v rest ih => simp [PlainItems, ih]

theorem plainEntries_iff : PlainEntries entries ↔
    ∀ entry ∈ entries, (∃ key, entry.1 = .string key) ∧ entry.2.Plain := by
  induction entries with
  | nil => simp [PlainEntries]
  | cons entry rest ih =>
    obtain ⟨k, v⟩ := entry
    rw [PlainEntries, ih, List.forall_mem_cons, and_assoc]

theorem sortedItems_iff : SortedItems items ↔ ∀ v ∈ items, v.Sorted := by
  induction items with
  | nil => simp [SortedItems]
  | cons v rest ih => simp [SortedItems, ih]

theorem sortedEntries_iff : SortedEntries entries ↔ ∀ entry ∈ entries, entry.2.Sorted := by
  induction entries with
  | nil => simp [SortedEntries]
  | cons entry rest ih =>
    obtain ⟨k, v⟩ := entry
    rw [SortedEntries, ih, List.forall_mem_cons]

end Inside

/-! ## What `canonicalize` does -/

section Canonicalize

variable {v w c : Yaml ν} {items canonical : List (Yaml ν)} {entries pairs : List (Yaml ν × Yaml ν)}
  {done : List (String × Yaml ν)}

theorem bind_ok {α β : Type} {x : Except Error α} {f : α → Except Error β} {b : β} :
    (x >>= f) = .ok b ↔ ∃ a, x = .ok a ∧ f a = .ok b := by
  cases x with
  | error e => exact ⟨nofun, fun ⟨_, h, _⟩ => nomatch h⟩
  | ok a => exact ⟨fun h => ⟨a, rfl, h⟩, fun ⟨_, h, hf⟩ => by cases h; exact hf⟩

theorem canonicalizeItems_iff : canonicalizeItems items = .ok canonical ↔
    List.Forall₂ (fun v c => canonicalize v = .ok c) items canonical := by
  induction items generalizing canonical with
  | nil => cases canonical <;> simp [canonicalizeItems]
  | cons v rest ih =>
    simp only [canonicalizeItems, bind_ok, ih]
    constructor
    · intro h
      obtain ⟨c, hc, more, hmore, hcons⟩ := h
      cases hcons
      exact .cons hc hmore
    · intro h
      cases h with
      | cons hc hmore => exact ⟨_, hc, _, hmore, rfl⟩

/-- An entry with a string key, and its canonical value. -/
def Entry (pair : Yaml ν × Yaml ν) (entry : String × Yaml ν) : Prop :=
  pair.1 = .string entry.1 ∧ canonicalize pair.2 = .ok entry.2

theorem canonicalizeEntries_iff :
    canonicalizeEntries entries = .ok done ↔ List.Forall₂ Entry entries done := by
  induction entries generalizing done with
  | nil => cases done <;> simp [canonicalizeEntries]
  | cons pair rest ih =>
    obtain ⟨k, v⟩ := pair
    cases k with
    | string key =>
      simp only [canonicalizeEntries, bind_ok, ih]
      constructor
      · intro h
        obtain ⟨c, hc, more, hmore, hcons⟩ := h
        cases hcons
        exact .cons ⟨rfl, hc⟩ hmore
      · intro h
        cases h with
        | @cons _ entry _ _ hentry hmore =>
          obtain ⟨key, c⟩ := entry
          obtain ⟨hkey, hc⟩ := hentry
          cases hkey
          exact ⟨c, hc, _, hmore, rfl⟩
    | null | bool _ | number _ | sequence _ | mapping _ | tagged _ _ =>
      simp only [canonicalizeEntries]
      constructor
      · exact nofun
      · intro h
        cases h with
        | cons hentry _ => exact absurd hentry.1 nofun

theorem canonicalize_sequence : canonicalize (.sequence items) = .ok c ↔
    ∃ canonical, List.Forall₂ (fun v c => canonicalize v = .ok c) items canonical ∧
      c = .sequence canonical := by
  simp only [canonicalize, bind_ok, canonicalizeItems_iff]
  exact exists_congr fun _ => and_congr_right fun _ => ⟨fun h => by cases h; rfl, fun h => by rw [h]; rfl⟩

theorem canonicalize_mapping : canonicalize (.mapping entries) = .ok c ↔
    ∃ done, List.Forall₂ Entry entries done ∧ c = .mapping (collect (sortEntries done)) := by
  simp only [canonicalize, bind_ok, canonicalizeEntries_iff]
  exact exists_congr fun _ => and_congr_right fun _ => ⟨fun h => by cases h; rfl, fun h => by rw [h]; rfl⟩

end Canonicalize

/-! ## The canonical form -/

section Form

variable {v w c : Yaml ν} {entries pairs : List (Yaml ν × Yaml ν)}
  {done more : List (String × Yaml ν)}

theorem exists_forall₂ {α β : Type} {r : α → β → Prop} {as : List α} :
    (∃ bs, List.Forall₂ r as bs) ↔ ∀ a ∈ as, ∃ b, r a b := by
  induction as with
  | nil => simp
  | cons a rest ih =>
    rw [List.forall_mem_cons, ← ih]
    constructor
    · intro h
      obtain ⟨bs, hbs⟩ := h
      cases hbs with
      | cons hb hrest => exact ⟨⟨_, hb⟩, ⟨_, hrest⟩⟩
    · intro h
      obtain ⟨⟨b, hb⟩, bs, hbs⟩ := h
      exact ⟨b :: bs, .cons hb hbs⟩

theorem forall₂_imp {α β : Type} {r s : α → β → Prop} {as : List α} {bs : List β}
    (h : List.Forall₂ r as bs) (himp : ∀ a ∈ as, ∀ b, r a b → s a b) : List.Forall₂ s as bs := by
  induction h with
  | nil => exact .nil
  | cons hr _ ih =>
    obtain ⟨hhead, hrest⟩ := List.forall_mem_cons.1 himp
    exact .cons (hhead _ hr) (ih hrest)

/-- Two lists that answer to a third answer to each other. -/
theorem forall₂_join {α β γ : Type} {r : α → β → Prop} {s : α → γ → Prop} {t : β → γ → Prop}
    {as : List α} {bs : List β} {cs : List γ} (h : List.Forall₂ r as bs)
    (h' : List.Forall₂ s as cs) (himp : ∀ a ∈ as, ∀ b ∈ bs, ∀ c, r a b → s a c → t b c) :
    List.Forall₂ t bs cs := by
  induction h generalizing cs with
  | nil =>
    cases h'
    exact .nil
  | cons hr _ ih =>
    cases h' with
    | cons hs hrest =>
      refine .cons (himp _ List.mem_cons_self _ List.mem_cons_self _ hr hs) (ih hrest ?_)
      intro a ha b hb
      exact himp a (List.mem_cons_of_mem _ ha) b (List.mem_cons_of_mem _ hb)

/-- It succeeds on plain values. -/
theorem canonicalize_ok_iff (v : Yaml ν) : (∃ c, canonicalize v = .ok c) ↔ v.Plain := by
  induction v using induct with
  | null | bool _ | number _ | string _ => exact iff_of_true ⟨_, rfl⟩ trivial
  | sequence items ih =>
    rw [Plain, plainItems_iff, ← forall₂_congr ih, ← exists_forall₂]
    simp only [canonicalize_sequence]
    constructor
    · intro h
      obtain ⟨_, canonical, hitems, rfl⟩ := h
      exact ⟨canonical, hitems⟩
    · intro h
      obtain ⟨canonical, hitems⟩ := h
      exact ⟨_, canonical, hitems, rfl⟩
  | mapping entries ih =>
    have hentry : ∀ pair ∈ entries, (∃ entry, Entry pair entry) ↔
        (∃ key, pair.1 = .string key) ∧ pair.2.Plain := by
      intro pair hpair
      rw [← (ih pair hpair).2]
      constructor
      · intro h
        obtain ⟨entry, hkey, hvalue⟩ := h
        exact ⟨⟨_, hkey⟩, ⟨_, hvalue⟩⟩
      · intro h
        obtain ⟨⟨key, hkey⟩, c, hc⟩ := h
        exact ⟨(key, c), hkey, hc⟩
    rw [Plain, plainEntries_iff, ← forall₂_congr hentry, ← exists_forall₂]
    simp only [canonicalize_mapping]
    constructor
    · intro h
      obtain ⟨_, done, hdone, rfl⟩ := h
      exact ⟨done, hdone⟩
    · intro h
      obtain ⟨done, hdone⟩ := h
      exact ⟨_, done, hdone, rfl⟩
  | tagged tag value _ => exact iff_of_false (fun ⟨_, h⟩ => nomatch h) id

/-- The keys are those of the mapping. -/
theorem entries_keys (h : List.Forall₂ Entry entries done) :
    entries.map Prod.fst = (done.map Prod.fst).map .string := by
  induction h with
  | nil => rfl
  | cons hentry _ ih => rw [List.map_cons, List.map_cons, List.map_cons, hentry.1, ih]

theorem entries_nodup (h : List.Forall₂ Entry entries done)
    (hdistinct : (entries.map Prod.fst).Nodup) : (done.map Prod.fst).Nodup := by
  rw [entries_keys h] at hdistinct
  exact List.Nodup.of_map _ hdistinct

theorem forall₂_right {α β : Type} {r : α → β → Prop} {as : List α} {bs : List β}
    (h : List.Forall₂ r as bs) {b : β} (hb : b ∈ bs) : ∃ a ∈ as, r a b := by
  induction h with
  | nil => cases hb
  | cons hr _ ih =>
    rcases List.mem_cons.1 hb with rfl | hb
    · exact ⟨_, List.mem_cons_self, hr⟩
    · obtain ⟨a, ha, har⟩ := ih hb
      exact ⟨a, List.mem_cons_of_mem _ ha, har⟩

/-- The keys of the result are in order. -/
theorem canonicalize_sorted (h : canonicalize v = .ok c) (hv : v.Distinct) : c.Sorted := by
  induction v using induct generalizing c with
  | null | bool _ | number _ | string _ =>
    cases h
    trivial
  | sequence items ih =>
    obtain ⟨canonical, hitems, rfl⟩ := canonicalize_sequence.1 h
    rw [Distinct, distinctItems_iff] at hv
    rw [Sorted, sortedItems_iff]
    intro c hc
    obtain ⟨v, hmem, hvc⟩ := forall₂_right hitems hc
    exact ih v hmem hvc (hv v hmem)
  | mapping entries ih =>
    obtain ⟨done, hdone, rfl⟩ := canonicalize_mapping.1 h
    rw [Distinct, distinctEntries_iff] at hv
    have hnodup := entries_nodup hdone hv.1
    rw [collect_eq (sortEntries_nodup hnodup), Sorted, sortedEntries_iff]
    refine ⟨⟨(sortEntries done).map Prod.fst, ?_, ?_⟩, ?_⟩
    · simp [named]
    · exact List.pairwise_map.2 (sortEntries_strict hnodup)
    · intro pair hpair
      obtain ⟨entry, hentry, rfl⟩ := List.mem_map.1 hpair
      obtain ⟨pair, hmem, -, hvalue⟩ :=
        forall₂_right hdone ((perm_sortEntries done).mem_iff.1 hentry)
      exact (ih pair hmem).2 hvalue (hv.2 pair hmem).2
  | tagged tag value _ => cases h

/-- The result is the value, up to the order of mappings. -/
theorem canonicalize_same (h : canonicalize v = .ok c) (hv : v.Distinct) : Same v c := by
  induction v using induct generalizing c with
  | null | bool _ | number _ | string _ =>
    cases h
    simp [Same]
  | sequence items ih =>
    obtain ⟨canonical, hitems, rfl⟩ := canonicalize_sequence.1 h
    rw [Distinct, distinctItems_iff] at hv
    rw [Same, sameItems_iff]
    exact forall₂_imp hitems fun v hmem c hvc => ih v hmem hvc (hv v hmem)
  | mapping entries ih =>
    obtain ⟨done, hdone, rfl⟩ := canonicalize_mapping.1 h
    rw [Distinct, distinctEntries_iff] at hv
    rw [collect_eq (sortEntries_nodup (entries_nodup hdone hv.1)), Same]
    refine ⟨named done, ((perm_sortEntries done).symm.map _), ?_⟩
    rw [sameEntries_iff, named, List.forall₂_map_right_iff]
    refine forall₂_imp hdone fun pair hmem entry hentry => ⟨?_, ?_⟩
    · rw [hentry.1]
      simp [Same]
    · exact (ih pair hmem).2 hentry.2 (hv.2 pair hmem).2
  | tagged tag value _ => cases h

/-- A mapping with sorted keys is a list of entries in their order. -/
theorem exists_named {keys : List String} (h : entries.map Prod.fst = keys.map .string) :
    ∃ done : List (String × Yaml ν), entries = named done ∧ done.map Prod.fst = keys := by
  induction entries generalizing keys with
  | nil =>
    cases keys with
    | nil => exact ⟨[], rfl, rfl⟩
    | cons key rest => cases h
  | cons pair rest ih =>
    obtain ⟨k, v⟩ := pair
    cases keys with
    | nil => cases h
    | cons key keys =>
      obtain ⟨hkey, hrest⟩ := List.cons.inj h
      obtain ⟨done, rfl, rfl⟩ := ih hrest
      exact ⟨(key, v) :: done, by rw [show k = .string key from hkey]; rfl, rfl⟩

/-- What is sorted is canonical already. -/
theorem canonicalize_of_sorted (h : c.Sorted) : canonicalize c = .ok c := by
  induction c using induct with
  | null | bool _ | number _ | string _ => rfl
  | sequence items ih =>
    rw [Sorted, sortedItems_iff] at h
    exact canonicalize_sequence.2 ⟨items, List.forall₂_same.2 fun v hv => ih v hv (h v hv), rfl⟩
  | mapping entries ih =>
    rw [Sorted, sortedEntries_iff] at h
    obtain ⟨⟨keys, hkeys, hsorted⟩, hvalues⟩ := h
    obtain ⟨done, rfl, rfl⟩ := exists_named hkeys
    have hstrict : done.Pairwise fun a b => a.1 < b.1 := List.pairwise_map.1 hsorted
    have hnodup : (done.map Prod.fst).Nodup := hsorted.imp fun h => ne_of_lt h
    refine canonicalize_mapping.2 ⟨done, ?_, ?_⟩
    · rw [named, List.forall₂_map_left_iff]
      refine List.forall₂_same.2 fun entry hentry => ⟨rfl, ?_⟩
      have hmem : (Yaml.string entry.1, entry.2) ∈ named done := List.mem_map_of_mem hentry
      exact (ih _ hmem).2 (hvalues _ hmem)
    · rw [sortEntries_eq hstrict, collect_eq hnodup]
  | tagged tag value _ => cases h

theorem Same.symm (h : Same v w) : Same w v := by
  induction v using Yaml.induct generalizing w with
  | null | bool _ | number _ | string _ =>
    cases w <;> simp_all [Same]
  | sequence items ih =>
    cases w with
    | sequence others =>
      rw [Same, sameItems_iff] at h ⊢
      exact List.Forall₂.flip (forall₂_imp h fun v hmem w hvw => ih v hmem hvw)
    | null | bool _ | number _ | string _ | mapping _ | tagged _ _ => cases h
  | mapping entries ih =>
    cases w with
    | mapping pairs =>
      rw [Same] at h ⊢
      obtain ⟨other, hperm, hsame⟩ := h
      rw [sameEntries_iff] at hsame
      have hflip : List.Forall₂ (fun a b => Same a.1 b.1 ∧ Same a.2 b.2) other entries :=
        List.Forall₂.flip (forall₂_imp hsame fun a hmem b hab =>
          ⟨(ih a hmem).1 hab.1, (ih a hmem).2 hab.2⟩)
      obtain ⟨arranged, harranged, hback⟩ := List.perm_comp_forall₂ hperm.symm hflip
      exact ⟨arranged, hback, sameEntries_iff.2 harranged⟩
    | null | bool _ | number _ | string _ | sequence _ | tagged _ _ => cases h
  | tagged tag value ih =>
    cases w with
    | tagged other value' =>
      rw [Same] at h ⊢
      exact ⟨h.1.symm, ih h.2⟩
    | null | bool _ | number _ | string _ | sequence _ | mapping _ => cases h

/-- What is equal up to order has one canonical form. -/
theorem Same.canonicalize (h : Same v w) (hv : v.Distinct) (hw : w.Distinct)
    (hc : canonicalize v = .ok c) : canonicalize w = .ok c := by
  induction v using Yaml.induct generalizing w c with
  | null | bool _ | number _ | string _ =>
    cases w <;> simp_all [Same]
  | sequence items ih =>
    cases w with
    | sequence others =>
      rw [Same, sameItems_iff] at h
      rw [Distinct, distinctItems_iff] at hv hw
      obtain ⟨canonical, hitems, rfl⟩ := canonicalize_sequence.1 hc
      refine canonicalize_sequence.2 ⟨canonical, forall₂_join h hitems ?_, rfl⟩
      intro v hmem w hmem' c hvw hvc
      exact ih v hmem hvw (hv v hmem) (hw w hmem') hvc
    | null | bool _ | number _ | string _ | mapping _ | tagged _ _ => cases h
  | mapping entries ih =>
    cases w with
    | mapping pairs =>
      rw [Same] at h
      obtain ⟨other, hperm, hsame⟩ := h
      rw [sameEntries_iff] at hsame
      rw [Distinct, distinctEntries_iff] at hv hw
      obtain ⟨done, hdone, rfl⟩ := canonicalize_mapping.1 hc
      have hother : List.Forall₂ Entry other done := by
        refine forall₂_join hsame hdone ?_
        intro pair hmem pair' hmem' entry hpairs hentry
        refine ⟨?_, (ih pair hmem).2 hpairs.2 (hv.2 pair hmem).2
          (hw.2 pair' (hperm.mem_iff.1 hmem')).2 hentry.2⟩
        have hkey := hpairs.1
        rw [hentry.1] at hkey
        cases hpair : pair'.1 <;> simp_all [Same]
      obtain ⟨arranged, harranged, hback⟩ := List.perm_comp_forall₂ hperm.symm hother
      refine canonicalize_mapping.2 ⟨arranged, harranged, ?_⟩
      rw [sortEntries_perm (entries_nodup hdone hv.1) hback.symm]
    | null | bool _ | number _ | string _ | sequence _ | tagged _ _ => cases h
  | tagged tag value _ => cases hc

end Form

/-! ## Documents -/

mutual

/-- A canonical value as a YAML value. -/
def ofValue : Value → Yaml Number
  | .null => .null
  | .bool value => .bool value
  | .number value => .number value
  | .string value => .string value
  | .sequence items => .sequence (ofItems items)
  | .mapping entries => .mapping (ofEntries entries)

def ofItems : List Value → List (Yaml Number)
  | [] => []
  | v :: rest => ofValue v :: ofItems rest

def ofEntries : Mapping → List (Yaml Number × Yaml Number)
  | [] => []
  | (k, v) :: rest => (.string k, ofValue v) :: ofEntries rest

end

section Documents

theorem exists_items {items : List (Yaml Number)}
    (h : ∀ v ∈ items, ∃ value : Value, value.canonical = true ∧ ofValue value = v) :
    ∃ values, Value.canonicalItems values = true ∧ ofItems values = items := by
  induction items with
  | nil => exact ⟨[], rfl, rfl⟩
  | cons v rest ih =>
    obtain ⟨⟨value, hvalue, rfl⟩, hrest⟩ := List.forall_mem_cons.1 h
    obtain ⟨values, hvalues, rfl⟩ := ih hrest
    exact ⟨value :: values, by rw [Value.canonicalItems, hvalue, hvalues]; rfl, rfl⟩

theorem exists_entries {done : List (String × Yaml Number)}
    (h : ∀ entry ∈ done, ∃ value : Value, value.canonical = true ∧ ofValue value = entry.2) :
    ∃ m : Mapping, m.map Prod.fst = done.map Prod.fst ∧ Value.canonicalEntries m = true ∧
      ofEntries m = named done := by
  induction done with
  | nil => exact ⟨[], rfl, rfl, rfl⟩
  | cons entry rest ih =>
    obtain ⟨key, v⟩ := entry
    obtain ⟨⟨value, hvalue, rfl⟩, hrest⟩ := List.forall_mem_cons.1 h
    obtain ⟨m, hkeys, hm, hnamed⟩ := ih hrest
    refine ⟨(key, value) :: m, by rw [List.map_cons, List.map_cons, hkeys], ?_, ?_⟩
    · rw [Value.canonicalEntries, hvalue, hm]
      rfl
    · rw [ofEntries, hnamed]
      rfl

/-- What is sorted is a canonical value, as the documents of the manager are. -/
theorem Sorted.exists_value {c : Yaml Number} (h : c.Sorted) :
    ∃ value : Value, value.canonical = true ∧ ofValue value = c := by
  induction c using Yaml.induct with
  | null => exact ⟨.null, rfl, rfl⟩
  | bool value => exact ⟨.bool value, rfl, rfl⟩
  | number value => exact ⟨.number value, rfl, rfl⟩
  | string value => exact ⟨.string value, rfl, rfl⟩
  | sequence items ih =>
    rw [Sorted, sortedItems_iff] at h
    obtain ⟨values, hvalues, rfl⟩ := exists_items fun v hv => ih v hv (h v hv)
    exact ⟨.sequence values, hvalues, rfl⟩
  | mapping entries ih =>
    rw [Sorted, sortedEntries_iff] at h
    obtain ⟨⟨keys, hkeys, hsorted⟩, hvalues⟩ := h
    obtain ⟨done, rfl, rfl⟩ := exists_named hkeys
    obtain ⟨m, hm, hentries, hnamed⟩ := @exists_entries done fun entry hentry =>
      have hmem : (Yaml.string entry.1, entry.2) ∈ named done := List.mem_map_of_mem hentry
      (ih _ hmem).2 (hvalues _ hmem)
    refine ⟨.mapping m, ?_, by rw [ofValue, hnamed]⟩
    rw [Value.canonical, hentries, Bool.and_true, decide_eq_true_iff]
    rw [← hm] at hsorted
    exact List.pairwise_map.1 hsorted
  | tagged tag value _ => cases h

end Documents

/-! ## One form for one value -/

/-- A YAML value whose mappings have distinct keys, as those of `serde_yaml_ng` have. -/
structure Parsed (ν : Type) where
  value : Yaml ν
  distinct : value.Distinct

theorem canonicalize_congr {v w : Parsed ν} (h : Same v.value w.value) :
    (canonicalize v.value).toOption = (canonicalize w.value).toOption := by
  cases hv : canonicalize v.value with
  | ok c => rw [h.canonicalize v.distinct w.distinct hv]
  | error e =>
    cases hw : canonicalize w.value with
    | ok c =>
      rw [h.symm.canonicalize w.distinct v.distinct hw] at hv
      cases hv
    | error e' => rfl

/-- Whatever the serialisation is, it and the hash are those of the canonical form. -/
theorem snapshot_congr (serialize : List (Yaml ν × Yaml ν) → Except Error (List UInt8))
    {v w : Parsed ν} (h : Same v.value w.value) :
    (snapshot serialize v.value).toOption = (snapshot serialize w.value).toOption := by
  have hcanonical := canonicalize_congr h
  cases hv : canonicalize v.value with
  | ok c =>
    rw [hv] at hcanonical
    cases hw : canonicalize w.value with
    | ok d =>
      rw [hw] at hcanonical
      cases hcanonical
      rw [snapshot, snapshot, hv, hw]
    | error e =>
      rw [hw] at hcanonical
      cases hcanonical
  | error e =>
    rw [hv] at hcanonical
    cases hw : canonicalize w.value with
    | ok d =>
      rw [hw] at hcanonical
      cases hcanonical
    | error e' =>
      rw [snapshot, snapshot, hv, hw]
      rfl

/-- Canonicalization succeeds exactly on plain values; its result has its keys in order,
equals the value up to the order of mappings and is left as it is; and values that are
equal up to that order have one result, one snapshot and one hash. -/
theorem canonical_form (serialize : List (Yaml ν × Yaml ν) → Except Error (List UInt8))
    (v w : Parsed ν) :
    ((∃ c, canonicalize v.value = .ok c) ↔ v.value.Plain) ∧
    (∀ c, canonicalize v.value = .ok c →
      canonicalize c = .ok c ∧ Same v.value c ∧ c.Sorted) ∧
    (Same v.value w.value →
      (canonicalize v.value).toOption = (canonicalize w.value).toOption ∧
      (snapshot serialize v.value).toOption = (snapshot serialize w.value).toOption) := by
  refine ⟨canonicalize_ok_iff v.value, ?_, ?_⟩
  · intro c hc
    have hsorted := canonicalize_sorted hc v.distinct
    exact ⟨canonicalize_of_sorted hsorted, canonicalize_same hc v.distinct, hsorted⟩
  · intro h
    exact ⟨canonicalize_congr h, snapshot_congr serialize h⟩

end Yaml

end Chimera.Config
