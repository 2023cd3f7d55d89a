import Mathlib.Algebra.Group.Int.Defs
import Chimera.Lib.Keyed
import Mathlib.Data.Rat.Defs
import Mathlib.Data.String.Basic

/-! Configuration documents: YAML values in the canonical form that every document
of the manager has, with string keys in strictly increasing order and no tags.

`serde_yaml_ng` compares mappings without regard to the order of their entries; in
this form that is equality. Two floats that compare equal are one value here. -/

namespace Chimera.Config
open Chimera.Lib.Keyed

inductive FloatValue where
  | nan
  | infinite (negative : Bool)
  | finite (value : ℚ)
  deriving DecidableEq

/-- An integer of 64 bits, signed or not, or a float. -/
inductive Number where
  | int (value : Int)
  | float (value : FloatValue)
  deriving DecidableEq

inductive Value where
  | null
  | bool (value : Bool)
  | number (value : Number)
  | string (value : String)
  | sequence (items : List Value)
  | mapping (entries : List (String × Value))

abbrev Mapping := List (String × Value)

namespace Value

def asStr : Value → Option String
  | .string s => some s
  | _ => none

def asBool : Value → Option Bool
  | .bool b => some b
  | _ => none

def asI64 : Value → Option Int
  | .number (.int n) => if -2 ^ 63 ≤ n ∧ n < 2 ^ 63 then some n else none
  | _ => none

def asMapping : Value → Option Mapping
  | .mapping m => some m
  | _ => none

def isNull : Value → Bool
  | .null => true
  | _ => false

/-! ## Equality -/

mutual

def same : Value → Value → Bool
  | .null, .null => true
  | .bool a, .bool b => a == b
  | .number a, .number b => a == b
  | .string a, .string b => a == b
  | .sequence a, .sequence b => sameItems a b
  | .mapping a, .mapping b => sameEntries a b
  | _, _ => false

def sameItems : List Value → List Value → Bool
  | [], [] => true
  | a :: as, b :: bs => a.same b && sameItems as bs
  | _, _ => false

def sameEntries : Mapping → Mapping → Bool
  | [], [] => true
  | (k, a) :: as, (l, b) :: bs => k == l && (a.same b && sameEntries as bs)
  | _, _ => false

end

mutual

theorem same_iff : ∀ a b : Value, a.same b = true ↔ a = b
  | .null, b => by cases b <;> simp [same]
  | .bool _, b => by cases b <;> simp [same]
  | .number _, b => by cases b <;> simp [same]
  | .string _, b => by cases b <;> simp [same]
  | .sequence as, b => by cases b <;> simp [same, sameItems_iff as]
  | .mapping as, b => by cases b <;> simp [same, sameEntries_iff as]

theorem sameItems_iff : ∀ a b : List Value, sameItems a b = true ↔ a = b
  | [], b => by cases b <;> simp [sameItems]
  | a :: as, b => by cases b <;> simp [sameItems, same_iff a, sameItems_iff as]

theorem sameEntries_iff : ∀ a b : Mapping, sameEntries a b = true ↔ a = b
  | [], b => by cases b <;> simp [sameEntries]
  | (k, a) :: as, b => by
    cases b with
    | nil => simp [sameEntries]
    | cons entry bs =>
      simp [sameEntries, same_iff a, sameEntries_iff as, Prod.ext_iff, and_assoc]

end

instance : DecidableEq Value := fun a b => decidable_of_iff _ (same_iff a b)

/-! ## The canonical form -/

mutual

/-- The keys of every mapping are in strictly increasing order. -/
def canonical : Value → Bool
  | .sequence items => canonicalItems items
  | .mapping entries => decide (Ordered entries) && canonicalEntries entries
  | _ => true

def canonicalItems : List Value → Bool
  | [] => true
  | v :: rest => v.canonical && canonicalItems rest

def canonicalEntries : Mapping → Bool
  | [] => true
  | (_, v) :: rest => v.canonical && canonicalEntries rest

end

theorem canonicalItems_iff {items : List Value} :
    canonicalItems items = true ↔ ∀ v ∈ items, v.canonical = true := by
  induction items with
  | nil => simp [canonicalItems]
  | cons v rest ih => simp [canonicalItems, ih]

theorem canonicalEntries_iff {entries : Mapping} :
    canonicalEntries entries = true ↔ ∀ entry ∈ entries, entry.2.canonical = true := by
  induction entries with
  | nil => simp [canonicalEntries]
  | cons entry rest ih =>
    obtain ⟨k, v⟩ := entry
    rw [canonicalEntries, Bool.and_eq_true, ih, List.forall_mem_cons]

end Value

/-! ## Mappings -/

namespace Mapping

def get (m : Mapping) (key : String) : Option Value := m.lookup key

def insert (m : Mapping) (key : String) (value : Value) : Mapping := put m key value

def remove (m : Mapping) (key : String) : Mapping := Lib.Keyed.remove m key

def keys (m : Mapping) : List String := m.map Prod.fst

def Canonical (m : Mapping) : Prop := (Value.mapping m).canonical = true

instance (m : Mapping) : Decidable (Canonical m) := inferInstanceAs (Decidable (_ = true))

variable {m m' : Mapping} {key other : String} {value : Value}

theorem canonical_iff : Canonical m ↔ Ordered m ∧ ∀ entry ∈ m, entry.2.canonical = true := by
  rw [Canonical, Value.canonical, Bool.and_eq_true, decide_eq_true_iff,
    Value.canonicalEntries_iff]

@[simp] theorem get_nil : get [] key = none := rfl

theorem get_insert : (m.insert key value).get other =
    if other = key then some value else m.get other := lookup_put

theorem get_remove : (m.remove key).get other = if other = key then none else m.get other :=
  lookup_remove

theorem mem_keys : key ∈ m.keys ↔ (m.get key).isSome = true := mem_keys_iff

theorem Canonical.nil : Canonical [] := rfl

theorem Canonical.of_get (hm : Canonical m) (h : m.get key = some value) :
    value.canonical = true :=
  (canonical_iff.1 hm).2 _ (lookup_mem h)

theorem Canonical.insert (hm : Canonical m) (hv : value.canonical = true) :
    Canonical (m.insert key value) := by
  obtain ⟨hordered, hentries⟩ := canonical_iff.1 hm
  refine canonical_iff.2 ⟨hordered.put, ?_⟩
  intro entry hentry
  obtain ⟨k, v⟩ := entry
  rcases mem_put hentry with ⟨-, rfl⟩ | hmem
  · exact hv
  · exact hentries _ hmem

theorem Canonical.remove (hm : Canonical m) : Canonical (m.remove key) := by
  obtain ⟨hordered, hentries⟩ := canonical_iff.1 hm
  exact canonical_iff.2 ⟨hordered.remove, fun entry h => hentries _ (List.mem_filter.1 h).1⟩

theorem Canonical.ext (hm : Canonical m) (hm' : Canonical m')
    (h : ∀ key, m.get key = m'.get key) : m = m' :=
  (canonical_iff.1 hm).1.ext (canonical_iff.1 hm').1 h

/-- A mapping inside a canonical one. -/
theorem Canonical.inner {inner : Mapping} (hm : Canonical m)
    (h : m.get key = some (.mapping inner)) : Canonical inner := hm.of_get h

end Mapping

/-- A canonical document. -/
structure Document where
  entries : Mapping
  canonical : entries.Canonical

namespace Document

def get (d : Document) (key : String) : Option Value := d.entries.get key

def empty : Document := ⟨[], Mapping.Canonical.nil⟩

end Document

end Chimera.Config
