import Mathlib.Data.Set.Insert
import Mathlib.Logic.Relation

/-! Work lists over a relation: what was found from a root, and what of it is
still to be expanded. Where nothing is pending, exactly what lies one or more
edges from the root was found, whatever cycles the relation has. -/

namespace Chimera.Lib.Worklist
open Relation

variable {α : Type} {edge : α → α → Prop} {root x : α} {seen seen' : Set α}
  {pending rest pending' : List α}

/-- A traversal under way. The root is expanded, but found only on a cycle. -/
structure Traversal (edge : α → α → Prop) (root : α) (seen : Set α) (pending : List α) : Prop where
  found : ∀ x ∈ seen, TransGen edge root x
  live : ∀ x ∈ pending, ReflTransGen edge root x
  expanded : ∀ x, x = root ∨ x ∈ seen → x ∈ pending ∨ ∀ y, edge x y → y ∈ seen

theorem Traversal.start : Traversal edge root ∅ [root] where
  found _ hx := absurd hx (Set.notMem_empty _)
  live x hx := by
    rw [List.mem_singleton.1 hx]
  expanded x hx := by
    rcases hx with rfl | hx
    · exact .inl List.mem_cons_self
    · exact absurd hx (Set.notMem_empty _)

/-- One entry is taken; its successors are found, and those that are new are pending. -/
theorem Traversal.expand (h : Traversal edge root seen (x :: rest))
    (hseen : ∀ y, y ∈ seen' ↔ y ∈ seen ∨ edge x y)
    (hpending : ∀ y, y ∈ pending' ↔ y ∈ rest ∨ edge x y ∧ y ∉ seen) :
    Traversal edge root seen' pending' where
  found y hy := by
    rcases (hseen y).1 hy with hy | hxy
    · exact h.found y hy
    · exact .tail' (h.live x List.mem_cons_self) hxy
  live y hy := by
    rcases (hpending y).1 hy with hy | ⟨hxy, -⟩
    · exact h.live y (List.mem_cons_of_mem x hy)
    · exact (h.live x List.mem_cons_self).tail hxy
  expanded y hy := by
    have settle (hold : y = root ∨ y ∈ seen) : y ∈ pending' ∨ ∀ z, edge y z → z ∈ seen' := by
      rcases h.expanded y hold with hmem | hall
      · rcases List.mem_cons.1 hmem with rfl | hrest
        · exact .inr fun z hz => (hseen z).2 (.inr hz)
        · exact .inl ((hpending y).2 (.inl hrest))
      · exact .inr fun z hz => (hseen z).2 (.inl (hall z hz))
    by_cases hold : y = root ∨ y ∈ seen
    · exact settle hold
    · rcases hy with rfl | hy
      · exact absurd (.inl rfl) hold
      · rcases (hseen y).1 hy with hmem | hxy
        · exact absurd (.inr hmem) hold
        · exact .inl ((hpending y).2 (.inr ⟨hxy, fun hmem => hold (.inr hmem)⟩))

/-- What was found once nothing is pending. -/
theorem Traversal.done (h : Traversal edge root seen []) : x ∈ seen ↔ TransGen edge root x := by
  have closed {y : α} (hy : y = root ∨ y ∈ seen) : ∀ z, edge y z → z ∈ seen := by
    rcases h.expanded y hy with hmem | hall
    · cases hmem
    · exact hall
  constructor
  · exact h.found x
  · intro hx
    induction hx with
    | single hxy => exact closed (.inl rfl) _ hxy
    | tail _ hyz ih => exact closed (.inr ih) _ hyz

end Chimera.Lib.Worklist
