import Chimera.Lib.Worklist
import Chimera.Process.Authority

/-! What the loop of `descendant_pids` finds. Parent links may form cycles, and a
parent need not be listed itself; every process is pending at most once, since
only a new one is pushed. -/

namespace Chimera.Process
open Chimera.Lib.Worklist Relation

/-- The table lists the child with this parent. -/
def ChildOf (table : Table) (parent child : UInt32) : Prop := (child, some parent) ∈ table

/-- The loop before its first turn. -/
def WorkList.start (root : UInt32) : WorkList := ⟨[], [root]⟩

section Visits

variable {table : Table} {w : WorkList} {pid x root : UInt32} {pids : List UInt32}

theorem mem_children : x ∈ children table pid ↔ ChildOf table pid x := by
  simp only [children, List.mem_filterMap, ChildOf, Option.ite_none_right_eq_some,
    Option.some.injEq]
  constructor
  · rintro ⟨⟨child, parent⟩, hmem, rfl, rfl⟩
    exact hmem
  · intro hmem
    exact ⟨_, hmem, rfl, rfl⟩

/-- What visits do: everything is found, what is new is pending. -/
structure Visited (w : WorkList) (pids : List UInt32) (w' : WorkList) : Prop where
  descendants : ∀ x, x ∈ w'.descendants ↔ x ∈ w.descendants ∨ x ∈ pids
  pending : ∀ x, x ∈ w'.pending ↔ x ∈ w.pending ∨ x ∈ pids ∧ x ∉ w.descendants
  count : w'.pending.length + w.descendants.length = w.pending.length + w'.descendants.length

theorem mem_descendants_visit :
    x ∈ (w.visit pid).descendants ↔ x ∈ w.descendants ∨ x = pid := by
  unfold WorkList.visit
  split
  · rename_i hmem
    constructor
    · exact .inl
    · rintro (h | rfl)
      · exact h
      · exact hmem
  · rw [List.mem_orderedInsert]
    exact or_comm

theorem mem_pending_visit :
    x ∈ (w.visit pid).pending ↔ x ∈ w.pending ∨ x = pid ∧ x ∉ w.descendants := by
  unfold WorkList.visit
  split
  · rename_i hmem
    constructor
    · exact .inl
    · rintro (h | ⟨rfl, hnew⟩)
      · exact h
      · exact absurd hmem hnew
  · rename_i hnew
    rw [List.mem_cons]
    constructor
    · rintro (rfl | h)
      · exact .inr ⟨rfl, hnew⟩
      · exact .inl h
    · rintro (h | ⟨rfl, -⟩)
      · exact .inr h
      · exact .inl rfl

theorem count_visit : (w.visit pid).pending.length + w.descendants.length =
    w.pending.length + (w.visit pid).descendants.length := by
  unfold WorkList.visit
  split
  · rfl
  · simp only [List.length_cons, List.orderedInsert_length]
    omega

theorem visits_visited : Visited w pids (pids.foldl WorkList.visit w) := by
  induction pids generalizing w with
  | nil => exact ⟨by simp, by simp, rfl⟩
  | cons pid pids ih =>
    have hrest := ih (w := w.visit pid)
    refine ⟨fun x => ?_, fun x => ?_, ?_⟩
    · rw [List.foldl_cons, hrest.descendants, mem_descendants_visit, List.mem_cons, or_assoc]
    · rw [List.foldl_cons, hrest.pending, mem_pending_visit, mem_descendants_visit, List.mem_cons,
        not_or]
      constructor
      · rintro ((h | ⟨rfl, hnew⟩) | ⟨h, hnew, -⟩)
        · exact .inl h
        · exact .inr ⟨.inl rfl, hnew⟩
        · exact .inr ⟨.inr h, hnew⟩
      · rintro (h | ⟨rfl | h, hnew⟩)
        · exact .inl (.inl h)
        · exact .inl (.inr ⟨rfl, hnew⟩)
        · by_cases hx : x = pid
          · exact .inl (.inr ⟨hx, hnew⟩)
          · exact .inr ⟨h, hnew, hx⟩
    · have hcount := hrest.count
      have hfirst := @count_visit w pid
      rw [List.foldl_cons]
      omega

/-- The loop between two turns. -/
structure Searching (table : Table) (root : UInt32) (w : WorkList) : Prop where
  traversal : Traversal (ChildOf table) root {x | x ∈ w.descendants} w.pending
  listed : w.descendants ⊆ table.map Prod.fst
  increasing : w.descendants.Pairwise (· < ·)

theorem Searching.init : Searching table root (.start root) where
  traversal := by
    have hnone : {x | x ∈ (WorkList.start root).descendants} = ∅ := by simp [WorkList.start]
    rw [hnone]
    exact .start
  listed := List.nil_subset _
  increasing := .nil

theorem Searching.turn {rest : List UInt32} (h : Searching table root w)
    (hw : w.pending = pid :: rest) :
    Searching table root
      ((children table pid).foldl WorkList.visit { w with pending := rest }) := by
  have hvisited := @visits_visited { w with pending := rest } (children table pid)
  refine ⟨?_, ?_, visits_increasing h.increasing⟩
  · have htraversal := h.traversal
    rw [hw] at htraversal
    refine htraversal.expand ?_ ?_
    · intro y
      rw [← mem_children]
      exact hvisited.descendants y
    · intro y
      rw [← mem_children]
      exact hvisited.pending y
  · intro x hx
    rcases (hvisited.descendants x).1 hx with hx | hx
    · exact h.listed hx
    · exact List.mem_map.2 ⟨_, mem_children.1 hx, rfl⟩

/-- Every turn takes one entry, and there is a new one for every process that is found. -/
theorem Searching.run {steps : Nat} (h : Searching table root w)
    (hsteps : w.pending.length + table.length ≤ steps + w.descendants.length) :
    Searching table root (w.run table steps) ∧ (w.run table steps).pending = [] := by
  induction steps generalizing w with
  | zero =>
    have hle : w.descendants.length ≤ (table.map Prod.fst).length :=
      (List.subperm_of_subset (h.increasing.imp ne_of_lt) h.listed).length_le
    rw [List.length_map] at hle
    exact ⟨h, List.eq_nil_of_length_eq_zero (by simp only [WorkList.run]; omega)⟩
  | succ steps ih =>
    unfold WorkList.run
    split
    · rename_i hdone
      exact ⟨h, hdone⟩
    · rename_i pid rest hw
      refine ih (h.turn hw) ?_
      have hcount := (@visits_visited { w with pending := rest } (children table pid)).count
      rw [hw, List.length_cons] at hsteps
      simp only at hcount
      omega

theorem search_done (table : Table) (root : UInt32) :
    Searching table root ((WorkList.start root).run table (table.length + 1)) ∧
      ((WorkList.start root).run table (table.length + 1)).pending = [] :=
  Searching.init.run (by simp [WorkList.start, Nat.add_comm])

end Visits

theorem run_done {table : Table} {w : WorkList} {steps : Nat} (h : w.pending = []) :
    w.run table steps = w := by
  cases steps with
  | zero => rfl
  | succ steps => simp only [WorkList.run, h]

theorem run_add {table : Table} {w : WorkList} (m n : Nat) :
    w.run table (m + n) = (w.run table m).run table n := by
  induction m generalizing w with
  | zero => rw [Nat.zero_add, WorkList.run]
  | succ m ih =>
    rw [Nat.succ_add, WorkList.run, WorkList.run]
    split
    · rename_i hdone
      rw [run_done hdone]
    · exact ih

theorem mem_descendantPids {table : Table} {root pid : UInt32} :
    pid ∈ descendantPids table root ↔ TransGen (ChildOf table) root pid := by
  obtain ⟨hsearch, hdone⟩ := search_done table root
  have htraversal := hsearch.traversal
  rw [hdone] at htraversal
  exact htraversal.done

/-- The loop ends, with the processes that one or more parent links lead from to
the root, each once and whatever the order of the table. -/
theorem descendants_exact (table : Table) (root : UInt32) :
    (∀ steps, table.length + 1 ≤ steps →
      ((WorkList.start root).run table steps).pending = [] ∧
      ((WorkList.start root).run table steps).descendants = descendantPids table root) ∧
    (∀ pid, pid ∈ descendantPids table root ↔ TransGen (ChildOf table) root pid) ∧
    (descendantPids table root).Nodup ∧
    ∀ table' : Table, table'.Perm table →
      descendantPids table' root = descendantPids table root := by
  refine ⟨?_, fun _ => mem_descendantPids, descendantPids_increasing.imp ne_of_lt, ?_⟩
  · intro steps hsteps
    obtain ⟨-, hdone⟩ := search_done table root
    obtain ⟨more, rfl⟩ := Nat.exists_eq_add_of_le hsteps
    rw [run_add, run_done hdone]
    exact ⟨hdone, rfl⟩
  · intro table' hperm
    have hedge : ChildOf table' = ChildOf table := by
      funext parent child
      exact propext hperm.mem_iff
    have hmem (pid : UInt32) :
        pid ∈ descendantPids table' root ↔ pid ∈ descendantPids table root := by
      rw [mem_descendantPids, mem_descendantPids, hedge]
    have hanti (a b : UInt32) (_ : a ∈ descendantPids table' root)
        (_ : b ∈ descendantPids table root) (hab : a < b) (hba : b < a) : a = b :=
      absurd hba (lt_asymm hab)
    refine List.Perm.eq_of_pairwise hanti descendantPids_increasing descendantPids_increasing ?_
    exact (List.perm_ext_iff_of_nodup (descendantPids_increasing.imp ne_of_lt)
        (descendantPids_increasing.imp ne_of_lt)).2 hmem

/-- A cycle through the root, a process that is its own parent, and one whose
parent is not listed. -/
example : descendantPids [(1, some 3), (2, some 1), (3, some 2), (5, some 5), (7, some 9)] 1 =
    [1, 2, 3] := by decide

end Chimera.Process
