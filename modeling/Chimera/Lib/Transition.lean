import Mathlib.Data.Option.Basic

/-! Machines whose every step is named by a label. The label carries whatever
the surroundings decide (a reply, a scheduling choice), so the step itself is a
function and a run is a list of labels. Safety is stated over the states that a
run reaches, possibly with a guard that every step of the run has to meet. -/

namespace Chimera.Lib.Transition

universe u v

structure Machine (σ : Type u) (α : Type v) where
  init : σ
  step : σ → α → Option σ

variable {σ : Type u} {α : Type v} {m : Machine σ α} {G : σ → α → Prop} {I : σ → Prop}

def Machine.run (m : Machine σ α) : σ → List α → Option σ
  | s, [] => some s
  | s, a :: rest => (m.step s a).bind (m.run · rest)

/-- The states reached by runs all of whose steps meet the guard `G`, a
condition on the state before the step and its label. -/
inductive Machine.ReachableBy (m : Machine σ α) (G : σ → α → Prop) : σ → Prop
  | init : m.ReachableBy G m.init
  | step {s t : σ} {a : α} : m.ReachableBy G s → G s a → m.step s a = some t →
      m.ReachableBy G t

def Machine.Reachable (m : Machine σ α) : σ → Prop := m.ReachableBy fun _ _ => True

/-- What holds at the start and is kept by every guarded step holds in every
state a guarded run reaches. -/
theorem Machine.ReachableBy.invariant {s : σ} (h : m.ReachableBy G s) (start : I m.init)
    (keep : ∀ s a t, I s → G s a → m.step s a = some t → I t) : I s := by
  induction h with
  | init => exact start
  | step _ hg hs ih => exact keep _ _ _ ih hg hs

theorem Machine.ReachableBy.weaken {G' : σ → α → Prop} {s : σ} (h : m.ReachableBy G s)
    (hw : ∀ s a, G s a → G' s a) : m.ReachableBy G' s := by
  induction h with
  | init => exact .init
  | step _ hg hs ih => exact .step ih (hw _ _ hg) hs

theorem Machine.ReachableBy.reachable {s : σ} (h : m.ReachableBy G s) : m.Reachable s :=
  h.weaken fun _ _ _ => trivial

/-- A second invariant may use one that is already known of every reachable
state. -/
theorem Machine.ReachableBy.invariant_of {J : σ → Prop} {s : σ} (h : m.ReachableBy G s)
    (base : ∀ s, m.Reachable s → J s) (start : I m.init)
    (keep : ∀ s a t, J s → I s → G s a → m.step s a = some t → I t) : I s := by
  induction h with
  | init => exact start
  | step hr hg hs ih => exact keep _ _ _ (base _ hr.reachable) ih hg hs

theorem Machine.run_cons {s t : σ} {a : α} {rest : List α} (hs : m.step s a = some t) :
    m.run s (a :: rest) = m.run t rest := by
  rw [run, hs, Option.bind_some]

theorem Machine.run_append {l l' : List α} {s : σ} :
    m.run s (l ++ l') = (m.run s l).bind (m.run · l') := by
  induction l generalizing s with
  | nil => rfl
  | cons a rest ih => simp only [List.cons_append, run, ih, Option.bind_assoc]

theorem Machine.run_reachable {l : List α} :
    ∀ {s t : σ}, m.Reachable s → m.run s l = some t → m.Reachable t := by
  induction l with
  | nil => intro s t hs h; cases h; exact hs
  | cons a rest ih =>
    intro s t hs h
    simp only [Machine.run] at h
    cases hn : m.step s a with
    | none => rw [hn] at h; cases h
    | some u => rw [hn] at h; exact ih (.step hs trivial hn) h

/-- What every step keeps, a run keeps from wherever it starts. -/
theorem Machine.run_invariant {l : List α} (keep : ∀ s a t, I s → m.step s a = some t → I t) :
    ∀ {s t : σ}, I s → m.run s l = some t → I t := by
  induction l with
  | nil => intro s t hs h; cases h; exact hs
  | cons a rest ih =>
    intro s t hs h
    obtain ⟨u, hu, hrest⟩ := Option.bind_eq_some_iff.1 h
    exact ih (keep s a u hs hu) hrest

/-- The machine that refuses the steps a guard excludes: its runs are the
guarded runs. -/
def Machine.guarded (m : Machine σ α) (g : σ → α → Bool) : Machine σ α where
  init := m.init
  step := fun s a => if g s a then m.step s a else none

/-- A guarded run meets any guard that the Boolean one implies of its labels. -/
theorem Machine.guarded_run_reachableBy {g : σ → α → Bool} {l : List α}
    (hl : ∀ s, ∀ a ∈ l, g s a = true → G s a) :
    ∀ {s t : σ}, m.ReachableBy G s → (m.guarded g).run s l = some t → m.ReachableBy G t := by
  induction l with
  | nil => intro s t hs h; cases h; exact hs
  | cons a rest ih =>
    intro s t hs h
    simp only [Machine.run, Machine.guarded] at h
    split at h
    · rename_i hg
      cases hn : m.step s a with
      | none => rw [hn] at h; cases h
      | some u =>
        rw [hn] at h
        have hu := Machine.ReachableBy.step hs (hl s a List.mem_cons_self hg) hn
        exact ih (fun s b hb => hl s b (List.mem_cons_of_mem a hb)) hu h
    · cases h

theorem Machine.guarded_run_reachable {g : σ → α → Bool} {l : List α} :
    ∀ {s t : σ}, m.ReachableBy (fun s a => g s a = true) s → (m.guarded g).run s l = some t →
      m.ReachableBy (fun s a => g s a = true) t :=
  Machine.guarded_run_reachableBy fun _ _ _ hg => hg

end Chimera.Lib.Transition
