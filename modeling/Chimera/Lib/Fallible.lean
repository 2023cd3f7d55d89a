import Mathlib.Data.List.Basic

/-! Computations that may fail, and loops over lists of them. -/

namespace Chimera.Lib.Fallible

universe u v

variable {ε : Type u} {α β σ : Type v}

theorem bind_ok {x : Except ε α} {f : α → Except ε β} {b : β} :
    x >>= f = .ok b ↔ ∃ a, x = .ok a ∧ f a = .ok b := by
  cases x with
  | error e => exact ⟨nofun, fun ⟨_, h, _⟩ => nomatch h⟩
  | ok a => exact ⟨fun h => ⟨a, rfl, h⟩, fun ⟨_, h, hf⟩ => by cases h; exact hf⟩

theorem bind_error {x : Except ε α} {f : α → Except ε β} {e : ε} :
    x >>= f = .error e ↔ x = .error e ∨ ∃ a, x = .ok a ∧ f a = .error e := by
  cases x with
  | error other =>
    refine ⟨fun h => .inl (congrArg _ (Except.error.inj h)), ?_⟩
    rintro (h | ⟨a, h, -⟩)
    · cases h
      rfl
    · cases h
  | ok a =>
    refine ⟨fun h => .inr ⟨a, rfl, h⟩, ?_⟩
    rintro (h | ⟨b, h, hf⟩)
    · cases h
    · cases h
      exact hf

/-- A loop that goes through a list, up to the first failure. -/
def walk (step : σ → α → Except ε σ) : σ → List α → Except ε σ
  | s, [] => .ok s
  | s, a :: rest => do walk step (← step s a) rest

section Walk

variable {step : σ → α → Except ε σ} {s t : σ} {a : α} {l : List α}

theorem walk_cons_ok : walk step s (a :: l) = .ok t ↔
    ∃ u, step s a = .ok u ∧ walk step u l = .ok t := bind_ok

/-- What is known of the part of the list that was gone through, at its end. -/
theorem walk_done {I : List α → σ → Prop} (h : walk step s l = .ok t) (start : I [] s)
    (keep : ∀ done s a t, a ∈ l → I done s → step s a = .ok t → I (done ++ [a]) t) : I l t := by
  have go : ∀ (done rest : List α) (s : σ), done ++ rest = l → I done s →
      walk step s rest = .ok t → I l t := by
    intro done rest
    induction rest generalizing done with
    | nil =>
      intro s hl hs hrun
      cases hrun
      rw [← hl, List.append_nil]
      exact hs
    | cons a rest ih =>
      intro s hl hs hrun
      obtain ⟨u, hstep, hrest⟩ := walk_cons_ok.1 hrun
      have hmem : a ∈ l := by
        rw [← hl]
        exact List.mem_append_right _ List.mem_cons_self
      refine ih (done ++ [a]) u ?_ (keep done s a u hmem hs hstep) hrest
      rw [List.append_assoc]
      exact hl
  exact go [] l s rfl start h

/-- A loop fails in one of its steps. -/
theorem walk_error {e : ε} (h : walk step s l = .error e) : ∃ u a, step u a = .error e := by
  induction l generalizing s with
  | nil => cases h
  | cons a rest ih =>
    rw [walk] at h
    cases hstep : step s a with
    | error other =>
      rw [hstep] at h
      cases h
      exact ⟨s, a, hstep⟩
    | ok u =>
      rw [hstep] at h
      exact ih h

theorem walk_append {l' : List α} : walk step s (l ++ l') = .ok t ↔
    ∃ u, walk step s l = .ok u ∧ walk step u l' = .ok t := by
  induction l generalizing s with
  | nil => exact ⟨fun h => ⟨s, rfl, h⟩, fun ⟨_, h, h'⟩ => by cases h; exact h'⟩
  | cons a l ih =>
    rw [List.cons_append, walk_cons_ok]
    constructor
    · rintro ⟨u, hstep, hrest⟩
      obtain ⟨v, hl, hl'⟩ := ih.1 hrest
      exact ⟨v, walk_cons_ok.2 ⟨u, hstep, hl⟩, hl'⟩
    · rintro ⟨v, hl, hl'⟩
      obtain ⟨u, hstep, hrest⟩ := walk_cons_ok.1 hl
      exact ⟨u, hstep, ih.2 ⟨v, hrest, hl'⟩⟩

end Walk

end Chimera.Lib.Fallible
