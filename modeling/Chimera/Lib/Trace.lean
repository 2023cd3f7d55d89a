import Chimera.Lib.Program

/-! Runs of a program as what it performs and is answered. The answers come from
anywhere, so a property of all runs is a property under every environment. A run
is the only one with its answers: of two runs neither is a proper beginning of
the other. -/

namespace Chimera.Lib.Program

variable {ε α β : Type} {Op : Type → Type}

/-- An operation with its answer. -/
structure Event (Op : Type → Type) : Type 1 where
  {type : Type}
  op : Op type
  answer : type

namespace Prog

/-- The program performs these operations, gets these answers and returns. -/
def Runs : Prog ε Op α → List (Event Op) → Except ε α → Prop
  | .ret r, t, r' => t = [] ∧ r' = r
  | .call op next, t, r' => ∃ b u, t = ⟨op, b⟩ :: u ∧ (next b).Runs u r'

section Runs

variable {p : Prog ε Op α} {f : α → Prog ε Op β} {t u v : List (Event Op)} {e : ε}

@[simp] theorem runs_ret {r r' : Except ε α} :
    (Prog.ret r : Prog ε Op α).Runs t r' ↔ t = [] ∧ r' = r := Iff.rfl

@[simp] theorem runs_pure {x : α} {r : Except ε α} :
    (pure x : Prog ε Op α).Runs t r ↔ t = [] ∧ r = .ok x := Iff.rfl

@[simp] theorem runs_fail {r : Except ε α} :
    (fail e : Prog ε Op α).Runs t r ↔ t = [] ∧ r = .error e := Iff.rfl

/-- A run of a sequence is a run of its first part, and if this returns a value,
one of the rest. -/
theorem runs_bind {r : Except ε β} : (p >>= f).Runs t r ↔
    (∃ e, p.Runs t (.error e) ∧ r = .error e) ∨
    ∃ u v x, t = u ++ v ∧ p.Runs u (.ok x) ∧ (f x).Runs v r := by
  induction p generalizing t with
  | ret q =>
    cases q with
    | error e =>
      change (t = [] ∧ r = .error e) ↔ _
      constructor
      · rintro ⟨rfl, rfl⟩
        exact .inl ⟨e, ⟨rfl, rfl⟩, rfl⟩
      · rintro (⟨e', ⟨rfl, he⟩, rfl⟩ | ⟨u, v, x, -, ⟨-, hx⟩, -⟩)
        · exact ⟨rfl, congrArg Except.error (Except.error.inj he)⟩
        · cases hx
    | ok x =>
      change (f x).Runs t r ↔ _
      constructor
      · intro h
        exact .inr ⟨[], t, x, rfl, ⟨rfl, rfl⟩, h⟩
      · rintro (⟨e, ⟨-, he⟩, -⟩ | ⟨u, v, y, rfl, ⟨rfl, hy⟩, h⟩)
        · cases he
        · cases hy
          exact h
  | call op next ih =>
    change (∃ b u, t = ⟨op, b⟩ :: u ∧ (next b >>= f).Runs u r) ↔ _
    constructor
    · rintro ⟨b, u, rfl, h⟩
      rcases (ih b).1 h with ⟨e, he, hr⟩ | ⟨u, v, x, rfl, hu, hv⟩
      · exact .inl ⟨e, ⟨b, _, rfl, he⟩, hr⟩
      · exact .inr ⟨⟨op, b⟩ :: u, v, x, rfl, ⟨b, u, rfl, hu⟩, hv⟩
    · rintro (⟨e, ⟨b, u, rfl, he⟩, hr⟩ | ⟨_, v, x, rfl, ⟨b, u, rfl, hu⟩, hv⟩)
      · exact ⟨b, u, rfl, (ih b).2 (.inl ⟨e, he, hr⟩)⟩
      · exact ⟨b, u ++ v, rfl, (ih b).2 (.inr ⟨u, v, x, rfl, hu, hv⟩)⟩

theorem Runs.bind {x : α} {r : Except ε β} (hp : p.Runs u (.ok x)) (hf : (f x).Runs v r) :
    (p >>= f).Runs (u ++ v) r := runs_bind.2 (.inr ⟨u, v, x, rfl, hp, hf⟩)

theorem runs_attempt {ε' : Type} {r : Except ε' (Except ε α)} :
    (p.attempt : Prog ε' Op (Except ε α)).Runs t r ↔ ∃ q, p.Runs t q ∧ r = .ok q := by
  induction p generalizing t with
  | ret q =>
    constructor
    · rintro ⟨rfl, rfl⟩
      exact ⟨q, ⟨rfl, rfl⟩, rfl⟩
    · rintro ⟨q', ⟨rfl, rfl⟩, rfl⟩
      exact ⟨rfl, rfl⟩
  | call op next ih =>
    constructor
    · rintro ⟨b, u, rfl, h⟩
      obtain ⟨q, hq, hr⟩ := (ih b).1 h
      exact ⟨q, ⟨b, u, rfl, hq⟩, hr⟩
    · rintro ⟨q, ⟨b, u, rfl, hq⟩, hr⟩
      exact ⟨b, u, rfl, (ih b).2 ⟨q, hq, hr⟩⟩

theorem runs_perform_bind {op : Op α} {r : Except ε β} :
    (perform op >>= f).Runs t r ↔ ∃ b u, t = ⟨op, b⟩ :: u ∧ (f b).Runs u r := Iff.rfl

theorem runs_attempt_bind {ε' : Type} {p : Prog ε' Op α} {f : Except ε' α → Prog ε Op β}
    {r : Except ε β} :
    (p.attempt >>= f).Runs t r ↔ ∃ q u v, t = u ++ v ∧ p.Runs u q ∧ (f q).Runs v r := by
  constructor
  · intro h
    rcases runs_bind.1 h with ⟨e, he, -⟩ | ⟨u, v, x, rfl, hu, hv⟩
    · obtain ⟨q, -, hq⟩ := runs_attempt.1 he
      cases hq
    · obtain ⟨q, hq, hx⟩ := runs_attempt.1 hu
      cases hx
      exact ⟨x, u, v, rfl, hq, hv⟩
  · rintro ⟨q, u, v, rfl, hq, hv⟩
    exact (runs_attempt.2 ⟨q, hq, rfl⟩).bind hv

/-- No run is a proper beginning of another. -/
theorem Runs.unique {r r' : Except ε α} (h : p.Runs t r) (h' : p.Runs u r') {w : List (Event Op)}
    (hw : t ++ v = u ++ w) : t = u ∧ r = r' := by
  induction p generalizing t u with
  | ret q =>
    obtain ⟨rfl, rfl⟩ := h
    obtain ⟨rfl, rfl⟩ := h'
    exact ⟨rfl, rfl⟩
  | call op next ih =>
    obtain ⟨b, t, rfl, h⟩ := h
    obtain ⟨b', u, rfl, h'⟩ := h'
    obtain ⟨hb, hrest⟩ := List.cons.inj hw
    cases hb
    obtain ⟨rfl, rfl⟩ := ih b h h' hrest
    exact ⟨rfl, rfl⟩

end Runs

/-! ## What holds along a run -/

/-- The state is what happened so far; an operation may be performed where the
guard holds. -/
def recording (G : List (Event Op) → ∀ {β : Type}, Op β → Prop) :
    Reading Op (List (Event Op)) where
  step := fun op t b u => u = t ++ [⟨op, b⟩]
  pre := fun op t => G t op

section Recording

variable {G : List (Event Op) → ∀ {β : Type}, Op β → Prop} {p : Prog ε Op α}
  {Q : Except ε α → List (Event Op) → Prop} {t u v : List (Event Op)} {r : Except ε α}

/-- A guard that follows from another one wherever the program gets. -/
theorem wp_weaken {G' : List (Event Op) → ∀ {β : Type}, Op β → Prop}
    (hp : p.wp (recording G) Q t)
    (hG : ∀ u {β : Type} (op : Op β), G (t ++ u) op → G' (t ++ u) op) :
    p.wp (recording G') Q t := by
  induction p generalizing t with
  | ret q => exact hp
  | call op next ih =>
    refine ⟨?_, ?_⟩
    · have hop := hG [] op
      rw [List.append_nil] at hop
      exact hop hp.1
    · rintro b _ rfl
      refine ih b (hp.2 b _ rfl) ?_
      intro u β op
      rw [List.append_assoc]
      exact hG _ op

/-- Every operation of a run meets the guard. -/
theorem wp_guards {e : Event Op} (hp : p.wp (recording G) Q t) (h : p.Runs (u ++ e :: v) r) :
    G (t ++ u) e.op := by
  induction p generalizing t u with
  | ret q =>
    obtain ⟨hnil, -⟩ := h
    simp at hnil
  | call op next ih =>
    obtain ⟨b, w, hw, h⟩ := h
    cases u with
    | nil =>
      cases hw
      rw [List.append_nil]
      exact hp.1
    | cons d u =>
      cases hw
      have hg := ih b (hp.2 b _ rfl) h
      rw [List.append_assoc] at hg
      exact hg

end Recording

/-! ## Runs against a script -/

/-- The run in which the operations are answered by `h`. -/
def play {σ : Type} (h : ∀ {β : Type}, Op β → σ → β × σ) :
    Prog ε Op α → σ → List (Event Op) × Except ε α
  | .ret r, _ => ([], r)
  | .call op next, s =>
    let (b, s') := h op s
    let (t, r) := play h (next b) s'
    (⟨op, b⟩ :: t, r)

theorem play_runs {σ : Type} (h : ∀ {β : Type}, Op β → σ → β × σ) (p : Prog ε Op α) (s : σ) :
    p.Runs (p.play h s).1 (p.play h s).2 := by
  induction p generalizing s with
  | ret r => exact ⟨rfl, rfl⟩
  | call op next ih => exact ⟨(h op s).1, _, rfl, ih _ _⟩

end Prog

end Chimera.Lib.Program
