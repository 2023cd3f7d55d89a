import Mathlib.Order.Basic

/-! Programs over a fixed set of operations, and their runs.

A program is a tree: it returns, or performs an operation and goes on with the
answer. It fails with a value of `ε`, which a caller can catch; what the
operations do, and whether one of them ends the run for good, is up to a
handler. A property that every operation keeps is kept by every program, so it
needs no proof per program.

What a program does in order is proved over a `Reading` of its operations: what
each may answer and what it does to a smaller state. Weakest preconditions are
taken over the reading, and a sound reading carries them to the handler's runs. -/

namespace Chimera.Lib.Program

universe u

inductive Prog (ε : Type) (Op : Type → Type) (α : Type) : Type 1
  | ret (result : Except ε α)
  | call {β : Type} (op : Op β) (next : β → Prog ε Op α)

variable {ε σ ω α β : Type} {Op : Type → Type}

def Prog.bind : Prog ε Op α → (α → Prog ε Op β) → Prog ε Op β
  | .ret (.ok a), f => f a
  | .ret (.error e), _ => .ret (.error e)
  | .call op next, f => .call op fun b => (next b).bind f

instance : Monad (Prog ε Op) where
  pure a := .ret (.ok a)
  bind := Prog.bind

def fail (e : ε) : Prog ε Op α := .ret (.error e)

theorem Prog.bind_assoc {γ : Type} (p : Prog ε Op α) (f : α → Prog ε Op β) (g : β → Prog ε Op γ) :
    p >>= f >>= g = p >>= fun x => f x >>= g := by
  induction p with
  | ret r => cases r <;> rfl
  | call op next ih => exact congrArg (Prog.call op) (funext ih)

def perform (op : Op α) : Prog ε Op α := .call op fun a => .ret (.ok a)

/-- An operation whose answer may itself be a failure of the program. -/
def demand (op : Op (Except ε α)) : Prog ε Op α := .call op .ret

/-- The result of a program as a value. -/
def Prog.attempt {ε' : Type} : Prog ε Op α → Prog ε' Op (Except ε α)
  | .ret r => .ret (.ok r)
  | .call op next => .call op fun b => (next b).attempt

def Prog.mapError {ε' : Type} (f : ε → ε') : Prog ε Op α → Prog ε' Op α
  | .ret r => .ret (r.mapError f)
  | .call op next => .call op fun b => (next b).mapError f

/-- What an operation does to the state; `ω` is how a run can end inside it. -/
abbrev Handler (Op : Type → Type) (σ ω : Type) := ∀ {β : Type}, Op β → σ → Except ω β × σ

def exec (h : Handler Op σ ω) : Prog ε Op α → σ → Except ω (Except ε α) × σ
  | .ret r, s => (.ok r, s)
  | .call op next, s =>
    match h op s with
    | (.ok b, t) => exec h (next b) t
    | (.error x, t) => (.error x, t)

/-! ## Runs -/

section Runs

variable {h : Handler Op σ ω} {s t : σ}

theorem exec_bind (p : Prog ε Op α) (f : α → Prog ε Op β) :
    exec h (p >>= f) s = match exec h p s with
      | (.ok (.ok a), t) => exec h (f a) t
      | (.ok (.error e), t) => (.ok (.error e), t)
      | (.error x, t) => (.error x, t) := by
  induction p generalizing s with
  | ret x => cases x <;> rfl
  | call op next ih =>
    change exec h (.call op fun b => next b >>= f) s = _
    simp only [exec]
    rcases h op s with ⟨x | b, t⟩
    · rfl
    · exact ih b

theorem exec_perform_bind (op : Op α) (f : α → Prog ε Op β) :
    exec h (perform op >>= f) s = match h op s with
      | (.ok a, t) => exec h (f a) t
      | (.error x, t) => (.error x, t) := by
  change exec h (.call op f) s = _
  simp only [exec]

/-- What every operation keeps, every program keeps, however its run ends. -/
theorem exec_invariant {I : σ → Prop}
    (keep : ∀ {β : Type} (op : Op β) (s : σ), I s → I (h op s).2) (p : Prog ε Op α)
    (hs : I s) : I (exec h p s).2 := by
  induction p generalizing s with
  | ret r => exact hs
  | call op next ih =>
    simp only [exec]
    have hop := keep op s hs
    split
    · rename_i heq
      rw [heq] at hop
      exact ih _ hop
    · rename_i heq
      rw [heq] at hop
      exact hop

/-- A run that does not return ends in one of its operations. -/
theorem exec_error {p : Prog ε Op α} {x : ω} (hr : exec h p s = (.error x, t)) :
    ∃ (β : Type) (op : Op β) (u : σ), h op u = (.error x, t) := by
  induction p generalizing s with
  | ret r => cases hr
  | call op next ih =>
    simp only [exec] at hr
    rcases hop : h op s with ⟨y | b, u⟩
    · rw [hop] at hr
      cases hr
      exact ⟨_, op, s, hop⟩
    · rw [hop] at hr
      exact ih b hr

/-- Every operation that the run performs meets the guard `G` where it is
performed. -/
def Along (h : Handler Op σ ω) (G : ∀ {β : Type}, Op β → σ → Prop) : Prog ε Op α → σ → Prop
  | .ret _, _ => True
  | .call op next, s => G op s ∧ match h op s with
    | (.ok b, t) => Along h G (next b) t
    | (.error _, _) => True

/-- What is decided at each operation is decided along a run. -/
instance Along.decidable {h : Handler Op σ ω} {G : ∀ {β : Type}, Op β → σ → Prop}
    [∀ {β : Type} (op : Op β) (s : σ), Decidable (G op s)] :
    ∀ (p : Prog ε Op α) (s : σ), Decidable (Along h G p s)
  | .ret _, _ => .isTrue trivial
  | .call op next, s =>
    have : Decidable (match h op s with
        | (.ok b, t) => Along h G (next b) t
        | (.error _, _) => True) :=
      match h op s with
      | (.ok b, t) => Along.decidable (next b) t
      | (.error _, _) => .isTrue trivial
    inferInstanceAs (Decidable (G op s ∧ match h op s with
      | (.ok b, t) => Along h G (next b) t
      | (.error _, _) => True))

theorem along_perform_bind {G : ∀ {β : Type}, Op β → σ → Prop} (op : Op α)
    (f : α → Prog ε Op β) :
    Along h G (perform op >>= f) s ↔ G op s ∧ match h op s with
      | (.ok a, t) => Along h G (f a) t
      | (.error _, _) => True := by
  change Along h G (.call op f) s ↔ _
  simp only [Along]

theorem Along.mono {G G' : ∀ {β : Type}, Op β → σ → Prop} {p : Prog ε Op α}
    (hp : Along h G p s) (hG : ∀ {β : Type} (op : Op β) (s : σ), G op s → G' op s) :
    Along h G' p s := by
  induction p generalizing s with
  | ret r => trivial
  | call op next ih =>
    simp only [Along] at hp ⊢
    refine ⟨hG op s hp.1, ?_⟩
    rcases hstep : h op s with ⟨x | b, t⟩
    · trivial
    · rw [hstep] at hp
      exact ih b hp.2

theorem Along.and {G G' : ∀ {β : Type}, Op β → σ → Prop} {p : Prog ε Op α}
    (hp : Along h G p s) (hp' : Along h G' p s) : Along h (fun op s => G op s ∧ G' op s) p s := by
  induction p generalizing s with
  | ret r => trivial
  | call op next ih =>
    simp only [Along] at hp hp' ⊢
    refine ⟨⟨hp.1, hp'.1⟩, ?_⟩
    rcases hstep : h op s with ⟨x | b, t⟩
    · trivial
    · rw [hstep] at hp hp'
      exact ih b hp.2 hp'.2

/-- A run that does not return ends in an operation that meets the guard. -/
theorem Along.ends {G : ∀ {β : Type}, Op β → σ → Prop} {p : Prog ε Op α} {x : ω}
    (hp : Along h G p s) (hr : exec h p s = (.error x, t)) :
    ∃ (β : Type) (op : Op β) (u : σ), G op u ∧ h op u = (.error x, t) := by
  induction p generalizing s with
  | ret r => cases hr
  | call op next ih =>
    simp only [Along, exec] at hp hr
    rcases hop : h op s with ⟨y | b, u⟩
    · rw [hop] at hr
      cases hr
      exact ⟨_, op, s, hp.1, hop⟩
    · rw [hop] at hp hr
      exact ih b hp.2 hr

theorem along_of_forall {G : ∀ {β : Type}, Op β → σ → Prop}
    (hG : ∀ {β : Type} (op : Op β) (s : σ), G op s) (p : Prog ε Op α) : Along h G p s := by
  induction p generalizing s with
  | ret r => trivial
  | call op next ih =>
    simp only [Along]
    refine ⟨hG op s, ?_⟩
    rcases h op s with ⟨x | b, t⟩
    · trivial
    · exact ih b

/-- What every operation keeps that meets the guard, a run of such operations
keeps. -/
theorem Along.invariant {G : ∀ {β : Type}, Op β → σ → Prop} {I : σ → Prop} {p : Prog ε Op α}
    (hp : Along h G p s)
    (keep : ∀ {β : Type} (op : Op β) (s : σ), G op s → I s → I (h op s).2) (hs : I s) :
    I (exec h p s).2 := by
  induction p generalizing s with
  | ret r => exact hs
  | call op next ih =>
    simp only [Along, exec] at hp ⊢
    have hop := keep op s hp.1 hs
    rcases hstep : h op s with ⟨x | b, t⟩
    · rw [hstep] at hop
      exact hop
    · rw [hstep] at hop hp
      exact ih b hp.2 hop

/-- A property that an answered operation keeps holds at every operation of the
run, and at its end if the run returns. -/
theorem Along.keeps {G : ∀ {β : Type}, Op β → σ → Prop} {I : σ → Prop} {p : Prog ε Op α}
    (hp : Along h G p s) (hs : I s)
    (keep : ∀ {β : Type} (op : Op β) (s t : σ) (b : β), G op s → I s → h op s = (.ok b, t) → I t) :
    Along h (fun _ s => I s) p s ∧ ∀ r t, exec h p s = (.ok r, t) → I t := by
  induction p generalizing s with
  | ret r =>
    refine ⟨trivial, ?_⟩
    intro r t hr
    cases hr
    exact hs
  | call op next ih =>
    simp only [Along, exec] at hp ⊢
    rcases hstep : h op s with ⟨x | b, t⟩
    · exact ⟨⟨hs, trivial⟩, nofun⟩
    · rw [hstep] at hp
      obtain ⟨halong, hret⟩ := ih b hp.2 (keep op s t b hp.1 hs hstep)
      exact ⟨⟨hs, halong⟩, hret⟩

end Runs

/-! ## Weakest preconditions -/

/-- What the operations do to a state `A`: `step op a b a'` when `op` may answer
`b` and leave `a'`, and `pre op a` what has to hold where `op` is performed. -/
structure Reading (Op : Type → Type) (A : Type u) where
  step : ∀ {β : Type}, Op β → A → β → A → Prop
  pre : ∀ {β : Type}, Op β → A → Prop

namespace Prog

variable {A : Type u} {R : Reading Op A} {a : A}

/-- Every way the operations may answer ends with `Q`, and each is performed
where it may be. -/
def wp (R : Reading Op A) : Prog ε Op α → (Except ε α → A → Prop) → A → Prop
  | .ret r, Q, a => Q r a
  | .call op next, Q, a => R.pre op a ∧ ∀ b a', R.step op a b a' → (next b).wp R Q a'

variable {Q Q' : Except ε α → A → Prop}

theorem wp_mono {p : Prog ε Op α} (hp : p.wp R Q a) (hQ : ∀ r a', Q r a' → Q' r a') :
    p.wp R Q' a := by
  induction p generalizing a with
  | ret r => exact hQ r a hp
  | call op next ih => exact ⟨hp.1, fun b a' hb => ih b (hp.2 b a' hb)⟩

/-- It may be read with operations that do less and may be performed more widely. -/
theorem wp_reading_mono {R' : Reading Op A} {p : Prog ε Op α} (hp : p.wp R Q a)
    (step : ∀ {β : Type} (op : Op β) (a a' : A) (b : β), R'.step op a b a' → R.step op a b a')
    (pre : ∀ {β : Type} (op : Op β) (a : A), R.pre op a → R'.pre op a) : p.wp R' Q a := by
  induction p generalizing a with
  | ret r => exact hp
  | call op next ih => exact ⟨pre op a hp.1, fun b a' hb => ih b (hp.2 b a' (step op a a' b hb))⟩

theorem wp_and {p : Prog ε Op α} (hp : p.wp R Q a) (hp' : p.wp R Q' a) :
    p.wp R (fun r a' => Q r a' ∧ Q' r a') a := by
  induction p generalizing a with
  | ret r => exact ⟨hp, hp'⟩
  | call op next ih => exact ⟨hp.1, fun b a' hb => ih b (hp.2 b a' hb) (hp'.2 b a' hb)⟩

/-- Where operations may be performed anywhere, every program ends. -/
theorem wp_true {p : Prog ε Op α} (hR : ∀ {β : Type} (op : Op β) (a : A), R.pre op a) :
    p.wp R (fun _ _ => True) a := by
  induction p generalizing a with
  | ret r => trivial
  | call op next ih => exact ⟨hR op a, fun b a' _ => ih b⟩

/-- What no operation can bring about holds before a program that ends with it. -/
theorem wp_now {p : Prog ε Op α} {P : A → Prop}
    (total : ∀ {β : Type} (op : Op β) (a : A), ∃ b a', R.step op a b a')
    (back : ∀ {β : Type} (op : Op β) (a a' : A) (b : β), R.step op a b a' → P a' → P a)
    (hp : p.wp R (fun _ a' => P a') a) : P a := by
  induction p generalizing a with
  | ret r => exact hp
  | call op next ih =>
    obtain ⟨b, a', hstep⟩ := total op a
    exact back op a a' b hstep (ih b (hp.2 b a' hstep))

/-- It holds at every operation of the program. -/
theorem wp_throughout {p : Prog ε Op α} {P : A → Prop}
    (total : ∀ {β : Type} (op : Op β) (a : A), ∃ b a', R.step op a b a')
    (back : ∀ {β : Type} (op : Op β) (a a' : A) (b : β), R.step op a b a' → P a' → P a)
    (hp : p.wp R (fun _ a' => P a') a) :
    p.wp { R with pre := fun _ a => P a } (fun _ a' => P a') a := by
  induction p generalizing a with
  | ret r => exact hp
  | call op next ih =>
    exact ⟨wp_now (p := .call op next) total back hp, fun b a' hb => ih b (hp.2 b a' hb)⟩

@[simp] theorem wp_pure (x : α) : (pure x : Prog ε Op α).wp R Q a ↔ Q (.ok x) a := Iff.rfl

@[simp] theorem wp_fail (e : ε) : (fail e : Prog ε Op α).wp R Q a ↔ Q (.error e) a := Iff.rfl

@[simp] theorem wp_ret (r : Except ε α) : (Prog.ret r : Prog ε Op α).wp R Q a ↔ Q r a := Iff.rfl

@[simp] theorem wp_perform (op : Op α) : (perform op : Prog ε Op α).wp R Q a ↔
    R.pre op a ∧ ∀ b a', R.step op a b a' → Q (.ok b) a' := Iff.rfl

@[simp] theorem wp_demand (op : Op (Except ε α)) : (demand op : Prog ε Op α).wp R Q a ↔
    R.pre op a ∧ ∀ r a', R.step op a r a' → Q r a' := Iff.rfl

/-- The rest of a sequence, as a postcondition of its beginning. -/
def andThen (R : Reading Op A) (f : α → Prog ε Op β) (Q : Except ε β → A → Prop) :
    Except ε α → A → Prop
  | .ok x, a => (f x).wp R Q a
  | .error e, a => Q (.error e) a

@[simp] theorem andThen_ok (f : α → Prog ε Op β) (Q : Except ε β → A → Prop) (x : α) :
    andThen R f Q (.ok x) a ↔ (f x).wp R Q a := Iff.rfl

@[simp] theorem andThen_error (f : α → Prog ε Op β) (Q : Except ε β → A → Prop) (e : ε) :
    andThen R f Q (.error e) a ↔ Q (.error e) a := Iff.rfl

@[simp] theorem wp_bind (p : Prog ε Op α) (f : α → Prog ε Op β) (Q : Except ε β → A → Prop) :
    (p >>= f).wp R Q a ↔ p.wp R (andThen R f Q) a := by
  induction p generalizing a with
  | ret r => cases r <;> exact Iff.rfl
  | call op next ih =>
    exact and_congr_right fun _ => forall_congr' fun b => forall_congr' fun a' =>
      imp_congr_right fun _ => ih b

@[simp] theorem wp_attempt {ε' : Type} (p : Prog ε Op α) (Q : Except ε' (Except ε α) → A → Prop) :
    (p.attempt : Prog ε' Op (Except ε α)).wp R Q a ↔ p.wp R (fun r a' => Q (.ok r) a') a := by
  induction p generalizing a with
  | ret r => exact Iff.rfl
  | call op next ih =>
    exact and_congr_right fun _ => forall_congr' fun b => forall_congr' fun a' =>
      imp_congr_right fun _ => ih b

@[simp] theorem wp_mapError {ε' : Type} (f : ε → ε') (p : Prog ε Op α)
    (Q : Except ε' α → A → Prop) :
    (p.mapError f).wp R Q a ↔ p.wp R (fun r a' => Q (r.mapError f) a') a := by
  induction p generalizing a with
  | ret r => exact Iff.rfl
  | call op next ih =>
    exact and_congr_right fun _ => forall_congr' fun b => forall_congr' fun a' =>
      imp_congr_right fun _ => ih b

/-! ### Rules

The rules take a program apart from its start; a function is used through its
specification. -/

variable {f : α → Prog ε Op β} {T : Except ε β → A → Prop}

theorem wp_seq {p : Prog ε Op α} (hp : p.wp R Q a)
    (error : ∀ e a', Q (.error e) a' → T (.error e) a')
    (ok : ∀ x a', Q (.ok x) a' → (f x).wp R T a') : (p >>= f).wp R T a := by
  rw [wp_bind]
  refine wp_mono hp fun r a' hr => ?_
  cases r with
  | ok x => exact ok x a' hr
  | error e => exact error e a' hr

theorem wp_attempt_seq {ε' : Type} {p : Prog ε' Op α} {P : Except ε' α → A → Prop}
    {f : Except ε' α → Prog ε Op β} (hp : p.wp R P a)
    (next : ∀ r a', P r a' → (f r).wp R T a') : (p.attempt >>= f).wp R T a := by
  rw [wp_bind, wp_attempt]
  exact wp_mono hp fun r a' hr => next r a' hr

theorem wp_perform_bind {op : Op α} (pre : R.pre op a)
    (next : ∀ b a', R.step op a b a' → (f b).wp R T a') : (perform op >>= f).wp R T a :=
  (wp_bind ..).2 ⟨pre, next⟩

theorem wp_demand_bind {op : Op (Except ε α)} (pre : R.pre op a)
    (error : ∀ e a', R.step op a (.error e) a' → T (.error e) a')
    (ok : ∀ x a', R.step op a (.ok x) a' → (f x).wp R T a') :
    (demand op >>= f).wp R T a := by
  refine (wp_bind ..).2 ⟨pre, fun r a' hr => ?_⟩
  cases r with
  | ok x => exact ok x a' hr
  | error e => exact error e a' hr

/-! ### The states of a run -/

/-- A run may be at `a'`, at an operation or at its end. -/
def At (step : ∀ {β : Type}, Op β → A → β → A → Prop) : Prog ε Op α → A → A → Prop
  | .ret _, a, a' => a' = a
  | .call op next, a, a' => a' = a ∨ ∃ b t, step op a b t ∧ (next b).At step t a'

theorem at_call {step : ∀ {β : Type}, Op β → A → β → A → Prop} {op : Op β} {b : β}
    {next : β → Prog ε Op α} {a' t : A} (hstep : step op a b t) (hnext : (next b).At step t a') :
    (Prog.call op next).At step a a' := .inr ⟨b, t, hstep, hnext⟩

/-- Where a run may be, whatever holds wherever an operation may be performed and where the
program may end. -/
theorem wp_at {p : Prog ε Op α} {a' : A} {I : A → Prop} (hp : p.wp R Q a)
    (h : p.At R.step a a') (pre : ∀ {β : Type} (op : Op β) (a : A), R.pre op a → I a)
    (post : ∀ r a, Q r a → I a) : I a' := by
  induction p generalizing a with
  | ret r =>
    obtain rfl : a' = a := h
    exact post r _ hp
  | call op next ih =>
    obtain rfl | ⟨b, t, hstep, hnext⟩ := h
    · exact pre op _ hp.1
    · exact ih b (hp.2 b t hstep) hnext

end Prog

/-! ## The operations of a program -/

namespace Prog

/-- Every operation that the program may come to, whatever the answers, is
`P`. -/
def Only (P : ∀ {β : Type}, Op β → Prop) : Prog ε Op α → Prop
  | .ret _ => True
  | .call op next => P op ∧ ∀ b, (next b).Only P

variable {P : ∀ {β : Type}, Op β → Prop}

theorem Only.ret (r : Except ε α) : (Prog.ret r : Prog ε Op α).Only P := trivial

theorem Only.perform {op : Op α} (h : P op) : (perform op : Prog ε Op α).Only P :=
  ⟨h, fun _ => trivial⟩

theorem Only.demand {op : Op (Except ε α)} (h : P op) : (demand op : Prog ε Op α).Only P :=
  ⟨h, fun _ => trivial⟩

theorem Only.bind {p : Prog ε Op α} {f : α → Prog ε Op β} (hp : p.Only P)
    (hf : ∀ x, (f x).Only P) : (p >>= f).Only P := by
  induction p with
  | ret r =>
    cases r with
    | ok x => exact hf x
    | error e => trivial
  | call op next ih => exact ⟨hp.1, fun b => ih b (hp.2 b)⟩

theorem Only.mono {P' : ∀ {β : Type}, Op β → Prop} {p : Prog ε Op α} (hp : p.Only P)
    (h : ∀ {β : Type} (op : Op β), P op → P' op) : p.Only P' := by
  induction p with
  | ret r => trivial
  | call op next ih => exact ⟨h op hp.1, fun b => ih b (hp.2 b)⟩

theorem Only.attempt {ε' : Type} {p : Prog ε Op α} (hp : p.Only P) :
    (p.attempt : Prog ε' Op (Except ε α)).Only P := by
  induction p with
  | ret r => trivial
  | call op next ih => exact ⟨hp.1, fun b => ih b (hp.2 b)⟩

theorem Only.along {h : Handler Op σ ω} {s : σ} {p : Prog ε Op α} (hp : p.Only P) :
    Along h (fun op _ => P op) p s := by
  induction p generalizing s with
  | ret r => trivial
  | call op next ih =>
    simp only [Along]
    refine ⟨hp.1, ?_⟩
    rcases h op s with ⟨x | b, t⟩
    · trivial
    · exact ih b (hp.2 b)

/-- What such operations keep, the program keeps. -/
theorem Only.keeps {A : Type u} {R : Reading Op A} {a : A} {I : A → Prop} {p : Prog ε Op α}
    (hp : p.Only P) (pre : ∀ {β : Type} (op : Op β) (a : A), P op → I a → R.pre op a)
    (step : ∀ {β : Type} (op : Op β) (a a' : A) (b : β), P op → R.step op a b a' → I a → I a')
    (ha : I a) : p.wp R (fun _ a' => I a') a := by
  induction p generalizing a with
  | ret r => exact ha
  | call op next ih =>
    exact ⟨pre op a hp.1 ha, fun b a' hb => ih b (hp.2 b) (step op a a' b hp.1 hb ha)⟩

end Prog

/-! ## Interference -/

/-- The operations of a program that others interfere with: `rely` is what they
may do in front of each. -/
def Reading.under {A : Type} (R : Reading Op A) (rely : A → A → Prop) : Reading Op A where
  step := fun op a b a' => ∃ a₁, rely a a₁ ∧ R.step op a₁ b a'
  pre := fun op a => ∀ a₁, rely a a₁ → R.pre op a₁

section Interference

variable {A : Type} {R : Reading Op A} {rely : A → A → Prop} {a a₁ : A}
  {Q : Except ε α → A → Prop}

/-- What is left of a program may be done as well after the others have done
something. -/
theorem Prog.wp_relied {p : Prog ε Op α} (hp : p.wp (R.under rely) Q a)
    (trans : ∀ a₂, rely a₁ a₂ → rely a a₂) (hQ : ∀ r, Q r a → Q r a₁) :
    p.wp (R.under rely) Q a₁ := by
  cases p with
  | ret r => exact hQ r hp
  | call op next =>
    refine ⟨?_, ?_⟩
    · intro a₂ h₂
      exact hp.1 a₂ (trans a₂ h₂)
    · intro b a' hstep
      obtain ⟨a₂, h₂, hstep⟩ := hstep
      exact hp.2 b a' ⟨a₂, trans a₂ h₂, hstep⟩

end Interference

/-! ## Sound readings -/

/-- The reading tells the truth of the handler's runs, seen through `view`,
as far as its operations meet the guard. -/
structure Reading.Sound {A : Type} (R : Reading Op A) (h : Handler Op σ ω)
    (G : ∀ {β : Type}, Op β → σ → Prop) (view : σ → A) : Prop where
  step : ∀ {β : Type} (op : Op β) (s t : σ) (b : β), G op s → h op s = (.ok b, t) →
    R.step op (view s) b (view t)

section Soundness

variable {A : Type} {R : Reading Op A} {h : Handler Op σ ω} {view : σ → A}
  {G : ∀ {β : Type}, Op β → σ → Prop} {Q : Except ε α → A → Prop} {s t : σ}

theorem Reading.Sound.returns (hR : R.Sound h G view) {p : Prog ε Op α} {r : Except ε α}
    (hG : Along h G p s) (hp : p.wp R Q (view s)) (hr : exec h p s = (.ok r, t)) :
    Q r (view t) := by
  induction p generalizing s with
  | ret x =>
    cases hr
    exact hp
  | call op next ih =>
    simp only [exec, Along] at hr hG
    rcases hop : h op s with ⟨x | b, u⟩
    · rw [hop] at hr
      cases hr
    · rw [hop] at hr hG
      exact ih b hG.2 (hp.2 b _ (hR.step op s u b hG.1 hop)) hr

/-- Every operation of a run is performed where it may be. -/
theorem Reading.Sound.along (hR : R.Sound h G view) {p : Prog ε Op α} (hG : Along h G p s)
    (hp : p.wp R Q (view s)) : Along h (fun op u => R.pre op (view u)) p s := by
  induction p generalizing s with
  | ret r => trivial
  | call op next ih =>
    simp only [Along] at hG ⊢
    refine ⟨hp.1, ?_⟩
    rcases hop : h op s with ⟨x | b, u⟩
    · trivial
    · rw [hop] at hG
      exact ih b hG.2 (hp.2 b _ (hR.step op s u b hG.1 hop))

/-- A run that does not return ends in an operation performed where it may be. -/
theorem Reading.Sound.aborts (hR : R.Sound h G view) {p : Prog ε Op α} {x : ω}
    (hG : Along h G p s) (hp : p.wp R Q (view s)) (hr : exec h p s = (.error x, t)) :
    ∃ (β : Type) (op : Op β) (u : σ), R.pre op (view u) ∧ h op u = (.error x, t) := by
  induction p generalizing s with
  | ret r => cases hr
  | call op next ih =>
    simp only [exec, Along] at hr hG
    rcases hop : h op s with ⟨y | b, u⟩
    · rw [hop] at hr
      cases hr
      exact ⟨_, op, s, hp.1, hop⟩
    · rw [hop] at hr hG
      exact ih b hG.2 (hp.2 b _ (hR.step op s u b hG.1 hop)) hr

end Soundness

/-! ## Guards along a run -/

/-- The operations as the handler performs them, beside whether all of them so
far met the guard. -/
def flagged (h : Handler Op σ ω) (G : ∀ {β : Type}, Op β → σ → Prop) :
    Reading Op (σ × Prop) where
  step := fun op a b a' => h op a.1 = (.ok b, a'.1) ∧ a'.2 = (a.2 ∧ G op a.1)
  pre := fun _ _ => True

/-- The flag stays up over an operation that meets the guard. -/
theorem flagged_true {h : Handler Op σ ω} {G : ∀ {β : Type}, Op β → σ → Prop} {op : Op β} {s : σ}
    {b : β} {a : σ × Prop} (hG : G op s) (hstep : (flagged h G).step op (s, True) b a) :
    ∃ t, a = (t, True) ∧ h op s = (.ok b, t) := by
  obtain ⟨t, P⟩ := a
  obtain ⟨hop, hP⟩ := hstep
  have hP : P = True := hP.trans (eq_true ⟨trivial, hG⟩)
  exact ⟨t, by rw [hP], hop⟩

theorem flagged_returns {h : Handler Op σ ω} {G : ∀ {β : Type}, Op β → σ → Prop} {P : Prop}
    {p : Prog ε Op α} {Q : Except ε α → σ × Prop → Prop} {s t : σ} {r : Except ε α}
    (hp : p.wp (flagged h G) Q (s, P)) (hr : exec h p s = (.ok r, t)) :
    Q r (t, P ∧ Along h G p s) := by
  induction p generalizing s P with
  | ret x =>
    cases hr
    show Q _ (_, P ∧ True)
    rw [and_true]
    exact hp
  | call op next ih =>
    simp only [exec] at hr
    rcases hop : h op s with ⟨x | b, u⟩
    · rw [hop] at hr
      cases hr
    · rw [hop] at hr
      have hQ := ih b (hp.2 b (u, P ∧ G op s) ⟨hop, rfl⟩) hr
      have hP : (P ∧ Along h G (.call op next) s) = ((P ∧ G op s) ∧ Along h G (next b) u) := by
        simp only [Along, hop]
        exact propext and_assoc.symm
      rw [hP]
      exact hQ

end Chimera.Lib.Program
