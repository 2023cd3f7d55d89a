import Chimera.Manager.Manager

/-! What the primitives leave alone. A part of the world is a function of it;
each lemma says which parts a kind of call does not change, however the call
ends. -/

namespace Chimera.Manager
open Chimera.Model Chimera.Lib.Program

variable {Doc : Type} {γ : Type} {env : Env Doc} {w t : World Doc}

theorem outside_same {β : Type} {call : Nat → World Doc → β × World Doc} {f : World Doc → γ}
    (elapse : f (w.elapse env) = f w)
    (hcall : f (call w.tick (w.elapse env)).2 = f (w.elapse env)) :
    f (outside env call w).2 = f w := by
  simp only [outside]
  split
  · rfl
  · exact hcall.trans elapse

/-- A program keeps the parts that its primitives keep. -/
theorem exec_same {Op : Type → Type} {ε α : Type} {h : Handler Op (World Doc) Abort}
    {f : World Doc → γ}
    (keep : ∀ {β : Type} (op : Op β) (w : World Doc), f (h op w).2 = f w)
    (p : Prog ε Op α) : f (exec h p w).2 = f w := by
  refine exec_invariant (h := h) (I := fun t => f t = f w) ?_ p rfl
  intro β op s hs
  exact (keep op s).trans hs

/-- What both halves of a cleanup keep. -/
theorem afterwards_keeps {r : Except Abort (Except Error Unit) × World Doc}
    {next : World Doc → Except Abort (Except Error Unit) × World Doc} {I : World Doc → Prop}
    (hr : I r.2) (hnext : ∀ u, I u → I (next u).2) : I (afterwards r next).2 := by
  rcases r with ⟨x | (e | u), t⟩
  · exact hr
  · exact hr
  · exact hnext t hr

/-- The store changes its directory and its counter. -/
theorem storeHandle_same {f : World Doc → γ} (elapse : ∀ w, f (w.elapse env) = f w)
    (artifacts : ∀ w d, f (w.setArtifacts d) = f w)
    (temp : ∀ (w : World Doc) n, f { w with temp := n } = f w)
    {β : Type} (op : StorePrim β) (w : World Doc) : f (storeHandle env op w).2 = f w := by
  have hdir : ∀ {β : Type} (act : Directory → Except String β × Directory),
      f (onDirectory env act w).2 = f w := by
    intro β act
    refine outside_same (elapse w) ?_
    split
    · rfl
    · exact artifacts _ _
  cases op with
  | temp => exact temp w _
  | write a bytes =>
    refine outside_same (elapse w) ?_
    split
    · exact artifacts _ _
    · exact artifacts _ _
  | stat a | createNew a | setPermissions a | sync a | remove a | read a => exact hdir _
  | link source target | rename source target => exact hdir _
  | readDir | syncDir => exact hdir _

/-- The DNS functions change the record, in memory and on disk, and call the
controller. -/
theorem dnsHandle_same {f : World Doc → γ} (elapse : ∀ w, f (w.elapse env) = f w)
    (record : ∀ w r, f (World.setDnsRecord w r) = f w)
    (host : ∀ (w : World Doc) file staging calls,
      f { w with recordFile := file, recordStaging := staging, dnsTrace := calls } = f w)
    {β : Type} (op : DnsPrim Doc β) (w : World Doc) : f (dnsHandle env op w).2 = f w := by
  have hfaulty : ∀ act : World Doc → Except String Unit × World Doc,
      (∀ w, ∃ file staging calls, (act w).2 =
        { w with recordFile := file, recordStaging := staging, dnsTrace := calls }) →
      f (faulty env act w).2 = f w := by
    intro act hact
    refine outside_same (elapse w) ?_
    split
    · rfl
    · obtain ⟨file, staging, calls, hw⟩ := hact (w.elapse env)
      rw [hw]
      exact host _ _ _ _
  cases op with
  | record => rfl
  | setRecord r => exact record w r
  | running => exact outside_same (elapse w) rfl
  | createStaging | syncStaging | removeStaging | syncDir =>
    exact hfaulty _ fun w => ⟨_, _, _, rfl⟩
  | renameStaging | linkStaging =>
    refine hfaulty _ fun w => ?_
    split
    · exact ⟨_, _, _, rfl⟩
    · exact ⟨_, _, _, rfl⟩
  | writeStaging bytes =>
    refine outside_same (elapse w) ?_
    split
    · exact host (w.elapse env) _ _ _
    · exact host (w.elapse env) _ _ _
  | recordExists =>
    refine outside_same (elapse w) ?_
    split
    · rfl
    · rfl
  | readRecord =>
    refine outside_same (elapse w) ?_
    split
    · rfl
    · split
      · rfl
      · rfl
  | removeRecord =>
    refine outside_same (elapse w) ?_
    split
    · rfl
    · split
      · exact host (w.elapse env) _ _ _
      · rfl
  | applying intent epoch => exact host w _ _ _
  | applied intent epoch =>
    refine outside_same (elapse w) ?_
    split
    · exact host (w.elapse env) _ _ _
    · rfl
  | restore r =>
    refine outside_same (elapse w) ?_
    split
    · exact host (w.elapse env) _ _ _
    · rfl

/-! ## Directories -/

section Directory

variable {d : Directory} {a b : Artifact} {n : Node}

theorem Directory.find_erase : (d.erase a).find b = if b = a then none else d.find b := by
  induction d with
  | nil => simp [Directory.erase, Directory.find]
  | cons entry rest ih =>
    obtain ⟨x, m⟩ := entry
    simp only [Directory.erase, Directory.find] at ih ⊢
    by_cases hx : x = a
    · subst hx
      rw [List.filter_cons_of_neg (by simp), ih]
      split
      · rfl
      · rename_i hb
        rw [List.lookup_cons, beq_eq_false_iff_ne.2 hb]
    · rw [List.filter_cons_of_pos (by simpa using hx), List.lookup_cons, List.lookup_cons, ih]
      by_cases hb : b = x
      · subst hb
        simp [hx]
      · rw [beq_eq_false_iff_ne.2 hb]

theorem Directory.find_put : (d.put a n).find b = if b = a then some n else d.find b := by
  rw [Directory.put, Directory.find, List.lookup_cons]
  by_cases hb : b = a
  · simp [hb]
  · rw [beq_eq_false_iff_ne.2 hb, if_neg hb]
    exact Directory.find_erase.trans (if_neg hb)

/-- Time changes a runtime's own artifacts only. -/
theorem World.elapse_find (ha : a.ofRuntime = false) :
    (w.elapse env).artifacts.find a = w.artifacts.find a := by
  refine World.elapse_same (f := fun w => w.artifacts.find a) (fun now w b => ?_) fun _ _ => rfl
  cases b with
  | report number status =>
    simp only [World.background]
    split
    · rfl
    · rfl
  | forward number =>
    simp only [World.background, World.forward]
    split
    · rfl
    · split
      · rfl
      · rfl
  | artifact entry node =>
    simp only [World.background]
    split
    · rename_i hentry
      have hne : a ≠ entry := by
        rintro rfl
        rw [ha] at hentry
        cases hentry
      cases node with
      | some n => exact Directory.find_put.trans (if_neg hne)
      | none => exact Directory.find_erase.trans (if_neg hne)
    · rfl

theorem exec_dns_find {ε α : Type} (env : Env Doc) (ha : a.ofRuntime = false)
    (p : Prog ε (DnsPrim Doc) α) (w : World Doc) :
    (exec (dnsHandle env) p w).2.artifacts.find a = w.artifacts.find a :=
  exec_same (h := dnsHandle env) (f := fun w : World Doc => w.artifacts.find a)
    (fun op w => dnsHandle_same (f := fun w : World Doc => w.artifacts.find a)
      (fun _ => World.elapse_find ha) (fun _ _ => rfl) (fun _ _ _ _ => rfl) op w) p

end Directory

/-! ## The world as it is -/

/-- The operations as they are performed, where the guard lets them. -/
def worldReading (setup : Setup Doc) (env : Env Doc)
    (G : ∀ {β : Type}, Op Doc β → World Doc → Prop) : Reading (Op Doc) (World Doc) where
  step := fun op w b t => G op w ∧ handle setup env op w = (.ok b, t)
  pre := fun _ _ => True

theorem worldReading_sound (setup : Setup Doc) (env : Env Doc)
    (G : ∀ {β : Type}, Op Doc β → World Doc → Prop) :
    (worldReading setup env G).Sound (handle setup env) G id :=
  ⟨fun _ _ _ _ hG h => ⟨hG, h⟩⟩

theorem handle_instanceStatus {setup : Setup Doc} {inst : Instance} {status : InstanceStatus}
    (h : handle setup env (.instanceStatus inst) w = (.ok status, t)) :
    t = w.elapse env ∧ status = (w.elapse env).instances inst.number := by
  simp only [handle] at h
  cases outside_ok h
  exact ⟨rfl, rfl⟩

/-- The world after time has passed, and nothing else. -/
def Waited (env : Env Doc) (w t : World Doc) : Prop := ∃ n, t = (World.elapse env)^[n] w

theorem Waited.refl : Waited env w w := ⟨0, rfl⟩

theorem Waited.elapse (h : Waited env w t) : Waited env w (t.elapse env) := by
  obtain ⟨n, rfl⟩ := h
  exact ⟨n + 1, (Function.iterate_succ_apply' _ n w).symm⟩

/-- What time leaves alone, waiting leaves alone. -/
theorem Waited.same {f : World Doc → γ} (elapse : ∀ w, f (w.elapse env) = f w)
    (h : Waited env w t) : f t = f w := by
  obtain ⟨n, rfl⟩ := h
  induction n with
  | zero => rfl
  | succ n ih => rw [Function.iterate_succ_apply', elapse, ih]

theorem Waited.find {a : Artifact} (ha : a.ofRuntime = false) (h : Waited env w t) :
    t.artifacts.find a = w.artifacts.find a :=
  h.same (f := fun w => w.artifacts.find a) fun _ => World.elapse_find ha

/-! ## Calls that do not answer -/

/-- A primitive that does not answer has done nothing. -/
theorem dnsHandle_error {β : Type} {op : DnsPrim Doc β} {x : Abort}
    (h : dnsHandle env op w = (.error x, t)) : x = .crash ∧ t = w := by
  cases op <;> simp only [dnsHandle, faulty] at h <;>
    first | cases h | exact outside_error h

theorem storeHandle_error {β : Type} {op : StorePrim β} {x : Abort}
    (h : storeHandle env op w = (.error x, t)) : x = .crash ∧ t = w := by
  cases op <;> simp only [storeHandle, onDirectory] at h <;>
    first | cases h | exact outside_error h

theorem exec_store_error {ε α : Type} {p : Prog ε StorePrim α} {x : Abort}
    (h : exec (storeHandle env) p w = (.error x, t)) : x = .crash := by
  obtain ⟨β, op, u, hop⟩ := exec_error (h := storeHandle env) h
  exact (storeHandle_error hop).1

theorem exec_dns_error {ε α : Type} {p : Prog ε (DnsPrim Doc) α} {x : Abort}
    (h : exec (dnsHandle env) p w = (.error x, t)) : x = .crash := by
  obtain ⟨β, op, u, hop⟩ := exec_error (h := dnsHandle env) h
  exact (dnsHandle_error hop).1

theorem afterwards_error {r : Except Abort (Except Error Unit) × World Doc}
    {next : World Doc → Except Abort (Except Error Unit) × World Doc} {x : Abort}
    (hr : ∀ u, r = (.error x, u) → x = .crash)
    (hnext : ∀ u v, next u = (.error x, v) → x = .crash)
    (h : afterwards r next = (.error x, t)) : x = .crash := by
  rcases r with ⟨y | (e | _), u⟩
  · cases h
    exact hr t rfl
  · cases h
  · exact hnext u t h

/-- Whether an operation of a transaction can panic. -/
def Op.mayPanic {β : Type} : Op Doc β → Bool
  | .panic _ | .nextEpoch => true
  | _ => false

/-- The operations that only the construction of a manager performs. -/
def Op.constructs {β : Type} : Op Doc β → Bool
  | .reconcileOrphan | .boot _ => true
  | _ => false

/-- A panic has no effect, and comes from a failed `expect` or from the epoch
allocator. -/
theorem handle_panic {setup : Setup Doc} {β : Type} {op : Op Doc β} {message : String}
    (h : handle setup env op w = (.error (.panic message), t)) : op.mayPanic = true ∧ t = w := by
  have crash : Abort.panic message ≠ .crash := nofun
  cases op <;> simp only [handle, ask] at h
  case panic m =>
    cases h
    exact ⟨rfl, rfl⟩
  case nextEpoch =>
    split at h
    · cases h
    · cases h
      exact ⟨rfl, rfl⟩
  case cleanupEpoch site epoch =>
    refine absurd (afterwards_error (fun u hu => (outside_error hu).1) (fun u v hv => ?_) h) crash
    exact afterwards_error (fun u hu => exec_store_error hu) (fun u v hv => by cases hv) hv
  all_goals first
    | cases h
    | exact absurd (outside_error h).1 crash
    | exact absurd (exec_store_error h) crash
    | exact absurd (exec_dns_error h) crash

end Chimera.Manager
