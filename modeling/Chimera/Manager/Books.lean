import Chimera.Manager.Frame
import Mathlib.Data.Prod.Lex
import Mathlib.Data.Set.Insert

/-! The manager's books: the control state without DNS, and the history of
epochs, launches, stops and commits. Every operation does one known thing to
them, given its answer, so the transactions are read on the books alone. -/

namespace Chimera.Manager
open Chimera.Model Chimera.Lib.Program

variable {Doc : Type}

structure Books (Doc : Type) where
  last : Nat
  current : Option (Active Doc)
  lastSpec : Option InstanceSpec
  quarantine : List QuarantinedEpoch
  trace : List (Event Doc)

def World.books (w : World Doc) : Books Doc where
  last := w.ctrl.last
  current := w.ctrl.current
  lastSpec := w.ctrl.lastSpec
  quarantine := w.ctrl.quarantine
  trace := w.trace

def Books.log (a : Books Doc) (e : Event Doc) : Books Doc := { a with trace := e :: a.trace }

def Books.adopt (a : Books Doc) (plan : EpochPlan Doc) : Books Doc :=
  { a with
    current := a.current.map fun active => { active with plan }
    trace := .committed plan false :: a.trace }

def Books.retainSource (a : Books Doc) (spec : InstanceSpec) : Books Doc :=
  { a with current := a.current.map fun active =>
      { active with plan := { active.plan with sourceSpec := spec } } }

/-! ## The reading -/

def Books.step : ∀ {β : Type}, Op Doc β → Books Doc → β → Books Doc → Prop
  | _, .panic _, _, _, _ => False
  | _, .current, a, b, a' => b = a.current ∧ a' = a
  | _, .lastSpec, a, b, a' => b = a.lastSpec ∧ a' = a
  | _, .quarantine, a, b, a' => b = a.quarantine ∧ a' = a
  | _, .nextEpoch, a, epoch, a' =>
    epoch.get = a.last + 1 ∧ a' = { a with last := a.last + 1 }.log (.allocated epoch)
  | _, .take, a, b, a' => b = a.current ∧ a' = { a with current := none }
  | _, .install inst plan rollback, a, _, a' => a' =
    { a with current := some ⟨inst, plan⟩, lastSpec := some plan.sourceSpec }.log
      (.committed plan rollback)
  | _, .adopt plan, a, _, a' => a' = a.adopt plan
  | _, .retainSource spec, a, _, a' => a' = a.retainSource spec
  | _, .retainSpec spec, a, _, a' => a' = { a with lastSpec := some spec }
  | _, .record epoch reason, a, _, a' =>
    a' = { a with quarantine := recordQuarantine a.quarantine epoch reason }
  | _, .proveDeath epoch, a, _, a' => a' = { a with quarantine := proveDeath a.quarantine epoch }
  | _, .release epoch, a, _, a' =>
    a' = { a with quarantine := releaseEpoch a.quarantine epoch }.log (.released epoch)
  | _, .launch site plan, a, r, a' => match r with
    | .ok inst => inst.epoch = plan.revision.epoch ∧
        a' = a.log (.launched site plan.revision.epoch (.ok ()))
    | .error e => a' = a.log (.launched site plan.revision.epoch (.error e))
  | _, .stop _ inst, a, r, a' => a' = a.log (.stopped inst.epoch r)
  | _, .cleanupEpoch _ epoch, a, r, a' => match r with
    | .ok () => a' = a.log (.cleaned epoch)
    | .error _ => a' = a
  | _, .reap epoch, a, r, a' => match r with
    | .ok outcome => a' = a.log (.reaped epoch outcome)
    | .error _ => a' = a
  | _, .boot found, a, _, a' =>
    a' = ⟨found.foldl max 0, none, none, [], .built found :: a.trace⟩
  | _, _, a, _, a' => a' = a

@[simp] theorem World.books_elapse (env : Env Doc) (w : World Doc) :
    (w.elapse env).books = w.books := by
  simp [World.books]

theorem exec_store_books {ε α : Type} (env : Env Doc) (p : Prog ε StorePrim α) (w : World Doc) :
    (exec (storeHandle env) p w).2.books = w.books :=
  exec_same (h := storeHandle env) (fun op w => storeHandle_same (f := World.books)
    (World.books_elapse env) (fun _ _ => rfl) (fun _ _ => rfl) op w) p

theorem exec_dns_books {ε α : Type} (env : Env Doc) (p : Prog ε (DnsPrim Doc) α) (w : World Doc) :
    (exec (dnsHandle env) p w).2.books = w.books :=
  exec_same (h := dnsHandle env) (fun op w => dnsHandle_same (f := World.books)
    (World.books_elapse env) (fun _ _ => rfl) (fun _ _ _ _ => rfl) op w) p

/-- A cleanup succeeds with its event, or leaves the books alone. -/
theorem cleanupEpoch_books {setup : Setup Doc} {env : Env Doc} {site : Site} {epoch : Epoch}
    {w t : World Doc} {r : Except Error Unit}
    (h : handle setup env (.cleanupEpoch site epoch) w = (.ok r, t)) :
    Books.step (.cleanupEpoch site epoch) w.books r t.books := by
  simp only [handle] at h
  have hask : (ask env (env.cleanupController · epoch) w).2.books = w.books :=
    outside_same (World.books_elapse env w) rfl
  rcases hc : ask env (env.cleanupController · epoch) w with ⟨x | (e | _), u⟩
  · rw [hc] at h
    cases h
  · rw [hc] at h hask
    cases h
    exact hask
  · rw [hc] at h hask
    have hstore := exec_store_books env (cleanupArtifacts setup epoch.get) u
    rcases hs : exec (storeHandle env) (cleanupArtifacts setup epoch.get) u with ⟨x | (e | _), v⟩
    · simp only [afterwards, hs] at h
      cases h
    · simp only [afterwards, hs] at h
      rw [hs] at hstore
      cases h
      exact hstore.trans hask
    · simp only [afterwards, hs] at h
      rw [hs] at hstore
      cases h
      change (World.log v _).books = Books.log w.books _
      rw [← hask, ← hstore]
      rfl

theorem books_step (setup : Setup Doc) (env : Env Doc) {β : Type} (op : Op Doc β)
    (w t : World Doc) (b : β) (h : handle setup env op w = (.ok b, t)) :
    Books.step op w.books b t.books := by
  have snd : (handle setup env op w).2 = t := by rw [h]
  cases op with
  | panic message => cases h
  | current | lastSpec | quarantine | take => cases h; exact ⟨rfl, rfl⟩
  | nextEpoch =>
    simp only [handle] at h
    split at h
    · rename_i epoch hnew
      cases h
      refine ⟨?_, rfl⟩
      simp only [Epoch.new] at hnew
      split at hnew
      · cases hnew
        rfl
      · cases hnew
    · cases h
  | install _ _ _ | adopt _ | retainSource _ | retainSpec _ | record _ _ | proveDeath _
  | release _ | commitConfig _ | boot _ => cases h; rfl
  | launch site plan =>
    simp only [handle] at h
    have ha := outside_ok h
    split at ha
    · cases ha
      refine ⟨rfl, ?_⟩
      rw [← World.books_elapse env w]
      rfl
    · cases ha
      change _ = _
      rw [← World.books_elapse env w]
      rfl
  | stop site inst =>
    simp only [handle] at h
    cases outside_ok h
    change _ = _
    rw [← World.books_elapse env w]
    rfl
  | reap epoch =>
    simp only [handle] at h
    have ha := outside_ok h
    split at ha
    · cases ha
      change _ = _
      rw [← World.books_elapse env w]
      rfl
    · cases ha
      exact World.books_elapse env w
  | cleanupEpoch site epoch => exact cleanupEpoch_books h
  | publish _ _ | publishSnapshot _ _ _ _ | instanceStatus _ | abortForwarder _ | pid _
  | waitReady _ | reconciled | checkConfig _ | load _ | validateLaunchable _
  | resolveFeatures _ | cleanupController _ | reapOrphan _ =>
    rw [← snd]
    exact outside_same (World.books_elapse env w) rfl
  | stage _ _ | dropStaged _ | commitNew _ _ | commitReplace _ _ | backup _ _ | restore _
  | removeBackup _ | cleanupArtifacts _ | artifactEpochs | pidExists _ =>
    rw [← snd]
    exact exec_store_books env _ w
  | dnsActivate _ | dnsDeactivate _ | dnsConverge | dnsRestore | reconcileOrphan =>
    rw [← snd]
    exact exec_dns_books env _ w

end Chimera.Manager
