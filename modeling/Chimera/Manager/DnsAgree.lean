import Chimera.Manager.DnsLedger
import Chimera.Manager.Runs

/-! The record in memory is the one on disk, between operations and where each
DNS function is called, in runs that do not lose track of it: construction
settles a record left behind, no staging name stays while its record is linked,
and none that did stay is written and then fails to be published. -/

namespace Chimera.Manager
open Chimera.Model Chimera.Lib.Program Chimera.Lib.Transition

variable {Doc : Type}

/-- What is remembered is what the file says. -/
def Ledger.Agrees (setup : Setup Doc) (a : Ledger) : Prop :=
  a.memory = a.host.record.bind setup.decodeRecord

theorem Ledger.Agrees.log {setup : Setup Doc} {a : Ledger} (h : a.Agrees setup) (e : DnsEvent) :
    (a.log e).Agrees setup := h

/-! ## The functions -/

section Functions

variable {setup : Setup Doc} {F : Faults} {a a' : Ledger} {ok : Bool}
  (codec : ∀ r bytes, setup.encodeRecord r = .ok bytes → setup.decodeRecord bytes = some r)
  (removal : ∀ a, F.removal a → a.Agrees setup) (whole : ¬F.torn)
include codec removal whole

theorem Written.agrees {entry : DnsOverrideRecord} (ha : a.Agrees setup)
    (h : Written setup F (some entry) entry a ok a') : a'.Agrees setup := by
  cases h with
  | visible encoded => exact (codec _ _ encoded).symm
  | refused failed => exact ha
  | torn linked failed => exact absurd failed.2 whole
  | linked absent encoded failed =>
    have h := removal _ failed
    exact h

omit codec removal whole in
theorem Cleared.agrees (ha : a.Agrees setup) (h : Cleared F a ok a') : a'.Agrees setup := by
  cases h with
  | done => rfl
  | failed h => exact ha

theorem Overridden.agrees {intent : DnsIntent} {epoch : Epoch} (ha : a.Agrees setup)
    (h : Overridden setup F intent epoch a ok a') : a'.Agrees setup := by
  cases h with
  | unrecorded hpre h => exact h.agrees codec removal whole ha
  | refused hpre h failed => exact (h.agrees codec removal whole ha).log _
  | moved hpre h recorded other => exact ((h.agrees codec removal whole ha).log _).log _
  | applied hpre h same h' =>
    exact h'.agrees codec removal whole (((h.agrees codec removal whole ha).log _).log _)

theorem Restored.agrees (ha : a.Agrees setup) (h : Restored setup F a ok a') :
    a'.Agrees setup := by
  cases h with
  | nothing h => exact ha
  | unregistered h none => exact ha
  | failed h registered marked refused => exact marked.agrees codec removal whole ha
  | done h registered marked cleared =>
    exact cleared.agrees ((marked.agrees codec removal whole ha).log _)

theorem Reached.agrees {goal : Option (DnsIntent × Epoch)} (ha : a.Agrees setup)
    (h : Reached setup F a ok a' goal) : a'.Agrees setup := by
  cases goal with
  | none => exact Restored.agrees codec removal whole ha h
  | some goal => exact Overridden.agrees codec removal whole ha h

end Functions

/-! ## Runs that keep track of the record -/

/-- The staging name of a record goes away while the record is not the one in
memory; and what is done to a staging file that is the record itself does not
fail. -/
def DnsPrim.Tidy (setup : Setup Doc) (env : Env Doc) {β : Type} : DnsPrim Doc β → World Doc → Prop
  | .removeStaging, w => (env.fault w.tick).isSome = true → w.ledger.Agrees setup
  | .writeStaging _, w | .syncStaging, w | .recordExists, w | .renameStaging, w =>
    (env.fault w.tick).isSome = true → w.recordStaging ≠ some .link
  | _, _ => True

/-- A record left behind is read, restored and removed. -/
def OrphanSettles (setup : Setup Doc) (env : Env Doc) (w : World Doc) : Prop :=
  ∀ record, w.recordFile.bind setup.decodeRecord = some record →
    setup.dns.isSome = true ∧ env.fault w.tick = none ∧
      env.dnsRestore (w.tick + 1) record = .ok () ∧ env.fault (w.tick + 2) = none

def Op.Tidy (setup : Setup Doc) (env : Env Doc) {β : Type} : Op Doc β → World Doc → Prop
  | .dnsActivate plan, w =>
    Along (dnsHandle env) (DnsPrim.Tidy setup env) (dnsActivateForPlan setup plan) w
  | .dnsDeactivate plan, w =>
    Along (dnsHandle env) (DnsPrim.Tidy setup env) (dnsDeactivateForPlan setup plan) w
  | .dnsConverge, w => Along (dnsHandle env) (DnsPrim.Tidy setup env) (Manager.dnsConverge setup) w
  | .dnsRestore, w => Along (dnsHandle env) (DnsPrim.Tidy setup env) (Manager.dnsRestore setup) w
  | .reconcileOrphan, w => OrphanSettles setup env w
  | _, _ => True

def TidyStep (setup : Setup Doc) (env : Env Doc) (s : System Doc) : Label → Prop
  | .build => Along (handle setup env) (Op.Tidy setup env) build s.world
  | .call command => Along (handle setup env) (Op.Tidy setup env) (program setup command) s.world
  | .idle => True

section Runs

variable {setup : Setup Doc} {env : Env Doc} {w t : World Doc}
  (codec : ∀ r bytes, setup.encodeRecord r = .ok bytes → setup.decodeRecord bytes = some r)
include codec

/-- What may fail in a tidy run. -/
def tidyFaults (setup : Setup Doc) : Faults := ⟨True, False, Ledger.Agrees setup, True⟩

omit codec in
theorem DnsPrim.Tidy.within {p : Prog Error (DnsPrim Doc) Unit}
    (h : Along (dnsHandle env) (DnsPrim.Tidy setup env) p w) :
    Along (dnsHandle env) (fun op w => op.Within env (tidyFaults setup) w) p w := by
  refine h.mono ?_
  intro β op w hw
  cases op <;> first | trivial | exact fun _ => trivial | exact fun hf => ⟨trivial, hw hf⟩

theorem handle_agrees {β : Type} {op : Op Doc β} {b : β} (hop : Op.Tidy setup env op w)
    (hcalls : op.constructs = false) (hw : w.ledger.Agrees setup)
    (h : handle setup env op w = (.ok b, t)) : t.ledger.Agrees setup := by
  have removal : ∀ a, (tidyFaults setup).removal a → a.Agrees setup := fun _ h => h
  have whole : ¬(tidyFaults setup).torn := id
  have same (hfree : op.dnsFree = true) : t.ledger.Agrees setup := by
    have ht : t = (handle setup env op w).2 := by rw [h]
    rw [ht, handle_ledger setup env w hfree]
    exact hw
  cases op with
  | dnsActivate plan =>
    rcases dnsActivate_run (DnsPrim.Tidy.within hop) h with ⟨-, ht⟩ | ⟨intent, -, hover⟩
    · rw [ht]
      exact hw
    · exact hover.agrees codec removal whole hw
  | dnsDeactivate plan =>
    rcases dnsDeactivate_run (DnsPrim.Tidy.within hop) h with ⟨-, -, ht⟩ | ⟨-, hrestored⟩
    · rw [ht]
      exact hw
    · exact hrestored.agrees codec removal whole hw
  | dnsConverge =>
    exact Reached.agrees codec removal whole hw (dnsConverge_run (DnsPrim.Tidy.within hop) h)
  | dnsRestore => exact (dnsRestore_run (DnsPrim.Tidy.within hop) h).agrees codec removal whole hw
  | reconcileOrphan | boot _ => cases hcalls
  | _ => exact same rfl

/-- A tidy operation keeps track of the record wherever it is. -/
theorem call_agrees {command : Command}
    (hg : Good (command.context w.books) ∅ w.books)
    (htidy : Along (handle setup env) (Op.Tidy setup env) (program setup command) w)
    (hw : w.ledger.Agrees setup) :
    Along (handle setup env) (fun _ w => w.ledger.Agrees setup) (program setup command) w ∧
      ∀ r t, exec (handle setup env) (program setup command) w = (r, t) → r ≠ .error .crash →
        t.ledger.Agrees setup := by
  have hG := htidy.and (call_constructs_nothing setup env hg)
  obtain ⟨halong, hret⟩ := hG.keeps hw fun op w t b hop hw h => handle_agrees codec hop.1 hop.2 hw h
  refine ⟨halong, ?_⟩
  intro r t hr hc
  rcases r with (_ | message) | r
  · exact absurd rfl hc
  · obtain ⟨β, op, u, hu, hop⟩ := halong.ends hr
    rw [(handle_panic hop).2]
    exact hu
  · exact hret r t hr

end Runs

/-! ## Construction -/

section Construction

variable {setup : Setup Doc} {env : Env Doc} {w t : World Doc}

theorem readRecord_answer {answer : Except String (List UInt8)}
    (h : dnsHandle env .readRecord w = (.ok answer, t)) :
    t = w.elapse env ∧ (∀ bytes, answer = .ok bytes → w.recordFile = some bytes) ∧
      (env.fault w.tick = none → ∀ bytes, w.recordFile = some bytes → answer = .ok bytes) := by
  simp only [dnsHandle] at h
  have ha := outside_ok h
  rw [World.elapse_recordFile] at ha
  split at ha
  · rename_i hfault
    cases ha
    exact ⟨rfl, (by rintro _ ⟨⟩), fun hnone => by rw [hfault] at hnone; cases hnone⟩
  · split at ha
    · rename_i hfile
      cases ha
      refine ⟨rfl, ?_, ?_⟩
      · intro bytes hbytes
        rw [hfile, Except.ok.inj hbytes]
      · intro _ bytes hbytes
        rw [hfile] at hbytes
        rw [Option.some.inj hbytes]
    · rename_i hfile
      cases ha
      exact ⟨rfl, (by rintro _ ⟨⟩), fun _ bytes hbytes => by rw [hfile] at hbytes; cases hbytes⟩

theorem restore_answer {record : DnsOverrideRecord} {answer : Except DnsFailure Unit}
    (h : dnsHandle env (.restore record) w = (.ok answer, t)) :
    answer = env.dnsRestore w.tick record ∧ t.recordFile = w.recordFile ∧
      t.tick = w.tick + 1 := by
  simp only [dnsHandle] at h
  have ha := outside_ok h
  split at ha
  · rename_i hok
    cases ha
    exact ⟨hok.symm, World.elapse_recordFile, rfl⟩
  · rename_i hfailed
    cases ha
    exact ⟨hfailed.symm, World.elapse_recordFile, rfl⟩

theorem removeRecord_answer {answer : Except RemoveFailure Unit} (hfault : env.fault w.tick = none)
    (h : dnsHandle env .removeRecord w = (.ok answer, t)) : t.recordFile = none := by
  simp only [dnsHandle] at h
  have ha := outside_ok h
  rw [hfault] at ha
  simp only at ha
  split at ha
  · cases ha
    rfl
  · rename_i hnone
    cases ha
    exact hnone

/-- An orphan that settles leaves no record that parses. -/
theorem reconcileOrphan_settled {r : Except Error Unit} (hsettles : OrphanSettles setup env w)
    (h : handle setup env .reconcileOrphan w = (.ok r, t)) :
    t.recordFile.bind setup.decodeRecord = none := by
  simp only [handle, reconcileOrphanRecord, exec_perform_bind] at h
  rcases hread : dnsHandle env .readRecord w with ⟨x | answer, u⟩
  · rw [hread] at h
    cases h
  rw [hread] at h
  obtain ⟨rfl, hbytes, hfound⟩ := readRecord_answer hread
  cases hparsed : w.recordFile.bind setup.decodeRecord with
  | none =>
    -- nothing to settle: the file stays as it is
    have ht : t = w.elapse env := by
      cases answer with
      | error e =>
        cases h
        rfl
      | ok bytes =>
        rw [hbytes bytes rfl, Option.bind_some] at hparsed
        simp only [hparsed] at h
        cases h
        rfl
    rw [ht, World.elapse_recordFile]
    exact hparsed
  | some record =>
    obtain ⟨hdns, hfault, hrestore, hremove⟩ := hsettles record hparsed
    obtain ⟨desired, hdesired⟩ := Option.isSome_iff_exists.1 hdns
    obtain ⟨bytes, hfile, hdecode⟩ := Option.bind_eq_some_iff.1 hparsed
    obtain rfl := hfound hfault bytes hfile
    simp only [hdecode, hdesired, exec_perform_bind] at h
    rcases hcall : dnsHandle env (.restore record) (w.elapse env) with ⟨x | restored, v⟩
    · rw [hcall] at h
      cases h
    rw [hcall] at h
    obtain ⟨hanswer, -, htick⟩ := restore_answer hcall
    have hok : restored = .ok () := hanswer.trans hrestore
    rw [hok] at h
    simp only [exec_perform_bind] at h
    rcases hgone : dnsHandle env .removeRecord v with ⟨x | removed, z⟩
    · rw [hgone] at h
      cases h
    rw [hgone] at h
    have hz : z.recordFile = none := removeRecord_answer (by rw [htick]; exact hremove) hgone
    cases h
    rw [hz]
    rfl

/-- A construction that settles what it finds begins with an empty memory and no
record that parses. -/
theorem build_agrees (htidy : Along (handle setup env) (Op.Tidy setup env) build w)
    (h : exec (handle setup env) build w = (.ok (.ok ()), t)) : t.ledger.Agrees setup := by
  have settled : (build : Control Doc Unit).wp (worldReading setup env (Op.Tidy setup env))
      (fun r t => r = .ok () → t.ledger.Agrees setup) w := by
    refine Prog.wp_demand_bind trivial (fun e a' _ h => by cases h) ?_
    intro found w₁ _
    refine Prog.wp_seq (Prog.wp_true fun _ _ => trivial) (fun e a' _ h => by cases h) ?_
    intro _ w₂ _
    refine Prog.wp_perform_bind trivial ?_
    intro r w₃ hstep
    have hnone := reconcileOrphan_settled hstep.1 hstep.2
    refine (Prog.wp_perform _).2 ⟨trivial, ?_⟩
    intro _ w₄ hboot _
    cases hboot.2
    exact hnone.symm
  exact (worldReading_sound setup env _).returns htidy settled h rfl

end Construction

/-! ## Every run -/

/-- The controller reads back what a first start recorded. -/
def readBackEnv : Env Nat := { plainEnv 7 with dnsApply := fun _ _ _ => .ok firstRecord }

theorem readBack_tidy {β : Type} (op : Op Nat β) (w : World Nat) :
    Op.Tidy overrideSetup readBackEnv op w := by
  have prims : ∀ {ε α : Type} (p : Prog ε (DnsPrim Nat) α) (w : World Nat),
      Along (dnsHandle readBackEnv) (DnsPrim.Tidy overrideSetup readBackEnv) p w := by
    intro ε α p w
    refine along_of_forall (h := dnsHandle readBackEnv) ?_ p
    intro β op w
    cases op <;> first | trivial | exact fun hfault => by cases hfault
  cases op <;> first | trivial | exact prims _ w | exact fun _ _ => ⟨rfl, rfl, rfl, rfl⟩

/-- The controller cannot undo an override. -/
def stuckEnv : Env Nat := { plainEnv 7 with dnsRestore := fun _ _ => .error .timedOut }

/-- A shutdown with nothing in memory does nothing. -/
theorem shutdown_idle {setup : Setup Doc} {env : Env Doc} {w : World Doc}
    (hrecord : w.ctrl.dnsRecord = none) (hcurrent : w.ctrl.current = none) :
    exec (handle setup env) (program setup .shutdown) w = (.ok (.ok .done), w.setCurrent none) := by
  have restored : handle setup env .dnsRestore w = (.ok (.ok ()), w) := by
    simp only [handle, dnsRestore, exec_perform_bind, dnsHandle, hrecord]
    rfl
  have taken : handle setup env .take w = (.ok none, w.setCurrent none) := by
    simp only [handle, hcurrent]
  simp only [program, shutdown, exec_bind, demand, perform, exec, restored, taken]
  rfl

end Chimera.Manager
