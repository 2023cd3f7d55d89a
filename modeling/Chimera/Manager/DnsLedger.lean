import Chimera.Manager.DnsRecord

/-! What the DNS functions can do, each said once: to the record in memory and on
disk, and to the history of publications and controller calls.

What may fail around them is a parameter. A proof that needs an operation to
succeed reads the functions where its failure is excluded; the others read them
where everything may fail. -/

namespace Chimera.Manager
open Chimera.Model Chimera.Lib.Program

variable {Doc : Type}

/-- The record twice: in `ctrl.dns_record`, and on the host's side. -/
structure Ledger where
  memory : Option DnsOverrideRecord
  host : HostSide

theorem Ledger.eq_mk {a : Ledger} {memory : Option DnsOverrideRecord} {host : HostSide}
    (hmem : a.memory = memory) (hhost : a.host = host) : a = ⟨memory, host⟩ := by
  rw [← hmem, ← hhost]

def World.ledger (w : World Doc) : Ledger := ⟨w.ctrl.dnsRecord, w.hostSide⟩

def Ledger.log (a : Ledger) (e : DnsEvent) : Ledger :=
  { a with host := { a.host with calls := e :: a.host.calls } }

@[simp] theorem Ledger.log_memory (a : Ledger) (e : DnsEvent) : (a.log e).memory = a.memory := rfl

@[simp] theorem Ledger.log_record (a : Ledger) (e : DnsEvent) :
    (a.log e).host.record = a.host.record := rfl

@[simp] theorem Ledger.log_calls (a : Ledger) (e : DnsEvent) :
    (a.log e).host.calls = e :: a.host.calls := rfl

@[simp] theorem World.ledger_elapse (env : Env Doc) (w : World Doc) :
    (w.elapse env).ledger = w.ledger := by
  simp [World.ledger]

/-! ## The reading -/

/-- What may fail: an operation on the record's files, one on a staging file that
is the record under its second name, the removal of a staging name, and a call to
the controller. -/
structure Faults where
  file : Prop
  torn : Prop
  removal : Ledger → Prop
  controller : Prop

def Faults.any : Faults := ⟨True, True, fun _ => True, True⟩

/-- What may fail once the staging file is created. -/
def Faults.staged (F : Faults) (staging : Option RecordStaging) : Prop :=
  F.file ∧ (staging = some .link → F.torn)

theorem Faults.any_staged (staging : Option RecordStaging) : Faults.any.staged staging :=
  ⟨trivial, fun _ => trivial⟩

/-- What an answer tells of the state it is given in. -/
def Ledger.told (F : Faults) : ∀ {β : Type}, DnsPrim Doc β → Ledger → β → Prop
  | _, .record, a, b => b = a.memory
  | _, .createStaging, _, b => b.isOk = false → F.file
  | _, .writeStaging _, a, b | _, .syncStaging, a, b => b.isOk = false → F.staged a.host.staging
  | _, .recordExists, a, b => match b with
    | .ok there => there = a.host.record.isSome
    | .error _ => F.staged a.host.staging
  | _, .renameStaging, a, b => b.isOk = false →
    (renameStaged a.host.record a.host.staging).isSome = true → F.staged a.host.staging
  | _, .linkStaging, a, b => b.isOk = false →
    (linkStaged a.host.record a.host.staging).isOk = true → F.file
  | _, .removeStaging, a, b => b.isOk = false → F.removal a
  | _, .removeRecord, a, b => match b with
    | .ok () => True
    | .error .notFound => a.host.record = none
    | .error (.failed _) => F.file
  | _, .applied _ _, _, b => b.isOk = false → F.controller
  | _, .restore _, _, b => b.isOk = false → F.controller
  | _, _, _, _ => True

def Ledger.memorized : ∀ {β : Type}, DnsPrim Doc β → Ledger → Ledger → Prop
  | _, .setRecord r, _, a' => a'.memory = r
  | _, _, a, a' => a'.memory = a.memory

def ledgerReading (F : Faults) : Reading (DnsPrim Doc) Ledger where
  step := fun op a b a' => HostSide.step op a.host b a'.host ∧ Ledger.memorized op a a' ∧
    Ledger.told F op a b
  pre := fun _ _ => True

/-- The surroundings make nothing fail but what may. -/
def DnsPrim.Within (env : Env Doc) (F : Faults) {β : Type} : DnsPrim Doc β → World Doc → Prop
  | .createStaging, w | .linkStaging, w | .removeRecord, w =>
    (env.fault w.tick).isSome = true → F.file
  | .writeStaging _, w | .syncStaging, w | .recordExists, w | .renameStaging, w =>
    (env.fault w.tick).isSome = true → F.staged w.recordStaging
  | .removeStaging, w => (env.fault w.tick).isSome = true → F.removal w.ledger
  | .applied intent epoch, w => (env.dnsApply w.tick intent epoch).isOk = false → F.controller
  | .restore entry, w => (env.dnsRestore w.tick entry).isOk = false → F.controller
  | _, _ => True

theorem ledgerReading_sound (env : Env Doc) (F : Faults) :
    (ledgerReading F).Sound (dnsHandle env) (fun op w => op.Within env F w) World.ledger := by
  refine ⟨?_⟩
  intro β op w t b hG h
  refine ⟨dnsHandle_hostSide h, ?_⟩
  have waited : (w.elapse env).ctrl.dnsRecord = w.ctrl.dnsRecord := by rw [World.elapse_ctrl]
  cases op <;> simp only [dnsHandle, DnsPrim.Within] at h hG
  case record => cases h; exact ⟨rfl, rfl⟩
  case setRecord r => cases h; exact ⟨rfl, trivial⟩
  case applying intent epoch => cases h; exact ⟨rfl, trivial⟩
  case running =>
    cases outside_ok h
    exact ⟨waited, trivial⟩
  case createStaging | syncStaging =>
    rcases faulty_ok h with ⟨hf, -, rfl⟩ | hact
    · exact ⟨waited, fun _ => hG hf⟩
    · cases hact
      exact ⟨waited, (by rintro ⟨⟩)⟩
  case removeStaging =>
    rcases faulty_ok h with ⟨hf, -, rfl⟩ | hact
    · exact ⟨waited, fun _ => hG hf⟩
    · cases hact
      exact ⟨waited, (by rintro ⟨⟩)⟩
  case syncDir =>
    rcases faulty_ok h with ⟨-, -, rfl⟩ | hact
    · exact ⟨waited, trivial⟩
    · cases hact
      exact ⟨waited, trivial⟩
  case renameStaging =>
    rcases faulty_ok h with ⟨hf, -, rfl⟩ | hact
    · exact ⟨waited, fun _ _ => hG hf⟩
    · split at hact
      · cases hact
        exact ⟨waited, (by rintro ⟨⟩)⟩
      · rename_i hnone
        cases hact
        refine ⟨waited, fun _ hrenamed => ?_⟩
        rw [World.elapse_recordFile, World.elapse_recordStaging] at hnone
        rw [show renameStaged w.ledger.host.record w.ledger.host.staging = none from hnone]
          at hrenamed
        cases hrenamed
  case linkStaging =>
    rcases faulty_ok h with ⟨hf, -, rfl⟩ | hact
    · exact ⟨waited, fun _ _ => hG hf⟩
    · split at hact
      · cases hact
        exact ⟨waited, (by rintro ⟨⟩)⟩
      · rename_i hrefused
        cases hact
        refine ⟨waited, fun _ hlinked => ?_⟩
        rw [World.elapse_recordFile, World.elapse_recordStaging] at hrefused
        rw [show linkStaged w.ledger.host.record w.ledger.host.staging = .error _ from hrefused]
          at hlinked
        cases hlinked
  case writeStaging bytes =>
    have ha := outside_ok h
    split at ha
    · rename_i hfault
      cases ha
      exact ⟨waited, fun _ => hG (by rw [hfault]; rfl)⟩
    · cases ha
      exact ⟨waited, (by rintro ⟨⟩)⟩
  case recordExists =>
    have ha := outside_ok h
    split at ha
    · rename_i hfault
      cases ha
      exact ⟨waited, hG (by rw [hfault]; rfl)⟩
    · cases ha
      exact ⟨waited, congrArg Option.isSome World.elapse_recordFile⟩
  case readRecord =>
    have ha := outside_ok h
    split at ha
    · cases ha
      exact ⟨waited, trivial⟩
    · split at ha <;> cases ha <;> exact ⟨waited, trivial⟩
  case removeRecord =>
    have ha := outside_ok h
    split at ha
    · rename_i hfault
      cases ha
      exact ⟨waited, hG (by rw [hfault]; rfl)⟩
    · split at ha
      · cases ha
        exact ⟨waited, trivial⟩
      · rename_i hnone
        cases ha
        exact ⟨waited, World.elapse_recordFile.symm.trans hnone⟩
  case applied intent epoch =>
    have ha := outside_ok h
    split at ha
    · cases ha
      exact ⟨waited, (by rintro ⟨⟩)⟩
    · rename_i hfailed
      cases ha
      exact ⟨waited, fun _ => hG (by rw [hfailed]; rfl)⟩
  case restore entry =>
    have ha := outside_ok h
    split at ha
    · cases ha
      exact ⟨waited, (by rintro ⟨⟩)⟩
    · rename_i hfailed
      cases ha
      exact ⟨waited, fun _ => hG (by rw [hfailed]; rfl)⟩

/-! ## The record -/

section Outcomes

variable (setup : Setup Doc) (F : Faults)

/-- How a record is written; `memory` is what is remembered of one that was. -/
inductive Written (memory : Option DnsOverrideRecord) (entry : DnsOverrideRecord) (a : Ledger) :
    Bool → Ledger → Prop
  | visible {bytes : List UInt8} {staging : Option RecordStaging}
      (encoded : setup.encodeRecord entry = .ok bytes) :
      Written memory entry a true
        ⟨memory, ⟨some bytes, staging, .published bytes :: a.host.calls⟩⟩
  | refused {staging : Option RecordStaging}
      (failed : (setup.encodeRecord entry).isOk = true → F.file) :
      Written memory entry a false ⟨a.memory, ⟨a.host.record, staging, a.host.calls⟩⟩
  /-- The staging name was the record's second, and what was written in it is not
  published. -/
  | torn {record : List UInt8} {staging : Option RecordStaging}
      (linked : a.host.staging = some .link) (failed : F.file ∧ F.torn) :
      Written memory entry a false ⟨a.memory, ⟨some record, staging, a.host.calls⟩⟩
  /-- The record was linked, and its staging name could not be removed. -/
  | linked {bytes : List UInt8} {staging : Option RecordStaging}
      (absent : a.host.record = none) (encoded : setup.encodeRecord entry = .ok bytes)
      (failed : F.removal ⟨a.memory, ⟨some bytes, some .link, .published bytes :: a.host.calls⟩⟩) :
      Written memory entry a false
        ⟨a.memory, ⟨some bytes, staging, .published bytes :: a.host.calls⟩⟩

inductive Cleared (a : Ledger) : Bool → Ledger → Prop
  | done {staging : Option RecordStaging} :
      Cleared a true ⟨none, ⟨none, staging, a.host.calls⟩⟩
  | failed (h : F.file) : Cleared a false a

/-- What is written of a read-back. -/
def readBack (baseline : Option (String × List String)) (record : DnsOverrideRecord) :
    DnsOverrideRecord :=
  { record with previous := baseline.elim record.previous Prod.snd }

/-- How an override is put in place over what `a` records. -/
inductive Overridden (intent : DnsIntent) (epoch : Epoch) (a : Ledger) : Bool → Ledger → Prop
  | unrecorded {pre : DnsOverrideRecord} {a' : Ledger}
      (hpre : pre = preRecord (baselineOf a.memory) intent epoch)
      (h : Written setup F (some pre) pre a false a') : Overridden intent epoch a false a'
  | refused {pre : DnsOverrideRecord} {a₁ : Ledger}
      (hpre : pre = preRecord (baselineOf a.memory) intent epoch)
      (h : Written setup F (some pre) pre a true a₁) (failed : F.controller) :
      Overridden intent epoch a false (a₁.log (.applying intent epoch))
  /-- Another interface was read back than the recorded one. -/
  | moved {pre record : DnsOverrideRecord} {a₁ : Ledger} {iface : String} {previous : List String}
      (hpre : pre = preRecord (baselineOf a.memory) intent epoch)
      (h : Written setup F (some pre) pre a true a₁)
      (recorded : baselineOf a.memory = some (iface, previous)) (other : record.iface ≠ iface) :
      Overridden intent epoch a false ((a₁.log (.applying intent epoch)).log (.applied record))
  | applied {pre record : DnsOverrideRecord} {a₁ a' : Ledger} {ok : Bool}
      (hpre : pre = preRecord (baselineOf a.memory) intent epoch)
      (h : Written setup F (some pre) pre a true a₁)
      (same : ∀ b, baselineOf a.memory = some b → record.iface = b.1)
      (h' : Written setup F (some (readBack (baselineOf a.memory) record))
        (readBack (baselineOf a.memory) record)
        ((a₁.log (.applying intent epoch)).log (.applied record)) ok a') :
      Overridden intent epoch a ok a'

def pending (record : DnsOverrideRecord) : DnsOverrideRecord :=
  { record with state := .restorePending }

/-- How the override that `a` records is undone. -/
inductive Restored (a : Ledger) : Bool → Ledger → Prop
  | nothing (h : a.memory = none) : Restored a true a
  | unregistered {record : DnsOverrideRecord} (h : a.memory = some record)
      (none : setup.dns = none) : Restored a false a
  | failed {record : DnsOverrideRecord} {a₁ : Ledger} {ok : Bool} (h : a.memory = some record)
      (registered : setup.dns.isSome = true)
      (marked : Written setup F (some (pending record)) (pending record) a ok a₁)
      (refused : F.controller) : Restored a false a₁
  | done {record : DnsOverrideRecord} {a₁ a' : Ledger} {ok ok' : Bool}
      (h : a.memory = some record) (registered : setup.dns.isSome = true)
      (marked : Written setup F (some (pending record)) (pending record) a ok a₁)
      (cleared : Cleared F (a₁.log (.restored record)) ok' a') : Restored a true a'

end Outcomes

section Specs

variable {setup : Setup Doc} {F : Faults} {a : Ledger}

theorem Written.staging {memory : Option DnsOverrideRecord} {entry : DnsOverrideRecord}
    {a' : Ledger} (h : Written setup F memory entry a false a')
    (staging : Option RecordStaging) :
    Written setup F memory entry a false ⟨a'.memory, { a'.host with staging }⟩ := by
  cases h with
  | refused failed => exact .refused failed
  | torn linked failed => exact .torn linked failed
  | linked absent encoded failed => exact .linked absent encoded failed

/-- A failure after the staging file was created leaves what is under its name. -/
theorem Faults.staged.written {memory : Option DnsOverrideRecord} {entry : DnsOverrideRecord}
    {bytes : List UInt8} (h : F.staged (a.host.write bytes).staging) (left : List UInt8) :
    Written setup F memory entry a false ⟨a.memory, a.host.write left⟩ := by
  obtain ⟨hlink, hwrite⟩ | hwrite := a.host.write_cases
  · rw [hwrite] at h ⊢
    exact .torn hlink ⟨h.1, h.2 hlink⟩
  · rw [hwrite]
    exact .refused fun _ => h.1

theorem publishRecord_outcome (entry : DnsOverrideRecord) :
    (publishRecord setup entry).wp (ledgerReading F) (fun r a' =>
      Written setup F a.memory entry a r.isOk a') a := by
  unfold publishRecord
  rw [Prog.wp_bind, Prog.wp_ret]
  cases hb : setup.encodeRecord entry with
  | error e => exact .refused (by rw [hb]; nofun)
  | ok bytes =>
  simp only [Prog.andThen_ok]
  refine Prog.wp_demand_bind trivial ?_ ?_
  · intro e a' h
    obtain ⟨hhost, hmem, htold⟩ := h
    obtain rfl := Ledger.eq_mk hmem hhost
    exact .refused fun _ => htold rfl
  intro _ a₁ h
  obtain ⟨hhost, hmem, -⟩ := h
  obtain rfl : a₁ = ⟨a.memory, a.host.write []⟩ := Ledger.eq_mk hmem hhost
  refine Prog.wp_demand_bind trivial ?_ ?_
  · intro e a' h
    obtain ⟨⟨torn, hhost⟩, hmem, htold⟩ := h
    obtain rfl := Ledger.eq_mk hmem (hhost.trans (a.host.write_write [] torn))
    exact (htold rfl).written torn
  intro _ a₂ h
  obtain ⟨⟨torn, hhost⟩, hmem, -⟩ := h
  obtain rfl : a₂ = ⟨a.memory, a.host.write bytes⟩ :=
    Ledger.eq_mk hmem (hhost.trans (a.host.write_write [] bytes))
  have hstaged : (a.host.write bytes).Staged bytes := a.host.write_staged bytes
  refine Prog.wp_demand_bind trivial ?_ ?_
  · intro e a' h
    obtain ⟨hhost, hmem, htold⟩ := h
    obtain rfl := Ledger.eq_mk hmem hhost
    exact (htold rfl).written bytes
  intro _ a₃ h
  obtain ⟨hhost, hmem, -⟩ := h
  obtain rfl := Ledger.eq_mk hmem hhost
  refine Prog.wp_demand_bind trivial ?_ ?_
  · intro e a' h
    obtain ⟨hhost, hmem, htold⟩ := h
    obtain rfl := Ledger.eq_mk hmem hhost
    exact Faults.staged.written htold bytes
  intro there a₄ h
  obtain ⟨hhost, hmem, hthere⟩ := h
  obtain rfl := Ledger.eq_mk hmem hhost
  split
  · refine (Prog.wp_demand _).2 ⟨trivial, ?_⟩
    intro r a' h
    obtain ⟨hhost, hmem, htold⟩ := h
    cases r with
    | error e =>
      obtain rfl := Ledger.eq_mk hmem hhost
      exact (htold rfl hstaged.renames).written bytes
    | ok _ =>
      obtain ⟨_, staging, hrenamed, hhost⟩ := hhost
      obtain rfl := hstaged.renamed hrenamed
      obtain rfl := Ledger.eq_mk hmem hhost
      exact .visible hb
  · rename_i habsent
    have absent : (a.host.write bytes).record = none := by
      cases hrecord : (a.host.write bytes).record with
      | none => rfl
      | some b =>
        refine absurd (hthere.trans ?_) habsent
        exact congrArg Option.isSome hrecord
    obtain ⟨habsent, hwrite⟩ := HostSide.write_absent absent
    refine Prog.wp_demand_bind trivial ?_ ?_
    · intro e a' h
      obtain ⟨hhost, hmem, htold⟩ := h
      obtain rfl := Ledger.eq_mk hmem (hhost.trans hwrite)
      exact .refused fun _ => htold rfl (by simp [hwrite, habsent, linkStaged, Except.isOk,
        Except.toBool])
    intro _ a₅ h
    obtain ⟨⟨_, hlinked, hhost⟩, hmem, -⟩ := h
    obtain ⟨-, rfl⟩ := hstaged.linked hlinked
    obtain rfl := Ledger.eq_mk hmem hhost
    refine (Prog.wp_demand _).2 ⟨trivial, ?_⟩
    intro r a' h
    obtain ⟨hhost, hmem, htold⟩ := h
    obtain rfl := Ledger.eq_mk hmem hhost
    cases r with
    | error e => exact .linked habsent hb (htold rfl)
    | ok _ => exact .visible hb

theorem persistDnsRecord_outcome (entry : DnsOverrideRecord) :
    (persistDnsRecord setup (some entry)).wp (ledgerReading F) (fun r a' =>
      Written setup F (some entry) entry a r.isOk a') a := by
  have hfile : (persistFile setup (some entry)).wp (ledgerReading F) (fun r a' =>
      Written setup F a.memory entry a r.isOk a') a := by
    refine Prog.wp_attempt_seq (publishRecord_outcome entry) ?_
    intro r a₁ hw
    cases r with
    | error e =>
      refine Prog.wp_perform_bind trivial ?_
      intro r a' h
      obtain ⟨hhost, hmem, -⟩ := h
      cases r with
      | error e' =>
        obtain rfl := Ledger.eq_mk hmem hhost
        exact hw
      | ok _ =>
        obtain rfl := Ledger.eq_mk hmem hhost
        exact hw.staging none
    | ok _ =>
      refine Prog.wp_perform_bind trivial ?_
      intro r a' h
      obtain ⟨hhost, hmem, -⟩ := h
      obtain rfl := Ledger.eq_mk hmem hhost
      exact hw
  refine Prog.wp_seq hfile ?_ ?_
  · intro e a' h
    cases h with
    | refused failed => exact .refused failed
    | torn linked failed => exact .torn linked failed
    | linked absent encoded failed => exact .linked absent encoded failed
  · intro _ a₁ hw
    refine (Prog.wp_perform _).2 ⟨trivial, ?_⟩
    intro r a' h
    obtain ⟨hhost, hmem, -⟩ := h
    obtain rfl := Ledger.eq_mk hmem hhost
    cases hw with
    | visible encoded => exact .visible encoded

theorem clearRecord_outcome :
    (persistDnsRecord setup none).wp (ledgerReading F) (fun r a' =>
      Cleared F a r.isOk a') a := by
  have hfile : (persistFile setup none).wp (ledgerReading F) (fun r a' =>
      a'.memory = a.memory ∧
        (r.isOk = true → ∃ staging, a'.host = ⟨none, staging, a.host.calls⟩) ∧
        (r.isOk = false → F.file ∧ a'.host = a.host)) a := by
    refine Prog.wp_perform_bind trivial ?_
    intro r a₁ h
    obtain ⟨hhost, hmem, htold⟩ := h
    cases r with
    | error failure =>
      obtain rfl := Ledger.eq_mk hmem hhost
      cases failure with
      | notFound =>
        have absent : a.host.record = none := htold
        exact ⟨rfl, fun _ => ⟨a.host.staging, by rw [← absent]⟩, nofun⟩
      | failed text => exact ⟨rfl, nofun, fun _ => ⟨htold, rfl⟩⟩
    | ok _ =>
      obtain ⟨bytes, -, hhost⟩ := hhost
      obtain rfl := Ledger.eq_mk hmem hhost
      refine Prog.wp_perform_bind trivial ?_
      intro r a' h
      obtain ⟨hhost, hmem, -⟩ := h
      obtain rfl := Ledger.eq_mk hmem hhost
      exact ⟨rfl, fun _ => ⟨_, rfl⟩, nofun⟩
  refine Prog.wp_seq hfile ?_ ?_
  · intro e a' h
    obtain ⟨hmem, -, herror⟩ := h
    obtain ⟨failed, hhost⟩ := herror rfl
    obtain rfl := Ledger.eq_mk hmem hhost
    exact .failed failed
  · intro _ a₁ h
    obtain ⟨-, hok, -⟩ := h
    refine (Prog.wp_perform _).2 ⟨trivial, ?_⟩
    intro r a' h
    obtain ⟨hhost, hmem, -⟩ := h
    obtain ⟨staging, hcleared⟩ := hok rfl
    obtain rfl := Ledger.eq_mk hmem (hhost.trans hcleared)
    exact .done

theorem persistOr_outcome (entry : DnsOverrideRecord) (report : String → Error) :
    ((persistDnsRecord setup (some entry)).mapError report).wp (ledgerReading F) (fun r a' =>
      Written setup F (some entry) entry a r.isOk a') a := by
  refine (Prog.wp_mapError ..).2 (Prog.wp_mono (persistDnsRecord_outcome entry) ?_)
  intro r a' h
  cases r with
  | ok _ => exact h
  | error e => exact h

/-! ## The functions -/

theorem applyOverride_outcome (texts : ApplyTexts) (intent : DnsIntent) (epoch : Epoch) :
    (applyOverride setup texts intent epoch).wp (ledgerReading F) (fun r a' =>
      Overridden setup F intent epoch a r.isOk a') a := by
  refine Prog.wp_perform_bind trivial ?_
  intro record a₀ h
  obtain ⟨hhost, hmem, htold⟩ := h
  obtain rfl := Ledger.eq_mk hmem hhost
  obtain rfl : record = a.memory := htold
  refine Prog.wp_seq (persistOr_outcome (a := a) _ _) ?_ ?_
  · intro e a' h
    exact .unrecorded rfl h
  intro _ a₁ hw
  refine Prog.wp_perform_bind trivial ?_
  intro _ a₂ h
  obtain ⟨hhost, hmem, -⟩ := h
  obtain rfl : a₂ = a₁.log (.applying intent epoch) := Ledger.eq_mk hmem hhost
  refine Prog.wp_perform_bind trivial ?_
  intro r a₃ h
  obtain ⟨hhost, hmem, htold⟩ := h
  cases r with
  | error failure =>
    obtain rfl : a₃ = a₁.log (.applying intent epoch) := Ledger.eq_mk hmem hhost
    cases failure with
    | failed text => exact .refused rfl hw (htold rfl)
    | timedOut => exact .refused rfl hw (htold rfl)
  | ok answer =>
    obtain rfl : a₃ = (a₁.log (.applying intent epoch)).log (.applied answer) :=
      Ledger.eq_mk hmem hhost
    simp only
    split
    · rename_i iface previous hbase
      split
      · rename_i hother
        exact .moved rfl hw hbase hother
      · rename_i hsame
        refine Prog.wp_mono (persistOr_outcome _ _) ?_
        intro r a' h
        have same : ∀ b, baselineOf a.memory = some b → answer.iface = b.1 := by
          intro b hb
          rw [hbase] at hb
          cases hb
          exact not_not.1 hsame
        refine .applied rfl hw same ?_
        rw [hbase]
        exact h
    · rename_i hbase
      refine Prog.wp_mono (persistOr_outcome _ _) ?_
      intro r a' h
      have same : ∀ b, baselineOf a.memory = some b → answer.iface = b.1 := by
        intro b hb
        rw [hbase] at hb
        cases hb
      refine .applied rfl hw same ?_
      rw [hbase]
      exact h

theorem dnsRestore_outcome :
    (dnsRestore setup).wp (ledgerReading F) (fun r a' => Restored setup F a r.isOk a') a := by
  refine Prog.wp_perform_bind trivial ?_
  intro record a₀ h
  obtain ⟨hhost, hmem, htold⟩ := h
  obtain rfl := Ledger.eq_mk hmem hhost
  cases record with
  | none => exact .nothing htold.symm
  | some record =>
    have hrecord : a.memory = some record := htold.symm
    simp only
    split
    · rename_i hnone
      exact .unregistered hrecord (Option.isNone_iff_eq_none.1 hnone)
    rename_i hsome
    have registered : setup.dns.isSome = true := by
      rw [Option.isSome_iff_ne_none]
      intro hnone
      rw [hnone] at hsome
      exact hsome rfl
    refine Prog.wp_attempt_seq (persistDnsRecord_outcome (a := a) (pending record)) ?_
    intro r a₁ hmarked
    refine Prog.wp_perform_bind trivial ?_
    intro r a₂ h
    obtain ⟨hhost, hmem, htold⟩ := h
    cases r with
    | error failure =>
      obtain rfl : a₂ = a₁ := Ledger.eq_mk hmem hhost
      cases failure with
      | failed text => exact .failed hrecord registered hmarked (htold rfl)
      | timedOut => exact .failed hrecord registered hmarked (htold rfl)
    | ok _ =>
      obtain rfl : a₂ = a₁.log (.restored record) := Ledger.eq_mk hmem hhost
      refine Prog.wp_attempt_seq clearRecord_outcome ?_
      intro r a' hcleared
      exact .done hrecord registered hmarked hcleared

/-- Settling an orphan leaves the memory alone, and may undo an override. -/
theorem reconcileOrphanRecord_outcome :
    (reconcileOrphanRecord setup).wp (ledgerReading F) (fun _ a' => a'.memory = a.memory ∧
      (a'.host.calls = a.host.calls ∨
        ∃ record, a'.host.calls = .restored record :: a.host.calls)) a := by
  refine Prog.wp_perform_bind trivial ?_
  intro r a₀ h
  obtain ⟨⟨hhost, -⟩, hmem, -⟩ := h
  obtain rfl := Ledger.eq_mk hmem hhost
  cases r with
  | error e => exact ⟨rfl, .inl rfl⟩
  | ok bytes =>
    simp only
    split
    · refine Prog.wp_perform_bind trivial ?_
      intro r a₁ h
      obtain ⟨hhost, hmem, -⟩ := h
      obtain rfl := Ledger.eq_mk hmem hhost
      cases r with
      | error failure => exact ⟨rfl, .inl rfl⟩
      | ok _ =>
        refine Prog.wp_perform_bind trivial ?_
        intro r a₂ h
        obtain ⟨hhost, hmem, -⟩ := h
        cases r with
        | error failure =>
          obtain rfl := Ledger.eq_mk hmem hhost
          exact ⟨rfl, .inr ⟨_, rfl⟩⟩
        | ok _ =>
          obtain ⟨_, -, hhost⟩ := hhost
          obtain rfl := Ledger.eq_mk hmem hhost
          exact ⟨rfl, .inr ⟨_, rfl⟩⟩
    · exact ⟨rfl, .inl rfl⟩

end Specs

/-! ## Their runs -/

section Runs

variable {setup : Setup Doc} {env : Env Doc} {F : Faults} {w t : World Doc}
  {r : Except Error Unit}

/-- The override that a plan wants. -/
def wantedBy (setup : Setup Doc) (plan : EpochPlan Doc) : Option DnsIntent :=
  setup.dns.bind fun desired => desired plan.effectiveDocument

/-- What the converge tail aims for, over the runtime that it sees. -/
def wanted (setup : Setup Doc) (live : Option (EpochPlan Doc × Epoch)) :
    Option (DnsIntent × Epoch) :=
  live.bind fun x => (wantedBy setup x.1).map (·, x.2)

/-- How the host comes to what is wanted. -/
def Reached (setup : Setup Doc) (F : Faults) (a : Ledger) (ok : Bool) (a' : Ledger) :
    Option (DnsIntent × Epoch) → Prop
  | some (intent, epoch) => Overridden setup F intent epoch a ok a'
  | none => Restored setup F a ok a'

theorem within_any {p : Prog Error (DnsPrim Doc) Unit} :
    Along (dnsHandle env) (fun op w => op.Within env .any w) p w := by
  refine along_of_forall (h := dnsHandle env) ?_ p
  intro β op w
  cases op <;> first | trivial | exact fun _ => trivial | exact fun _ => Faults.any_staged _

theorem exec_outcome {p : Prog Error (DnsPrim Doc) Unit} {Q : Except Error Unit → Ledger → Prop}
    (hG : Along (dnsHandle env) (fun op w => op.Within env F w) p w)
    (hp : p.wp (ledgerReading F) Q w.ledger) (h : exec (dnsHandle env) p w = (.ok r, t)) :
    Q r t.ledger :=
  (ledgerReading_sound env F).returns hG hp h

theorem dnsRestore_run
    (hG : Along (dnsHandle env) (fun op w => op.Within env F w) (dnsRestore setup) w)
    (h : exec (dnsHandle env) (dnsRestore setup) w = (.ok r, t)) :
    Restored setup F w.ledger r.isOk t.ledger :=
  exec_outcome hG dnsRestore_outcome h

theorem dnsActivate_run {plan : EpochPlan Doc}
    (hG : Along (dnsHandle env) (fun op w => op.Within env F w) (dnsActivateForPlan setup plan) w)
    (h : exec (dnsHandle env) (dnsActivateForPlan setup plan) w = (.ok r, t)) :
    (wantedBy setup plan = none ∧ t.ledger = w.ledger) ∨
      ∃ intent, wantedBy setup plan = some intent ∧
        Overridden setup F intent plan.revision.epoch w.ledger r.isOk t.ledger := by
  unfold dnsActivateForPlan at h hG
  unfold wantedBy
  cases hdns : setup.dns with
  | none =>
    refine .inl ⟨rfl, ?_⟩
    rw [hdns] at h
    simp only at h
    split at h
    · cases h
      rfl
    · cases h
      rfl
  | some desired =>
    rw [hdns] at h hG
    simp only [Option.bind_some] at h hG ⊢
    cases hplan : desired plan.effectiveDocument with
    | none =>
      rw [hplan] at h
      cases h
      exact .inl ⟨rfl, rfl⟩
    | some intent =>
      rw [hplan] at h hG
      exact .inr ⟨intent, rfl, exec_outcome hG (applyOverride_outcome ..) h⟩

theorem dnsDeactivate_run {plan : EpochPlan Doc}
    (hG : Along (dnsHandle env) (fun op w => op.Within env F w)
      (dnsDeactivateForPlan setup plan) w)
    (h : exec (dnsHandle env) (dnsDeactivateForPlan setup plan) w = (.ok r, t)) :
    ((wantedBy setup plan).isSome = true ∧ r.isOk = true ∧ t.ledger = w.ledger) ∨
      (wantedBy setup plan = none ∧ Restored setup F w.ledger r.isOk t.ledger) := by
  have hspec : (dnsDeactivateForPlan setup plan).wp (ledgerReading F) (fun r a' =>
      ((wantedBy setup plan).isSome = true ∧ r.isOk = true ∧ a' = w.ledger) ∨
        (wantedBy setup plan = none ∧ Restored setup F w.ledger r.isOk a')) w.ledger := by
    refine Prog.wp_perform_bind trivial ?_
    intro record a₀ h
    obtain ⟨hhost, hmem, htold⟩ := h
    obtain rfl := Ledger.eq_mk hmem hhost
    cases hwanted : wantedBy setup plan with
    | some intent =>
      refine Prog.wp_mono (Q := fun r a' => r.isOk = true ∧ a' = w.ledger) ?_
        fun r a' h => .inl ⟨rfl, h⟩
      cases record with
      | none => exact ⟨rfl, rfl⟩
      | some record =>
        simp only
        rw [if_pos (show (setup.dns.bind _).isSome = true by rw [wantedBy] at hwanted; rw [hwanted]; rfl)]
        exact ⟨rfl, rfl⟩
    | none =>
      refine Prog.wp_mono (Q := fun r a' => Restored setup F w.ledger r.isOk a') ?_
        fun r a' h => .inr ⟨rfl, h⟩
      cases record with
      | none => exact .nothing htold.symm
      | some record =>
        simp only
        rw [if_neg (show ¬(setup.dns.bind _).isSome = true by rw [wantedBy] at hwanted; rw [hwanted]; nofun)]
        exact dnsRestore_outcome
  exact exec_outcome hG hspec h

theorem dnsConverge_run
    (hG : Along (dnsHandle env) (fun op w => op.Within env F w) (dnsConverge setup) w)
    (h : exec (dnsHandle env) (dnsConverge setup) w = (.ok r, t)) :
    Reached setup F w.ledger r.isOk t.ledger (wanted setup (w.elapse env).running) := by
  unfold dnsConverge at h hG
  cases hdns : setup.dns with
  | none =>
    rw [hdns] at h hG
    have hnone : wanted setup (w.elapse env).running = none := by
      simp [wanted, wantedBy, hdns]
    rw [hnone]
    exact dnsRestore_run hG h
  | some desired =>
    rw [hdns] at h hG
    simp only at h hG
    rw [exec_perform_bind] at h
    rw [along_perform_bind] at hG
    obtain ⟨-, hG⟩ := hG
    rcases hrun : dnsHandle env .running w with ⟨x | live, u⟩
    · rw [hrun] at h
      cases h
    rw [hrun] at h hG
    simp only [dnsHandle] at hrun
    cases outside_ok hrun
    have hgoal : wanted setup (w.elapse env).running = (w.elapse env).running.bind fun x =>
        (desired x.1.effectiveDocument).map (·, x.2) := by
      simp [wanted, wantedBy, hdns]
    rw [hgoal]
    rw [← World.ledger_elapse env w]
    cases hlive : (w.elapse env).running.bind fun x : EpochPlan Doc × Epoch =>
        (desired x.1.effectiveDocument).map (·, x.2) with
    | none =>
      simp only [hlive] at h hG
      exact dnsRestore_run hG h
    | some goal =>
      simp only [hlive] at h hG
      exact exec_outcome hG (applyOverride_outcome ..) h

end Runs

/-! ## The other operations -/

/-- The operations that leave the record and the controller alone. -/
def Op.dnsFree {β : Type} : Op Doc β → Bool
  | .dnsActivate _ | .dnsDeactivate _ | .dnsConverge | .dnsRestore | .reconcileOrphan
  | .boot _ => false
  | _ => true

theorem handle_ledger (setup : Setup Doc) (env : Env Doc) {β : Type} {op : Op Doc β}
    (w : World Doc) (hop : op.dnsFree = true) : (handle setup env op w).2.ledger = w.ledger := by
  have store {ε α : Type} (p : Prog ε StorePrim α) (w : World Doc) :
      (exec (storeHandle env) p w).2.ledger = w.ledger :=
    exec_same (h := storeHandle env) (fun op w => storeHandle_same (f := World.ledger)
      (World.ledger_elapse env) (fun _ _ => rfl) (fun _ _ => rfl) op w) p
  have out {β : Type} {call : Nat → World Doc → β × World Doc}
      (hcall : (call w.tick (w.elapse env)).2.ledger = (w.elapse env).ledger) :
      (outside env call w).2.ledger = w.ledger :=
    outside_same (World.ledger_elapse env w) hcall
  cases op with
  | stage _ _ | dropStaged _ | commitNew _ _ | commitReplace _ _ | backup _ _ | restore _
  | removeBackup _ | cleanupArtifacts _ | artifactEpochs | pidExists _ => exact store _ w
  | cleanupEpoch site epoch =>
    refine afterwards_keeps (I := fun t => t.ledger = w.ledger) (out rfl)
      fun u hu => afterwards_keeps (I := fun t => t.ledger = w.ledger) ?_ fun _ hv => hv
    exact (store _ u).trans hu
  | nextEpoch =>
    simp only [handle]
    split
    · rfl
    · rfl
  | launch site plan =>
    refine out ?_
    split
    · rfl
    · rfl
  | reap epoch =>
    refine out ?_
    split
    · rfl
    · rfl
  | publish _ _ | publishSnapshot _ _ _ _ | instanceStatus _ | abortForwarder _ | pid _
  | waitReady _ | stop _ _ | reconciled | checkConfig _ | load _ | validateLaunchable _
  | resolveFeatures _ | cleanupController _ | reapOrphan _ => exact out rfl
  | panic _ | current | lastSpec | quarantine | take | install _ _ _ | adopt _ | retainSource _
  | retainSpec _ | record _ _ | proveDeath _ | release _ | commitConfig _ => rfl
  | dnsActivate _ | dnsDeactivate _ | dnsConverge | dnsRestore | reconcileOrphan
  | boot _ => cases hop

/-! ## Construction -/

section Construction

variable {setup : Setup Doc} {env : Env Doc} {w t : World Doc}

/-- What a construction may perform: it turns to the host DNS only to settle what
it finds. -/
def Op.ofBuild {β : Type} (op : Op Doc β) : Prop := op.dnsFree = true ∨ op.constructs = true

theorem sweepAll_ofBuild (numbers : List Nat) :
    (sweepAll numbers : Control Doc Unit).Only Op.ofBuild := by
  have files (number : Nat) : (sweepOrphan.sweepFiles number : Control Doc Unit).Only Op.ofBuild := by
    unfold sweepOrphan.sweepFiles
    split
    · exact (Prog.Only.demand (.inl rfl)).bind fun _ => .demand (.inl rfl)
    · exact .demand (.inl rfl)
  induction numbers with
  | nil => trivial
  | cons number rest ih =>
    refine Prog.Only.bind ((Prog.Only.demand (.inl rfl)).bind fun there => ?_) fun _ => ih
    split
    · refine (Prog.Only.perform (.inl rfl)).bind fun r => ?_
      cases r with
      | ok outcome => exact files number
      | error e => trivial
    · exact files number

theorem build_ofBuild : (build : Control Doc Unit).Only Op.ofBuild := by
  refine (Prog.Only.demand (.inl rfl)).bind fun found => (sweepAll_ofBuild found).bind fun _ => ?_
  exact (Prog.Only.perform (.inr rfl)).bind fun _ => .perform (.inr rfl)

/-- A new manager remembers nothing, and its history begins. -/
theorem build_ledger (h : exec (handle setup env) build w = (.ok (.ok ()), t)) :
    t.ctrl.dnsRecord = none ∧ ∃ calls, t.dnsTrace = .built :: calls := by
  have boots : (build : Control Doc Unit).wp (worldReading setup env fun _ _ => True)
      (fun r t => r = .ok () → t.ctrl.dnsRecord = none ∧ ∃ calls, t.dnsTrace = .built :: calls)
      w := by
    refine Prog.wp_demand_bind trivial (fun e a' _ h => by cases h) ?_
    intro found w₁ _
    refine Prog.wp_seq (Prog.wp_true fun _ _ => trivial) (fun e a' _ h => by cases h) ?_
    intro _ w₂ _
    refine Prog.wp_perform_bind trivial ?_
    intro r w₃ _
    refine (Prog.wp_perform _).2 ⟨trivial, ?_⟩
    intro _ w₄ hboot _
    cases hboot.2
    exact ⟨rfl, _, rfl⟩
  exact (worldReading_sound setup env _).returns
    (along_of_forall (h := handle setup env) (fun _ _ => trivial) _) boots h rfl

end Construction

end Chimera.Manager
