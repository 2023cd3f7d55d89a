import Chimera.Manager.Frame

/-! The record comes before the effect: while an override may be in place,
`dns-override.json` is there and can be read back.

The DNS functions are read on the host's side alone: the record, its staging
file and the calls made to the controller. A crash can fall between any two
primitives, so the invariant is asked for at each of them.

A process that dies between `hard_link` and `remove_file` leaves the staging name
as a second name of the record. To create the next staging file then truncates
the record itself; the invariant is lost where an override may be in place. -/

namespace Chimera.Manager
open Chimera.Model Chimera.Lib.Program Chimera.Lib.Transition

variable {Doc : Type}

/-- A `dns.apply` was started and no `dns.restore` has returned `Ok` since. -/
def owed : List DnsEvent → Bool
  | [] => false
  | .applying _ _ :: _ => true
  | .restored _ :: _ => false
  | .applied _ :: rest | .published _ :: rest | .built :: rest => owed rest

/-- The record file exists and parses. -/
def Readable (setup : Setup Doc) (file : Option (List UInt8)) : Prop :=
  ∃ bytes record, file = some bytes ∧ setup.decodeRecord bytes = some record

/-- What the DNS primitives act on, besides `ctrl.dns_record`. -/
structure HostSide where
  record : Option (List UInt8)
  staging : Option RecordStaging
  calls : List DnsEvent

def World.hostSide (w : World Doc) : HostSide := ⟨w.recordFile, w.recordStaging, w.dnsTrace⟩

def HostSide.Safe (setup : Setup Doc) (a : HostSide) : Prop :=
  owed a.calls = true → Readable setup a.record

/-- The staging name is no second name of a record that an override may need. -/
def HostSide.Apart (a : HostSide) : Prop := a.staging = some .link → owed a.calls = false

def HostSide.write (a : HostSide) (bytes : List UInt8) : HostSide :=
  let (record, staging) := writeStaged bytes a.record a.staging
  { a with record, staging }

/-- The staging name names a file of these bytes. -/
def HostSide.Staged (a : HostSide) (bytes : List UInt8) : Prop :=
  a.staging = some (.own bytes) ∨ a.staging = some .link ∧ a.record = some bytes

/-! ## The reading -/

def HostSide.step : ∀ {β : Type}, DnsPrim Doc β → HostSide → β → HostSide → Prop
  | _, .createStaging, a, r, a' => a' = if r.isOk then a.write [] else a
  | _, .writeStaging bytes, a, r, a' => ∃ torn, a' = a.write (if r.isOk then bytes else torn)
  | _, .removeStaging, a, r, a' => a' = if r.isOk then { a with staging := none } else a
  | _, .renameStaging, a, r, a' => match r with
    | .ok () => ∃ bytes staging, renameStaged a.record a.staging = some (bytes, staging) ∧
        a' = ⟨some bytes, staging, .published bytes :: a.calls⟩
    | .error _ => a' = a
  | _, .linkStaging, a, r, a' => match r with
    | .ok () => ∃ bytes, linkStaged a.record a.staging = .ok bytes ∧
        a' = ⟨some bytes, some .link, .published bytes :: a.calls⟩
    | .error _ => a' = a
  | _, .readRecord, a, r, a' => a' = a ∧ ∀ bytes, r = .ok bytes → a.record = some bytes
  | _, .removeRecord, a, r, a' => match r with
    | .ok () => ∃ bytes, a.record = some bytes ∧
        a' = { a with record := none, staging := a.staging.map (.alone bytes) }
    | .error _ => a' = a
  | _, .applying intent epoch, a, _, a' =>
    a' = { a with calls := .applying intent epoch :: a.calls }
  | _, .applied _ _, a, r, a' => match r with
    | .ok record => a' = { a with calls := .applied record :: a.calls }
    | .error _ => a' = a
  | _, .restore record, a, r, a' =>
    a' = if r.isOk then { a with calls := .restored record :: a.calls } else a
  | _, .record, a, _, a' | _, .setRecord _, a, _, a' | _, .running, a, _, a'
  | _, .syncStaging, a, _, a' | _, .recordExists, a, _, a' | _, .syncDir, a, _, a' => a' = a

/-- The steps where no staging file is created over a record that an override may need. -/
def HostSide.apartStep : ∀ {β : Type}, DnsPrim Doc β → HostSide → β → HostSide → Prop
  | _, .createStaging, a, r, a' =>
    (r.isOk = true → a.Apart) ∧ HostSide.step (.createStaging : DnsPrim Doc _) a r a'
  | _, op, a, r, a' => HostSide.step op a r a'

def hostReading (setup : Setup Doc) : Reading (DnsPrim Doc) HostSide where
  step := HostSide.apartStep
  pre := fun _ a => a.Safe setup

@[simp] theorem World.hostSide_elapse (env : Env Doc) (w : World Doc) :
    (w.elapse env).hostSide = w.hostSide := by
  simp [World.hostSide]

@[simp] theorem World.hostSide_writeStaged (w : World Doc) (bytes : List UInt8) :
    (w.writeStaged bytes).hostSide = w.hostSide.write bytes := rfl

/-- A file operation fails with no effect, or acts. -/
theorem faulty_ok {env : Env Doc} {act : World Doc → Except String Unit × World Doc}
    {w t : World Doc} {r : Except String Unit} (h : faulty env act w = (.ok r, t)) :
    ((env.fault w.tick).isSome = true ∧ r.isOk = false ∧ t = w.elapse env) ∨
      act (w.elapse env) = (r, t) := by
  have ha := outside_ok h
  split at ha
  · rename_i hfault
    cases ha
    exact .inl ⟨by rw [hfault]; rfl, rfl, rfl⟩
  · exact .inr ha

theorem faulty_done {env : Env Doc} {act : World Doc → Except String Unit × World Doc}
    {w t : World Doc} {r : Except String Unit} (h : faulty env act w = (.ok r, t))
    (hr : r.isOk = true) : env.crash w.tick = false ∧ env.fault w.tick = none := by
  simp only [faulty, outside] at h
  split at h
  · cases h
  · rename_i hcrash
    refine ⟨eq_false_of_ne_true hcrash, ?_⟩
    cases hfault : env.fault w.tick with
    | none => rfl
    | some text =>
      rw [hfault] at h
      cases h
      cases hr

theorem dnsHandle_hostSide {env : Env Doc} {β : Type} {op : DnsPrim Doc β} {w t : World Doc}
    {b : β} (h : dnsHandle env op w = (.ok b, t)) :
    HostSide.step op w.hostSide b t.hostSide := by
  cases op <;> simp only [dnsHandle] at h
  case record | setRecord r => cases h; rfl
  case applying intent epoch => cases h; rfl
  case running =>
    cases outside_ok h
    exact World.hostSide_elapse env w
  case createStaging | syncStaging | syncDir =>
    rcases faulty_ok h with ⟨-, hr, rfl⟩ | hact
    · simp [HostSide.step, hr]
    · cases hact
      simp [HostSide.step, Except.isOk, Except.toBool]
  case removeStaging =>
    rcases faulty_ok h with ⟨-, hr, rfl⟩ | hact
    · simp [HostSide.step, hr]
    · cases hact
      simp [HostSide.step, World.hostSide, Except.isOk, Except.toBool]
  case renameStaging =>
    rcases faulty_ok h with ⟨-, hr, rfl⟩ | hact
    · cases b with
      | ok _ => cases hr
      | error e => exact World.hostSide_elapse env w
    · split at hact
      · rename_i bytes staging hrenamed
        cases hact
        rw [World.elapse_recordFile, World.elapse_recordStaging] at hrenamed
        exact ⟨bytes, staging, hrenamed, by simp [World.hostSide]⟩
      · cases hact
        exact World.hostSide_elapse env w
  case linkStaging =>
    rcases faulty_ok h with ⟨-, hr, rfl⟩ | hact
    · cases b with
      | ok _ => cases hr
      | error e => exact World.hostSide_elapse env w
    · split at hact
      · rename_i bytes hlinked
        cases hact
        rw [World.elapse_recordFile, World.elapse_recordStaging] at hlinked
        exact ⟨bytes, hlinked, by simp [World.hostSide]⟩
      · cases hact
        exact World.hostSide_elapse env w
  case writeStaging bytes =>
    have ha := outside_ok h
    split at ha <;> cases ha
    · exact ⟨env.torn w.tick, by simp [Except.isOk, Except.toBool]⟩
    · exact ⟨[], by simp [Except.isOk, Except.toBool]⟩
  case recordExists =>
    have ha := outside_ok h
    split at ha <;> cases ha <;> exact World.hostSide_elapse env w
  case readRecord =>
    have ha := outside_ok h
    split at ha
    · cases ha
      exact ⟨World.hostSide_elapse env w, (by rintro _ ⟨⟩)⟩
    · split at ha <;> cases ha
      · rename_i hf
        refine ⟨World.hostSide_elapse env w, ?_⟩
        intro bytes hb
        cases hb
        simpa [World.hostSide] using hf
      · exact ⟨World.hostSide_elapse env w, (by rintro _ ⟨⟩)⟩
  case removeRecord =>
    have ha := outside_ok h
    split at ha
    · cases ha
      exact World.hostSide_elapse env w
    · split at ha <;> cases ha
      · rename_i bytes hrecord
        rw [World.elapse_recordFile] at hrecord
        exact ⟨bytes, hrecord, by simp [World.hostSide]⟩
      · exact World.hostSide_elapse env w
  case applied intent epoch =>
    have ha := outside_ok h
    split at ha <;> cases ha <;> simp [HostSide.step, World.hostSide]
  case restore record =>
    have ha := outside_ok h
    split at ha <;> cases ha <;>
      simp [HostSide.step, World.hostSide, Except.isOk, Except.toBool]

/-- No staging file is created over a second name of a record that an override may need. -/
def DnsPrim.Apart (env : Env Doc) {β : Type} : DnsPrim Doc β → World Doc → Prop
  | .createStaging, w =>
    env.crash w.tick = false → env.fault w.tick = none → w.hostSide.Apart
  | _, _ => True

instance (env : Env Doc) {β : Type} :
    ∀ (op : DnsPrim Doc β) (w : World Doc), Decidable (op.Apart env w)
  | .createStaging, w => inferInstanceAs (Decidable (env.crash w.tick = false →
      env.fault w.tick = none → w.recordStaging = some .link → owed w.dnsTrace = false))
  | .record, _ | .setRecord _, _ | .running, _ | .writeStaging _, _ | .syncStaging, _
  | .removeStaging, _ | .recordExists, _ | .renameStaging, _ | .linkStaging, _ | .readRecord, _
  | .removeRecord, _ | .syncDir, _ | .applying _ _, _ | .applied _ _, _ | .restore _, _ =>
    .isTrue trivial

theorem hostReading_sound (setup : Setup Doc) (env : Env Doc) :
    (hostReading setup).Sound (dnsHandle env) (DnsPrim.Apart env) World.hostSide := by
  refine ⟨?_⟩
  intro β op w t b hapart h
  have hstep := dnsHandle_hostSide h
  cases op
  case createStaging =>
    refine ⟨fun hok => ?_, hstep⟩
    obtain ⟨hcrash, hfault⟩ := faulty_done h hok
    exact hapart hcrash hfault
  all_goals exact hstep

/-! ## The record -/

/-- No override was begun or undone, and a readable record that one may need stayed
readable. -/
structure HostSide.Calm (setup : Setup Doc) (a a' : HostSide) : Prop where
  calls : owed a'.calls = owed a.calls
  readable : owed a.calls = true → Readable setup a.record → Readable setup a'.record

theorem HostSide.Calm.refl {setup : Setup Doc} (a : HostSide) : HostSide.Calm setup a a :=
  ⟨rfl, fun _ => id⟩

theorem HostSide.Calm.trans {setup : Setup Doc} {a b c : HostSide}
    (h : HostSide.Calm setup a b) (h' : HostSide.Calm setup b c) : HostSide.Calm setup a c :=
  ⟨h'.calls.trans h.calls,
    fun ho hr => h'.readable (h.calls.trans ho) (h.readable ho hr)⟩

/-- Only the staging name differs. -/
theorem HostSide.Calm.staging {setup : Setup Doc} (a : HostSide)
    (staging : Option RecordStaging) : HostSide.Calm setup a { a with staging } :=
  ⟨rfl, fun _ => id⟩

theorem HostSide.Calm.published {setup : Setup Doc} {a : HostSide} {bytes : List UInt8}
    {staging : Option RecordStaging} (h : Readable setup (some bytes)) :
    HostSide.Calm setup a ⟨some bytes, staging, .published bytes :: a.calls⟩ :=
  ⟨rfl, fun _ _ => h⟩

theorem HostSide.Calm.safe {setup : Setup Doc} {a a' : HostSide} (h : HostSide.Calm setup a a')
    (ha : a.Safe setup) : a'.Safe setup := by
  intro ho
  rw [h.calls] at ho
  exact h.readable ho (ha ho)

/-! ### What is written under the staging name -/

/-- Writes reach the record where the staging name is its second one, and there they leave the
staging name alone. -/
theorem HostSide.write_cases (a : HostSide) :
    (a.staging = some .link ∧ ∀ bytes, a.write bytes = { a with record := some bytes }) ∨
      ∀ bytes, a.write bytes = { a with staging := some (.own bytes) } := by
  obtain ⟨record, staging, calls⟩ := a
  obtain _ | record := record <;> obtain _ | _ | _ := staging <;>
    simp [HostSide.write, writeStaged]

theorem HostSide.write_absent {a : HostSide} {bytes : List UInt8}
    (h : (a.write bytes).record = none) :
    a.record = none ∧ a.write bytes = { a with staging := some (.own bytes) } := by
  obtain ⟨-, hwrite⟩ | hwrite := a.write_cases
  · rw [hwrite] at h
    cases h
  · refine ⟨?_, hwrite bytes⟩
    rw [hwrite] at h
    exact h

theorem HostSide.write_write (a : HostSide) (bytes bytes' : List UInt8) :
    (a.write bytes).write bytes' = a.write bytes' := by
  obtain ⟨record, staging, calls⟩ := a
  obtain _ | record := record <;> obtain _ | _ | _ := staging <;> rfl

theorem HostSide.write_staged (a : HostSide) (bytes : List UInt8) :
    (a.write bytes).Staged bytes := by
  obtain ⟨hlink, h⟩ | h := a.write_cases <;> rw [h]
  · exact .inr ⟨hlink, rfl⟩
  · exact .inl rfl

theorem HostSide.Apart.calm {setup : Setup Doc} {a : HostSide} (ha : a.Apart)
    (bytes : List UInt8) : HostSide.Calm setup a (a.write bytes) := by
  obtain ⟨hlink, h⟩ | h := a.write_cases <;> rw [h]
  · refine ⟨rfl, fun ho => ?_⟩
    rw [ha hlink] at ho
    cases ho
  · exact .staging a _

theorem HostSide.Staged.renamed {a : HostSide} {bytes bytes' : List UInt8}
    {staging : Option RecordStaging} (h : a.Staged bytes)
    (hr : renameStaged a.record a.staging = some (bytes', staging)) : bytes' = bytes := by
  obtain h | ⟨h, hrecord⟩ := h
  · simp only [h, renameStaged, Option.some.injEq, Prod.mk.injEq] at hr
    exact hr.1.symm
  · simp only [h, hrecord, renameStaged, Option.some.injEq, Prod.mk.injEq] at hr
    exact hr.1.symm

theorem HostSide.Staged.renames {a : HostSide} {bytes : List UInt8} (h : a.Staged bytes) :
    (renameStaged a.record a.staging).isSome = true := by
  obtain h | ⟨h, hrecord⟩ := h
  · rw [h]
    cases a.record <;> rfl
  · rw [h, hrecord]
    rfl

theorem HostSide.Staged.linked {a : HostSide} {bytes bytes' : List UInt8} (h : a.Staged bytes)
    (hl : linkStaged a.record a.staging = .ok bytes') : a.record = none ∧ bytes' = bytes := by
  obtain h | ⟨h, hrecord⟩ := h
  · cases hrecord : a.record with
    | none =>
      simp only [h, hrecord, linkStaged, Except.ok.injEq] at hl
      exact ⟨rfl, hl.symm⟩
    | some _ =>
      simp only [h, hrecord, linkStaged] at hl
      cases hl
  · simp only [h, hrecord, linkStaged] at hl
    cases hl

section Codec

variable {setup : Setup Doc} {a : HostSide}
  (codec : ∀ r bytes, setup.encodeRecord r = .ok bytes → setup.decodeRecord bytes = some r)
include codec

theorem publishRecord_spec (entry : DnsOverrideRecord) (ha : a.Safe setup) :
    (publishRecord setup entry).wp (hostReading setup) (fun r a' =>
      HostSide.Calm setup a a' ∧ (r.isOk = true → Readable setup a'.record)) a := by
  refine Prog.wp_seq (Q := fun r a' => a' = a ∧ setup.encodeRecord entry = r)
    ((Prog.wp_ret _).2 ⟨rfl, rfl⟩) ?_ ?_
  · rintro e _ ⟨rfl, -⟩
    exact ⟨.refl _, nofun⟩
  rintro bytes a ⟨rfl, hb⟩
  have hread : Readable setup (some bytes) := ⟨bytes, entry, rfl, codec entry bytes hb⟩
  refine Prog.wp_demand_bind ha ?_ ?_
  · rintro e _ ⟨-, rfl⟩
    exact ⟨.refl _, nofun⟩
  -- From here on a staging name that is the record's second is one that no override needs.
  rintro _ _ ⟨hapart, rfl⟩
  have hapart := hapart rfl
  have hcalm : HostSide.Calm setup a _ := hapart.calm []
  refine Prog.wp_demand_bind (hcalm.safe ha) ?_ ?_
  · rintro e a₁ ⟨torn, hwritten⟩
    obtain rfl := hwritten.trans (a.write_write [] torn)
    exact ⟨hapart.calm torn, nofun⟩
  rintro _ a₁ ⟨torn, hwritten⟩
  obtain rfl := hwritten.trans (a.write_write [] bytes)
  have hcalm : HostSide.Calm setup a _ := hapart.calm bytes
  have hstaged := a.write_staged bytes
  refine Prog.wp_demand_bind (hcalm.safe ha) ?_ ?_
  · rintro e _ rfl
    exact ⟨hcalm, nofun⟩
  rintro _ _ rfl
  refine Prog.wp_demand_bind (hcalm.safe ha) ?_ ?_
  · rintro e _ rfl
    exact ⟨hcalm, nofun⟩
  rintro there _ rfl
  split
  · refine (Prog.wp_demand _).2 ⟨hcalm.safe ha, ?_⟩
    rintro (e | _) _ hstep
    · cases hstep
      exact ⟨hcalm, nofun⟩
    · obtain ⟨_, staging, hrenamed, rfl⟩ := hstep
      obtain rfl := hstaged.renamed hrenamed
      exact ⟨hcalm.trans (.published hread), fun _ => hread⟩
  · refine Prog.wp_demand_bind (hcalm.safe ha) ?_ ?_
    · rintro e _ rfl
      exact ⟨hcalm, nofun⟩
    rintro _ a₂ ⟨_, hlinked, hpublished⟩
    obtain ⟨-, rfl⟩ := hstaged.linked hlinked
    have hcalm : HostSide.Calm setup a a₂ := hpublished ▸ hcalm.trans (.published hread)
    have hread : Readable setup a₂.record := hpublished ▸ hread
    refine (Prog.wp_demand _).2 ⟨hcalm.safe ha, ?_⟩
    rintro (e | _) _ rfl
    · exact ⟨hcalm, nofun⟩
    · exact ⟨hcalm.trans (.staging _ _), fun _ => hread⟩

/-- A record is replaced by one that is readable too. -/
theorem persistDnsRecord_spec (entry : DnsOverrideRecord) (ha : a.Safe setup) :
    (persistDnsRecord setup (some entry)).wp (hostReading setup) (fun r a' =>
      HostSide.Calm setup a a' ∧ (r.isOk = true → Readable setup a'.record)) a := by
  have hfile : (persistFile setup (some entry)).wp (hostReading setup) (fun r a' =>
      HostSide.Calm setup a a' ∧ (r.isOk = true → Readable setup a'.record)) a := by
    refine Prog.wp_attempt_seq (publishRecord_spec codec entry ha) ?_
    rintro (e | _) a₁ ⟨hcalm, hread⟩
    · refine Prog.wp_perform_bind (hcalm.safe ha) ?_
      rintro (e' | _) _ rfl
      · exact ⟨hcalm, nofun⟩
      · exact ⟨hcalm.trans (.staging _ _), nofun⟩
    · refine Prog.wp_perform_bind (hcalm.safe ha) ?_
      rintro _ _ rfl
      exact ⟨hcalm, hread⟩
  refine Prog.wp_seq hfile (fun e a' h => h) ?_
  rintro _ a' ⟨hcalm, hread⟩
  refine (Prog.wp_perform _).2 ⟨hcalm.safe ha, ?_⟩
  rintro _ _ rfl
  exact ⟨hcalm, hread⟩

/-- The same, with the error as the caller reports it. -/
theorem persistOr_spec (entry : DnsOverrideRecord) (report : String → Error)
    (ha : a.Safe setup) :
    ((persistDnsRecord setup (some entry)).mapError report).wp (hostReading setup) (fun r a' =>
      HostSide.Calm setup a a' ∧ (r.isOk = true → Readable setup a'.record)) a := by
  refine (Prog.wp_mapError ..).2 (Prog.wp_mono (persistDnsRecord_spec codec entry ha) ?_)
  rintro (e | x) a' ⟨hcalm, hread⟩
  · exact ⟨hcalm, nofun⟩
  · exact ⟨hcalm, fun _ => hread rfl⟩

omit codec in
/-- The record is removed only where nothing is owed. -/
theorem clearRecord_spec (ha : owed a.calls = false) :
    (persistDnsRecord setup none).wp (hostReading setup)
      (fun _ a' => a'.calls = a.calls) a := by
  have safe : ∀ a' : HostSide, a'.calls = a.calls → a'.Safe setup := by
    intro a' h ho
    rw [h, ha] at ho
    cases ho
  have hfile : (persistFile setup none).wp (hostReading setup)
      (fun _ a' => a'.calls = a.calls) a := by
    refine Prog.wp_perform_bind (safe a rfl) ?_
    rintro (e | _) _ hstep
    · cases hstep
      cases e with
      | notFound => rfl
      | failed text => rfl
    · obtain ⟨bytes, -, rfl⟩ := hstep
      refine Prog.wp_perform_bind (safe _ rfl) ?_
      rintro _ _ rfl
      rfl
  refine Prog.wp_seq hfile (fun e a' h => h) ?_
  rintro _ a' h
  refine (Prog.wp_perform _).2 ⟨safe a' h, ?_⟩
  rintro _ _ rfl
  exact h

/-! ## The functions -/

theorem applyOverride_spec (texts : ApplyTexts) (intent : DnsIntent) (epoch : Epoch)
    (ha : a.Safe setup) :
    (applyOverride setup texts intent epoch).wp (hostReading setup)
      (fun _ a' => a'.Safe setup) a := by
  refine Prog.wp_perform_bind ha ?_
  rintro record _ rfl
  refine Prog.wp_seq (persistOr_spec codec _ _ ha) ?_ ?_
  · rintro e a' ⟨hcalm, -⟩
    exact hcalm.safe ha
  rintro _ a₁ ⟨hcalm, hread⟩
  -- the record is readable from here on, so the call may start
  have hsafe : ∀ calls, HostSide.Safe setup { a₁ with calls } := fun _ _ => hread rfl
  refine Prog.wp_perform_bind (hcalm.safe ha) ?_
  rintro _ _ rfl
  refine Prog.wp_perform_bind (hsafe _) ?_
  rintro (failure | answer) a₂ h₂
  · cases h₂
    cases failure with
    | failed text => exact hsafe _
    | timedOut => exact hsafe _
  · cases h₂
    have hpersist : ∀ entry calls, ((persistDnsRecord setup (some entry)).mapError fun error =>
        Error.applyFailed (texts.readBack ++ error)).wp (hostReading setup)
        (fun _ a' => a'.Safe setup) { a₁ with calls } := by
      intro entry calls
      refine Prog.wp_mono (persistOr_spec codec entry _ (hsafe _)) ?_
      rintro r a' ⟨hcalm', -⟩
      exact hcalm'.safe (hsafe _)
    simp only
    split
    · split
      · exact hsafe _
      · exact hpersist _ _
    · exact hpersist _ _

theorem dnsRestore_spec (ha : a.Safe setup) :
    (dnsRestore setup).wp (hostReading setup) (fun _ a' => a'.Safe setup) a := by
  refine Prog.wp_perform_bind ha ?_
  rintro record _ rfl
  cases record with
  | none => exact ha
  | some record =>
    simp only
    split
    · exact ha
    refine Prog.wp_attempt_seq (persistDnsRecord_spec codec _ ha) ?_
    rintro r a₁ ⟨hcalm, -⟩
    refine Prog.wp_perform_bind (hcalm.safe ha) ?_
    rintro (failure | _) _ rfl
    · cases failure with
      | failed text => exact hcalm.safe ha
      | timedOut => exact hcalm.safe ha
    · refine Prog.wp_attempt_seq (clearRecord_spec rfl) ?_
      rintro r a₂ h₂ ho
      rw [h₂] at ho
      cases ho

theorem dnsActivateForPlan_spec (plan : EpochPlan Doc) (ha : a.Safe setup) :
    (dnsActivateForPlan setup plan).wp (hostReading setup) (fun _ a' => a'.Safe setup) a := by
  unfold dnsActivateForPlan
  split
  · split
    · exact ha
    · exact ha
  · split
    · exact ha
    · exact applyOverride_spec codec _ _ _ ha

theorem dnsDeactivateForPlan_spec (plan : EpochPlan Doc) (ha : a.Safe setup) :
    (dnsDeactivateForPlan setup plan).wp (hostReading setup) (fun _ a' => a'.Safe setup) a := by
  refine Prog.wp_perform_bind ha ?_
  rintro record _ rfl
  cases record with
  | none => exact ha
  | some record =>
    simp only
    split
    · exact ha
    · exact dnsRestore_spec codec ha

theorem dnsConverge_spec (ha : a.Safe setup) :
    (dnsConverge setup).wp (hostReading setup) (fun _ a' => a'.Safe setup) a := by
  unfold dnsConverge
  split
  · exact dnsRestore_spec codec ha
  · refine Prog.wp_perform_bind ha ?_
    rintro live _ rfl
    split
    · exact dnsRestore_spec codec ha
    · exact applyOverride_spec codec _ _ _ ha

omit codec in
theorem reconcileOrphanRecord_spec (ha : a.Safe setup) :
    (reconcileOrphanRecord setup).wp (hostReading setup) (fun _ a' => a'.Safe setup) a := by
  refine Prog.wp_perform_bind ha ?_
  rintro (e | bytes) _ ⟨rfl, -⟩
  · exact ha
  · simp only
    split
    · refine Prog.wp_perform_bind ha ?_
      rintro (failure | _) _ rfl
      · exact ha
      · refine Prog.wp_perform_bind nofun ?_
        rintro (e | _) _ hstep ho
        · cases hstep
          cases ho
        · obtain ⟨bytes, -, rfl⟩ := hstep
          cases ho
    · exact ha

end Codec

/-! ## Every run -/

/-- The operations on the host DNS, as programs. -/
def Op.dns (setup : Setup Doc) {β : Type} : Op Doc β → Option (Prog Error (DnsPrim Doc) Unit)
  | .dnsActivate plan => some (dnsActivateForPlan setup plan)
  | .dnsDeactivate plan => some (dnsDeactivateForPlan setup plan)
  | .dnsConverge => some (Manager.dnsConverge setup)
  | .dnsRestore => some (Manager.dnsRestore setup)
  | .reconcileOrphan => some (reconcileOrphanRecord setup)
  | _ => none

def Op.Apart (setup : Setup Doc) (env : Env Doc) {β : Type} (op : Op Doc β) (w : World Doc) :
    Prop :=
  ∀ p ∈ op.dns setup, Along (dnsHandle env) (DnsPrim.Apart env) p w

instance (setup : Setup Doc) (env : Env Doc) {β : Type} (op : Op Doc β) (w : World Doc) :
    Decidable (Op.Apart setup env op w) :=
  inferInstanceAs (Decidable (∀ p ∈ op.dns setup, _))

/-- While an override may be in place, the step creates no staging file over a second name of
its record. -/
def ApartStep (setup : Setup Doc) (env : Env Doc) (s : System Doc) : Label → Prop
  | .build => Along (handle setup env) (Op.Apart setup env) build s.world
  | .call command => Along (handle setup env) (Op.Apart setup env) (program setup command) s.world
  | .idle => True

instance (setup : Setup Doc) (env : Env Doc) (s : System Doc) :
    ∀ label, Decidable (ApartStep setup env s label)
  | .build => inferInstanceAs (Decidable (Along _ _ _ _))
  | .call _ => inferInstanceAs (Decidable (Along _ _ _ _))
  | .idle => .isTrue trivial

section Runs

variable {setup : Setup Doc} {env : Env Doc} {w : World Doc}

/-- A DNS function that keeps the host safe does so wherever its run ends. -/
theorem exec_dns_safe {p : Prog Error (DnsPrim Doc) Unit}
    (hapart : Along (dnsHandle env) (DnsPrim.Apart env) p w)
    (hp : p.wp (hostReading setup) (fun _ a' => a'.Safe setup) w.hostSide) :
    (exec (dnsHandle env) p w).2.hostSide.Safe setup := by
  rcases hr : exec (dnsHandle env) p w with ⟨x | r, t⟩
  · obtain ⟨β, op, u, hpre, hop⟩ := (hostReading_sound setup env).aborts hapart hp hr
    obtain ⟨-, rfl⟩ := dnsHandle_error hop
    exact hpre
  · exact (hostReading_sound setup env).returns hapart hp hr

theorem exec_store_hostSide {ε α : Type} (p : Prog ε StorePrim α) :
    (exec (storeHandle env) p w).2.hostSide = w.hostSide :=
  exec_same (h := storeHandle env) (fun op w => storeHandle_same (f := World.hostSide)
    (World.hostSide_elapse env) (fun _ _ => rfl) (fun _ _ => rfl) op w) p

theorem outside_hostSide {β : Type} {call : Nat → World Doc → β × World Doc}
    (hcall : (call w.tick (w.elapse env)).2.hostSide = (w.elapse env).hostSide) :
    (outside env call w).2.hostSide = w.hostSide :=
  outside_same (World.hostSide_elapse env w) hcall

theorem handle_safe
    (codec : ∀ r bytes, setup.encodeRecord r = .ok bytes → setup.decodeRecord bytes = some r)
    {β : Type} (op : Op Doc β) (w : World Doc) (hop : Op.Apart setup env op w)
    (hw : w.hostSide.Safe setup) : (handle setup env op w).2.hostSide.Safe setup := by
  have same : (handle setup env op w).2.hostSide = w.hostSide →
      (handle setup env op w).2.hostSide.Safe setup := by
    intro h
    rw [h]
    exact hw
  cases op with
  | dnsActivate plan => exact exec_dns_safe (hop _ rfl) (dnsActivateForPlan_spec codec plan hw)
  | dnsDeactivate plan => exact exec_dns_safe (hop _ rfl) (dnsDeactivateForPlan_spec codec plan hw)
  | dnsConverge => exact exec_dns_safe (hop _ rfl) (dnsConverge_spec codec hw)
  | dnsRestore => exact exec_dns_safe (hop _ rfl) (dnsRestore_spec codec hw)
  | reconcileOrphan => exact exec_dns_safe (hop _ rfl) (reconcileOrphanRecord_spec hw)
  | stage _ _ | dropStaged _ | commitNew _ _ | commitReplace _ _ | backup _ _ | restore _
  | removeBackup _ | cleanupArtifacts _ | artifactEpochs | pidExists _ =>
    exact same (exec_store_hostSide _)
  | cleanupEpoch site epoch =>
    refine same (afterwards_keeps (I := fun t => t.hostSide = w.hostSide) (outside_hostSide rfl)
      fun u hu => afterwards_keeps (I := fun t => t.hostSide = w.hostSide) ?_ fun _ hv => hv)
    exact (exec_store_hostSide _).trans hu
  | nextEpoch =>
    refine same ?_
    simp only [handle]
    split
    · rfl
    · rfl
  | launch site plan =>
    refine same (outside_hostSide ?_)
    split
    · rfl
    · rfl
  | reap epoch =>
    refine same (outside_hostSide ?_)
    split
    · rfl
    · rfl
  | publish _ _ | publishSnapshot _ _ _ _ | instanceStatus _ | abortForwarder _ | pid _
  | waitReady _ | stop _ _ | reconciled | checkConfig _ | load _ | validateLaunchable _
  | resolveFeatures _ | cleanupController _ | reapOrphan _ => exact same (outside_hostSide rfl)
  | boot numbers => exact hw
  | panic _ | current | lastSpec | quarantine | take | install _ _ _ | adopt _ | retainSource _
  | retainSpec _ | record _ _ | proveDeath _ | release _ | commitConfig _ => exact same rfl

end Runs

/-- Whatever the operations, the answers of the controller and of the file
system, and wherever one process after another crashes: a host whose override
may be in place has a record that says so, provided that no staging file is
created meanwhile over a second name of that record. -/
theorem dns_record_before_effect (setup : Setup Doc) (env : Env Doc) (artifacts : Directory)
    (recordFile : Option (List UInt8)) (recordStaging : Option RecordStaging)
    (codec : ∀ r bytes, setup.encodeRecord r = .ok bytes → setup.decodeRecord bytes = some r)
    {s : System Doc}
    (hs : (manager setup env artifacts recordFile recordStaging).ReachableBy
      (ApartStep setup env) s)
    (started : owed s.world.dnsTrace = true) :
    ∃ bytes record, s.world.recordFile = some bytes ∧ setup.decodeRecord bytes = some record := by
  refine hs.invariant (I := fun s => s.world.hostSide.Safe setup) nofun ?_ started
  intro s label t hI hapart hstep
  have run {α : Type} {p : Control Doc α}
      (hp : Along (handle setup env) (Op.Apart setup env) p s.world) :
      (exec (handle setup env) p s.world).2.hostSide.Safe setup :=
    hp.invariant (I := fun w => w.hostSide.Safe setup) (handle_safe codec) hI
  rcases System.step_cases hstep with
    ⟨rfl, -, r, hr, -⟩ | ⟨command, rfl, -, r, hr, -⟩ | ⟨rfl, rfl⟩
  · have h := run hapart
    rw [hr] at h
    exact h
  · have h := run hapart
    rw [hr] at h
    exact h
  · rw [World.hostSide_elapse]
    exact hI

/-- The record that a first start writes. -/
def firstRecord : DnsOverrideRecord := ⟨"", [], ["127.0.0.1"], 1, none, .applied⟩

def overrideSetup : Setup Nat :=
  { plainSetup with
    dns := some fun _ => some ⟨["127.0.0.1"]⟩
    encodeRecord := fun r => if r = firstRecord then .ok (recordText r) else .error "not written"
    decodeRecord := fun bytes => if bytes = recordText firstRecord then some firstRecord else none }

theorem overrideSetup_codec (r : DnsOverrideRecord) (bytes : List UInt8)
    (h : overrideSetup.encodeRecord r = .ok bytes) : overrideSetup.decodeRecord bytes = some r := by
  simp only [overrideSetup] at h ⊢
  split at h
  · rename_i hr
    rw [← Except.ok.inj h, hr, if_pos rfl]
  · cases h

/-- The process dies while the controller is applying the override, and the next one cannot
undo it. -/
def crashInApply : Env Nat :=
  { plainEnv 7 with
    crash := fun tick => tick = 23
    dnsRestore := fun _ _ => .error .timedOut }

/-- A first start is cut off inside `dns.apply`, and a second manager built. -/
theorem crashed_start_recorded :
    ∃ s, (manager overrideSetup crashInApply [] none none).ReachableBy
        (ApartStep overrideSetup crashInApply) s ∧ s.up = true ∧
      owed s.world.dnsTrace = true ∧ ∃ bytes record, s.world.recordFile = some bytes ∧
        overrideSetup.decodeRecord bytes = some record := by
  have owes : (((manager overrideSetup crashInApply [] none none).guarded fun s label =>
      decide (ApartStep overrideSetup crashInApply s label)).run
      (manager overrideSetup crashInApply [] none none).init
      [.build, .call (.start plainSpec), .idle, .build]).any
        (fun s => s.up && owed s.world.dnsTrace) = true := by decide +kernel
  obtain ⟨s, hs, ho⟩ := (Option.any_eq_true _ _).1 owes
  obtain ⟨hup, ho⟩ := (Bool.and_eq_true _ _).mp ho
  have hreach := Machine.guarded_run_reachableBy (fun _ _ _ h => of_decide_eq_true h) .init hs
  exact ⟨s, hreach, hup, ho, dns_record_before_effect _ _ _ _ _ overrideSetup_codec hreach ho⟩

/-- The record that the start of a second process writes. -/
def secondRecord : DnsOverrideRecord := { firstRecord with runtimeEpoch := 2 }

/-- A host on which just these records can be written. -/
def recordsSetup (records : List DnsOverrideRecord) : Setup Nat :=
  { hostSetup with
    encodeRecord := fun r => if r ∈ records then .ok (recordText r) else .error "not written"
    decodeRecord := fun bytes => records.find? fun r => recordText r = bytes }

theorem find_text {α β : Type} [DecidableEq β] {text : α → β} {l : List α} {a : α} (ha : a ∈ l)
    (distinct : ∀ x ∈ l, ∀ y ∈ l, text x = text y → x = y) :
    l.find? (fun x => text x = text a) = some a := by
  cases hfound : l.find? fun x => text x = text a with
  | none => simpa using List.find?_eq_none.1 hfound a ha
  | some x =>
    have htext : text x = text a := by simpa using List.find?_some hfound
    rw [distinct x (List.mem_of_find?_eq_some hfound) a ha htext]

theorem recordsSetup_codec (records : List DnsOverrideRecord)
    (distinct : ∀ r ∈ records, ∀ r' ∈ records, recordText r = recordText r' → r = r')
    (r : DnsOverrideRecord) (bytes : List UInt8)
    (h : (recordsSetup records).encodeRecord r = .ok bytes) :
    (recordsSetup records).decodeRecord bytes = some r := by
  simp only [recordsSetup] at h ⊢
  by_cases hr : r ∈ records
  · rw [if_pos hr] at h
    rw [← Except.ok.inj h]
    exact find_text hr distinct
  · rw [if_neg hr] at h
    cases h

theorem pair_distinct {a b : DnsOverrideRecord} (hne : recordText a ≠ recordText b) :
    ∀ r ∈ [a, b], ∀ r' ∈ [a, b], recordText r = recordText r' → r = r' := by
  intro r hr r' hr' htext
  rcases List.mem_pair.1 hr with rfl | rfl
  · rcases List.mem_pair.1 hr' with rfl | rfl
    · rfl
    · exact absurd htext hne
  · rcases List.mem_pair.1 hr' with rfl | rfl
    · exact absurd htext hne.symm
    · rfl

/-- The first process dies between `hard_link` and `remove_file`, the second over the staging
file that it has just created to record what was read back. -/
def crashOverLink : Env Nat :=
  { plainEnv 7 with
    crash := fun tick => tick = 21 || tick = 55
    dnsApply := fun _ _ _ => .ok secondRecord
    dnsRestore := fun _ _ => .error .timedOut }

def restarted : Machine (System Nat) Label :=
  manager (recordsSetup [firstRecord, secondRecord]) crashOverLink [] none none

/-- The second process truncates the record, whose second name the staging name is, while the
override is in place. -/
theorem linked_record_truncated :
    (∀ r bytes, (recordsSetup [firstRecord, secondRecord]).encodeRecord r = .ok bytes →
      (recordsSetup [firstRecord, secondRecord]).decodeRecord bytes = some r) ∧
    ∃ s, restarted.Reachable s ∧ owed s.world.dnsTrace = true ∧
      ¬ ∃ bytes record, s.world.recordFile = some bytes ∧
        (recordsSetup [firstRecord, secondRecord]).decodeRecord bytes = some record := by
  have torn : (restarted.run restarted.init
      [.build, .call (.start plainSpec), .idle, .build, .call (.start plainSpec)]).any
        (fun s => owed s.world.dnsTrace && decide (s.world.recordFile.bind
          (recordsSetup [firstRecord, secondRecord]).decodeRecord = none)) = true := by
    decide +kernel
  obtain ⟨s, hs, ho⟩ := (Option.any_eq_true _ _).1 torn
  obtain ⟨ho, hnone⟩ := (Bool.and_eq_true _ _).mp ho
  refine ⟨recordsSetup_codec _ (pair_distinct (by decide +kernel)), s,
    Machine.run_reachable .init hs, ho, ?_⟩
  rintro ⟨bytes, record, hfile, hrecord⟩
  have hnone := of_decide_eq_true hnone
  rw [hfile, Option.bind_some, hrecord] at hnone
  cases hnone

end Chimera.Manager
