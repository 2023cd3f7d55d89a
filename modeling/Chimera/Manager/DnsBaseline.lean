import Chimera.Manager.DnsLedger
import Chimera.Manager.Runs

/-! What an override is undone to does not change while it is in place: once a
record names an interface, every later one names it too, with the same resolvers
to restore, until a restoration succeeds.

The history of publications says what was recorded so far; the invariant is that
the record in memory still carries it. -/

namespace Chimera.Manager
open Chimera.Model Chimera.Lib.Program Chimera.Lib.Transition

variable {Doc : Type}

/-- The interface and resolvers that the records published since the last
restoration name, in this manager's history. -/
def baseline (setup : Setup Doc) : List DnsEvent → Option (String × List String)
  | [] => none
  | .built :: _ | .restored _ :: _ => none
  | .published bytes :: rest =>
    match baseline setup rest with
    | some b => some b
    | none => baselineOf (setup.decodeRecord bytes)
  | .applying _ _ :: rest | .applied _ :: rest => baseline setup rest

/-- Every record names the baseline of the ones before it. -/
def Stable (setup : Setup Doc) : List DnsEvent → Prop
  | [] => True
  | .published bytes :: rest =>
    (∀ b, baseline setup rest = some b → ∃ r, setup.decodeRecord bytes = some r ∧
      (r.iface, r.previous) = b) ∧ Stable setup rest
  | _ :: rest => Stable setup rest

theorem baselineOf_some {record : DnsOverrideRecord} (h : record.iface ≠ "") :
    baselineOf (some record) = some (record.iface, record.previous) := by
  simp [baselineOf, h]

theorem baselineOf_none {record : DnsOverrideRecord} (h : record.iface = "") :
    baselineOf (some record) = none := by
  simp [baselineOf, h]

theorem baselineOf_eq_some {memory : Option DnsOverrideRecord} {b : String × List String}
    (h : baselineOf memory = some b) :
    ∃ r, memory = some r ∧ (r.iface, r.previous) = b ∧ r.iface ≠ "" := by
  cases memory with
  | none => cases h
  | some r =>
    by_cases hr : r.iface = ""
    · rw [baselineOf_none hr] at h
      cases h
    · rw [baselineOf_some hr] at h
      exact ⟨r, rfl, Option.some.inj h, hr⟩

theorem baselineOf_congr {r r' : DnsOverrideRecord} (hi : r'.iface = r.iface)
    (hp : r'.previous = r.previous) : baselineOf (some r') = baselineOf (some r) := by
  by_cases h : r.iface = ""
  · rw [baselineOf_none h, baselineOf_none (hi.trans h)]
  · rw [baselineOf_some h, baselineOf_some (by rw [hi]; exact h), hi, hp]

@[simp] theorem baselineOf_pending (r : DnsOverrideRecord) :
    baselineOf (some (pending r)) = baselineOf (some r) :=
  baselineOf_congr rfl rfl

/-- The record written before an override names what the memory names. -/
theorem baselineOf_preRecord (memory : Option DnsOverrideRecord) (intent : DnsIntent)
    (epoch : Epoch) : baselineOf (some (preRecord (baselineOf memory) intent epoch)) =
      baselineOf memory := by
  cases hb : baselineOf memory with
  | none => exact baselineOf_none rfl
  | some b =>
    obtain ⟨r, -, hr, hne⟩ := baselineOf_eq_some hb
    subst hr
    exact baselineOf_some hne

/-! ## The invariant -/

/-- The record in memory names what the history names. -/
structure Ledger.Steady (setup : Setup Doc) (a : Ledger) : Prop where
  carried : ∀ b, baseline setup a.host.calls = some b → baselineOf a.memory = some b
  stable : Stable setup a.host.calls

section Functions

variable {setup : Setup Doc} {F : Faults} {a a' : Ledger} {ok : Bool}

theorem Ledger.Steady.applying (ha : a.Steady setup) (intent : DnsIntent) (epoch : Epoch) :
    (a.log (.applying intent epoch)).Steady setup :=
  ⟨ha.carried, ha.stable⟩

theorem Ledger.Steady.applied (ha : a.Steady setup) (record : DnsOverrideRecord) :
    (a.log (.applied record)).Steady setup :=
  ⟨ha.carried, ha.stable⟩

theorem Ledger.Steady.restored (ha : a.Steady setup) (record : DnsOverrideRecord) :
    (a.log (.restored record)).Steady setup :=
  ⟨nofun, ha.stable⟩

/-- What the history names after a record that goes with it. -/
theorem baseline_published {bytes : List UInt8} {entry : DnsOverrideRecord}
    {calls : List DnsEvent} (hdecode : setup.decodeRecord bytes = some entry)
    (names : ∀ b, baseline setup calls = some b → baselineOf (some entry) = some b) :
    baseline setup (.published bytes :: calls) = baselineOf (some entry) := by
  simp only [baseline]
  cases hb : baseline setup calls with
  | some b => exact (names b hb).symm
  | none => rw [hdecode]

theorem stable_published {bytes : List UInt8} {entry : DnsOverrideRecord} {calls : List DnsEvent}
    (hdecode : setup.decodeRecord bytes = some entry)
    (names : ∀ b, baseline setup calls = some b → baselineOf (some entry) = some b)
    (hstable : Stable setup calls) : Stable setup (.published bytes :: calls) := by
  refine ⟨?_, hstable⟩
  intro b hb
  obtain ⟨r, hr, hrb, -⟩ := baselineOf_eq_some (names b hb)
  cases hr
  exact ⟨entry, hdecode, hrb⟩

section Codec

variable
  (codec : ∀ r bytes, setup.encodeRecord r = .ok bytes → setup.decodeRecord bytes = some r)
include codec

/-- A record that goes with the history is written. Where it could be linked, it
has to name what the memory names. -/
theorem Written.steady {entry : DnsOverrideRecord} (ha : a.Steady setup)
    (names : ∀ b, baseline setup a.host.calls = some b → baselineOf (some entry) = some b)
    (link : a.host.record = none → baselineOf (some entry) = baselineOf a.memory)
    (h : Written setup F (some entry) entry a ok a') : a'.Steady setup := by
  cases h with
  | visible encoded =>
    have hdecode := codec _ _ encoded
    exact ⟨fun b hb => (baseline_published hdecode names).symm.trans hb,
      stable_published hdecode names ha.stable⟩
  | refused failed => exact ⟨ha.carried, ha.stable⟩
  | torn linked failed => exact ⟨ha.carried, ha.stable⟩
  | linked absent encoded failed =>
    have hdecode := codec _ _ encoded
    refine ⟨?_, stable_published hdecode names ha.stable⟩
    intro b hb
    rw [baseline_published hdecode names, link absent] at hb
    exact hb

omit codec in
theorem Cleared.steady (ha : a.Steady setup) (hnone : baseline setup a.host.calls = none)
    (h : Cleared F a ok a') : a'.Steady setup := by
  cases h with
  | done =>
    refine ⟨?_, ha.stable⟩
    intro b hb
    rw [show baseline setup a.host.calls = some b from hb] at hnone
    cases hnone
  | failed h => exact ha

theorem Overridden.steady {intent : DnsIntent} {epoch : Epoch} (ha : a.Steady setup)
    (h : Overridden setup F intent epoch a ok a') : a'.Steady setup := by
  have recorded {pre : DnsOverrideRecord} {a₁ : Ledger} {ok : Bool}
      (hpre : pre = preRecord (baselineOf a.memory) intent epoch)
      (h : Written setup F (some pre) pre a ok a₁) : a₁.Steady setup := by
    have hname : baselineOf (some pre) = baselineOf a.memory := by
      rw [hpre, baselineOf_preRecord]
    exact h.steady codec ha (fun b hb => hname.trans (ha.carried b hb)) fun _ => hname
  cases h with
  | unrecorded hpre h => exact recorded hpre h
  | refused hpre h failed => exact (recorded hpre h).applying _ _
  | moved hpre h _ _ => exact ((recorded hpre h).applying _ _).applied _
  | applied hpre h same h' =>
    have h₁ := ((recorded hpre h).applying intent epoch).applied
    cases h with
    | visible encoded =>
      refine h'.steady codec (h₁ _) ?_ nofun
      intro b hb
      -- what the history names is in memory, and the read-back keeps to it
      have hmem := (h₁ _).carried b hb
      have hbase : baselineOf a.memory = some b := by
        rw [← baselineOf_preRecord a.memory intent epoch, ← hpre]
        exact hmem
      obtain ⟨r, -, hrb, hne⟩ := baselineOf_eq_some hbase
      have hsame := same b hbase
      subst hrb
      rw [baselineOf_some]
      · simp only [readBack, hbase, Option.elim_some, hsame]
      · simpa only [readBack, hsame] using hne

theorem Restored.steady (ha : a.Steady setup) (h : Restored setup F a ok a') :
    a'.Steady setup := by
  have marked {record : DnsOverrideRecord} {a₁ : Ledger} {ok : Bool} (hmem : a.memory = some record)
      (h : Written setup F (some (pending record)) (pending record) a ok a₁) :
      a₁.Steady setup := by
    have hname : baselineOf (some (pending record)) = baselineOf a.memory := by
      rw [hmem, baselineOf_pending]
    exact h.steady codec ha (fun b hb => hname.trans (ha.carried b hb)) fun _ => hname
  cases h with
  | nothing h => exact ha
  | unregistered h none => exact ha
  | failed h registered h₁ refused => exact marked h h₁
  | done h registered h₁ cleared => exact cleared.steady ((marked h h₁).restored _) rfl

theorem Reached.steady {goal : Option (DnsIntent × Epoch)} (ha : a.Steady setup)
    (h : Reached setup F a ok a' goal) : a'.Steady setup := by
  cases goal with
  | none => exact Restored.steady codec ha h
  | some goal => exact Overridden.steady codec ha h

theorem applyOverride_steady {texts : ApplyTexts} {intent : DnsIntent} {epoch : Epoch}
    (ha : a.Steady setup) : (applyOverride setup texts intent epoch).wp (ledgerReading F)
      (fun _ a' => a'.Steady setup) a :=
  Prog.wp_mono (applyOverride_outcome ..) fun _ _ h => h.steady codec ha

theorem dnsRestore_steady (ha : a.Steady setup) :
    (dnsRestore setup).wp (ledgerReading F) (fun _ a' => a'.Steady setup) a :=
  Prog.wp_mono dnsRestore_outcome fun _ _ h => h.steady codec ha

theorem dnsActivateForPlan_steady (plan : EpochPlan Doc) (ha : a.Steady setup) :
    (dnsActivateForPlan setup plan).wp (ledgerReading F) (fun _ a' => a'.Steady setup) a := by
  unfold dnsActivateForPlan
  split
  · split
    · exact ha
    · exact ha
  · split
    · exact ha
    · exact applyOverride_steady codec ha

theorem dnsDeactivateForPlan_steady (plan : EpochPlan Doc) (ha : a.Steady setup) :
    (dnsDeactivateForPlan setup plan).wp (ledgerReading F) (fun _ a' => a'.Steady setup) a := by
  refine Prog.wp_perform_bind trivial ?_
  intro record a₀ h
  obtain ⟨hhost, hmem, -⟩ := h
  obtain rfl := Ledger.eq_mk hmem hhost
  cases record with
  | none => exact ha
  | some record =>
    simp only
    split
    · exact ha
    · exact dnsRestore_steady codec ha

theorem dnsConverge_steady (ha : a.Steady setup) :
    (dnsConverge setup).wp (ledgerReading F) (fun _ a' => a'.Steady setup) a := by
  unfold dnsConverge
  split
  · exact dnsRestore_steady codec ha
  · refine Prog.wp_perform_bind trivial ?_
    intro live a₀ h
    obtain ⟨hhost, hmem, -⟩ := h
    obtain rfl := Ledger.eq_mk hmem hhost
    split
    · exact dnsRestore_steady codec ha
    · exact applyOverride_steady codec ha

end Codec

theorem reconcileOrphanRecord_stable (ha : Stable setup a.host.calls) :
    (reconcileOrphanRecord setup).wp (ledgerReading F)
      (fun _ a' => Stable setup a'.host.calls) a := by
  refine Prog.wp_mono reconcileOrphanRecord_outcome ?_
  intro r a' h
  obtain ⟨-, hcalls | ⟨record, hcalls⟩⟩ := h
  · rw [hcalls]
    exact ha
  · rw [hcalls]
    exact ha

end Functions

/-! ## Every moment

A crash can fall between a publication and its memory. The history only grows,
so what it is at the end of a function bounds what it was before. -/

section Moments

variable {setup : Setup Doc} {env : Env Doc} {w t : World Doc}

theorem Stable.tail {e : DnsEvent} {calls : List DnsEvent} (h : Stable setup (e :: calls)) :
    Stable setup calls := by
  cases e with
  | published bytes => exact h.2
  | built | applying _ _ | applied _ | restored _ => exact h

theorem HostSide.step_calls {β : Type} {op : DnsPrim Doc β} {a a' : HostSide} {b : β}
    (h : HostSide.step op a b a') : a'.calls = a.calls ∨ ∃ e, a'.calls = e :: a.calls := by
  cases op with
  | createStaging | removeStaging =>
    cases b with
    | ok _ => exact .inl (by rw [h]; rfl)
    | error _ => exact .inl (by rw [h]; rfl)
  | removeRecord =>
    cases b with
    | ok _ =>
      obtain ⟨bytes, -, rfl⟩ := h
      exact .inl rfl
    | error _ => exact .inl (by rw [h])
  | writeStaging bytes =>
    obtain ⟨torn, rfl⟩ := h
    exact .inl rfl
  | renameStaging =>
    cases b with
    | ok _ =>
      obtain ⟨bytes, staging, -, rfl⟩ := h
      exact .inr ⟨_, rfl⟩
    | error _ => exact .inl (by rw [h])
  | linkStaging =>
    cases b with
    | ok _ =>
      obtain ⟨bytes, -, rfl⟩ := h
      exact .inr ⟨_, rfl⟩
    | error _ => exact .inl (by rw [h])
  | readRecord => exact .inl (by rw [h.1])
  | applying intent epoch => exact .inr ⟨_, by rw [h]⟩
  | applied intent epoch =>
    cases b with
    | ok record => exact .inr ⟨_, by rw [h]⟩
    | error _ => exact .inl (by rw [h])
  | restore record =>
    cases b with
    | ok _ => exact .inr ⟨_, by rw [h]; rfl⟩
    | error _ => exact .inl (by rw [h]; rfl)
  | record | setRecord _ | running | syncStaging | recordExists | syncDir =>
    exact .inl (by rw [h])

theorem ledgerReading_total {β : Type} (op : DnsPrim Doc β) (a : Ledger) :
    ∃ b a', (ledgerReading .any).step op a b a' := by
  cases op with
  | record => exact ⟨a.memory, a, rfl, rfl, rfl⟩
  | setRecord r => exact ⟨(), ⟨r, a.host⟩, rfl, rfl, trivial⟩
  | running => exact ⟨none, a, rfl, rfl, trivial⟩
  | createStaging | removeStaging => exact ⟨.error "", a, rfl, rfl, fun _ => trivial⟩
  | syncStaging => exact ⟨.error "", a, rfl, rfl, fun _ => Faults.any_staged _⟩
  | writeStaging bytes =>
    exact ⟨.error "", ⟨a.memory, a.host.write []⟩, ⟨[], rfl⟩, rfl, fun _ => Faults.any_staged _⟩
  | recordExists => exact ⟨.error "", a, rfl, rfl, Faults.any_staged _⟩
  | renameStaging => exact ⟨.error "", a, rfl, rfl, fun _ _ => Faults.any_staged _⟩
  | linkStaging => exact ⟨.error "", a, rfl, rfl, fun _ _ => trivial⟩
  | readRecord => exact ⟨.error "", a, ⟨rfl, nofun⟩, rfl, trivial⟩
  | removeRecord => exact ⟨.error (.failed ""), a, rfl, rfl, trivial⟩
  | syncDir => exact ⟨.error "", a, rfl, rfl, trivial⟩
  | applying intent epoch =>
    exact ⟨(), a.log (.applying intent epoch), rfl, rfl, trivial⟩
  | applied intent epoch => exact ⟨.error .timedOut, a, rfl, rfl, fun _ => trivial⟩
  | restore record => exact ⟨.error .timedOut, a, rfl, rfl, fun _ => trivial⟩

theorem exec_stable {p : Prog Error (DnsPrim Doc) Unit}
    (hp : p.wp (ledgerReading .any) (fun _ a' => Stable setup a'.host.calls) w.ledger) :
    Stable setup (exec (dnsHandle env) p w).2.dnsTrace := by
  have back : ∀ {β : Type} (op : DnsPrim Doc β) (a a' : Ledger) (b : β),
      (ledgerReading .any).step op a b a' → Stable setup a'.host.calls →
        Stable setup a.host.calls := by
    intro β op a a' b hstep hstable
    rcases HostSide.step_calls hstep.1 with h | ⟨e, h⟩
    · rw [h] at hstable
      exact hstable
    · rw [h] at hstable
      exact hstable.tail
  have hall := Prog.wp_throughout ledgerReading_total back hp
  have sound : Reading.Sound { ledgerReading .any with pre := fun _ a => Stable setup a.host.calls }
      (dnsHandle env) (fun op w => op.Within env .any w) World.ledger :=
    ⟨(ledgerReading_sound env .any).step⟩
  rcases hr : exec (dnsHandle env) p w with ⟨x | r, t⟩
  · obtain ⟨β, op, u, hpre, hop⟩ := sound.aborts within_any hall hr
    obtain ⟨-, rfl⟩ := dnsHandle_error hop
    exact hpre
  · exact sound.returns within_any hall hr

/-- A DNS function over a steady record: steady when it returns, and its history
stable even when it does not. -/
theorem exec_steady {p : Prog Error (DnsPrim Doc) Unit}
    (hp : p.wp (ledgerReading .any) (fun _ a' => a'.Steady setup) w.ledger) :
    Stable setup (exec (dnsHandle env) p w).2.dnsTrace ∧
      ∀ r t, exec (dnsHandle env) p w = (.ok r, t) → t.ledger.Steady setup :=
  ⟨exec_stable (Prog.wp_mono hp fun _ _ h => h.stable), fun _ _ hr => exec_outcome within_any hp hr⟩

variable
  (codec : ∀ r bytes, setup.encodeRecord r = .ok bytes → setup.decodeRecord bytes = some r)
include codec

theorem handle_steady {β : Type} {op : Op Doc β} (hcalls : op.constructs = false)
    (hw : w.ledger.Steady setup) :
    Stable setup (handle setup env op w).2.dnsTrace ∧
      ∀ b t, handle setup env op w = (.ok b, t) → t.ledger.Steady setup := by
  have same (hfree : op.dnsFree = true) : Stable setup (handle setup env op w).2.dnsTrace ∧
      ∀ b t, handle setup env op w = (.ok b, t) → t.ledger.Steady setup := by
    have hledger := handle_ledger setup env w hfree
    refine ⟨?_, ?_⟩
    · have hcalls : (handle setup env op w).2.dnsTrace = w.dnsTrace :=
        congrArg (fun a : Ledger => a.host.calls) hledger
      rw [hcalls]
      exact hw.stable
    · intro b t h
      rw [h] at hledger
      rw [hledger]
      exact hw
  cases op with
  | dnsActivate plan => exact exec_steady (dnsActivateForPlan_steady codec plan hw)
  | dnsDeactivate plan => exact exec_steady (dnsDeactivateForPlan_steady codec plan hw)
  | dnsConverge => exact exec_steady (dnsConverge_steady codec hw)
  | dnsRestore => exact exec_steady (dnsRestore_steady codec hw)
  | reconcileOrphan | boot _ => cases hcalls
  | _ => exact same rfl

/-- However an operation ends, its history is stable, and its record steady
unless the process is gone. -/
theorem call_steady {command : Command} {r : Except Abort (Except Error Reply)}
    (hg : Good (command.context w.books) ∅ w.books) (hw : w.ledger.Steady setup)
    (hr : exec (handle setup env) (program setup command) w = (r, t)) :
    Stable setup t.dnsTrace ∧ (r ≠ .error .crash → t.ledger.Steady setup) := by
  obtain ⟨halong, hret⟩ := (call_constructs_nothing setup env hg).keeps hw
    fun op w t b hop hw h => (handle_steady codec hop hw).2 b t h
  rcases r with (_ | message) | r
  · obtain ⟨β, op, u, ⟨hu, hop⟩, herror⟩ := (halong.and (call_constructs_nothing setup env hg)).ends hr
    have hstable : Stable setup (handle setup env op u).2.dnsTrace := (handle_steady codec hop hu).1
    rw [herror] at hstable
    exact ⟨hstable, fun h => absurd rfl h⟩
  · obtain ⟨β, op, u, hu, herror⟩ := halong.ends hr
    rw [(handle_panic herror).2]
    exact ⟨hu.stable, fun _ => hu⟩
  · have ht := hret r t hr
    exact ⟨ht.stable, fun _ => ht⟩

omit codec in
theorem build_stable (env : Env Doc) (hw : Stable setup w.dnsTrace) :
    Stable setup (exec (handle setup env) build w).2.dnsTrace := by
  refine (build_ofBuild.along (h := handle setup env)).invariant
    (I := fun w => Stable setup w.dnsTrace) ?_ hw
  intro β op w hop hw
  by_cases hfree : op.dnsFree = true
  · have hledger := handle_ledger setup env w hfree
    have hcalls : (handle setup env op w).2.dnsTrace = w.dnsTrace :=
      congrArg (fun a : Ledger => a.host.calls) hledger
    rw [hcalls]
    exact hw
  · cases op with
    | reconcileOrphan => exact exec_stable (reconcileOrphanRecord_stable hw)
    | boot found => exact hw
    | _ => cases hop.resolve_left hfree

end Moments

/-! ## Every run -/

/-- A restoration or the beginning of another manager. -/
def DnsEvent.ends : DnsEvent → Bool
  | .built | .restored _ => true
  | _ => false

/-- A record that names an interface is what the history names, as long as
nothing ends it. -/
theorem baseline_of_published {setup : Setup Doc} {bytes : List UInt8} {record : DnsOverrideRecord}
    {earlier : List DnsEvent} (hdecode : setup.decodeRecord bytes = some record)
    (hne : record.iface ≠ "") :
    ∀ {middle : List DnsEvent}, Stable setup (middle ++ .published bytes :: earlier) →
      (∀ e ∈ middle, e.ends = false) →
      baseline setup (middle ++ .published bytes :: earlier) =
        some (record.iface, record.previous)
  | [], hstable, _ => by
    simp only [List.nil_append, baseline]
    cases hb : baseline setup earlier with
    | none => rw [hdecode, baselineOf_some hne]
    | some b =>
      obtain ⟨r, hr, hrb⟩ := hstable.1 b hb
      rw [hdecode] at hr
      cases hr
      rw [hrb]
  | e :: middle, hstable, hends => by
    have ih : baseline setup (middle ++ .published bytes :: earlier) =
        some (record.iface, record.previous) :=
      baseline_of_published hdecode hne hstable.tail fun e he =>
        hends e (List.mem_cons_of_mem _ he)
    have he := hends e (List.mem_cons_self ..)
    rw [List.cons_append]
    cases e with
    | published bytes' => simp only [baseline, ih]
    | applying _ _ | applied _ => simpa only [baseline] using ih
    | built | restored _ => cases he

/-- The interface and resolvers of the host are read back once; after that the
controller sees its own override. -/
def forgetfulEnv : Env Nat :=
  { plainEnv 7 with
    dnsApply := fun tick intent epoch => if tick < 30 then .ok (hostRecord intent epoch)
      else .ok { hostRecord intent epoch with previous := intent.servers } }

def protectedRecord : DnsOverrideRecord := hostRecord ⟨["127.0.0.1"]⟩ Epoch.one

theorem records_distinct : ∀ r ∈ [firstRecord, protectedRecord],
    ∀ r' ∈ [firstRecord, protectedRecord], recordText r = recordText r' → r = r' :=
  pair_distinct (by decide +kernel)

end Chimera.Manager
