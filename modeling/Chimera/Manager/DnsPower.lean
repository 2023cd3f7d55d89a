import Chimera.Lib.Durable
import Chimera.Manager.DnsRecord

/-! The record outlives a loss of power: while an override may be in place, a crash of the
machine leaves a record that can be read back, whatever was not yet on the disk.

Here the record and its staging file are names of files, so a name that was left behind by
`atomic_move_new` is the record itself: to stage the next record would truncate it. -/

namespace Chimera.Manager
open Chimera.Model Chimera.Lib.Program Chimera.Lib.Durable

variable {Doc : Type}

inductive RecordName where
  | record
  | staging
  deriving DecidableEq

/-- What the DNS primitives act on. -/
structure RecordDisk where
  disk : Disk RecordName UInt8
  memory : Option DnsOverrideRecord
  calls : List DnsEvent

def RecordDisk.set (a : RecordDisk) (disk : Disk RecordName UInt8) : RecordDisk := { a with disk }

/-- `File::create`: a file that is there is truncated. -/
def RecordDisk.stage (a : RecordDisk) : RecordDisk :=
  match a.disk.entries .staging with
  | some file => a.set (a.disk.write file [])
  | none => a.set (a.disk.create .staging)

/-- A file operation that fails does nothing. -/
def RecordDisk.Tries {ε α : Type} (a : RecordDisk) (r : Except ε α) (a' : RecordDisk)
    (done : α → Prop) : Prop :=
  match r with
  | .ok x => done x
  | .error _ => a' = a

/-- What the primitives may do. A rename of a file over itself does nothing. -/
def RecordDisk.step : ∀ {β : Type}, DnsPrim Doc β → RecordDisk → β → RecordDisk → Prop
  | _, .record, a, r, a' => r = a.memory ∧ a' = a
  | _, .setRecord record, a, _, a' => a' = { a with memory := record }
  | _, .running, a, _, a' => a' = a
  | _, .createStaging, a, r, a' => a.Tries r a' fun _ => a' = a.stage
  | _, .writeStaging bytes, a, r, a' => ∃ file, a.disk.entries .staging = some file ∧
      ∃ written, a' = a.set (a.disk.write file written) ∧ (r = .ok () → written = bytes)
  | _, .syncStaging, a, r, a' => a.Tries r a' fun _ =>
      ∃ file, a.disk.entries .staging = some file ∧ a' = a.set (a.disk.sync file)
  | _, .removeStaging, a, r, a' => a.Tries r a' fun _ =>
      a' = a.set (a.disk.change (.erase .staging))
  | _, .recordExists, a, r, a' => a.Tries r a' fun there =>
      a' = a ∧ there = (a.disk.entries .record).isSome
  | _, .renameStaging, a, r, a' => a.Tries r a' fun _ =>
      ∃ file, a.disk.entries .staging = some file ∧
        a' = if a.disk.entries .record = some file then a
          else a.set (a.disk.change (.move .staging .record file))
  | _, .linkStaging, a, r, a' => a.Tries r a' fun _ =>
      ∃ file, a.disk.entries .staging = some file ∧ a.disk.entries .record = none ∧
        a' = a.set (a.disk.change (.put .record file))
  | _, .readRecord, a, r, a' => a.Tries r a' fun bytes => a' = a ∧ a.disk.image .record = some bytes
  | _, .removeRecord, a, r, a' => a.Tries r a' fun _ => a' = a.set (a.disk.change (.erase .record))
  | _, .syncDir, a, r, a' => a.Tries r a' fun _ => a' = a.set a.disk.syncDir
  | _, .applying intent epoch, a, _, a' =>
      a' = { a with calls := .applying intent epoch :: a.calls }
  | _, .applied _ _, a, r, a' => a.Tries r a' fun record =>
      a' = { a with calls := .applied record :: a.calls }
  | _, .restore record, a, r, a' => a.Tries r a' fun _ =>
      a' = { a with calls := .restored record :: a.calls }

/-- The directory is synced when it is asked to, and a staging file that is there can be
removed. -/
def RecordDisk.Dependable (a : RecordDisk) : ∀ {β : Type}, DnsPrim Doc β → β → Prop
  | _, .removeStaging, r => r = .ok () ∨ a.disk.entries .staging = none
  | _, .syncDir, r => r = .ok ()
  | _, _, _ => True

def RecordDisk.steps {β : Type} (op : DnsPrim Doc β) (a : RecordDisk) (b : β) (a' : RecordDisk) :
    Prop := RecordDisk.step op a b a' ∧ a.Dependable op b

/-- A record that can be read back. -/
def Decodes (setup : Setup Doc) (_ : RecordName) (bytes : List UInt8) : Prop :=
  ∃ record, setup.decodeRecord bytes = some record

/-- The record is there and can be read back, whatever crashes. -/
structure RecordDisk.Recorded (setup : Setup Doc) (a : RecordDisk) : Prop where
  stays : a.disk.Stays .record
  whole : a.disk.Whole {.record} (Decodes setup)

/-- So it is while an override may be in place. -/
structure RecordDisk.Guarded (setup : Setup Doc) (a : RecordDisk) : Prop where
  fresh : a.disk.Fresh
  recorded : owed a.calls = true → a.Recorded setup

/-- No file that the record may be is staged. -/
def RecordDisk.Apart (a : RecordDisk) : Prop :=
  ∀ file, a.disk.entries .staging = some file → ¬ a.disk.Holds .record file

def powerReading (setup : Setup Doc) : Reading (DnsPrim Doc) RecordDisk where
  step := RecordDisk.steps
  pre := fun _ a => a.Guarded setup

section Power

variable {setup : Setup Doc} {a a' : RecordDisk}

theorem RecordDisk.Guarded.calm (h : a.Guarded setup) (hd : a'.disk = a.disk)
    (hc : owed a'.calls = owed a.calls) : a'.Guarded setup := by
  refine ⟨hd ▸ h.fresh, fun howed => ?_⟩
  obtain ⟨hstays, hwhole⟩ := h.recorded (hc.symm.trans howed)
  exact ⟨hd ▸ hstays, hd ▸ hwhole⟩

theorem RecordDisk.Apart.free (h : a.Apart) {file : Nat}
    (hfile : a.disk.entries .staging = some file) :
    ∀ name ∈ ({.record} : Set RecordName), ¬ a.disk.Holds name file := by
  rintro _ rfl
  exact h file hfile

theorem RecordDisk.Guarded.write {file : Nat} {bytes : List UInt8} (h : a.Guarded setup)
    (hapart : a.Apart) (hfile : a.disk.entries .staging = some file) :
    (a.set (a.disk.write file bytes)).Guarded setup :=
  ⟨h.fresh, fun howed => ⟨(h.recorded howed).stays,
    (h.recorded howed).whole.write (hapart.free hfile)⟩⟩

theorem RecordDisk.Guarded.stage (h : a.Guarded setup) (hapart : a.Apart) :
    a.stage.Guarded setup ∧ a.stage.Apart := by
  unfold RecordDisk.stage
  split
  · rename_i file hfile
    exact ⟨h.write hapart hfile, hapart⟩
  · rename_i hfile
    refine ⟨⟨h.fresh.create, fun howed => ?_⟩, fun file hstaging hholds => ?_⟩
    · obtain ⟨hstays, hwhole⟩ := h.recorded howed
      exact ⟨hstays.change id, hwhole.create h.fresh fun hname => by cases hname⟩
    · obtain hholds | ⟨hname, -⟩ := Disk.holds_create hholds
      · have hnext : a.disk.next = file := by simpa [RecordDisk.set] using hstaging
        exact (h.fresh _ _ hholds).ne hnext.symm
      · cases hname

theorem RecordDisk.Guarded.sync {file : Nat} (h : a.Guarded setup) :
    (a.set (a.disk.sync file)).Guarded setup :=
  ⟨h.fresh, fun howed => ⟨(h.recorded howed).stays, (h.recorded howed).whole.sync⟩⟩

/-- The staging name is given up. -/
theorem RecordDisk.Guarded.drop (h : a.Guarded setup) :
    (a.set (a.disk.change (.erase .staging))).Guarded setup ∧
      (a.set (a.disk.change (.erase .staging))).Apart := by
  refine ⟨⟨h.fresh.change fun _ _ hputs => (by cases hputs), fun howed => ?_⟩, fun file hfile => ?_⟩
  · obtain ⟨hstays, hwhole⟩ := h.recorded howed
    refine ⟨hstays.change fun herase => (by cases herase), ?_⟩
    exact hwhole.change fun _ _ _ hputs => (by cases hputs)
  · simp [RecordDisk.set, Change.apply] at hfile

/-- A whole file is staged. -/
structure RecordDisk.Staged (setup : Setup Doc) (a : RecordDisk) (file : Nat) : Prop where
  entry : a.disk.entries .staging = some file
  synced : (a.disk.files file).synced = true
  decodes : Decodes setup .record (a.disk.files file).bytes

/-- The record is a whole file. -/
def RecordDisk.Published (setup : Setup Doc) (a : RecordDisk) : Prop :=
  ∃ file, a.disk.entries .record = some file ∧ (a.disk.files file).synced = true ∧
    Decodes setup .record (a.disk.files file).bytes

theorem RecordDisk.Guarded.publish {file : Nat} {c : Change RecordName} (h : a.Guarded setup)
    (hs : a.Staged setup file) (hc : c = .put .record file ∨ c = .move .staging .record file) :
    (a.set (a.disk.change c)).Guarded setup ∧ (a.set (a.disk.change c)).Published setup := by
  have hputs : ∀ name f, c.Puts name f → name = .record ∧ f = file := by
    obtain rfl | rfl := hc <;> exact fun _ _ hputs => ⟨hputs.1.symm, hputs.2.symm⟩
  have herases : ¬ c.Erases .record := by
    obtain rfl | rfl := hc
    · exact id
    · exact fun herase => by cases herase.1
  have hentry : (a.disk.change c).entries .record = some file := by
    obtain rfl | rfl := hc <;> simp [Change.apply]
  refine ⟨⟨h.fresh.change fun name f hput => ?_, fun howed => ?_⟩,
    file, hentry, hs.synced, hs.decodes⟩
  · rw [(hputs name f hput).2]
    exact h.fresh _ _ (Disk.holds_of_entries hs.entry)
  · obtain ⟨hstays, hwhole⟩ := h.recorded howed
    refine ⟨hstays.change herases, hwhole.change fun name _ f hput => ?_⟩
    obtain ⟨rfl, rfl⟩ := hputs name f hput
    exact ⟨hs.synced, hs.decodes⟩

/-- A published record is there for good once the directory is synced. -/
theorem RecordDisk.Published.synced (h : a.Published setup) :
    (a.set a.disk.syncDir).Recorded setup := by
  obtain ⟨file, hfile, hsynced, hdecodes⟩ := h
  refine ⟨⟨by simp [RecordDisk.set, Disk.syncDir, hfile], fun _ hc => by cases hc⟩, ?_⟩
  rintro _ rfl f (hf | ⟨_, hc, _⟩)
  · cases hfile.symm.trans hf
    exact ⟨hsynced, hdecodes⟩
  · cases hc

/-! ## The record -/

/-- Guarded, with nothing begun or undone since. -/
structure RecordDisk.Calm (setup : Setup Doc) (calls : List DnsEvent) (a : RecordDisk) : Prop where
  guarded : a.Guarded setup
  apart : a.Apart
  calls : a.calls = calls

/-- The record is safe, and a staging name is none of its own. -/
def RecordDisk.Ready (setup : Setup Doc) (a : RecordDisk) : Prop := a.Calm setup a.calls

theorem RecordDisk.Calm.ready {calls : List DnsEvent} (h : a.Calm setup calls) :
    a.Ready setup := ⟨h.guarded, h.apart, rfl⟩

/-- Nothing is owed after a restoration. -/
theorem RecordDisk.Calm.restored {calls : List DnsEvent} (h : a.Calm setup calls)
    (record : DnsOverrideRecord) :
    RecordDisk.Calm setup (.restored record :: a.calls)
      { a with calls := .restored record :: a.calls } :=
  ⟨⟨h.guarded.fresh, fun howed => by cases howed⟩, h.apart, rfl⟩

theorem RecordDisk.Calm.stage {calls : List DnsEvent} (h : a.Calm setup calls) :
    a.stage.Calm setup calls := by
  obtain ⟨hguarded, hapart⟩ := h.guarded.stage h.apart
  refine ⟨hguarded, hapart, ?_⟩
  unfold RecordDisk.stage
  split <;> exact h.calls

theorem RecordDisk.Calm.write {calls : List DnsEvent} {file : Nat} {bytes : List UInt8}
    (h : a.Calm setup calls) (hfile : a.disk.entries .staging = some file) :
    (a.set (a.disk.write file bytes)).Calm setup calls :=
  ⟨h.guarded.write h.apart hfile, h.apart, h.calls⟩

theorem RecordDisk.Calm.drop {calls : List DnsEvent} (h : a.Guarded setup)
    (hcalls : a.calls = calls) : (a.set (a.disk.change (.erase .staging))).Calm setup calls :=
  ⟨h.drop.1, h.drop.2, hcalls⟩

theorem RecordDisk.Calm.sync {calls : List DnsEvent} (h : a.Calm setup calls) (file : Nat) :
    (a.set (a.disk.sync file)).Calm setup calls :=
  ⟨h.guarded.sync, h.apart, h.calls⟩

theorem RecordDisk.Calm.syncDir {calls : List DnsEvent} (h : a.Calm setup calls) :
    (a.set a.disk.syncDir).Calm setup calls := by
  refine ⟨⟨h.guarded.fresh.syncDir, fun howed => ?_⟩, fun file hfile hholds => ?_, h.calls⟩
  · obtain ⟨hstays, hwhole⟩ := h.guarded.recorded howed
    exact ⟨hstays.syncDir, hwhole.syncDir⟩
  · exact h.apart file hfile (Disk.holds_syncDir hholds)

theorem RecordDisk.Calm.clear {calls : List DnsEvent} (h : a.Calm setup calls)
    (hcalls : owed calls = false) : (a.set (a.disk.change (.erase .record))).Calm setup calls := by
  refine ⟨⟨h.guarded.fresh.change fun _ _ hputs => (by cases hputs), fun howed => ?_⟩,
    fun file hfile hholds => ?_, h.calls⟩
  · rw [← h.calls] at hcalls
    cases hcalls.symm.trans howed
  · have hentry : a.disk.entries .staging = some file := by
      simpa [RecordDisk.set, Change.apply] using hfile
    obtain hholds | hputs := Disk.holds_change hholds
    · exact h.apart file hentry hholds
    · cases hputs

/-- The staged record becomes the record, with a rename or with a link. -/
theorem move_power {file : Nat} {calls : List DnsEvent} {there : Bool} (h : a.Calm setup calls)
    (hs : a.Staged setup file) :
    (if there then demand .renameStaging else demand .linkStaging >>= fun _ =>
      demand .removeStaging : Prog String (DnsPrim Doc) Unit).wp (powerReading setup)
      (fun r a' => a'.Calm setup calls ∧ (r = .ok () → a'.Published setup)) a := by
  split
  · refine (Prog.wp_demand _).2 ⟨h.guarded, ?_⟩
    rintro (e | _) a' ⟨hstep, -⟩
    · obtain rfl : a' = a := hstep
      exact ⟨h, fun hr => by cases hr⟩
    · obtain ⟨f, hf, hmoved⟩ := hstep
      cases hs.entry.symm.trans hf
      -- the staged file is not the record already, so the rename is a change
      rw [if_neg fun hrecord => h.apart file hf (Disk.holds_of_entries hrecord)] at hmoved
      obtain rfl := hmoved
      obtain ⟨hguarded, hpublished⟩ := h.guarded.publish hs (.inr rfl)
      refine ⟨⟨hguarded, fun f hf => ?_, h.calls⟩, fun _ => hpublished⟩
      simp [RecordDisk.set, Change.apply] at hf
  · refine Prog.wp_demand_bind h.guarded ?_ ?_
    · rintro e a' ⟨hstep, -⟩
      obtain rfl : a' = a := hstep
      exact ⟨h, fun hr => by cases hr⟩
    rintro _ _ ⟨⟨f, hf, -, rfl⟩, -⟩
    cases hs.entry.symm.trans hf
    obtain ⟨hguarded, hpublished⟩ := h.guarded.publish hs (.inl rfl)
    refine (Prog.wp_demand _).2 ⟨hguarded, ?_⟩
    rintro (e | _) a' ⟨hstep, hdropped⟩
    · obtain hr | hnone := hdropped
      · cases hr
      · simp [RecordDisk.set, Change.apply, hf] at hnone
    · obtain rfl : a' = _ := hstep
      refine ⟨.drop hguarded h.calls, fun _ => ?_⟩
      obtain ⟨g, hg, hwhole⟩ := hpublished
      refine ⟨g, ?_, hwhole⟩
      simpa [RecordDisk.set, Change.apply] using hg

section Codec

variable (codec : ∀ r bytes, setup.encodeRecord r = .ok bytes → setup.decodeRecord bytes = some r)
include codec

theorem publishRecord_power (entry : DnsOverrideRecord) {calls : List DnsEvent}
    (h : a.Calm setup calls) :
    (publishRecord setup entry).wp (powerReading setup) (fun r a' =>
      a'.Calm setup calls ∧ (r = .ok () → a'.Published setup)) a := by
  refine Prog.wp_seq (Q := fun r a' => a' = a ∧ setup.encodeRecord entry = r)
    ((Prog.wp_ret _).2 ⟨rfl, rfl⟩) ?_ ?_
  · rintro e _ ⟨rfl, -⟩
    exact ⟨h, fun hr => by cases hr⟩
  rintro bytes a ⟨rfl, hb⟩
  refine Prog.wp_demand_bind h.guarded ?_ ?_
  · rintro e _ ⟨rfl, -⟩
    exact ⟨h, fun hr => by cases hr⟩
  rintro _ _ ⟨rfl, -⟩
  refine Prog.wp_demand_bind h.stage.guarded ?_ ?_
  · rintro e _ ⟨⟨file, hfile, written, rfl, -⟩, -⟩
    exact ⟨h.stage.write hfile, fun hr => by cases hr⟩
  rintro _ _ ⟨⟨file, hfile, written, rfl, hwritten⟩, -⟩
  obtain rfl := hwritten rfl
  have h₂ : (a.stage.set (a.stage.disk.write file written)).Calm setup calls :=
    h.stage.write hfile
  refine Prog.wp_demand_bind h₂.guarded ?_ ?_
  · rintro e a' ⟨hstep, -⟩
    obtain rfl : a' = _ := hstep
    exact ⟨h₂, fun hr => by cases hr⟩
  rintro _ _ ⟨⟨f, hf, rfl⟩, -⟩
  cases hfile.symm.trans hf
  have h₃ := h₂.sync file
  have hs : RecordDisk.Staged setup ((a.stage.set (a.stage.disk.write file written)).set
      ((a.stage.disk.write file written).sync file)) file :=
    ⟨hfile, by simp [RecordDisk.set, Disk.sync], entry,
      by simpa [RecordDisk.set, Disk.sync, Disk.write] using codec entry written hb⟩
  refine Prog.wp_demand_bind h₃.guarded ?_ ?_
  · rintro e a' ⟨hstep, -⟩
    obtain rfl : a' = _ := hstep
    exact ⟨h₃, fun hr => by cases hr⟩
  rintro there _ ⟨⟨rfl, -⟩, -⟩
  exact move_power h₃ hs

/-- A record that is persisted is there for good. -/
theorem persistDnsRecord_power (entry : DnsOverrideRecord) {calls : List DnsEvent}
    (h : a.Calm setup calls) :
    (persistDnsRecord setup (some entry)).wp (powerReading setup) (fun r a' =>
      a'.Calm setup calls ∧ (r = .ok () → a'.Recorded setup)) a := by
  have hfile : (persistFile setup (some entry)).wp (powerReading setup) (fun r a' =>
      a'.Calm setup calls ∧ (r = .ok () → a'.Recorded setup)) a := by
    refine Prog.wp_attempt_seq (publishRecord_power codec entry h) ?_
    rintro (e | _) a₁ ⟨h₁, hpublished⟩
    · refine Prog.wp_perform_bind h₁.guarded ?_
      rintro (e' | _) a' ⟨hstep, -⟩
      · obtain rfl : a' = a₁ := hstep
        exact ⟨h₁, fun hr => by cases hr⟩
      · obtain rfl : a' = _ := hstep
        exact ⟨.drop h₁.guarded h₁.calls, fun hr => by cases hr⟩
    · refine Prog.wp_perform_bind h₁.guarded ?_
      rintro _ a' ⟨hstep, rfl⟩
      obtain rfl : a' = _ := hstep
      exact ⟨h₁.syncDir, fun _ => (hpublished rfl).synced⟩
  refine Prog.wp_seq hfile (fun e a' h => ⟨h.1, fun hr => by cases hr⟩) ?_
  rintro _ a' ⟨h', hrecorded⟩
  refine (Prog.wp_perform _).2 ⟨h'.guarded, ?_⟩
  rintro _ _ ⟨rfl, -⟩
  have hr := hrecorded rfl
  exact ⟨⟨h'.guarded.calm rfl rfl, h'.apart, h'.calls⟩, fun _ => ⟨hr.stays, hr.whole⟩⟩

omit codec in
/-- The record is removed where nothing is owed. -/
theorem clearRecord_power {calls : List DnsEvent} (h : a.Calm setup calls)
    (hcalls : owed calls = false) :
    (persistDnsRecord setup none).wp (powerReading setup)
      (fun _ a' => a'.Calm setup calls) a := by
  have hfile : (persistFile setup none).wp (powerReading setup)
      (fun _ a' => a'.Calm setup calls) a := by
    refine Prog.wp_perform_bind h.guarded ?_
    rintro (e | _) a' ⟨hstep, -⟩
    · obtain rfl : a' = a := hstep
      cases e with
      | notFound => exact h
      | failed text => exact h
    · obtain rfl : a' = _ := hstep
      have h₁ := h.clear hcalls
      refine Prog.wp_perform_bind h₁.guarded ?_
      rintro _ a' ⟨hstep, rfl⟩
      obtain rfl : a' = _ := hstep
      exact h₁.syncDir
  refine Prog.wp_seq hfile (fun e a' h => h) ?_
  rintro _ a' h'
  refine (Prog.wp_perform _).2 ⟨h'.guarded, ?_⟩
  rintro _ _ ⟨rfl, -⟩
  exact ⟨h'.guarded.calm rfl rfl, h'.apart, h'.calls⟩

/-! ## The functions -/

theorem persistOr_power (entry : DnsOverrideRecord) (report : String → Error)
    {calls : List DnsEvent} (h : a.Calm setup calls) :
    ((persistDnsRecord setup (some entry)).mapError report).wp (powerReading setup) (fun r a' =>
      a'.Calm setup calls ∧ (r = .ok () → a'.Recorded setup)) a := by
  refine (Prog.wp_mapError ..).2 (Prog.wp_mono (persistDnsRecord_power codec entry h) ?_)
  rintro (e | x) a' ⟨hcalm, hrecorded⟩
  · exact ⟨hcalm, fun hr => by cases hr⟩
  · exact ⟨hcalm, fun _ => hrecorded rfl⟩

theorem applyOverride_power (texts : ApplyTexts) (intent : DnsIntent) (epoch : Epoch)
    (h : a.Ready setup) :
    (applyOverride setup texts intent epoch).wp (powerReading setup)
      (fun _ a' => a'.Ready setup) a := by
  refine Prog.wp_perform_bind h.guarded ?_
  rintro record a ⟨⟨-, rfl⟩, -⟩
  refine Prog.wp_seq (persistOr_power codec _ _ h) (fun e a' h' => h'.1.ready) ?_
  rintro _ a₁ ⟨h₁, hrecorded⟩
  -- the record is there for good from here on, so the call may start
  have hready : ∀ calls, RecordDisk.Ready setup { a₁ with calls } := fun calls =>
    ⟨⟨h₁.guarded.fresh, fun _ => ⟨(hrecorded rfl).stays, (hrecorded rfl).whole⟩⟩, h₁.apart, rfl⟩
  refine Prog.wp_perform_bind h₁.guarded ?_
  rintro _ _ ⟨rfl, -⟩
  refine Prog.wp_perform_bind (hready _).guarded ?_
  rintro (failure | answer) a₂ ⟨hstep, -⟩
  · obtain rfl : a₂ = _ := hstep
    cases failure with
    | failed text => exact hready _
    | timedOut => exact hready _
  · obtain rfl : a₂ = _ := hstep
    have hpersist : ∀ entry calls, ((persistDnsRecord setup (some entry)).mapError fun error =>
        Error.applyFailed (texts.readBack ++ error)).wp (powerReading setup)
        (fun _ a' => a'.Ready setup) { a₁ with calls } := fun entry calls =>
      Prog.wp_mono (persistOr_power codec entry _ (hready calls)) fun r a' h' => h'.1.ready
    simp only
    split
    · split
      · exact hready _
      · exact hpersist _ _
    · exact hpersist _ _

theorem dnsRestore_power (h : a.Ready setup) :
    (dnsRestore setup).wp (powerReading setup) (fun _ a' => a'.Ready setup) a := by
  refine Prog.wp_perform_bind h.guarded ?_
  rintro record a ⟨⟨-, rfl⟩, -⟩
  cases record with
  | none => exact h
  | some record =>
    simp only
    split
    · exact h
    refine Prog.wp_attempt_seq (persistDnsRecord_power codec _ h) ?_
    rintro r a₁ ⟨h₁, -⟩
    refine Prog.wp_perform_bind h₁.guarded ?_
    rintro (failure | _) a₂ ⟨hstep, -⟩
    · obtain rfl : a₂ = a₁ := hstep
      cases failure with
      | failed text => exact h₁.ready
      | timedOut => exact h₁.ready
    · obtain rfl : a₂ = _ := hstep
      refine Prog.wp_attempt_seq (clearRecord_power (h₁.restored record) rfl) ?_
      rintro _ a' h'
      exact h'.ready

omit codec in
theorem reconcileOrphanRecord_power (h : a.Ready setup) :
    (reconcileOrphanRecord setup).wp (powerReading setup) (fun _ a' => a'.Ready setup) a := by
  refine Prog.wp_perform_bind h.guarded ?_
  rintro (e | bytes) a₁ ⟨hstep, -⟩
  · obtain rfl : a₁ = a := hstep
    exact h
  · obtain ⟨rfl, -⟩ := hstep
    simp only
    split
    · rename_i record _ _ _
      refine Prog.wp_perform_bind h.guarded ?_
      rintro (failure | _) a₂ ⟨hstep, -⟩
      · obtain rfl : a₂ = _ := hstep
        exact h
      · obtain rfl : a₂ = _ := hstep
        have h₂ := h.restored record
        refine Prog.wp_perform_bind h₂.guarded ?_
        rintro (e | _) a₃ ⟨hstep, -⟩
        · obtain rfl : a₃ = _ := hstep
          exact h₂
        · obtain rfl : a₃ = _ := hstep
          exact (h₂.clear rfl).ready
    · exact h

theorem dnsActivateForPlan_power (plan : EpochPlan Doc) (h : a.Ready setup) :
    (dnsActivateForPlan setup plan).wp (powerReading setup) (fun _ a' => a'.Ready setup) a := by
  unfold dnsActivateForPlan
  split
  · split
    · exact h
    · exact h
  · split
    · exact h
    · exact applyOverride_power codec _ _ _ h

theorem dnsDeactivateForPlan_power (plan : EpochPlan Doc) (h : a.Ready setup) :
    (dnsDeactivateForPlan setup plan).wp (powerReading setup) (fun _ a' => a'.Ready setup) a := by
  refine Prog.wp_perform_bind h.guarded ?_
  rintro record a ⟨⟨-, rfl⟩, -⟩
  cases record with
  | none => exact h
  | some record =>
    simp only
    split
    · exact h
    · exact dnsRestore_power codec h

theorem dnsConverge_power (h : a.Ready setup) :
    (dnsConverge setup).wp (powerReading setup) (fun _ a' => a'.Ready setup) a := by
  unfold dnsConverge
  split
  · exact dnsRestore_power codec h
  · refine Prog.wp_perform_bind h.guarded ?_
    rintro live a ⟨rfl, -⟩
    simp only
    split
    · exact dnsRestore_power codec h
    · exact applyOverride_power codec _ _ _ h

/-! ## A life -/

/-- What the manager asks for between its start and its end. -/
inductive DnsCall (Doc : Type) where
  | activate (plan : EpochPlan Doc)
  | deactivate (plan : EpochPlan Doc)
  | converge
  | restore

def DnsCall.run (setup : Setup Doc) : DnsCall Doc → Prog Error (DnsPrim Doc) Unit
  | .activate plan => dnsActivateForPlan setup plan
  | .deactivate plan => dnsDeactivateForPlan setup plan
  | .converge => dnsConverge setup
  | .restore => dnsRestore setup

/-- Calls in turn, each whatever the ones before answered. -/
def dnsCalls (setup : Setup Doc) : List (DnsCall Doc) → Prog Error (DnsPrim Doc) Unit
  | [] => pure ()
  | call :: calls => do
    let _ ← ((call.run setup).attempt : Prog Error (DnsPrim Doc) (Except Error Unit))
    dnsCalls setup calls

def dnsLife (setup : Setup Doc) (calls : List (DnsCall Doc)) : Prog Error (DnsPrim Doc) Unit := do
  reconcileOrphanRecord setup
  dnsCalls setup calls

theorem DnsCall.run_power (call : DnsCall Doc) (h : a.Ready setup) :
    (call.run setup).wp (powerReading setup) (fun _ a' => a'.Ready setup) a := by
  cases call with
  | activate plan => exact dnsActivateForPlan_power codec plan h
  | deactivate plan => exact dnsDeactivateForPlan_power codec plan h
  | converge => exact dnsConverge_power codec h
  | restore => exact dnsRestore_power codec h

theorem dnsCalls_power (calls : List (DnsCall Doc)) (h : a.Ready setup) :
    (dnsCalls setup calls).wp (powerReading setup) (fun _ a' => a'.Ready setup) a := by
  induction calls generalizing a with
  | nil => exact h
  | cons call calls ih =>
    exact Prog.wp_attempt_seq (call.run_power codec h) fun _ _ h' => ih h'

theorem dnsLife_power (calls : List (DnsCall Doc)) (h : a.Ready setup) :
    (dnsLife setup calls).wp (powerReading setup) (fun _ a' => a'.Ready setup) a :=
  Prog.wp_seq (reconcileOrphanRecord_power h) (fun _ _ h' => h')
    fun _ _ h' => dnsCalls_power codec calls h'

end Codec

/-- Whatever the manager is asked for after its start and wherever the power fails: a host
whose override may be in place is left with a record that can be read back. The staging name
is not at first one more name of the record. -/
theorem record_outlives_power {d d' : Disk RecordName UInt8} {events : List DnsEvent}
    {calls : List (DnsCall Doc)} (codec : ∀ r bytes,
      setup.encodeRecord r = .ok bytes → setup.decodeRecord bytes = some r)
    (hd : d.Settled) (hapart : ∀ file, d.entries .staging = some file →
      d.entries .record ≠ some file) (hstart : owed events = true →
      ∃ bytes record, d.image .record = some bytes ∧ setup.decodeRecord bytes = some record)
    (hrun : (dnsLife setup calls).At RecordDisk.steps ⟨d, none, events⟩ a)
    (hcrash : a.disk.Crash d') (howed : owed a.calls = true) :
    ∃ bytes record, d'.image .record = some bytes ∧ setup.decodeRecord bytes = some record := by
  have hready : RecordDisk.Ready setup ⟨d, none, events⟩ := by
    refine ⟨⟨hd.fresh, fun howed => ?_⟩, fun file hstaging hholds => ?_, rfl⟩
    · obtain ⟨bytes, record, himage, hdecodes⟩ := hstart howed
      refine ⟨hd.stays (by simp [himage]), hd.whole ?_⟩
      rintro _ rfl bytes' hbytes'
      obtain rfl := Option.some.inj (himage.symm.trans hbytes')
      exact ⟨record, hdecodes⟩
    · obtain hstored | ⟨c, hc, -⟩ := hholds
      · exact hapart file hstaging (hd.entries ▸ hstored)
      · rw [hd.pending] at hc
        cases hc
  have hguarded : a.Guarded setup := Prog.wp_at (dnsLife_power codec calls hready) hrun
    (fun _ _ hpre => hpre) fun _ _ h' => h'.guarded
  obtain ⟨hstays, hwhole⟩ := hguarded.recorded howed
  obtain ⟨bytes, himage⟩ := Option.isSome_iff_exists.1 (hcrash.stays hstays).image
  obtain ⟨record, hdecodes⟩ := (hcrash.whole hwhole).image rfl himage
  exact ⟨bytes, record, himage, hdecodes⟩

end Power

/-! ### A first override -/

def noRecord : Disk RecordName UInt8 where
  stored _ := none
  pending := []
  files _ := ⟨[], true⟩
  next := 0

theorem noRecord_settled : noRecord.Settled where
  pending := rfl
  synced _ := rfl
  fresh := by
    rintro name file (hstored | ⟨c, hc, -⟩)
    · cases hstored
    · cases hc

def overridePlan : EpochPlan Nat :=
  planFor overrideSetup plainSpec .one 1 "/run/chimera/artifact" ⟨∅, ∅⟩
    ⟨"/etc/chimera/config.yaml", 7⟩
    ⟨[7], 7, ⟨.http "127.0.0.1:9090", none⟩, "source", "effective"⟩

/-- The disk where the first record has been persisted. -/
def recorded : Disk RecordName UInt8 :=
  (((((noRecord.create .staging).write 0 (recordText firstRecord)).sync 0).change
    (.put .record 0)).change (.erase .staging)).syncDir

theorem at_done {ε α β : Type} {op : DnsPrim Nat (Except String β)}
    {next : Except String β → Prog ε (DnsPrim Nat) α} {a t a' : RecordDisk} (answer : β)
    (hstep : RecordDisk.steps op a (.ok answer) t)
    (hnext : (next (.ok answer)).At RecordDisk.steps t a') :
    (Prog.call op next).At RecordDisk.steps a a' := Prog.at_call hstep hnext

theorem applying_reached : (dnsLife overrideSetup [.activate overridePlan]).At RecordDisk.steps
    ⟨noRecord, none, []⟩
    ⟨recorded, some firstRecord, [.applying ⟨["127.0.0.1"]⟩ .one]⟩ := by
  refine Prog.at_call (b := (.error absent : Except String (List UInt8))) ⟨rfl, trivial⟩ ?_
  refine Prog.at_call (b := (none : Option DnsOverrideRecord)) ⟨⟨rfl, rfl⟩, trivial⟩ ?_
  refine at_done () ⟨rfl, trivial⟩ ?_
  refine at_done () ⟨⟨0, by decide, recordText firstRecord, rfl, fun _ => rfl⟩, trivial⟩ ?_
  refine at_done () ⟨⟨0, by decide, rfl⟩, trivial⟩ ?_
  refine at_done false ⟨⟨rfl, by decide⟩, trivial⟩ ?_
  refine at_done () ⟨⟨0, by decide, by decide, rfl⟩, trivial⟩ ?_
  refine at_done () ⟨rfl, .inl rfl⟩ ?_
  refine at_done () ⟨rfl, rfl⟩ ?_
  refine Prog.at_call (b := ()) ⟨rfl, trivial⟩ ?_
  refine Prog.at_call (b := ()) ⟨rfl, trivial⟩ ?_
  exact .inl rfl

theorem applying_survives : ∃ d', recorded.Crash d' ∧ ∃ bytes record,
    d'.image .record = some bytes ∧ overrideSetup.decodeRecord bytes = some record := by
  have hcrash : recorded.Crash ⟨recorded.stored, [],
      fun file => ⟨(recorded.files file).bytes, true⟩, recorded.next⟩ :=
    ⟨[], fun file => (recorded.files file).bytes, .refl _, fun _ _ => rfl, rfl⟩
  exact ⟨_, hcrash, record_outlives_power overrideSetup_codec noRecord_settled
    (fun _ h => by cases h) (fun h => by cases h) applying_reached hcrash rfl⟩

/-! ### A staging name that was left behind -/

/-- The record is linked, and its staging name not yet removed. -/
def linked : Disk RecordName UInt8 :=
  (((noRecord.create .staging).write 0 (recordText firstRecord)).sync 0).change (.put .record 0)

/-- What a process finds that is started after one that died there. -/
def twoNames : Disk RecordName UInt8 where
  stored := linked.entries
  pending := []
  files file := ⟨(linked.files file).bytes, true⟩
  next := 1

theorem linked_reached : (dnsLife overrideSetup [.activate overridePlan]).At RecordDisk.steps
    ⟨noRecord, none, []⟩ ⟨linked, none, []⟩ := by
  refine Prog.at_call (b := (.error absent : Except String (List UInt8))) ⟨rfl, trivial⟩ ?_
  refine Prog.at_call (b := (none : Option DnsOverrideRecord)) ⟨⟨rfl, rfl⟩, trivial⟩ ?_
  refine at_done () ⟨rfl, trivial⟩ ?_
  refine at_done () ⟨⟨0, by decide, recordText firstRecord, rfl, fun _ => rfl⟩, trivial⟩ ?_
  refine at_done () ⟨⟨0, by decide, rfl⟩, trivial⟩ ?_
  refine at_done false ⟨⟨rfl, by decide⟩, trivial⟩ ?_
  refine at_done () ⟨⟨0, by decide, by decide, rfl⟩, trivial⟩ ?_
  exact .inl rfl

/-- The record is truncated where the override is in place. -/
def truncated : Disk RecordName UInt8 :=
  ((((twoNames.write 0 []).write 0 (recordText firstRecord)).sync 0).syncDir).write 0 []

theorem twoNames_truncated : (dnsLife overrideSetup [.activate overridePlan]).At RecordDisk.steps
    ⟨twoNames, none, []⟩ ⟨truncated, some firstRecord,
      [.applied firstRecord, .applying ⟨["127.0.0.1"]⟩ .one]⟩ := by
  have himage : twoNames.image .record = some (recordText firstRecord) := by
    simp [Disk.image, Disk.entries, Disk.change, Change.apply, Disk.write, Disk.sync, twoNames,
      linked]
  have hdecode : overrideSetup.decodeRecord (recordText firstRecord) = some firstRecord :=
    overrideSetup_codec _ _ (by simp [overrideSetup])
  refine at_done (recordText firstRecord) ⟨⟨rfl, himage⟩, trivial⟩ ?_
  simp only [Prog.bind, hdecode]
  refine Prog.at_call (b := (.error .timedOut : Except DnsFailure Unit)) ⟨rfl, trivial⟩ ?_
  refine Prog.at_call (b := (none : Option DnsOverrideRecord)) ⟨⟨rfl, rfl⟩, trivial⟩ ?_
  refine at_done () ⟨rfl, trivial⟩ ?_
  refine at_done () ⟨⟨0, by decide, recordText firstRecord, rfl, fun _ => rfl⟩, trivial⟩ ?_
  refine at_done () ⟨⟨0, by decide, rfl⟩, trivial⟩ ?_
  refine at_done true ⟨⟨rfl, by decide⟩, trivial⟩ ?_
  refine at_done () ⟨⟨0, by decide, rfl⟩, trivial⟩ ?_
  refine at_done () ⟨rfl, rfl⟩ ?_
  refine Prog.at_call (b := ()) ⟨rfl, trivial⟩ ?_
  refine Prog.at_call (b := ()) ⟨rfl, trivial⟩ ?_
  refine Prog.at_call (b := (.ok firstRecord : Except DnsFailure DnsOverrideRecord))
    ⟨rfl, trivial⟩ ?_
  refine at_done () ⟨rfl, trivial⟩ ?_
  exact .inl rfl

/-- A process that dies between the link and the removal leaves a second name of the record.
The next one that cannot restore the override at its start truncates the record with it, when
the override is in place. -/
theorem second_name_torn : linked.Crash twoNames ∧ ∃ d', truncated.Crash d' ∧
    ∀ bytes, d'.image .record = some bytes → overrideSetup.decodeRecord bytes = none := by
  refine ⟨⟨linked.pending, fun file => (linked.files file).bytes, .refl _, fun _ _ => rfl, rfl⟩,
    _, ⟨[], fun file => (truncated.files file).bytes, List.nil_sublist _, fun _ _ => rfl, rfl⟩, ?_⟩
  intro bytes himage
  have hempty : [] = bytes := Option.some.inj himage
  have hne : [] ≠ recordText firstRecord := by decide +kernel
  simp [overrideSetup, ← hempty, hne]

end Chimera.Manager
