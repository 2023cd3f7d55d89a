import Chimera.Native.Calls

/-! One core at a time. Whoever holds the lease holds the lock; what a crash
leaves behind is told by the `active` file, which is the record of the core that
may still run, or no record at all, in every state that the file operations pass
through. -/

namespace Chimera.Native
open Chimera.Model Chimera.Lib.Utf8 Chimera.Lib.Fields Chimera.Lib.Program Chimera.Lib.Transition
open Chimera.Process

/-! ## The active file -/

/-- The record is that of the process. -/
def Identifies (record : EpochPidRecord) (p : Proc) : Prop :=
  record.pid = p.record.pid ∧ record.executable = p.record.executable ∧
    record.startToken = p.record.startToken

/-- Read as the active file, it names no process but this. -/
def Covers (target : Target) (bytes : Bytes) (p : Proc) : Prop :=
  ∀ raw record, decode (bytes.take activeLimit) = some raw →
    parseEpochRecord target raw = .ok record → Identifies record p

/-- A core that runs has left an active file, and none that names another. -/
def Accounted (target : Target) (v : View) : Prop :=
  ∀ p ∈ v.procs, p.alive = true → ∃ bytes, v.disk.files .root "active" = some bytes ∧
    Covers target bytes p

/-- `recorded_process_is_alive` answers `Ok(false)` of no process that runs. -/
def Truthful (target : Target) (v : View) (fate : Fate) : Prop :=
  ∀ raw record, parseEpochRecord target raw = .ok record →
    recordedProcessIsAlive target fate.identify raw = .ok false →
    ∀ p ∈ v.procs, Identifies record p → p.alive = false

/-- The cores of the client are dead. -/
def Ended (c : Client) (v : View) : Prop := ∀ p ∈ v.procs, p.client = c → p.alive = false

def AllDead (v : View) : Prop := ∀ p ∈ v.procs, p.alive = false

/-- What a client knows of the cores and of its pid file while it holds the
lease. -/
structure Tenure (target : Target) (c : Client) (v : View) : Prop where
  own : ∀ p ∈ v.procs, p.alive = true → p.client = c
  pidFile : ∀ bytes raw, v.disk.pidFiles c = some bytes → decode bytes = some raw →
    ∀ p ∈ v.procs, p.alive = true → Covers target (encode raw) p

/-- The active file names no process at all. -/
def Vacant (target : Target) (v : View) : Prop :=
  ∃ bytes, v.disk.files .root "active" = some bytes ∧ ∀ p, Covers target bytes p

section Texts

variable {target : Target} {p : Proc} {text path : Text} {bytes : Bytes} {n : Nat}

theorem utf8Size_of_lt {c : Char} (h : c.toNat < 128) : c.utf8Size = 1 := by
  have hle : c.val ≤ 127 := by
    rw [UInt32.le_iff_toNat_le]
    exact Nat.le_of_lt_succ h
  simp [Char.utf8Size, hle]

theorem take_encode_ascii (h : ∀ c ∈ text, c.toNat < 128) :
    (encode text).take n = encode (text.take n) := by
  induction text generalizing n with
  | nil => simp
  | cons c text ih =>
    cases n with
    | zero => simp
    | succ n =>
      have hc : (String.utf8EncodeChar c).length = 1 := by
        rw [String.length_utf8EncodeChar]
        exact utf8Size_of_lt (h c List.mem_cons_self)
      have htext := ih (fun d hd => h d (List.mem_cons_of_mem c hd)) (n := n)
      rw [encode_cons, List.take_append, hc, Nat.add_sub_cancel, List.take_succ_cons, encode_cons,
        htext, List.take_of_length_le (by omega)]

/-- A text in ASCII that is cut off is read as its beginning. -/
theorem decode_take (h : ∀ c ∈ text, c.toNat < 128) :
    decode ((encode text).take n) = some (text.take n) := by
  rw [take_encode_ascii h, decode_encode]

theorem forall_of_all {P : Char → Prop} [DecidablePred P]
    (h : (text.all fun c => decide (P c)) = true) : ∀ c ∈ text, P c :=
  fun c hc => of_decide_eq_true (List.all_eq_true.1 h c hc)

theorem recordLines_ascii {record : EpochPidRecord} :
    ∀ c ∈ unlines (recordLines target record path), c.toNat < 128 := by
  have decimals {c : Char} {m : Nat} (hc : c ∈ decimal m) : c.toNat < 128 := by
    have hd := isDigit_of_mem_decimal hc
    simp only [Char.isDigit, Bool.and_eq_true, decide_eq_true_eq] at hd
    exact Nat.lt_of_le_of_lt (UInt32.le_iff_toNat_le.1 hd.2) (by decide)
  have digits {c : Char} {b : List UInt8} (hc : c ∈ hexEncode b) : c.toNat < 128 := by
    have hall : ∀ d ∈ hexDigits, d.toNat < 128 := forall_of_all (by decide)
    exact hall c (mem_hexEncode hc)
  have line {c : Char} {key : String} {value : Text} (hkey : ∀ d ∈ key.toList, d.toNat < 128)
      (hvalue : ∀ d ∈ value, d.toNat < 128) (hc : c ∈ fieldLine key value) : c.toNat < 128 := by
    rcases List.mem_append.1 hc with hc | hc
    · exact hkey c hc
    · rcases List.mem_cons.1 hc with rfl | hc
      · decide
      · exact hvalue c hc
  intro c hc
  obtain ⟨l, hl, hc⟩ := List.mem_flatMap.1 hc
  rcases List.mem_append.1 hc with hc | hc
  · simp only [recordLines, List.mem_cons, List.not_mem_nil, or_false] at hl
    rcases hl with rfl | rfl | rfl | rfl | rfl | rfl
    · exact line (forall_of_all (by decide)) (fun _ => decimals) hc
    · exact line (forall_of_all (by decide)) (fun _ => decimals) hc
    · exact line (forall_of_all (by decide)) (fun _ => decimals) hc
    · exact line (forall_of_all (by decide)) (fun _ => digits) hc
    · exact line (forall_of_all (by decide)) (fun _ => decimals) hc
    · exact line (forall_of_all (by decide)) (fun _ => digits) hc
  · rw [List.mem_singleton.1 hc]
    decide

/-- The record of a process, however much of it is read, names the process. -/
theorem covers_record (h : serializeEpochRecord target p.record = .ok text) :
    Covers target (encode text) p := by
  unfold serializeEpochRecord at h
  split at h
  · cases h
  · cases h
    intro raw record hraw hparse
    rw [decode_take recordLines_ascii] at hraw
    cases hraw
    exact parseEpochRecord_cut (List.take_prefix _ _) hparse

/-- What is in the file before the record is, is no record. -/
theorem covers_plain (h : ∀ c ∈ text, c.toNat < 128 ∧ c ≠ '=') :
    Covers target (encode text) p := by
  intro raw record hraw hparse
  rw [decode_take fun c hc => (h c hc).1] at hraw
  cases hraw
  exact absurd hparse (parseEpochRecord_plain fun hc => (h _ (List.mem_of_mem_take hc)).2 rfl)

theorem display_plain (kind : CoreKind) :
    ∀ c ∈ kind.display.toList, c.toNat < 128 ∧ c ≠ '=' :=
  forall_of_all (by cases kind <;> decide)

/-- Any part of the name of a core stands for every process. -/
theorem covers_display (kind : CoreKind) : Covers target ((encode kind.display.toList).take n) p := by
  rw [take_encode_ascii fun c hc => (display_plain kind c hc).1]
  exact covers_plain fun c hc => display_plain kind c (List.mem_of_mem_take hc)

theorem covers_nil : Covers target [] p := by
  have h : ∀ c ∈ ([] : Text), c.toNat < 128 ∧ c ≠ '=' := by simp
  exact covers_plain h

end Texts

/-! ## What others leave alone -/

section Stability

variable {target : Target} {c : Client} {a b : View} {p : Proc}

theorem Accounted.mono (h : Accounted target a)
    (hfile : b.disk.files .root "active" = a.disk.files .root "active")
    (hprocs : Fewer b.procs a.procs) : Accounted target b := by
  intro p hp hl
  obtain ⟨bytes, hactive, hcovers⟩ := h p (hprocs p hp hl) hl
  exact ⟨bytes, hfile.trans hactive, hcovers⟩

theorem Vacant.accounted (h : Vacant target a) : Accounted target a := by
  obtain ⟨bytes, hactive, hcovers⟩ := h
  exact fun p _ _ => ⟨bytes, hactive, hcovers p⟩

theorem AllDead.mono (h : AllDead a) (hprocs : Fewer b.procs a.procs) : AllDead b := by
  intro p hp
  by_contra hl
  have hl : p.alive = true := by simpa using hl
  rw [h p (hprocs p hp hl)] at hl
  cases hl

theorem AllDead.accounted (h : AllDead a) : Accounted target a := by
  intro p hp hl
  rw [h p hp] at hl
  cases hl

theorem AllDead.tenure (h : AllDead a) : Tenure target c a := by
  have dead {q : Prop} (p : Proc) (hp : p ∈ a.procs) (hl : p.alive = true) : q := by
    rw [h p hp] at hl
    cases hl
  exact ⟨fun p hp hl => dead p hp hl, fun _ _ _ _ p hp hl => dead p hp hl⟩

theorem Ended.allDead (h : Ended c a) (ht : Tenure target c a) : AllDead a := by
  intro p hp
  by_contra hl
  have hl : p.alive = true := by simpa using hl
  rw [h p hp (ht.own p hp hl)] at hl
  cases hl

theorem Tenure.mono (h : Tenure target c a) (hprocs : Fewer b.procs a.procs)
    (hpid : b.disk.pidFiles c = a.disk.pidFiles c) : Tenure target c b where
  own := fun p hp hl => h.own p (hprocs p hp hl) hl
  pidFile := by
    intro bytes raw hbytes hraw p hp hl
    rw [hpid] at hbytes
    exact h.pidFile bytes raw hbytes hraw p (hprocs p hp hl) hl

/-- What stays while a client holds the lock and its operations spare the active
file. -/
structure Kept (target : Target) (c : Client) (a b : View) : Prop where
  lock : b.disk.lock = some c
  active : b.disk.files .root "active" = a.disk.files .root "active"
  fewer : Fewer b.procs a.procs
  pidFile : b.disk.pidFiles c = a.disk.pidFiles c
  inv : Accounted target b

theorem Kept.trans {d : View} (h : Kept target c a b) (h' : Kept target c b d) :
    Kept target c a d :=
  ⟨h'.lock, h'.active.trans h.active, h'.fewer.trans h.fewer, h'.pidFile.trans h.pidFile, h'.inv⟩

theorem Kept.of_rely (h : Rely (Accounted target) c a b) (ha : a.disk.lock = some c) :
    Kept target c a b := by
  obtain ⟨hu, hf⟩ := h.held ha
  exact ⟨h.lock.2 ha, hu.files _ _ (by decide), hf, h.pidFile, h.inv⟩

theorem Kept.tenure (h : Kept target c a b) (ht : Tenure target c a) : Tenure target c b :=
  ht.mono h.fewer h.pidFile

theorem Kept.vacant (h : Kept target c a b) (ha : Vacant target a) : Vacant target b := by
  obtain ⟨bytes, hactive, hcovers⟩ := ha
  exact ⟨bytes, h.active.trans hactive, hcovers⟩

end Stability

/-! ## Operations under the lock -/

/-- An operation that spares the active file and the lock. -/
def Quiet {β : Type} (op : Op β) : Prop := ¬ op.Writes .root "active" ∧ op.isTryLock = false

section Calls

variable {setup : Setup} {c : Client} {a b v : View} {α β : Type}

/-- A program among other clients, for the exclusion of cores. -/
abbrev amongHosts (setup : Setup) (c : Client) (p : Store α)
    (Q : Except StoreError α → View → Prop) (v : View) : Prop :=
  among setup (Accounted setup.target) (Truthful setup.target) c p Q v

abbrev hosts (setup : Setup) (c : Client) : Reading Op View :=
  (reading setup (Accounted setup.target) (Truthful setup.target) c).under
    (Rely (Accounted setup.target) c)

theorem run_kept {op : Op β} {fate : Fate} (hq : Quiet op) (hlock : a.disk.lock = some c)
    (hinv : Accounted setup.target a) :
    Kept setup.target c a { a with disk := (op.run setup.target c fate a.disk).2 } := by
  obtain ⟨hpid, hl⟩ := run_frame setup.target c fate a.disk op
  have hfiles : (op.run setup.target c fate a.disk).2.files .root "active" =
      a.disk.files .root "active" := run_files hq.1
  refine ⟨?_, hfiles, .refl _, congrFun hpid c, hinv.mono hfiles (.refl _)⟩
  rcases hl with hl | ⟨hl, -⟩
  · exact hl.trans hlock
  · rw [hq.2] at hl
    cases hl

theorem quiet_pre {op : Op β} (hq : Quiet op) (hlock : a.disk.lock = some c) :
    (hosts setup c).pre op a := by
  intro b hrely fate hfits
  have hb := hrely.lock.2 hlock
  exact ⟨(run_kept hq hb hrely.inv).inv, fun hne => absurd hb hne⟩

theorem quiet_step {op : Op β} {r : β} (hq : Quiet op) (hlock : a.disk.lock = some c)
    (hs : (hosts setup c).step op a r b) : Kept setup.target c a b := by
  obtain ⟨m, hrely, fate, hfits, hrun, hprocs⟩ := hs
  have hm := hrely.lock.2 hlock
  have hkept : Kept setup.target c m { m with disk := (op.run setup.target c fate m.disk).2 } :=
    run_kept hq hm hrely.inv
  have heq : ({ m with disk := (op.run setup.target c fate m.disk).2 } : View) = b := by
    rw [hrun, ← hprocs]
  rw [heq] at hkept
  exact (Kept.of_rely hrely hlock).trans hkept

/-! ### The calls that are quiet -/

theorem Within.quiet {op : Op β} (h : Within Nowhere Nowhere op) : Quiet op :=
  ⟨h.writes _ _, h.lock⟩

theorem quiet_demand {op : Op (Except StoreError α)} (hw : ¬ op.Writes .root "active")
    (hl : op.isTryLock = false) : (demand op : Store α).Only Quiet := .demand ⟨hw, hl⟩

theorem copyOnce_quiet {source target : Dir} {sourceName name : String} (h : target ≠ .root) :
    (copyOnce source sourceName target name).Only Quiet :=
  copyOnce_within.mono fun _ hop => ⟨fun hw => h (hop.writes _ _ hw).1, hop.lock⟩

theorem writeMarker_quiet {staged name text : String} (hs : staged ≠ "active")
    (hn : name ≠ "active") : (writeMarker staged name text).Only Quiet :=
  writeMarker_within.mono fun _ hop => ⟨fun hw => (hop.writes _ _ hw).2.elim hs hn, hop.lock⟩

theorem migrateMeow_quiet {store : FsNativeStore} {kind : CoreKind} :
    (migrateMeow store kind).Only Quiet := by
  unfold migrateMeow
  refine .bind (quiet_demand nofun rfl) fun home => ?_
  cases home with
  | true => exact .ret _
  | false =>
    refine .bind (quiet_demand nofun rfl) fun done => ?_
    cases done with
    | true => exact .ret _
    | false =>
      refine .bind (quiet_demand nofun rfl) fun legacy => ?_
      cases legacy with
      | false => exact .ret _
      | true =>
        refine .bind (quiet_demand nofun rfl) fun _ => ?_
        refine .bind (validateSelectorJson_within.mono fun _ h => h.quiet) fun _ => ?_
        refine .bind (quiet_demand nofun rfl) fun _ => ?_
        refine .bind (copyOnce_quiet nofun) fun _ => ?_
        refine .bind (copyOnce_quiet nofun) fun _ => ?_
        exact writeMarker_quiet (by decide) (by decide)

theorem migrate_quiet {store : FsNativeStore} {kind : CoreKind} :
    (migrate store kind).Only Quiet := by
  unfold migrate
  refine .bind (quiet_demand nofun rfl) fun home => ?_
  cases home with
  | true => exact .ret _
  | false =>
    refine .bind (quiet_demand nofun rfl) fun done => ?_
    cases done with
    | true => exact .ret _
    | false =>
      refine .bind (quiet_demand nofun rfl) fun legacy => ?_
      cases legacy with
      | false => exact .ret _
      | true =>
        refine .bind (quiet_demand nofun rfl) fun _ => ?_
        refine .bind (quiet_demand nofun rfl) fun _ => ?_
        refine .bind (quiet_demand nofun rfl) fun old => ?_
        cases sourceKind store.legacyKind (cacheFormat store.parsers old) with
        | error e => exact .ret _
        | ok source =>
          cases source with
          | none => exact .ret _
          | some source =>
            refine .bind (quiet_demand nofun rfl) fun _ => ?_
            refine .bind (copyOnce_quiet nofun) fun _ => ?_
            refine .bind (quiet_demand nofun rfl) fun _ => ?_
            refine .bind (quiet_demand nofun rfl) fun _ => ?_
            refine .bind (quiet_demand nofun rfl) fun found => ?_
            cases found with
            | true => exact writeMarker_quiet (by decide) (by decide)
            | false =>
              refine .bind (copyOnce_quiet nofun) fun _ => ?_
              exact writeMarker_quiet (by decide) (by decide)

theorem seedResources_quiet {kind : CoreKind} {names : List String} :
    (seedResources kind names).Only Quiet := by
  refine seedResources_within.mono fun op hop => ⟨?_, hop.lock⟩
  intro hw
  obtain ⟨name, -, hdir, -⟩ := hop.writes _ _ hw
  cases hdir

theorem checkCache_quiet {parsers : Parsers} {kind : CoreKind} :
    (checkCache parsers kind).Only Quiet := by
  refine checkCache_within.mono fun op hop => ⟨?_, hop.lock⟩
  intro hw
  have hdir : Dir.home kind = .root := hop.writes .root "active" hw
  cases hdir

/-- A program of such operations keeps what stays under the lock. -/
theorem quiet_keeps {p : Store α} (hp : p.Only Quiet) (hlock : a.disk.lock = some c)
    (hinv : Accounted setup.target a) :
    amongHosts setup c p (fun _ b => Kept setup.target c a b) a := by
  refine Prog.Only.keeps hp (fun op b hq hb => quiet_pre hq hb.lock) ?_
    ⟨hlock, rfl, .refl _, rfl, hinv⟩
  intro β op b b' r hq hs hb
  exact hb.trans (quiet_step hq hb.lock hs)

/-! ### The calls of a lease -/

/-- What holds at every operation of a lease-holder. -/
structure Held (target : Target) (c : Client) (v : View) : Prop where
  lock : v.disk.lock = some c
  inv : Accounted target v
  tenure : Tenure target c v

theorem Kept.held (h : Kept setup.target c a b) (ha : Held setup.target c a) :
    Held setup.target c b := ⟨h.lock, h.inv, h.tenure ha.tenure⟩

theorem Held.quiet {p : Store α} (h : Held setup.target c a) (hp : p.Only Quiet) :
    amongHosts setup c p (fun _ b => Kept setup.target c a b) a := quiet_keeps hp h.lock h.inv

/-- An operation is taken in by what it does to the disk that it finds. -/
theorem op_wp {op : Op β} {T : β → View → Prop} (hlock : a.disk.lock = some c)
    (h : ∀ m fate, Kept setup.target c a m → Untouched a.disk m.disk →
      Truthful setup.target m fate →
      Accounted setup.target { m with disk := (op.run setup.target c fate m.disk).2 } ∧
        T (op.run setup.target c fate m.disk).1
          { m with disk := (op.run setup.target c fate m.disk).2 }) :
    (hosts setup c).pre op a ∧ ∀ r b, (hosts setup c).step op a r b → T r b :=
  held_wp hlock fun m fate hrely hfits =>
    h m fate (.of_rely hrely hlock) (hrely.held hlock).1 hfits

/-- The active file got a content that names no process. -/
theorem Held.put {bytes : Bytes} (h : Held setup.target c a)
    (hcovers : ∀ p, Covers setup.target bytes p) :
    Held setup.target c { a with disk := a.disk.put .root "active" (some bytes) } ∧
      Vacant setup.target { a with disk := a.disk.put .root "active" (some bytes) } := by
  have hvacant : Vacant setup.target
      { a with disk := a.disk.put .root "active" (some bytes) } :=
    ⟨bytes, put_files_self, hcovers⟩
  exact ⟨⟨h.lock, hvacant.accounted, h.tenure.mono (.refl _) rfl⟩, hvacant⟩

theorem file_active_wp (h : Held setup.target c a) :
    amongHosts setup c (demand (.file .root "active" true)) (fun _ b => Held setup.target c b)
      a := by
  refine (Prog.wp_demand _).2 (op_wp h.lock ?_)
  intro m fate hm _ hfits
  have hheld := hm.held h
  have hput := (hheld.put fun p => covers_nil).1
  suffices hs : Held setup.target c
      { m with disk := (Op.run setup.target c fate m.disk (.file .root "active" true)).2 } from
    ⟨hs.inv, hs⟩
  simp only [Op.run]
  split
  · rw [answer_disk]
    exact hheld
  · simp only [if_true]
    split
    · split
      · exact hheld
      · exact hput
    · exact hput

theorem truncate_active_wp (h : Held setup.target c a) :
    amongHosts setup c (demand (.truncate .root "active")) (fun r b => Held setup.target c b ∧
      (r = .ok () → b.disk.files .root "active" = some [])) a := by
  refine (Prog.wp_demand _).2 (op_wp h.lock ?_)
  intro m fate hm _ hfits
  have hheld := hm.held h
  simp only [Op.run]
  rcases onFile_cases fate m.disk .root "active" fun _ =>
      ((.ok (), m.disk.put .root "active" (some [])) : Except StoreError Unit × Disk) with
    ⟨e, heq⟩ | ⟨bytes, -, -, heq⟩
  · rw [heq]
    exact ⟨hheld.inv, hheld, (by rintro ⟨⟩)⟩
  · rw [heq]
    have hput := (hheld.put fun p => covers_nil).1
    exact ⟨hput.inv, hput, fun _ => put_files_self⟩

theorem writeAll_active_wp {kind : CoreKind} (h : Held setup.target c a)
    (hempty : a.disk.files .root "active" = some []) :
    amongHosts setup c (demand (.writeAll .root "active" (encode kind.display.toList)))
      (fun _ b => Held setup.target c b ∧ Vacant setup.target b) a := by
  refine (Prog.wp_demand _).2 (op_wp h.lock ?_)
  intro m fate hm _ hfits
  have hheld := hm.held h
  have hactive : m.disk.files .root "active" = some [] := hm.active.trans hempty
  simp only [Op.run, hactive, List.nil_append]
  split
  · have hcovers (p : Proc) : Covers setup.target
        ((encode kind.display.toList).take fate.landed) p := covers_display kind
    exact ⟨(hheld.put hcovers).1.inv, hheld.put hcovers⟩
  · have hcovers (p : Proc) : Covers setup.target (encode kind.display.toList) p :=
      covers_plain (display_plain kind)
    exact ⟨(hheld.put hcovers).1.inv, hheld.put hcovers⟩

theorem prepareSpawn_wp {parsers : Parsers} {lease : Lease} (h : Held setup.target c a) :
    amongHosts setup c (prepareSpawn parsers lease) (fun r b => Held setup.target c b ∧
      (r = .ok () → Vacant setup.target b)) a := by
  unfold prepareSpawn
  refine Prog.wp_seq (h.quiet (quiet_demand nofun rfl)) (fun e b hb => ⟨hb.held h, nofun⟩) ?_
  intro _ b hb
  have h := hb.held h
  refine Prog.wp_seq (h.quiet checkCache_quiet) (fun e b hb => ⟨hb.held h, nofun⟩) ?_
  intro _ b hb
  refine Prog.wp_seq (file_active_wp (hb.held h)) (fun e b hb => ⟨hb, nofun⟩) ?_
  intro _ b hb
  refine Prog.wp_seq (truncate_active_wp hb) (fun e b hb => ⟨hb.1, nofun⟩) ?_
  rintro _ b ⟨hb, hempty⟩
  refine Prog.wp_seq (writeAll_active_wp hb (hempty rfl)) (fun e b hb => ⟨hb.1, nofun⟩) ?_
  rintro _ b ⟨hb, hvacant⟩
  refine Prog.wp_seq (hb.quiet (quiet_demand nofun rfl)) (fun e b' hb' => ⟨hb'.held hb, nofun⟩) ?_
  intro _ b' hb'
  have hb := hb'.held hb
  have hvacant := hb'.vacant hvacant
  refine Prog.wp_mono (hb.quiet (quiet_demand nofun rfl)) ?_
  intro r b'' hb''
  exact ⟨hb''.held hb, fun _ => hb''.vacant hvacant⟩

/-- A core is being recorded: the pid file says which. -/
structure Staging (target : Target) (c : Client) (raw : Text) (v : View) : Prop extends
    Held target c v where
  published : ∃ bytes, v.disk.pidFiles c = some bytes ∧ decode bytes = some raw

theorem Kept.staging {raw : Text} (h : Kept setup.target c a b)
    (ha : Staging setup.target c raw a) : Staging setup.target c raw b := by
  obtain ⟨bytes, hbytes, hraw⟩ := ha.published
  exact ⟨h.held ha.toHeld, bytes, h.pidFile.trans hbytes, hraw⟩

/-- An operation on the staged record. -/
theorem staged_wp {raw : Text} {op : Op (Except StoreError Unit)} {after : Bytes}
    (P : Option Bytes → Prop) (h : Staging setup.target c raw a) (hop : Quiet op)
    (hbefore : P (a.disk.files .root "active.new"))
    (hrun : ∀ (fate : Fate) (d : Disk), P (d.files .root "active.new") →
      (op.run setup.target c fate d).1 = .ok () →
      (op.run setup.target c fate d).2.files .root "active.new" = some after) :
    amongHosts setup c (demand op) (fun r b => Staging setup.target c raw b ∧
      (r = .ok () → b.disk.files .root "active.new" = some after)) a := by
  refine (Prog.wp_demand _).2 (op_wp h.lock ?_)
  intro m fate hm hu hfits
  have hkept : Kept setup.target c m { m with disk := (op.run setup.target c fate m.disk).2 } :=
    run_kept hop hm.lock hm.inv
  refine ⟨hkept.inv, hkept.staging (hm.staging h), ?_⟩
  refine hrun fate m.disk ?_
  rw [hu.files .root "active.new" (by decide)]
  exact hbefore

theorem rename_active_wp {raw : Text} (h : Staging setup.target c raw a)
    (hstaged : a.disk.files .root "active.new" = some (encode raw)) :
    amongHosts setup c (demand (.rename .root "active.new" "active"))
      (fun _ b => Held setup.target c b) a := by
  refine (Prog.wp_demand _).2 (op_wp h.lock ?_)
  intro m fate hm hu hfits
  have hm' := hm.staging h
  have hfile : m.disk.files .root "active.new" = some (encode raw) :=
    (hu.files _ _ (by decide)).trans hstaged
  simp only [Op.run]
  rcases onFile_cases fate m.disk .root "active.new" fun bytes =>
      ((.ok (), { (m.disk.put .root "active.new" none).put .root "active" (some bytes) with
        renames := ⟨.root, "active", some bytes, m.disk.files .root "active"⟩ ::
          m.disk.renames }) : Except StoreError Unit × Disk) with
    ⟨e, heq⟩ | ⟨bytes, -, hbytes, heq⟩
  · rw [heq]
    exact ⟨hm'.inv, hm'.toHeld⟩
  · rw [heq]
    rw [hfile] at hbytes
    cases hbytes
    obtain ⟨bytes, hpid, hraw⟩ := hm'.published
    have hinv : Accounted setup.target { m with disk :=
        { (m.disk.put .root "active.new" none).put .root "active" (some (encode raw)) with
          renames := ⟨.root, "active", some (encode raw), m.disk.files .root "active"⟩ ::
            m.disk.renames } } := by
      intro p hp hl
      have hactive : ((m.disk.put .root "active.new" none).put .root "active"
          (some (encode raw))).files .root "active" = some (encode raw) := put_files_self
      exact ⟨encode raw, hactive, hm'.tenure.pidFile bytes raw hpid hraw p hp hl⟩
    exact ⟨hinv, hm'.lock, hinv, hm'.tenure.mono (.refl _) rfl⟩

theorem pidFile_wp (h : Held setup.target c a) :
    amongHosts setup c (demand .pidFile) (fun r b => Held setup.target c b ∧
      ∀ bytes, r = .ok bytes → b.disk.pidFiles c = some bytes) a := by
  refine (Prog.wp_demand _).2 (op_wp h.lock ?_)
  intro m fate hm hu hfits
  have hheld := hm.held h
  simp only [Op.run]
  split
  · exact ⟨hheld.inv, hheld, (by rintro _ ⟨⟩)⟩
  · exact ⟨hheld.inv, hheld, (by rintro _ ⟨⟩)⟩
  · rename_i bytes _ hbytes
    refine ⟨hheld.inv, hheld, ?_⟩
    intro bytes' hb
    cases hb
    exact hbytes

theorem recordStarted_wp (h : Held setup.target c a) :
    amongHosts setup c recordStarted (fun _ b => Held setup.target c b) a := by
  unfold recordStarted
  refine Prog.wp_seq (pidFile_wp h) (fun e b hb => hb.1) ?_
  rintro bytes b ⟨hb, hbytes⟩
  unfold readToString
  split
  · rename_i raw hraw
    have hstaging : Staging setup.target c raw b := ⟨hb, bytes, hbytes bytes rfl, hraw⟩
    have hquiet : Quiet (.recordedProcessIsAlive raw) := ⟨nofun, rfl⟩
    refine Prog.wp_perform_bind (quiet_pre hquiet hb.lock) ?_
    intro answer d hs
    have hd := (quiet_step hquiet hb.lock hs).staging hstaging
    cases answer with
    | error e => exact hd.toHeld
    | ok alive =>
      refine Prog.wp_seq (hd.quiet (quiet_demand (by simp [Op.Writes]) rfl))
        (fun e b hb => hb.held hd.toHeld) ?_
      intro _ b hb
      have hb := hb.staging hd
      refine Prog.wp_seq (staged_wp (fun _ => True) hb ⟨by simp [Op.Writes], rfl⟩ trivial
        fun fate d _ => truncate_run) (fun e b hb => hb.1.toHeld) ?_
      rintro _ b ⟨hb, hfile⟩
      refine Prog.wp_seq (staged_wp (· = some []) hb ⟨by simp [Op.Writes], rfl⟩ (hfile rfl)
        fun fate d => writeAll_run) (fun e b hb => hb.1.toHeld) ?_
      rintro _ b ⟨hb, hfile⟩
      refine Prog.wp_seq (staged_wp (· = some (encode raw)) hb ⟨nofun, rfl⟩ (hfile rfl)
        fun fate d hd _ => (run_files (by simp [Op.Writes])).trans hd) (fun e b hb => hb.1.toHeld) ?_
      rintro _ b ⟨hb, hfile⟩
      refine Prog.wp_seq (rename_active_wp hb (hfile rfl)) (fun e b hb => hb) ?_
      intro _ b hb
      exact Prog.wp_mono (hb.quiet (quiet_demand nofun rfl)) fun r b' hb' => hb'.held hb
  · exact hb

/-! ### Among the dead -/

/-- An operation that leaves the lock alone, where no core runs. -/
theorem dead_wp {op : Op β} (hop : op.isTryLock = false) (hlock : a.disk.lock = some c)
    (hdead : AllDead a) : (hosts setup c).pre op a ∧
      ∀ r b, (hosts setup c).step op a r b → b.disk.lock = some c ∧ AllDead b := by
  refine op_wp hlock ?_
  intro m fate hm _ hfits
  have hdead' : AllDead { m with disk := (op.run setup.target c fate m.disk).2 } :=
    hdead.mono hm.fewer
  refine ⟨hdead'.accounted, ?_, hdead'⟩
  rcases (run_frame setup.target c fate m.disk op).2 with hl | ⟨hl, -⟩
  · exact hl.trans hm.lock
  · rw [hop] at hl
    cases hl

theorem dead_keeps {p : Store α} (hp : p.Only Quiet) (hlock : a.disk.lock = some c)
    (hdead : AllDead a) :
    amongHosts setup c p (fun _ b => b.disk.lock = some c ∧ AllDead b) a := by
  refine Prog.Only.keeps hp (fun op b hq hb => (dead_wp hq.2 hb.1 hb.2).1) ?_ ⟨hlock, hdead⟩
  intro β op b b' r hq hs hb
  exact (dead_wp hq.2 hb.1 hb.2).2 r b' hs

theorem confirmStopped_wp {lease : Lease} (hlock : a.disk.lock = some c) (hdead : AllDead a) :
    amongHosts setup c (confirmStopped lease) (fun _ b => b.disk.lock = some c ∧ AllDead b) a := by
  unfold confirmStopped
  refine Prog.wp_seq (dead_keeps (quiet_demand nofun rfl) hlock hdead) (fun _ _ hb => hb) ?_
  rintro _ b ⟨hlock, hdead⟩
  refine Prog.wp_seq ((Prog.wp_demand _).2 (dead_wp rfl hlock hdead)) (fun _ _ hb => hb) ?_
  rintro _ b ⟨hlock, hdead⟩
  exact dead_keeps (quiet_demand nofun rfl) hlock hdead

/-! ### Taking the lease -/

theorem accounted_spared {target : Target} : Spared (Accounted target) := by
  intro a b ha hu hprocs
  refine ha.mono (hu.files _ _ (by decide)) ?_
  rw [hprocs]
  exact .refl _

/-- An operation that reads something off the disk. -/
theorem reads_wp {ρ : Type} {op : Op (Except StoreError ρ)} (T : ρ → View → Prop)
    (hop : Quiet op) (hlock : a.disk.lock = some c)
    (hrun : ∀ (fate : Fate) (m : View) (x : ρ),
      (op.run setup.target c fate m.disk).1 = .ok x →
      T x { m with disk := (op.run setup.target c fate m.disk).2 }) :
    amongHosts setup c (demand op) (fun r b => Kept setup.target c a b ∧
      ∀ x, r = .ok x → T x b) a := by
  refine (Prog.wp_demand _).2 (op_wp hlock ?_)
  intro m fate hm _ hfits
  have hkept : Kept setup.target c m { m with disk := (op.run setup.target c fate m.disk).2 } :=
    run_kept hop hm.lock hm.inv
  exact ⟨hkept.inv, hm.trans hkept, fun x hx => hrun fate m x hx⟩

theorem recordedProcessIsAlive_ok {target : Target} {identify : UInt32 → Observation}
    {raw : Text} {alive : Bool} (h : recordedProcessIsAlive target identify raw = .ok alive) :
    ∃ record, parseEpochRecord target raw = .ok record := by
  obtain ⟨record, hrecord, -⟩ := except_bind_ok h
  exact ⟨record, hrecord⟩

/-- Where the record is of no running process, none runs. -/
theorem dead_of_answer {target : Target} {m : View} {fate : Fate} {bytes : Bytes} {raw : Text}
    (hinv : Accounted target m) (hfits : Truthful target m fate)
    (hactive : m.disk.files .root "active" = some bytes)
    (hraw : decode (bytes.take activeLimit) = some raw)
    (hanswer : recordedProcessIsAlive target fate.identify raw = .ok false) : AllDead m := by
  intro p hp
  by_contra hl
  have hl : p.alive = true := by simpa using hl
  obtain ⟨bytes', hactive', hcovers⟩ := hinv p hp hl
  rw [hactive] at hactive'
  cases hactive'
  obtain ⟨record, hrecord⟩ := recordedProcessIsAlive_ok hanswer
  have hdead := hfits raw record hrecord hanswer p hp (hcovers raw record hraw hrecord)
  rw [hl] at hdead
  cases hdead

/-- After the check of the active file no core runs. -/
theorem acquired_wp {store : FsNativeStore} {kind : CoreKind} (hlock : a.disk.lock = some c)
    (hdead : AllDead a) : amongHosts setup c (do
      demand (.repairTree (.home kind))
      if kind = .meow then migrateMeow store kind else migrate store kind
      seedResources kind resources
      checkCache store.parsers kind
      pure ⟨kind⟩ : Store Lease)
    (fun _ b => b.disk.lock = some c ∧ AllDead b) a := by
  refine dead_keeps ?_ hlock hdead
  refine .bind (quiet_demand nofun rfl) fun _ => ?_
  have rest : (do
      seedResources kind resources
      checkCache store.parsers kind
      pure ⟨kind⟩ : Store Lease).Only Quiet :=
    .bind seedResources_quiet fun _ => .bind checkCache_quiet fun _ => .ret _
  split
  · exact .bind migrateMeow_quiet fun _ => rest
  · exact .bind migrate_quiet fun _ => rest

theorem acquire_wp {kind : CoreKind} (hinv : Accounted setup.target a)
    (hlock : a.disk.lock ≠ some c) :
    amongHosts setup c (acquire setup.store kind) (fun r b => ∀ lease, r = .ok lease →
      b.disk.lock = some c ∧ AllDead b) a := by
  unfold acquire
  refine locked_wp accounted_spared hinv hlock (fun _ _ => by rintro _ ⟨⟩) ?_
  intro b hinv hlock
  refine Prog.wp_seq (reads_wp (fun found b => found = (b.disk.files .root "active").isSome)
    ⟨(by rintro ⟨⟩), rfl⟩ hlock ?_) (fun _ _ _ => by rintro _ ⟨⟩) ?_
  · intro fate m x hx
    simp only [Op.run] at hx ⊢
    rw [answer_disk]
    exact (answer_ok hx).symm
  rintro found b ⟨hb, hfound⟩
  have hfound := hfound found rfl
  have hafter {v : View} (hv : v.disk.lock = some c ∧ AllDead v) :
      amongHosts setup c (do
        demand (.repairTree (.home kind))
        if kind = .meow then migrateMeow setup.store kind else migrate setup.store kind
        seedResources kind resources
        checkCache setup.store.parsers kind
        pure ⟨kind⟩ : Store Lease)
      (fun r b => ∀ lease, r = .ok lease → b.disk.lock = some c ∧ AllDead b) v :=
    Prog.wp_mono (acquired_wp hv.1 hv.2) fun _ _ hb _ _ => hb
  cases found with
  | false =>
    refine hafter ⟨hb.lock, ?_⟩
    intro p hp
    by_contra hl
    obtain ⟨bytes, hactive, -⟩ := hb.inv p hp (by simpa using hl)
    rw [hactive] at hfound
    cases hfound
  | true =>
    refine Prog.wp_seq (quiet_keeps (quiet_demand (by rintro ⟨⟩) rfl) hb.lock hb.inv)
      (fun _ _ _ => by rintro _ ⟨⟩) ?_
    intro _ b hb
    refine Prog.wp_seq (reads_wp (fun bytes b => b.disk.files .root "active" = some bytes)
      ⟨(by rintro ⟨⟩), rfl⟩ hb.lock ?_) (fun _ _ _ => by rintro _ ⟨⟩) ?_
    · intro fate m bytes hbytes
      obtain ⟨bytes', -, hfile, heq⟩ := onFile_ok hbytes
      simp only [Op.run, heq] at hbytes ⊢
      cases hbytes
      exact hfile
    rintro bytes b ⟨hb, hbytes⟩
    have hbytes := hbytes bytes rfl
    unfold readToString
    split
    · rename_i raw hraw
      have hanswers : (hosts setup c).pre (.recordedProcessIsAlive raw) b ∧
          ∀ answer v, (hosts setup c).step (.recordedProcessIsAlive raw) b answer v →
            answer = .ok false → v.disk.lock = some c ∧ AllDead v := by
        refine op_wp hb.lock ?_
        intro m fate hm _ hfits
        refine ⟨hm.inv, ?_⟩
        intro hanswer
        exact ⟨hm.lock, dead_of_answer hm.inv hfits (hm.active.trans hbytes) hraw hanswer⟩
      obtain ⟨hpre, hstep⟩ := hanswers
      refine Prog.wp_perform_bind hpre ?_
      intro answer b hs
      have hdead := hstep answer b hs
      cases answer with
      | error e => rintro _ ⟨⟩
      | ok alive =>
        cases alive with
        | true => rintro _ ⟨⟩
        | false =>
          obtain ⟨hlock, hdead⟩ := hdead rfl
          refine Prog.wp_seq ((Prog.wp_demand _).2 (dead_wp rfl hlock hdead))
            (fun _ _ _ => by rintro _ ⟨⟩) ?_
          intro _ b hb
          exact hafter hb
    · rintro _ ⟨⟩

end Calls

/-! ## The protocol of the hosts -/

/-- A core is started where the active file names none. -/
theorem spawn_tenure {target : Target} {c : Client} {record : EpochPidRecord} {published : Bool}
    {v : View} (ht : Tenure target c v) (hv : Vacant target v) (hidle : v.idle c = true) :
    Accounted target (v.spawn target c record published) ∧
      Tenure target c (v.spawn target c record published) := by
  have hdead : AllDead v := by
    refine Ended.allDead ?_ ht
    intro p hp hc
    have hp := List.all_eq_true.1 hidle p hp
    simpa [hc] using hp
  have hnew : ∀ p ∈ (v.spawn target c record published).procs, p.alive = true →
      p = ⟨record, c, true⟩ := by
    intro p hp hl
    rcases List.mem_cons.1 hp with rfl | hp
    · rfl
    · rw [hdead p hp] at hl
      cases hl
  have hvacant : Vacant target (v.spawn target c record published) := hv
  refine ⟨hvacant.accounted, ?_, ?_⟩
  · intro p hp hl
    rw [hnew p hp hl]
  · intro bytes raw hbytes hraw p hp hl
    rw [hnew p hp hl]
    simp only [View.spawn, if_true, publishedFile] at hbytes
    split at hbytes
    · rcases hs : serializeEpochRecord target record with e | text
      · simp [hs, Except.toOption] at hbytes
      · have heq : encode text = bytes := by simpa [hs, Except.toOption] using hbytes
        rw [← heq, decode_encode] at hraw
        cases hraw
        exact covers_record hs
    · cases hbytes

/-- Leases exclude each other, and what runs is accounted for. -/
def exclusion (setup : Setup) : Protocol setup where
  Inv := Accounted setup.target
  Fits := Truthful setup.target
  Confirms := Ended
  Granted := fun _ v => AllDead v
  Lease := fun c prepared v => Tenure setup.target c v ∧ (prepared = true → Vacant setup.target v)
  granted := fun hdead => ⟨hdead.tenure, nofun⟩
  stableGranted := fun hrely hlock hdead => hdead.mono (hrely.held hlock).2
  stable := by
    rintro c prepared a b hrely hlock ⟨ht, hv⟩
    have hkept := Kept.of_rely hrely hlock
    exact ⟨hkept.tenure ht, fun hp => hkept.vacant (hv hp)⟩
  acquire := by
    intro c kind v hinv hlock
    exact acquire_wp hinv hlock
  task := by
    rintro c lease prepared task v hinv hlock ⟨ht, -⟩ hconfirm
    cases task with
    | prepare =>
      refine Prog.wp_mono (prepareSpawn_wp ⟨hlock, hinv, ht⟩) ?_
      rintro r b ⟨hb, hvacant⟩
      refine ⟨hb.lock, hb.tenure, ?_⟩
      intro hp
      cases r with
      | ok u => exact hvacant rfl
      | error e => cases hp
    | record =>
      refine Prog.wp_mono (recordStarted_wp ⟨hlock, hinv, ht⟩) ?_
      intro r b hb
      exact ⟨hb.lock, hb.tenure, nofun⟩
    | confirm =>
      refine Prog.wp_mono (confirmStopped_wp hlock ((hconfirm rfl).allDead ht)) ?_
      rintro r b ⟨hlock, hdead⟩
      exact ⟨hlock, hdead.tenure, nofun⟩
  spawn := by
    rintro c record published v hinv hlock ⟨ht, hv⟩ hidle
    obtain ⟨haccounted, htenure⟩ := spawn_tenure ht (hv rfl) hidle
    exact ⟨haccounted, htenure, nofun⟩
  exit := fun v number hinv => hinv.mono rfl (Protocol.exit_fewer v number)
  release := fun v p hinv => hinv.mono rfl (.refl _)

/-- The assumptions: the lock and the renames are the machine's, the system says
of no running process that it is dead, and a client confirms the end of its
cores only when they have ended. -/
def HostsAssumed (setup : Setup) (s : Fleet) : Turn → Prop
  | .operation _ fate => Truthful setup.target s.view fate
  | .confirmStopped c => Ended c s.view
  | _ => True

theorem hostsAssumed_iff {setup : Setup} {s : Fleet} {turn : Turn} :
    HostsAssumed setup s turn ↔ (exclusion setup).Assumed s turn := by
  cases turn <;> exact Iff.rfl

/-- A lease is granted only when no lease is held and no core that was started
under an earlier one runs, those not confirmed stopped included. -/
theorem lease_granted_alone (setup : Setup) (files : Dir → String → Option Bytes) {s t : Fleet}
    {turn : Turn} {c : Client} (hs : (fleet setup files).ReachableBy (HostsAssumed setup) s)
    (hstep : Fleet.step setup s turn = some t) (hgrant : Grants s t c) :
    (∀ c', (s.seats c').leased = false) ∧ ∀ p ∈ s.view.procs, p.alive = false := by
  have hsound : (exclusion setup).Sound s := by
    refine Protocol.sound_reachable (exclusion setup) ?_
      (hs.weaken fun _ _ h => hostsAssumed_iff.1 h)
    intro p hp
    cases hp
  obtain ⟨lease, hseat⟩ := grants_returns hgrant hstep
  have hc := hsound.seated c
  rw [hseat] at hc
  obtain ⟨hlock, hdead⟩ := hc lease rfl
  refine ⟨?_, hdead⟩
  intro c'
  by_contra hl
  have hl : (s.seats c').leased = true := by simpa using hl
  have hlock' := hsound.leased hl
  rw [hlock] at hlock'
  cases hlock'
  rw [hgrant.1] at hl
  cases hl

theorem truthful_plain {target : Target} {v : View} : Truthful target v plainFate := by
  intro raw record hparse hanswer
  simp [recordedProcessIsAlive, hparse, plainFate, Bind.bind, Except.bind] at hanswer

def plainSetup : Setup where
  store := ⟨.inherited, none, ⟨fun _ => none, fun _ => true⟩⟩
  target := .linux
  host := id

/-- A core is run and confirmed stopped under one lease, and another host is
about to get the next. -/
def handover : List Turn :=
  .acquire 0 .mihomo :: List.replicate 24 (.operation 0 plainFate) ++
    .prepareSpawn 0 :: List.replicate 9 (.operation 0 plainFate) ++
    [.spawn 0 ⟨42, 1, "mihomo".toList, 7, []⟩ true, .exit 0, .confirmStopped 0] ++
    List.replicate 4 (.operation 0 plainFate) ++
    .drop 0 :: .acquire 1 .clashRust :: List.replicate 25 (.operation 1 plainFate)

/-- The part of the assumptions that depends on the state. -/
def confirmsEnded (s : Fleet) : Turn → Bool
  | .confirmStopped c => s.view.idle c
  | _ => true

theorem handover_assumed (s : Fleet) : ∀ turn ∈ handover, confirmsEnded s turn = true →
    HostsAssumed plainSetup s turn := by
  intro turn hturn hg
  cases turn with
  | operation c fate =>
    have hfate : fate = plainFate := by
      have hturn : c = 0 ∧ fate = plainFate ∨ c = 1 ∧ fate = plainFate := by
        simpa [handover] using hturn
      rcases hturn with h | h
      · exact h.2
      · exact h.2
    rw [hfate]
    exact truthful_plain
  | confirmStopped c =>
    intro p hp hc
    have hp := List.all_eq_true.1 hg p hp
    simpa [hc] using hp
  | _ => trivial

theorem handover_granted_alone : ∃ s t : Fleet,
    (fleet plainSetup fun _ _ => none).ReachableBy (HostsAssumed plainSetup) s ∧
    Fleet.step plainSetup s (.operation 1 plainFate) = some t ∧ Grants s t 1 ∧
    s.view.procs.length = 1 ∧
    (∀ c', (s.seats c').leased = false) ∧ ∀ p ∈ s.view.procs, p.alive = false := by
  have hrun : (((fleet plainSetup fun _ _ => none).guarded confirmsEnded).run
      (fleet plainSetup fun _ _ => none).init handover).map (fun s =>
        ((s.seats 1).leased, s.view.procs.length,
          (Fleet.step plainSetup s (.operation 1 plainFate)).map fun t => (t.seats 1).leased)) =
      some (false, 1, some true) := by decide +kernel
  obtain ⟨s, hs, hfacts⟩ := Option.map_eq_some_iff.1 hrun
  obtain ⟨hfree, hprocs, hleased⟩ : (s.seats 1).leased = false ∧ s.view.procs.length = 1 ∧
      (Fleet.step plainSetup s (.operation 1 plainFate)).map (fun t => (t.seats 1).leased) =
        some true := by simpa using hfacts
  obtain ⟨t, ht, hl⟩ := Option.map_eq_some_iff.1 hleased
  have hreach := Machine.guarded_run_reachableBy handover_assumed .init hs
  exact ⟨s, t, hreach, ht, ⟨hfree, hl⟩, hprocs,
    lease_granted_alone plainSetup _ hreach ht ⟨hfree, hl⟩⟩

end Chimera.Native
