import Chimera.Log.Truncation

/-! Every frame that leaves the parser is the record of a line it was given and of later
lines on the same stream, and it is within the caps, whatever the calls were. -/

namespace Chimera.Log
open Chimera.Model Chimera.Lib.Utf8

/-- Everything that leaves the parser over the calls, those that panic included. -/
def LogParser.left (chrono : Chrono) : LogParser → List Call → List LogFrame
  | _, [] => []
  | p, call :: rest => (p.survive chrono call).2 ++ (p.survive chrono call).1.left chrono rest

/-- The plain lines that the calls push on a stream. -/
def linesIn (stream : LogStream) (calls : List Call) : List Text :=
  calls.filterMap fun
    | .push s line _ => if s = stream then some (plainLine line) else none
    | .finish => none

/-- A record of the calls: a push among them opened it, and later lines of its stream
continue it. -/
structure Recorded (chrono : Chrono) (calls : List Call) (root : LogFrame) (lines : List Text)
    (held : Pending) : Prop where
  opened : ∃ p push, push.call ∈ calls ∧ Opens chrono p push root
  built : record root lines = .ok held
  taken : (root.raw :: lines).Sublist (linesIn root.stream calls)

/-! ## Caps -/

/-- A text cut at a character boundary. -/
def CutAt (whole kept : Text) : Prop := isBoundary whole (size kept) = true ∧ kept <+: whole

/-- A cut root, and behind it at most sixteen lines, each behind a newline and cut. -/
def Pieced (root : Text) (lines : List Text) (kept : Text) : Prop :=
  ∃ base pieces, kept = base ++ marked pieces ∧ pieces.length ≤ 16 ∧ CutAt root base ∧
    List.Forall₂ CutAt (lines.take pieces.length) pieces

/-- The frame of a record within its caps. -/
structure Capped (root : LogFrame) (lines : List Text) (frame : LogFrame) : Prop where
  message : size frame.message ≤ 16 * 1024
  raw : size frame.raw ≤ 16 * 1024
  target : ∀ target ∈ frame.target, size target ≤ 2048
  timestamp : ∀ timestamp ∈ frame.timestamp, size timestamp.raw ≤ 256
  fields : frame.fields.length ≤ 64
  field : ∀ field ∈ frame.fields, size field.key ≤ 1024 ∧ size field.value ≤ 1024
  messageCut : Pieced root.message lines frame.message
  rawCut : Pieced root.raw lines frame.raw
  targetCut : List.Forall₂ CutAt root.target.toList frame.target.toList
  timestampCut : List.Forall₂ (fun whole kept => CutAt whole.raw kept.raw)
    root.timestamp.toList frame.timestamp.toList
  fieldsCut : List.Forall₂ (fun whole kept => CutAt whole.key kept.key ∧
    CutAt whole.value kept.value) (root.fields.take 64) frame.fields

section Caps

variable {root frame : LogFrame} {lines : List Text} {line text kept : Text} {cut : Bool}
  {held next : Pending} {count : Nat}

theorem cutAt_of_start (h : kept <+: text) : CutAt text kept := ⟨isBoundary_of_start h, h⟩

theorem cutAt_fitting (text : Text) (n : Nat) : CutAt text (fitting text n) :=
  cutAt_of_start (fitting_start text n)

/-- A text of a record that has counted its continuations: while it takes more, it has
every line. -/
def Grown (root : Text) (lines : List Text) (kept : Text) (count : Nat) : Prop :=
  size kept ≤ maxLogTextBytes ∧ ∃ base pieces, kept = base ++ marked pieces ∧
    pieces.length ≤ maxContinuationLines ∧ CutAt root base ∧
    List.Forall₂ CutAt (lines.take pieces.length) pieces ∧
    (count ≠ maxContinuationLines → pieces.length = count ∧ lines.length = count)

theorem grown_root (root : Text) : Grown root [] (fitting root maxLogTextBytes) 0 := by
  refine ⟨size_fitting_le _ _, fitting root maxLogTextBytes, [], by simp, by simp,
    cutAt_fitting _ _, by simp, ?_⟩
  intro _
  exact ⟨rfl, rfl⟩

/-- A record that takes no more lines keeps its pieces. -/
theorem Grown.stopped (h : Grown text lines kept maxContinuationLines) :
    Grown text (lines ++ [line]) kept maxContinuationLines := by
  obtain ⟨hsize, base, pieces, hkept, hcount, hbase, hpieces, -⟩ := h
  have hlong : pieces.length ≤ lines.length := by
    have hlength := hpieces.length_eq
    rw [List.length_take] at hlength
    omega
  refine ⟨hsize, base, pieces, hkept, hcount, hbase, ?_, fun hne => absurd rfl hne⟩
  rw [List.take_append_of_le_length hlong]
  exact hpieces

/-- One line more is one piece more, unless nothing of it fits. -/
theorem Grown.append {after : Text} (h : Grown text lines kept count)
    (hcount : count < maxContinuationLines)
    (happend : Appended kept line maxLogTextBytes after cut) {next : Nat}
    (hnext : next = maxContinuationLines ∨ cut = false ∧ next = count + 1) :
    Grown text (lines ++ [line]) after next := by
  obtain ⟨hsize, base, pieces, hkept, -, hbase, hpieces, hall⟩ := h
  obtain ⟨hpiecesCount, hlinesCount⟩ := hall (by omega)
  have htake : lines.take pieces.length = lines := List.take_of_length_le (by omega)
  rw [htake] at hpieces
  have more {piece : Text} (hpiece : piece <+: line) (hafter : after = kept ++ '\n' :: piece) :
      Grown text (lines ++ [line]) after next := by
    refine ⟨happend.le hsize, base, pieces ++ [piece], ?_, ?_, hbase, ?_, ?_⟩
    · rw [hafter, hkept]
      simp
    · simp only [List.length_append, List.length_singleton]
      omega
    · have hwhole : (lines ++ [line]).take (pieces ++ [piece]).length = lines ++ [line] :=
        List.take_of_length_le (by simp; omega)
      rw [hwhole]
      exact List.rel_append hpieces (.cons (cutAt_of_start hpiece) .nil)
    · intro hne
      rcases hnext with hstop | ⟨-, hone⟩
      · exact absurd hstop hne
      · simp only [List.length_append, List.length_singleton]
        omega
  cases happend with
  | whole _ => exact more List.prefix_rfl rfl
  | part _ _ _ => exact more (fitting_start _ _) rfl
  | full _ =>
    have hstop : next = maxContinuationLines := by
      rcases hnext with hstop | ⟨hcut, -⟩
      · exact hstop
      · cases hcut
    refine ⟨hsize, base, pieces, hkept, by omega, hbase, ?_, fun hne => absurd hstop hne⟩
    rw [List.take_append_of_le_length (by omega), htake]
    exact hpieces

/-- What holds of a record at any time. -/
structure Kept (root : LogFrame) (lines : List Text) (held : Pending) : Prop where
  counted : held.continuations ≤ maxContinuationLines
  message : Grown root.message lines held.frame.message held.continuations
  raw : Grown root.raw lines held.frame.raw held.continuations
  rest : held.frame = { root.bounded with
    message := held.frame.message, raw := held.frame.raw, truncated := held.frame.truncated }

theorem Kept.append (h : Kept root lines held) (hnext : held.append line = .ok next) :
    Kept root (lines ++ [line]) next := by
  obtain ⟨hcounted, hmessage, hraw, hrest⟩ := h
  by_cases hstop : held.continuations = maxContinuationLines
  · rw [append_stopped hstop] at hnext
    cases hnext
    rw [hstop] at hmessage hraw
    exact ⟨hcounted, hstop ▸ hmessage.stopped, hstop ▸ hraw.stopped, by rw [hrest]⟩
  · obtain ⟨raw, rawCut, message, messageCut, hrawNext, hmessageNext, rfl⟩ :=
      append_taken hstop hnext
    have hlt : held.continuations < maxContinuationLines := by omega
    split
    · exact ⟨le_rfl, hmessage.append hlt hmessageNext (.inl rfl),
        hraw.append hlt hrawNext (.inl rfl), by rw [hrest]⟩
    · rename_i hcut
      simp only [Bool.or_eq_true, not_or, Bool.not_eq_true] at hcut
      exact ⟨hlt, hmessage.append hlt hmessageNext (.inr ⟨hcut.2, rfl⟩),
        hraw.append hlt hrawNext (.inr ⟨hcut.1, rfl⟩), by rw [hrest]⟩

theorem record_kept (h : record root lines = .ok held) : Kept root lines held := by
  induction lines using List.reverseRecOn generalizing held with
  | nil =>
    rw [record_nil] at h
    cases h
    exact ⟨Nat.zero_le _, grown_root _, grown_root _, rfl⟩
  | append_singleton lines line ih =>
    obtain ⟨before, hbefore, hnext⟩ := record_snoc_ok h
    exact (ih hbefore).append hnext

theorem Grown.pieced (h : Grown text lines kept count) : Pieced text lines kept := by
  obtain ⟨-, base, pieces, hkept, hcount, hbase, hpieces, -⟩ := h
  exact ⟨base, pieces, hkept, hcount, hbase, hpieces⟩

theorem Kept.capped (h : Kept root lines held) : Capped root lines held.frame := by
  have htarget : held.frame.target = root.target.map (fitting · maxLogTargetBytes) := by
    rw [h.rest, LogFrame.bounded]
  have htimestamp : held.frame.timestamp =
      root.timestamp.map fun t => { t with raw := fitting t.raw maxLogTimestampRawBytes } := by
    rw [h.rest, LogFrame.bounded]
  have hfields : held.frame.fields = (root.fields.take maxLogFields).map LogField.bounded := by
    rw [h.rest, LogFrame.bounded]
  have hcut (fields : List LogField) : List.Forall₂ (fun whole kept => CutAt whole.key kept.key ∧
      CutAt whole.value kept.value) fields (fields.map LogField.bounded) := by
    induction fields with
    | nil => exact .nil
    | cons field rest ih => exact .cons ⟨cutAt_fitting _ _, cutAt_fitting _ _⟩ ih
  refine ⟨h.message.1, h.raw.1, ?_, ?_, ?_, ?_, h.message.pieced, h.raw.pieced, ?_, ?_, ?_⟩
  · intro target hmem
    obtain ⟨whole, -, rfl⟩ := Option.map_eq_some_iff.1 (htarget ▸ hmem)
    exact size_fitting_le _ _
  · intro timestamp hmem
    obtain ⟨whole, -, rfl⟩ := Option.map_eq_some_iff.1 (htimestamp ▸ hmem)
    exact size_fitting_le _ _
  · rw [hfields, List.length_map, List.length_take]
    exact Nat.min_le_left _ _
  · intro field hmem
    obtain ⟨whole, -, rfl⟩ := List.mem_map.1 (hfields ▸ hmem)
    exact ⟨size_fitting_le _ _, size_fitting_le _ _⟩
  · rw [htarget]
    cases root.target with
    | none => exact .nil
    | some whole => exact .cons (cutAt_fitting _ _) .nil
  · rw [htimestamp]
    cases root.timestamp with
    | none => exact .nil
    | some whole => exact .cons (cutAt_fitting _ _) .nil
  · rw [hfields]
    exact hcut _

end Caps

/-! ## Runs -/

section Runs

variable {chrono : Chrono} {p q : LogParser} {past calls : List Call} {call : Call}
  {root : LogFrame} {lines : List Text} {held : Pending} {frame : LogFrame}

theorem linesIn_append (stream : LogStream) (calls more : List Call) :
    linesIn stream (calls ++ more) = linesIn stream calls ++ linesIn stream more := by
  simp [linesIn]

@[simp] theorem linesIn_push {stream : LogStream} (push : Push) (h : push.stream = stream) :
    linesIn stream [push.call] = [plainLine push.line] := by
  simp [linesIn, Push.call, h]

theorem Recorded.later (h : Recorded chrono past root lines held) (more : List Call) :
    Recorded chrono (past ++ more) root lines held := by
  obtain ⟨⟨p, push, hpush, hopens⟩, hbuilt, htaken⟩ := h
  refine ⟨⟨p, push, List.mem_append_left _ hpush, hopens⟩, hbuilt, htaken.trans ?_⟩
  rw [linesIn_append]
  exact List.sublist_append_left _ _

/-- Every slot holds a record of the calls so far. -/
def LogParser.Records (chrono : Chrono) (past : List Call) (p : LogParser) : Prop :=
  ∀ stream held, p.pending.get stream = some held →
    ∃ root lines, Recorded chrono past root lines held ∧ root.stream = stream

/-- The frame is a record of the calls so far. -/
def Left (chrono : Chrono) (past : List Call) (frame : LogFrame) : Prop :=
  ∃ root lines held, Recorded chrono past root lines held ∧ held.frame = frame

theorem Opens.recorded {push : Push} (h : Opens chrono p push root) (past : List Call) :
    Recorded chrono (past ++ [push.call]) root [] ⟨root.bounded, 0⟩ := by
  refine ⟨⟨p, push, by simp, h⟩, record_nil, ?_⟩
  rw [linesIn_append, linesIn_push push h.stream.symm, h.raw]
  exact List.sublist_append_right _ _

theorem Recorded.append {push : Push} {next : Pending} (h : Recorded chrono past root lines held)
    (hstream : root.stream = push.stream) (hnext : held.append (plainLine push.line) = .ok next) :
    Recorded chrono (past ++ [push.call]) root (lines ++ [plainLine push.line]) next := by
  refine ⟨(h.later [push.call]).opened, ?_, ?_⟩
  · rw [record_snoc, h.built]
    exact hnext
  · rw [linesIn_append, linesIn_push push hstream.symm]
    exact h.taken.append (List.Sublist.refl _)

theorem LogParser.Records.left (h : p.Records chrono past) {stream : LogStream}
    (hmem : frame ∈ p.held stream) : Left chrono past frame := by
  obtain ⟨held, hheld, rfl⟩ := Option.map_eq_some_iff.1 (Option.mem_toList.1 hmem)
  obtain ⟨root, lines, hrecorded, -⟩ := h stream held hheld
  exact ⟨root, lines, held, hrecorded, rfl⟩

theorem Left.later (h : Left chrono past frame) (more : List Call) :
    Left chrono (past ++ more) frame := by
  obtain ⟨root, lines, held, hrecorded, rfl⟩ := h
  exact ⟨root, lines, held, hrecorded.later more, rfl⟩

/-- A slot that is set holds the new record, the other one what it held. -/
theorem LogParser.Records.set (h : p.Records chrono past) {stream : LogStream}
    {slot : Option Pending} (hq : q.pending = p.pending.set stream slot) (more : List Call)
    (hslot : ∀ held, slot = some held →
      ∃ root lines, Recorded chrono (past ++ more) root lines held ∧ root.stream = stream) :
    q.Records chrono (past ++ more) := by
  intro other held hheld
  rw [hq] at hheld
  by_cases ho : other = stream
  · subst ho
    rw [Slots.get_set_same] at hheld
    exact hslot held hheld
  · rw [Slots.get_set_other ho] at hheld
    obtain ⟨root, lines, hrecorded, hstream⟩ := h other held hheld
    exact ⟨root, lines, hrecorded.later more, hstream⟩

theorem Turns.records {push : Push} {emitted : List LogFrame}
    (h : Turns chrono p push q emitted) (hp : p.Records chrono past) :
    q.Records chrono (past ++ [push.call]) ∧
      ∀ frame ∈ emitted, Left chrono (past ++ [push.call]) frame := by
  cases h with
  | continued hget hnext hq =>
    obtain ⟨root, lines, hrecorded, hstream⟩ := hp push.stream _ hget
    refine ⟨hp.set hq _ ?_, by simp⟩
    rintro _ ⟨⟩
    exact ⟨root, _, hrecorded.append hstream hnext, hstream⟩
  | held hroot hq =>
    refine ⟨hp.set hq _ ?_, fun frame hmem => (hp.left hmem).later _⟩
    rintro _ ⟨⟩
    exact ⟨_, [], hroot.recorded past, hroot.stream⟩
  | emitted hroot hq =>
    refine ⟨hp.set hq _ (fun _ h => by cases h), ?_⟩
    intro frame hmem
    rcases List.mem_append.1 hmem with hmem | hmem
    · exact (hp.left hmem).later _
    · obtain rfl := List.mem_singleton.1 hmem
      exact ⟨_, [], _, hroot.recorded past, rfl⟩

theorem survive_push (hp : p.Records chrono past) (push : Push) :
    (p.survive chrono push.call).1.Records chrono (past ++ [push.call]) ∧
      ∀ frame ∈ (p.survive chrono push.call).2, Left chrono (past ++ [push.call]) frame := by
  rcases hcall : p.call chrono push.call with e | ⟨q, frames⟩
  · have hsurvive : p.survive chrono push.call = (p, []) := by
      simp only [LogParser.survive, hcall]
    rw [hsurvive]
    refine ⟨?_, by simp⟩
    intro stream held hheld
    obtain ⟨root, lines, hrecorded, hstream⟩ := hp stream held hheld
    exact ⟨root, lines, hrecorded.later _, hstream⟩
  · have hsurvive : p.survive chrono push.call = (q, frames.flatten) := by
      simp only [LogParser.survive, hcall]
    rw [hsurvive]
    exact (call_turns hcall).records hp

theorem survive_records (hp : p.Records chrono past) (call : Call) :
    (p.survive chrono call).1.Records chrono (past ++ [call]) ∧
      ∀ frame ∈ (p.survive chrono call).2, Left chrono (past ++ [call]) frame := by
  cases call with
  | push stream line observedAt => exact survive_push hp ⟨stream, line, observedAt⟩
  | finish =>
    constructor
    · intro stream held hheld
      cases stream <;> cases hheld
    · intro frame hmem
      have hheld : frame ∈ p.held .stdout ∨ frame ∈ p.held .stderr := by
        have hmem : frame ∈ p.finish.2.flatten := hmem
        unfold LogParser.finish at hmem
        simp only at hmem
        split at hmem
        · exact (List.mem_append.1 hmem).symm
        · exact List.mem_append.1 hmem
      rcases hheld with hheld | hheld
      · exact (hp.left hheld).later _
      · exact (hp.left hheld).later _

/-- Every frame that leaves is a record of the calls. -/
theorem left_recorded (hp : p.Records chrono past) (calls : List Call) :
    ∀ frame ∈ p.left chrono calls, Left chrono (past ++ calls) frame := by
  induction calls generalizing p past with
  | nil => simp [LogParser.left]
  | cons call rest ih =>
    obtain ⟨hrecords, hleft⟩ := survive_records hp call
    intro frame hmem
    have hassoc : past ++ call :: rest = (past ++ [call]) ++ rest := by simp
    rw [hassoc]
    rcases List.mem_append.1 hmem with hmem | hmem
    · exact (hleft frame hmem).later rest
    · exact ih hrecords frame hmem

end Runs

/-- Whatever was pushed, every frame that leaves the parser is within the caps. -/
theorem every_frame_capped (chrono : Chrono) (kind : CoreKind) (epoch : Nat) (calls : List Call) :
    ∀ frame ∈ (LogParser.new kind epoch).left chrono calls,
      ∃ root lines held, Recorded chrono calls root lines held ∧ held.frame = frame ∧
        Capped root lines frame := by
  have hnew : (LogParser.new kind epoch).Records chrono [] := by
    intro stream held hheld
    cases stream <;> cases hheld
  intro frame hmem
  obtain ⟨root, lines, held, hrecorded, rfl⟩ := left_recorded hnew calls frame hmem
  exact ⟨root, lines, held, hrecorded, rfl, (record_kept hrecorded.built).capped⟩

/-- An error on stderr, a line that explains it, and the end of the output. -/
def explainedCalls : List Call :=
  [(errorPush "Error: invalid config".toList).call, (errorPush "proxies: [[[".toList).call, .finish]

theorem explained_error_capped : ∃ root lines held,
    Recorded bareChrono explainedCalls root lines held ∧
      held.frame = errorRoot "Error: invalid config\nproxies: [[[".toList ∧
      Capped root lines (errorRoot "Error: invalid config\nproxies: [[[".toList) :=
  every_frame_capped bareChrono .clashPremium 1 explainedCalls _ (by decide +kernel)

end Chimera.Log
