import Chimera.Engine.Pump

/-! What the pump knows of what it did: the lines of the stream are delivered,
pending or dropped, none is dropped before it is time, and the termination watch is
set once, when the process is finished. -/

namespace Chimera.Engine
open Chimera.Lib.Utf8 Chimera.Lib.Transition
open Chimera.Process (Duration Instant TerminatedPayload ProcessEvent)

/-! ## What a log says -/

/-- The lines of the stream, the oldest first. -/
def lines : List Entry → List Line
  | [] => []
  | .line line :: log => lines log ++ [line]
  | _ :: log => lines log

/-- The events that were delivered, the oldest first. -/
def sent : List Entry → List ProcessEvent
  | [] => []
  | .sent event :: log => sent log ++ [event]
  | _ :: log => sent log

def finishes : List Entry → List (Except Text Finished)
  | [] => []
  | .finished result :: log => result :: finishes log
  | _ :: log => finishes log

/-- What the termination watch was set to. -/
def terminations : List Entry → List (Except Text TerminatedPayload)
  | [] => []
  | .terminated value :: log => value :: terminations log
  | _ :: log => terminations log

/-- Since when a line has been waiting for the receiver. -/
def waitingSince : List Entry → Option Instant
  | [] => none
  | .waiting time :: _ => some time
  | .sent _ :: _ | .dropped _ :: _ => none
  | _ :: log => waitingSince log

/-- The process has been dying, and a line has been waiting, for the stall period. -/
def Overdue (log : List Entry) (time : Instant) : Prop :=
  ∃ since cause died, waitingSince log = some since ∧ .dying cause died ∈ log ∧
    cause ≠ .abandoned ∧ since + dyingEventStall ≤ time ∧ died + dyingEventStall ≤ time

/-- What may be done after what was done. -/
def Allowed (log : List Entry) : Entry → Prop
  | .dropped time => Overdue log time ∨ ∃ earlier, .dropped earlier ∈ log
  | .sent (.terminated _) => terminations log ≠ []
  | _ => True

def Lawful : List Entry → Prop
  | [] => True
  | entry :: log => Allowed log entry ∧ Lawful log

/-- How far the pump is. -/
inductive Stage where
  | draining
  | finishing
  | reaped (phase : Phase) (out : FinishOutput)
  | cleaning (out : FinishOutput)
  | flushing
  deriving DecidableEq

def Phase.stage : Phase → Stage
  | .draining => .draining
  | .finishing => .finishing
  | .flushing => .flushing

def Pc.stage : Pc → Stage
  | .top phase | .polling phase _ | .killed phase => phase.stage
  | .reaped phase out => .reaped phase out
  | .cleaning out => .cleaning out
  | .done => .flushing

/-- The process is finished and the watch set. -/
def Reaped (log : List Entry) (out : FinishOutput) : Prop :=
  ∃ result, out = normalizeFinish result ∧ finishes log = [result] ∧ terminations log = [out.watch]

/-- What has been finished at a stage. -/
def Stage.Finishes (s : State) : Stage → Prop
  | .draining => (s.finishOutput = none ∧ finishes s.log = [] ∧ terminations s.log = []) ∨
      ∃ out, s.finishOutput = some out ∧ Reaped s.log out
  | .finishing => finishes s.log = [] ∧ terminations s.log = []
  | .reaped _ out => ∃ result, out = normalizeFinish result ∧ finishes s.log = [result] ∧
      terminations s.log = []
  | .cleaning out => Reaped s.log out
  | .flushing => ∃ out, Reaped s.log out

/-- What has been delivered at a stage. -/
def Stage.Delivers (s : State) (delivered missed : List Line) : Stage → Prop
  | .flushing => ∃ out, Reaped s.log out ∧ .ended ∈ s.log ∧
      sent s.log ++ s.terminalEvents = delivered.map Line.event ++ out.events missed.length
  | .draining | .reaped .draining _ => sent s.log = delivered.map Line.event
  | _ => sent s.log = delivered.map Line.event ∧ .ended ∈ s.log

/-- The lines of the stream: delivered, pending, and dropped. -/
structure Account (s : State) (delivered missed : List Line) : Prop where
  lines : lines s.log = delivered ++ s.pendingEvent.toList ++ missed
  counted : missed.length = s.droppedOutputEvents
  keeping : s.dropOutput = false → missed = []
  dropping : s.dropOutput = true → s.pendingEvent = none
  delivers : s.pc.stage.Delivers s delivered missed

/-- The stages in which an event may be pending. -/
def Stage.Draining : Stage → Prop
  | .draining | .reaped .draining _ => True
  | _ => False

structure Sound (s : State) : Prop where
  lawful : Lawful s.log
  finishes : s.pc.stage.Finishes s
  account : s.eventsOpen = true → ∃ delivered missed, Account s delivered missed
  closed : s.eventsOpen = false → s.receiver = false ∨ s.stalled = true
  emptied : s.eventsOpen = false → s.pendingEvent = none
  drained : ¬ s.pc.stage.Draining → s.pendingEvent = none
  concluded : s.pc = .done → s.eventsOpen = true → s.terminalEvents = []
  killed : s.pc = .killed .draining → s.dying = true
  dying : s.dying = true → s.eventsOpen = true →
    ∃ cause died, .dying cause died ∈ s.log ∧ cause ≠ .abandoned
  waiting : s.pendingEvent.isSome = true → ∃ since, waitingSince s.log = some since
  armed : ∀ deadline, s.dropPendingAt = some deadline → Overdue s.log deadline
  arming : s.pendingEvent = none → s.dropPendingAt = none
  waitedPast : ∀ since, waitingSince s.log = some since → since ≤ s.now
  diedPast : ∀ cause died, .dying cause died ∈ s.log → died ≤ s.now
  dropped : s.dropOutput = true → ∃ time, .dropped time ∈ s.log
  polls : ∀ phase arms, s.pc = .polling phase arms → ∀ arm ∈ arms, arm ∈ phase.arms

/-! ## What changes nothing of this -/

section Quiet

variable {s t u : State} {log quiet : List Entry} {delivered missed : List Line}

def Entry.isQuiet : Entry → Bool
  | .killAll | .replied _ => true
  | _ => false

theorem quiet_cases {entry : Entry} (h : entry.isQuiet = true) :
    entry = .killAll ∨ ∃ result, entry = .replied result := by
  cases entry with
  | killAll => exact .inl rfl
  | replied result => exact .inr ⟨result, rfl⟩
  | _ => cases h

/-- A log that goes on with entries that say nothing of lines and of the watch. -/
structure Hush (log log' : List Entry) : Prop where
  lines : lines log' = lines log
  sent : sent log' = sent log
  finishes : finishes log' = finishes log
  terminations : terminations log' = terminations log
  waitingSince : waitingSince log' = waitingSince log
  mem : ∀ entry, entry.isQuiet = false → (entry ∈ log' ↔ entry ∈ log)
  lawful : Lawful log → Lawful log'

theorem hush (hq : ∀ entry ∈ quiet, entry.isQuiet = true) : Hush log (quiet ++ log) := by
  induction quiet with
  | nil => exact ⟨rfl, rfl, rfl, rfl, rfl, fun _ _ => Iff.rfl, id⟩
  | cons entry quiet ih =>
    have h := ih fun e he => hq e (List.mem_cons_of_mem _ he)
    have hmem : ∀ e : Entry, e.isQuiet = false → (e ∈ entry :: (quiet ++ log) ↔ e ∈ log) := by
      intro e he
      rw [List.mem_cons, h.mem e he]
      refine ⟨fun hm => hm.resolve_left ?_, .inr⟩
      rintro rfl
      rw [hq e (List.mem_cons_self ..)] at he
      cases he
    obtain rfl | ⟨result, rfl⟩ := quiet_cases (hq entry (List.mem_cons_self ..))
    · exact ⟨h.lines, h.sent, h.finishes, h.terminations, h.waitingSince, hmem,
        fun hl => ⟨trivial, h.lawful hl⟩⟩
    · exact ⟨h.lines, h.sent, h.finishes, h.terminations, h.waitingSince, hmem,
        fun hl => ⟨trivial, h.lawful hl⟩⟩

/-- Nothing has changed that the lines and the watch depend on. -/
structure Quiet (s t : State) : Prop where
  pc : t.pc = s.pc
  finishOutput : t.finishOutput = s.finishOutput
  pendingEvent : t.pendingEvent = s.pendingEvent
  eventsOpen : t.eventsOpen = s.eventsOpen
  dying : t.dying = s.dying
  dropOutput : t.dropOutput = s.dropOutput
  dropPendingAt : t.dropPendingAt = s.dropPendingAt
  droppedOutputEvents : t.droppedOutputEvents = s.droppedOutputEvents
  terminalEvents : t.terminalEvents = s.terminalEvents
  now : s.now ≤ t.now
  receiver : s.receiver = false → t.receiver = false
  stalled : t.stalled = s.stalled
  log : ∃ quiet, t.log = quiet ++ s.log ∧ ∀ entry ∈ quiet, entry.isQuiet = true

theorem Quiet.stage (h : Quiet s t) : t.pc.stage = s.pc.stage := by rw [h.pc]

theorem Quiet.trans (h : Quiet s t) (h' : Quiet t u) : Quiet s u where
  pc := h'.pc.trans h.pc
  finishOutput := h'.finishOutput.trans h.finishOutput
  pendingEvent := h'.pendingEvent.trans h.pendingEvent
  eventsOpen := h'.eventsOpen.trans h.eventsOpen
  dying := h'.dying.trans h.dying
  dropOutput := h'.dropOutput.trans h.dropOutput
  dropPendingAt := h'.dropPendingAt.trans h.dropPendingAt
  droppedOutputEvents := h'.droppedOutputEvents.trans h.droppedOutputEvents
  terminalEvents := h'.terminalEvents.trans h.terminalEvents
  now := Nat.le_trans h.now h'.now
  receiver := fun hr => h'.receiver (h.receiver hr)
  stalled := h'.stalled.trans h.stalled
  log := by
    obtain ⟨quiet, hlog, hq⟩ := h.log
    obtain ⟨quiet', hlog', hq'⟩ := h'.log
    refine ⟨quiet' ++ quiet, by rw [hlog', hlog, List.append_assoc], fun entry he => ?_⟩
    obtain he | he := List.mem_append.1 he
    · exact hq' entry he
    · exact hq entry he

theorem quiet_record {entry : Entry} (h : entry.isQuiet = true) : Quiet s (s.record entry) :=
  ⟨rfl, rfl, rfl, rfl, rfl, rfl, rfl, rfl, rfl, Nat.le_refl _, id, rfl,
    [entry], rfl, fun _ he => List.mem_singleton.1 he ▸ h⟩

theorem Reaped.hush {log' : List Entry} {out : FinishOutput} (h : Hush log log') :
    Reaped log' out ↔ Reaped log out := by
  unfold Reaped
  rw [h.finishes, h.terminations]

theorem Overdue.hush {log' : List Entry} {time : Instant} (h : Hush log log')
    (ho : Overdue log time) : Overdue log' time := by
  obtain ⟨since, cause, died, hsince, hdied, hrest⟩ := ho
  exact ⟨since, cause, died, h.waitingSince.trans hsince, (h.mem _ rfl).2 hdied, hrest⟩

theorem Stage.Finishes.congr {stage : Stage} (hout : t.finishOutput = s.finishOutput)
    (hfinishes : finishes t.log = finishes s.log)
    (hterminations : terminations t.log = terminations s.log) (h : stage.Finishes s) :
    stage.Finishes t := by
  cases stage <;> simpa only [Stage.Finishes, Reaped, hout, hfinishes, hterminations] using h

theorem Stage.Delivers.congr {stage : Stage} (hsent : sent t.log = sent s.log)
    (hfinishes : finishes t.log = finishes s.log)
    (hterminations : terminations t.log = terminations s.log)
    (hevents : t.terminalEvents = s.terminalEvents) (hended : .ended ∈ s.log → .ended ∈ t.log)
    (h : stage.Delivers s delivered missed) : stage.Delivers t delivered missed := by
  cases stage with
  | draining => exact hsent.trans h
  | finishing | cleaning _ => exact ⟨hsent.trans h.1, hended h.2⟩
  | reaped phase _ =>
    cases phase with
    | draining => exact hsent.trans h
    | finishing | flushing => exact ⟨hsent.trans h.1, hended h.2⟩
  | flushing =>
    obtain ⟨out, hreaped, hmem, heq⟩ := h
    refine ⟨out, ?_, hended hmem, ?_⟩
    · simpa only [Reaped, hfinishes, hterminations] using hreaped
    · rw [hsent, hevents]
      exact heq

theorem Sound.of_quiet (h : Sound s) (hq : Quiet s t) : Sound t := by
  obtain ⟨quiet, hlog, hquiet⟩ := hq.log
  have hh : Hush s.log t.log := hlog ▸ Engine.hush hquiet
  exact {
    lawful := hh.lawful h.lawful
    finishes := by
      rw [hq.pc]
      exact h.finishes.congr hq.finishOutput hh.finishes hh.terminations
    account := by
      intro ho
      obtain ⟨delivered, missed, ha⟩ := h.account (hq.eventsOpen ▸ ho)
      refine ⟨delivered, missed, ?_, ?_, ?_, ?_, ?_⟩
      · rw [hh.lines, hq.pendingEvent]
        exact ha.lines
      · rw [hq.droppedOutputEvents]
        exact ha.counted
      · rw [hq.dropOutput]
        exact ha.keeping
      · rw [hq.dropOutput, hq.pendingEvent]
        exact ha.dropping
      · rw [hq.pc]
        exact ha.delivers.congr hh.sent hh.finishes hh.terminations hq.terminalEvents
          (hh.mem .ended rfl).2
    closed := by
      rw [hq.eventsOpen, hq.stalled]
      exact fun ho => (h.closed ho).imp_left hq.receiver
    emptied := by rw [hq.eventsOpen, hq.pendingEvent]; exact h.emptied
    drained := by rw [hq.pc, hq.pendingEvent]; exact h.drained
    concluded := by rw [hq.pc, hq.eventsOpen, hq.terminalEvents]; exact h.concluded
    killed := by rw [hq.pc, hq.dying]; exact h.killed
    dying := by
      rw [hq.dying, hq.eventsOpen]
      intro hd ho
      obtain ⟨cause, died, hm, hc⟩ := h.dying hd ho
      exact ⟨cause, died, (hh.mem _ rfl).2 hm, hc⟩
    waiting := by rw [hq.pendingEvent, hh.waitingSince]; exact h.waiting
    armed := by
      rw [hq.dropPendingAt]
      exact fun deadline hd => (h.armed deadline hd).hush hh
    arming := by rw [hq.pendingEvent, hq.dropPendingAt]; exact h.arming
    waitedPast := by
      rw [hh.waitingSince]
      exact fun since hs => Nat.le_trans (h.waitedPast since hs) hq.now
    diedPast := fun cause died hm => Nat.le_trans (h.diedPast cause died ((hh.mem _ rfl).1 hm)) hq.now
    dropped := by
      rw [hq.dropOutput]
      intro hd
      obtain ⟨time, hm⟩ := h.dropped hd
      exact ⟨time, (hh.mem _ rfl).2 hm⟩
    polls := by rw [hq.pc]; exact h.polls }

end Quiet

end Chimera.Engine
