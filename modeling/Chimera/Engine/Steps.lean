import Chimera.Engine.Sound

/-! What each step of the pump keeps: a line that is taken is delivered, pending or
counted, a drop is overdue, and the watch is set between the end of the process and its
last event. -/

namespace Chimera.Engine
open Chimera.Lib.Utf8 Chimera.Lib.Transition
open Chimera.Process (Duration Instant TerminatedPayload ProcessEvent)

variable {setup : Setup} {answers : Answers} {s t : State} {phase : Phase}
  {delivered missed : List Line}

/-! ## What a longer log still says -/

theorem Overdue.cons {log : List Entry} {time : Instant} {entry : Entry}
    (hwaiting : waitingSince (entry :: log) = waitingSince log) (h : Overdue log time) :
    Overdue (entry :: log) time := by
  obtain ⟨since, cause, died, hsince, hdied, hrest⟩ := h
  exact ⟨since, cause, died, hwaiting.trans hsince, List.mem_cons_of_mem _ hdied, hrest⟩

theorem Overdue.mono {log : List Entry} {time later : Instant} (hle : time ≤ later)
    (h : Overdue log time) : Overdue log later := by
  obtain ⟨since, cause, died, hsince, hdied, hcause, hpassed, hpassed'⟩ := h
  exact ⟨since, cause, died, hsince, hdied, hcause, hpassed.trans hle, hpassed'.trans hle⟩

/-- A line that waits while the process dies is overdue after the stall period. -/
theorem Sound.overdue (h : Sound s) (hpending : s.pendingEvent.isSome = true)
    (hdying : s.dying = true) : Overdue s.log (s.now + dyingEventStall) := by
  have hopen : s.eventsOpen = true := by
    by_contra hclosed
    rw [h.emptied (by simpa using hclosed)] at hpending
    cases hpending
  obtain ⟨since, hsince⟩ := h.waiting hpending
  obtain ⟨cause, died, hmem, hcause⟩ := h.dying hdying hopen
  have hsincePast := h.waitedPast since hsince
  have hdiedPast := h.diedPast cause died hmem
  exact ⟨since, cause, died, hsince, hmem, hcause, Nat.add_le_add_right hsincePast _,
    Nat.add_le_add_right hdiedPast _⟩

/-! ## Steps that no line takes part in -/

theorem quiet_with (hardKillAt : Option Instant) (abandoned ctrlOpen shutdownHelper : Bool)
    (shutdown : Option Bool) (ctrlQueue : List Ctrl) (handles : Bool) (queued : Nat) :
    Quiet s { s with
      hardKillAt, abandoned, ctrlOpen, shutdownHelper, shutdown, ctrlQueue, handles, queued } :=
  ⟨rfl, rfl, rfl, rfl, rfl, rfl, rfl, rfl, rfl, Nat.le_refl _, id, rfl, [], rfl, by simp⟩

theorem quiet_killAll : Quiet s s.killAll := quiet_record rfl

theorem quiet_killReply : Quiet s (s.killReply answers) :=
  quiet_killAll.trans (quiet_record rfl)

theorem quiet_handleCtrl {ctrl : Ctrl} : Quiet s (s.handleCtrl setup answers ctrl).1 := by
  cases ctrl with
  | kill => exact (quiet_with ..).trans quiet_killReply
  | writeStdin data =>
    simp only [State.handleCtrl]
    split
    · exact quiet_with ..
    · exact quiet_record rfl
  | gracefulKill =>
    simp only [State.handleCtrl]
    split
    · split
      · split
        · exact (quiet_with ..).trans (quiet_record rfl)
        · split
          · exact (quiet_with ..).trans (quiet_record rfl)
          · exact (quiet_with ..).trans quiet_killReply
      · exact quiet_killReply
    · split
      · split
        · exact (quiet_with ..).trans (quiet_record rfl)
        · exact quiet_record rfl
      · exact quiet_killReply

/-! ## Steps within a stage -/

theorem Sound.goto {pc : Pc} (h : Sound s) (hstage : pc.stage = s.pc.stage)
    (hdone : pc = .done → s.eventsOpen = true → s.terminalEvents = [])
    (hkilled : pc = .killed .draining → s.dying = true)
    (hpolls : ∀ phase arms, pc = .polling phase arms → ∀ arm ∈ arms, arm ∈ phase.arms) :
    Sound (s.goto pc) :=
  { h with
    finishes := by
      change pc.stage.Finishes _
      rw [hstage]
      exact h.finishes.congr rfl rfl rfl
    account := fun hopen => by
      obtain ⟨delivered, missed, ha⟩ := h.account hopen
      refine ⟨delivered, missed, ha.lines, ha.counted, ha.keeping, ha.dropping, ?_⟩
      change pc.stage.Delivers _ _ _
      rw [hstage]
      exact ha.delivers.congr rfl rfl rfl rfl id
    drained := by
      change ¬ pc.stage.Draining → _
      rw [hstage]
      exact h.drained
    concluded := hdone
    killed := hkilled
    polls := hpolls }

theorem Sound.die {cause : Cause} (h : Sound s)
    (hcause : s.eventsOpen = true → cause ≠ .abandoned) : Sound (s.die cause) :=
  { h with
    lawful := ⟨trivial, h.lawful⟩
    finishes := h.finishes.congr rfl rfl rfl
    account := fun hopen => by
      obtain ⟨delivered, missed, ha⟩ := h.account hopen
      exact ⟨delivered, missed, ha.lines, ha.counted, ha.keeping, ha.dropping,
        Stage.Delivers.congr (s := s) rfl rfl rfl rfl (List.mem_cons_of_mem _) ha.delivers⟩
    killed := fun _ => rfl
    dying := fun _ hopen => ⟨cause, s.now, List.mem_cons_self, hcause hopen⟩
    armed := fun deadline hd => (h.armed deadline hd).cons rfl
    diedPast := fun cause died hm => by
      obtain heq | hm := List.mem_cons.1 hm
      · cases heq
        exact Nat.le_refl _
      · exact h.diedPast cause died hm
    dropped := fun hd => (h.dropped hd).imp fun _ hm => List.mem_cons_of_mem _ hm }

theorem Sound.armDrop (h : Sound s) (hdying : s.dying = true) : Sound s.armDrop := by
  unfold State.armDrop
  split
  · rename_i harm
    have hpending := ((Bool.and_eq_true _ _).mp harm).1
    exact { h with
      finishes := h.finishes.congr rfl rfl rfl
      account := fun hopen => by
        obtain ⟨delivered, missed, ha⟩ := h.account hopen
        exact ⟨delivered, missed, ha.lines, ha.counted, ha.keeping, ha.dropping,
          ha.delivers.congr rfl rfl rfl rfl id⟩
      armed := fun deadline hd => by
        cases hd
        exact h.overdue hpending hdying
      arming := fun hnone => by
        rw [show s.pendingEvent = none from hnone] at hpending
        cases hpending }
  · exact h

@[simp] theorem armDrop_pc : s.armDrop.pc = s.pc := by
  unfold State.armDrop
  split <;> rfl

@[simp] theorem abandon_pc : (s.abandon phase).pc = s.pc := by
  unfold State.abandon
  split
  · change State.pc (if _ then _ else _) = _
    split <;> rfl
  · rfl

theorem Sound.abandon (h : Sound s) : Sound (s.abandon phase) := by
  unfold State.abandon
  split
  · rename_i hclosed
    have hclosed : s.eventsOpen = false := by simp at hclosed; exact hclosed.1.1
    have hquiet : Sound { s with abandoned := true, hardKillAt := none } :=
      h.of_quiet (quiet_with ..)
    refine Sound.of_quiet ?_ quiet_killAll
    split
    · exact hquiet.die fun hopen => by rw [hclosed] at hopen; cases hopen
    · exact hquiet
  · exact h

/-! ## Steps that a line takes part in -/

/-- The receiver is gone. -/
theorem Sound.close (h : Sound s) (hreceiver : s.receiver = false) : Sound s.close :=
  { h with
    finishes := h.finishes.congr rfl rfl rfl
    account := fun hopen => by cases hopen
    closed := fun _ => .inl hreceiver
    emptied := fun _ => rfl
    drained := fun _ => rfl
    concluded := fun _ hopen => by cases hopen
    dying := fun _ hopen => by cases hopen
    waiting := fun hpending => by cases hpending
    armed := fun deadline hd => by cases hd
    arming := fun _ => rfl }

/-- The receiver is given up for the terminal events. -/
theorem Sound.shut {stalled : Bool} (h : Sound s) (hpending : s.pendingEvent = none)
    (hwhy : s.receiver = false ∨ stalled = true) :
    Sound { s with eventsOpen := false, stalled := stalled } :=
  { h with
    finishes := h.finishes.congr rfl rfl rfl
    account := fun hopen => by cases hopen
    closed := fun _ => hwhy
    emptied := fun _ => hpending
    concluded := fun _ hopen => by cases hopen
    dying := fun _ hopen => by cases hopen }

theorem Stage.Draining.delivers {stage : Stage} (h : stage.Draining) :
    stage.Delivers s delivered missed ↔ sent s.log = delivered.map Line.event := by
  cases stage with
  | draining => exact Iff.rfl
  | reaped phase _ =>
    cases phase with
    | draining => exact Iff.rfl
    | finishing | flushing => cases h
  | finishing | cleaning _ | flushing => cases h

/-- Only while the stream is read is a line pending. -/
theorem Sound.draining (h : Sound s) (hpending : s.pendingEvent.isSome = true) :
    s.pc.stage.Draining := by
  by_contra hdrained
  rw [h.drained hdrained] at hpending
  cases hpending

/-- The pending line has waited long enough. -/
theorem Sound.drop (h : Sound s) (hkeeping : s.dropOutput = false)
    (hpending : s.pendingEvent.isSome = true)
    (hoverdue : s.dropPendingAt.any (· ≤ s.now) = true) :
    Sound ({ s with
      dropPendingAt := none
      pendingEvent := none
      droppedOutputEvents := s.droppedOutputEvents + 1
      dropOutput := true }.record (.dropped s.now)) := by
  have hdraining := h.draining hpending
  obtain ⟨line, hline⟩ := Option.isSome_iff_exists.1 hpending
  obtain ⟨deadline, hdeadline, hle⟩ := (Option.any_eq_true _ _).1 hoverdue
  exact { h with
    lawful := ⟨.inl ((h.armed deadline hdeadline).mono (of_decide_eq_true hle)), h.lawful⟩
    finishes := h.finishes.congr rfl rfl rfl
    account := fun hopen => by
      obtain ⟨delivered, missed, ha⟩ := h.account hopen
      have hlines := ha.lines
      have hcounted := ha.counted
      have hsent := hdraining.delivers.1 ha.delivers
      rw [ha.keeping hkeeping, List.length_nil] at hcounted
      rw [ha.keeping hkeeping, hline] at hlines
      refine ⟨delivered, [line], hlines.trans (by simp [State.record]), ?_,
        fun hd => (by cases hd), fun _ => rfl, ?_⟩
      · exact congrArg (· + 1) hcounted
      · exact hdraining.delivers.2 hsent
    emptied := fun _ => rfl
    drained := fun _ => rfl
    waiting := fun hp => by cases hp
    armed := fun deadline hd => by cases hd
    arming := fun _ => rfl
    waitedPast := fun since hs => by cases hs
    diedPast := fun cause died hm =>
      h.diedPast cause died ((List.mem_cons.1 hm).resolve_left fun heq => by cases heq)
    dying := fun hd hopen => by
      obtain ⟨cause, died, hm, hc⟩ := h.dying hd hopen
      exact ⟨cause, died, List.mem_cons_of_mem _ hm, hc⟩
    dropped := fun _ => ⟨s.now, List.mem_cons_self⟩ }

/-- The receiver has room for the pending line. -/
theorem Sound.sendLine {line : Line} (h : Sound s) (hline : s.pendingEvent = some line)
    (hkeeping : s.dropOutput = false) :
    Sound ({ s with pendingEvent := none, dropPendingAt := none }.send line.event) := by
  have hdraining := h.draining (hline ▸ rfl)
  exact { h with
    lawful := by
      refine ⟨?_, h.lawful⟩
      cases line <;> trivial
    finishes := h.finishes.congr rfl rfl rfl
    account := fun hopen => by
      obtain ⟨delivered, missed, ha⟩ := h.account hopen
      have hlines := ha.lines
      have hcounted := ha.counted
      rw [ha.keeping hkeeping] at hlines hcounted
      rw [hline] at hlines
      refine ⟨delivered ++ [line], [], ?_, hcounted, fun _ => rfl, fun _ => rfl, ?_⟩
      · exact hlines.trans (by simp [State.send, State.record])
      · refine hdraining.delivers.2 ?_
        change sent s.log ++ [line.event] = _
        rw [hdraining.delivers.1 ha.delivers, List.map_append, List.map_singleton]
    emptied := fun _ => rfl
    drained := fun _ => rfl
    waiting := fun hp => by cases hp
    armed := fun deadline hd => by cases hd
    arming := fun _ => rfl
    waitedPast := fun since hs => by cases hs
    diedPast := fun cause died hm =>
      h.diedPast cause died ((List.mem_cons.1 hm).resolve_left fun heq => by cases heq)
    dying := fun hd hopen => by
      obtain ⟨cause, died, hm, hc⟩ := h.dying hd hopen
      exact ⟨cause, died, List.mem_cons_of_mem _ hm, hc⟩
    dropped := fun hd => (h.dropped hd).imp fun _ hm => List.mem_cons_of_mem _ hm }

/-- The stream gives a line. -/
theorem Sound.take {line : Line} (h : Sound s) (hpending : s.pendingEvent = none)
    (hstage : s.pc.stage = .draining) : Sound (s.take line) := by
  have hdraining : s.pc.stage.Draining := hstage ▸ trivial
  have hunarmed := h.arming hpending
  by_cases hdrops : s.dropOutput = true
  · -- An earlier line was dropped already, so this one is too.
    have htake : s.take line = { s.record (.line line) with
        droppedOutputEvents := s.droppedOutputEvents + 1 }.record (.dropped s.now) := if_pos hdrops
    rw [htake]
    exact { h with
      lawful := by
        obtain ⟨time, hm⟩ := h.dropped hdrops
        exact ⟨.inr ⟨time, List.mem_cons_of_mem _ hm⟩, trivial, h.lawful⟩
      finishes := h.finishes.congr rfl rfl rfl
      account := fun hopen => by
        obtain ⟨delivered, missed, ha⟩ := h.account hopen
        have hsent := hdraining.delivers.1 ha.delivers
        refine ⟨delivered, missed ++ [line], ?_, ?_, fun hkeeping => ?_, fun _ => hpending, ?_⟩
        · change lines s.log ++ [line] = _
          rw [ha.lines, List.append_assoc]
          rfl
        · rw [List.length_append, ha.counted]
          rfl
        · cases hdrops.symm.trans hkeeping
        · exact hdraining.delivers.2 hsent
      armed := fun deadline hd => by cases hunarmed.symm.trans hd
      waiting := fun hp => by cases hpending ▸ hp
      waitedPast := fun since hs => by cases hs
      diedPast := fun cause died hm => h.diedPast cause died (by simpa [State.record] using hm)
      dying := fun hd hopen => by
        obtain ⟨cause, died, hm, hc⟩ := h.dying hd hopen
        exact ⟨cause, died, List.mem_cons_of_mem _ (List.mem_cons_of_mem _ hm), hc⟩
      dropped := fun _ => ⟨s.now, List.mem_cons_self⟩ }
  by_cases hopen : s.eventsOpen = true
  · have htake : s.take line = { s.record (.line line) with
        pendingEvent := some line
        dropPendingAt := if s.dying then some (s.now + dyingEventStall) else s.dropPendingAt }.record
          (.waiting s.now) := (if_neg hdrops).trans (if_pos hopen)
    rw [htake]
    exact { h with
      lawful := ⟨trivial, trivial, h.lawful⟩
      finishes := h.finishes.congr rfl rfl rfl
      account := fun hopen => by
        obtain ⟨delivered, missed, ha⟩ := h.account hopen
        have hsent := hdraining.delivers.1 ha.delivers
        have hnone := ha.keeping (by simpa using hdrops)
        have hlines := ha.lines
        refine ⟨delivered, missed, ?_, ha.counted, ha.keeping, fun hd => absurd hd hdrops, ?_⟩
        · change lines s.log ++ [line] = delivered ++ [line] ++ missed
          rw [hlines, hnone, hpending]
          simp
        · exact hdraining.delivers.2 hsent
      emptied := fun hclosed => by cases hopen.symm.trans hclosed
      drained := fun hdrained => absurd hdraining hdrained
      waiting := fun _ => ⟨s.now, rfl⟩
      armed := fun deadline hd => by
        by_cases hdying : s.dying = true
        · obtain ⟨cause, died, hm, hcause⟩ := h.dying hdying hopen
          have hpast := h.diedPast cause died hm
          have hdeadline : s.now + dyingEventStall = deadline :=
            Option.some.inj ((if_pos hdying).symm.trans hd)
          refine ⟨s.now, cause, died, rfl, List.mem_cons_of_mem _ (List.mem_cons_of_mem _ hm), hcause,
            hdeadline.le, ?_⟩
          exact (Nat.add_le_add_right hpast _).trans hdeadline.le
        · cases hunarmed.symm.trans ((if_neg hdying).symm.trans hd)
      arming := fun hp => by cases hp
      waitedPast := fun since hs => by
        cases hs
        exact Nat.le_refl _
      diedPast := fun cause died hm => h.diedPast cause died (by simpa [State.record] using hm)
      dying := fun hd hopen => by
        obtain ⟨cause, died, hm, hc⟩ := h.dying hd hopen
        exact ⟨cause, died, List.mem_cons_of_mem _ (List.mem_cons_of_mem _ hm), hc⟩
      dropped := fun hd => absurd hd hdrops }
  · have htake : s.take line = s.record (.line line) := (if_neg hdrops).trans (if_neg hopen)
    rw [htake]
    exact { h with
      lawful := ⟨trivial, h.lawful⟩
      finishes := h.finishes.congr rfl rfl rfl
      account := fun hopen' => absurd hopen' hopen
      armed := fun deadline hd => by cases hunarmed.symm.trans hd
      diedPast := fun cause died hm =>
        h.diedPast cause died ((List.mem_cons.1 hm).resolve_left fun heq => by cases heq)
      dying := fun _ hopen' => absurd hopen' hopen
      dropped := fun hd => absurd hd hdrops }

@[simp] theorem take_pc {line : Line} : (s.take line).pc = s.pc := by
  simp only [State.take]
  split
  · rfl
  · split <;> rfl

/-! ## From stage to stage -/

/-- A step to another stage, with an entry that is about no line. -/
theorem Sound.enter {entry : Entry} {pc : Pc} (h : Sound s) (hlawful : Allowed s.log entry)
    (hlines : lines (entry :: s.log) = lines s.log)
    (hwaiting : waitingSince (entry :: s.log) = waitingSince s.log)
    (hentry : ∀ cause died, entry ≠ .dying cause died)
    (hfinishes : pc.stage.Finishes ((s.record entry).goto pc))
    (hdelivers : ∀ delivered missed, s.pc.stage.Delivers s delivered missed →
      pc.stage.Delivers ((s.record entry).goto pc) delivered missed)
    (hdrained : ¬ pc.stage.Draining → s.pendingEvent = none) (hdone : pc ≠ .done)
    (hkilled : pc ≠ .killed .draining) (hpolls : ∀ phase arms, pc ≠ .polling phase arms) :
    Sound ((s.record entry).goto pc) :=
  { h with
    lawful := ⟨hlawful, h.lawful⟩
    finishes := hfinishes
    account := fun hopen => by
      obtain ⟨delivered, missed, ha⟩ := h.account hopen
      exact ⟨delivered, missed, hlines.trans ha.lines, ha.counted, ha.keeping, ha.dropping,
        hdelivers delivered missed ha.delivers⟩
    drained := hdrained
    concluded := fun hp => absurd hp hdone
    killed := fun hp => absurd hp hkilled
    dying := fun hd hopen => by
      obtain ⟨cause, died, hm, hc⟩ := h.dying hd hopen
      exact ⟨cause, died, List.mem_cons_of_mem _ hm, hc⟩
    waiting := fun hp => (h.waiting hp).imp fun _ hs => hwaiting.trans hs
    armed := fun deadline hd => (h.armed deadline hd).cons hwaiting
    waitedPast := fun since hs => h.waitedPast since (hwaiting.symm.trans hs)
    diedPast := fun cause died hm =>
      h.diedPast cause died ((List.mem_cons.1 hm).resolve_left fun heq => hentry _ _ heq.symm)
    dropped := fun hd => (h.dropped hd).imp fun _ hm => List.mem_cons_of_mem _ hm
    polls := fun _ _ hp => absurd hp (hpolls _ _) }

/-- The stream has ended. -/
theorem Sound.ended (h : Sound s) (hpending : s.pendingEvent = none)
    (hstage : s.pc.stage = .draining) :
    Sound ((s.record .ended).goto (s.finishOutput.elim (.top .finishing) .cleaning)) := by
  have hfinishes := h.finishes
  rw [hstage] at hfinishes
  obtain ⟨hout, hnone, hunset⟩ | ⟨out, hout, hreaped⟩ := hfinishes
  · rw [hout]
    refine h.enter trivial rfl rfl (by simp) ⟨hnone, hunset⟩ ?_ (fun _ => hpending) (by simp)
      (by simp) (by simp)
    intro delivered missed hd
    rw [hstage] at hd
    exact ⟨hd, List.mem_cons_self⟩
  · rw [hout]
    change Sound ((s.record .ended).goto (.cleaning out))
    refine h.enter trivial rfl rfl (by simp) hreaped ?_ (fun _ => hpending)
      (by simp) (by simp) (by simp)
    intro delivered missed hd
    rw [hstage] at hd
    exact ⟨hd, List.mem_cons_self⟩

/-- The process is reaped. -/
theorem Sound.finish {result : Except Text Finished} (h : Sound s)
    (hstage : s.pc.stage = phase.stage) (hphase : phase ≠ .flushing)
    (hunfinished : phase = .draining → s.finishOutput = none) :
    Sound ((s.record (.finished result)).goto (.reaped phase (normalizeFinish result))) := by
  have hfinishes := h.finishes
  rw [hstage] at hfinishes
  have hnone : Engine.finishes s.log = [] ∧ terminations s.log = [] := by
    cases phase with
    | draining =>
      obtain ⟨-, hnone⟩ | ⟨out, hout, -⟩ := hfinishes
      · exact hnone
      · rw [hunfinished rfl] at hout
        cases hout
    | finishing => exact hfinishes
    | flushing => exact absurd rfl hphase
  refine h.enter trivial rfl rfl (by simp)
    ⟨result, rfl, congrArg (result :: ·) hnone.1, hnone.2⟩ ?_ ?_ (by simp) (by simp)
    (by simp)
  · intro delivered missed hd
    rw [hstage] at hd
    cases phase with
    | draining => exact hd
    | finishing => exact ⟨hd.1, List.mem_cons_of_mem _ hd.2⟩
    | flushing => exact absurd rfl hphase
  · intro hdrained
    apply h.drained
    rw [hstage]
    cases phase with
    | draining => exact absurd trivial hdrained
    | finishing => exact id
    | flushing => exact absurd rfl hphase

/-- The watch is set while the stream is still read. -/
theorem Sound.terminate {out : FinishOutput} (h : Sound s) (hpc : s.pc = .reaped .draining out) :
    Sound ({ s.setTerminated out with finishOutput := some out }.goto (.top .draining)) := by
  have hfinishes := h.finishes
  rw [hpc] at hfinishes
  obtain ⟨result, hout, hresult, hunset⟩ := hfinishes
  have hreaped : Reaped (s.setTerminated out).log out :=
    ⟨result, hout, hresult, congrArg (out.watch :: ·) hunset⟩
  exact { h with
    lawful := ⟨trivial, h.lawful⟩
    finishes := .inr ⟨out, rfl, hreaped⟩
    account := fun hopen => by
      obtain ⟨delivered, missed, ha⟩ := h.account hopen
      have hd := ha.delivers
      rw [hpc] at hd
      exact ⟨delivered, missed, ha.lines, ha.counted, ha.keeping, ha.dropping, hd⟩
    drained := fun hdrained => absurd trivial hdrained
    concluded := fun hp => by cases hp
    killed := fun hp => by cases hp
    dying := fun hd hopen => by
      obtain ⟨cause, died, hm, hc⟩ := h.dying hd hopen
      exact ⟨cause, died, List.mem_cons_of_mem _ hm, hc⟩
    armed := fun deadline hd => (h.armed deadline hd).cons rfl
    diedPast := fun cause died hm =>
      h.diedPast cause died ((List.mem_cons.1 hm).resolve_left fun heq => by cases heq)
    dropped := fun hd => (h.dropped hd).imp fun _ hm => List.mem_cons_of_mem _ hm
    polls := fun _ _ hp => by cases hp }

/-- The watch is set after the stream was read. -/
theorem Sound.clean {out : FinishOutput} (h : Sound s) (hpc : s.pc = .reaped phase out)
    (hphase : phase ≠ .draining) : Sound ((s.setTerminated out).goto (.cleaning out)) := by
  have hfinishes := h.finishes
  rw [hpc] at hfinishes
  obtain ⟨result, hout, hresult, hunset⟩ := hfinishes
  refine h.enter trivial rfl rfl (by simp) ⟨result, hout, hresult,
    congrArg (out.watch :: ·) hunset⟩ ?_ (fun _ => h.drained ?_) (by simp) (by simp) (by simp)
  · intro delivered missed hd
    rw [hpc] at hd
    cases phase with
    | draining => exact absurd rfl hphase
    | finishing | flushing => exact ⟨hd.1, List.mem_cons_of_mem _ hd.2⟩
  · rw [hpc]
    cases phase with
    | draining => exact absurd rfl hphase
    | finishing | flushing => exact id

/-- The terminal events are queued behind the lines. -/
theorem Sound.flush {out : FinishOutput} (h : Sound s) (hpc : s.pc = .cleaning out) :
    Sound ({ s with
      terminalEvents := out.events s.droppedOutputEvents
      flushDeadline := some (s.now + dyingEventStall) }.goto (.top .flushing)) := by
  have hreaped := h.finishes
  have hdrained := h.drained
  rw [hpc] at hreaped hdrained
  exact { h with
    finishes := ⟨out, hreaped⟩
    account := fun hopen => by
      obtain ⟨delivered, missed, ha⟩ := h.account hopen
      have hd := ha.delivers
      rw [hpc] at hd
      refine ⟨delivered, missed, ha.lines, ha.counted, ha.keeping, ha.dropping, out, hreaped,
        hd.2, ?_⟩
      change sent s.log ++ out.events s.droppedOutputEvents = _
      rw [hd.1, ha.counted]
    drained := fun _ => hdrained id
    concluded := fun hp => by cases hp
    killed := fun hp => by cases hp
    polls := fun _ _ hp => by cases hp }

/-- The receiver has room for the next terminal event. -/
theorem Sound.sendTerminal {event : ProcessEvent} {events : List ProcessEvent} (h : Sound s)
    (hstage : s.pc.stage = .flushing) (hevents : s.terminalEvents = event :: events)
    (hundone : s.pc ≠ .done) :
    Sound ({ s with
      terminalEvents := events
      flushDeadline := some (s.now + dyingEventStall) }.send event) := by
  have hpending : s.pendingEvent = none := h.drained (by rw [hstage]; exact id)
  have hunarmed := h.arming hpending
  have hfinishes := h.finishes
  rw [hstage] at hfinishes
  obtain ⟨out, hreaped⟩ := hfinishes
  exact { h with
    lawful := by
      refine ⟨?_, h.lawful⟩
      obtain ⟨_, -, -, hset⟩ := hreaped
      cases event with
      | terminated _ =>
        change terminations s.log ≠ []
        rw [hset]
        simp
      | _ => trivial
    finishes := by
      change s.pc.stage.Finishes _
      rw [hstage]
      exact ⟨out, hreaped⟩
    account := fun hopen => by
      obtain ⟨delivered, missed, ha⟩ := h.account hopen
      refine ⟨delivered, missed, ha.lines, ha.counted, ha.keeping, ha.dropping, ?_⟩
      have hd := ha.delivers
      change s.pc.stage.Delivers _ _ _
      rw [hstage] at hd ⊢
      obtain ⟨out, hreaped, hended, heq⟩ := hd
      refine ⟨out, hreaped, List.mem_cons_of_mem _ hended, ?_⟩
      change sent s.log ++ [event] ++ events = _
      rw [← heq, hevents, List.append_assoc]
      rfl
    concluded := fun hp => absurd hp hundone
    dying := fun hd hopen => by
      obtain ⟨cause, died, hm, hc⟩ := h.dying hd hopen
      exact ⟨cause, died, List.mem_cons_of_mem _ hm, hc⟩
    waiting := fun hp => by cases hpending ▸ hp
    armed := fun deadline hd => by cases hunarmed.symm.trans hd
    waitedPast := fun since hs => by cases hs
    diedPast := fun cause died hm =>
      h.diedPast cause died ((List.mem_cons.1 hm).resolve_left fun heq => by cases heq)
    dropped := fun hd => (h.dropped hd).imp fun _ hm => List.mem_cons_of_mem _ hm }

/-! ## The steps of the machine -/

theorem Sound.top (h : Sound s) (hstage : s.pc.stage = phase.stage) : Sound (s.goto (.top phase)) :=
  h.goto hstage.symm (by simp) (by simp) (by simp)

theorem Sound.killing (h : Sound s) (hstage : s.pc.stage = phase.stage)
    (hdying : phase = .draining → s.dying = true) : Sound (s.goto (.killed phase)) :=
  h.goto hstage.symm (by simp) (fun hp => hdying (by simpa using hp)) (by simp)

theorem Sound.poll {arm : Arm} {arms : List Arm} (h : Sound s)
    (hpc : s.pc = .polling phase (arm :: arms)) (hs : s.poll setup answers phase arm = some t) :
    Sound t := by
  have hstage : s.pc.stage = phase.stage := by rw [hpc]; rfl
  have harm : arm ∈ phase.arms := h.polls _ _ hpc _ List.mem_cons_self
  have hdrained : phase ≠ .draining → s.pendingEvent = none := by
    intro hphase
    apply h.drained
    rw [hstage]
    cases phase with
    | draining => exact absurd rfl hphase
    | finishing | flushing => exact id
  cases arm with
  | ctrl =>
    simp only [State.poll] at hs
    split at hs
    · split at hs
      · rename_i ctrl queue hqueue
        cases hs
        have hquiet : Quiet s ({ s with ctrlQueue := queue }.handleCtrl setup answers ctrl).1 :=
          (quiet_with ..).trans quiet_handleCtrl
        have hu := h.of_quiet hquiet
        split
        · refine Sound.top ((hu.die fun _ => by simp).armDrop rfl) ?_
          rw [armDrop_pc]
          exact hquiet.stage.trans hstage
        · exact hu.top (hquiet.stage.trans hstage)
      · split at hs
        · cases hs
        · cases hs
          exact (h.of_quiet (quiet_with ..)).top hstage
    · cases hs
  | hardKill =>
    simp only [State.poll] at hs
    split at hs
    · cases hs
      have hu : Sound { s with hardKillAt := none } := h.of_quiet (quiet_with ..)
      split
      · exact Sound.killing ((hu.die fun _ => by simp).of_quiet quiet_killAll) hstage fun _ => rfl
      · rename_i hphase
        exact (hu.of_quiet quiet_killAll).killing hstage fun hd => absurd hd hphase
    · cases hs
  | finish =>
    simp only [State.poll] at hs
    split at hs
    · cases hs
    · rename_i hguard
      split at hs
      · cases hs
        refine h.finish hstage ?_ ?_
        · rintro rfl
          simp [Phase.arms] at harm
        · rintro rfl
          simpa using hguard
      · cases hs
  | helper =>
    simp only [State.poll] at hs
    split at hs
    · split at hs
      · cases hs
      · cases hs
        exact h.top hstage
      · cases hs
        split
        · exact (h.of_quiet (quiet_with ..)).top hstage
        · exact (h.of_quiet ((quiet_with ..).trans quiet_killAll)).top hstage
    · cases hs
  | drop =>
    simp only [State.poll] at hs
    split at hs
    · rename_i hguard
      cases hs
      simp only [Bool.and_eq_true, Bool.not_eq_true'] at hguard
      obtain ⟨⟨⟨-, hkeeping⟩, hpending⟩, hoverdue⟩ := hguard
      exact (h.drop hkeeping hpending hoverdue).top hstage
    · cases hs
  | reserve =>
    cases phase with
    | flushing =>
      simp only [State.poll] at hs
      split at hs
      · cases hs
      · rename_i event events hevents
        split at hs
        · rename_i hgone
          cases hs
          exact (h.shut (hdrained (by simp)) (.inl (by simpa using hgone))).top hstage
        · split at hs
          · cases hs
            exact (h.sendTerminal hstage hevents (by simp [hpc])).top hstage
          · cases hs
    | draining | finishing =>
      simp only [State.poll] at hs
      split at hs
      · cases hs
      · rename_i line hline
        split at hs
        · rename_i hguard
          simp only [Bool.and_eq_true, Bool.not_eq_true'] at hguard
          split at hs
          · rename_i hgone
            cases hs
            exact (h.close (by simpa using hgone)).top hstage
          · split at hs
            · cases hs
              exact (h.sendLine hline hguard.2).top hstage
            · cases hs
        · cases hs
  | closed =>
    simp only [State.poll] at hs
    split at hs
    · rename_i hguard
      cases hs
      simp only [Bool.and_eq_true, Bool.not_eq_true'] at hguard
      split
      · exact (h.close hguard.2).top hstage
      · rename_i hphase
        exact (h.shut (hdrained hphase) (.inl hguard.2)).top hstage
    · cases hs
  | next =>
    have hphase : phase = .draining := by
      cases phase with
      | draining => rfl
      | finishing | flushing => simp [Phase.arms] at harm
    subst hphase
    simp only [State.poll] at hs
    split at hs
    · cases hs
    · rename_i hnone
      have hpending : s.pendingEvent = none := by simpa using hnone
      split at hs
      · cases hs
      · cases hs
        refine (h.take hpending hstage).top ?_
        rw [take_pc]
        exact hstage
      · cases hs
        refine (h.take hpending hstage).top ?_
        rw [take_pc]
        exact hstage
      · cases hs
        exact h.top hstage
      · cases hs
        exact h.ended hpending hstage
  | flushDeadline =>
    simp only [State.poll] at hs
    split at hs
    · cases hs
      refine (h.shut (hdrained ?_) (.inr rfl)).top hstage
      rintro rfl
      simp [Phase.arms] at harm
    · cases hs

/-- Each step of the pump keeps what it knows. -/
theorem Sound.advance (h : Sound s) (hs : s.advance setup answers = some t) : Sound t := by
  cases hpc : s.pc with
  | top phase =>
    have hstage : s.pc.stage = phase.stage := by rw [hpc]; rfl
    by_cases hphase : phase = .flushing
    · subst hphase
      simp only [State.advance, hpc] at hs
      cases hs
      split
      · exact h.goto hstage.symm (by simp) (by simp) (by simp)
      · rename_i hover
        refine h.goto hstage.symm (fun _ hopen => ?_) (by simp) (by simp)
        simpa [hopen] using hover
    · have ht : t = (s.abandon phase).goto (.polling phase phase.arms) := by
        cases phase with
        | flushing => exact absurd rfl hphase
        | draining | finishing =>
          simp only [State.advance, hpc] at hs
          exact (Option.some.inj hs).symm
      rw [ht]
      refine (h.abandon).goto ?_ (by simp) (by simp) (by simp)
      rw [abandon_pc]
      exact hstage.symm
  | polling phase arms =>
    have hstage : s.pc.stage = phase.stage := by rw [hpc]; rfl
    cases arms with
    | nil =>
      simp only [State.advance, hpc] at hs
      cases hs
      exact h.goto hstage.symm (by simp) (by simp) (by simp)
    | cons arm arms =>
      simp only [State.advance, hpc, Option.some.injEq] at hs
      cases hpoll : s.poll setup answers phase arm with
      | some u =>
        rw [hpoll] at hs
        cases hs
        exact h.poll hpc hpoll
      | none =>
        rw [hpoll] at hs
        cases hs
        refine h.goto hstage.symm (by simp) (by simp) ?_
        rintro _ _ hp arm' harm'
        cases hp
        exact h.polls _ _ hpc _ (List.mem_cons_of_mem _ harm')
  | killed phase =>
    have hstage : s.pc.stage = phase.stage := by rw [hpc]; rfl
    obtain ⟨u, hquiet, rfl⟩ : ∃ u, Quiet s u ∧
        t = (if phase = .draining then u.armDrop else u).goto (.top phase) := by
      refine ⟨if setup.windows then { s with shutdownHelper := false } else s, ?_, ?_⟩
      · split <;> exact quiet_with ..
      · simp only [State.advance, hpc] at hs ⊢
        exact (Option.some.inj hs).symm
    have hu := h.of_quiet hquiet
    split
    · rename_i hphase
      refine (hu.armDrop ?_).top ?_
      · rw [hquiet.dying]
        exact h.killed (hphase ▸ hpc)
      · rw [armDrop_pc]
        exact hquiet.stage.trans hstage
    · exact hu.top (hquiet.stage.trans hstage)
  | reaped phase out =>
    obtain ⟨u, hquiet, ht⟩ : ∃ u, Quiet s u ∧ some t =
        if phase = .draining then
          some ({ (u.die .finished).armDrop.setTerminated out with finishOutput := some out }.goto
            (.top phase))
        else some ((u.setTerminated out).goto (.cleaning out)) := by
      refine ⟨if setup.windows then { s with shutdownHelper := false, shutdown := none } else s,
        ?_, ?_⟩
      · split <;> exact quiet_with ..
      · simp only [State.advance, hpc] at hs ⊢
        exact hs.symm
    have hu := h.of_quiet hquiet
    have hupc := hquiet.pc.trans hpc
    split at ht
    · rename_i hphase
      subst hphase
      cases ht
      refine ((hu.die (by simp)).armDrop rfl).terminate ?_
      rw [armDrop_pc]
      exact hupc
    · rename_i hphase
      cases ht
      exact hu.clean hupc hphase
  | cleaning out =>
    simp only [State.advance, hpc] at hs
    cases hs
    exact h.flush hpc
  | done => simp [State.advance, hpc] at hs

theorem Sound.step {label : Label} (h : Sound s) (hs : s.step setup label = some t) : Sound t := by
  cases label with
  | pump answers => exact h.advance hs
  | request ctrl =>
    simp only [State.step] at hs
    split at hs
    · cases hs
      exact h.of_quiet (quiet_with ..)
    · cases hs
  | dropHandles =>
    cases hs
    exact h.of_quiet (quiet_with ..)
  | receive =>
    simp only [State.step] at hs
    split at hs
    · cases hs
      exact h.of_quiet (quiet_with ..)
    · cases hs
  | dropReceiver =>
    cases hs
    exact h.of_quiet ⟨rfl, rfl, rfl, rfl, rfl, rfl, rfl, rfl, rfl, Nat.le_refl _, fun _ => rfl, rfl,
      [], rfl, by simp⟩
  | tick duration =>
    cases hs
    exact h.of_quiet ⟨rfl, rfl, rfl, rfl, rfl, rfl, rfl, rfl, rfl, Nat.le_add_right .., id, rfl,
      [], rfl, by simp⟩

theorem Stage.Delivers.sent {stage : Stage} (h : stage.Delivers s delivered missed)
    (hstage : stage ≠ .flushing) : Engine.sent s.log = delivered.map Line.event := by
  cases stage with
  | draining => exact h
  | finishing | cleaning _ => exact h.1
  | reaped phase _ =>
    cases phase with
    | draining => exact h
    | finishing | flushing => exact h.1
  | flushing => exact absurd rfl hstage

theorem Reaped.once {log : List Entry} {out : FinishOutput} (h : Reaped log out) :
    (terminations log).length ≤ 1 := by
  obtain ⟨_, -, -, hset⟩ := h
  rw [hset]
  exact Nat.le_refl _

theorem Stage.Finishes.atMostOnce {stage : Stage} (h : stage.Finishes s) :
    (terminations s.log).length ≤ 1 := by
  have hnone : terminations s.log = [] → (terminations s.log).length ≤ 1 := fun hunset => by
    rw [hunset]
    exact Nat.zero_le _
  cases stage with
  | draining =>
    obtain ⟨-, -, hunset⟩ | ⟨out, -, hreaped⟩ := h
    · exact hnone hunset
    · exact hreaped.once
  | finishing => exact hnone h.2
  | reaped _ _ =>
    obtain ⟨_, -, -, hunset⟩ := h
    exact hnone hunset
  | cleaning out => exact Reaped.once h
  | flushing =>
    obtain ⟨out, hreaped⟩ := h
    exact hreaped.once

section Runs

variable {timeoutAt : Option Instant} {shutdown : Bool} {now : Instant}

theorem sound (hr : (pump setup timeoutAt shutdown now).Reachable s) : Sound s := by
  refine hr.invariant ?_ fun s label t h _ hs => h.step hs
  exact {
    lawful := trivial
    finishes := .inl ⟨rfl, rfl, rfl⟩
    account := fun _ => ⟨[], [], rfl, rfl, fun _ => rfl, fun hd => (by cases hd), rfl⟩
    closed := fun hclosed => by cases hclosed
    emptied := fun _ => rfl
    drained := fun _ => rfl
    concluded := fun hp => by cases hp
    killed := fun hp => by cases hp
    dying := fun hd => by cases hd
    waiting := fun hp => by cases hp
    armed := fun deadline hd => by cases hd
    arming := fun _ => rfl
    waitedPast := fun since hs => by cases hs
    diedPast := fun cause died hm => by cases hm
    dropped := fun hd => by cases hd
    polls := fun phase arms hp => by cases hp }

/-- While the receiver is there and the terminal events are taken in time, every line of
the stream is delivered, pending or counted, in its order; the process is finished and the
watch set at most once; and what follows the lines is the captured stderr, the number of
lines that were dropped if there are any, the error of `finish` if there is one, and one
`Terminated`, after the watch is set. -/
theorem pump_loses_nothing (hr : (pump setup timeoutAt shutdown now).Reachable s)
    (hreceiver : s.receiver = true) (hstalled : s.stalled = false) :
    Lawful s.log ∧ ∃ delivered missed,
      lines s.log = delivered ++ s.pendingEvent.toList ++ missed ∧
      missed.length = s.droppedOutputEvents ∧
      (s.pc.stage ≠ .flushing → sent s.log = delivered.map Line.event ∧
        (terminations s.log).length ≤ 1) ∧
      (s.pc.stage = .flushing → s.pendingEvent = none ∧ .ended ∈ s.log ∧ ∃ result,
        finishes s.log = [result] ∧ terminations s.log = [(normalizeFinish result).watch] ∧
        sent s.log ++ s.terminalEvents =
          delivered.map Line.event ++ (normalizeFinish result).events missed.length) ∧
      (s.pc = .done → s.terminalEvents = []) := by
  have h := sound hr
  have hopen : s.eventsOpen = true := by
    by_contra hclosed
    obtain hgone | hstall := h.closed (by simpa using hclosed)
    · cases hreceiver.symm.trans hgone
    · cases hstall.symm.trans hstalled
  obtain ⟨delivered, missed, ha⟩ := h.account hopen
  refine ⟨h.lawful, delivered, missed, ha.lines, ha.counted, fun hstage => ⟨?_, ?_⟩,
    fun hstage => ?_, fun hdone => h.concluded hdone hopen⟩
  · exact ha.delivers.sent hstage
  · exact h.finishes.atMostOnce
  · have hd := ha.delivers
    have hdrained := h.drained
    rw [hstage] at hd hdrained
    obtain ⟨out, ⟨result, rfl, hfinished, hset⟩, hended, heq⟩ := hd
    exact ⟨hdrained id, hended, result, hfinished, hset, heq⟩

/-- What the surroundings answer while nothing is ready. -/
def nothingReady : Answers := ⟨.ok (), true, true, true, none, none, none⟩

/-- A receiver with room for one event takes none while the process is killed. -/
def stuckReceiver : List Label :=
  let line := Label.pump { nothingReady with next := some (some (.stdout [])) }
  let polls := fun count => List.replicate count (Label.pump nothingReady)
  let finish := Label.pump { nothingReady with finish := some (.ok ⟨⟨none, some 9⟩, []⟩) }
  let ended := Label.pump { nothingReady with next := some none }
  List.replicate 9 line ++ polls 7 ++ List.replicate 9 line ++ [.request .kill] ++ polls 2 ++
    [.tick dyingEventStall] ++ polls 6 ++ List.replicate 4 finish ++ polls 1 ++
    List.replicate 9 ended ++ polls 1 ++ [.receive] ++ polls 5 ++ [.receive] ++ polls 6

def stuckPump : Machine State Label := pump ⟨false, 0, 1, false⟩ none false 0

theorem stuck_is_done : (stuckPump.run stuckPump.init stuckReceiver).any (fun s =>
    decide (s.pc = .done) && s.receiver && !s.stalled && decide (s.droppedOutputEvents = 1)) =
      true := by
  decide +kernel

/-- The line that was dropped is counted behind the one that was delivered. -/
theorem stuck_counts_one : ∃ s delivered missed, stuckPump.Reachable s ∧ s.pc = .done ∧
    missed.length = 1 ∧ lines s.log = delivered ++ missed ∧ ∃ result, sent s.log =
      delivered.map Line.event ++ (normalizeFinish result).events missed.length := by
  obtain ⟨s, hs, ho⟩ := (Option.any_eq_true _ _).1 stuck_is_done
  simp only [Bool.and_eq_true, Bool.not_eq_true', decide_eq_true_eq] at ho
  obtain ⟨⟨⟨hdone, hreceiver⟩, hstalled⟩, hdropped⟩ := ho
  have hreach := Machine.run_reachable .init hs
  obtain ⟨-, delivered, missed, hlines, hcounted, -, hflushing, hempty⟩ :=
    pump_loses_nothing hreach hreceiver hstalled
  obtain ⟨hpending, -, result, -, -, hsent⟩ := hflushing (by rw [hdone]; rfl)
  rw [hempty hdone, List.append_nil] at hsent
  rw [hpending] at hlines
  exact ⟨s, delivered, missed, hreach, hdone, hcounted.trans hdropped, by simpa using hlines,
    result, hsent⟩

end Runs

end Chimera.Engine
