import Chimera.Log.Conserved
import Mathlib.Data.List.Chain

/-! The dates of clash-premium, which prints a time of day only. The parser carries a date
from line to line and moves it on when the time of day falls back by more than half a day,
so it dates a run correctly exactly when no gap hides a day. -/

namespace Chimera.Log
open Chimera.Model Chimera.Lib.Utf8

/-- A line of a core, and the local instant at which the core printed it, in nanoseconds
since the local epoch. -/
structure PremiumLine where
  push : Push
  printedAt : Int

namespace PremiumLine

variable (line : PremiumLine)

/-- The printed instant, to the second. -/
def second : Int := line.printedAt / 10 ^ 9

def date : Int := line.second / 86400

/-- What the core prints of it. -/
def time : NaiveTime := ⟨(line.second % 86400).toNat, 0⟩

@[simp] theorem time_frac : line.time.frac = 0 := rfl

/-- The true time of the line. -/
def unixMs : Int := (line.second - line.push.observedAt.offset) * 1000

/-- When the line was observed, in nanoseconds since the local epoch. -/
def observed : Int :=
  (line.push.observedAt.secs + line.push.observedAt.offset) * 10 ^ 9 + line.push.observedAt.frac

/-- When it was observed, in nanoseconds since the epoch. -/
def observedUtc : Int := line.push.observedAt.secs * 10 ^ 9 + line.push.observedAt.frac

def observedDate : Int := (line.push.observedAt.secs + line.push.observedAt.offset) / 86400

/-- The line has a Premium header with the time of day it was printed at, no more than
twelve hours before it was observed, and the calendar has its days. -/
structure Printed (chrono : Chrono) : Prop where
  head : ∃ rawTime level body,
    premiumHead chrono (plainLine line.push.line) = some (rawTime, line.time, level, body)
  whole : line.push.observedAt.frac < 10 ^ 9
  before : line.printedAt ≤ line.observed
  recent : line.observed ≤ line.printedAt + twelveHours
  holdsDate : chrono.holds line.date = true
  holdsObserved : chrono.holds line.observedDate = true
  holdsDay : chrono.holds ((line.second - line.push.observedAt.offset) / 86400) = true

/-- A first line dated from its observation: printed on the same date, or less than twelve
hours before. -/
def Adopted : Prop := line.date = line.observedDate ∨ line.observed < line.second * 10 ^ 9 + twelveHours

/-- A line dated from the one before it: printed on the same date, or on the next one less
than twelve hours later. -/
def Rolled (previous line : PremiumLine) : Prop :=
  line.date = previous.date ∨
    line.date = previous.date + 1 ∧ line.second < previous.second + 12 * 3600

end PremiumLine

/-- The time that the parser reads into the record of a push. -/
def LogParser.stamp (chrono : Chrono) (p : LogParser) (push : Push) : Option Int :=
  match p.parseHeader chrono (plainLine push.line) push.observedAt with
  | .ok (some parsed, _) => parsed.timestamp.bind LogTimestamp.unixMs
  | _ => none

/-- The times of the lines, pushed one after another. -/
def LogParser.stamps (chrono : Chrono) : LogParser → List PremiumLine → List (Option Int)
  | _, [] => []
  | p, line :: rest => p.stamp chrono line.push ::
    (p.survive chrono line.push.call).1.stamps chrono rest

/-! ## One line -/

section Dates

variable {chrono : Chrono} {line previous : PremiumLine} {clock : Clock} {time : NaiveTime}
  {observedAt : Observed} {p : LogParser} {push : Push}

/-- The date that `premium_unix_ms` settles on. -/
def premiumDate (chrono : Chrono) (time : NaiveTime) (observedAt : Observed) (clock : Clock) :
    Checked (Option Int) :=
  match clock with
  | some (date, previous) =>
    if twelveHours < previous.since time then pure (chrono.day? (date + 1)) else pure (some date)
  | none => do
    let observed ← observedAt.dateNaive chrono
    if twelveHours < time.since observedAt.time then pure (chrono.day? (observed - 1))
    else pure (some observed)

/-- The time that a date gives, and the clock it leaves. -/
def premiumRead (chrono : Chrono) (time : NaiveTime) (observedAt : Observed) (clock : Clock) :
    Option Int → Option Int × Clock
  | none => (none, clock)
  | some date => (localUnixMs chrono date time observedAt.offset, some (date, time))

theorem premiumUnixMs_of_date {date : Option Int}
    (h : premiumDate chrono time observedAt clock = .ok date) :
    premiumUnixMs chrono time observedAt clock =
      .ok (premiumRead chrono time observedAt clock date) := by
  have hread (date : Option Int) : (match date with
      | none => pure (none, clock)
      | some date => pure (localUnixMs chrono date time observedAt.offset, some (date, time)) :
        Checked (Option Int × Clock)) = .ok (premiumRead chrono time observedAt clock date) := by
    cases date <;> rfl
  cases clock with
  | some previous =>
    simp only [premiumDate, premiumUnixMs] at h ⊢
    split
    · rename_i hfell
      rw [if_pos hfell] at h
      cases h
      exact hread (chrono.day? (previous.1 + 1))
    · rename_i hfell
      rw [if_neg hfell] at h
      cases h
      exact hread (some previous.1)
  | none =>
    simp only [premiumDate, premiumUnixMs] at h ⊢
    rcases hobserved : observedAt.dateNaive chrono with e | observed
    · rw [hobserved] at h
      cases h
    · simp only [hobserved, Checked.ok_bind] at h ⊢
      split
      · rename_i hlate
        rw [if_pos hlate] at h
        cases h
        exact hread (chrono.day? (observed - 1))
      · rename_i hlate
        rw [if_neg hlate] at h
        cases h
        exact hread (some observed)

theorem since_whole {a b : NaiveTime} (ha : a.frac < 10 ^ 9) (hb : b.frac < 10 ^ 9) :
    a.since b = ((a.secs : Int) - b.secs) * 10 ^ 9 + ((a.frac : Int) - b.frac) := by
  have hleapA : ¬10 ^ 9 ≤ a.frac := by omega
  have hleapB : ¬10 ^ 9 ≤ b.frac := by omega
  simp only [NaiveTime.since, hleapA, hleapB, and_false, if_false, add_zero]

/-- The true date is the only one that gives the true time. -/
theorem localUnixMs_eq (h : line.Printed chrono) (date : Int) :
    localUnixMs chrono date line.time line.push.observedAt.offset = some line.unixMs ↔
      date = line.date := by
  have hday := h.holdsDay
  have hsecond : line.date * 86400 + (line.time.secs : Int) = line.second := by
    simp only [PremiumLine.date, PremiumLine.time]
    omega
  have hfrac : line.time.frac / 10 ^ 6 = 0 := by simp [PremiumLine.time]
  simp only [localUnixMs, hfrac, PremiumLine.unixMs]
  constructor
  · intro heq
    split at heq
    · have hms := Option.some.inj heq
      simp only [PremiumLine.time] at hms hsecond
      omega
    · cases heq
  · rintro rfl
    have hsecs : line.date * 86400 + (line.time.secs : Int) - line.push.observedAt.offset =
        line.second - line.push.observedAt.offset := by omega
    rw [hsecs, Int.fdiv_eq_ediv_of_nonneg _ (by decide), if_pos hday]
    simp

/-- A first line takes the observed date, or the one before it. -/
theorem premiumDate_first (h : line.Printed chrono) :
    ∃ date, premiumDate chrono line.time line.push.observedAt none = .ok date ∧
      (date = some line.date ↔ line.Adopted) := by
  obtain ⟨-, hwhole, hbefore, hrecent, hdate, hobserved, -⟩ := h
  have hnaive : line.push.observedAt.dateNaive chrono = .ok line.observedDate := by
    simp only [Observed.dateNaive, Int.fdiv_eq_ediv_of_nonneg _ (show (0 : Int) ≤ 86400 by decide)]
    exact if_pos hobserved
  have hsince : line.time.since line.push.observedAt.time =
      (line.second % 86400 - (line.push.observedAt.secs + line.push.observedAt.offset) % 86400) *
        10 ^ 9 - line.push.observedAt.frac := by
    have hmod : (line.push.observedAt.secs + line.push.observedAt.offset).fmod 86400 =
        (line.push.observedAt.secs + line.push.observedAt.offset) % 86400 :=
      Int.fmod_eq_emod_of_nonneg _ (by decide)
    rw [since_whole (by simp) hwhole]
    simp only [PremiumLine.time, Observed.time, hmod]
    omega
  simp only [PremiumLine.observed, PremiumLine.date, PremiumLine.observedDate,
    PremiumLine.second, PremiumLine.Adopted, twelveHours] at *
  simp only [premiumDate, hnaive, Checked.ok_bind, hsince, twelveHours]
  split
  · rename_i hlate
    refine ⟨_, rfl, ?_⟩
    simp only [Chrono.day?, Option.ite_none_right_eq_some, Option.some.injEq]
    constructor
    · intro heq
      omega
    · intro hadopted
      have hprevious : (line.push.observedAt.secs + line.push.observedAt.offset) / 86400 - 1 =
          line.printedAt / 10 ^ 9 / 86400 := by omega
      rw [hprevious]
      exact ⟨hdate, rfl⟩
  · rename_i hsoon
    refine ⟨_, rfl, ?_⟩
    simp only [Option.some.injEq]
    constructor
    · intro heq
      omega
    · intro hadopted
      omega

/-- A later line keeps the date, or takes the next. -/
theorem premiumDate_next (h : line.Printed chrono) (hprevious : previous.Printed chrono)
    (horder : previous.observed ≤ line.observed) :
    ∃ date, premiumDate chrono line.time line.push.observedAt
        (some (previous.date, previous.time)) = .ok date ∧
      (date = some line.date ↔ previous.Rolled line) := by
  obtain ⟨-, -, hbefore, hrecent, hdate, -, -⟩ := h
  have hprinted := hprevious.before
  have hsince : previous.time.since line.time =
      (previous.second % 86400 - line.second % 86400) * 10 ^ 9 := by
    rw [since_whole (by simp) (by simp)]
    simp only [PremiumLine.time]
    omega
  -- no line was printed more than twelve hours before the one that precedes it
  have hback : previous.second ≤ line.second + 12 * 3600 := by
    simp only [PremiumLine.second, twelveHours] at *
    omega
  simp only [premiumDate, hsince, twelveHours]
  simp only [PremiumLine.date, PremiumLine.Rolled] at *
  split
  · rename_i hfell
    refine ⟨_, rfl, ?_⟩
    simp only [Chrono.day?, Option.ite_none_right_eq_some, Option.some.injEq]
    constructor
    · intro heq
      omega
    · intro hrolled
      have hnext : previous.second / 86400 + 1 = line.second / 86400 := by omega
      rw [hnext]
      exact ⟨hdate, rfl⟩
  · rename_i hheld
    refine ⟨_, rfl, ?_⟩
    simp only [Option.some.injEq]
    constructor
    · intro heq
      exact .inl heq.symm
    · intro hrolled
      omega

/-- The header sets the clock, and nothing else of a push does. -/
theorem survive_clock {parsed : ParsedLine} {clock : Clock} (hkind : p.kind = .clashPremium)
    (h : parsePremium chrono (plainLine push.line) push.observedAt p.premiumClock =
      .ok (some parsed, clock)) :
    (p.survive chrono push.call).1.kind = .clashPremium ∧
      (p.survive chrono push.call).1.premiumClock = clock := by
  obtain ⟨plain, hplain⟩ := stripAnsi_returns push.line
  have hline : plainLine push.line = plain := by rw [plainLine, hplain]
  rw [hline] at h
  have hemit (r : LogParser) (frame : LogFrame) (hold : Bool) :
      (r.emit push.stream frame hold).1.kind = r.kind ∧
        (r.emit push.stream frame hold).1.premiumClock = r.premiumClock := by
    cases hold <;> exact ⟨rfl, rfl⟩
  simp only [LogParser.survive, Push.call, LogParser.call, LogParser.pushAt, hplain,
    Checked.ok_bind, LogParser.parseHeader, hkind, h, boundFrame_eq, Checked.pure_eq]
  have hnext := hemit ⟨.clashPremium, p.epoch, clock, p.pending, p.newestPending⟩
  exact hnext _ _

/-- The stamp is the time of the record that the push opens. -/
theorem Opens.stamp {root : LogFrame} (h : Opens chrono p push root) :
    p.stamp chrono push = root.timestamp.bind LogTimestamp.unixMs := by
  cases h with
  | header hheader => simp only [LogParser.stamp, hheader]
  | plain hheader => simp only [LogParser.stamp, hheader, Option.bind_none]

/-- What a line with a known date leaves: its stamp, and the clock. -/
theorem stamp_of_date (h : line.Printed chrono) (hkind : p.kind = .clashPremium)
    {date : Option Int}
    (hdate : premiumDate chrono line.time line.push.observedAt p.premiumClock = .ok date) :
    (p.stamp chrono line.push = some line.unixMs ↔ date = some line.date) ∧
      (p.survive chrono line.push.call).1.kind = .clashPremium ∧
      (date = some line.date →
        (p.survive chrono line.push.call).1.premiumClock = some (line.date, line.time)) := by
  obtain ⟨rawTime, level, body, hhead⟩ := h.head
  have hparse := premiumUnixMs_of_date hdate
  have hpremium : parsePremium chrono (plainLine line.push.line) line.push.observedAt
      p.premiumClock = .ok (some ⟨some ⟨rawTime, (premiumRead chrono line.time
        line.push.observedAt p.premiumClock date).1, true⟩, level, (premiumTarget body).1,
        (premiumTarget body).2, []⟩,
        (premiumRead chrono line.time line.push.observedAt p.premiumClock date).2) := by
    simp only [parsePremium, hhead, hparse, Checked.ok_bind, Checked.pure_eq]
  obtain ⟨hkindNext, hclock⟩ := survive_clock hkind hpremium
  have hstamp : p.stamp chrono line.push = date.bind fun date =>
      localUnixMs chrono date line.time line.push.observedAt.offset := by
    simp only [LogParser.stamp, LogParser.parseHeader, hkind, hpremium, Checked.ok_bind,
      Checked.pure_eq, Option.bind_some]
    cases date <;> rfl
  refine ⟨?_, hkindNext, ?_⟩
  · rw [hstamp]
    cases date with
    | none => simp
    | some date => simpa using localUnixMs_eq h date
  · rintro rfl
    exact hclock

end Dates

/-! ## Runs -/

section Runs

variable {chrono : Chrono} {lines : List PremiumLine} {line previous : PremiumLine} {p : LogParser}

/-- The first line is dated from its observation, and every other one from the line
before it. -/
def Datable (lines : List PremiumLine) : Prop :=
  (∀ first ∈ lines.head?, first.Adopted) ∧ lines.IsChain PremiumLine.Rolled

theorem stamps_next (hkind : p.kind = .clashPremium)
    (hclock : p.premiumClock = some (previous.date, previous.time))
    (hprinted : ∀ line ∈ previous :: lines, line.Printed chrono)
    (horder : (previous :: lines).IsChain fun a b => a.observed ≤ b.observed) :
    p.stamps chrono lines = lines.map (fun line => some line.unixMs) ↔
      (previous :: lines).IsChain PremiumLine.Rolled := by
  induction lines generalizing p previous with
  | nil => simp [LogParser.stamps]
  | cons line rest ih =>
    obtain ⟨hle, horder⟩ := List.isChain_cons_cons.1 horder
    have hprevious := hprinted previous (by simp)
    have hline := hprinted line (by simp)
    obtain ⟨date, hdate, hiff⟩ := premiumDate_next hline hprevious hle
    rw [← hclock] at hdate
    obtain ⟨hstamp, hkindNext, hclockNext⟩ := stamp_of_date hline hkind hdate
    simp only [LogParser.stamps, List.map_cons, List.cons.injEq, List.isChain_cons_cons, hstamp, hiff]
    refine and_congr_right fun hrolled => ?_
    exact ih hkindNext (hclockNext (hiff.2 hrolled))
      (fun line hmem => hprinted line (List.mem_cons_of_mem _ hmem)) horder

end Runs

/-- Lines of Premium that were each observed within twelve hours, in the order of their
observation, are all dated with their true times exactly when every line after the first
is of the date of the line before it, or of the next date and less than twelve hours later. -/
theorem premium_dated_iff {chrono : Chrono} {lines : List PremiumLine} (epoch : Nat) (offset : Int)
    (hoffset : ∀ line ∈ lines, line.push.observedAt.offset = offset)
    (hprinted : ∀ line ∈ lines, line.Printed chrono)
    (horder : lines.IsChain fun a b => a.observedUtc ≤ b.observedUtc) :
    (LogParser.new .clashPremium epoch).stamps chrono lines =
        lines.map (fun line => some line.unixMs) ↔ Datable lines := by
  have horder : lines.IsChain fun a b => a.observed ≤ b.observed := by
    refine horder.imp_of_mem_imp fun a b ha hb hle => ?_
    simp only [PremiumLine.observed, PremiumLine.observedUtc, hoffset a ha, hoffset b hb] at hle ⊢
    omega
  cases lines with
  | nil => simp [LogParser.stamps, Datable]
  | cons line rest =>
    have hline := hprinted line (by simp)
    obtain ⟨date, hdate, hiff⟩ := premiumDate_first hline
    obtain ⟨hstamp, hkindNext, hclockNext⟩ :=
      stamp_of_date (p := LogParser.new .clashPremium epoch) hline rfl hdate
    simp only [LogParser.stamps, List.map_cons, List.cons.injEq, hstamp, hiff, Datable,
      List.head?_cons, Option.mem_some_iff, forall_eq']
    refine and_congr_right fun hadopted => ?_
    exact stamps_next hkindNext (hclockNext (hiff.2 hadopted)) hprinted horder

/-- Times of day as `%H:%M:%S` reads them, two digits each. -/
def hmsChrono : Chrono where
  parseRfc3339 := fun _ => none
  parseTime
    | [h, k, ':', m, n, ':', s, t] => do
      if !([h, k, m, n, s, t].all isDigit) then none
      else NaiveTime.fromHmsNano (← parseU32 [h, k]) (← parseU32 [m, n]) (← parseU32 [s, t]) 0
    | _ => none
  fromYmd := fun _ _ _ => none
  minDay := -95746129
  maxDay := 95026237

/-- A line east of Greenwich, observed as it was printed. -/
def promptLine (text : String) (second : Int) : PremiumLine :=
  ⟨⟨.stdout, text.toList, ⟨second - 28800, 0, 28800⟩⟩, second * 10 ^ 9⟩

/-- Two seconds around a midnight. -/
def midnightLines : List PremiumLine :=
  [promptLine "23:59:59 INF before" 1785369599, promptLine "00:00:01 INF after" 1785369601]

theorem midnight_dated : (LogParser.new .clashPremium 1).stamps hmsChrono midnightLines =
    [some 1785340799000, some 1785340801000] :=
  (@premium_dated_iff hmsChrono midnightLines 1 28800 (by decide +kernel) (by
    intro line hline
    simp only [midnightLines, List.mem_cons, List.not_mem_nil, or_false] at hline
    rcases hline with rfl | rfl
    · exact ⟨⟨"23:59:59".toList, .info, "before".toList, by decide +kernel⟩, by decide, by decide,
        by decide, by decide, by decide, by decide⟩
    · exact ⟨⟨"00:00:01".toList, .info, "after".toList, by decide +kernel⟩, by decide, by decide,
        by decide, by decide, by decide, by decide⟩) (by simp [midnightLines]; decide)).2
    ⟨by simp [midnightLines, PremiumLine.Adopted]; decide,
      by simp [midnightLines, PremiumLine.Rolled]; decide⟩

/-- A line at ten, and the next one at eleven two days later. -/
def quietLines : List PremiumLine :=
  [promptLine "10:00:00 INF before" 1785319200, promptLine "11:00:00 INF after" 1785495600]

/-- The second of them is dated two days early. -/
theorem quiet_days_lost :
    (∀ line ∈ quietLines, line.push.observedAt.offset = 28800 ∧ line.Printed hmsChrono) ∧
      quietLines.IsChain (fun a b => a.observedUtc ≤ b.observedUtc) ∧
      (LogParser.new .clashPremium 1).stamps hmsChrono quietLines =
        [some 1785290400000, some 1785294000000] ∧
      quietLines.map PremiumLine.unixMs = [1785290400000, 1785466800000] := by
  refine ⟨?_, by simp [quietLines]; decide, by decide +kernel, by decide +kernel⟩
  intro line hline
  simp only [quietLines, List.mem_cons, List.not_mem_nil, or_false] at hline
  rcases hline with rfl | rfl
  · exact ⟨rfl, ⟨"10:00:00".toList, .info, "before".toList, by decide +kernel⟩, by decide, by decide,
      by decide, by decide, by decide, by decide⟩
  · exact ⟨rfl, ⟨"11:00:00".toList, .info, "after".toList, by decide +kernel⟩, by decide, by decide,
      by decide, by decide, by decide, by decide⟩

end Chimera.Log
