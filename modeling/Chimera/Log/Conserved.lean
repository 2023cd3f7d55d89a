import Chimera.Log.Panics

/-! What goes into the parser on a stream comes out on that stream, whole and in
order: the records it emits, joined, are the lines it was given, joined. A line
that the parser panics at is the only one it loses. -/

namespace Chimera.Log
open Chimera.Model Chimera.Lib.Utf8

/-! ## Runs that outlive a panic -/

/-- A panic unwinds before anything of the parser has changed. -/
def LogParser.survive (chrono : Chrono) (p : LogParser) (call : Call) : LogParser × List LogFrame :=
  match p.call chrono call with
  | .ok (q, frames) => (q, frames.flatten)
  | .error _ => (p, [])

/-- One line on a stream. -/
structure Push where
  stream : LogStream
  line : Text
  observedAt : Observed

def Push.call (push : Push) : Call := .push push.stream push.line push.observedAt

/-- What the parser emits over the pushes and at `finish`. -/
def LogParser.emitted (chrono : Chrono) : LogParser → List Push → List LogFrame
  | p, [] => p.finish.2.flatten
  | p, push :: rest => (p.survive chrono push.call).2 ++
    (p.survive chrono push.call).1.emitted chrono rest

/-- No push breaks the parser in the state it finds it in. -/
def LogParser.Survives (chrono : Chrono) : LogParser → List Push → Prop
  | _, [] => True
  | p, push :: rest => p.breaks chrono push.call = false ∧
    (p.survive chrono push.call).1.Survives chrono rest

def joinLines (texts : List Text) : Text := ['\n'].intercalate texts

/-- The line without its escapes. -/
def plainLine (line : Text) : Text :=
  match stripAnsi line with
  | .ok plain => plain
  | .error _ => []

def linesOf (stream : LogStream) (pushes : List Push) : List Text :=
  (pushes.filter fun push => push.stream = stream).map fun push => plainLine push.line

def rawsOf (stream : LogStream) (frames : List LogFrame) : List Text :=
  (frames.filter fun frame => frame.stream = stream).map LogFrame.raw

def Conserved (frames : List LogFrame) (pushes : List Push) : Prop :=
  ∀ stream, joinLines (rawsOf stream frames) = joinLines (linesOf stream pushes)

/-! ## Joined texts -/

/-- Every text behind a newline of its own. -/
def marked (texts : List Text) : Text := texts.flatMap ('\n' :: ·)

@[simp] theorem marked_nil : marked [] = [] := rfl

@[simp] theorem marked_cons (t : Text) (ts : List Text) :
    marked (t :: ts) = '\n' :: t ++ marked ts := rfl

@[simp] theorem marked_append (ts us : List Text) : marked (ts ++ us) = marked ts ++ marked us := by
  simp [marked]

theorem joinLines_eq_tail (ts : List Text) : joinLines ts = (marked ts).tail := by
  induction ts with
  | nil => rfl
  | cons t ts ih =>
    cases ts with
    | nil => simp [joinLines, marked]
    | cons u us =>
      have hjoin : joinLines (t :: u :: us) = t ++ '\n' :: joinLines (u :: us) := by
        simp [joinLines, List.intercalate, List.intersperse]
      rw [hjoin, ih]
      simp

section Streams

variable {stream : LogStream} {frames more : List LogFrame} {push : Push} {pushes : List Push}

@[simp] theorem rawsOf_nil : rawsOf stream [] = [] := rfl

@[simp] theorem rawsOf_append : rawsOf stream (frames ++ more) =
    rawsOf stream frames ++ rawsOf stream more := by
  simp [rawsOf]

theorem rawsOf_same {frame : LogFrame} (h : frame.stream = stream) :
    rawsOf stream [frame] = [frame.raw] := by
  simp [rawsOf, h]

theorem rawsOf_other {frame : LogFrame} (h : frame.stream ≠ stream) :
    rawsOf stream [frame] = [] := by
  simp [rawsOf, h]

theorem linesOf_same (h : push.stream = stream) :
    linesOf stream (push :: pushes) = plainLine push.line :: linesOf stream pushes := by
  simp [linesOf, h]

theorem linesOf_other (h : push.stream ≠ stream) :
    linesOf stream (push :: pushes) = linesOf stream pushes := by
  simp [linesOf, h]

end Streams

/-! ## The slots -/

section Slots

variable {slots : Slots} {stream other : LogStream} {pending : Option Pending}

@[simp] theorem Slots.get_set_same : (slots.set stream pending).get stream = pending := by
  cases stream <;> rfl

theorem Slots.get_set_other (h : other ≠ stream) :
    (slots.set stream pending).get other = slots.get other := by
  cases stream <;> cases other <;> first | rfl | exact absurd rfl h

end Slots

/-- A held record belongs to its slot's stream. -/
def LogParser.Proper (p : LogParser) : Prop :=
  ∀ stream pending, p.pending.get stream = some pending → pending.frame.stream = stream

/-- The frame that the slot holds. -/
def LogParser.held (p : LogParser) (stream : LogStream) : List LogFrame :=
  ((p.pending.get stream).map Pending.frame).toList

section Steps

variable {chrono : Chrono} {p q : LogParser} {push : Push} {frames : ParsedFrames}

/-- A push continues the record its stream holds, or ends it with a record of
its own, which is emitted or held in turn. -/
inductive Took (p : LogParser) (stream : LogStream) (line : Text) :
    LogParser → List LogFrame → Prop
  | continued {q : LogParser} {pending next : Pending} :
      p.pending.get stream = some pending → pending.append line = .ok next →
      q.pending = p.pending.set stream (some next) → Took p stream line q []
  | held {q : LogParser} {frame : LogFrame} : frame.stream = stream →
      (frame.truncated = false → frame.raw = line) →
      q.pending = p.pending.set stream (some ⟨frame, 0⟩) → Took p stream line q (p.held stream)
  | emitted {q : LogParser} {frame : LogFrame} : frame.stream = stream →
      (frame.truncated = false → frame.raw = line) →
      q.pending = p.pending.set stream none → Took p stream line q (p.held stream ++ [frame])

/-- A record that is emitted or held ends the one that its stream held. -/
theorem emit_cases {stream : LogStream} (frame : LogFrame) (hold : Bool)
    (hq : q.pending = p.pending) :
    ((q.emit stream frame hold).1.pending = p.pending.set stream (some ⟨frame, 0⟩) ∧
      (q.emit stream frame hold).2.flatten = p.held stream) ∨
    ((q.emit stream frame hold).1.pending = p.pending.set stream none ∧
      (q.emit stream frame hold).2.flatten = p.held stream ++ [frame]) := by
  unfold LogParser.emit
  cases hold with
  | true => simp [ParsedFrames.flatten, LogParser.held, hq]
  | false => simp [ParsedFrames.flatten, LogParser.held, hq]

/-- The header touches nothing but the clock. -/
theorem parseHeader_pending {line : Text} {observedAt : Observed} {parsed : Option ParsedLine}
    (h : p.parseHeader chrono line observedAt = .ok (parsed, q)) : q.pending = p.pending := by
  unfold LogParser.parseHeader at h
  cases hk : p.kind with
  | mihomo =>
    rw [hk] at h
    cases h
    rfl
  | meow =>
    rw [hk] at h
    rcases hr : parseMeow chrono line with e | r
    · simp [hr, Bind.bind, Except.bind] at h
    · simp only [hr, Checked.ok_bind] at h
      cases h
      rfl
  | clashRust | chimeraClient =>
    rw [hk] at h
    rcases hr : parseClashRs chrono line observedAt with e | r
    · simp [hr, Bind.bind, Except.bind] at h
    · simp only [hr, Checked.ok_bind] at h
      cases h
      rfl
  | clashPremium =>
    rw [hk] at h
    rcases hr : parsePremium chrono line observedAt p.premiumClock with e | r
    · simp [hr, Bind.bind, Except.bind] at h
    · simp only [hr, Checked.ok_bind] at h
      cases h
      rfl

/-- The record that a push opens, before its caps: with its header read, or without
one. -/
inductive Opens (chrono : Chrono) (p : LogParser) (push : Push) : LogFrame → Prop
  | header {parsed : ParsedLine} {q : LogParser} :
      p.parseHeader chrono (plainLine push.line) push.observedAt = .ok (some parsed, q) →
      Opens chrono p push {
        at_ := push.observedAt.timestampMillis, epoch := q.epoch, kind := q.kind
        stream := push.stream, level := parsed.level, timestamp := parsed.timestamp
        target := parsed.target, message := parsed.message, fields := parsed.fields
        raw := plainLine push.line, truncated := false }
  | plain {q : LogParser} :
      p.parseHeader chrono (plainLine push.line) push.observedAt = .ok (none, q) →
      Opens chrono p push {
        at_ := push.observedAt.timestampMillis, epoch := q.epoch, kind := q.kind
        stream := push.stream
        level := LogParser.plainLevel ("Error:".toList.isPrefixOf (plainLine push.line))
          ("warning:".toList.isPrefixOf (plainLine push.line)) push.stream
        timestamp := none, target := none, message := plainLine push.line, fields := []
        raw := plainLine push.line, truncated := false }

theorem Opens.stream {root : LogFrame} (h : Opens chrono p push root) :
    root.stream = push.stream := by
  cases h <;> rfl

theorem Opens.raw {root : LogFrame} (h : Opens chrono p push root) :
    root.raw = plainLine push.line := by
  cases h <;> rfl

theorem Opens.truncated {root : LogFrame} (h : Opens chrono p push root) :
    root.truncated = false := by
  cases h <;> rfl

/-- What becomes of a push: a continuation of the held record, or a record of its own. -/
inductive Turns (chrono : Chrono) (p : LogParser) (push : Push) :
    LogParser → List LogFrame → Prop
  | continued {q : LogParser} {pending next : Pending} :
      p.pending.get push.stream = some pending →
      pending.append (plainLine push.line) = .ok next →
      q.pending = p.pending.set push.stream (some next) → Turns chrono p push q []
  | held {q : LogParser} {root : LogFrame} : Opens chrono p push root →
      q.pending = p.pending.set push.stream (some ⟨root.bounded, 0⟩) →
      Turns chrono p push q (p.held push.stream)
  | emitted {q : LogParser} {root : LogFrame} : Opens chrono p push root →
      q.pending = p.pending.set push.stream none →
      Turns chrono p push q (p.held push.stream ++ [root.bounded])

/-- A record that a push opens is emitted or held. -/
theorem Opens.turns {root : LogFrame} (hroot : Opens chrono p push root) (hold : Bool)
    {p' : LogParser} (hp : p'.pending = p.pending)
    (h : p'.emit push.stream root.bounded hold = (q, frames)) :
    Turns chrono p push q frames.flatten := by
  rcases emit_cases root.bounded hold hp with ⟨hpending, hflat⟩ | ⟨hpending, hflat⟩
  · rw [h] at hpending hflat
    rw [hflat]
    exact .held hroot hpending
  · rw [h] at hpending hflat
    rw [hflat]
    exact .emitted hroot hpending

theorem call_turns (h : p.call chrono push.call = .ok (q, frames)) :
    Turns chrono p push q frames.flatten := by
  obtain ⟨plain, hplain⟩ := stripAnsi_returns push.line
  have hline : plainLine push.line = plain := by rw [plainLine, hplain]
  simp only [Push.call, LogParser.call, LogParser.pushAt, hplain, Checked.ok_bind] at h
  rcases hheader : p.parseHeader chrono plain push.observedAt with e | ⟨parsed, p'⟩
  · simp [hheader, Bind.bind, Except.bind] at h
  have hpending := parseHeader_pending hheader
  simp only [hheader, Checked.ok_bind] at h
  subst hline
  cases parsed with
  | some parsed =>
    simp only [boundFrame_eq, Checked.ok_bind] at h
    exact (Opens.header hheader).turns _ hpending (Except.ok.inj h)
  | none =>
    simp only [LogParser.pushPlain] at h
    split at h
    · rename_i pending hheld
      obtain ⟨next, hnext, -⟩ := pending.append_eq (plainLine push.line)
      simp only [hnext, Checked.ok_bind] at h
      cases h
      have hget : p.pending.get push.stream = some pending := by
        rw [← hpending]
        split at hheld
        · exact hheld
        · cases hheld
      exact .continued hget hnext (by simp [hpending])
    · simp only [boundFrame_eq, Checked.ok_bind] at h
      exact (Opens.plain hheader).turns _ hpending (Except.ok.inj h)

theorem Opens.whole {root : LogFrame} (h : Opens chrono p push root)
    (ht : root.bounded.truncated = false) : root.bounded.raw = plainLine push.line :=
  (LogFrame.bounded_raw ht).trans h.raw

theorem Turns.took {emitted : List LogFrame} (h : Turns chrono p push q emitted) :
    Took p push.stream (plainLine push.line) q emitted := by
  cases h with
  | continued hget happend hq => exact .continued hget happend hq
  | @held root hroot hq =>
    have hstream : root.bounded.stream = push.stream := hroot.stream
    exact .held hstream hroot.whole hq
  | @emitted root hroot hq =>
    have hstream : root.bounded.stream = push.stream := hroot.stream
    exact .emitted hstream hroot.whole hq

theorem call_took (h : p.call chrono push.call = .ok (q, frames)) :
    Took p push.stream (plainLine push.line) q frames.flatten :=
  (call_turns h).took

end Steps

/-! ## Runs -/

section Runs

variable {chrono : Chrono} {p q : LogParser} {push : Push} {pushes : List Push}
  {frames : List LogFrame} {stream : LogStream} {line : Text}

theorem Took.proper (h : Took p stream line q frames) (hp : p.Proper) : q.Proper := by
  have set {pending : Pending} (hs : pending.frame.stream = stream)
      (hq : q.pending = p.pending.set stream (some pending)) : q.Proper := by
    intro other held hheld
    rw [hq] at hheld
    by_cases ho : other = stream
    · subst ho
      rw [Slots.get_set_same] at hheld
      cases hheld
      exact hs
    · rw [Slots.get_set_other ho] at hheld
      exact hp other held hheld
  cases h with
  | @continued pending next hget happend hq =>
    obtain ⟨r, hr, hs, -⟩ := pending.append_eq line
    rw [happend] at hr
    cases hr
    exact set (hs.trans (hp stream pending hget)) hq
  | held hs _ hq => exact set hs hq
  | emitted hs _ hq =>
    intro other held hheld
    rw [hq] at hheld
    by_cases ho : other = stream
    · subst ho
      rw [Slots.get_set_same] at hheld
      cases hheld
    · rw [Slots.get_set_other ho] at hheld
      exact hp other held hheld

/-- What a slot holds when its stream says nothing more. -/
theorem Took.other (h : Took p stream line q frames) {other : LogStream} (ho : other ≠ stream) :
    q.pending.get other = p.pending.get other := by
  cases h with
  | continued _ _ hq => rw [hq, Slots.get_set_other ho]
  | held _ _ hq => rw [hq, Slots.get_set_other ho]
  | emitted _ _ hq => rw [hq, Slots.get_set_other ho]

theorem finish_raws (hp : p.Proper) (stream : LogStream) :
    rawsOf stream p.finish.2.flatten = (p.held stream).map LogFrame.raw := by
  have own {s : LogStream} : rawsOf s (p.held s) = (p.held s).map LogFrame.raw := by
    unfold LogParser.held
    cases hs : p.pending.get s with
    | none => rfl
    | some pending => exact rawsOf_same (hp s pending hs)
  have foreign {s t : LogStream} (hst : t ≠ s) : rawsOf s (p.held t) = [] := by
    unfold LogParser.held
    cases ht : p.pending.get t with
    | none => rfl
    | some pending =>
      refine rawsOf_other ?_
      show pending.frame.stream ≠ s
      rw [hp t pending ht]
      exact hst
  have hflat : p.finish.2.flatten = p.held .stderr ++ p.held .stdout ∨
      p.finish.2.flatten = p.held .stdout ++ p.held .stderr := by
    unfold LogParser.finish
    simp only
    split
    · exact .inl rfl
    · exact .inr rfl
  rcases hflat with hflat | hflat
  · rw [hflat, rawsOf_append]
    cases stream with
    | stdout => rw [own, foreign (by decide), List.nil_append]
    | stderr => rw [own, foreign (by decide), List.append_nil]
  · rw [hflat, rawsOf_append]
    cases stream with
    | stdout => rw [own, foreign (by decide), List.append_nil]
    | stderr => rw [own, foreign (by decide), List.nil_append]

theorem finish_mem {frame : LogFrame} (h : frame ∈ p.held stream) :
    frame ∈ p.finish.2.flatten := by
  unfold LogParser.finish ParsedFrames.flatten
  cases stream with
  | stdout =>
    simp only
    split
    · exact List.mem_append.2 (.inr h)
    · exact List.mem_append.2 (.inl h)
  | stderr =>
    simp only
    split
    · exact List.mem_append.2 (.inl h)
    · exact List.mem_append.2 (.inr h)

theorem survive_cases (chrono : Chrono) (p : LogParser) (push : Push) :
    (p.breaks chrono push.call = false ∧ ∃ q frames, p.survive chrono push.call = (q, frames) ∧
      Took p push.stream (plainLine push.line) q frames) ∨
    (p.breaks chrono push.call = true ∧ p.survive chrono push.call = (p, [])) := by
  unfold LogParser.survive
  rcases hcall : p.call chrono push.call with e | ⟨q, frames⟩
  · refine .inr ⟨?_, rfl⟩
    by_contra hb
    have hreturns := (call_returns push.call).2 (by simpa using hb)
    rw [hcall] at hreturns
    exact returns_error e hreturns
  · refine .inl ⟨(call_returns push.call).1 ⟨_, hcall⟩, q, _, rfl, ?_⟩
    exact call_took hcall

/-- A record that is held is whole when all that is emitted is. -/
theorem held_whole (h : ∀ f ∈ p.emitted chrono pushes, f.truncated = false) :
    ∀ f ∈ p.held stream, f.truncated = false := by
  induction pushes generalizing p with
  | nil => exact fun f hf => h f (finish_mem hf)
  | cons push rest ih =>
    intro f hf
    rcases survive_cases chrono p push with ⟨-, q, frames, hs, htook⟩ | ⟨-, hs⟩
    · simp only [LogParser.emitted, hs, List.mem_append] at h
      have hrest := ih fun g hg => h g (.inr hg)
      by_cases ho : stream = push.stream
      · subst ho
        cases htook with
        | @continued pending next hget happend hq =>
          obtain ⟨r, hr, -, hwhole⟩ := pending.append_eq (plainLine push.line)
          rw [happend] at hr
          cases hr
          have hnext : next.frame ∈ q.held push.stream := by
            simp [LogParser.held, hq]
          have hf' : f = pending.frame := by simpa [LogParser.held, hget] using hf
          rw [hf']
          exact (hwhole (hrest next.frame hnext)).1
        | held _ _ _ => exact h f (.inl hf)
        | emitted _ _ _ => exact h f (.inl (List.mem_append_left _ hf))
      · refine hrest f ?_
        rw [LogParser.held, htook.other ho]
        exact hf
    · simp only [LogParser.emitted, hs, List.nil_append] at h
      exact ih h f hf

/-- The lines of a stream that the parser returns from. -/
def LogParser.keptLines (chrono : Chrono) (stream : LogStream) : LogParser → List Push → List Text
  | _, [] => []
  | p, push :: rest =>
    (if p.breaks chrono push.call then [] else linesOf stream [push]) ++
      (p.survive chrono push.call).1.keptLines chrono stream rest

/-- What is emitted of a stream is what was held of it, and the lines kept. -/
theorem emitted_marked (hp : p.Proper)
    (h : ∀ f ∈ p.emitted chrono pushes, f.truncated = false) (stream : LogStream) :
    marked (rawsOf stream (p.emitted chrono pushes)) =
      marked ((p.held stream).map LogFrame.raw) ++ marked (p.keptLines chrono stream pushes) := by
  induction pushes generalizing p with
  | nil =>
    simp only [LogParser.emitted, LogParser.keptLines, finish_raws hp stream, marked_nil,
      List.append_nil]
  | cons push rest ih =>
    rcases survive_cases chrono p push with ⟨hb, q, frames, hs, htook⟩ | ⟨hb, hs⟩
    · simp only [LogParser.emitted, hs, List.mem_append] at h
      have hrest := ih (htook.proper hp) fun f hf => h f (.inr hf)
      have hwhole : ∀ s, ∀ f ∈ q.held s, f.truncated = false :=
        fun s => held_whole fun f hf => h f (.inr hf)
      simp only [LogParser.emitted, LogParser.keptLines, hs, hb, Bool.false_eq_true, if_false,
        rawsOf_append, marked_append, hrest]
      rw [← List.append_assoc, ← List.append_assoc]
      congr 1
      have own : rawsOf push.stream (p.held push.stream) =
          (p.held push.stream).map LogFrame.raw := by
        unfold LogParser.held
        cases hg : p.pending.get push.stream with
        | none => rfl
        | some pending => exact rawsOf_same (hp push.stream pending hg)
      by_cases ho : push.stream = stream
      · subst ho
        rw [linesOf_same rfl]
        cases htook with
        | @continued pending next hget happend hq =>
          obtain ⟨r, hr, -, hraw⟩ := pending.append_eq (plainLine push.line)
          rw [happend] at hr
          cases hr
          have hnext : q.held push.stream = [next.frame] := by simp [LogParser.held, hq]
          have hheld : p.held push.stream = [pending.frame] := by simp [LogParser.held, hget]
          have happended := (hraw (hwhole push.stream next.frame (by simp [hnext]))).2
          simp [hnext, hheld, happended, linesOf]
        | @held frame hstream hraw hq =>
          have hnext : q.held push.stream = [frame] := by simp [LogParser.held, hq]
          have hwhole' := hraw (hwhole push.stream frame (by simp [hnext]))
          simp [own, hnext, hwhole', linesOf]
        | @emitted frame hstream hraw hq =>
          have hnext : q.held push.stream = [] := by simp [LogParser.held, hq]
          have hwhole' := hraw (h frame (.inl (by simp)))
          simp [own, hnext, hwhole', rawsOf_same hstream, linesOf]
      · have hsame : q.held stream = p.held stream := by
          rw [LogParser.held, htook.other (Ne.symm ho)]
          rfl
        have hnone : rawsOf stream frames = [] := by
          have foreign : rawsOf stream (p.held push.stream) = [] := by
            unfold LogParser.held
            cases hg : p.pending.get push.stream with
            | none => rfl
            | some pending =>
              refine rawsOf_other ?_
              show pending.frame.stream ≠ stream
              rw [hp push.stream pending hg]
              exact ho
          cases htook with
          | continued _ _ _ => rfl
          | held _ _ _ => exact foreign
          | emitted hstream _ _ =>
            rw [rawsOf_append, foreign, rawsOf_other (hstream ▸ ho)]
            rfl
        rw [hnone, linesOf_other ho, hsame]
        simp [linesOf]
    · simp only [LogParser.emitted, hs, List.nil_append] at h
      simp only [LogParser.emitted, LogParser.keptLines, hs, hb, if_true, List.nil_append]
      exact ih hp h

end Runs

/-! ## The lines that are lost -/

section Lost

variable {chrono : Chrono} {p : LogParser} {push : Push} {pushes : List Push}

/-- A line that breaks the parser is not empty. -/
theorem plainLine_ne_nil (h : p.breaks chrono push.call = true) : plainLine push.line ≠ [] := by
  obtain ⟨plain, hplain⟩ := stripAnsi_returns push.line
  simp only [Push.call, LogParser.breaks, hplain] at h
  rw [plainLine, hplain]
  rintro rfl
  unfold LogParser.unreadable at h
  cases hk : p.kind with
  | mihomo | meow =>
    rw [hk] at h
    cases h
  | clashRust | chimeraClient =>
    rw [hk] at h
    cases h
  | clashPremium =>
    rw [hk] at h
    have hhead : premiumHead chrono [] = none := rfl
    simp [premiumAdrift, hhead] at h

theorem keptLines_of_survives (h : p.Survives chrono pushes) (stream : LogStream) :
    p.keptLines chrono stream pushes = linesOf stream pushes := by
  induction pushes generalizing p with
  | nil => rfl
  | cons push rest ih =>
    simp only [LogParser.keptLines, h.1, Bool.false_eq_true, if_false, ih h.2]
    simp only [linesOf, ← List.map_append, ← List.filter_append, List.singleton_append]

theorem keptLines_le (chrono : Chrono) (p : LogParser) (pushes : List Push) (stream : LogStream) :
    (marked (p.keptLines chrono stream pushes)).length ≤
      (marked (linesOf stream pushes)).length := by
  induction pushes generalizing p with
  | nil => exact le_rfl
  | cons push rest ih =>
    have hrest := ih (p.survive chrono push.call).1
    have hlines : linesOf stream (push :: rest) = linesOf stream [push] ++ linesOf stream rest := by
      simp only [linesOf, ← List.map_append, ← List.filter_append, List.singleton_append]
    rw [hlines]
    simp only [LogParser.keptLines, marked_append, List.length_append]
    split
    · simp only [marked_nil, List.length_nil]
      omega
    · omega

/-- A lost line leaves its stream short of more than a newline. -/
theorem keptLines_lt (h : ¬p.Survives chrono pushes) :
    ∃ stream, (marked (p.keptLines chrono stream pushes)).length + 2 ≤
      (marked (linesOf stream pushes)).length := by
  induction pushes generalizing p with
  | nil => exact absurd trivial h
  | cons push rest ih =>
    have hlines (stream : LogStream) :
        linesOf stream (push :: rest) = linesOf stream [push] ++ linesOf stream rest := by
      simp only [linesOf, ← List.map_append, ← List.filter_append, List.singleton_append]
    by_cases hb : p.breaks chrono push.call = true
    · refine ⟨push.stream, ?_⟩
      have hle := keptLines_le chrono (p.survive chrono push.call).1 rest push.stream
      have hpos : 0 < (plainLine push.line).length :=
        List.length_pos_iff.2 (plainLine_ne_nil hb)
      rw [hlines]
      simp only [LogParser.keptLines, hb, if_true, List.nil_append, marked_append,
        List.length_append, linesOf_same rfl, marked_cons, List.length_cons]
      omega
    · have hrest : ¬(p.survive chrono push.call).1.Survives chrono rest :=
        fun hs => h ⟨by simpa using hb, hs⟩
      obtain ⟨stream, hs⟩ := ih hrest
      refine ⟨stream, ?_⟩
      rw [hlines]
      simp only [LogParser.keptLines, hb, Bool.false_eq_true, if_false, marked_append,
        List.length_append]
      omega

end Lost

/-- Where no record was truncated, the parser loses, duplicates and crosses
nothing on either stream exactly when it panicked at none of the lines. -/
theorem parser_conserves_iff (chrono : Chrono) (kind : CoreKind) (epoch : Nat)
    (pushes : List Push)
    (h : ∀ f ∈ (LogParser.new kind epoch).emitted chrono pushes, f.truncated = false) :
    Conserved ((LogParser.new kind epoch).emitted chrono pushes) pushes ↔
      (LogParser.new kind epoch).Survives chrono pushes := by
  have hproper : (LogParser.new kind epoch).Proper := by
    intro stream pending hp
    cases stream <;> cases hp
  have hmarked (stream : LogStream) :
      marked (rawsOf stream ((LogParser.new kind epoch).emitted chrono pushes)) =
        marked ((LogParser.new kind epoch).keptLines chrono stream pushes) := by
    have hheld : (LogParser.new kind epoch).held stream = [] := by cases stream <;> rfl
    rw [emitted_marked hproper h stream, hheld]
    rfl
  constructor
  · intro hconserved
    by_contra hlost
    obtain ⟨stream, hlt⟩ := keptLines_lt hlost
    have hlength := congrArg List.length (hconserved stream)
    simp only [joinLines_eq_tail, hmarked, List.length_tail] at hlength
    omega
  · intro hs stream
    simp only [joinLines_eq_tail, hmarked, keptLines_of_survives hs stream]

/-- An error record with a continuation, between lines of the other stream. -/
def crossingPushes : List Push :=
  [⟨.stderr, "Error: invalid config".toList, ⟨1785283200, 0, 28800⟩⟩,
    ⟨.stdout, "using env log level".toList, ⟨1785283200, 0, 28800⟩⟩,
    ⟨.stderr, "proxies: [[[".toList, ⟨1785283201, 0, 28800⟩⟩]

theorem crossing_conserved :
    Conserved ((LogParser.new .clashRust 1).emitted bareChrono crossingPushes) crossingPushes :=
  (parser_conserves_iff bareChrono .clashRust 1 crossingPushes (by decide +kernel)).2
    ⟨by decide +kernel, by decide +kernel, by decide +kernel, trivial⟩

/-- The line that the parser panics at is in no record. -/
theorem wide_line_lost :
    (∀ f ∈ (LogParser.new .clashRust 1).emitted bareChrono
      [⟨.stdout, wideLine, ⟨1785283200, 0, 28800⟩⟩], f.truncated = false) ∧
    ¬Conserved ((LogParser.new .clashRust 1).emitted bareChrono
      [⟨.stdout, wideLine, ⟨1785283200, 0, 28800⟩⟩])
      [⟨.stdout, wideLine, ⟨1785283200, 0, 28800⟩⟩] := by
  refine ⟨by decide +kernel, ?_⟩
  intro h
  exact absurd (h .stdout) (by decide +kernel)

end Chimera.Log
