import Chimera.Log.Header

/-! The parser of one core's console output: one line at a time on either
stream, error records held back for their continuations, and `finish` at the
end. -/

namespace Chimera.Log
open Chimera.Model Chimera.Lib.Utf8

/-- One held record a stream. -/
structure Slots where
  stdout : Option Pending
  stderr : Option Pending
  deriving DecidableEq

def Slots.get (slots : Slots) : LogStream → Option Pending
  | .stdout => slots.stdout
  | .stderr => slots.stderr

def Slots.set (slots : Slots) (stream : LogStream) (pending : Option Pending) : Slots :=
  match stream with
  | .stdout => { slots with stdout := pending }
  | .stderr => { slots with stderr := pending }

structure LogParser where
  kind : CoreKind
  epoch : Nat
  premiumClock : Clock
  pending : Slots
  newestPending : Option LogStream
  deriving DecidableEq

def LogParser.new (kind : CoreKind) (epoch : Nat) : LogParser := ⟨kind, epoch, none, ⟨none, none⟩, none⟩

/-- A flushed record, and the line that ended it. -/
abbrev ParsedFrames := Option LogFrame × Option LogFrame

def ParsedFrames.flatten (frames : ParsedFrames) : List LogFrame :=
  frames.1.toList ++ frames.2.toList

namespace LogParser

def parseHeader (chrono : Chrono) (p : LogParser) (line : Text) (observedAt : Observed) :
    Checked (Option ParsedLine × LogParser) :=
  match p.kind with
  | .mihomo => pure (parseMihomo chrono line, p)
  | .meow => do pure (← parseMeow chrono line, p)
  | .clashRust | .chimeraClient => do pure (← parseClashRs chrono line observedAt, p)
  | .clashPremium => do
    let (parsed, clock) ← parsePremium chrono line observedAt p.premiumClock
    pure (parsed, { p with premiumClock := clock })

def emit (p : LogParser) (stream : LogStream) (frame : LogFrame) (hold : Bool) :
    LogParser × ParsedFrames :=
  let flushed := (p.pending.get stream).map Pending.frame
  if hold then
    ({ p with
        newestPending := some stream
        pending := p.pending.set stream (some ⟨frame, 0⟩) }, (flushed, none))
  else ({ p with pending := p.pending.set stream none }, (flushed, some frame))

/-- The level of a line without a header. -/
def plainLevel (errorRoot warningRoot : Bool) (stream : LogStream) : LogLevel :=
  if errorRoot then .error
  else if warningRoot then .warning
  else match stream with
    | .stdout => .info
    | .stderr => .warning

/-- The line has no header: it continues a held record, or is one by itself. -/
def pushPlain (p : LogParser) (stream : LogStream) (line : Text) (observedAt : Observed) :
    Checked (LogParser × ParsedFrames) :=
  let errorRoot := "Error:".toList.isPrefixOf line
  let warningRoot := "warning:".toList.isPrefixOf line
  match if !errorRoot && !warningRoot then p.pending.get stream else none with
  | some pending => do
    let pending ← pending.append line
    pure ({ p with pending := p.pending.set stream (some pending) }, (none, none))
  | none => do
    let frame ← boundFrame {
      at_ := observedAt.timestampMillis
      epoch := p.epoch
      kind := p.kind
      stream
      level := plainLevel errorRoot warningRoot stream
      timestamp := none
      target := none
      message := line
      fields := []
      raw := line
      truncated := false }
    pure (p.emit stream frame (errorRoot && stream = .stderr))

def pushAt (chrono : Chrono) (p : LogParser) (stream : LogStream) (line : Text)
    (observedAt : Observed) : Checked (LogParser × ParsedFrames) := do
  let line ← stripAnsi line
  match ← p.parseHeader chrono line observedAt with
  | (some parsed, p) =>
    let frame ← boundFrame {
      at_ := observedAt.timestampMillis
      epoch := p.epoch
      kind := p.kind
      stream
      level := parsed.level
      timestamp := parsed.timestamp
      target := parsed.target
      message := parsed.message
      fields := parsed.fields
      raw := line
      truncated := false }
    pure (p.emit stream frame (decide (LogLevel.error.rank ≤ parsed.level.rank)))
  | (none, p) => p.pushPlain stream line observedAt

def finish (p : LogParser) : LogParser × ParsedFrames :=
  let stdout := p.pending.stdout.map Pending.frame
  let stderr := p.pending.stderr.map Pending.frame
  ({ p with pending := ⟨none, none⟩, newestPending := none },
    match p.newestPending with
    | some .stdout => (stderr, stdout)
    | _ => (stdout, stderr))

end LogParser

/-! ## Runs -/

/-- A call of the parser. -/
inductive Call where
  | push (stream : LogStream) (line : Text) (observedAt : Observed)
  | finish
  deriving DecidableEq

def LogParser.call (chrono : Chrono) (p : LogParser) : Call → Checked (LogParser × ParsedFrames)
  | .push stream line observedAt => p.pushAt chrono stream line observedAt
  | .finish => .ok p.finish

/-- Calls one after another, until one of them panics. -/
def LogParser.calls (chrono : Chrono) : LogParser → List Call → Checked (LogParser × List LogFrame)
  | p, [] => .ok (p, [])
  | p, call :: rest => do
    let (p, frames) ← p.call chrono call
    let (p, more) ← p.calls chrono rest
    pure (p, frames.flatten ++ more)

end Chimera.Log
