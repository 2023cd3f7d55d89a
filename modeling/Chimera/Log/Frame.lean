import Chimera.Lib.Utf8
import Chimera.Model.Spec

/-! The normalized console record, and the caps that every record respects when
it leaves the parser. Whatever the code would abort on is an error here: a slice
at no boundary, an arithmetic overflow, a failed `expect`. -/

namespace Chimera.Log
open Chimera.Model Chimera.Lib.Utf8

/-! ## Panics -/

inductive Panic where
  | slice
  | subtract
  | multiply
  /-- A failed `expect`, of the code or of the calendar. -/
  | expect (message : String)
  deriving DecidableEq, Repr

abbrev Checked := Except Panic

/-- `&text[i..j]`. -/
def slice (t : Text) (i j : Nat) : Checked Text :=
  match get t i j with
  | some s => .ok s
  | none => .error .slice

/-- `&text[i..]`. -/
def sliceFrom (t : Text) (i : Nat) : Checked Text :=
  match getFrom t i with
  | some s => .ok s
  | none => .error .slice

/-- `&text[..i]`. -/
def sliceTo (t : Text) (i : Nat) : Checked Text :=
  match getTo t i with
  | some s => .ok s
  | none => .error .slice

/-- `&bytes[i..j]`. -/
def byteSlice (bytes : List UInt8) (i j : Nat) : Checked (List UInt8) :=
  if i ≤ j ∧ j ≤ bytes.length then .ok ((bytes.drop i).take (j - i)) else .error .slice

/-- `a - b` of unsigned integers. -/
def checkedSub (a b : Nat) : Checked Nat := if b ≤ a then .ok (a - b) else .error .subtract

/-- A product of `u32`s. -/
def checkedMul (a b : Nat) : Checked Nat :=
  if a * b < 2 ^ 32 then .ok (a * b) else .error .multiply

/-! ## Records -/

inductive LogLevel where
  | trace | debug | info | warning | error | fatal
  deriving DecidableEq, Repr

def LogLevel.rank : LogLevel → Nat
  | .trace => 0
  | .debug => 1
  | .info => 2
  | .warning => 3
  | .error => 4
  | .fatal => 5

inductive LogStream where
  | stdout | stderr
  deriving DecidableEq, Repr

structure LogTimestamp where
  raw : Text
  unixMs : Option Int
  inferred : Bool
  deriving DecidableEq

structure LogField where
  key : Text
  value : Text
  deriving DecidableEq

structure LogFrame where
  at_ : Int
  epoch : Nat
  kind : CoreKind
  stream : LogStream
  level : LogLevel
  timestamp : Option LogTimestamp
  target : Option Text
  message : Text
  fields : List LogField
  raw : Text
  truncated : Bool
  deriving DecidableEq

/-! ## Caps -/

def maxContinuationLines : Nat := 16
def maxLogTextBytes : Nat := 16 * 1024
def maxLogTargetBytes : Nat := 2048
def maxLogTimestampRawBytes : Nat := 256
def maxLogFields : Nat := 64
def maxLogFieldTextBytes : Nat := 1024

/-- `char_boundary_at_or_below`: counts down to a boundary. -/
def charBoundaryAtOrBelow (text : Text) : Nat → Checked Nat
  | 0 => if isBoundary text 0 then .ok 0 else .error .subtract
  | n + 1 => if isBoundary text (n + 1) then .ok (n + 1) else charBoundaryAtOrBelow text n

/-- The appended text, and whether something was left behind. -/
def appendBounded (text line : Text) (maxBytes : Nat) : Checked (Text × Bool) :=
  if maxBytes ≤ size text then .ok (text, true)
  else if line.isEmpty then .ok (text ++ ['\n'], false)
  else do
    let budget ← checkedSub (← checkedSub maxBytes (size text)) 1
    let stop ← charBoundaryAtOrBelow line (min budget (size line))
    if stop = 0 then pure (text, true)
    else
      let kept ← sliceTo line stop
      pure (text ++ '\n' :: kept, decide (stop < size line))

/-- The cut text, and whether it was cut. -/
def truncateText (text : Text) (maxBytes : Nat) : Checked (Text × Bool) :=
  if size text ≤ maxBytes then .ok (text, false)
  else do
    let kept ← sliceTo text (← charBoundaryAtOrBelow text maxBytes)
    pure (kept, true)

def boundField (field : LogField) : Checked (LogField × Bool) := do
  let (key, keyCut) ← truncateText field.key maxLogFieldTextBytes
  let (value, valueCut) ← truncateText field.value maxLogFieldTextBytes
  pure (⟨key, value⟩, keyCut || valueCut)

def boundFields : List LogField → Checked (List LogField × Bool)
  | [] => pure ([], false)
  | field :: rest => do
    let (field, fieldCut) ← boundField field
    let (rest, cut) ← boundFields rest
    pure (field :: rest, fieldCut || cut)

def boundTarget : Option Text → Checked (Option Text × Bool)
  | some target => do
    let (target, cut) ← truncateText target maxLogTargetBytes
    pure (some target, cut)
  | none => pure (none, false)

def boundTimestamp : Option LogTimestamp → Checked (Option LogTimestamp × Bool)
  | some timestamp => do
    let (raw, cut) ← truncateText timestamp.raw maxLogTimestampRawBytes
    pure (some { timestamp with raw }, cut)
  | none => pure (none, false)

/-- `bound_frame`: every free-text field within its cap. -/
def boundFrame (frame : LogFrame) : Checked LogFrame := do
  let (message, messageCut) ← truncateText frame.message maxLogTextBytes
  let (raw, rawCut) ← truncateText frame.raw maxLogTextBytes
  let (target, targetCut) ← boundTarget frame.target
  let (timestamp, timestampCut) ← boundTimestamp frame.timestamp
  let (fields, fieldsCut) ← boundFields (frame.fields.take maxLogFields)
  pure { frame with
    message
    raw
    target
    timestamp
    fields
    truncated := frame.truncated || messageCut || rawCut || targetCut || timestampCut ||
      decide (maxLogFields < frame.fields.length) || fieldsCut }

/-! ## Records that are held -/

structure Pending where
  frame : LogFrame
  continuations : Nat
  deriving DecidableEq

/-- `Pending::append`. -/
def Pending.append (p : Pending) (line : Text) : Checked Pending :=
  if p.continuations = maxContinuationLines then
    .ok { p with frame := { p.frame with truncated := true } }
  else do
    let (raw, rawCut) ← appendBounded p.frame.raw line maxLogTextBytes
    let (message, messageCut) ← appendBounded p.frame.message line maxLogTextBytes
    if rawCut || messageCut then
      pure ⟨{ p.frame with raw, message, truncated := true }, maxContinuationLines⟩
    else pure ⟨{ p.frame with raw, message }, p.continuations + 1⟩

end Chimera.Log
