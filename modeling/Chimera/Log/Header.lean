import Chimera.Log.Frame

/-! The record headers of the five cores, and the escapes that come off a line
before it is read. Dates and times of day are `chrono`'s: its parsers are
parameters, its arithmetic is spelled out. -/

namespace Chimera.Log
open Chimera.Model Chimera.Lib.Utf8

/-! ## ANSI -/

/-- Where the loop of `strip_ansi` is: in plain text, behind an escape, or inside
a control sequence, which ends with its first byte from `@` to `~`. -/
inductive AnsiMode where
  | plain | escape | sequence
  deriving DecidableEq

def stripBytes : AnsiMode → List UInt8 → List UInt8
  | _, [] => []
  | .plain, b :: rest => if b = 0x1b then stripBytes .escape rest else b :: stripBytes .plain rest
  | .escape, b :: rest =>
    if b = 0x5b then stripBytes .sequence rest
    else if b = 0x1b then stripBytes .escape rest
    else b :: stripBytes .plain rest
  | .sequence, b :: rest =>
    if 0x40 ≤ b ∧ b ≤ 0x7e then stripBytes .plain rest else stripBytes .sequence rest

def stripAnsi (line : Text) : Checked Text :=
  if !(encode line).contains 0x1b then .ok line
  else match decode (stripBytes .plain (encode line)) with
    | some output => .ok output
    | none => .error (.expect "dropping ASCII escapes preserves UTF-8")

/-! ## Times

A date is a day number, counted from 1970-01-01; a time of day carries
nanoseconds, of which a leap second has up to two billion. -/

structure NaiveTime where
  secs : Nat
  frac : Nat
  deriving DecidableEq, Repr

/-- `NaiveTime::from_hms_nano_opt`. -/
def NaiveTime.fromHmsNano (hour min sec nano : Nat) : Option NaiveTime :=
  if 24 ≤ hour ∨ 60 ≤ min ∨ 60 ≤ sec ∨ (10 ^ 9 ≤ nano ∧ sec ≠ 59) ∨ 2 * 10 ^ 9 ≤ nano then none
  else some ⟨hour * 3600 + min * 60 + sec, nano⟩

/-- `signed_duration_since`, in nanoseconds. -/
def NaiveTime.since (a b : NaiveTime) : Int :=
  let secs : Int := a.secs - b.secs
  let leap : Int :=
    if b.secs < a.secs ∧ 10 ^ 9 ≤ b.frac then 1
    else if a.secs < b.secs ∧ 10 ^ 9 ≤ a.frac then -1
    else 0
  (secs + leap) * 10 ^ 9 + ((a.frac : Int) - b.frac)

def twelveHours : Int := 12 * 3600 * 10 ^ 9

/-- What `chrono` knows: its parsers, its calendar and the days it can hold. -/
structure Chrono where
  /-- `DateTime::parse_from_rfc3339`, in unix milliseconds. -/
  parseRfc3339 : Text → Option Int
  /-- `NaiveTime::parse_from_str` with `%H:%M:%S`. -/
  parseTime : Text → Option NaiveTime
  /-- `NaiveDate::from_ymd_opt`. -/
  fromYmd : Int → Nat → Nat → Option Int
  minDay : Int
  maxDay : Int

def Chrono.holds (chrono : Chrono) (day : Int) : Bool :=
  decide (chrono.minDay ≤ day ∧ day ≤ chrono.maxDay)

/-- `succ_opt` and `pred_opt`. -/
def Chrono.day? (chrono : Chrono) (day : Int) : Option Int :=
  if chrono.holds day then some day else none

/-- A `DateTime<FixedOffset>`: seconds since the epoch, nanoseconds, and the
offset from UTC in seconds. -/
structure Observed where
  secs : Int
  frac : Nat
  offset : Int
  deriving DecidableEq, Repr

def Observed.timestampMillis (o : Observed) : Int := o.secs * 1000 + (o.frac / 10 ^ 6 : Nat)

/-- `date_naive`, which panics where `chrono` cannot hold the local date. -/
def Observed.dateNaive (chrono : Chrono) (o : Observed) : Checked Int :=
  let day := (o.secs + o.offset).fdiv 86400
  if chrono.holds day then .ok day
  else .error (.expect "Local time out of range for `NaiveDateTime`")

def Observed.time (o : Observed) : NaiveTime := ⟨((o.secs + o.offset).fmod 86400).toNat, o.frac⟩

/-- `local_unix_ms`. -/
def localUnixMs (chrono : Chrono) (date : Int) (time : NaiveTime) (offset : Int) : Option Int :=
  let secs := date * 86400 + time.secs - offset
  if chrono.holds (secs.fdiv 86400) then some (secs * 1000 + (time.frac / 10 ^ 6 : Nat)) else none

/-! ## Tokens -/

structure ParsedLine where
  timestamp : Option LogTimestamp
  level : LogLevel
  target : Option Text
  message : Text
  fields : List LogField
  deriving DecidableEq

def parseLevel (level : Text) : Option LogLevel :=
  if ["trace", "TRC", "TRACE"].any (·.toList = level) then some .trace
  else if ["debug", "DBG", "DEBUG"].any (·.toList = level) then some .debug
  else if ["info", "INF", "INFO"].any (·.toList = level) then some .info
  else if ["warn", "warning", "WRN", "WARN"].any (·.toList = level) then some .warning
  else if ["error", "ERR", "ERROR"].any (·.toList = level) then some .error
  else if ["fatal", "panic", "FTL", "PNC"].any (·.toList = level) then some .fatal
  else if "???".toList = level then some .info
  else none

def isDigit (c : Char) : Bool := '0' ≤ c && c ≤ '9'

def digitValue (c : Char) : Nat := c.toNat - '0'.toNat

/-- `str::parse::<u32>`: digits, with a plus sign if need be. -/
def parseU32 (text : Text) : Option Nat :=
  let digits := if text.head? = some '+' then text.tail else text
  if digits.isEmpty || !digits.all isDigit then none
  else
    let value := digits.foldl (fun n c => n * 10 + digitValue c) 0
    if value < 2 ^ 32 then some value else none

/-- `take_token`: a token and what follows the whitespace after it. -/
def takeToken (input : Text) : Checked (Option (Text × Text)) :=
  let input := trimStart input
  match find isWhitespace input with
  | none => .ok none
  | some stop => do
    let token ← sliceTo input stop
    let rest ← sliceFrom input stop
    pure (some (token, trimStart rest))

/-! ## mihomo -/

def isAsciiWhitespace (b : UInt8) : Bool := b = 0x20 || b = 0x09 || b = 0x0a || b = 0x0c || b = 0x0d

/-- The bytes of a quoted value up to its closing quote, and what follows that. -/
def scanQuoted : List UInt8 → Option (List UInt8 × List UInt8)
  | [] => none
  | 0x22 :: rest => some ([], rest)
  | 0x5c :: rest => match rest with
    | [] => none
    | escaped :: rest =>
      let text := match escaped with
        | 0x22 => [0x22]
        | 0x5c => [0x5c]
        | 0x6e => [0x0a]
        | 0x72 => [0x0d]
        | 0x74 => [0x09]
        | other => [0x5c, other]
      (scanQuoted rest).map fun (value, rest) => (text ++ value, rest)
  | byte :: rest => (scanQuoted rest).map fun (value, rest) => (byte :: value, rest)

/-- The key before the next `=`, which no whitespace interrupts. -/
def scanKey : List UInt8 → Option (List UInt8 × List UInt8)
  | [] => none
  | byte :: rest =>
    if byte = 0x3d then some ([], rest)
    else if isAsciiWhitespace byte then none
    else (scanKey rest).map fun (key, rest) => (byte :: key, rest)

/-- A value and what follows it. -/
def scanValue (bytes : List UInt8) : Option (List UInt8 × List UInt8) :=
  match bytes with
  | 0x22 :: quoted => (scanQuoted quoted).filter fun (_, rest) =>
    match rest with
    | [] => true
    | byte :: _ => isAsciiWhitespace byte
  | _ => some (bytes.takeWhile (!isAsciiWhitespace ·), bytes.dropWhile (!isAsciiWhitespace ·))

/-- The loop of `scan_logfmt`, over the bytes that are left; every turn consumes
some. -/
def scanPairs : Nat → List UInt8 → Option (List (Text × Text))
  | 0, _ => none
  | fuel + 1, bytes => match bytes.dropWhile isAsciiWhitespace with
    | [] => some []
    | bytes => do
      let (key, rest) ← scanKey bytes
      if key.isEmpty then none
      else
        let key ← decode key
        let (value, rest) ← scanValue rest
        let value ← decode value
        let pairs ← scanPairs fuel rest
        some ((key, value) :: pairs)

def scanLogfmt (line : Text) : Option (List (Text × Text)) :=
  scanPairs ((encode line).length + 1) (encode line)

/-- What `parse_mihomo` has collected so far. -/
structure Logfmt where
  rawTime : Option Text
  level : Option LogLevel
  message : Option Text
  fields : List LogField

def Logfmt.add (acc : Logfmt) (pair : Text × Text) : Logfmt :=
  if pair.1 = "time".toList then { acc with rawTime := some pair.2 }
  else if pair.1 = "level".toList then { acc with level := parseLevel pair.2 }
  else if pair.1 = "msg".toList then { acc with message := some pair.2 }
  else { acc with fields := acc.fields ++ [⟨pair.1, pair.2⟩] }

def parseMihomo (chrono : Chrono) (line : Text) : Option ParsedLine := do
  let pairs ← scanLogfmt line
  let acc := pairs.foldl Logfmt.add ⟨none, none, none, []⟩
  let rawTime ← acc.rawTime
  let level ← acc.level
  let message ← acc.message
  some ⟨some ⟨rawTime, chrono.parseRfc3339 rawTime, false⟩, level, none, message, acc.fields⟩

/-! ## meow -/

def parseMeow (chrono : Chrono) (line : Text) : Checked (Option ParsedLine) := do
  match ← takeToken line with
  | none => pure none
  | some (rawTime, rest) =>
  match ← takeToken rest with
  | none => pure none
  | some (level, rest) => pure do
    let level ← parseLevel level
    let (target, message) ← splitOnce ": ".toList rest
    if target.isEmpty then none
    else some ⟨some ⟨rawTime, chrono.parseRfc3339 rawTime, false⟩, level, some target, message, []⟩

/-! ## clash-rs -/

def clashRsSeparators : List (Nat × UInt8) :=
  [(2, 0x2d), (5, 0x2d), (8, 0x20), (11, 0x3a), (14, 0x3a), (17, 0x3a)]

def clashRsNumbers : List (Nat × Nat) := [(0, 2), (3, 5), (6, 8), (9, 11), (12, 14), (15, 17)]

def isAsciiDigit (b : UInt8) : Bool := 0x30 ≤ b && b ≤ 0x39

/-- `clash_rs_timestamp_end`. -/
def clashRsTimestampEnd (line : Text) : Checked (Option Nat) := do
  let bytes := encode line
  if !clashRsSeparators.all fun (index, separator) => bytes[index]? = some separator then
    pure none
  else if !(← clashRsNumbers.allM fun (start, stop) =>
      return (← byteSlice bytes start stop).all isAsciiDigit) then pure none
  else
    let digits := ((← byteSlice bytes 18 bytes.length).takeWhile isAsciiDigit).length
    pure (if 1 ≤ digits ∧ digits ≤ 9 ∧ bytes[18 + digits]? = some 0x20 then some (18 + digits)
      else none)

/-- `10_u32.pow(9 - subsecond.len() as u32)` times the subsecond. -/
def clashRsNanos (value digits : Nat) : Checked Nat := do
  let exponent ← checkedSub 9 digits
  checkedMul value (← checkedMul 1 (10 ^ exponent))

def clashRsNumber (raw : Text) (start stop : Nat) : Option Nat :=
  (get raw start stop).bind parseU32

/-- `clash_rs_unix_ms`. -/
def clashRsUnixMs (chrono : Chrono) (raw : Text) (offset : Int) : Checked (Option Int) := do
  match getFrom raw 18 with
  | none => pure none
  | some subsecond =>
  match parseU32 subsecond with
  | none => pure none
  | some value =>
    let nanos ← clashRsNanos value (size subsecond)
    pure do
      let date ← chrono.fromYmd (2000 + (← clashRsNumber raw 0 2)) (← clashRsNumber raw 3 5)
        (← clashRsNumber raw 6 8)
      let time ← NaiveTime.fromHmsNano (← clashRsNumber raw 9 11) (← clashRsNumber raw 12 14)
        (← clashRsNumber raw 15 17) nanos
      localUnixMs chrono date time offset

/-- One turn of the loop of `clash_rs_source`, at an occurrence of `": "`. -/
def clashRsAnchor (rest : Text) (separator : Nat) : Checked (Option (Text × Text)) := do
  let head ← sliceTo rest separator
  match rfind (· = ':') head with
  | none => pure none
  | some colon =>
    let digits ← sliceFrom head (colon + 1)
    if digits.isEmpty || !(encode digits).all isAsciiDigit then pure none
    else
      let start := match rfind isWhitespace (← sliceTo head colon) with
        | some index => index + 1
        | none => 0
      if start = colon then pure none
      else
        let target ← sliceFrom head start
        let message ← sliceFrom rest (separator + 2)
        pure (some (target, message))

def clashRsSourceFrom (rest : Text) : List Nat → Checked (Option (Text × Text))
  | [] => pure none
  | separator :: more => do
    match ← clashRsAnchor rest separator with
    | some source => pure (some source)
    | none => clashRsSourceFrom rest more

def clashRsSource (rest : Text) : Checked (Option (Text × Text)) :=
  clashRsSourceFrom rest (matchIndices ": ".toList rest)

/-- The header of a clash-rs record before its source: the timestamp, the level
and the rest. -/
def clashRsHead (line : Text) : Checked (Option (Text × LogLevel × Text)) := do
  match ← clashRsTimestampEnd line with
  | none => pure none
  | some stop =>
  match getTo line stop, getFrom line stop with
  | some rawTime, some tail => match ← takeToken tail with
    | none => pure none
    | some (level, rest) => pure ((parseLevel level).map fun level => (rawTime, level, rest))
  | _, _ => pure none

def parseClashRs (chrono : Chrono) (line : Text) (observedAt : Observed) :
    Checked (Option ParsedLine) := do
  match ← clashRsHead line with
  | none => pure none
  | some (rawTime, level, rest) =>
  match ← clashRsSource rest with
  | none => pure none
  | some (target, message) =>
    let unixMs ← clashRsUnixMs chrono rawTime observedAt.offset
    pure (some ⟨some ⟨rawTime, unixMs, true⟩, level, some target, message, []⟩)

/-! ## Clash Premium -/

/-- The date and the time of the last record. -/
abbrev Clock := Option (Int × NaiveTime)

/-- `premium_unix_ms`, and the clock it leaves. -/
def premiumUnixMs (chrono : Chrono) (time : NaiveTime) (observedAt : Observed) (clock : Clock) :
    Checked (Option Int × Clock) := do
  let date ← match clock with
    | some (date, previous) =>
      if twelveHours < previous.since time then pure (chrono.day? (date + 1)) else pure (some date)
    | none => do
      let observed ← observedAt.dateNaive chrono
      if twelveHours < time.since observedAt.time then pure (chrono.day? (observed - 1))
      else pure (some observed)
  match date with
  | none => pure (none, clock)
  | some date => pure (localUnixMs chrono date time observedAt.offset, some (date, time))

/-- `premium_target`. -/
def premiumTarget (body : Text) : Option Text × Text :=
  match body with
  | '[' :: rest => match splitOnce "] ".toList rest with
    | some (tag, message) =>
      if !tag.isEmpty && !tag.contains ' ' then (some tag, message) else (none, body)
    | none => (none, body)
  | _ => (none, body)

/-- The header of a Premium record: the printed time, its reading, the level and
the body. -/
def premiumHead (chrono : Chrono) (line : Text) : Option (Text × NaiveTime × LogLevel × Text) :=
  let bytes := encode line
  if bytes[8]? ≠ some 0x20 ∨ bytes[12]? ≠ some 0x20 then none
  else do
    let rawTime ← getTo line 8
    let time ← chrono.parseTime rawTime
    let level ← parseLevel (← get line 9 12)
    some (rawTime, time, level, ← getFrom line 13)

def parsePremium (chrono : Chrono) (line : Text) (observedAt : Observed) (clock : Clock) :
    Checked (Option ParsedLine × Clock) :=
  match premiumHead chrono line with
  | none => pure (none, clock)
  | some (rawTime, time, level, body) => do
    let (target, message) := premiumTarget body
    let (unixMs, clock) ← premiumUnixMs chrono time observedAt clock
    pure (some ⟨some ⟨rawTime, unixMs, true⟩, level, target, message, []⟩, clock)

end Chimera.Log
