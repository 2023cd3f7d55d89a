import Chimera.Process.Record

/-! Process identities: what the system says of a live pid, compared with a record. -/

namespace Chimera.Process
open Chimera.Lib.Utf8 Chimera.Lib.Fields

structure ProcessIdentity where
  executable : Option Text
  startToken : UInt64
  /-- The whole seconds, on macOS; equal to the token of a version 2 record it
  proves nothing within that second. -/
  legacyStartToken : Option UInt64
  deriving DecidableEq

inductive IdentityMatch where
  | same | reused | uncertain
  deriving DecidableEq, Repr

/-- The answer of `process_identity`. -/
abbrev Observation := Except IoError (Option ProcessIdentity)

def asciiLower (c : Char) : Char := if 'A' ≤ c ∧ c ≤ 'Z' then Char.ofNat (c.toNat + 32) else c

def exeNamesEqual (target : Target) (left right : Text) : Bool :=
  if target = .windows then left.map asciiLower = right.map asciiLower else left = right

def recordedExecutableMatches (target : Target) (recorded observed : Text) : Bool :=
  exeNamesEqual target recorded observed ||
    (target = .linux && match stripSuffix " (deleted)".toList observed with
      | some observed => exeNamesEqual target recorded observed
      | none => false)

def compareIdentity (target : Target) (record : EpochPidRecord) (identity : ProcessIdentity) :
    IdentityMatch :=
  if identity.legacyStartToken = some record.startToken then .uncertain
  else if record.startToken ≠ identity.startToken then .reused
  else match identity.executable with
    | some executable =>
      if recordedExecutableMatches target record.executable executable then .same else .uncertain
    | none => .uncertain

def recordMatchesIdentity (target : Target) (record : EpochPidRecord) (identity : ProcessIdentity) :
    Bool :=
  compareIdentity target record identity = .same

/-- `identify` is what `process_identity` answers. -/
def recordedProcessIsAlive (target : Target) (identify : UInt32 → Observation) (raw : Text) :
    Except IoError Bool := do
  let record ← parseEpochRecord target raw
  match ← identify record.pid with
  | none => pure false
  | some identity =>
    match compareIdentity target record identity with
    | .same => pure true
    | .reused => pure false
    | .uncertain => throw (identityError ("cannot prove whether live pid " ++
        toString record.pid.toNat ++ " is the recorded process"))

end Chimera.Process
