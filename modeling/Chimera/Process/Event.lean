import Chimera.Lib.Utf8

/-! What is told of a process. -/

namespace Chimera.Process
open Chimera.Lib.Utf8

/-- In nanoseconds. -/
abbrev Duration := Nat

/-- `tokio::time::Instant`, which never runs back. -/
abbrev Instant := Nat

structure TerminatedPayload where
  code : Option Int
  signal : Option Int
  deriving DecidableEq, Repr

inductive ProcessEvent where
  | stdout (line : Text)
  | stderr (line : Text)
  | error (message : Text)
  | terminated (payload : TerminatedPayload)
  deriving DecidableEq, Repr

end Chimera.Process
