import Chimera.Model.Error

/-! The portable command surface of the control plane: operation identity,
commands with their payload digest, and operation results. -/

namespace Chimera.Control
open Chimera.Model

structure OperationId where
  nanos : UInt64
  pid : UInt32
  counter : UInt32
  deriving DecidableEq, Repr

/-- `{:0width$x}` of a number. -/
def hexPadded (width n : Nat) : String :=
  let digits := Nat.toDigits 16 n
  String.ofList (List.replicate (width - digits.length) '0' ++ digits)

def OperationId.display (id : OperationId) : String :=
  hexPadded 16 id.nanos.toNat ++ "-" ++ hexPadded 8 id.pid.toNat ++ "-" ++
    hexPadded 8 id.counter.toNat

/-- Stable FNV-1a over the bytes, hex-encoded. -/
def payloadDigest (bytes : List UInt8) : String :=
  let hash := bytes.foldl
    (fun (hash : UInt64) byte => (hash ^^^ byte.toUInt64) * 0x00000100000001b3)
    0xcbf29ce484222325
  hexPadded 16 hash.toNat

/-- `ConfigInput::Inline`, the only variant. -/
structure ConfigInput where
  bytes : List UInt8
  expectedDigest : Option String
  deriving DecidableEq, Repr

structure ReconcileRequest where
  core : CoreSpec
  config : ConfigInput
  options : InstanceOptions
  expectedApplied : Option RevisionId
  deriving DecidableEq

inductive CoreCommand where
  | reconcile (request : ReconcileRequest)
  | stop
  | recover
  | shutdown
  deriving DecidableEq

def CoreCommand.isShutdown : CoreCommand → Bool
  | .shutdown => true
  | _ => false

def utf8 (s : String) : List UInt8 := s.toUTF8.toList

def LocalIpcPolicy.debug : LocalIpcPolicy → String
  | .force => "Force"
  | .prefer => "Prefer"
  | .disable => "Disable"

/-- The derived `Debug` text of `Option<LocalIpcSettings>`. -/
def debugLocalIpc : Option LocalIpcSettings → String
  | none => "None"
  | some s => "Some(LocalIpcSettings \x7b policy: " ++ LocalIpcPolicy.debug s.policy ++
      ", keep_http_controller: " ++ (if s.keepHttpController then "true" else "false") ++ " \x7d)"

/-- The bytes `CoreCommand::payload_digest` hashes. -/
def CoreCommand.identityBytes : CoreCommand → List UInt8
  | .reconcile request =>
    let head := "reconcile\x00" ++ request.core.kind.display ++ "\x00" ++
      request.core.binaryPath ++ "\x00" ++ request.core.version.getD "" ++ "\x00"
    let features := request.core.features.foldl (fun text f => text ++ f ++ "\x00") ""
    let expected := match request.expectedApplied with
      | some r => r.display
      | none => ""
    utf8 (head ++ features ++ expected ++ "\x00controller:" ++
        debugLocalIpc request.options.localIpc ++ "\x00") ++
      request.config.bytes ++ utf8 "\x00digest:" ++ utf8 (request.config.expectedDigest.getD "")
  | .stop => utf8 "stop"
  | .recover => utf8 "recover"
  | .shutdown => utf8 "shutdown"

def CoreCommand.payloadDigest (command : CoreCommand) : String :=
  Control.payloadDigest command.identityBytes

structure CoreCommandEnvelope where
  operationId : OperationId
  command : CoreCommand
  deriving DecidableEq

inductive OperationOutput where
  | reconciled (outcome : ApplyOutcome)
  | stopped
  | recovered
  | shutDown
  deriving DecidableEq

structure CoreError where
  kind : Option CoreErrorKind
  message : String
  retryable : Bool
  operationId : Option OperationId
  deriving DecidableEq

def CoreError.new (kind : CoreErrorKind) (message : String) (retryable : Bool) : CoreError :=
  ⟨some kind, message, retryable, none⟩

def CoreError.fromDomain (error : Error) (operationId : Option OperationId) : CoreError :=
  ⟨error.kind, error.display, (error.kind.map CoreErrorKind.defaultRetryable).getD false,
    operationId⟩

def CoreError.withOperation (error : CoreError) (id : OperationId) : CoreError :=
  { error with operationId := some id }

inductive OperationState where
  | queued
  | running
  | succeeded (output : OperationOutput)
  | failed (error : CoreError)
  deriving DecidableEq

def OperationState.isTerminal : OperationState → Bool
  | .succeeded _ | .failed _ => true
  | _ => false

end Chimera.Control
