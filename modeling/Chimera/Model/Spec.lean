import Mathlib.Algebra.Group.Nat.Defs
import Mathlib.Data.Finset.Basic

/-! Launch specifications: what a caller asks for, and the options the manager
was built with. Durations are nanosecond counts and paths are their UTF-8 text;
nothing modelled here looks inside either. -/

namespace Chimera.Model

abbrev Duration := Nat

abbrev Utf8Path := String

/-- `ClashCoreKind`, re-exported by the manager as `CoreKind`. -/
inductive CoreKind where
  | mihomo | clashRust | clashPremium | meow | chimeraClient
  deriving DecidableEq, Repr

def CoreKind.display : CoreKind → String
  | .mihomo => "mihomo"
  | .clashRust => "clash-rs"
  | .clashPremium => "clash"
  | .meow => "meow"
  | .chimeraClient => "chimera-client"

structure CoreSpec where
  kind : CoreKind
  binaryPath : Utf8Path
  version : Option String
  features : List String
  deriving DecidableEq, Repr

inductive LocalIpcPolicy where
  | force | prefer | disable
  deriving DecidableEq, Repr

structure LocalIpcSettings where
  policy : LocalIpcPolicy
  keepHttpController : Bool
  deriving DecidableEq, Repr

/-- The thresholds are `NonZeroU32` in the source. -/
structure HealthPolicy where
  interval : Duration
  timeout : Duration
  failureThreshold : Nat
  successThreshold : Nat
  startPeriod : Duration
  deriving DecidableEq, Repr

inductive RestartPolicy where
  | never
  | onFailure (maxRestarts : Nat)
  deriving DecidableEq, Repr

structure Backoff where
  initial : Duration
  max : Duration
  jitter : Bool
  deriving DecidableEq, Repr

structure InstanceOptions where
  localIpc : Option LocalIpcSettings := none
  startupTimeout : Duration := 30 * 10 ^ 9
  health : HealthPolicy := ⟨250 * 10 ^ 6, 10 ^ 9, 3, 1, 0⟩
  restartPolicy : RestartPolicy := .onFailure 5
  backoff : Backoff := ⟨10 ^ 9, 30 * 10 ^ 9, true⟩
  deriving DecidableEq, Repr

structure InstanceSpec where
  core : CoreSpec
  configPath : Utf8Path
  workingDir : Utf8Path
  pidFile : Option Utf8Path
  options : InstanceOptions
  deriving DecidableEq, Repr

/-- `clash_api::Host`; the URL of an HTTP controller is kept as text. -/
inductive Host where
  | namedPipe (path : Utf8Path)
  | unixSocket (path : Utf8Path)
  | http (url : String)
  deriving DecidableEq, Repr

structure ResolvedController where
  host : Host
  secret : Option String
  deriving DecidableEq, Repr

inductive RuntimeFeature where
  | localIpc
  deriving DecidableEq, Repr

end Chimera.Model
