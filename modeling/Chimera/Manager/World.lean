import Chimera.Model.Error
import Chimera.Lib.Program

/-! The world of one core manager: its control state, the published status, the
runtimes it launched with the forwarders that watch them, the runtime directory
and the host DNS.

Whatever is outside the manager answers from an `Env`: one answer for each tick,
a tick being one call that leaves the manager. Between two ticks the runtimes
and the forwarders go on by themselves, and the process may crash at any of
them. `Doc` is the type of configuration documents; what the manager asks of
them is in `Setup`. -/

namespace Chimera.Manager
open Chimera.Model

/-! ## Plans and the control state -/

/-- Everything the manager knows about one epoch besides the live process. -/
structure EpochPlan (Doc : Type) where
  sourceSpec : InstanceSpec
  effectiveSpec : InstanceSpec
  controller : ResolvedController
  revision : ConfigRevision
  capabilities : Finset String
  runtimeFeatures : Finset RuntimeFeature
  sourceDocument : Doc
  effectiveDocument : Doc

/-- A runtime instance: what it reports of its launch request, and the number
under which the world keeps its status. -/
structure Instance where
  number : Nat
  epoch : Epoch
  controller : ResolvedController
  deriving DecidableEq

structure Active (Doc : Type) where
  inst : Instance
  plan : EpochPlan Doc

structure QuarantinedEpoch where
  epoch : Epoch
  reason : String
  deathProven : Bool
  deriving DecidableEq

inductive DnsOverrideState where
  | applied
  | restorePending
  deriving DecidableEq, Repr

structure DnsOverrideRecord where
  iface : String
  previous : List String
  applied : List String
  runtimeEpoch : Nat
  ownerGeneration : Option Nat
  state : DnsOverrideState
  deriving DecidableEq, Repr

structure DnsIntent where
  servers : List String
  deriving DecidableEq, Repr

/-- `last` is the `EpochAllocator`. -/
structure Ctrl (Doc : Type) where
  last : Nat
  current : Option (Active Doc)
  lastSpec : Option InstanceSpec
  quarantine : List QuarantinedEpoch
  dnsRecord : Option DnsOverrideRecord

def Ctrl.new {Doc : Type} (maxEpoch : Nat) : Ctrl Doc := ⟨maxEpoch, none, none, [], none⟩

/-! ## The runtime directory -/

/-- The entries of the runtime directory that name an epoch, by the number in
their name: `config-{e}.yaml`, its backups and staging files, `core-{e}.pid`, its
temporaries and `core-{e}.sock`. An alias is any other spelling that reads back
as that number, such as `config-007.yaml`. -/
inductive Artifact where
  | config (number : Nat)
  | backup (number generation : Nat)
  | staging (number : Nat) (suffix : Nat)
  | pid (number : Nat)
  | pidStaging (number : Nat) (suffix : Nat)
  | socket (number : Nat)
  | alias (number : Nat) (name : String)
  deriving DecidableEq, Repr

def Artifact.number : Artifact → Nat
  | .config e | .backup e _ | .staging e _ | .pid e | .pidStaging e _ | .socket e
  | .alias e _ => e

/-- Written by the runtimes themselves, not by the manager's store. -/
def Artifact.ofRuntime : Artifact → Bool
  | .pid _ | .pidStaging _ _ | .socket _ => true
  | _ => false

/-- A directory entry: a regular file with its bytes, a socket, or anything
else (a directory, a symbolic link). -/
inductive Node where
  | file (bytes : List UInt8)
  | socket
  | other
  deriving DecidableEq, Repr

abbrev Directory := List (Artifact × Node)

def Directory.find (d : Directory) (a : Artifact) : Option Node := List.lookup a d

def Directory.erase (d : Directory) (a : Artifact) : Directory := d.filter fun x => x.1 ≠ a

def Directory.put (d : Directory) (a : Artifact) (n : Node) : Directory := (a, n) :: d.erase a

/-- The staging name of `dns-override.json`: a file of its own, or a second hard link of the
record's file. -/
inductive RecordStaging where
  | own (bytes : List UInt8)
  | link
  deriving DecidableEq, Repr

/-! ## Configuration documents -/

structure Snapshot (Doc : Type) where
  sourcePath : Utf8Path
  document : Doc

/-- `PreparedConfig`. -/
structure Prepared (Doc : Type) where
  bytes : List UInt8
  document : Doc
  controller : ResolvedController
  sourceHash : String
  effectiveHash : String

structure ResolvedFeatures where
  capabilities : Finset String
  runtime : Finset RuntimeFeature

inductive OverlapBlock where
  | dnsListen | inboundSurface
  deriving DecidableEq, Repr

/-- `mihomo::ConfigChange`; the patch and the projection it is verified with
stay with the core's control API. -/
inductive ConfigChange where
  | noop | patch | reload | switch
  deriving DecidableEq, Repr

/-- `mihomo::ConfigClassificationView`. -/
structure ClassificationView (Doc : Type) where
  source : Doc
  effective : Doc
  spec : InstanceSpec

def EpochPlan.classificationView {Doc : Type} (plan : EpochPlan Doc) : ClassificationView Doc :=
  ⟨plan.sourceDocument, plan.effectiveDocument, plan.sourceSpec⟩

structure NativeStore (Doc : Type) where
  home : CoreKind → Utf8Path
  nativePaths : CoreKind → Prepared Doc → Except Error (Prepared Doc)

/-- The manager's options and injected parts, and the configuration pipeline. -/
structure Setup (Doc : Type) where
  localIpcPolicy : LocalIpcPolicy
  /-- `DnsController::desired`, when a controller is injected. -/
  dns : Option (Doc → Option DnsIntent)
  /-- The document needs a host DNS controller; never on hosts other than
  macOS. -/
  requiresDns : Doc → Bool
  /-- `dns_timeout`, as its `Debug` text. -/
  dnsTimeout : String
  nativeStore : Option (NativeStore Doc)
  /-- Where an artifact of the runtime directory is. -/
  path : Artifact → Utf8Path
  prepareFull : Snapshot Doc → Epoch → Finset RuntimeFeature → LocalIpcSettings →
    Except Error (Prepared Doc)
  prepareBootstrap : Snapshot Doc → Epoch → Finset RuntimeFeature → LocalIpcSettings →
    Except Error (Prepared Doc)
  classify : ClassificationView Doc → ClassificationView Doc → Except Error ConfigChange
  /-- Whether the bootstrap document has to be patched to the full one. -/
  restorationPatch : Doc → Doc → Except Error Bool
  overlapBlock : Doc → Option OverlapBlock
  /-- A top-level field that is a string. -/
  textField : Doc → String → Option String
  /-- `serde_json::to_vec_pretty` and `from_slice` of a record. -/
  encodeRecord : DnsOverrideRecord → Except String (List UInt8)
  decodeRecord : List UInt8 → Option DnsOverrideRecord

/-! ## The world -/

/-- Which part of the manager deals with a runtime. -/
inductive Site where
  /-- `start_prepared`. -/
  | initial
  /-- The graceful switch's bootstrap. -/
  | bootstrap
  /-- `spawn_replacement`. -/
  | replacement
  /-- `discard_stale`. -/
  | stale
  /-- Whatever else retires the current epoch. -/
  | current
  deriving DecidableEq, Repr

inductive OrphanReapOutcome where
  | notFound | alreadyExited | killed
  deriving DecidableEq, Repr

/-- What happened to epochs, runtimes and plans, newest first. -/
inductive Event (Doc : Type) where
  /-- A manager was built over a directory that names these numbers. -/
  | built (found : List Nat)
  | allocated (epoch : Epoch)
  | launched (site : Site) (epoch : Epoch) (result : Except Error Unit)
  | stopped (epoch : Epoch) (result : Except Error Unit)
  /-- A plan enters `ctrl.current`; `rollback` when it is the one that was
  there before the transaction. -/
  | committed (plan : EpochPlan Doc) (rollback : Bool)
  | reaped (epoch : Epoch) (outcome : OrphanReapOutcome)
  | cleaned (epoch : Epoch)
  /-- The epoch leaves `ctrl.quarantine`. -/
  | released (epoch : Epoch)

/-- Calls to the DNS controller and changes of `dns-override.json`, newest first.
`applying` is the call's start. -/
inductive DnsEvent where
  /-- A manager was built. -/
  | built
  /-- These bytes were published as the record. -/
  | published (bytes : List UInt8)
  | applying (intent : DnsIntent) (epoch : Epoch)
  | applied (record : DnsOverrideRecord)
  | restored (record : DnsOverrideRecord)
  deriving DecidableEq

structure EffectiveConfigSnapshot (Doc : Type) where
  instanceId : Nat
  revision : ConfigRevision
  config : Doc

structure World (Doc : Type) where
  ctrl : Ctrl Doc
  status : CoreStatus
  /-- The last `config_commits` value. -/
  configCommit : Option (EffectiveConfigSnapshot Doc)
  /-- Runtimes launched so far: their numbers are below it. -/
  launches : Nat
  instances : Nat → InstanceStatus
  /-- The instance's status changed and its forwarder has not read it. -/
  unseen : Nat → Bool
  /-- Forwarder tasks at work: the instance they watch and their epoch. -/
  forwarders : List (Nat × Epoch)
  artifacts : Directory
  /-- `dns-override.json` and its staging name. -/
  recordFile : Option (List UInt8)
  recordStaging : Option RecordStaging
  /-- `TEMP_COUNTER`. -/
  temp : Nat
  trace : List (Event Doc)
  dnsTrace : List DnsEvent
  tick : Nat

/-- What runs beside the manager. -/
inductive Background where
  /-- A runtime publishes a status. -/
  | report (number : Nat) (status : InstanceStatus)
  /-- The forwarder of this instance runs. -/
  | forward (number : Nat)
  /-- A runtime writes or removes one of its own artifacts. -/
  | artifact (entry : Artifact) (node : Option Node)
  deriving DecidableEq

inductive DnsFailure where
  | failed (text : String)
  | timedOut
  deriving DecidableEq

/-- The answers of everything outside the manager. -/
structure Env (Doc : Type) where
  crash : Nat → Bool
  background : Nat → List Background
  now : Nat → Int
  /-- A file operation fails with this text. -/
  fault : Nat → Option String
  /-- What a failed write leaves in its file. -/
  torn : Nat → List UInt8
  load : Nat → Utf8Path → Except Error (Snapshot Doc)
  validateLaunchable : Nat → InstanceSpec → Except Error Unit
  resolveFeatures : Nat → InstanceSpec → Except Error ResolvedFeatures
  checkConfig : Nat → InstanceSpec → Except Error Unit
  launch : Nat → Except Error Unit
  waitReady : Nat → Except Error Unit
  stop : Nat → Except Error Unit
  pid : Nat → Option Nat
  /-- The core takes the patch or the reload and probes healthy before the
  reconcile timeout. -/
  reconciled : Nat → Bool
  dnsApply : Nat → DnsIntent → Epoch → Except DnsFailure DnsOverrideRecord
  dnsRestore : Nat → DnsOverrideRecord → Except DnsFailure Unit
  /-- `reap_epoch_pid_file` of a numbered pid record. -/
  reap : Nat → Nat → Except String OrphanReapOutcome
  cleanupController : Nat → Epoch → Except Error Unit

/-- How a run ends without returning. -/
inductive Abort where
  | crash
  | panic (message : String)
  deriving DecidableEq, Repr

end Chimera.Manager
