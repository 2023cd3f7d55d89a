import Chimera.Service.Bridge
import Chimera.Service.Echo
import Chimera.Manager.DnsAgree
import Chimera.Manager.DnsSurvivor
import Chimera.Manager.Revisions
import Chimera.Manager.Atomic
import Chimera.Manager.Litter
import Chimera.Manager.Coherence
import Chimera.Config.Overlap
import Chimera.Config.InPlace
import Chimera.Config.Lossless
import Chimera.Config.Unordered
import Chimera.Config.Canonical
import Chimera.Config.Preparation
import Chimera.Config.Restoration
import Chimera.Instance.Lifecycle
import Chimera.Log.Panics
import Chimera.Log.Caps
import Chimera.Log.Clock
import Chimera.Log.Rollover
import Chimera.Native.Exclusion
import Chimera.Native.Migration
import Chimera.Process.Death
import Chimera.Process.Authority
import Chimera.Control.Identity
import Chimera.Engine.Pump
import Chimera.Engine.Steps
import Chimera.Supervision.Budget
import Chimera.Process.Descendants
import Chimera.Control.OperationIds
import Chimera.Instance.Tracker
import Chimera.Log.Logfmt
import Chimera.Process.Codec
import Chimera.Manager.Sweep
import Chimera.Serde.Matching
import Chimera.Serde.Reference
import Chimera.Service.Legacy
import Chimera.Log.Sink
import Chimera.Instance.Driver
import Chimera.Manager.Crash
import Chimera.Manager.DnsPower
import Chimera.Resolver.Macos
