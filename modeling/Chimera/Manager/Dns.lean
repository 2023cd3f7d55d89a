import Chimera.Manager.Publish

/-! DNS override convergence: activation before a launch, restoration before an
unprotected plan, the converge tail, and the record that makes each of them
recoverable.

The functions are programs over the primitives below, which are the only code
that touches the host resolver, `dns-override.json` and `ctrl.dns_record`. -/

namespace Chimera.Manager
open Chimera.Model Chimera.Lib.Program

inductive RemoveFailure where
  | notFound
  | failed (text : String)
  deriving DecidableEq, Repr

inductive DnsPrim (Doc : Type) : Type → Type
  /-- `ctrl.dns_record`. -/
  | record : DnsPrim Doc (Option DnsOverrideRecord)
  | setRecord (record : Option DnsOverrideRecord) : DnsPrim Doc Unit
  /-- The current plan and its instance's epoch, if the instance has not
  ended. -/
  | running : DnsPrim Doc (Option (EpochPlan Doc × Epoch))
  | createStaging : DnsPrim Doc (Except String Unit)
  | writeStaging (bytes : List UInt8) : DnsPrim Doc (Except String Unit)
  | syncStaging : DnsPrim Doc (Except String Unit)
  | removeStaging : DnsPrim Doc (Except String Unit)
  | recordExists : DnsPrim Doc (Except String Bool)
  /-- `rename` of the staging file over the record. -/
  | renameStaging : DnsPrim Doc (Except String Unit)
  /-- `hard_link` of the staging file as the record. -/
  | linkStaging : DnsPrim Doc (Except String Unit)
  | readRecord : DnsPrim Doc (Except String (List UInt8))
  | removeRecord : DnsPrim Doc (Except RemoveFailure Unit)
  | syncDir : DnsPrim Doc (Except String Unit)
  /-- `dns.apply` is called; it answers, if at all, at the next primitive. -/
  | applying (intent : DnsIntent) (epoch : Epoch) : DnsPrim Doc Unit
  | applied (intent : DnsIntent) (epoch : Epoch) : DnsPrim Doc (Except DnsFailure DnsOverrideRecord)
  | restore (record : DnsOverrideRecord) : DnsPrim Doc (Except DnsFailure Unit)

variable {Doc : Type}

/-- The current plan and epoch of a runtime that has not ended. -/
def World.running (w : World Doc) : Option (EpochPlan Doc × Epoch) :=
  match w.ctrl.current with
  | some active =>
    if (w.instances active.inst.number).state.isTerminal then none
    else some (active.plan, active.inst.epoch)
  | none => none

/-! ### The record's two names -/

/-- Written under the staging name, and so into the record where that is its second name. -/
def writeStaged (bytes : List UInt8) : Option (List UInt8) → Option RecordStaging →
    Option (List UInt8) × Option RecordStaging
  | some _, some .link => (some bytes, some .link)
  | record, _ => (record, some (.own bytes))

/-- The record and the staging name after a `rename` of the one over the other, which does
nothing between two links of one file. -/
def renameStaged : Option (List UInt8) → Option RecordStaging →
    Option (List UInt8 × Option RecordStaging)
  | _, some (.own bytes) => some (bytes, none)
  | some bytes, some .link => some (bytes, some .link)
  | none, some .link | _, none => none

/-- The bytes that a `hard_link` of the staging name publishes as the record. -/
def linkStaged : Option (List UInt8) → Option RecordStaging → Except String (List UInt8)
  | none, some (.own bytes) => .ok bytes
  | some _, some _ => .error "File exists (os error 17)"
  | none, some .link | _, none => .error "No such file or directory (os error 2)"

/-- The staging name once the record's name of these bytes is gone. -/
def RecordStaging.alone (bytes : List UInt8) : RecordStaging → RecordStaging
  | .own staged => .own staged
  | .link => .own bytes

def World.writeStaged (w : World Doc) (bytes : List UInt8) : World Doc :=
  let (recordFile, recordStaging) := Manager.writeStaged bytes w.recordFile w.recordStaging
  { w with recordFile, recordStaging }

/-! ### The primitives -/

def World.setDnsRecord (w : World Doc) (record : Option DnsOverrideRecord) : World Doc :=
  { w with ctrl := { w.ctrl with dnsRecord := record } }

/-- A file operation: it fails with no effect, or does `act`. -/
def faulty (env : Env Doc) (act : World Doc → Except String Unit × World Doc) (w : World Doc) :
    Except Abort (Except String Unit) × World Doc :=
  outside env (fun tick w => match env.fault tick with
    | some text => (.error text, w)
    | none => act w) w

def dnsHandle (env : Env Doc) : Handler (DnsPrim Doc) (World Doc) Abort
  | _, .record, w => (.ok w.ctrl.dnsRecord, w)
  | _, .setRecord record, w => (.ok (), w.setDnsRecord record)
  | _, .running, w => outside env (fun _ w => (w.running, w)) w
  | _, .createStaging, w => faulty env (fun w => (.ok (), w.writeStaged [])) w
  | _, .writeStaging bytes, w => outside env (fun tick w => match env.fault tick with
    | some text => (.error text, w.writeStaged (env.torn tick))
    | none => (.ok (), w.writeStaged bytes)) w
  | _, .syncStaging, w => faulty env (fun w => (.ok (), w)) w
  | _, .removeStaging, w => faulty env (fun w => (.ok (), { w with recordStaging := none })) w
  | _, .recordExists, w => outside env (fun tick w => match env.fault tick with
    | some text => (.error text, w)
    | none => (.ok w.recordFile.isSome, w)) w
  | _, .renameStaging, w => faulty env (fun w =>
    match renameStaged w.recordFile w.recordStaging with
    | some (bytes, staging) => (.ok (), { w with
        recordFile := some bytes
        recordStaging := staging
        dnsTrace := .published bytes :: w.dnsTrace })
    | none => (.error "No such file or directory (os error 2)", w)) w
  | _, .linkStaging, w => faulty env (fun w => match linkStaged w.recordFile w.recordStaging with
    | .ok bytes => (.ok (), { w with
        recordFile := some bytes
        recordStaging := some .link
        dnsTrace := .published bytes :: w.dnsTrace })
    | .error text => (.error text, w)) w
  | _, .readRecord, w => outside env (fun tick w => match env.fault tick with
    | some text => (.error text, w)
    | none => match w.recordFile with
      | some bytes => (.ok bytes, w)
      | none => (.error "No such file or directory (os error 2)", w)) w
  | _, .removeRecord, w => outside env (fun tick w => match env.fault tick with
    | some text => (.error (.failed text), w)
    | none => match w.recordFile with
      | some bytes => (.ok (), { w with
          recordFile := none
          recordStaging := w.recordStaging.map (.alone bytes) })
      | none => (.error .notFound, w)) w
  | _, .syncDir, w => faulty env (fun w => (.ok (), w)) w
  | _, .applying intent epoch, w =>
    (.ok (), { w with dnsTrace := .applying intent epoch :: w.dnsTrace })
  | _, .applied intent epoch, w => outside env (fun tick w =>
    match env.dnsApply tick intent epoch with
    | .ok record => (.ok record, { w with dnsTrace := .applied record :: w.dnsTrace })
    | .error failure => (.error failure, w)) w
  | _, .restore record, w => outside env (fun tick w =>
    match env.dnsRestore tick record with
    | .ok () => (.ok (), { w with dnsTrace := .restored record :: w.dnsTrace })
    | .error failure => (.error failure, w)) w

/-! ## The record -/

/-- The staged publication of `persist_dns_record`. -/
def publishRecord (setup : Setup Doc) (entry : DnsOverrideRecord) :
    Prog String (DnsPrim Doc) Unit := do
  let bytes ← Prog.ret (setup.encodeRecord entry)
  demand .createStaging
  demand (.writeStaging bytes)
  demand .syncStaging
  if ← demand .recordExists then
    demand .renameStaging
  else do
    demand .linkStaging
    demand .removeStaging

/-- The arms of `persist_dns_record`, up to the point where the record is
visible, or gone. -/
def persistFile (setup : Setup Doc) : Option DnsOverrideRecord → Prog String (DnsPrim Doc) Unit
  | some entry => do
    match ← (publishRecord setup entry).attempt with
    | .ok () =>
      let _ ← perform .syncDir
      pure ()
    | .error error =>
      let _ ← perform .removeStaging
      fail error
  | none => do
    match ← perform .removeRecord with
    | .ok () =>
      let _ ← perform .syncDir
      pure ()
    | .error .notFound => pure ()
    | .error (.failed text) => fail text

def persistDnsRecord (setup : Setup Doc) (record : Option DnsOverrideRecord) :
    Prog String (DnsPrim Doc) Unit := do
  persistFile setup record
  perform (.setRecord record)

/-! ## Activation and restoration -/

/-- What a record that carries a read-back interface says to restore to. -/
def baselineOf (record : Option DnsOverrideRecord) : Option (String × List String) :=
  (record.filter fun r => !r.iface.isEmpty).map fun r => (r.iface, r.previous)

def preRecord (baseline : Option (String × List String)) (intent : DnsIntent) (epoch : Epoch) :
    DnsOverrideRecord where
  iface := baseline.elim "" Prod.fst
  previous := baseline.elim [] Prod.snd
  applied := intent.servers
  runtimeEpoch := epoch.get
  ownerGeneration := none
  state := .applied

/-- The texts that tell the two callers of `applyOverride` apart. -/
structure ApplyTexts where
  ownership : String
  failed : String
  timedOut : String
  interface : String
  readBack : String

/-- The part that `dns_activate_for_plan` and `dns_converge` have in common: the
record first, then the override, then what was read back. -/
def applyOverride (setup : Setup Doc) (texts : ApplyTexts) (intent : DnsIntent) (epoch : Epoch) :
    Prog Error (DnsPrim Doc) Unit := do
  let baseline := baselineOf (← perform .record)
  (persistDnsRecord setup (some (preRecord baseline intent epoch))).mapError fun error =>
    Error.applyFailed (texts.ownership ++ error)
  perform (.applying intent epoch)
  match ← perform (.applied intent epoch) with
  | .error (.failed text) => fail (.applyFailed (texts.failed ++ text))
  | .error .timedOut => fail (.applyFailed texts.timedOut)
  | .ok record =>
    match baseline with
    | some (iface, previous) =>
      if record.iface ≠ iface then fail (.applyFailed texts.interface)
      else (persistDnsRecord setup (some { record with previous })).mapError fun error =>
        Error.applyFailed (texts.readBack ++ error)
    | none =>
      (persistDnsRecord setup (some record)).mapError fun error =>
        Error.applyFailed (texts.readBack ++ error)

def activationTexts (setup : Setup Doc) : ApplyTexts where
  ownership := "could not persist DNS override ownership before activation: "
  failed := "DNS override activation failed: "
  timedOut := "DNS override activation timed out after " ++ setup.dnsTimeout
  interface := "DNS interface changed while the override was active"
  readBack := "could not persist DNS override read-back before activation: "

def convergenceTexts (setup : Setup Doc) : ApplyTexts where
  ownership := "could not persist DNS override ownership during convergence: "
  failed := "DNS override convergence failed; ownership record retained: "
  timedOut := "DNS override convergence timed out after " ++ setup.dnsTimeout ++
    "; ownership record retained"
  interface := "DNS interface changed during convergence; ownership record retained"
  readBack := "could not persist DNS override read-back during convergence: "

def dnsActivateForPlan (setup : Setup Doc) (plan : EpochPlan Doc) :
    Prog Error (DnsPrim Doc) Unit :=
  match setup.dns with
  | none =>
    if setup.requiresDns plan.effectiveDocument then
      fail (.applyFailed
        "this macOS config requires a host DNS controller, but none is registered")
    else pure ()
  | some desired =>
    match desired plan.effectiveDocument with
    | none => pure ()
    | some intent => applyOverride setup (activationTexts setup) intent plan.revision.epoch

def dnsRestore (setup : Setup Doc) : Prog Error (DnsPrim Doc) Unit := do
  match ← perform .record with
  | none => pure ()
  | some record =>
    if setup.dns.isNone then
      fail (.applyFailed "DNS override is recorded but no host DNS controller is registered")
    else do
      -- Undoing an override is not held up by a record that cannot be updated.
      let _ ← (persistDnsRecord setup (some { record with state := .restorePending })).attempt
      match ← perform (.restore record) with
      | .ok () =>
        let _ ← (persistDnsRecord setup none).attempt
        pure ()
      | .error (.failed text) =>
        fail (.applyFailed ("DNS override restore failed; ownership record retained: " ++ text))
      | .error .timedOut =>
        fail (.applyFailed ("DNS override restore timed out after " ++ setup.dnsTimeout ++
          "; ownership record retained"))

def dnsDeactivateForPlan (setup : Setup Doc) (plan : EpochPlan Doc) :
    Prog Error (DnsPrim Doc) Unit := do
  match ← perform .record with
  | none => pure ()
  | some _ =>
    if (setup.dns.bind fun desired => desired plan.effectiveDocument).isSome then pure ()
    else dnsRestore setup

def dnsConverge (setup : Setup Doc) : Prog Error (DnsPrim Doc) Unit :=
  match setup.dns with
  | none => dnsRestore setup
  | some desired => do
    let live ← perform .running
    match live.bind fun (plan, epoch) => (desired plan.effectiveDocument).map (·, epoch) with
    | none => dnsRestore setup
    | some (intent, epoch) => applyOverride setup (convergenceTexts setup) intent epoch

/-- Startup: a record left behind by a dead process is restored and cleared. -/
def reconcileOrphanRecord (setup : Setup Doc) : Prog Error (DnsPrim Doc) Unit := do
  match ← perform .readRecord with
  | .error _ => pure ()
  | .ok bytes =>
    match setup.decodeRecord bytes, setup.dns with
    | some record, some _ =>
      match ← perform (.restore record) with
      | .ok () =>
        let _ ← perform .removeRecord
        pure ()
      | .error _ => pure ()
    | _, _ => pure ()

end Chimera.Manager
