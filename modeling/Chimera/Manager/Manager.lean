import Chimera.Manager.Apply
import Chimera.Lib.Transition

/-! The public operations of a core manager, its construction, and the machine
of its runs. -/

namespace Chimera.Manager
open Chimera.Model Chimera.Lib.Program Chimera.Lib.Transition

variable {Doc : Type}

/-! ## The converge tail -/

/-- How `finish_dns_converge` joins the result of a transaction and of its
tail. -/
def joinDns {α : Type} (result : Except Error α) (dns : Except Error Unit) : Except Error α :=
  match result, dns with
  | .ok outcome, .ok () => .ok outcome
  | .ok _, .error dnsError => .error (.applyFailed
      ("runtime transition completed, but host DNS state is unconfirmed: " ++ dnsError.display))
  | .error operationError, .ok () => .error operationError
  | .error operationError, .error dnsError => .error (.applyFailed
      ("runtime transition failed (" ++ operationError.display ++
        "); host DNS convergence also failed: " ++ dnsError.display))

def finishDnsConverge {α : Type} (result : Except Error α) : Control Doc α := do
  let alive ← runtimeAlive
  if result.isOk || !alive then do
    let dns ← perform .dnsConverge
    Prog.ret (joinDns result dns)
  else Prog.ret result

/-! ## Operations -/

def start (setup : Setup Doc) (spec : InstanceSpec) : Control Doc Unit := do
  rejectQuarantine
  if ← runtimeAlive then fail .alreadyRunning
  else do
    discardStale
    let result ← (startLocked setup spec).attempt
    finishDnsConverge result

def restart (setup : Setup Doc) : Control Doc SwitchOutcome := do
  rejectQuarantine
  match ← perform .lastSpec with
  | none => fail .notStarted
  | some spec =>
    let result ← (switchLocked setup spec).attempt
    finishDnsConverge result

def switch (setup : Setup Doc) (spec : InstanceSpec) : Control Doc SwitchOutcome := do
  rejectQuarantine
  let result ← (switchLocked setup spec).attempt
  finishDnsConverge result

def applyConfig (setup : Setup Doc) (input : InstanceSpec) (expected : Option RevisionId) :
    Control Doc ApplyOutcome := do
  rejectQuarantine
  let result ← (applyLocked setup input expected).attempt
  finishDnsConverge result

def reconcileLocked (setup : Setup Doc) (spec : InstanceSpec) (expected : Option RevisionId) :
    Control Doc ApplyOutcome := do
  if ← runtimeAlive then applyLocked setup spec expected
  else
    match expected with
    | some expected => fail (.revisionConflict expected none)
    | none => do
      discardStale
      startLocked setup spec
      match ← perform .current with
      | some active => pure (.started active.plan.revision)
      | none => expect "start_locked installed the active runtime"

def reconcile (setup : Setup Doc) (spec : InstanceSpec) (expected : Option RevisionId) :
    Control Doc ApplyOutcome := do
  rejectQuarantine
  let result ← (reconcileLocked setup spec expected).attempt
  finishDnsConverge result

/-! ## Recovery -/

/-- The second half of an entry's recovery; a failure as its text. -/
def cleanupEntry (entry : QuarantinedEpoch) : Control Doc (Option String) := do
  match ← perform (.cleanupEpoch .current entry.epoch) with
  | .ok () =>
    perform (.release entry.epoch)
    pure none
  | .error error => pure (some ("epoch " ++ entry.epoch.display ++ ": " ++ entry.reason ++
      "; artifact cleanup failed: " ++ error.display))

/-- One turn of the loop of `recover_quarantine`. -/
def recoverEntry (entry : QuarantinedEpoch) : Control Doc (Option String) :=
  if entry.deathProven then cleanupEntry entry
  else do
    match ← perform (.reap entry.epoch) with
    | .ok .notFound => pure (some ("epoch " ++ entry.epoch.display ++ ": " ++ entry.reason ++
        "; authoritative epoch pid record is unavailable"))
    | .ok _ =>
      perform (.proveDeath entry.epoch)
      cleanupEntry entry
    | .error error => pure (some ("epoch " ++ entry.epoch.display ++ ": " ++ entry.reason ++
        "; recovery failed: " ++ error))

/-- The failures, in the order of the entries. -/
def recoverEntries : List QuarantinedEpoch → Control Doc (List String)
  | [] => pure []
  | entry :: rest => do
    let failure ← recoverEntry entry
    let failures ← recoverEntries rest
    pure (failure.toList ++ failures)

def recoverQuarantine : Control Doc Unit := do
  let quarantined ← perform .quarantine
  if quarantined.isEmpty then pure ()
  else do
    let failures ← recoverEntries quarantined
    if failures.isEmpty then do
      demand .dnsRestore
      perform (.publish (.stopped none) none)
    else
      match ← perform .quarantine with
      | first :: _ => fail (.managerQuarantined first.epoch (" | ".intercalate failures))
      | [] => expect "a failed recovery leaves its epoch quarantined"

/-! ## Construction -/

/-- One discovered number of `sweep_orphans`. -/
def sweepOrphan (number : Nat) : Control Doc Unit := do
  if ← demand (.pidExists number) then do
    match ← perform (.reapOrphan number) with
    | .ok _ => sweepFiles
    | .error error => fail (.io error)
  else sweepFiles
where
  sweepFiles : Control Doc Unit := do
    match Epoch.new number with
    | some epoch =>
      demand (.cleanupController epoch)
      demand (.cleanupArtifacts number)
    | none => demand (.cleanupArtifacts number)

def sweepAll : List Nat → Control Doc Unit
  | [] => pure ()
  | number :: rest => do
    sweepOrphan number
    sweepAll rest

/-- `build_configured`, after its options were validated and the directory is
owned. -/
def build : Control Doc Unit := do
  let found ← demand .artifactEpochs
  sweepAll found
  let _ ← perform .reconcileOrphan
  perform (.boot found)

/-! ## Runs -/

inductive Command where
  | start (spec : InstanceSpec)
  | stop
  | shutdown
  | switch (spec : InstanceSpec)
  | restart
  | applyConfig (spec : InstanceSpec) (expected : Option RevisionId)
  | reconcile (spec : InstanceSpec) (expected : Option RevisionId)
  | recoverQuarantine

/-- What an operation returns, without its type. -/
inductive Reply where
  | done
  | switched (outcome : SwitchOutcome)
  | applied (outcome : ApplyOutcome)

def program (setup : Setup Doc) : Command → Control Doc Reply
  | .start spec => do start setup spec; pure .done
  | .stop => do stop; pure .done
  | .shutdown => do shutdown; pure .done
  | .switch spec => return .switched (← switch setup spec)
  | .restart => return .switched (← restart setup)
  | .applyConfig spec expected => return .applied (← applyConfig setup spec expected)
  | .reconcile spec expected => return .applied (← reconcile setup spec expected)
  | .recoverQuarantine => do recoverQuarantine; pure .done

/-- One manager process after another over one runtime directory: where one has crashed, time
passes and the next is built. -/
structure System (Doc : Type) where
  world : World Doc
  /-- A manager is there: built, and not crashed since. -/
  up : Bool

inductive Label where
  | build
  | call (command : Command)
  /-- Time passes, between two operations or with no manager there. -/
  | idle

/-- How a system goes on after a run: a crash takes the manager with it, a
panic only the operation. -/
def System.after {α : Type} : Except Abort (Except Error α) × World Doc → System Doc
  | (.ok _, w) => ⟨w, true⟩
  | (.error (.panic _), w) => ⟨w, true⟩
  | (.error .crash, w) => ⟨w, false⟩

def System.step (setup : Setup Doc) (env : Env Doc) (s : System Doc) : Label → Option (System Doc)
  | .build =>
    if s.up then none
    else match exec (handle setup env) build s.world with
      | (.ok (.ok ()), w) => some ⟨w, true⟩
      | (_, w) => some ⟨w, false⟩
  | .call command =>
    if s.up then some (System.after (exec (handle setup env) (program setup command) s.world))
    else none
  | .idle => some ⟨s.world.elapse env, s.up⟩

/-- What a step of a run does. -/
theorem System.step_cases {setup : Setup Doc} {env : Env Doc} {s t : System Doc} {label : Label}
    (h : s.step setup env label = some t) :
    (label = .build ∧ s.up = false ∧ ∃ r, exec (handle setup env) build s.world = (r, t.world) ∧
      (t.up = true ↔ r = .ok (.ok ()))) ∨
    (∃ command, label = .call command ∧ s.up = true ∧
      ∃ r, exec (handle setup env) (program setup command) s.world = (r, t.world) ∧
        (t.up = false ↔ r = .error .crash)) ∨
    (label = .idle ∧ t = ⟨s.world.elapse env, s.up⟩) := by
  cases label with
  | build =>
    simp only [System.step] at h
    split at h
    · cases h
    · rename_i hup
      refine .inl ⟨rfl, by simpa using hup, ?_⟩
      rcases hrun : exec (handle setup env) build s.world with ⟨x | (e | u), w⟩
      · rw [hrun] at h
        cases h
        exact ⟨_, rfl, by simp⟩
      · rw [hrun] at h
        cases h
        exact ⟨_, rfl, by simp⟩
      · rw [hrun] at h
        cases h
        exact ⟨_, rfl, by simp⟩
  | call command =>
    simp only [System.step] at h
    split at h
    · rename_i hup
      cases h
      refine .inr (.inl ⟨command, rfl, hup, ?_⟩)
      rcases exec (handle setup env) (program setup command) s.world with ⟨x | r, u⟩
      · cases x with
        | crash => exact ⟨_, rfl, by simp [System.after]⟩
        | panic message => exact ⟨_, rfl, by simp [System.after]⟩
      · exact ⟨_, rfl, by simp [System.after]⟩
    · cases h
  | idle =>
    cases h
    exact .inr (.inr ⟨rfl, rfl⟩)

/-- A runtime directory as a first manager finds it. -/
def World.initial (artifacts : Directory) (recordFile : Option (List UInt8))
    (recordStaging : Option RecordStaging) : World Doc where
  ctrl := Ctrl.new 0
  status := CoreStatus.initialAt 0
  configCommit := none
  launches := 0
  instances := fun _ => ⟨none, .starting, none⟩
  unseen := fun _ => false
  forwarders := []
  artifacts := artifacts
  recordFile := recordFile
  recordStaging := recordStaging
  temp := 0
  trace := []
  dnsTrace := []
  tick := 0

def manager (setup : Setup Doc) (env : Env Doc) (artifacts : Directory)
    (recordFile : Option (List UInt8)) (recordStaging : Option RecordStaging) :
    Machine (System Doc) Label where
  init := ⟨World.initial artifacts recordFile recordStaging, false⟩
  step := System.step setup env

/-! ## A plain host

Surroundings for concrete runs: documents are numbers, a document is its own
file's only byte, and everything that is asked succeeds. -/

def plainSetup : Setup Nat where
  localIpcPolicy := .disable
  dns := none
  requiresDns := fun _ => false
  dnsTimeout := "10s"
  nativeStore := none
  path := fun _ => "/run/chimera/artifact"
  prepareFull := fun snapshot _ _ _ => .ok ⟨[snapshot.document.toUInt8], snapshot.document,
    ⟨.http "127.0.0.1:9090", none⟩, "source", "effective"⟩
  prepareBootstrap := fun snapshot _ _ _ => .ok ⟨[snapshot.document.toUInt8], snapshot.document,
    ⟨.http "127.0.0.1:9090", none⟩, "source", "effective"⟩
  classify := fun current desired =>
    .ok (if current.effective = desired.effective then .noop else .reload)
  restorationPatch := fun _ _ => .ok false
  overlapBlock := fun _ => none
  textField := fun _ _ => none
  encodeRecord := fun _ => .error "no host DNS"
  decodeRecord := fun _ => none

def plainEnv (document : Nat) : Env Nat where
  crash := fun _ => false
  background := fun _ => []
  now := fun tick => tick
  fault := fun _ => none
  torn := fun _ => []
  load := fun _ path => .ok ⟨path, document⟩
  validateLaunchable := fun _ _ => .ok ()
  resolveFeatures := fun _ _ => .ok ⟨∅, ∅⟩
  checkConfig := fun _ _ => .ok ()
  launch := fun _ => .ok ()
  waitReady := fun _ => .ok ()
  stop := fun _ => .ok ()
  pid := fun _ => some 1
  reconciled := fun _ => true
  dnsApply := fun _ _ _ => .error .timedOut
  dnsRestore := fun _ _ => .ok ()
  reap := fun _ _ => .ok .notFound
  cleanupController := fun _ _ => .ok ()

/-- The pretty JSON text of a record whose strings need no escapes. -/
def recordText (r : DnsOverrideRecord) : List UInt8 :=
  ("\x7b\n  \"interface\": " ++ quoted r.iface ++ ",\n  \"previous\": " ++ listed r.previous ++
    ",\n  \"applied\": " ++ listed r.applied ++ ",\n  \"runtime_epoch\": " ++
    toString r.runtimeEpoch ++ ",\n  \"owner_generation\": " ++
    r.ownerGeneration.elim "null" toString ++ ",\n  \"state\": " ++ quoted (match r.state with
      | .applied => "applied"
      | .restorePending => "restore_pending") ++ "\n\x7d").toList.map fun c => c.toNat.toUInt8
where
  quoted (text : String) : String := "\"" ++ text ++ "\""
  listed : List String → String
    | [] => "[]"
    | texts => "[\n    " ++ ",\n    ".intercalate (texts.map quoted) ++ "\n  ]"

/-- A host with a DNS controller: odd documents want the override. -/
def hostSetup : Setup Nat :=
  { plainSetup with
    dns := some fun document => if document % 2 = 1 then some ⟨["127.0.0.1"]⟩ else none
    encodeRecord := fun r => .ok (recordText r) }

/-- What the controller reads back from the host. -/
def hostRecord (intent : DnsIntent) (epoch : Epoch) : DnsOverrideRecord :=
  ⟨"en0", ["192.168.1.1"], intent.servers, epoch.get, none, .applied⟩

def plainSpec : InstanceSpec where
  core := ⟨.mihomo, "/opt/mihomo", none, []⟩
  configPath := "/etc/chimera/config.yaml"
  workingDir := "/var/lib/chimera"
  pidFile := none
  options := {}

end Chimera.Manager
