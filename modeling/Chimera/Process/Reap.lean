import Mathlib.Data.List.Sort
import Chimera.Lib.Keyed
import Chimera.Lib.Program
import Chimera.Process.Identity

/-! Reaping an orphaned core: the record says who it was, and whatever the system
answers about its pid, only that process and its descendants may be killed. -/

namespace Chimera.Process
open Chimera.Lib.Utf8 Chimera.Lib.Fields Chimera.Lib.Program Chimera.Lib.Keyed

instance linearOrderUInt32 : LinearOrder UInt32 where
  le_refl := UInt32.le_refl
  le_trans := fun _ _ _ => UInt32.le_trans
  le_antisymm := fun _ _ => UInt32.le_antisymm
  le_total := UInt32.le_total
  lt_iff_le_not_ge := fun _ _ => UInt32.lt_iff_le_and_ne.trans <| and_congr_right fun h =>
    ⟨fun hne hge => hne (UInt32.le_antisymm h hge), fun hge heq => hge (heq ▸ UInt32.le_refl _)⟩
  toDecidableLE := inferInstance
  toDecidableEq := inferInstance
  toDecidableLT := inferInstance

instance decidableMemUInt32 (pid : UInt32) (pids : List UInt32) : Decidable (pid ∈ pids) :=
  inferInstance

/-! ## Operations -/

abbrev Path := List UInt8

inductive FileType where
  | symlink | file | other
  deriving DecidableEq, Repr

/-- The processes of `System::new_all` in some order, each with its parent. -/
abbrev Table := List (UInt32 × Option UInt32)

/-- What the code asks of the system, which may answer anything. -/
inductive Op : Type → Type
  | processIdentity (pid : UInt32) : Op Observation
  | processes : Op Table
  /-- `pidfd_open` and `open_process`: what is opened stays the same process. -/
  | openProcess (pid : UInt32) : Op (Except IoError Unit)
  /-- `process_identity_from_handle`. -/
  | handleIdentity (pid : UInt32) : Op (Except IoError ProcessIdentity)
  /-- The signal, or `TerminateProcess`. -/
  | kill (pid : UInt32) : Op (Except IoError Unit)
  | canonicalize (path : Path) : Op (Except IoError Path)
  | symlinkMetadata (path : Path) : Op (Except IoError FileType)
  | readToString (path : Path) : Op (Except IoError Text)
  | removeFile (path : Path) : Op (Except IoError Unit)

abbrev Reap := Prog IoError Op

/-- `std::path` on the platform. -/
structure Paths where
  parent : Path → Option Path
  /-- `None` also where the name is not UTF-8. -/
  fileName : Path → Option Text
  display : Path → String

inductive OrphanReapOutcome where
  | notFound | alreadyExited | killed
  deriving DecidableEq, Repr

/-! ## Identities -/

def identityWaitAttempts : Nat := 20

def killWaitAttempts : Nat := 100

/-- `identity_query_is_provisional`. -/
def identityQueryIsProvisional (target : Target) (error : IoError) : Bool :=
  error.kind = .permissionDenied ||
    (target = .windows && [some 6, some 31, some 87, some 1168].contains error.rawOsError)

/-- `identity_for_reap`, with the attempts left and the last error. -/
def identityForReap (target : Target) (pid : UInt32) :
    Nat → Option IoError → Reap (Option ProcessIdentity)
  | 0, accessError => fail (accessError.getD
      ⟨.permissionDenied, none, s!"cannot inspect live pid {pid}"⟩)
  | attempts + 1, _ => do
    match ← perform (.processIdentity pid) with
    | .ok identity => pure identity
    | .error error =>
      if identityQueryIsProvisional target error then
        identityForReap target pid attempts (some error)
      else fail error

def cannotProveOwnership (pid : UInt32) : IoError :=
  identityError s!"cannot prove ownership of live pid {pid}"

/-! ## Killing -/

/-- `kill_revalidated_by_pid`. -/
def killRevalidatedByPid (target : Target) (record : EpochPidRecord) : Reap Unit := do
  match ← demand (.processIdentity record.pid) with
  | none => fail ⟨.notFound, none, s!"pid {record.pid} exited before final validation"⟩
  | some identity =>
    if recordMatchesIdentity target record identity then demand (.kill record.pid)
    else fail (cannotProveOwnership record.pid)

def enosys : Int := 38

def esrch : Int := 3

/-- `LinuxPidFd::kill`. -/
def pidfdKill (pid : UInt32) : Reap Unit := do
  match ← perform (.kill pid) with
  | .ok _ => pure ()
  | .error error => if error.rawOsError = some esrch then pure () else fail error

/-- `kill_recorded_process`. -/
def killRecordedProcess (target : Target) (record : EpochPidRecord) : Reap Unit :=
  match target with
  | .windows => do
    demand (.openProcess record.pid)
    let identity ← demand (.handleIdentity record.pid)
    if recordMatchesIdentity target record identity then demand (.kill record.pid)
    else fail (cannotProveOwnership record.pid)
  | .linux => do
    match ← perform (.openProcess record.pid) with
    | .error error =>
      if error.rawOsError = some enosys then killRevalidatedByPid target record else fail error
    | .ok _ =>
      match ← demand (.processIdentity record.pid) with
      | none => fail ⟨.notFound, none, s!"pid {record.pid} exited before pidfd validation"⟩
      | some identity =>
        if recordMatchesIdentity target record identity then pidfdKill record.pid
        else fail (cannotProveOwnership record.pid)
  | .macos | .other => killRevalidatedByPid target record

/-! ## Descendants -/

/-- The entry of a process in `children`. -/
def children (table : Table) (parent : UInt32) : List UInt32 :=
  table.filterMap fun process => if process.2 = some parent then some process.1 else none

/-- The state of the loop of `descendant_pids`. -/
structure WorkList where
  /-- In order. -/
  descendants : List UInt32
  /-- The last one pushed first. -/
  pending : List UInt32

def WorkList.visit (w : WorkList) (pid : UInt32) : WorkList :=
  if pid ∈ w.descendants then w
  else ⟨w.descendants.orderedInsert (· ≤ ·) pid, pid :: w.pending⟩

/-- The loop, for at most so many of the pending processes. -/
def WorkList.run (table : Table) : Nat → WorkList → WorkList
  | 0, w => w
  | steps + 1, w =>
    match w.pending with
    | [] => w
    | parent :: pending =>
      run table steps ((children table parent).foldl visit { w with pending })

/-- `descendant_pids`: a process is pending once, so the steps suffice. -/
def descendantPids (table : Table) (root : UInt32) : List UInt32 :=
  (WorkList.run table (table.length + 1) ⟨[], [root]⟩).descendants

/-- An identity with a name. -/
structure Attributable where
  identity : ProcessIdentity
  executable : Text
  readable : identity.executable = some executable

/-- `attributable_identity`. -/
def attributableIdentity : Observation → Option Attributable
  | .ok (some identity) =>
    match h : identity.executable with
    | some executable => some ⟨identity, executable, h⟩
    | none => none
  | _ => none

/-- `process_identity` of one after the other. -/
def observeAll : List UInt32 → Reap (List (UInt32 × Option Attributable))
  | [] => pure []
  | pid :: pids => do
    let answer ← perform (.processIdentity pid)
    let rest ← observeAll pids
    pure ((pid, attributableIdentity answer) :: rest)

/-- `merge_descendant_captures`: the last snapshot that saw a process decides. -/
def mergeDescendantCaptures (captured : List (UInt32 × Attributable))
    (second : List (UInt32 × Option Attributable)) : List (UInt32 × Attributable) :=
  second.foldl (fun captured entry =>
    match entry.2 with
    | some identity => put captured entry.1 identity
    | none => remove captured entry.1) captured

/-- `capture_descendants`. -/
def captureDescendants (root : UInt32) : Reap (List (UInt32 × Attributable)) := do
  let first ← observeAll (descendantPids (← perform .processes) root)
  let second ← observeAll (descendantPids (← perform .processes) root)
  pure (mergeDescendantCaptures
    (first.filterMap fun entry => entry.2.map fun identity => (entry.1, identity)) second)

/-! ## Reaping -/

/-- The identity that a kill starts from: whether the process is there and is the
recorded one. `identity_for_confirmation` and the comparison after it. -/
def confirmOwner (target : Target) (record : EpochPidRecord) (unownedIsDead : Bool) :
    Reap Bool := do
  match ← (identityForReap target record.pid identityWaitAttempts none).attempt with
  | .error error => if unownedIsDead then pure false else fail error
  | .ok none => pure false
  | .ok (some identity) =>
    match compareIdentity target record identity with
    | .same => pure true
    | .reused => pure false
    | .uncertain => if unownedIsDead then pure false else fail (cannotProveOwnership record.pid)

/-- The bounded wait after a kill. -/
def awaitDeath (target : Target) (record : EpochPidRecord) (unownedIsDead : Bool)
    (killError : Option IoError) : Nat → Option IoError → Reap OrphanReapOutcome
  | 0, identityError =>
    match killError, identityError with
    | some error, _ => fail error
    | none, some error => fail error
    | none, none => fail
        ⟨.timedOut, none, s!"pid {record.pid} remained alive after validated kill"⟩
  | attempts + 1, _ => do
    match ← perform (.processIdentity record.pid) with
    | .ok none => pure .killed
    | .ok (some identity) =>
      if recordMatchesIdentity target record identity then
        awaitDeath target record unownedIsDead killError attempts none
      else pure .killed
    | .error error =>
      if identityQueryIsProvisional target error then
        if unownedIsDead then pure .killed
        else awaitDeath target record unownedIsDead killError attempts (some error)
      else if unownedIsDead then pure .killed
      else fail error

/-- `Result::err`. -/
def errorOf : Except IoError Unit → Option IoError
  | .ok _ => none
  | .error error => some error

/-- `reap_record_with_kill`. -/
def reapRecordWithKill (target : Target) (record : EpochPidRecord) (unownedIsDead : Bool)
    (kill : Reap Unit) : Reap OrphanReapOutcome := do
  if ← confirmOwner target record unownedIsDead then
    let killed ← kill.attempt
    awaitDeath target record unownedIsDead (errorOf killed) killWaitAttempts none
  else pure .alreadyExited

def descendantRecord (record : EpochPidRecord) (descendant : UInt32 × Attributable) :
    EpochPidRecord where
  pid := descendant.1
  epoch := record.epoch
  executable := descendant.2.executable
  startToken := descendant.2.identity.startToken
  runtimeConfig := record.runtimeConfig

/-- The descendants one after the other: whether one was killed, and what failed. -/
def reapDescendants (target : Target) (record : EpochPidRecord) :
    List (UInt32 × Attributable) → Reap (Bool × List String)
  | [] => pure (false, [])
  | descendant :: more => do
    let recorded := descendantRecord record descendant
    let outcome ← (reapRecordWithKill target recorded true
      (killRecordedProcess target recorded)).attempt
    let (killed, failures) ← reapDescendants target record more
    match outcome with
    | .ok .killed => pure (true, failures)
    | .ok _ => pure (killed, failures)
    | .error error => pure (killed, s!"pid {recorded.pid}: {error.message}" :: failures)

/-- The root, with the descendants that it had before it was killed. -/
def reapRoot (target : Target) (record : EpochPidRecord) :
    Reap (OrphanReapOutcome × List (UInt32 × Attributable)) := do
  if ← confirmOwner target record false then
    let descendants ← captureDescendants record.pid
    let outcome ← reapRecordWithKill target record false (killRecordedProcess target record)
    pure (outcome, descendants)
  else pure (.alreadyExited, [])

/-- `reap_record`. -/
def reapRecord (target : Target) (record : EpochPidRecord) : Reap OrphanReapOutcome := do
  let (outcome, descendants) ← reapRoot target record
  let (killed, failures) ← reapDescendants target record descendants
  if failures ≠ [] then
    fail ⟨.other, none, "failed to confirm death of captured descendants: " ++
      "; ".intercalate failures⟩
  else if killed then pure .killed
  else pure outcome

/-! ## Pid files -/

/-- `epoch_from_file_name`. -/
def epochFromFileName (paths : Paths) (path : Path) (before after : String) :
    Except IoError UInt64 := do
  let some name := paths.fileName path
    | throw (invalidInput "epoch artifact filename must be UTF-8")
  let invalid := invalidInput s!"invalid epoch artifact name \x60{String.ofList name}\x60"
  let some rest := name.dropPrefix? before.toList | throw invalid
  let some epoch := stripSuffix after.toList rest | throw invalid
  match parseUnsigned (2 ^ 64) epoch with
  | some epoch => pure epoch.toUInt64
  | none => throw (invalidInput s!"invalid epoch in artifact name \x60{String.ofList name}\x60")

/-- `read_epoch_pid_file`. -/
def readEpochPidFile (target : Target) (paths : Paths) (path : Path) :
    Reap (Option EpochPidRecord) := do
  match ← perform (.symlinkMetadata path) with
  | .ok .symlink => fail (invalidInput s!"pid file must not be a symlink: {paths.display path}")
  | .ok .other => fail (invalidInput s!"pid file must be a regular file: {paths.display path}")
  | .ok .file =>
    let raw ← demand (.readToString path)
    match parseEpochRecord target raw with
    | .ok record => pure (some record)
    | .error error => fail error
  | .error error => if error.kind = .notFound then pure none else fail error

/-- `validate_runtime_target`. -/
def validateRuntimeTarget (paths : Paths) (path : Path) : Reap Unit := do
  match ← perform (.symlinkMetadata path) with
  | .ok .symlink =>
    fail (invalidInput s!"runtime config must not be a symlink: {paths.display path}")
  | .ok .other => fail (invalidInput s!"runtime config must be a regular file: {paths.display path}")
  | .ok .file => pure ()
  | .error error => if error.kind = .notFound then pure () else fail error

/-- `remove_record_if_matches`. -/
def removeRecordIfMatches (target : Target) (paths : Paths) (path : Path)
    (expected : EpochPidRecord) : Reap Unit := do
  if (← readEpochPidFile target paths path) = some expected then
    match ← perform (.removeFile path) with
    | .ok _ => pure ()
    | .error error => if error.kind = .notFound then pure () else fail error

def lift {α : Type} : Except IoError α → Reap α := .ret

def refuse (wrong : Prop) [Decidable wrong] (error : IoError) : Reap Unit :=
  if wrong then fail error else pure ()

/-- `reap_epoch_pid_file`. -/
def reapEpochPidFile (target : Target) (paths : Paths) (path runtimeDir : Path) :
    Reap OrphanReapOutcome := do
  let runtimeDir ← demand (.canonicalize runtimeDir)
  let some parent := paths.parent path | fail (invalidInput "pid file has no parent directory")
  let parent ← demand (.canonicalize parent)
  refuse (parent ≠ runtimeDir) (invalidInput "pid file escapes the runtime directory")
  let epoch ← lift (epochFromFileName paths path "core-" ".pid")
  match ← readEpochPidFile target paths path with
  | none => pure .notFound
  | some record =>
    refuse (record.epoch ≠ epoch) (invalidData "pid filename and embedded epoch differ")
    let some runtimeParent := paths.parent record.runtimeConfig
      | fail (invalidInput "runtime config has no parent directory")
    let runtimeParent ← demand (.canonicalize runtimeParent)
    refuse (runtimeParent ≠ runtimeDir)
      (invalidInput "runtime config escapes the runtime directory")
    let runtimeEpoch ← lift (epochFromFileName paths record.runtimeConfig "config-" ".yaml")
    refuse (runtimeEpoch ≠ epoch)
      (invalidData "runtime config filename and embedded epoch differ")
    validateRuntimeTarget paths record.runtimeConfig
    let outcome ← reapRecord target record
    removeRecordIfMatches target paths path record
    pure outcome

/-! ## A system that answers from a script -/

structure Script where
  identities : List Observation
  tables : List Table
  killed : Except IoError Unit
  raw : Text

def Script.answer : {β : Type} → Op β → Script → β × Script
  | _, .processIdentity _, s => (s.identities.headD (.ok none), { s with
      identities := s.identities.tail })
  | _, .processes, s => (s.tables.headD [], { s with tables := s.tables.tail })
  | _, .openProcess _, s | _, .removeFile _, s => (.ok (), s)
  | _, .handleIdentity _, s => (.error (identityError "access denied"), s)
  | _, .kill _, s => (s.killed, s)
  | _, .canonicalize path, s => (.ok path, s)
  | _, .symlinkMetadata _, s => (.ok .file, s)
  | _, .readToString _, s => (.ok s.raw, s)

end Chimera.Process
