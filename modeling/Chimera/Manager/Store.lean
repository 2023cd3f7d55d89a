import Chimera.Manager.Dns
import Mathlib.Data.List.Sort

/-! The durable runtime configuration store: staged, committed and backed-up
epoch files, and the sweep over their names.

A file is its name and its bytes: every operation acts on the names it is given
and on no other, and a failed one leaves them as they were, but for a torn
write into a staging file. -/

namespace Chimera.Manager
open Chimera.Model Chimera.Lib.Program

inductive StorePrim : Type → Type
  /-- `TEMP_COUNTER.fetch_add`. -/
  | temp : StorePrim Nat
  /-- `symlink_metadata`, `none` for an absent entry. -/
  | stat (a : Artifact) : StorePrim (Except String (Option Node))
  | createNew (a : Artifact) : StorePrim (Except String Unit)
  | setPermissions (a : Artifact) : StorePrim (Except String Unit)
  | write (a : Artifact) (bytes : List UInt8) : StorePrim (Except String Unit)
  | sync (a : Artifact) : StorePrim (Except String Unit)
  | link (source target : Artifact) : StorePrim (Except String Unit)
  | rename (source target : Artifact) : StorePrim (Except String Unit)
  | remove (a : Artifact) : StorePrim (Except String Unit)
  | read (a : Artifact) : StorePrim (Except String (List UInt8))
  | readDir : StorePrim (Except String (List Artifact))
  | syncDir : StorePrim (Except String Unit)

variable {Doc : Type}

def World.setArtifacts (w : World Doc) (d : Directory) : World Doc := { w with artifacts := d }

def absent : String := "No such file or directory (os error 2)"

/-- What a file operation that is not made to fail does to the directory. -/
def Directory.createNew (d : Directory) (a : Artifact) : Except String Unit × Directory :=
  match d.find a with
  | some _ => (.error "File exists (os error 17)", d)
  | none => (.ok (), d.put a (.file []))

def Directory.link (d : Directory) (source target : Artifact) : Except String Unit × Directory :=
  match d.find source, d.find target with
  | some n, none => (.ok (), d.put target n)
  | some _, some _ => (.error "File exists (os error 17)", d)
  | none, _ => (.error absent, d)

def Directory.rename (d : Directory) (source target : Artifact) :
    Except String Unit × Directory :=
  match d.find source with
  | some n => (.ok (), (d.erase source).put target n)
  | none => (.error absent, d)

def Directory.remove (d : Directory) (a : Artifact) : Except String Unit × Directory :=
  match d.find a with
  | some _ => (.ok (), d.erase a)
  | none => (.error absent, d)

def Directory.read (d : Directory) (a : Artifact) : Except String (List UInt8) :=
  match d.find a with
  | some (.file bytes) => .ok bytes
  | some _ => .error "Is a directory (os error 21)"
  | none => .error absent

/-- A directory operation: it fails with no effect, or does `act`. -/
def onDirectory {β : Type} (env : Env Doc) (act : Directory → Except String β × Directory)
    (w : World Doc) : Except Abort (Except String β) × World Doc :=
  outside env (fun tick w => match env.fault tick with
    | some text => (.error text, w)
    | none => ((act w.artifacts).1, w.setArtifacts (act w.artifacts).2)) w

def storeHandle (env : Env Doc) : Handler StorePrim (World Doc) Abort
  | _, .temp, w => (.ok w.temp, { w with temp := w.temp + 1 })
  | _, .stat a, w => onDirectory env (fun d => (.ok (d.find a), d)) w
  | _, .createNew a, w => onDirectory env (fun d => d.createNew a) w
  | _, .setPermissions _, w => onDirectory env (fun d => (.ok (), d)) w
  | _, .write a bytes, w => outside env (fun tick w => match env.fault tick with
    | some text => (.error text, w.setArtifacts (w.artifacts.put a (.file (env.torn tick))))
    | none => (.ok (), w.setArtifacts (w.artifacts.put a (.file bytes)))) w
  | _, .sync _, w => onDirectory env (fun d => (.ok (), d)) w
  | _, .link source target, w => onDirectory env (fun d => d.link source target) w
  | _, .rename source target, w => onDirectory env (fun d => d.rename source target) w
  | _, .remove a, w => onDirectory env (fun d => d.remove a) w
  | _, .read a, w => onDirectory env (fun d => (d.read a, d)) w
  | _, .readDir, w => onDirectory env (fun d => (.ok (d.map Prod.fst), d)) w
  | _, .syncDir, w => onDirectory env (fun d => (.ok (), d)) w

/-! ## `atomic_fs` -/

/-- A file operation under `?`. -/
def file {β : Type} (op : StorePrim (Except String β)) : Prog Error StorePrim β :=
  .call op fun r => .ret (r.mapError Error.io)

def validateAbsentRegularTarget (setup : Setup Doc) (a : Artifact) : Prog Error StorePrim Unit := do
  match ← file (.stat a) with
  | none => pure ()
  | some (.file _) => fail (.io ("runtime artifact already exists: " ++ setup.path a))
  | some _ => fail (.unsafeRuntimeArtifact (setup.path a))

def validateExistingRegularTarget (setup : Setup Doc) (a : Artifact) :
    Prog Error StorePrim Unit := do
  match ← file (.stat a) with
  | none => fail (.io absent)
  | some (.file _) => pure ()
  | some _ => fail (.unsafeRuntimeArtifact (setup.path a))

def removeRegularFile (setup : Setup Doc) (a : Artifact) : Prog Error StorePrim Unit := do
  match ← file (.stat a) with
  | none => pure ()
  | some (.file _) => file (.remove a)
  | some _ => fail (.unsafeRuntimeArtifact (setup.path a))

def removeSocketArtifact (setup : Setup Doc) (a : Artifact) : Prog Error StorePrim Unit := do
  match ← file (.stat a) with
  | none => pure ()
  | some .socket => file (.remove a)
  | some _ => fail (.unsafeRuntimeArtifact (setup.path a))

/-- Publishes by linking, then removes the staging name. -/
def atomicMoveNew (source target : Artifact) : Prog Error StorePrim Unit := do
  file (.link source target)
  file (.remove source)

/-! ## The store -/

/-- `StagedRuntimeConfig`. -/
structure Staged where
  epoch : Epoch
  suffix : Nat
  deriving DecidableEq

def Staged.artifact (s : Staged) : Artifact := .staging s.epoch.get s.suffix

/-- `RuntimeConfigBackup`. -/
structure Backup where
  epoch : Epoch
  generation : Nat
  deriving DecidableEq

def Backup.artifact (b : Backup) : Artifact := .backup b.epoch.get b.generation

/-- `Drop` of a staged config that was not consumed. -/
def dropStaged (staged : Staged) : Prog Error StorePrim Unit := do
  let _ ← perform (.remove staged.artifact)
  pure ()

/-- What a staged config is moved to, unless the move fails and it is dropped. -/
def orDropStaged (staged : Staged) (move : Prog Error StorePrim Unit) :
    Prog Error StorePrim Unit := do
  match ← move.attempt with
  | .ok () => pure ()
  | .error error =>
    dropStaged staged
    fail error

def stage (setup : Setup Doc) (epoch : Epoch) (contents : List UInt8) :
    Prog Error StorePrim Staged := do
  let counter ← perform .temp
  let a := Artifact.staging epoch.get counter
  validateAbsentRegularTarget setup a
  file (.createNew a)
  file (.setPermissions a)
  match ← (file (.write a contents) >>= fun _ => file (.sync a)).attempt with
  | .ok () => pure ⟨epoch, counter⟩
  | .error error =>
    let _ ← perform (.remove a)
    fail error

def validateStaged (setup : Setup Doc) (staged : Staged) (epoch : Epoch) :
    Prog Error StorePrim Unit :=
  if staged.epoch ≠ epoch then fail (.unsafeRuntimeArtifact (setup.path staged.artifact))
  else validateExistingRegularTarget setup staged.artifact

def commitNew (setup : Setup Doc) (staged : Staged) (epoch : Epoch) :
    Prog Error StorePrim Utf8Path := do
  let target := Artifact.config epoch.get
  orDropStaged staged do
    validateStaged setup staged epoch
    validateAbsentRegularTarget setup target
    atomicMoveNew staged.artifact target
  file .syncDir
  pure (setup.path target)

/-- `installed_commit`: the warning of a commit whose directory entry is
unsynced. -/
def durability : Except String Unit → Option String
  | .ok () => none
  | .error error => some
      ("runtime config was atomically installed, but parent-directory synchronization failed: " ++
        error)

/-- `commit_replace`, as the warning of its commit. -/
def commitReplace (setup : Setup Doc) (staged : Staged) (epoch : Epoch) :
    Prog Error StorePrim (Option String) := do
  let target := Artifact.config epoch.get
  orDropStaged staged do
    validateStaged setup staged epoch
    validateExistingRegularTarget setup target
    file (.rename staged.artifact target)
  return durability (← perform .syncDir)

def backup (setup : Setup Doc) (epoch : Epoch) (generation : Nat) :
    Prog Error StorePrim Backup := do
  let target := Artifact.config epoch.get
  let saved : Backup := ⟨epoch, generation⟩
  validateExistingRegularTarget setup target
  let contents ← file (.read target)
  let staged ← stage setup epoch contents
  orDropStaged staged do
    validateAbsentRegularTarget setup saved.artifact
    atomicMoveNew staged.artifact saved.artifact
  file .syncDir
  pure saved

def restore (setup : Setup Doc) (saved : Backup) : Prog Error StorePrim (Option String) := do
  validateExistingRegularTarget setup saved.artifact
  let contents ← file (.read saved.artifact)
  let staged ← stage setup saved.epoch contents
  commitReplace setup staged saved.epoch

def removeBackup (setup : Setup Doc) (saved : Backup) : Prog Error StorePrim Unit :=
  removeRegularFile setup saved.artifact

/-- The entries that the last loop of `cleanup_artifacts` removes. -/
def Artifact.isLoose (number : Nat) : Artifact → Bool
  | .backup n _ | .staging n _ | .pidStaging n _ => n = number
  | _ => false

def removeAll (setup : Setup Doc) : List Artifact → Prog Error StorePrim Unit
  | [] => pure ()
  | a :: rest => do
    removeRegularFile setup a
    removeAll setup rest

def cleanupArtifacts (setup : Setup Doc) (number : Nat) : Prog Error StorePrim Unit := do
  removeRegularFile setup (.config number)
  removeRegularFile setup (.pid number)
  removeSocketArtifact setup (.socket number)
  let entries ← file .readDir
  removeAll setup (entries.filter (Artifact.isLoose number))
  file .syncDir

/-- `artifact_epochs`: the numbers in the names, each once, in order. -/
def artifactEpochs : Prog Error StorePrim (List Nat) := do
  let entries ← file .readDir
  pure (((entries.map Artifact.number).filter (· < 2 ^ 64)).dedup.insertionSort (· ≤ ·))

end Chimera.Manager
