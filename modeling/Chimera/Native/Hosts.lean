import Chimera.Lib.Transition
import Chimera.Native.Store

/-! Any number of hosts over one data directory.

Every caller of `acquire` is a client of some host: it takes the lease, starts
cores under it one after another and ends it, an operation at a time. Between
any two operations other clients run, cores exit and hosts crash; a crash frees
the locks of the host and leaves its cores running. -/

namespace Chimera.Native
open Chimera.Model Chimera.Lib.Utf8 Chimera.Lib.Program Chimera.Lib.Transition Chimera.Process

abbrev Client := Nat

/-- A core process that was started under a lease. -/
structure Proc where
  record : EpochPidRecord
  client : Client
  alive : Bool

/-- A rename as it happened: what was moved, and what it replaced. -/
structure Rename where
  dir : Dir
  name : String
  moved : Option Bytes
  replaced : Option Bytes

structure Disk where
  files : Dir → String → Option Bytes
  /-- The client whose open file holds the lock. -/
  lock : Option Client
  /-- The pid file of the epoch that a client runs. -/
  pidFiles : Client → Option Bytes
  /-- Every rename so far, the last one first. -/
  renames : List Rename

def Disk.put (d : Disk) (dir : Dir) (name : String) (content : Option Bytes) : Disk :=
  { d with files := fun dir' name' => if dir' = dir ∧ name' = name then content
      else d.files dir' name' }

/-! ## Operations on the disk -/

/-- What the surroundings decide about one operation. -/
structure Fate where
  fault : Option StoreError
  /-- How much of a failed write, or of a failed creation, took effect. -/
  landed : Nat
  newer : Bool
  /-- The answers of `process_identity`. -/
  identify : UInt32 → Observation

/-- Nothing fails, and nothing is told of any process. -/
def plainFate : Fate := ⟨none, 0, false, fun _ => .error (identityError "unreadable")⟩

/-- An operation that changes nothing. -/
def Fate.answer {α : Type} (fate : Fate) (d : Disk) (a : α) : Except StoreError α × Disk :=
  match fate.fault with
  | some e => (.error e, d)
  | none => (.ok a, d)

/-- An operation on a file that has to be there. -/
def Fate.onFile {α : Type} (fate : Fate) (d : Disk) (dir : Dir) (name : String)
    (f : Bytes → Except StoreError α × Disk) : Except StoreError α × Disk :=
  match fate.fault, d.files dir name with
  | some e, _ => (.error e, d)
  | none, none => (.error notFound, d)
  | none, some bytes => f bytes

def Op.run (target : Target) (c : Client) (fate : Fate) (d : Disk) : {β : Type} → Op β → β × Disk
  | _, .enter _ | _, .repairTree _ | _, .sync _ | _, .tryLockLegacy => fate.answer d ()
  | _, .present dir name => fate.answer d (d.files dir name).isSome
  | _, .read dir name | _, .syncAll dir name => fate.onFile d dir name fun _ => (.ok (), d)
  | _, .file dir name create =>
    match d.files dir name with
    | some _ => fate.answer d ()
    | none =>
      if create then
        match fate.fault with
        | some e => (.error e, if fate.landed = 0 then d else d.put dir name (some []))
        | none => (.ok (), d.put dir name (some []))
      else (.error (fate.fault.getD notFound), d)
  | _, .contents dir name => fate.onFile d dir name fun bytes => (.ok bytes, d)
  | _, .truncate dir name => fate.onFile d dir name fun _ => (.ok (), d.put dir name (some []))
  | _, .writeAll dir name bytes =>
    match d.files dir name with
    | none => (.error (fate.fault.getD notFound), d)
    | some old =>
      match fate.fault with
      | some e => (.error e, d.put dir name (some (old ++ bytes.take fate.landed)))
      | none => (.ok (), d.put dir name (some (old ++ bytes)))
  | _, .rename dir old new => fate.onFile d dir old fun bytes =>
    (.ok (), { (d.put dir old none).put dir new (some bytes) with
      renames := ⟨dir, new, some bytes, d.files dir new⟩ :: d.renames })
  | _, .remove dir name =>
    match fate.fault with
    | some e => (.error e, d)
    | none => (.ok (), d.put dir name none)
  | _, .tryLock =>
    match fate.fault, d.lock with
    | some e, _ => (.error e, d)
    | none, some _ => (.error (.busy ⟨.root, none⟩), d)
    | none, none => (.ok (), { d with lock := some c })
  | _, .newer kind name => fate.onFile d (.home kind) name fun _ => (.ok fate.newer, d)
  | _, .pidFile =>
    match fate.fault, d.pidFiles c with
    | some e, _ => (.error e, d)
    | none, none => (.error notFound, d)
    | none, some bytes => (.ok bytes, d)
  | _, .recordedProcessIsAlive raw => (Process.recordedProcessIsAlive target fate.identify raw, d)

/-! ## Clients -/

inductive Task where
  | prepare | record | confirm
  deriving DecidableEq, Repr

/-- Where a client is. -/
inductive Seat : Type 1
  | away
  | acquiring (rest : Store Lease)
  /-- It holds the lease; `prepared` if its last call was a `prepare_spawn` that
  succeeded and nothing was started since. -/
  | holding (lease : Lease) (prepared : Bool)
  | working (lease : Lease) (task : Task) (rest : Store Unit)

def Seat.leased : Seat → Bool
  | .holding _ _ | .working _ _ _ => true
  | _ => false

structure View where
  disk : Disk
  procs : List Proc

structure Fleet : Type 1 where
  view : View
  seats : Client → Seat

inductive Turn where
  | acquire (c : Client) (kind : CoreKind)
  | prepareSpawn (c : Client)
  | recordStarted (c : Client)
  | confirmStopped (c : Client)
  /-- The client performs its next operation, or its call returns. -/
  | operation (c : Client) (fate : Fate)
  /-- The supervisor starts a core; `published` when its pid record was written. -/
  | spawn (c : Client) (record : EpochPidRecord) (published : Bool)
  /-- A core exits. -/
  | exit (number : Nat)
  | drop (c : Client)
  | crash (host : Nat)

structure Setup where
  store : FsNativeStore
  target : Target
  /-- The host that a client runs in. -/
  host : Client → Nat

def Fleet.seat (s : Fleet) (c : Client) (seat : Seat) : Fleet :=
  { s with seats := fun c' => if c' = c then seat else s.seats c' }

/-- The locks that such clients hold are free again. -/
def Disk.release (d : Disk) (p : Client → Bool) : Disk :=
  { d with lock := d.lock.filter fun c => !p c }

def Fleet.release (s : Fleet) (p : Client → Bool) : Fleet where
  view := { s.view with disk := s.view.disk.release p }
  seats := fun c => if p c then .away else s.seats c

def Task.program (setup : Setup) (lease : Lease) : Task → Store Unit
  | .prepare => prepareSpawn setup.store.parsers lease
  | .record => recordStarted
  | .confirm => confirmStopped lease

/-- A client calls a method of its lease. -/
def Fleet.call (setup : Setup) (s : Fleet) (c : Client) (task : Task) : Option Fleet :=
  match s.seats c with
  | .holding lease _ => some (s.seat c (.working lease task (task.program setup lease)))
  | _ => none

def preparedAfter : Task → Except StoreError Unit → Bool
  | .prepare, .ok _ => true
  | _, _ => false

def Fleet.perform (setup : Setup) (s : Fleet) (c : Client) (fate : Fate) : Option Fleet :=
  match s.seats c with
  | .acquiring (.call op next) =>
    let (b, d) := op.run setup.target c fate s.view.disk
    some ({ s with view := { s.view with disk := d } }.seat c (.acquiring (next b)))
  | .acquiring (.ret (.ok lease)) => some (s.seat c (.holding lease false))
  | .acquiring (.ret (.error _)) => some (s.release (· == c))
  | .working lease task (.call op next) =>
    let (b, d) := op.run setup.target c fate s.view.disk
    some ({ s with view := { s.view with disk := d } }.seat c (.working lease task (next b)))
  | .working lease task (.ret r) => some (s.seat c (.holding lease (preparedAfter task r)))
  | _ => none

/-- The core that the client started last. -/
def View.idle (v : View) (c : Client) : Bool := v.procs.all fun p => p.client ≠ c || !p.alive

/-- What `PidFileGuard` leaves in the pid file. -/
def publishedFile (target : Target) (record : EpochPidRecord) (published : Bool) : Option Bytes :=
  if published then (serializeEpochRecord target record).toOption.map encode else none

def View.spawn (target : Target) (v : View) (c : Client) (record : EpochPidRecord)
    (published : Bool) : View where
  disk := { v.disk with pidFiles := fun c' =>
    if c' = c then publishedFile target record published else v.disk.pidFiles c' }
  procs := ⟨record, c, true⟩ :: v.procs

def View.exit (v : View) (number : Nat) : View :=
  { v with procs := v.procs.modify number fun p => { p with alive := false } }

def Fleet.step (setup : Setup) (s : Fleet) : Turn → Option Fleet
  | .acquire c kind =>
    match s.seats c with
    | .away => some (s.seat c (.acquiring (Native.acquire setup.store kind)))
    | _ => none
  | .prepareSpawn c => s.call setup c .prepare
  | .recordStarted c => s.call setup c .record
  | .confirmStopped c => s.call setup c .confirm
  | .operation c fate => s.perform setup c fate
  | .spawn c record published =>
    match s.seats c with
    -- The supervisor starts a core only once it has prepared for it and the
    -- core before it has exited.
    | .holding lease true =>
      if s.view.idle c then
        some ({ s with view := s.view.spawn setup.target c record published }.seat c
          (.holding lease false))
      else none
    | _ => none
  | .exit number => some { s with view := s.view.exit number }
  | .drop c =>
    match s.seats c with
    | .holding _ _ => some (s.release (· == c))
    | _ => none
  | .crash host => some (s.release fun c => setup.host c == host)

def fleet (setup : Setup) (files : Dir → String → Option Bytes) : Machine Fleet Turn where
  init := {
    view := { disk := ⟨files, none, fun _ => none, []⟩, procs := [] }
    seats := fun _ => .away }
  step := Fleet.step setup

end Chimera.Native
