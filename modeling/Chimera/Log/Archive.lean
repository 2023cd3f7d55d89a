import Chimera.Lib.Fields
import Chimera.Lib.Keyed
import Chimera.Log.Frame
import Mathlib.Data.List.Sort
import Mathlib.Data.String.Basic

/-! The durable archive of the log stream: numbered files of records, rolled over by
size and kept by count. -/

namespace Chimera.Log.Archive
open Chimera.Model Chimera.Lib Chimera.Lib.Utf8 Chimera.Lib.Fields

abbrev Bytes := List UInt8

/-! ## The directory -/

/-- What was done in the directory. -/
inductive DiskEvent where
  | created (name : String)
  | wrote (name : String) (bytes : Bytes)
  | removed (name : String)
  deriving DecidableEq

/-- The directory, its history with the latest event first, and what becomes of the
operations to come: `some n` is a failure, of a write after `n` bytes. -/
structure Disk where
  files : List (String × Bytes)
  events : List DiskEvent
  faults : List (Option Nat)
  deriving DecidableEq

namespace Disk

/-- The outcome of the next operation; where none is foretold it succeeds. -/
def next (disk : Disk) : Option Nat × Disk :=
  match disk.faults with
  | [] => (none, disk)
  | fault :: rest => (fault, { disk with faults := rest })

def readDir (disk : Disk) : Option (List String) × Disk :=
  let (fault, disk) := disk.next
  (if fault.isSome then none else some (disk.files.map Prod.fst), disk)

/-- `remove_file`; a failure is logged. -/
def removeFile (disk : Disk) (name : String) : Disk :=
  let (fault, disk) := disk.next
  if fault.isNone && (disk.files.lookup name).isSome then
    { disk with files := Keyed.remove disk.files name, events := .removed name :: disk.events }
  else disk

/-- Opens a file to append to it, and creates it if it is not there. -/
def openAppend (disk : Disk) (name : String) : Bool × Disk :=
  let (fault, disk) := disk.next
  if fault.isSome then (false, disk)
  else match disk.files.lookup name with
    | some _ => (true, disk)
    | none => (true, { disk with files := Keyed.put disk.files name [],
                                 events := .created name :: disk.events })

/-- What is written to a file that was removed is in no directory. -/
def append (disk : Disk) (name : String) (bytes : Bytes) : Disk :=
  { disk with
    files := match disk.files.lookup name with
      | some old => Keyed.put disk.files name (old ++ bytes)
      | none => disk.files
    events := .wrote name bytes :: disk.events }

def writeAll (disk : Disk) (name : String) (bytes : Bytes) : Bool × Disk :=
  let (fault, disk) := disk.next
  match fault with
  | none => (true, disk.append name bytes)
  | some n => (false, disk.append name (bytes.take n))

/-- A failure to flush is logged. -/
def flush (disk : Disk) : Disk := disk.next.2

end Disk

/-! ## File names -/

def filePrefix : Text := "core-".toList
def fileSuffix : Text := ".jsonl".toList

/-- `{:0width$}` of a number. -/
def padded (width n : Nat) : Text :=
  List.replicate (width - (decimal n).length) '0' ++ decimal n

def fileName (seq : Nat) : String := String.ofList (filePrefix ++ padded 6 seq ++ fileSuffix)

/-- `None` for anything this writer did not create. -/
def fileSeq (name : String) : Option Nat :=
  let text := name.toList
  if filePrefix.isPrefixOf text then
    let rest := text.drop filePrefix.length
    if fileSuffix.isSuffixOf rest then
      let digits := rest.take (rest.length - fileSuffix.length)
      if digits.isEmpty || !digits.all Char.isDigit then none
      else parseUnsigned (2 ^ 64) digits
    else none
  else none

def readSeqs (disk : Disk) : Option (List Nat) × Disk :=
  let (names, disk) := disk.readDir
  (names.map fun names => names.filterMap fileSeq, disk)

/-- The newest survive, by number; the rest are returned. -/
def pruneTargets (seqs : List Nat) (maxFiles : Nat) : List Nat :=
  (seqs.insertionSort (· ≥ ·)).drop maxFiles

/-- Deletes everything past the newest `keep` files except `protect`. -/
def pruneDir (disk : Disk) (keep : Nat) (protect : Option Nat) : Disk :=
  match readSeqs disk with
  | (none, disk) => disk
  | (some existing, disk) =>
    ((pruneTargets existing keep).filter fun seq => some seq ≠ protect).foldl
      (fun disk seq => disk.removeFile (fileName seq)) disk

def create (disk : Disk) (seq : Nat) : Bool × Disk := disk.openAppend (fileName seq)

/-! ## Records -/

/-- One item of the channel: a frame, or how many were dropped. -/
inductive Entry where
  | log (frame : LogFrame)
  | gap (dropped : Nat)

/-- A line of the archive. -/
inductive Record where
  | log (frame : LogFrame)
  | gap (at_ : Int) (dropped : Nat)

def Entry.record (at_ : Int) : Entry → Record
  | .log frame => .log frame
  | .gap dropped => .gap at_ dropped

/-- What is outside of the crate. -/
structure Host where
  /-- `serde_json::to_writer`: what it has written when it fails is truncated. -/
  json : Record → Option Bytes
  /-- Whether the build panics where arithmetic overflows; else it wraps. -/
  overflowChecks : Bool

/-- A record as it is appended, with the newline that ends it. -/
def Host.line (host : Host) (at_ : Int) (entry : Entry) : Option Bytes :=
  (host.json (entry.record at_)).map (· ++ [10])

/-! ## The writer -/

structure SinkOptions where
  maxBytes : Nat
  maxFiles : Nat
  deriving DecidableEq

/-- The open file is the one that `seq` numbers. -/
structure Writer where
  disk : Disk
  options : SinkOptions
  written : Nat
  seq : Nat
  deriving DecidableEq

inductive Stop where
  | panic (message : String)
  | failed
  deriving DecidableEq

/-- `seq + 1` on a `u64`. -/
def Host.successor (host : Host) (seq : Nat) : Except Stop Nat :=
  if seq + 1 < 2 ^ 64 then .ok (seq + 1)
  else if host.overflowChecks then .error (.panic "attempt to add with overflow")
  else .ok 0

def nextSeq (host : Host) (disk : Disk) : Except Stop (Nat × Disk) :=
  match readSeqs disk with
  | (none, _) => .error .failed
  | (some seqs, disk) => (host.successor (seqs.max?.getD 0)).map fun seq => (seq, disk)

namespace Writer

/-- A new file per run, never an append. -/
def openIn (host : Host) (disk : Disk) (options : SinkOptions) : Except Stop Writer := do
  let (seq, disk) ← nextSeq host disk
  match create (pruneDir disk (options.maxFiles - 1) none) seq with
  | (true, disk) => pure { disk, options, written := 0, seq }
  | (false, _) => throw .failed

/-- Appends whatever is buffered; when that fails it is dropped. -/
def flushPending (w : Writer) (buffer : Bytes) : Writer :=
  if buffer.isEmpty then w
  else match w.disk.writeAll (fileName w.seq) buffer with
    | (false, disk) => { w with disk }
    | (true, disk) => { w with disk := disk.flush, written := w.written + buffer.length }

/-- The active file is never deleted; without a new one it stays the active file. -/
def rotate (host : Host) (w : Writer) : Except Stop Writer := do
  let seq ← host.successor w.seq
  match create (pruneDir w.disk (w.options.maxFiles - 1) (some w.seq)) seq with
  | (true, disk) =>
    pure { w with disk := pruneDir disk w.options.maxFiles (some seq), seq, written := 0 }
  | (false, disk) => pure { w with disk }

/-- Rotates before the record that would land past the limit. -/
def roll (host : Host) (w : Writer) (buffer : Bytes) : Except Stop (Writer × Bytes) :=
  if w.options.maxBytes ≤ w.written + buffer.length then do
    let w ← (w.flushPending buffer).rotate host
    pure (w, [])
  else pure (w, buffer)

/-- One entry of a batch; a record that does not serialize leaves the buffer as it was. -/
def push (host : Host) (at_ : Int) (state : Writer × Bytes) (entry : Entry) :
    Except Stop (Writer × Bytes) := do
  let (w, buffer) ← state.1.roll host state.2
  match host.line at_ entry with
  | some line => pure (w, buffer ++ line)
  | none => pure (w, buffer)

def write (host : Host) (w : Writer) (at_ : Int) (batch : List Entry) : Except Stop Writer :=
  if batch.isEmpty then pure w
  else do
    let (w, buffer) ← batch.foldlM (push host at_) (w, [])
    pure (w.flushPending buffer)

/-- A run: the writer is opened and given its batches, each with the time it is written. -/
def run (host : Host) (disk : Disk) (options : SinkOptions) (batches : List (Int × List Entry)) :
    Except Stop Writer := do
  let w ← openIn host disk options
  batches.foldlM (fun w batch => w.write host batch.1 batch.2) w

end Writer

/-! ## The task -/

def maxBatchRecords : Nat := 256

/-- What the channel gives when it is asked. -/
inductive Received where
  | frame (frame : LogFrame)
  | lagged (dropped : Nat)
  | empty
  | closed

def Received.entry : Received → Option Entry
  | .frame f => some (.log f)
  | .lagged n => some (.gap n)
  | .empty | .closed => none

structure Drained where
  closed : Bool
  batch : List Entry
  rest : List Received

/-- Appends everything already buffered; a channel without an answer is closed. -/
def drain (polls : List Received) (batch : List Entry) : Drained :=
  if batch.length < maxBatchRecords then
    match polls with
    | [] => ⟨true, batch, []⟩
    | .frame frame :: rest => drain rest (batch ++ [.log frame])
    | .lagged dropped :: rest => drain rest (batch ++ [.gap dropped])
    | .empty :: rest => ⟨false, batch, rest⟩
    | .closed :: rest => ⟨true, batch, rest⟩
  else ⟨false, batch, polls⟩

/-- One turn of the loop: which arm of the select is taken, and the time of its write. -/
structure Turn where
  cancelled : Bool
  at_ : Int

/-- `run`: drains the channel in batches until it is cancelled or the last sender is gone. -/
def task (host : Host) : List Turn → List Received → Writer → Except Stop Writer
  | [], _, w => pure w
  | turn :: turns, polls, w =>
    if turn.cancelled then do
      let drained := drain polls []
      let w ← w.write host turn.at_ drained.batch
      if drained.closed || drained.batch.length < maxBatchRecords then pure w
      else task host turns drained.rest w
    else match polls with
      -- `recv` waits until there is an item
      | .empty :: rest => task host turns rest w
      | [] | .closed :: _ => w.write host turn.at_ []
      | .frame frame :: rest => do
        let drained := drain rest [.log frame]
        let w ← w.write host turn.at_ drained.batch
        if drained.closed then pure w else task host turns drained.rest w
      | .lagged dropped :: rest => do
        let drained := drain rest [.gap dropped]
        let w ← w.write host turn.at_ drained.batch
        if drained.closed then pure w else task host turns drained.rest w

end Chimera.Log.Archive
