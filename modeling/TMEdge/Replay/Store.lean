import TMEdge.Replay.Journal

/-!
# `ReplayStore`

The write-ahead store of `src/edge/replay.ts`. Each method is a function of the store and
of what the file system answers (`CheckpointIo`, `WriteIo`); an asynchronous batch is two
functions, `flush` (up to the `await` of its fsync) and `syncDone` (the rest).

The store has the fields of the source class and, for the file system, `journal` (the
records written to the file), `torn` (an incomplete line follows them) and `durable` (the
records a crash leaves). Written records become durable when an fsync of the file that
was issued after the write returns. `closeSync` is taken to succeed.
-/

namespace TMEdge.Replay

open Library

/-! ## What the file system answers -/

/-- `failsBefore`: opening, writing or syncing the temporary file fails, the journal is
untouched. `failsAfter kept`: the rename was done and the fsync of the directory fails;
`kept` says whether the rename would survive a crash. -/
inductive CheckpointIo
  | ok
  | failsBefore
  | failsAfter (kept : Bool)
deriving DecidableEq

/-- `writeFails n`: the first `n` records and part of the next one reached the file. -/
inductive WriteIo
  | ok
  | openFails
  | writeFails (n : Nat)
  | fsyncFails
deriving DecidableEq

structure Io where
  checkpoint : CheckpointIo := .ok
  write : WriteIo := .ok
deriving DecidableEq

def ioError : String := "EIO"

/-! ## State -/

/-- `ticket` is the identity of the promise. -/
structure Pending where
  ticket : Nat
  uid : String
  cursor : Cursor
  commandSeq : Option Nat
deriving DecidableEq

def Pending.records (p : Pending) : List Record :=
  .cursor p.uid p.cursor :: (p.commandSeq.map Record.cmd).toList

def batchRecords (batch : List Pending) : List Record := batch.flatMap Pending.records

/-- A batch whose fsync has not returned. `image` is the file when the fsync was issued;
`covered` says that a later fsync of the same file has already returned. -/
structure Flush where
  batch : List Pending
  image : List Record
  covered : Bool

structure ReplayStore where
  cursors : JsMap String Cursor
  commandSeq : Nat
  records : Nat
  pending : List Pending
  flushing : Option Flush
  timer : Bool
  failed : Option String
  queued : Nat
  journal : List Record
  torn : Bool
  durable : List Record

/-- A promise settled by the store; `none` when it is resolved. -/
structure Settled where
  pending : Pending
  error : Option String

def maxQueued : Nat := 10000

def checkpointEvery : Nat := 10000

/-! ## Methods -/

namespace ReplayStore

def checkpointRecords (s : ReplayStore) : List Record :=
  .cmd s.commandSeq :: s.cursors.entries.map fun e => .cursor e.1 e.2

/-- Rewrite the journal in a temporary file and rename it into place. -/
def checkpoint (s : ReplayStore) : CheckpointIo → ReplayStore × Option String
  | .ok =>
    ({ s with
        journal := s.checkpointRecords
        torn := false
        durable := s.checkpointRecords
        records := 0 }, none)
  | .failsBefore => (s, some ioError)
  | .failsAfter kept =>
    ({ s with
        journal := s.checkpointRecords
        torn := false
        durable := if kept then s.checkpointRecords else s.durable }, some ioError)

/-- `append`: one record, written and synced before it returns. -/
def append (s : ReplayStore) (r : Record) (io : Io) : ReplayStore × Option String :=
  match s.failed with
  | some e => (s, some e)
  | none =>
    -- Never replace an inode while a worker is making its batch durable.
    match if s.flushing.isNone ∧ s.records ≥ checkpointEvery then s.checkpoint io.checkpoint
      else (s, none) with
    | (s, some e) => (s, some e)
    | (s, none) =>
      match io.write with
      | .openFails => (s, some ioError)
      | .writeFails _ => ({ s with torn := true, failed := some ioError }, some ioError)
      | .fsyncFails =>
        ({ s with journal := s.journal ++ [r], failed := some ioError }, some ioError)
      | .ok =>
        ({ s with
            journal := s.journal ++ [r]
            durable := s.journal ++ [r]
            flushing := s.flushing.map fun f => { f with covered := true }
            records := s.records + 1 }, none)

def validate (uid : String) (c : Cursor) : Bool :=
  isUid uid && decide (c.boot ≤ u32Max) && decide (c.seq ≤ u32Max)

def accept (s : ReplayStore) (uid : String) (c : Cursor) (io : Io) :
    ReplayStore × Option String :=
  if s.queued ≠ 0 then (s, some "durable packet writes are pending")
  else if !validate uid c then (s, some "invalid replay cursor")
  else match s.append (.cursor uid c) io with
    | (s, some e) => (s, some e)
    | (s, none) => ({ s with cursors := s.cursors.set uid c }, none)

/-- `schedule`: arm the batch timer. -/
def schedule (s : ReplayStore) : ReplayStore :=
  if s.flushing.isSome || s.timer || s.pending.isEmpty then s else { s with timer := true }

/-- `acceptAsync`: `some e` is a promise rejected at once. -/
def acceptAsync (s : ReplayStore) (p : Pending) : ReplayStore × Option String :=
  match s.failed with
  | some e => (s, some e)
  | none =>
    if !validate p.uid p.cursor then (s, some "invalid replay cursor")
    else if p.commandSeq.any fun n => decide (u32Max < n) then (s, some "invalid command cursor")
    else if s.queued ≥ maxQueued then (s, some "replay journal queue full")
    else (schedule { s with queued := s.queued + 1, pending := s.pending ++ [p] }, none)

def command (s : ReplayStore) (seq : Nat) (io : Io) : ReplayStore × Option String :=
  if u32Max < seq then (s, some "invalid command cursor")
  else match s.failed with
    | some e => (s, some e)
    | none =>
      if seq ≤ s.commandSeq then (s, none)
      else match s.append (.cmd seq) io with
        | (s, some e) => (s, some e)
        | (s, none) => ({ s with commandSeq := seq }, none)

/-- `reset`: whether the node had a cursor. -/
def reset (s : ReplayStore) (uid : String) (io : Io) : ReplayStore × Except String Bool :=
  if !isUid uid then (s, .error "invalid node uid")
  else if s.queued ≠ 0 then (s, .error "durable packet writes are pending; retry cursor reset")
  else
    let existed := s.cursors.has uid
    match s.append (.tombstone uid) io with
    | (s, some e) => (s, .error e)
    | (s, none) => ({ s with cursors := s.cursors.delete uid }, .ok existed)

/-- The `catch` and `finally` of `flush`: a torn journal cannot accept further data. -/
def flushFails (s : ReplayStore) (batch : List Pending) (e : String) :
    ReplayStore × List Settled :=
  ({ s with
      failed := some e
      queued := s.queued - s.pending.length - batch.length
      pending := []
      flushing := none },
    (batch ++ s.pending).map fun p => ⟨p, some e⟩)

/-- The `try` of `flush` up to the `await` of its fsync; `batch` has left `pending`. -/
def flushBatch (s : ReplayStore) (batch : List Pending) (io : Io) : ReplayStore × List Settled :=
  match s.failed with
  | some e => flushFails s batch e
  | none =>
    -- The checkpoint runs between batches, at most once per 10,000 records.
    match if s.records ≥ checkpointEvery then s.checkpoint io.checkpoint else (s, none) with
    | (s, some e) => flushFails s batch e
    | (s, none) =>
      match io.write with
      | .openFails => flushFails s batch ioError
      | .writeFails n =>
        flushFails { s with journal := s.journal ++ (batchRecords batch).take n, torn := true }
          batch ioError
      | _ =>
        let image := s.journal ++ batchRecords batch
        ({ s with journal := image, flushing := some ⟨batch, image, false⟩ }, [])

def flush (s : ReplayStore) (io : Io) : ReplayStore × List Settled :=
  if s.flushing.isSome || s.pending.isEmpty then (s, [])
  else flushBatch { s with pending := [] } s.pending io

/-- The batch timer fires. -/
def timerFires (s : ReplayStore) (io : Io) : ReplayStore × List Settled :=
  if s.timer then flush { s with timer := false } io else (s, [])

/-- One entry of a finished batch. -/
def settle (s : ReplayStore) (p : Pending) : ReplayStore :=
  { s with
    cursors := s.cursors.set p.uid p.cursor
    commandSeq := match p.commandSeq with
      | some n => max s.commandSeq n
      | none => s.commandSeq }

/-- The rest of `flush`, when the fsync of its batch has returned (`ok`) or failed. -/
def syncDone (s : ReplayStore) (ok : Bool) : ReplayStore × List Settled :=
  match s.flushing with
  | none => (s, [])
  | some f =>
    if ok then
      let s := { s with durable := if f.covered then s.durable else f.image }
      match s.failed with
      | some e => flushFails s f.batch e
      | none =>
        let s := f.batch.foldl settle s
        (schedule { s with
            records := s.records + (batchRecords f.batch).length
            queued := s.queued - f.batch.length
            flushing := none },
          f.batch.map fun p => ⟨p, none⟩)
    else flushFails s f.batch ioError

/-- The constructor, on the file found at `path` (`none`: there is none). Its checkpoint
throws on an I/O error. -/
def openStore (file : Option JournalFile) (io : CheckpointIo) : Except String ReplayStore := do
  let snapshot ← match file with
    | none => pure ReplaySnapshot.initial
    | some f => readReplaySnapshot f
  match checkpoint
      { cursors := snapshot.cursors, commandSeq := snapshot.commandSeq, records := 0,
        pending := [], flushing := none, timer := false, failed := none, queued := 0,
        journal := [], torn := false, durable := [] } io with
  | (s, none) => return s
  | (_, some e) => throw e

end ReplayStore

end TMEdge.Replay
