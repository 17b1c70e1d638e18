import TMEdge.Occupancy.Engine

/-!
# The occupancy history sink

`src/modules/occupancy-history/application/bounded-occupancy-history-sink.ts`: a bounded queue
between live snapshots and the repository. A call of `drain` runs to the write it awaits; the events
end that write, run the timer and the continuations, or call a method.
-/

namespace TMEdge.History

open Library Occupancy

/-! ## Rows -/

structure OccupancyHistoryRecord where
  edgeId : Text
  floorId : Text
  tableId : Text
  minuteAt : Int
  sampledAt : Int
  capacity : Nat
  occupied : Option Nat
  free : Option Int
  coverage : CoverageStatus
  deriving DecidableEq

structure OccupancySnapshot where
  edgeId : Text
  generatedAt : Int
  floors : List FloorState

def minuteMs : Int := 60000

/-- `String` of an integer -/
def integerText (n : Int) : Text :=
  if n < 0 then 45 :: Text.decimal n.natAbs else Text.decimal n.natAbs

def recordKey (record : OccupancyHistoryRecord) : Text :=
  record.edgeId ++ 0 :: (record.floorId ++ 0 :: (record.tableId ++ 0 :: integerText record.minuteAt))

def recordOf (snapshot : OccupancySnapshot) (floor : FloorState) (table : TableState) :
    OccupancyHistoryRecord where
  edgeId := snapshot.edgeId
  floorId := floor.id
  tableId := table.id
  minuteAt := snapshot.generatedAt / minuteMs * minuteMs
  sampledAt := snapshot.generatedAt
  capacity := table.capacity
  occupied := table.occupied
  free := table.free
  coverage := table.status

def recordsOf (snapshot : OccupancySnapshot) : List OccupancyHistoryRecord :=
  snapshot.floors.flatMap fun floor => floor.tables.map fun table => recordOf snapshot floor table

/-! ## The sink -/

/-- `serial` is the identity of the object: the place of its row among all that came in. -/
structure PendingEntry where
  serial : Nat
  record : OccupancyHistoryRecord
  attempts : Nat
  deriving DecidableEq

/-- A row that is handed to the repository or, once `done`, was written by it. -/
structure Write where
  done : Bool
  key : Text
  serial : Nat
  deriving DecidableEq

def startOf (e : Text × PendingEntry) : Write where
  done := false
  key := e.1
  serial := e.2.serial

def doneOf (e : Text × PendingEntry) : Write := { startOf e with done := true }

/-- `drains` has the batches that calls of `drain` await, `settled` counts the calls that ended and
whose `finally` has not run, `disposing` the calls of `dispose` that wait. The last three fields only
note what happens: the rows that came in, the writes, and the rows that `droppedRows` counts. -/
structure Sink where
  maxPendingRows : Nat
  batchSize : Nat
  maxAttempts : Nat
  pending : JsMap Text PendingEntry := .empty
  inFlightEntries : List Nat := []
  droppedRows : Nat := 0
  failedBatches : Nat := 0
  lastError : Option Text := none
  lastSuccessfulWriteAt : Option Int := none
  flushing : Bool := false
  retryTimer : Bool := false
  disposed : Bool := false
  drains : List (List (Text × PendingEntry)) := []
  settled : Nat := 0
  disposing : Nat := 0
  samples : List OccupancyHistoryRecord := []
  trace : List Write := []
  counted : List Nat := []

structure OccupancyHistorySinkStats where
  queuedRows : Nat
  droppedRows : Nat
  failedBatches : Nat
  lastError : Option Text
  lastSuccessfulWriteAt : Option Int

structure OccupancyHistorySinkOptions where
  maxPendingRows : Option Int := none
  batchSize : Option Int := none
  maxAttempts : Option Int := none

def positiveInt (value : Int) (name : Text) : Except Text Nat :=
  if 0 < value ∧ value < 2 ^ 53 then .ok value.toNat
  else .error (name ++ js " must be a positive integer")

namespace Sink

/-- The constructor. -/
def make (options : OccupancyHistorySinkOptions) : Except Text Sink := do
  let maxPendingRows ← positiveInt (options.maxPendingRows.getD 5000) (js "maxPendingRows")
  let batchSize ← positiveInt (options.batchSize.getD 250) (js "batchSize")
  let maxAttempts ← positiveInt (options.maxAttempts.getD 3) (js "maxAttempts")
  return { maxPendingRows, batchSize, maxAttempts }

def waits (s : Sink) (entry : PendingEntry) : Bool := entry.serial ∉ s.inFlightEntries

def queuedRows (s : Sink) : Nat := (s.pending.values.filter s.waits).length

def stats (s : Sink) : OccupancyHistorySinkStats where
  queuedRows := s.queuedRows
  droppedRows := s.droppedRows
  failedBatches := s.failedBatches
  lastError := s.lastError
  lastSuccessfulWriteAt := s.lastSuccessfulWriteAt

/-- `droppedRows` goes up by these rows. -/
def drop (s : Sink) (serials : List Nat) : Sink :=
  { s with droppedRows := s.droppedRows + serials.length, counted := s.counted ++ serials }

/-- The loop of `drain`, up to the next write that it awaits. -/
def drain (s : Sink) : Sink :=
  if s.disposed ∨ s.pending.size = 0 then { s with settled := s.settled + 1 }
  else
    let entries := (s.pending.entries.filter fun e => s.waits e.2).take s.batchSize
    if entries = [] then { s with settled := s.settled + 1 }
    else
      { s with
        inFlightEntries := s.inFlightEntries ++ entries.map fun e => e.2.serial
        drains := s.drains ++ [entries]
        trace := s.trace ++ entries.map startOf }

def flush (s : Sink) : Sink :=
  if s.flushing then s else { s with retryTimer := false, flushing := true }.drain

/-- The oldest row that is not being written makes room. -/
def evict (s : Sink) : Sink × Bool :=
  match s.pending.entries.find? fun e => s.waits e.2 with
  | some oldest =>
    ({ s.drop [oldest.2.serial] with pending := s.pending.delete oldest.1 }, false)
  | none => (s, true)

def enqueueRow (s : Sink) (record : OccupancyHistoryRecord) : Sink × Bool :=
  let key := recordKey record
  let entry : PendingEntry := { serial := s.samples.length, record, attempts := 0 }
  let (s, attempts, accepted) :=
    match s.pending.get key with
    | some existing => (s, existing.attempts, true)
    | none =>
      let (s, accepted) := if s.maxPendingRows ≤ s.queuedRows then s.evict else (s, true)
      (s, 0, accepted)
  ({ s with
    pending := s.pending.set key { entry with attempts }
    samples := s.samples ++ [record] }, accepted)

def enqueueRows (s : Sink) : List OccupancyHistoryRecord → Sink × Bool
  | [] => (s, true)
  | record :: records =>
    let (s, accepted) := s.enqueueRow record
    let (s, acceptedAll) := s.enqueueRows records
    (s, accepted && acceptedAll)

def enqueue (s : Sink) (snapshot : OccupancySnapshot) : Sink × Bool :=
  if s.disposed then (s, false)
  else
    let (s, accepted) := s.enqueueRows (recordsOf snapshot)
    (s.flush, accepted)

/-- `inFlightEntries.delete` -/
def land (s : Sink) (e : Text × PendingEntry) : Sink :=
  { s with inFlightEntries := s.inFlightEntries.filter fun serial => serial ≠ e.2.serial }

/-- A row of a batch that was written. -/
def rowWritten (s : Sink) (e : Text × PendingEntry) : Sink :=
  let s := { s.land e with trace := s.trace ++ [doneOf e] }
  match s.pending.get e.1 with
  | some current =>
    if current.serial = e.2.serial then { s with pending := s.pending.delete e.1 }
    else { s with pending := s.pending.set e.1 { current with attempts := 0 } }
  | none => s

/-- A row of a batch that was not written. -/
def rowFailed (s : Sink) (e : Text × PendingEntry) : Sink :=
  let s := s.land e
  match s.pending.get e.1 with
  | none => s
  | some current =>
    if s.maxAttempts ≤ current.attempts + 1 then
      { s.drop [current.serial] with pending := s.pending.delete e.1 }
    else { s with pending := s.pending.set e.1 { current with attempts := current.attempts + 1 } }

def batchWritten (s : Sink) (entries : List (Text × PendingEntry)) (now : Int) : Sink :=
  { entries.foldl rowWritten s with lastError := none, lastSuccessfulWriteAt := some now }.drain

def scheduleRetry (s : Sink) : Sink := { s with retryTimer := true }

def batchFailed (s : Sink) (entries : List (Text × PendingEntry)) (message : Text) : Sink :=
  let s := entries.foldl rowFailed
    { s with failedBatches := s.failedBatches + 1, lastError := some message }
  let s := if ¬ s.disposed ∧ 0 < s.pending.size then s.scheduleRetry else s
  { s with settled := s.settled + 1 }

/-- The end of `dispose`. -/
def discard (s : Sink) : Sink :=
  { s.drop (s.pending.values.map PendingEntry.serial) with pending := .empty }

def dispose (s : Sink) : Sink :=
  let s := { s with disposed := true, retryTimer := false }
  if s.flushing then { s with disposing := s.disposing + 1 } else s.discard

/-! ## Events -/

/-- `ended` runs the `finally` of a flush; with `disposed` a call of `dispose` goes on. -/
inductive Event
  | enqueue (snapshot : OccupancySnapshot)
  | flush
  | timer
  | written (drain : Nat) (now : Int)
  | failed (drain : Nat) (message : Text)
  | ended
  | dispose
  | disposed

/-- A call of `dispose` goes on when the flush it waits for has ended or after five seconds. -/
def step (s : Sink) : Event → Sink
  | .enqueue snapshot => (s.enqueue snapshot).1
  | .flush => s.flush
  | .timer => if s.retryTimer then { s with retryTimer := false }.flush else s
  | .written drain now =>
    match s.drains[drain]? with
    | some entries => { s with drains := s.drains.eraseIdx drain }.batchWritten entries now
    | none => s
  | .failed drain message =>
    match s.drains[drain]? with
    | some entries => { s with drains := s.drains.eraseIdx drain }.batchFailed entries message
    | none => s
  | .ended => if 0 < s.settled then { s with settled := s.settled - 1, flushing := false } else s
  | .dispose => s.dispose
  | .disposed => if 0 < s.disposing then { s with disposing := s.disposing - 1 }.discard else s

/-- The last sample that was written for a key. -/
def lastWritten (s : Sink) (key : Text) : Option Nat :=
  ((s.trace.filter fun w => w.done && w.key = key).getLast?).map Write.serial

end Sink

end TMEdge.History
