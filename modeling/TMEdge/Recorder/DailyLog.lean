import TMEdge.Library.Calendar
import TMEdge.Library.Run
import TMEdge.Library.Url

/-!
# Daily logs

`DailyLog` of `src/edge/recorder.ts`: records wait in a bounded queue and are handed, one at a time,
to the stream of their day. A method returns the log that it leaves and what it does with streams;
`World` runs these calls, the callbacks they ask for and the events of the streams.
-/

namespace TMEdge.Recorder

open Library

/-! ## The log -/

/-- `serial` says which call of `write` made the record. -/
structure QueuedRecord where
  serial : Nat
  day : Text
  line : Text
  bytes : Nat
  deriving DecidableEq

def QueuedRecord.of (serial : Nat) (time : Int) (line : Text) : QueuedRecord where
  serial := serial
  day := dayText (dayOf time)
  line := line
  bytes := Url.byteLength line

/-- A stream is known by the number of streams opened before it. -/
structure DailyLog where
  maxQueuedBytes : Nat := 1048576
  stream : Option Nat := none
  streamDay : Text := []
  queue : List QueuedRecord := []
  queuedBytes : Int := 0
  processing : Bool := false
  closing : Bool := false
  closed : Bool := false
  droppedRecords : Nat := 0
  writeErrors : Nat := 0
  lastSuccessfulWriteAt : Option Int := none
  lastError : Option Text := none
  bytesToday : Int := 0

/-- What a method does with a stream. -/
inductive Call
  | opened (file : Text)
  | wrote (stream : Nat) (record : QueuedRecord)
  | ended (stream : Nat)
  | destroyed (stream : Nat)

/-- What is found when a file is opened: its size, why it cannot be opened, the stream it gets. -/
structure Env where
  size : Nat := 0
  refused : Option Text := none
  fresh : Nat

def fileOf (day : Text) : Text := day ++ js ".jsonl"

structure Health where
  queuedBytes : Int
  queueLimitBytes : Nat
  droppedRecords : Nat
  writeErrors : Nat
  lastSuccessfulWriteAt : Option Int
  healthy : Bool
  lastError : Option Text

namespace DailyLog

def health (log : DailyLog) : Health where
  queuedBytes := log.queuedBytes
  queueLimitBytes := log.maxQueuedBytes
  droppedRecords := log.droppedRecords
  writeErrors := log.writeErrors
  lastSuccessfulWriteAt := log.lastSuccessfulWriteAt
  healthy := log.lastError.isNone
  lastError := log.lastError

def finishStream (log : DailyLog) : DailyLog × List Call :=
  match log.stream with
  | none => (log, [])
  | some stream =>
    if log.processing then (log, []) else ({ log with processing := true }, [.ended stream])

/-- `pump` of a log whose queue is empty -/
def pumpEmpty (log : DailyLog) : DailyLog × List Call :=
  if log.processing then (log, [])
  else if log.closing ∧ log.stream.isSome then log.finishStream
  else if log.closing then ({ log with closed := true }, [])
  else (log, [])

/-- The queue is given up because of an error. -/
def cleared (log : DailyLog) (message : Text) : DailyLog :=
  { log with
    writeErrors := log.writeErrors + 1
    lastError := some message
    droppedRecords := log.droppedRecords + log.queue.length
    queue := []
    queuedBytes := 0 }

def failQueued (log : DailyLog) (message : Text) : DailyLog × List Call :=
  (log.cleared message).pumpEmpty

def openDay (env : Env) (log : DailyLog) (day : Text) : DailyLog × Option Nat × List Call :=
  let log := { log with bytesToday := env.size }
  match env.refused with
  | some message =>
    let (log, calls) := log.failQueued message
    (log, none, calls)
  | none =>
    ({ log with stream := some env.fresh, streamDay := day }, some env.fresh, [.opened (fileOf day)])

def writeNext (env : Env) (log : DailyLog) (record : QueuedRecord) : DailyLog × List Call :=
  let (log, stream, calls) :=
    match log.stream with
    | some stream => (log, some stream, [])
    | none => log.openDay env record.day
  match stream with
  | none => (log, calls)
  | some stream => ({ log with processing := true }, calls ++ [.wrote stream record])

def pump (env : Env) (log : DailyLog) : DailyLog × List Call :=
  match log.queue with
  | [] => log.pumpEmpty
  | next :: _ =>
    if log.processing then (log, [])
    else if log.stream.isSome ∧ log.streamDay ≠ next.day then log.finishStream
    else log.writeNext env next

/-- `time` is the time value of `new Date(at)`, which may be none; `toISOString` then throws. -/
def write (env : Env) (log : DailyLog) (serial : Nat) (time : Option Int) (line : Text) :
    Option (DailyLog × List Call) :=
  time.map fun time =>
    let record := QueuedRecord.of serial time line
    if log.closing ∨ log.maxQueuedBytes < record.bytes ∨
        (log.maxQueuedBytes : Int) < log.queuedBytes + record.bytes then
      ({ log with droppedRecords := log.droppedRecords + 1 }, [])
    else
      { log with
        queue := log.queue ++ [record]
        queuedBytes := log.queuedBytes + record.bytes }.pump env

def close (env : Env) (log : DailyLog) : DailyLog × List Call :=
  if log.closing then (log, []) else { log with closing := true }.pump env

def failStream (env : Env) (log : DailyLog) (stream : Nat) (message : Text) :
    DailyLog × List Call :=
  if log.stream ≠ some stream then (log, [])
  else
    let (log, calls) :=
      ({ log with stream := none, streamDay := [], processing := false }.cleared message).pump env
    (log, .destroyed stream :: calls)

/-- The callback of a write. -/
def written (env : Env) (log : DailyLog) (stream : Nat) (record : QueuedRecord)
    (error : Option Text) (now : Int) : DailyLog × List Call :=
  if log.stream ≠ some stream then (log, [])
  else
    match error with
    | some message => log.failStream env stream message
    | none =>
      { log with
        queue := log.queue.tail
        queuedBytes := log.queuedBytes - record.bytes
        bytesToday := log.bytesToday + record.bytes
        lastSuccessfulWriteAt := some now
        lastError := none
        processing := false }.pump env

/-- The callback of an end; whether there was an error is not looked at. -/
def ended (env : Env) (log : DailyLog) (stream : Nat) : DailyLog × List Call :=
  let log := if log.stream = some stream then { log with stream := none, streamDay := [] } else log
  { log with processing := false }.pump env

end DailyLog

/-! ## The streams around it -/

inductive Callback
  | written (stream : Nat) (record : QueuedRecord)
  | ended (stream : Nat)
  deriving DecidableEq

def Callback.stream : Callback → Nat
  | .written stream _ => stream
  | .ended stream => stream

/-- The log, the file of each stream, the callbacks that have not run, the calls of `write` that
returned, the records handed to streams, and the serials of the records reported written and of
those that are gone without a report. -/
structure World where
  log : DailyLog
  files : List Text := []
  callbacks : List Callback := []
  writes : List (Int × Text) := []
  handed : List (Nat × QueuedRecord) := []
  reported : List Nat := []
  dropped : List Nat := []

namespace World

def queued (w : World) : List Nat := w.log.queue.map QueuedRecord.serial

def apply (w : World) : Call → World
  | .opened file => { w with files := w.files ++ [file] }
  | .wrote stream record =>
    { w with
      callbacks := w.callbacks ++ [.written stream record]
      handed := w.handed ++ [(stream, record)] }
  | .ended stream => { w with callbacks := w.callbacks ++ [.ended stream] }
  | .destroyed _ => w

/-- What a method leaves: `offered` came in and `reported` was reported by the step. -/
def after (w : World) (offered reported : List Nat) (result : DailyLog × List Call) : World :=
  result.2.foldl apply
    { w with
      log := result.1
      reported := w.reported ++ reported
      dropped := w.dropped ++ (w.queued ++ offered).filter fun n =>
        n ∉ result.1.queue.map QueuedRecord.serial ∧ n ∉ reported }

inductive Event
  | write (time : Option Int) (line : Text)
  | close
  | callback (c : Callback) (error : Option Text) (now : Int)
  | error (stream : Nat) (message : Text)

/-- One event; `size` and `refused` say what happens if it opens a file. A callback runs at most once,
and none runs after an error of its stream. -/
def step (w : World) : Event × Nat × Option Text → World
  | (event, size, refused) =>
    let env : Env := { size, refused, fresh := w.files.length }
    match event with
    | .write time line =>
      match time, w.log.write env w.writes.length time line with
      | some time, some result =>
        { w with writes := w.writes ++ [(time, line)] }.after [w.writes.length] [] result
      | _, _ => w
    | .close => w.after [] [] (w.log.close env)
    | .callback c error now =>
      if c ∉ w.callbacks then w
      else
        let w := { w with callbacks := w.callbacks.erase c }
        match c with
        | .written stream record =>
          w.after [] (if error.isNone then [record.serial] else [])
            (w.log.written env stream record error now)
        | .ended stream => w.after [] [] (w.log.ended env stream)
    | .error stream message =>
      if w.files.length ≤ stream then w
      else
        { w with callbacks := w.callbacks.filter fun c => c.stream ≠ stream }.after [] []
          (w.log.failStream env stream message)

/-- A log that has not written anything. -/
def start (maxQueuedBytes : Nat) : World := { log := { maxQueuedBytes } }

end World

end TMEdge.Recorder
