import TMEdge.Library.JsMap
import TMEdge.Library.JsText
import TMEdge.Library.Run

/-!
# Exports of training data

The model of `Exports` (`algo/ml-data/exports.ts`) over its own directory. What the code does
without waiting is one act: it changes what is in memory and lists its effects on the directory, in
their order. The process may end behind any of them, and then starts again with `boot`, which may
be cut short as well.

The `n`-th call of `randomUUID` gives `n`. Given from outside: the clock, what `pg_dump`, the
database and the file system answer, whether a receipt can be saved, and how much of an archive has
reached its file. Temporary files of a receipt, remote storage and `list`, `get` and `path` behind
their `cleanup` are left out. `handles` are the releases `lease` has given; `exits` and `packs` keep
which dumps exited with 0 and which archives were written out, for the statements.
-/

namespace TMEdge.Exports

open Library

/-! ## Jobs -/

inductive ExportState
  | queued
  | processing
  | completed
  | failed
  deriving DecidableEq

def ExportState.isActive : ExportState → Bool
  | .queued | .processing => true
  | _ => false

structure ExportJob where
  id : Nat
  owner : Text
  epoch : Option Text
  state : ExportState
  tables : List Text
  createdAt : Int
  expiresAt : Int
  bytes : Nat
  sha256 : Option Text
  error : Option Text
  deriving DecidableEq

def ttl : Int := 24 * 3600000

def mebibyte : Int := 1024 * 1024

structure ExportConfig where
  maxBytes : Int
  reserveBytes : Int
  /-- The SHA-256 of an archive, in hexadecimal. -/
  hash : List UInt8 → Text

/-- `tableName` -/
def isTableName (t : Text) : Bool :=
  match (js "training.").isPrefixOf t, t.drop 9 with
  | true, c :: rest =>
    (97 ≤ c && c ≤ 122 || c == 95) && rest.length ≤ 62 &&
      rest.all fun c => 97 ≤ c && c ≤ 122 || 48 ≤ c && c ≤ 57 || c == 95
  | _, _ => false

def selectedTables (tables : List Text) : Bool :=
  1 ≤ tables.length && tables.length ≤ 32 && tables.all isTableName && decide tables.Nodup

/-! ## The directory -/

structure Disk where
  receipts : JsMap Nat ExportJob := .empty
  zips : JsMap Nat (List UInt8) := .empty
  parts : JsMap Nat (List UInt8) := .empty

inductive DiskEffect
  | writeReceipt (job : ExportJob)
  | removeReceipt (id : Nat)
  | removeZip (id : Nat)
  | removePart (id : Nat)
  | writePart (id : Nat) (bytes : List UInt8)
  /-- The archive gets its name. -/
  | publish (id : Nat)
  deriving DecidableEq

namespace Disk

def apply (d : Disk) : DiskEffect → Disk
  | .writeReceipt job => { d with receipts := d.receipts.set job.id job }
  | .removeReceipt id => { d with receipts := d.receipts.delete id }
  | .removeZip id => { d with zips := d.zips.delete id }
  | .removePart id => { d with parts := d.parts.delete id }
  | .writePart id bytes => { d with parts := d.parts.set id bytes }
  | .publish id =>
    match d.parts.get id with
    | some bytes => { d with zips := d.zips.set id bytes, parts := d.parts.delete id }
    | none => d

def write (d : Disk) (es : List DiskEffect) : Disk := es.foldl apply d

end Disk

/-! ## The process -/

/-- Why an export fails: an error with a text for its owner, or another one. -/
inductive Reason
  | data (message : Text)
  | other
  deriving DecidableEq

def Reason.message : Reason → Text
  | .data message => message
  | .other => js "Export interrupted. Generate it again."

inductive Settled
  | pending
  | fulfilled
  | rejected (reason : Reason)
  deriving DecidableEq

/-- `pg_dump` and the pipeline into the file, running side by side. -/
structure Packing where
  limit : Int
  passed : List UInt8 := []
  refused : Option Text := none
  dump : Settled := .pending
  packed : Settled := .pending
  deriving DecidableEq

/-- Where a call of `generate` waits. -/
inductive Stage
  | queued
  | schema
  | packing (p : Packing)
  deriving DecidableEq

structure Task where
  stage : Stage
  aborted : Bool
  deriving DecidableEq

structure Server where
  jobs : JsMap Nat ExportJob := .empty
  tasks : JsMap Nat Task := .empty
  leases : JsMap Nat Nat := .empty
  handles : List (Nat × Bool) := []
  stopped : Bool := false

namespace Server

variable (cfg : ExportConfig) (s : Server)

def expired (now : Int) (job : ExportJob) : Bool :=
  job.expiresAt ≤ now && !job.state.isActive && !s.leases.has job.id

def forget (id : Nat) : List DiskEffect := [.removeZip id, .removePart id, .removeReceipt id]

def cleanup (now : Int) : Server × List DiskEffect :=
  ({ s with jobs := s.jobs.filter fun job => !s.expired now job },
    (s.jobs.values.filter (s.expired now)).flatMap fun job => forget job.id)

/-- `start`, for the job `id`. -/
def start (id : Nat) (owner : Text) (epoch : Option Text) (tables : List Text) (now : Int)
    (saved : Bool) : Server × List DiskEffect :=
  if !selectedTables tables then (s, [])
  else
    let (s, es) := s.cleanup now
    if s.stopped ∨ s.jobs.values.any (·.state.isActive) ∨ 32 ≤ s.jobs.size then (s, es)
    else
      let job : ExportJob :=
        { id, owner, epoch, state := .queued, tables, createdAt := now, expiresAt := now + ttl
          bytes := 0, sha256 := none, error := none }
      if saved then
        ({ s with jobs := s.jobs.set id job, tasks := s.tasks.set id ⟨.queued, false⟩ },
          es ++ [.writeReceipt job])
      else (s, es)

def lease (id : Nat) : Server :=
  { s with
    leases := s.leases.set id ((s.leases.get id).getD 0 + 1)
    handles := s.handles ++ [(id, false)] }

/-- A release is called; only its first call counts. -/
def release (i : Nat) : Server :=
  match s.handles[i]? with
  | some (id, false) =>
    let remaining := (s.leases.get id).getD 1 - 1
    { s with
      leases := if 0 < remaining then s.leases.set id remaining else s.leases.delete id
      handles := s.handles.set i (id, true) }
  | _ => s

/-! ## Generating -/

/-- The `catch` of `generate`. -/
def fail (job : ExportJob) (reason : Reason) (saved : Bool) : Server × List DiskEffect :=
  let job := { job with state := .failed, error := some reason.message }
  ({ s with jobs := s.jobs.set job.id job, tasks := s.tasks.delete job.id },
    [.removePart job.id, .removeZip job.id] ++ if saved then [.writeReceipt job] else [])

def setTask (id : Nat) (job : ExportJob) (task : Task) : Server :=
  { s with jobs := s.jobs.set id job, tasks := s.tasks.set id task }

/-- `generate` up to the database. -/
def begin_ (id : Nat) (saved failSaved : Bool) : Server × List DiskEffect :=
  match s.tasks.get id, s.jobs.get id with
  | some ⟨.queued, aborted⟩, some job =>
    if s.stopped then s.fail job .other failSaved
    else
      let job := { job with state := .processing }
      if saved then (s.setTask id job ⟨.schema, aborted⟩, [.writeReceipt job])
      else s.fail job .other failSaved
  | _, _ => (s, [])

def unavailable : Text :=
  js "A selected table is unavailable. Refresh the schema and select again."

def noSpace : Text := js "Insufficient disk space to prepare this export."

/-- The database has answered with its tables, each with whether it is one, or with an error. -/
def schema (id : Nat) (result : Except Reason (List (Text × Bool))) (space : Int)
    (spawned failSaved : Bool) : Server × List DiskEffect :=
  match s.tasks.get id, s.jobs.get id with
  | some ⟨.schema, aborted⟩, some job =>
    match result with
    | .error reason => s.fail job reason failSaved
    | .ok tables =>
      if aborted ∨ s.stopped then s.fail job .other failSaved
      else if ¬ job.tables.all (fun name => tables.contains (name, true)) then
        s.fail job (.data unavailable) failSaved
      else if space - cfg.reserveBytes < 256 * mebibyte then
        s.fail job (.data noSpace) failSaved
      else if spawned then
        (s.setTask id job
          ⟨.packing { limit := min (space - cfg.reserveBytes) cfg.maxBytes }, aborted⟩, [])
      else s.fail job .other failSaved
  | _, _ => (s, [])

def tooLarge : Text :=
  js "Export exceeds the available disk space or configured size limit. " ++
    js "Select fewer tables."

def reserveReached : Text := js "Disk reserve reached. Select fewer tables."

def notWritten : Text := js "Export could not write to its private storage."

/-- A chunk comes to the meter: `free` if the disk is checked and has its reserve, `save` if a save
is due, and how it goes; `flushed` bytes of the archive are in its file by then. -/
def chunk (id : Nat) (data : List UInt8) (free : Option Bool) (save : Option Bool)
    (flushed : Nat) : Server × List DiskEffect :=
  match s.tasks.get id, s.jobs.get id with
  | some ⟨.packing p, aborted⟩, some job =>
    if p.packed ≠ .pending ∨ p.refused.isSome then (s, [])
    else
      let job := { job with bytes := job.bytes + data.length }
      let next (p : Packing) := s.setTask id job ⟨.packing p, aborted⟩
      if p.limit < job.bytes then (next { p with refused := some tooLarge }, [])
      else if free = some false then (next { p with refused := some reserveReached }, [])
      else if save = some false then (next { p with refused := some notWritten }, [])
      else
        let passed := p.passed ++ data
        (next { p with passed },
          (if save = some true then [.writeReceipt job] else []) ++
            [.writePart id (passed.take flushed)])
  | _, _ => (s, [])

def dumpUnavailable : Text :=
  js "pg_dump is unavailable. Ask an administrator to check the export service."

def dumpFailed : Text :=
  js "Database export failed. " ++ js "Check the private tunnel and matching pg_dump version."

/-- What a settled promise means: a rejection aborts the other. -/
def settled (p : Packing) (aborted : Bool) (result : Settled) : Task :=
  ⟨.packing p, aborted || result matches .rejected _⟩

/-- How `pg_dump` ended: an error, or its exit code. -/
inductive DumpEnd
  | error
  | close (code : Option Int)
  deriving DecidableEq

def DumpEnd.result : DumpEnd → Settled
  | .error => .rejected (.data dumpUnavailable)
  | .close code => if code = some 0 then .fulfilled else .rejected (.data dumpFailed)

def dumpEnds (id : Nat) (result : DumpEnd) : Server :=
  match s.tasks.get id with
  | some ⟨.packing p, aborted⟩ =>
    if p.dump = .pending then
      let task := settled { p with dump := result.result } aborted result.result
      { s with tasks := s.tasks.set id task }
    else s
  | _ => s

/-- A pipeline cannot have gone through behind a refused chunk. -/
def packResult (p : Packing) (failure : Option Reason) : Settled :=
  match p.refused, failure with
  | some message, _ => .rejected (.data message)
  | none, some reason => .rejected reason
  | none, none => .fulfilled

/-- The pipeline has ended. -/
def packEnds (id : Nat) (failure : Option Reason) : Server × List DiskEffect :=
  match s.tasks.get id with
  | some ⟨.packing p, aborted⟩ =>
    if p.packed = .pending then
      let result := packResult p failure
      let task := settled { p with packed := result } aborted result
      ({ s with tasks := s.tasks.set id task },
        if result = .fulfilled then [.writePart id p.passed] else [])
    else (s, [])
  | _ => (s, [])

/-- The rejection that is told: one with a text of its own before that of a failed dump. -/
def failure (p : Packing) : Option Reason :=
  let rejections := [p.dump, p.packed].filterMap fun
    | .rejected reason => some reason
    | _ => none
  (rejections.find? fun
    | .data message => !(js "Database export failed").isPrefixOf message
    | .other => false) <|> rejections.head?

/-- `generate` behind its two promises. -/
def settle (d : Disk) (id : Nat) (now : Int) (renamed saved failSaved : Bool) :
    Server × List DiskEffect :=
  match s.tasks.get id, s.jobs.get id with
  | some ⟨.packing p, aborted⟩, some job =>
    if p.dump = .pending ∨ p.packed = .pending then (s, [])
    else
      match failure p with
      | some reason => s.fail job reason failSaved
      | none =>
        if aborted ∨ s.stopped then s.fail job .other failSaved
        else if ¬ renamed ∨ ¬ d.parts.has id then s.fail job .other failSaved
        else
          let job := { job with
            sha256 := some (cfg.hash p.passed), state := .completed, expiresAt := now + ttl }
          if saved then
            ({ s with jobs := s.jobs.set id job, tasks := s.tasks.delete id },
              [.publish id, .writeReceipt job])
          else
            let (s, es) := s.fail job .other failSaved
            (s, .publish id :: es)
  | _, _ => (s, [])

/-- `abort.abort()`, which a call of `generate` that has not begun does not have yet. -/
def abort (task : Task) : Task :=
  match task.stage with
  | .queued => task
  | _ => { task with aborted := true }

def timeout (id : Nat) : Server :=
  match s.tasks.get id with
  | some task => { s with tasks := s.tasks.set id (abort task) }
  | none => s

def stop : Server := { s with stopped := true, tasks := s.tasks.mapValues fun _ => abort }

/-! ## Starting again -/

def interrupted : Text := js "Export interrupted by a server restart. Generate it again."

/-- A receipt is read: a job that was under way has failed. -/
def readReceipt (saves : Nat → Bool) (acc : JsMap Nat ExportJob × List DiskEffect)
    (receipt : Nat × ExportJob) : JsMap Nat ExportJob × List DiskEffect :=
  let (id, job) := receipt
  if job.id ≠ id then acc
  else if job.state.isActive then
    let job := { job with state := .failed, error := some interrupted }
    if saves id then
      (acc.1.set id job, acc.2 ++ [.removePart id, .removeZip id, .writeReceipt job])
    else (acc.1, acc.2 ++ [.removePart id, .removeZip id])
  else (acc.1.set id job, acc.2)

/-- The files of no job. -/
def orphans (d : Disk) (jobs : JsMap Nat ExportJob) : List DiskEffect :=
  (d.parts.keys.filter fun id => !jobs.has id).map .removePart ++
    (d.zips.keys.filter fun id => !jobs.has id).map .removeZip

/-- The constructor. -/
def boot (d : Disk) (now : Int) (saves : Nat → Bool) : Server × List DiskEffect :=
  let (jobs, es) := d.receipts.entries.foldl (readReceipt saves) (.empty, [])
  let s : Server := { jobs }
  let (s, es') := s.cleanup now
  (s, es ++ es' ++ orphans (d.write (es ++ es')) s.jobs)

end Server

/-! ## Runs -/

inductive Act
  | start (owner : Text) (epoch : Option Text) (tables : List Text) (now : Int) (saved : Bool)
  | begin_ (id : Nat) (saved failSaved : Bool)
  | schema (id : Nat) (result : Except Reason (List (Text × Bool))) (space : Int)
    (spawned failSaved : Bool)
  | chunk (id : Nat) (data : List UInt8) (free save : Option Bool) (flushed : Nat)
  | dumpEnds (id : Nat) (result : Server.DumpEnd)
  | packEnds (id : Nat) (failure : Option Reason)
  | settle (id : Nat) (now : Int) (renamed saved failSaved : Bool)
  | timeout (id : Nat)
  | cleanup (now : Int)
  | lease (id : Nat)
  | release (i : Nat)
  | stop

structure World where
  disk : Disk := {}
  server : Option Server := none
  made : Nat := 0
  exits : List Nat := []
  packs : List (Nat × List UInt8) := []
  clock : Int := 0

def Server.act (cfg : ExportConfig) (s : Server) (d : Disk) (made : Nat) :
    Act → Server × List DiskEffect
  | .start owner epoch tables now saved => s.start made owner epoch tables now saved
  | .begin_ id saved failSaved => s.begin_ id saved failSaved
  | .schema id result space spawned failSaved => s.schema cfg id result space spawned failSaved
  | .chunk id data free save flushed => s.chunk id data free save flushed
  | .dumpEnds id result => (s.dumpEnds id result, [])
  | .packEnds id failure => s.packEnds id failure
  | .settle id now renamed saved failSaved => s.settle cfg d id now renamed saved failSaved
  | .timeout id => (s.timeout id, [])
  | .cleanup now => s.cleanup now
  | .lease id => (s.lease id, [])
  | .release i => (s.release i, [])
  | .stop => (s.stop, [])

inductive ExportEvent
  | act (a : Act)
  /-- The process ends behind the first effects of an act. -/
  | cut (a : Act) (effects : Nat)
  | boot (now : Int) (saves : Nat → Bool)
  | bootCut (now : Int) (saves : Nat → Bool) (effects : Nat)

def Act.now : Act → Option Int
  | .start _ _ _ now _ => some now
  | .settle _ now _ _ _ => some now
  | .cleanup now => some now
  | _ => none

namespace World

variable (cfg : ExportConfig) (w : World)

/-- The dump of a job exits with 0 in an act. -/
def exited (s : Server) : Act → List Nat
  | .dumpEnds id (.close code) =>
    match s.tasks.get id with
    | some ⟨.packing _, _⟩ => if code = some 0 then [id] else []
    | _ => []
  | _ => []

/-- The archive of a job is written out in an act. -/
def written (es : List DiskEffect) : Act → List (Nat × List UInt8)
  | .packEnds _ _ => es.filterMap fun
    | .writePart id bytes => some (id, bytes)
    | _ => none
  | _ => []

/-- What an act says of the world outside. -/
def note (s : Server) (es : List DiskEffect) (a : Act) : World :=
  { w with
    made := w.made + 1
    exits := exited s a ++ w.exits
    packs := written es a ++ w.packs
    clock := max w.clock (a.now.getD w.clock) }

def step : ExportEvent → World
  | .act a =>
    match w.server with
    | some s =>
      let (s', es) := s.act cfg w.disk w.made a
      { w.note s es a with disk := w.disk.write es, server := some s' }
    | none => w
  | .cut a effects =>
    match w.server with
    | some s =>
      let es := (s.act cfg w.disk w.made a).2
      { w.note s es a with disk := w.disk.write (es.take effects), server := none }
    | none => w
  | .boot now saves =>
    match w.server with
    | some _ => w
    | none =>
      let (s, es) := Server.boot w.disk now saves
      { w with disk := w.disk.write es, server := some s, clock := max w.clock now }
  | .bootCut now saves effects =>
    match w.server with
    | some _ => w
    | none =>
      let es := (Server.boot w.disk now saves).2
      { w with disk := w.disk.write (es.take effects), clock := max w.clock now }

end World

end TMEdge.Exports
