import TMEdge.Library.JsText
import TMEdge.Library.Run

/-!
# Firmware build jobs

The model of `DurableFirmwareBuildJobService`
(`modules/firmware/application/durable-firmware-build-job-service.ts`) over
`PostgresFirmwareBuildJobRepository`. A call of `start` is a suspended computation for one
build; `Stage` is where it waits. The saves of progress are a chain of their own, a link of
which issues its `save` when the link before it has settled.

A call of the repository is issued by the service, carried out by the database (`carryOut`)
and answered (`answer`, `answerWrite`), in this order. An error may be answered to a call
that was carried out or to one that never will be. Which of the calls in flight moves next,
the moments, what the executor reports and returns, and when the timer fires are events.

The sequence number and the start time are the build's id; the rows of earlier processes
have other ids and are left out, as are `status`, the operational log and the artifacts.
-/

namespace TMEdge.Build

open Library

/-! ## Records -/

inductive Lifecycle
  | accepted
  | running
  | succeeded
  | failed
  | interrupted
  deriving DecidableEq

inductive ActorKind
  | console
  | system
  | student
  deriving DecidableEq

structure Actor where
  id : Text
  kind : ActorKind
  deriving DecidableEq

structure FirmwareArtifact where
  id : Text
  sha256 : Text
  size : Nat
  version : Text
  deriving DecidableEq

structure BuildId where
  startedAt : Int
  sequence : Nat
  deriving DecidableEq

/-- `FirmwareBuildJobRecord`. -/
structure JobRecord where
  id : BuildId
  uploadId : Text
  actor : Actor
  lifecycle : Lifecycle
  startedAt : Int
  finishedAt : Option Int
  artifact : Option FirmwareArtifact
  log : List Text
  error : Option Text
  deriving DecidableEq

def sameIntent (a b : JobRecord) : Bool :=
  a.id == b.id && a.uploadId == b.uploadId && a.actor.id == b.actor.id &&
    a.actor.kind == b.actor.kind

def sameRecord (a b : JobRecord) : Bool :=
  sameIntent a b && a.lifecycle == b.lifecycle && a.finishedAt == b.finishedAt &&
    a.artifact.map FirmwareArtifact.id == b.artifact.map FirmwareArtifact.id &&
    a.artifact.map FirmwareArtifact.sha256 == b.artifact.map FirmwareArtifact.sha256 &&
    a.artifact.map FirmwareArtifact.size == b.artifact.map FirmwareArtifact.size &&
    a.artifact.map FirmwareArtifact.version == b.artifact.map FirmwareArtifact.version &&
    a.error == b.error && a.log == b.log

def maxLogLines : Nat := 400

def maxLogLineChars : Nat := 4096

def maxLogBytes : Nat := 128 * 1024

/-- The loop of `boundedFirmwareBuildLog`: `candidates` newest first, `retained` oldest first. -/
def retain (bytes : Nat) (retained : List Text) : List Text → List Text
  | [] => retained
  | line :: candidates =>
    let nextBytes := line.jsonBytes + if retained.isEmpty then 0 else 2
    if bytes + nextBytes > maxLogBytes then retained
    else retain (bytes + nextBytes) (line :: retained) candidates

/-- `boundedFirmwareBuildLog`. -/
def boundedLog (lines : List Text) : List Text :=
  retain 2 [] ((lines.drop (lines.length - maxLogLines)).map (·.take maxLogLineChars)).reverse

def normalizeJob (job : JobRecord) : JobRecord := { job with log := boundedLog job.log }

@[simp] theorem normalizeJob_id (job : JobRecord) : (normalizeJob job).id = job.id := by
  simp only [normalizeJob]

@[simp] theorem normalizeJob_lifecycle (job : JobRecord) :
    (normalizeJob job).lifecycle = job.lifecycle := by
  simp only [normalizeJob]

/-- What `errorText` and `errorLog` read from a thrown value. -/
structure Failure where
  text : Text
  log : List Text
  deriving DecidableEq

/-- The result of the executor: its image and what it logged. -/
structure BuildResult where
  artifact : FirmwareArtifact
  log : List Text
  deriving DecidableEq

/-! ## The service -/

/-- The link of the chain of progress saves that was the last one when it was read; `none`
for a chain that is empty. -/
abbrev Tail := Option Nat

/-- Where the computation of one build waits. -/
inductive Stage
  | idle
  | accepting (accepted : JobRecord)
  | readingAccepted (accepted : JobRecord)
  | starting (accepted : JobRecord)
  | readingStarted (accepted : JobRecord)
  | executing (started : JobRecord)
  | flushing (started : JobRecord) (result : BuildResult) (tail : Tail)
  | savingArtifact (started : JobRecord) (result : BuildResult)
  | succeeding (started succeeded : JobRecord)
  | readingSucceeded (started succeeded : JobRecord)
  | rereading (started : JobRecord)
  | draining (started : JobRecord) (error : Failure) (tail : Tail)
  | failing (failed : JobRecord)
  | readingFailed (failed : JobRecord)
  deriving DecidableEq

inductive Query
  | create (job : JobRecord)
  | save (job : JobRecord)
  | get (jobId : BuildId)
  deriving DecidableEq

def JobRecord.running (accepted : JobRecord) : JobRecord := { accepted with lifecycle := .running }

def JobRecord.succeeded (current : JobRecord) (result : BuildResult) (now : Int) : JobRecord :=
  { current with
    lifecycle := .succeeded
    finishedAt := some now
    artifact := some result.artifact
    log := boundedLog (current.log ++ result.log)
    error := none }

def JobRecord.failed (current : JobRecord) (error : Failure) (now : Int) : JobRecord :=
  { current with
    lifecycle := .failed
    finishedAt := some now
    log := boundedLog (current.log ++ error.log)
    error := some error.text }

/-- The call of the repository a stage waits for. -/
def Stage.query : Stage → Option Query
  | .accepting accepted => some (.create accepted)
  | .readingAccepted accepted => some (.get accepted.id)
  | .starting accepted => some (.save accepted.running)
  | .readingStarted accepted => some (.get accepted.id)
  | .succeeding _ succeeded => some (.save succeeded)
  | .readingSucceeded _ succeeded => some (.get succeeded.id)
  | .rereading started => some (.get started.id)
  | .failing failed => some (.save failed)
  | .readingFailed failed => some (.get failed.id)
  | _ => none

/-- A stage, and of the call it waits for: whether it was carried out and what it read. -/
structure Job where
  stage : Stage := .idle
  done : Bool := false
  row : Option JobRecord := none
  deriving DecidableEq

/-- What a `get` resolves to; one that rejects reads nothing. -/
def Job.committed (job : Job) (ok : Bool) : Option JobRecord := if ok then job.row else none

inductive WriteStatus
  | queued
  | saving (done : Bool)
  | resolved
  | rejected
  deriving DecidableEq

/-- A link of the chain of progress saves. -/
structure Write where
  record : JobRecord
  previous : Tail
  status : WriteStatus
  deriving DecidableEq

/-- What happened, for the statements: a record stored, and a call of `executor.execute`. -/
inductive Deed
  | stored (job : JobRecord)
  | executes (id : BuildId)
  deriving DecidableEq

structure State where
  sequence : Nat := 0
  latest : Option JobRecord := none
  activeId : Option BuildId := none
  progressTimer : Bool := false
  progressWrite : Tail := none
  hasPendingProgress : Bool := false
  disposed : Bool := false
  jobs : BuildId → Job := fun _ => {}
  writes : List Write := []
  rows : BuildId → Option JobRecord := fun _ => none
  deeds : List Deed := []

namespace State

def put (s : State) (id : BuildId) (stage : Stage) : State :=
  { s with jobs := Function.update s.jobs id { stage } }

def keep (s : State) (latest : JobRecord) : State := { s with latest := some latest }

/-- `current`; `none` where it throws. -/
def current (s : State) (id : BuildId) : Option JobRecord := s.latest.filter (·.id = id)

/-- The `finally` of `execute`. -/
def release (s : State) (id : BuildId) : State := { s.put id .idle with activeId := none }

/-- The outcome of the chain that ends at `tail`, once it has settled. -/
def outcome (s : State) (tail : Tail) : Option Bool :=
  match tail with
  | none => some true
  | some i => (s.writes[i]?).bind fun w =>
    match w.status with
    | .resolved => some true
    | .rejected => some false
    | _ => none

/-! ## Progress -/

def recordProgress (s : State) (id : BuildId) (line : Text) : State :=
  if s.activeId ≠ some id ∨ s.disposed then s
  else match s.current id with
    | none => s
    | some base =>
      { s with
        latest := some { base with log := boundedLog (base.log ++ [line]) }
        hasPendingProgress := true
        progressTimer := true }

/-- The record `flushProgress` would save. -/
def flushable (s : State) : Option JobRecord :=
  if s.hasPendingProgress then
    s.latest.filter fun record =>
      some record.id = s.activeId ∧ record.lifecycle = .running
  else none

/-- `flushProgress`; what it returns is `progressWrite`. -/
def flushProgress (s : State) : State :=
  match s.flushable with
  | none => { s with progressTimer := false }
  | some record =>
    { s with
      progressTimer := false
      hasPendingProgress := false
      writes := s.writes ++ [⟨record, s.progressWrite, .queued⟩]
      progressWrite := some s.writes.length }

def setWrite (s : State) (i : Nat) (w : Write) (status : WriteStatus) : State :=
  { s with writes := s.writes.set i { w with status } }

/-- A link whose predecessor has settled calls `save`. -/
def issue (s : State) (i : Nat) : State :=
  match s.writes[i]? with
  | some w =>
    if w.status = .queued ∧ (s.outcome w.previous).isSome then
      s.setWrite i w (.saving false)
    else s
  | none => s

/-! ## The repository -/

/-- `create` inserts and `save` upserts the row; a `create` of a row that exists fails. -/
def store (s : State) (job : JobRecord) : State :=
  { s with
    rows := Function.update s.rows job.id (some (normalizeJob job))
    deeds := s.deeds ++ [.stored (normalizeJob job)] }

def settle (s : State) (id : BuildId) (row : Option JobRecord) : State :=
  { s with jobs := Function.update s.jobs id { s.jobs id with done := true, row } }

/-- The database carries out the call of a build's computation. -/
def carryOut (s : State) (id : BuildId) : State :=
  let job := s.jobs id
  if job.done then s
  else
    match job.stage.query with
    | none => s
    | some (.create r) => if (s.rows r.id).isSome then s else (s.store r).settle id none
    | some (.save r) => (s.store r).settle id none
    | some (.get jobId) => s.settle id (s.rows jobId)

/-- The database carries out the save of a link. -/
def carryOutWrite (s : State) (i : Nat) : State :=
  match s.writes[i]? with
  | some w =>
    if w.status = .saving false then
      (s.store w.record).setWrite i w (.saving true)
    else s
  | none => s

/-- The save of a link resolves or rejects. -/
def answerWrite (s : State) (i : Nat) (ok : Bool) : State :=
  match s.writes[i]? with
  | some w =>
    if w.status = .saving true ∨ (w.status = .saving false ∧ ok = false) then
      s.setWrite i w (if ok then .resolved else .rejected)
    else s
  | none => s

/-! ## The computation of one build -/

def start (s : State) (uploadId : Text) (actor : Actor) (now : Int) : State :=
  if s.disposed ∨ s.activeId.isSome then s
  else
    let id : BuildId := ⟨now, s.sequence + 1⟩
    let accepted : JobRecord :=
      { id, uploadId, actor, lifecycle := .accepted, startedAt := now, finishedAt := none
        artifact := none, log := [], error := none }
    { s.put id (.accepting accepted) with
      sequence := s.sequence + 1
      activeId := some id
      progressWrite := none
      hasPendingProgress := false }

/-- The rest of `start` behind `accept`. A throw of `requireAvailable` keeps the slot. -/
def afterAccept (s : State) (id : BuildId) (accepted : JobRecord) : State :=
  let s := s.keep accepted
  if s.disposed then s.put id .idle else s.put id (.starting accepted)

/-- The rest of `start` behind `markRunning`, which leaves `latest` and returns the running
record. -/
def afterRunning (s : State) (id : BuildId) (latest accepted : JobRecord) : State :=
  let s := s.keep latest
  if s.disposed then s.put id .idle
  else { s.put id (.executing accepted.running) with deeds := s.deeds ++ [.executes id] }

/-- The `catch` of `execute` before the terminal write of a success. -/
def caught (s : State) (started : JobRecord) (error : Failure) : State :=
  s.put started.id (.draining started error s.progressWrite)

/-- The executor settles. -/
def executed (s : State) (id : BuildId) (result : Except Failure BuildResult) : State :=
  match (s.jobs id).stage, result with
  | .executing started, .ok result =>
    let s := s.flushProgress
    s.put id (.flushing started result s.progressWrite)
  | .executing started, .error error => s.caught started error
  | _, _ => s

/-- The chain a computation waits for has settled; `error` is what a save rejected with. -/
def drained (s : State) (id : BuildId) (error : Failure) (now : Int) : State :=
  match (s.jobs id).stage with
  | .flushing started result tail =>
    match s.outcome tail with
    | none => s
    | some true => s.put id (.savingArtifact started result)
    | some false => s.caught started error
  | .draining _ thrown tail =>
    if (s.outcome tail).isNone then s
    else match s.current id with
      | none => s.release id
      | some current => s.put id (.failing (current.failed thrown now))
  | _ => s

/-- `artifacts.save` settles. -/
def artifactSaved (s : State) (id : BuildId) (outcome : Except Failure Int) : State :=
  match (s.jobs id).stage, outcome with
  | .savingArtifact started result, .ok now =>
    match s.current id with
    -- `current` throws there again, so that the text of its error is not read.
    | none => s.caught started ⟨[], []⟩
    | some current =>
      s.put id (.succeeding started (current.succeeded result now))
  | .savingArtifact started _, .error error => s.caught started error
  | _, _ => s

/-- The success is saved; `activated` is false where `activateArtifact` throws. -/
def afterSuccess (s : State) (id : BuildId) (started succeeded : JobRecord) (activated : Bool) :
    State :=
  let s := s.keep succeeded
  if activated then s.release id else s.put id (.rereading started)

/-- The call of a build's computation resolves or rejects. -/
def answer (s : State) (id : BuildId) (ok activated : Bool) : State :=
  let job := s.jobs id
  -- A call that was not carried out cannot resolve.
  if ok ∧ job.done = false then s
  else
    match job.stage with
    | .accepting accepted =>
      if ok then s.afterAccept id accepted else s.put id (.readingAccepted accepted)
    | .readingAccepted accepted =>
      if (job.committed ok).any (sameIntent · accepted) then s.afterAccept id accepted
      else { s.put id .idle with activeId := none }
    | .starting accepted =>
      if ok then s.afterRunning id accepted.running accepted
      else s.put id (.readingStarted accepted)
    | .readingStarted accepted =>
      match job.committed ok with
      | some row =>
        if row.lifecycle = .running ∧ sameIntent row accepted then s.afterRunning id row accepted
        else s.put id .idle
      -- The slot stays reserved.
      | none => s.put id .idle
    | .succeeding started succeeded =>
      if ok then s.afterSuccess id started succeeded activated
      else s.put id (.readingSucceeded started succeeded)
    | .readingSucceeded started succeeded =>
      if (job.committed ok).any (sameRecord · succeeded) then
        s.afterSuccess id started succeeded activated
      else s.put id (.rereading started)
    | .rereading started =>
      match job.committed ok with
      | some row =>
        if row.lifecycle = .succeeded ∧ sameIntent row started then
          (s.keep row).release id
        else s.release id
      | none => s.release id
    | .failing failed =>
      if ok then (s.keep failed).release id
      else s.put id (.readingFailed failed)
    | .readingFailed failed =>
      if (job.committed ok).any (sameRecord · failed) then (s.keep failed).release id
      else s.release id
    | _ => s

def dispose (s : State) : State := { s with disposed := true, progressTimer := false }

end State

/-! ## Runs -/

inductive Event
  | start (uploadId : Text) (actor : Actor) (now : Int)
  | carryOut (id : BuildId)
  | answer (id : BuildId) (ok activated : Bool)
  | line (id : BuildId) (text : Text)
  | timer
  | issue (i : Nat)
  | carryOutWrite (i : Nat)
  | answerWrite (i : Nat) (ok : Bool)
  | executed (id : BuildId) (result : Except Failure BuildResult)
  | drained (id : BuildId) (error : Failure) (now : Int)
  | artifactSaved (id : BuildId) (outcome : Except Failure Int)
  | dispose

/-- One step. The executor reports lines of the builds it was given, at any later moment. -/
def step (s : State) : Event → State
  | .start uploadId actor now => s.start uploadId actor now
  | .carryOut id => s.carryOut id
  | .answer id ok activated => s.answer id ok activated
  | .line id text => if .executes id ∈ s.deeds then s.recordProgress id text else s
  | .timer => if s.progressTimer then s.flushProgress else s
  | .issue i => s.issue i
  | .carryOutWrite i => s.carryOutWrite i
  | .answerWrite i ok => s.answerWrite i ok
  | .executed id result => s.executed id result
  | .drained id error now => s.drained id error now
  | .artifactSaved id outcome => s.artifactSaved id outcome
  | .dispose => s.dispose

end TMEdge.Build
