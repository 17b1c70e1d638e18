import TMEdge.Library.JsMap
import TMEdge.Library.JsText
import TMEdge.Library.Effects
import TMEdge.Library.Run

/-!
# The job store

The model of `JobStore` (`algo/train/store.ts`) with `writePrivateJson`
(`shared/private-file.ts`). Every operation is the list of its effects, in their order, on
what is in memory and on what is on the disk; it may be stopped in the middle of any of them
by an error or by the end of the process. A rename happens or does not; a copy and a
recursive removal may leave any part of the code.

Of a record the fields the store reads are kept apart, the others are its `rest`. A time is
only in the name of what `update` puts aside. Temporary files of a write and the audit log
are left out. The directory of an upload is the files in it.
-/

namespace TMEdge.Train

open Library

/-! ## Records -/

inductive JobStatus
  | draft
  | submitting
  | submitFailed
  | submitted
  | pending
  | running
  | completed
  | failed
  | cancelled
  | timeout
  | outOfMemory
  | unknown
  deriving DecidableEq

structure TrainJob where
  id : Text
  user : Text
  status : JobStatus
  unpackedBytes : Nat
  createdAt : Int
  rest : Text
  deriving DecidableEq

def hexDigits (n : Nat) : List (UInt16 → Bool) := List.replicate n Text.isHexDigit

/-- The characters of the pattern `UUID`. -/
def uuidPattern : List (UInt16 → Bool) :=
  hexDigits 8 ++ [(· == 45)] ++ hexDigits 4 ++ [(· == 45), (· == 52)] ++ hexDigits 3 ++
    [(· == 45), fun c => c == 56 || c == 57 || c == 97 || c == 98] ++ hexDigits 3 ++
    [(· == 45)] ++ hexDigits 12

def isUuid (t : Text) : Bool :=
  t.length = uuidPattern.length && (uuidPattern.zip t).all fun p => p.1 p.2

abbrev Files := List (Text × List UInt8)

/-- A job's directory: its code, and what updates have put aside. -/
structure JobDir where
  code : Option Files
  old : List Files
  deriving DecidableEq

/-! ## The store -/

structure JobStore where
  jobs : JsMap Text TrainJob := .empty
  error : Bool := false
  file : List TrainJob := []
  dirs : JsMap Text JobDir := .empty

namespace JobStore

/-- The constructor, over what is on the disk. -/
def reopen (s : JobStore) : JobStore :=
  if s.file.all fun job => isUuid job.id then
    { s with jobs := s.file.foldl (fun jobs job => jobs.set job.id job) .empty, error := false }
  else { s with jobs := .empty, error := true }

/-- `list`; it throws where the store could not be read. -/
def list (s : JobStore) (user : Text) : Option (List TrainJob) :=
  if s.error then none
  else some ((s.jobs.values.filter (·.user = user)).mergeSort fun a b => b.createdAt ≤ a.createdAt)

def get (s : JobStore) (user id : Text) : Option (Option TrainJob) :=
  if s.error then none
  else some (if isUuid id then (s.jobs.get id).filter (·.user = user) else none)

/-- Bytes of extracted code a person holds. -/
def usage (s : JobStore) (user : Text) : Option Nat :=
  (s.list user).map fun jobs => (jobs.map TrainJob.unpackedBytes).sum

/-- The directories that no record points at go. -/
def sweep (s : JobStore) : JobStore :=
  if s.error then s
  else { s with dirs := s.dirs.filterKeys s.jobs.has }

end JobStore

/-! ## Effects -/

inductive Effect
  | check
  | mkdir (id : Text)
  | codeDir (id : Text)
  | moveIn (id : Text) (files : Files)
  | copyIn (id codeOf : Text)
  | setAside (id : Text)
  | dropOld (id : Text)
  | setJob (job : TrainJob)
  | deleteJob (id : Text)
  | writeTemp
  | replaceFile
  | syncDirectory
  | removeDir (id : Text)
  deriving DecidableEq

namespace JobStore

variable (s : JobStore)

def setCode (id : Text) (code : Option Files) (old : List Files) : JobStore :=
  { s with dirs := s.dirs.set id ⟨code, old⟩ }

def apply : Effect → JobStore → Option JobStore
  | .check, s => if s.error then none else some s
  | .mkdir id, s => if s.dirs.has id then none else some (s.setCode id none [])
  | .codeDir id, s => if isUuid id then some s else none
  | .moveIn id files, s =>
    match s.dirs.get id with
    | some ⟨none, old⟩ => some (s.setCode id (some files) old)
    | _ => none
  | .copyIn id codeOf, s =>
    match s.dirs.get id, (s.dirs.get codeOf).bind JobDir.code with
    | some ⟨none, old⟩, some files => some (s.setCode id (some files) old)
    | _, _ => none
  | .setAside id, s =>
    match s.dirs.get id with
    | some ⟨some files, old⟩ => some (s.setCode id none (files :: old))
    | _ => none
  | .dropOld id, s =>
    match s.dirs.get id with
    | some ⟨code, old⟩ => some (s.setCode id code old.tail)
    | none => some s
  | .setJob job, s => some { s with jobs := s.jobs.set job.id job }
  | .deleteJob id, s => some { s with jobs := s.jobs.delete id }
  | .writeTemp, s => some s
  | .replaceFile, s => some { s with file := s.jobs.values }
  | .syncDirectory, s => some s
  | .removeDir id, s => some { s with dirs := s.dirs.delete id }

/-- What an effect leaves that is stopped in the middle. What is in memory is changed at
once: such an effect is stopped behind its end. -/
def interrupt : Effect → Option Files → JobStore → JobStore
  | .copyIn id _, left, s => s.setCode id left []
  | .removeDir id, left, s => if s.dirs.has id then s.setCode id left [] else s
  | .setJob job, _, s => { s with jobs := s.jobs.set job.id job }
  | .deleteJob id, _, s => { s with jobs := s.jobs.delete id }
  | _, _, s => s

end JobStore

/-! ## Operations -/

inductive JobOp
  | create (job : TrainJob) (code : Files)
  | createCopy (job : TrainJob) (codeOf : Text)
  | update (job : TrainJob) (code : Option Files)
  | remove (job : TrainJob)

/-- `writePrivateJson` of the records. -/
def save : List Effect := [.writeTemp, .replaceFile, .syncDirectory]

def effects : JobOp → List Effect
  | .create job code =>
    [.check, .mkdir job.id, .codeDir job.id, .moveIn job.id code, .setJob job] ++ save
  | .createCopy job codeOf =>
    [.check, .mkdir job.id, .codeDir job.id, .copyIn job.id codeOf, .setJob job] ++ save
  | .update job none => [.check, .setJob job] ++ save
  | .update job (some code) =>
    [.check, .codeDir job.id, .setAside job.id, .moveIn job.id code, .dropOld job.id,
      .setJob job] ++ save
  | .remove job => [.check, .deleteJob job.id] ++ save ++ [.removeDir job.id]

/-- A call of an operation, or the end of the process. -/
inductive JobEvent
  | call (op : JobOp) (stop : Option (Stop (Option Files)))
  | restart

def JobStore.call (s : JobStore) (op : JobOp) (stop : Option (Stop (Option Files))) :
    JobStore × Ending :=
  exec JobStore.apply JobStore.interrupt (effects op) stop s

/-- Behind a crash the store is opened again and swept. -/
def jobStep (s : JobStore) : JobEvent → JobStore
  | .call op stop =>
    match s.call op stop with
    | (s', .crashed) => s'.reopen.sweep
    | (s', _) => s'
  | .restart => s.reopen.sweep

end TMEdge.Train
