import TMEdge.Train.Jobs

/-!
# Uploads

The model of `Uploads` (`algo/train/uploads.ts`) with `extractZip` (`algo/train/zip.ts`). A
call of `receive` waits for its stream, for `readZip` and for every step of the extraction
(`ReceiveStage`); what the code does without waiting is one step. The `n`-th call has the id
`n`: the random ids it draws are different ones.

Given from outside: the bytes of the stream and whether they are text, what `readZip` makes
of an archive, the bytes and the checksum an entry inflates to, and every error of the file
system. `readZip` hands out clean paths only, so the second check of `extractZip` never
fires. The hash of the bytes and the files of `incoming` are left out.
-/

namespace TMEdge.Train

open Library

/-! ## Limits -/

structure HpcConfig where
  maxUploadMb : Nat
  quotaMb : Nat

def maxPyBytes : Nat := 5 * 1024 * 1024

def maxPyFiles : Nat := 1000

def pendingTtlMs : Int := 60 * 60 * 1000

def maxPendingPerUser : Nat := 5

def isNameStart (c : UInt16) : Bool :=
  (48 ≤ c && c ≤ 57) || (65 ≤ c && c ≤ 90) || c == 95 || (97 ≤ c && c ≤ 122)

def isNameRest (c : UInt16) : Bool := isNameStart c || c == 46 || c == 45

def endsWith (t suffix_ : Text) : Bool := suffix_.isSuffixOf t

/-- The part of the pattern `FILENAME` before the ending. -/
def isStem : Text → Bool
  | [] => false
  | c :: rest => isNameStart c && rest.length ≤ 99 && rest.all isNameRest

def isFilename (t : Text) : Bool :=
  (endsWith t (js ".py") && isStem (t.take (t.length - 3))) ||
    (endsWith t (js ".zip") && isStem (t.take (t.length - 4)))

inductive CodeKind
  | py
  | zip
  deriving DecidableEq

def kindOf (filename : Text) : CodeKind := if endsWith filename (js ".py") then .py else .zip

def limitFor (cfg : HpcConfig) (filename : Text) : Nat :=
  match kindOf filename with
  | .py => maxPyBytes
  | .zip => cfg.maxUploadMb * 1024 * 1024

/-! ## Archives and directories -/

abbrev Path := List Text

/-- What `cleanName` accepts. -/
def Path.Clean (path : Path) : Prop :=
  path ≠ [] ∧ ∀ seg ∈ path, seg ≠ [] ∧ seg ≠ js "." ∧ seg ≠ js ".."

structure ZipEntry where
  path : Path
  dir : Bool
  skip : Bool
  crc : Nat
  compressedSize : Nat
  size : Nat
  clean : path.Clean
  deriving DecidableEq

/-- The files that are extracted. -/
def filesOf (entries : List ZipEntry) : List Path :=
  (entries.filter fun e => !e.dir && !e.skip).map ZipEntry.path

structure Upload where
  id : Nat
  user : Text
  createdAt : Int
  kind : CodeKind
  filename : Text
  bytes : Nat
  unpackedBytes : Nat
  fileCount : Nat
  py : List Text
  deriving DecidableEq

/-- The directory of an upload: `upload.json`, and under `code` the files, with whether they
are whole, and the directories, `code` itself as the empty path. -/
structure UploadDir where
  json : Option Upload := none
  files : List (Path × Bool) := []
  dirs : List Path := []
  deriving DecidableEq

namespace UploadDir

def hasFile (d : UploadDir) (path : Path) : Bool := d.files.any (·.1 = path)

/-- A directory that is not there yet. -/
def mkdir (d : UploadDir) (path : Path) : Option UploadDir :=
  if path ∈ d.dirs then none else some { d with dirs := path :: d.dirs }

/-- A recursive `mkdir`; no directory goes where a file is. -/
def mkdirs (d : UploadDir) (path : Path) : Option UploadDir :=
  if path.inits.any d.hasFile then none else some { d with dirs := path.inits ++ d.dirs }

/-- A file is created exclusively. -/
def create (d : UploadDir) (path : Path) : Option UploadDir :=
  if path.dropLast ∈ d.dirs ∧ path ∉ d.dirs ∧ d.hasFile path = false then
    some { d with files := d.files ++ [(path, false)] }
  else none

/-- The stream into a file has ended. -/
def close (d : UploadDir) (path : Path) : UploadDir :=
  { d with files := d.files.map fun f => if f.1 = path then (path, true) else f }

end UploadDir

/-! ## The uploads -/

/-- Where the extraction of an entry waits. -/
inductive ExtractPhase
  | making
  | opening
  | streaming
  deriving DecidableEq

/-- Where a call of `receive` waits. -/
inductive ReceiveStage
  | receiving
  | reading
  | rooting
  | extracting (made : List ZipEntry) (e : ZipEntry) (phase : ExtractPhase) (rest : List ZipEntry)
  | finishing
  | returned (upload : Upload)
  | failed
  deriving DecidableEq

/-- A call of `receive`; `mine` are the uploads of the person it left pending. -/
structure Receive where
  user : Text
  filename : Text
  used : Nat
  mine : List Nat
  bytes : Nat
  entries : List ZipEntry
  unpackedBytes : Nat
  stage : ReceiveStage
  deriving DecidableEq

structure Uploads where
  store : JobStore := {}
  pending : JsMap Nat Upload := .empty
  dirs : JsMap Nat UploadDir := .empty
  calls : List Receive := []

namespace Uploads

variable (cfg : HpcConfig) (s : Uploads)

def setCall (n : Nat) (c : Receive) : Uploads := { s with calls := s.calls.set n c }

def usage (user : Text) : Nat :=
  ((s.pending.values.filter (·.user = user)).map Upload.unpackedBytes).sum

def drop (id : Nat) : Uploads :=
  { s with pending := s.pending.delete id, dirs := s.dirs.delete id }

/-- The job store took the code directory; forget the rest. -/
def adopted (id : Nat) : Uploads := s.drop id

/-- Pending uploads past their hour, and directories that are not pending. -/
def sweep (now : Int) : Uploads :=
  let expired := s.pending.entries.filter fun e => pendingTtlMs ≤ now - e.2.createdAt
  let s := (expired.map Prod.fst).foldl drop s
  { s with dirs := s.dirs.filterKeys s.pending.has }

/-! ## Receiving -/

def quota : Nat := cfg.quotaMb * 1024 * 1024

/-- The uploads of a person, the oldest first. -/
def mineOf (user : Text) : List Nat :=
  ((s.pending.values.filter (·.user = user)).mergeSort fun a b => a.createdAt ≤ b.createdAt).map
    Upload.id

/-- `receive` up to the stream. -/
def receive (user filename : Text) (declared : Option Nat) : Uploads :=
  if !isFilename filename then s
  else if declared.any fun n => limitFor cfg filename < n then s
  else match s.store.usage user with
    | none => s
    | some stored =>
      let used := stored + s.usage user
      if quota cfg ≤ used then s
      else
        let mine := s.mineOf user
        let surplus := mine.length - (maxPendingPerUser - 1)
        let call : Receive :=
          { user, filename, used, mine := mine.drop surplus, bytes := 0, entries := []
            unpackedBytes := 0, stage := .receiving }
        let s := (mine.take surplus).foldl drop s
        { s with calls := s.calls ++ [call] }

/-- The `catch` of `receive`. -/
def fail (n : Nat) (c : Receive) : Uploads :=
  { s.setCall n { c with stage := .failed } with dirs := s.dirs.delete n }

def uploadOf (n : Nat) (c : Receive) (files : List Text) (now : Int) : Upload :=
  { id := n, user := c.user, createdAt := now, kind := kindOf c.filename, filename := c.filename
    bytes := c.bytes, unpackedBytes := c.unpackedBytes, fileCount := files.length
    py := (files.filter fun f => endsWith f (js ".py")).mergeSort fun a b => a ≤ b }

/-- `upload.json` is written and the upload is pending. -/
def return_ (n : Nat) (c : Receive) (d : UploadDir) (files : List Text) (now : Int) : Uploads :=
  let upload := uploadOf n c files now
  { s.setCall n { c with stage := .returned upload } with
    dirs := s.dirs.set n { d with json := some upload }
    pending := s.pending.set n upload }

/-- The stream has ended after some bytes, which are text or not. -/
def received (n : Nat) (c : Receive) (bytes : Nat) (isText : Bool) (now : Int) : Uploads :=
  if bytes = 0 ∨ limitFor cfg c.filename < bytes then s.fail n c
  else
    match kindOf c.filename with
    | .py =>
      if !isText ∨ quota cfg < c.used + bytes then s.fail n c
      else
        s.return_ n { c with bytes, unpackedBytes := bytes }
          { files := [([c.filename], true)], dirs := [[]] } [c.filename] now
    | .zip =>
      { s.setCall n { c with bytes, stage := .reading } with dirs := s.dirs.set n {} }

/-- A path as it is in the archive. -/
def joined (path : Path) : Text := List.intercalate (js "/") path

/-- `readZip` has judged the archive. -/
def zipRead (n : Nat) (c : Receive) (entries : List ZipEntry) (unpackedBytes : Nat) : Uploads :=
  let py := ((filesOf entries).map joined).filter fun f => endsWith f (js ".py")
  if quota cfg < c.used + unpackedBytes ∨ py.length = 0 ∨ maxPyFiles < py.length then s.fail n c
  else s.setCall n { c with entries, unpackedBytes, stage := .rooting }

/-! ## Extraction -/

/-- The loop goes on to the next entry that is not skipped. -/
def nextEntry (made : List ZipEntry) : List ZipEntry → ReceiveStage
  | [] => .finishing
  | e :: rest => if e.skip then nextEntry (made ++ [e]) rest else .extracting made e .making rest

/-- The directory `code` is made. -/
def rooted (n : Nat) (c : Receive) : Uploads :=
  match (s.dirs.get n).bind fun d => d.mkdir [] with
  | some d => { s.setCall n { c with stage := nextEntry [] c.entries } with dirs := s.dirs.set n d }
  | none => s.fail n c

/-- One step of the extraction of an entry; `outcome` is what a stream came to. -/
def extract (n : Nat) (c : Receive) (made : List ZipEntry) (e : ZipEntry) (rest : List ZipEntry)
    (outcome : Nat × Nat) : ExtractPhase → Uploads
  | .making =>
    match ((s.dirs.get n).getD {}).mkdirs (if e.dir then e.path else e.path.dropLast) with
    | some d =>
      let stage :=
        if e.dir then nextEntry (made ++ [e]) rest else .extracting made e .opening rest
      { s.setCall n { c with stage } with dirs := s.dirs.set n d }
    | none => s.fail n c
  | .opening =>
    match (s.dirs.get n).bind fun d => d.create e.path with
    | some d =>
      { s.setCall n { c with stage := .extracting made e .streaming rest } with
        dirs := s.dirs.set n d }
    | none => s.fail n c
  | .streaming =>
    let (bytes, crc) := if e.compressedSize = 0 then (0, 0) else outcome
    if bytes ≠ e.size ∨ crc ≠ e.crc then s.fail n c
    else
      let s := s.setCall n { c with stage := nextEntry (made ++ [e]) rest }
      match s.dirs.get n with
      | some d => { s with dirs := s.dirs.set n (d.close e.path) }
      | none => s

/-- The loop has ended: `upload.json` goes into the directory, if that is there. -/
def finished (n : Nat) (c : Receive) (now : Int) : Uploads :=
  match s.dirs.get n with
  | some d => s.return_ n c d ((filesOf c.entries).map joined) now
  | none => s.fail n c

/-- What a call waits for has come. -/
inductive Arrival
  | stream (bytes : Nat) (isText : Bool)
  | archive (entries : List ZipEntry) (unpackedBytes : Nat)
  | step (outcome : Nat × Nat)
  | error

def resume (n : Nat) (arrival : Arrival) (now : Int) : Uploads :=
  match s.calls[n]? with
  | none => s
  | some c =>
    match c.stage, arrival with
    | .returned _, _ | .failed, _ => s
    | _, .error => s.fail n c
    | .receiving, .stream bytes isText => s.received cfg n c bytes isText now
    | .reading, .archive entries unpackedBytes => s.zipRead cfg n c entries unpackedBytes
    | .rooting, .step _ => s.rooted n c
    | .extracting made e phase rest, .step outcome => s.extract n c made e rest outcome phase
    | .finishing, .step _ => s.finished n c now
    | _, _ => s

end Uploads

/-! ## Runs -/

inductive UploadEvent
  | receive (user filename : Text) (declared : Option Nat)
  | resume (n : Nat) (arrival : Uploads.Arrival) (now : Int)
  | sweep (now : Int)
  | adopted (id : Nat)
  | job (op : JobOp)

/-- The routes adopt an upload that is pending. -/
def uploadStep (cfg : HpcConfig) (s : Uploads) : UploadEvent → Uploads
  | .receive user filename declared => s.receive cfg user filename declared
  | .resume n arrival now => s.resume cfg n arrival now
  | .sweep now => s.sweep now
  | .adopted id => if s.pending.has id then s.adopted id else s
  | .job op => { s with store := (s.store.call op none).1 }

end TMEdge.Train
