import TMEdge.Archive.Zip

/-!
# Extracting an archive

`extractZip` of `src/algo/train/zip.ts` over a file system. How a stream is cut into chunks, what data
inflate to and when the host refuses to write are given from outside (`Host`). A path is the list of
its segments from the root on. After an error nothing is said of what has been written so far.
-/

namespace TMEdge.Archive

open Library Protocol

abbrev Path := List Text

/-! ## The file system -/

inductive Node
  | dir
  | file (content : Buffer)
  deriving DecidableEq

/-- What is at each path; it is in a directory. -/
@[ext] structure Fs where
  node : Path → Option Node
  root : node [] = some .dir
  closed : ∀ path, path ≠ [] → node path ≠ none → node path.dropLast = some .dir

theorem dropLast_ne {path : Path} (h : path ≠ []) : path.dropLast ≠ path := fun hEq => by
  have hLength := congrArg List.length hEq
  have hPos := List.length_pos_iff.mpr h
  rw [List.length_dropLast] at hLength
  omega

/-- Something new in a directory. -/
def Fs.add (fs : Fs) (path : Path) (n : Node) (hPath : path ≠ [])
    (hParent : fs.node path.dropLast = some .dir) (hNew : fs.node path = none) : Fs where
  node p := if p = path then some n else fs.node p
  root := by rw [if_neg (Ne.symm hPath), fs.root]
  closed p hp hSome := by
    by_cases hEq : p = path
    · rw [hEq, if_neg (dropLast_ne hPath), hParent]
    · rw [if_neg hEq] at hSome
      have hDir := fs.closed p hp hSome
      rw [if_neg fun hDrop => ?_, hDir]
      rw [hDrop, hNew] at hDir
      cases hDir

structure Host where
  inflateRaw : Buffer → Except String Buffer
  chunks : Buffer → List Buffer
  flatten_chunks : ∀ b, (chunks b).flatten = b
  /-- The code of an error that does not come from what the file system holds. -/
  refuses : Fs → Path → Option String

namespace Host

variable (host : Host)

/-- A directory or a file that must not be there yet. -/
def create (fs : Fs) (path : Path) (n : Node) : Except String Fs :=
  match host.refuses fs path with
  | some code => .error code
  | none =>
    if hPath : path = [] then .error "EEXIST"
    else if hParent : fs.node path.dropLast = some .dir then
      if hNew : fs.node path = none then .ok (fs.add path n hPath hParent hNew)
      else .error "EEXIST"
    else .error (if fs.node path.dropLast = none then "ENOENT" else "ENOTDIR")

/-- `mkdir` with `recursive`, where the directories `made` are there. -/
def mkdirs (fs : Fs) (made : Path) : Path → Except String Fs
  | [] => .ok fs
  | seg :: rest =>
    match fs.node (made ++ [seg]) with
    | some .dir => mkdirs fs (made ++ [seg]) rest
    | some (.file _) => .error (if rest = [] then "EEXIST" else "ENOTDIR")
    | none => do
      let fs ← host.create fs (made ++ [seg]) .dir
      mkdirs fs (made ++ [seg]) rest

end Host

/-- `resolve(root, ...segs)` of segments without a slash. -/
def resolvePath (root : Path) (segs : List Text) : Path :=
  segs.foldl (fun path seg =>
    if seg = [] ∨ seg = js "." then path
    else if seg = js ".." then path.dropLast
    else path ++ [seg]) root

/-! ## Checksums -/

def crcBit (c : BitVec 32) : BitVec 32 :=
  if c &&& 1 ≠ 0 then 0xEDB88320 ^^^ (c >>> 1) else c >>> 1

/-- `CRC_TABLE[n]` -/
def crcTable (n : Nat) : BitVec 32 := (List.range 8).foldl (fun c _ => crcBit c) (BitVec.ofNat 32 n)

def crcByte (c : BitVec 32) (b : UInt8) : BitVec 32 :=
  crcTable ((c ^^^ BitVec.ofNat 32 b.toNat) &&& 0xFF).toNat ^^^ (c >>> 8)

def crc32 (buf : Buffer) (prev : BitVec 32) : BitVec 32 := ~~~buf.foldl crcByte (~~~prev)

/-- Passes bytes through, stopping at the declared size and keeping a checksum. -/
structure Meter where
  bytes : Nat := 0
  crc : BitVec 32 := 0

def Meter.transform (max : Nat) (what : Text) (m : Meter) (chunk : Buffer) : Except ZipError Meter :=
  let bytes := m.bytes + chunk.length
  if max < bytes then .error ⟨some what, "inflates past its declared size"⟩
  else .ok { bytes, crc := crc32 chunk m.crc }

/-! ## Extraction -/

inductive ExtractError
  | zip (e : ZipError)
  /-- An error of the file system, by its code. -/
  | os (code : String)
  deriving DecidableEq

/-- `createReadStream` of the data of an entry. -/
def dataOf (bytes : Buffer) (e : ZipEntry) : Buffer :=
  (bytes.drop e.dataOffset).take e.compressedSize

/-- The data of an entry, inflated where they are deflated. -/
def inflate (host : Host) (bytes : Buffer) (e : ZipEntry) : Except ZipError Buffer :=
  if e.method = 8 then
    (host.inflateRaw (dataOf bytes e)).mapError fun message => ⟨some e.path, message⟩
  else .ok (dataOf bytes e)

/-- What an entry's data are unpacked to, and what the meter counts. -/
def unpack (host : Host) (bytes : Buffer) (e : ZipEntry) : Except ZipError (Buffer × Meter) :=
  if e.compressedSize = 0 then .ok ([], {})
  else do
    let content ← inflate host bytes e
    let meter ← (host.chunks content).foldlM (Meter.transform e.size e.path) {}
    .ok (content, meter)

/-- An error of the stream into a file is reported with the entry, except where nothing is streamed. -/
def createFile (host : Host) (fs : Fs) (target : Path) (e : ZipEntry) (content : Buffer) :
    Except ExtractError Fs :=
  (host.create fs target (.file content)).mapError fun code =>
    if e.compressedSize = 0 then .os code else .zip ⟨some e.path, code⟩

def extractEntry (host : Host) (bytes : Buffer) (root : Path) (fs : Fs) (e : ZipEntry) :
    Except ExtractError Fs :=
  if e.skip then .ok fs
  else
    let target := resolvePath root (e.path.splitOn 47)
    if ¬(root <+: target ∧ root ≠ target) then .error (.zip ⟨some e.path, "escapes the destination"⟩)
    else if e.dir then (host.mkdirs fs [] target).mapError .os
    else do
      let fs ← (host.mkdirs fs [] target.dropLast).mapError .os
      let (content, meter) ← (unpack host bytes e).mapError .zip
      let fs ← createFile host fs target e content
      if meter.bytes ≠ e.size then .error (.zip ⟨some e.path, "size disagrees with the directory"⟩)
      else if meter.crc.toNat ≠ e.crc then
        .error (.zip ⟨some e.path, "CRC mismatch (corrupt archive)"⟩)
      else .ok fs

/-- Writes the entries under `root`, which must not exist yet. -/
def extractZip (host : Host) (bytes : Buffer) (root : Path) (fs : Fs) (entries : List ZipEntry) :
    Except ExtractError Fs := do
  let fs ← (host.create fs root .dir).mapError .os
  entries.foldlM (extractEntry host bytes root) fs

end TMEdge.Archive
