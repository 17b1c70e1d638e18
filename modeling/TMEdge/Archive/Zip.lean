import Mathlib.Data.List.Sort
import TMEdge.Library.JsText
import TMEdge.Protocol.Packet

/-!
# Judging an uploaded archive

`readZip` of `src/algo/train/zip.ts`: every entry of an archive is judged from the central directory and
its local header before a byte is written. An error names the entry that it is about, if any; that
the name is quoted and cut is left out. Reads from a `Buffer` are all inside it.
-/

namespace TMEdge.Archive

open Library Protocol

structure ZipError where
  entry : Option Text := none
  message : String
  deriving DecidableEq

structure ZipLimits where
  maxEntries : Nat
  maxUnpackedBytes : Nat

structure ZipEntry where
  /-- Relative, separated by `/`, no `.` or `..` segments, no trailing slash. -/
  path : Text
  dir : Bool
  /-- Mac archive litter: counted, never extracted. -/
  skip : Bool
  method : Nat
  crc : Nat
  compressedSize : Nat
  size : Nat
  dataOffset : Nat
  deriving DecidableEq

/-- An entry with what the checks still need. -/
structure CentralEntry extends ZipEntry where
  localOffset : Nat
  rawName : Buffer
  deriving DecidableEq

structure Contents where
  entries : List ZipEntry
  unpackedBytes : Nat
  deriving DecidableEq

def endSignature : Nat := 0x06054b50
def centralSignature : Nat := 0x02014b50
def localSignature : Nat := 0x04034b50
def zip64Locator : Nat := 0x07064b50
def maxCentralBytes : Nat := 16 * 1024 * 1024
def formatMask : Nat := 0xF000
def regularFile : Nat := 0x8000
def directory : Nat := 0x4000
def symbolicLink : Nat := 0xA000

/-! ## Bytes -/

def readUInt16LE (b : Buffer) (o : Nat) : Nat := leValue (subarray b o (o + 2))

def readUInt32LE (b : Buffer) (o : Nat) : Nat := leValue (subarray b o (o + 4))

def readAt (bytes : Buffer) (pos len : Nat) : Except ZipError Buffer :=
  let buf := (bytes.drop pos).take len
  if buf.length ≠ len then .error { message := "the archive is truncated" } else .ok buf

/-! ## Names -/

def isTail (b : UInt8) : Bool := 0x80 ≤ b && b ≤ 0xBF

/-- The code points of valid UTF-8. -/
def decodePoints : Buffer → Option (List Nat)
  | [] => some []
  | b₀ :: rest₀ =>
    if b₀ ≤ 0x7F then (decodePoints rest₀).map (b₀.toNat :: ·)
    else
      match rest₀ with
      | [] => none
      | b₁ :: rest₁ =>
        if 0xC2 ≤ b₀ && b₀ ≤ 0xDF && isTail b₁ then
          (decodePoints rest₁).map (((b₀.toNat - 0xC0) * 64 + (b₁.toNat - 0x80)) :: ·)
        else
          match rest₁ with
          | [] => none
          | b₂ :: rest₂ =>
            if 0xE0 ≤ b₀ && b₀ ≤ 0xEF && isTail b₁ && isTail b₂ && (b₀ != 0xE0 || 0xA0 ≤ b₁) &&
                (b₀ != 0xED || b₁ ≤ 0x9F) then
              (decodePoints rest₂).map (((b₀.toNat - 0xE0) * 4096 + (b₁.toNat - 0x80) * 64 +
                (b₂.toNat - 0x80)) :: ·)
            else
              match rest₂ with
              | [] => none
              | b₃ :: rest₃ =>
                if 0xF0 ≤ b₀ && b₀ ≤ 0xF4 && isTail b₁ && isTail b₂ && isTail b₃ &&
                    (b₀ != 0xF0 || 0x90 ≤ b₁) && (b₀ != 0xF4 || b₁ ≤ 0x8F) then
                  (decodePoints rest₃).map (((b₀.toNat - 0xF0) * 262144 + (b₁.toNat - 0x80) * 4096 +
                    (b₂.toNat - 0x80) * 64 + (b₃.toNat - 0x80)) :: ·)
                else none

def unitsOf (p : Nat) : Text :=
  if p < 0x10000 then [UInt16.ofNat p]
  else [UInt16.ofNat (0xD800 + (p - 0x10000) / 0x400), UInt16.ofNat (0xDC00 + (p - 0x10000) % 0x400)]

/-- `TextDecoder('utf-8', { fatal: true })`; a byte order mark in front is dropped. -/
def decode (raw : Buffer) : Option Text :=
  (decodePoints raw).map fun points =>
    (if points.head? = some 0xFEFF then points.tail else points).flatMap unitsOf

/-- `/[\x00-\x1f\x7f\\]/` -/
def isControl (c : UInt16) : Bool := c ≤ 0x1F || c == 0x7F

def isBackslash (c : UInt16) : Bool := c == 92

def isLetter (c : UInt16) : Bool := (65 ≤ c && c ≤ 90) || (97 ≤ c && c ≤ 122)

/-- A leading slash or a drive. -/
def isAbsolute : Text → Bool
  | [] => false
  | [c] => c == 47
  | c :: d :: _ => c == 47 || (isLetter c && d == 58)

/-- An entry's name as a safe relative path, and whether it ends in a slash. -/
def cleanName (raw : Buffer) : Except ZipError (Text × Bool) :=
  match decode raw with
  | none => .error { message := "an entry name is not valid UTF-8" }
  | some name =>
    let bad (message : String) : Except ZipError (Text × Bool) := .error ⟨some name, message⟩
    if name.length = 0 ∨ 512 < name.length then bad "empty or overlong name"
    else if name.any fun c => isControl c || isBackslash c then
      bad "control characters or backslashes in the name"
    else if isAbsolute name then bad "absolute path"
    else
      let dir := name.getLast? = some 47
      let segs := (if dir then name.dropLast else name).splitOn 47
      if js ".." ∈ segs then bad "\"..\" in the path"
      else if [] ∈ segs ∨ js "." ∈ segs then bad "empty or \".\" path segment"
      else if 32 < segs.length then bad "nested deeper than 32 directories"
      else .ok (List.intercalate [47] segs, dir)

/-! ## The end record -/

structure EndRecord where
  total : Nat
  cdSize : Nat
  cdOffset : Nat

/-- The last place before `n` where an end record starts, followed only by its comment. -/
def findEnd (tail : Buffer) : Nat → Option Nat
  | 0 => none
  | i + 1 =>
    if readUInt32LE tail i = endSignature ∧ i + 22 + readUInt16LE tail (i + 20) = tail.length then
      some i
    else findEnd tail i

def hasLocator (bytes : Buffer) (eocdPos : Nat) : Bool :=
  20 ≤ eocdPos && readUInt32LE bytes (eocdPos - 20) == zip64Locator

def readEnd (bytes : Buffer) (limits : ZipLimits) : Except ZipError EndRecord :=
  let size := bytes.length
  if size < 22 then .error { message := "not a zip archive" }
  else do
    let tailLen := min size (22 + 0xFFFF)
    let tail ← readAt bytes (size - tailLen) tailLen
    match findEnd tail (tail.length - 21) with
    | none => .error { message := "not a zip archive (no end-of-directory record)" }
    | some i =>
      let eocdPos := size - tailLen + i
      let total := readUInt16LE tail (i + 10)
      let cdSize := readUInt32LE tail (i + 12)
      let cdOffset := readUInt32LE tail (i + 16)
      if readUInt16LE tail (i + 4) ≠ 0 ∨ readUInt16LE tail (i + 6) ≠ 0 ∨
          readUInt16LE tail (i + 8) ≠ total then
        .error { message := "split (multi-part) archives are not supported" }
      else if total = 0xFFFF ∨ cdSize = 0xFFFFFFFF ∨ cdOffset = 0xFFFFFFFF ∨
          hasLocator bytes eocdPos then
        .error { message := "ZIP64 archives are not supported" }
      else if limits.maxEntries < total then
        .error { message := s!"more than {limits.maxEntries} entries" }
      else if eocdPos < cdOffset + cdSize ∨ maxCentralBytes < cdSize then
        .error { message := "corrupt archive (central directory out of range)" }
      else .ok { total, cdSize, cdOffset }

/-! ## The central directory -/

/-- Whether an entry is a directory, by its name and by the file type of archives made on Unix. -/
def isDirectory (path : Text) (slash : Bool) (madeBy external : Nat) : Except ZipError Bool :=
  if madeBy / 256 ≠ 3 then .ok slash
  else
    let type := external / 65536 &&& formatMask
    if type = symbolicLink then .error ⟨some path, "symbolic links are not allowed"⟩
    else if type ≠ 0 ∧ type ≠ regularFile ∧ type ≠ directory then
      .error ⟨some path, "only files and directories are allowed"⟩
    else if type = regularFile ∧ slash then .error ⟨some path, "a file named like a directory"⟩
    else .ok (slash || type == directory)

def isSkipped (path : Text) : Bool :=
  path == js "__MACOSX" || (js "__MACOSX/").isPrefixOf path || path == js ".DS_Store" ||
    (js "/.DS_Store").isSuffixOf path

/-- The entry at `p`, and where the next one starts. -/
def readEntry (cd : Buffer) (p : Nat) : Except ZipError (CentralEntry × Nat) :=
  if cd.length < p + 46 ∨ readUInt32LE cd p ≠ centralSignature then
    .error { message := "corrupt archive (central directory)" }
  else
    let madeBy := readUInt16LE cd (p + 4)
    let flags := readUInt16LE cd (p + 8)
    let method := readUInt16LE cd (p + 10)
    let crc := readUInt32LE cd (p + 16)
    let compressedSize := readUInt32LE cd (p + 20)
    let usize := readUInt32LE cd (p + 24)
    let nameLen := readUInt16LE cd (p + 28)
    let extraLen := readUInt16LE cd (p + 30)
    let commentLen := readUInt16LE cd (p + 32)
    let diskStart := readUInt16LE cd (p + 34)
    let external := readUInt32LE cd (p + 38)
    let localOffset := readUInt32LE cd (p + 42)
    if cd.length < p + 46 + nameLen + extraLen + commentLen then
      .error { message := "corrupt archive (central directory)" }
    else
      let rawName := subarray cd (p + 46) (p + 46 + nameLen)
      if diskStart ≠ 0 then .error { message := "split (multi-part) archives are not supported" }
      else if compressedSize = 0xFFFFFFFF ∨ usize = 0xFFFFFFFF ∨ localOffset = 0xFFFFFFFF then
        .error { message := "ZIP64 archives are not supported" }
      else do
        let (path, slash) ← cleanName rawName
        if flags &&& 0x41 ≠ 0 then .error ⟨some path, "encrypted entries are not supported"⟩
        else if method ≠ 0 ∧ method ≠ 8 then
          .error ⟨some path, s!"compression method {method} is not supported (use deflate)"⟩
        else do
          let dir ← isDirectory path slash madeBy external
          if dir = true ∧ usize ≠ 0 then .error ⟨some path, "a directory with contents"⟩
          else
            let e : CentralEntry :=
              { path, dir, skip := isSkipped path, method, crc, compressedSize, size := usize,
                dataOffset := 0, localOffset, rawName }
            .ok (e, p + 46 + nameLen + extraLen + commentLen)

/-- `n` entries from `p` on, with how much they unpack to and where the last one ends. -/
def readEntries (limits : ZipLimits) (cd : Buffer) :
    (n p unpackedBytes : Nat) → List CentralEntry → Except ZipError (List CentralEntry × Nat × Nat)
  | 0, p, unpackedBytes, entries => .ok (entries, unpackedBytes, p)
  | n + 1, p, unpackedBytes, entries => do
    let (e, p) ← readEntry cd p
    let unpackedBytes := unpackedBytes + e.size
    if limits.maxUnpackedBytes < unpackedBytes then
      let mb := (2 * limits.maxUnpackedBytes + 1048576) / 2097152
      .error { message := s!"unpacks to more than {mb} MB" }
    else readEntries limits cd n p unpackedBytes (entries ++ [e])

/-! ## One name, one entry -/

structure Names where
  files : List Text := []
  dirs : List Text := []

/-- The directories that an entry needs. -/
def ancestors (path : Text) : List Text :=
  let segs := path.splitOn 47
  (List.range' 1 (segs.length - 1)).map fun i => List.intercalate [47] (segs.take i)

def addName (s : Names) (e : CentralEntry) : Except ZipError Names :=
  if e.skip then .ok s
  else if e.path ∈ s.files ∨ (e.dir = false ∧ e.path ∈ s.dirs) then
    .error ⟨some e.path, "appears twice"⟩
  else if e.dir then .ok { s with dirs := s.dirs ++ e.path :: ancestors e.path }
  else .ok { files := s.files ++ [e.path], dirs := s.dirs ++ ancestors e.path }

def checkNames (entries : List CentralEntry) : Except ZipError Unit := do
  let s ← entries.foldlM addName {}
  match s.files.find? fun f => f ∈ s.dirs with
  | some f => .error ⟨some f, "is both a file and a directory"⟩
  | none => .ok ()

/-! ## Each entry's bytes are its own -/

/-- Where the data of an entry starts, by a local header that agrees with the directory. -/
def locate (bytes : Buffer) (e : CentralEntry) : Except ZipError CentralEntry := do
  let header ← readAt bytes e.localOffset 30
  if readUInt32LE header 0 ≠ localSignature then .error ⟨some e.path, "bad local header"⟩
  else if readUInt16LE header 8 ≠ e.method ∨ readUInt16LE header 6 &&& 0x41 ≠ 0 then
    .error ⟨some e.path, "local header disagrees with the directory"⟩
  else do
    let nameLen := readUInt16LE header 26
    let extraLen := readUInt16LE header 28
    let name ← readAt bytes (e.localOffset + 30) nameLen
    if name ≠ e.rawName then .error ⟨some e.path, "local name disagrees with the directory"⟩
    else .ok { e with dataOffset := e.localOffset + 30 + nameLen + extraLen }

/-- Where an entry ends. -/
def ZipEntry.stop (e : ZipEntry) : Nat := e.dataOffset + e.compressedSize

/-- The loop over the entries by offset, from `stop` on. -/
def checkRanges (bytes : Buffer) (cdOffset : Nat) : Nat → List CentralEntry → Except ZipError Unit
  | _, [] => .ok ()
  | stop, e :: rest =>
    if e.localOffset < stop then .error ⟨some e.path, "overlaps another"⟩
    else do
      let e ← locate bytes e
      if cdOffset < e.stop then .error ⟨some e.path, "data runs past the archive"⟩
      else checkRanges bytes cdOffset e.stop rest

/-- The entries in archive order, each with the `dataOffset` that the loop over the ranges gave it. -/
def readZip (bytes : Buffer) (limits : ZipLimits) : Except ZipError Contents := do
  let record ← readEnd bytes limits
  let cd ← readAt bytes record.cdOffset record.cdSize
  let (entries, unpackedBytes, p) ← readEntries limits cd record.total 0 0 []
  if p ≠ cd.length then .error { message := "corrupt archive (central directory length)" }
  else do
    checkNames entries
    let byOffset := entries.insertionSort fun a b => a.localOffset ≤ b.localOffset
    checkRanges bytes record.cdOffset 0 byOffset
    let entries ← entries.mapM (locate bytes)
    .ok { entries := entries.map CentralEntry.toZipEntry, unpackedBytes }

end TMEdge.Archive
