import TMEdge.Library.JsMap
import TMEdge.Library.JsText
import TMEdge.Library.Run

/-!
# The firmware store

The model of `FirmwareStore` (`edge/firmware.ts`), with `FirmwareArtifactContentStore`,
`FirmwareBuildMetadataStore` and `cleanupFirmwareData`. An image is a file named by the first 16
digits of its SHA-256 and keeps the time it was first written. A build is in `builds`, or waits in
`pendingBuilds` until it is activated.

Given from outside: the clock, the bytes and the version of a finished build, whether metadata can
be written, which images are in use, and what the directories hold when the store is made. Of the
files of `builds/` only names and times matter behind that. Upload contents, the report of a
cleanup and the log lines are left out.
-/

namespace TMEdge.Firmware

open Library

/-! ## Records -/

/-- SHA-256: 32 bytes for every content. -/
structure Digest where
  sha256 : List UInt8 → List UInt8
  length_sha256 : ∀ bytes, (sha256 bytes).length = 32

def Digest.hex (digest : Digest) (bytes : List UInt8) : Text := Text.toHex (digest.sha256 bytes)

def isId (id : Text) : Bool := id.length = 16 && id.all Text.isHexDigit

inductive BuildState
  | uploading
  | building
  | ready
  | failed
  deriving DecidableEq

structure FirmwareBuild where
  /-- First 16 hex of the image SHA-256. -/
  id : Text
  sha256 : Text
  size : Nat
  version : Text
  state : BuildState
  uploadedBy : Text
  uploadedAt : Int
  builtAt : Option Int
  files : Nat
  sourceBytes : Nat
  error : Option Text
  log : List Text
  deriving DecidableEq

structure Upload where
  id : Text
  by_ : Text
  files : Nat
  bytes : Nat
  startedAt : Int
  lastActivityAt : Int
  deriving DecidableEq

/-- A content-addressed image, the file `${id}.bin`. -/
structure Artifact where
  bytes : List UInt8
  modifiedAt : Int
  deriving DecidableEq

/-- A temporary file that carries the id of what it is for. -/
structure Temp where
  id : Text
  modifiedAt : Int
  deriving DecidableEq

/-- A name in `builds/`: `${id}.json`, or the directory of an older layout. -/
structure BuildFile where
  id : Text
  json : Bool
  deriving DecidableEq

structure StoreConfig where
  digest : Digest
  maxArtifactBytes : Nat
  persistMetadata : Bool

structure FirmwareStore where
  uploads : JsMap Text Upload
  builds : JsMap Text FirmwareBuild
  pendingBuilds : JsMap Text FirmwareBuild
  artifacts : JsMap Text Artifact
  staging : JsMap Text Temp
  buildFiles : JsMap BuildFile Int
  metadataTemps : JsMap Text Temp

/-! ## Images -/

namespace Artifacts

variable (digest : Digest) (artifacts : JsMap Text Artifact)

def read (id sha256 : Text) (size : Nat) : Option (List UInt8) :=
  if isId id then
    (artifacts.get id).bind fun a =>
      if a.bytes.length = size ∧ digest.hex a.bytes = sha256 then some a.bytes else none
  else none

/-- `promote` throws where the identity does not match, or another image has the name. -/
def promote (id sha256 : Text) (bytes : List UInt8) (now : Int) :
    Option (JsMap Text Artifact) :=
  if ¬ isId id ∨ digest.hex bytes ≠ sha256 ∨ sha256.take 16 ≠ id then none
  else if read digest artifacts id sha256 bytes.length = some bytes then some artifacts
  else if artifacts.has id then none
  else some (artifacts.set id ⟨bytes, now⟩)

def remove (id : Text) : JsMap Text Artifact :=
  if isId id then artifacts.delete id else artifacts

end Artifacts

/-! ## Loading -/

/-- What the store finds in `builds/`: a manifest, or a directory of the older layout. -/
inductive BuildEntry
  | manifest (name : Text) (build : FirmwareBuild)
  | legacy (name : Text) (build : FirmwareBuild) (bytes : List UInt8) (saved : Bool)
  | corrupt

structure Disk where
  entries : List BuildEntry
  artifacts : JsMap Text Artifact
  staging : JsMap Text Temp
  buildFiles : JsMap BuildFile Int
  metadataTemps : JsMap Text Temp

def maxSafeInteger : Nat := 2 ^ 53 - 1

def validBuild (b : FirmwareBuild) : Bool :=
  isId b.id && b.sha256.length = 64 && b.sha256.all Text.isHexDigit && b.sha256.take 16 = b.id &&
    0 < b.size && b.size ≤ maxSafeInteger

def missingImage : Text := js "stored image is missing or failed SHA-256 verification"

namespace FirmwareStore

variable (cfg : StoreConfig) (s : FirmwareStore)

/-- A manifest as it is listed: nothing is still being built, and a ready build has its image. -/
def verified (build : FirmwareBuild) : FirmwareBuild :=
  match build.state with
  | .uploading | .building => { build with state := .failed }
  | .ready =>
    if (Artifacts.read cfg.digest s.artifacts build.id build.sha256 build.size).isSome then build
    else { build with state := .failed, error := some missingImage }
  | .failed => build

/-- `save` -/
def saveMetadata (id : Text) (now : Int) : FirmwareStore :=
  { s with buildFiles := s.buildFiles.set ⟨id, true⟩ now }

def loadEntry (now : Int) : BuildEntry → FirmwareStore
  | .manifest name build =>
    if validBuild build ∧ build.id = name then
      { s with builds := s.builds.set build.id (s.verified cfg build) }
    else s
  | .legacy name build bytes saved =>
    if validBuild build ∧ build.id = name ∧ build.size = bytes.length ∧
        build.sha256 = cfg.digest.hex bytes then
      match Artifacts.promote cfg.digest s.artifacts name build.sha256 bytes now with
      | none => s
      | some artifacts =>
        let s := { s with artifacts }
        if saved then
          let s := s.saveMetadata name now
          { s with
            builds := s.builds.set build.id build
            buildFiles := s.buildFiles.delete ⟨name, false⟩ }
        else s
    else s
  | .corrupt => s

/-- The store as it is made; `loadBuilds`. -/
def load (disk : Disk) (now : Int) : FirmwareStore :=
  let s : FirmwareStore :=
    { uploads := .empty, builds := .empty, pendingBuilds := .empty, artifacts := disk.artifacts
      staging := disk.staging, buildFiles := disk.buildFiles, metadataTemps := disk.metadataTemps }
  if cfg.persistMetadata then disk.entries.foldl (fun s e => s.loadEntry cfg now e) s else s

/-! ## Builds -/

def get (id : Text) : Option FirmwareBuild := s.builds.get id

/-- The image itself. -/
def bytes (id : Text) : Option (List UInt8) :=
  match s.builds.get id with
  | some b =>
    if b.state = .ready then Artifacts.read cfg.digest s.artifacts id b.sha256 b.size else none
  | none => none

/-- A finished build becomes visible. -/
def publish (build : FirmwareBuild) (now : Int) : FirmwareStore :=
  let s := if cfg.persistMetadata then s.saveMetadata build.id now else s
  { s with builds := s.builds.set build.id build }

/-- What a call of `completeBuild` is given, and whether the metadata can be written. -/
structure Completion where
  uploadId : Text
  by_ : Text
  log : List Text
  bytes : List UInt8
  deferActivation : Bool
  /-- The version in the workspace, if there is a workspace. -/
  version : Option Text
  saved : Bool
  now : Int

/-- The build of a finished upload. -/
def Completion.build (digest : Digest) (c : Completion) (up : Upload) (version : Text) :
    FirmwareBuild :=
  let sha256 := digest.hex c.bytes
  { id := sha256.take 16
    sha256
    size := c.bytes.length
    version
    state := .ready
    uploadedBy := if c.by_ = [] then up.by_ else c.by_
    uploadedAt := up.startedAt
    builtAt := some c.now
    files := up.files
    sourceBytes := up.bytes
    error := none
    log := c.log.drop (c.log.length - 60) }

def completeBuild (c : Completion) : FirmwareStore :=
  match s.uploads.get c.uploadId, c.version with
  | some up, some version =>
    if c.bytes = [] ∨ cfg.maxArtifactBytes < c.bytes.length then s
    else
      let build := c.build cfg.digest up version
      match Artifacts.promote cfg.digest s.artifacts build.id build.sha256 c.bytes c.now with
      | none => s
      | some artifacts =>
        let s := { s with artifacts }
        if c.deferActivation then
          { s with
            pendingBuilds := s.pendingBuilds.set build.id build
            uploads := s.uploads.delete c.uploadId }
        else if cfg.persistMetadata ∧ !c.saved then s
        else { s.publish cfg build c.now with uploads := s.uploads.delete c.uploadId }
  | _, _ => s

/-- A locally verified image becomes visible. -/
def activateBuild (id : Text) (saved : Bool) (now : Int) : FirmwareStore :=
  match s.pendingBuilds.get id with
  | none => s
  | some build =>
    if cfg.persistMetadata ∧ !saved then s
    else { s.publish cfg build now with pendingBuilds := s.pendingBuilds.delete id }

/-! ## Cleaning up -/

/-- The files of a build in `builds/`. -/
def removeBuildFiles (id : Text) : FirmwareStore :=
  { s with buildFiles := (s.buildFiles.delete ⟨id, true⟩).delete ⟨id, false⟩ }

def removeArtifact (id : Text) : FirmwareStore :=
  { s with artifacts := Artifacts.remove s.artifacts id }

/-- The directories of `uploads/`, with their times. -/
def cleanAbandonedSources (cutoff : Int) (sources : List (Text × Int)) : FirmwareStore :=
  sources.foldl (fun s (source : Text × Int) =>
    if cutoff ≤ ((s.uploads.get source.1).map Upload.lastActivityAt).getD 0 then s
    else if cutoff ≤ source.2 then s
    else { s with uploads := s.uploads.delete source.1 }) s

variable (inUse : Text → Bool) (cutoff : Int)

def cleanFailedBuilds : FirmwareStore :=
  s.builds.entries.foldl (fun s (entry : Text × FirmwareBuild) =>
    if entry.2.state ≠ .failed ∨ cutoff ≤ entry.2.uploadedAt then s
    else if inUse entry.1 then s
    else
      let s := (s.removeArtifact entry.1).removeBuildFiles entry.1
      { s with builds := s.builds.delete entry.1 }) s

def cleanUnindexedBuildFiles : FirmwareStore :=
  s.buildFiles.entries.foldl (fun s (file : BuildFile × Int) =>
    if ¬ isId file.1.id ∨ s.builds.has file.1.id then s
    else if cutoff ≤ file.2 ∨ inUse file.1.id then s
    else { s with buildFiles := s.buildFiles.delete file.1 }.removeArtifact file.1.id) s

def cleanOrphanArtifacts : FirmwareStore :=
  s.artifacts.entries.foldl (fun s (artifact : Text × Artifact) =>
    if s.builds.has artifact.1 ∨ cutoff ≤ artifact.2.modifiedAt then s
    else if inUse artifact.1 then s
    else s.removeArtifact artifact.1) s

def cleanStagedArtifacts : FirmwareStore :=
  { s with staging := s.staging.filter fun t => cutoff ≤ t.modifiedAt || inUse t.id }

def cleanMetadataTemps : FirmwareStore :=
  { s with metadataTemps := s.metadataTemps.filter fun t =>
      s.builds.has t.id || cutoff ≤ t.modifiedAt || inUse t.id }

/-- `cleanup` -/
def cleanup (sources : List (Text × Int)) (now olderThanMs : Int) : FirmwareStore :=
  let cutoff := now - olderThanMs
  (((((s.cleanAbandonedSources cutoff sources).cleanFailedBuilds inUse
    cutoff).cleanUnindexedBuildFiles inUse cutoff).cleanOrphanArtifacts inUse
    cutoff).cleanStagedArtifacts inUse cutoff).cleanMetadataTemps inUse cutoff

/-- Forget a build and delete its image. -/
def remove (id : Text) : FirmwareStore :=
  if inUse id then s
  else
    match s.builds.get id with
    | none => s
    | some _ =>
      let s := s.removeArtifact id
      let s := if cfg.persistMetadata ∧ isId id then s.removeBuildFiles id else s
      { s with builds := s.builds.delete id }

end FirmwareStore

/-! ## Runs -/

inductive StoreEvent
  /-- An upload begins, or receives files. -/
  | upload (up : Upload)
  | completeBuild (c : FirmwareStore.Completion)
  | activateBuild (id : Text) (saved : Bool) (now : Int)
  | remove (id : Text) (inUse : Text → Bool)
  | cleanup (inUse : Text → Bool) (sources : List (Text × Int)) (now olderThanMs : Int)

def storeStep (cfg : StoreConfig) (s : FirmwareStore) : StoreEvent → FirmwareStore
  | .upload up => { s with uploads := s.uploads.set up.id up }
  | .completeBuild c => s.completeBuild cfg c
  | .activateBuild id saved now => s.activateBuild cfg id saved now
  | .remove id inUse => s.remove cfg inUse id
  | .cleanup inUse sources now olderThanMs => s.cleanup inUse sources now olderThanMs

end TMEdge.Firmware
