import Mathlib.Order.Interval.Set.Disjoint
import TMEdge.Library.Decimal
import TMEdge.Library.Fallible
import TMEdge.Flasher.Md5

/-!
# What is written to a board's flash

`src/shared/flasher/images.ts`. A flash clears whole sectors; `assertPreserves` keeps the sectors of
each image away from the NVS partitions and from one another.

* `planFlash_safe`: where the sectors of a plan are.
* `inRegions_iff`: when each image stays in its own region.
-/

namespace TMEdge.Flasher

open Library
open List hiding Disjoint

/-- `SECTOR` -/
def sectorBytes : Nat := 0x1000

/-- `FLASH_BYTES` -/
def flashBytes : Nat := 8 * 1024 * 1024

/-- `ESP32_S3_CHIP_ID` -/
def esp32S3ChipId : Nat := 9

/-- `BOOTLOADER_OFFSET` -/
def bootloaderOffset : Nat := 0

/-- `PARTITION_TABLE_OFFSET` -/
def partitionTableOffset : Nat := 0x8000

structure Region where
  offset : Nat
  size : Nat
  deriving DecidableEq

structure Partition extends Region where
  label : Text
  type : Nat
  subtype : Nat
  deriving DecidableEq

inductive SegmentName
  | bootloader
  | partitionTable
  | bootSelector
  | application
  deriving DecidableEq

def SegmentName.text : SegmentName → Text
  | .bootloader => js "bootloader"
  | .partitionTable => js "partition table"
  | .bootSelector => js "boot selector"
  | .application => js "application"

structure FlashSegment where
  name : SegmentName
  address : Nat
  data : List UInt8
  deriving DecidableEq

structure FlashPlan where
  version : Text
  segments : List FlashSegment
  preserved : List Partition
  totalBytes : Nat
  deriving DecidableEq

structure FirmwareFiles where
  bootloader : List UInt8
  partitions : List UInt8
  application : List UInt8

/-- `end` -/
def Region.stop (r : Region) : Nat := r.offset + r.size

def sectors (bytes : Nat) : Nat := (bytes + (sectorBytes - 1)) / sectorBytes * sectorBytes

/-- ``0x${address.toString(16)}`` -/
def at_ (address : Nat) : Text :=
  js "0x" ++ (Nat.toDigits 16 address).map fun c => UInt16.ofNat c.toNat

/-! ## The partition table -/

def byteAt (bytes : List UInt8) (i : Nat) : Nat := (bytes[i]?.getD 0).toNat

/-- `getUint16(i, true)` -/
def getUint16 (bytes : List UInt8) (i : Nat) : Nat := byteAt bytes i + 0x100 * byteAt bytes (i + 1)

/-- The entry at an offset. -/
def entryAt (bytes : List UInt8) (offset : Nat) : Partition where
  label := (((List.range 16).map fun i => byteAt bytes (offset + 12 + i)).takeWhile
    (· ≠ 0)).map UInt16.ofNat
  type := byteAt bytes (offset + 2)
  subtype := byteAt bytes (offset + 3)
  offset := getUint32 bytes (offset + 4)
  size := getUint32 bytes (offset + 8)

/-- The checksum that a row holds. -/
def checksumAt (bytes : List UInt8) (offset : Nat) : List UInt8 :=
  (bytes.drop (offset + 16)).take 16

/-- The loop over the rows, with `out` read so far: what it has read, and whether it was checked. -/
def readRows (bytes : List UInt8) : List Nat → List Partition → Except Text (List Partition × Bool)
  | [], out => .ok (out, false)
  | offset :: rest, out =>
    let magic := getUint16 bytes offset
    if magic = 0x50aa then readRows bytes rest (out ++ [entryAt bytes offset])
    else if magic = 0xebeb then
      if hex (md5 (bytes.take offset)) ≠ hex (checksumAt bytes offset) then
        .error (js "the partition table is damaged (its checksum does not match)")
      else .ok (out, true)
    else .ok (out, false)

def parsePartitionTable (bytes : List UInt8) : Except Text (List Partition) :=
  if bytes.length = 0 ∨ sectorBytes < bytes.length ∨ bytes.length % 32 ≠ 0 then
    .error (js "the partition table is not a partitions.bin (wrong size)")
  else do
    let (out, checked) ← readRows bytes ((List.range (bytes.length / 32)).map (32 * ·)) []
    if out.length = 0 then .error (js "the partition table is not a partitions.bin (no entries)")
    else if !checked then
      .error (js "the partition table has no checksum; rebuild the firmware")
    else .ok out

/-! ## Images -/

def imageChipId (image : List UInt8) : Option Nat :=
  if image.length < 24 ∨ image[0]? ≠ some 0xe9 then none
  else some (byteAt image 12 + 0x100 * byteAt image 13)

/-- `"tmsense-"` -/
def marker : List UInt8 := [0x74, 0x6d, 0x73, 0x65, 0x6e, 0x73, 0x65, 0x2d]

def isDigitByte (b : UInt8) : Bool := 48 ≤ b && b ≤ 57

/-- `/[0-9A-Za-z.-]/` -/
def isVersionByte (b : UInt8) : Bool :=
  isDigitByte b || (65 ≤ b && b ≤ 90) || (97 ≤ b && b ≤ 122) || b = 46 || b = 45

/-- The version that starts at a place. -/
def versionAt (application : List UInt8) (i : Nat) : Option Text :=
  if (application.drop i).take 8 ≠ marker then none
  else
    let text := ((application.drop i).take 12).takeWhile isVersionByte
    -- `/^tmsense-\d/`
    if (text[8]?).any isDigitByte then some (text.map UInt8.toUInt16) else none

def tmsenseVersion (application : List UInt8) : Option Text :=
  (List.range (application.length - 8)).findSome? (versionAt application)

/-- `out.set(bytes, at)` -/
def setBytes (out bytes : List UInt8) (start : Nat) : List UInt8 :=
  out.take start ++ bytes ++ out.drop (start + bytes.length)

def bootSelector : List UInt8 :=
  let out := List.replicate 0x2000 0xff
  let out := setBytes out [0x01, 0x00, 0x00, 0x00] 0
  let out := setBytes out [0x9a, 0x98, 0x43, 0x47] 28
  setBytes out [0x00, 0x00, 0x00, 0x00] 0x1000

def requireImage (image : List UInt8) (what : Text) : Except Text Unit :=
  match imageChipId image with
  | none => .error (js "the " ++ what ++ js " is not an ESP32 image")
  | some chip =>
    if chip ≠ esp32S3ChipId then
      .error (js "the " ++ what ++ js " was built for a different chip, not the ESP32-S3 a " ++
        js "TMsense node uses")
    else .ok ()

/-- The bootloader's header says how much flash it expects. -/
def requireBoard (bootloader : List UInt8) : Except Text Unit :=
  let megabytes := 2 ^ (byteAt bootloader 3 / 16)
  if megabytes * 1024 * 1024 ≠ flashBytes then
    .error (js "the bootloader was built for " ++ Text.decimal megabytes ++
      js " MB of flash, not the 8 MB a TMsense node has")
  else .ok ()

/-! ## The plan -/

def Partition.isSelector (p : Partition) : Bool := p.type = 1 && p.subtype = 0

def Partition.isSlot (p : Partition) : Bool := p.type = 0 && p.subtype = 0x10

def Partition.isNvs (p : Partition) : Bool := p.type = 1 && (p.subtype = 2 || p.subtype = 4)

/-- Where each image is allowed to be. -/
def allowed (selector slot : Partition) : SegmentName → Region
  | .bootloader => { offset := bootloaderOffset, size := partitionTableOffset - bootloaderOffset }
  | .partitionTable => { offset := partitionTableOffset, size := sectorBytes }
  | .bootSelector => selector.toRegion
  | .application => slot.toRegion

def segmentsOf (files : FirmwareFiles) (selector slot : Partition) : List FlashSegment :=
  [ { name := .bootloader, address := bootloaderOffset, data := files.bootloader },
    { name := .partitionTable, address := partitionTableOffset, data := files.partitions },
    { name := .bootSelector, address := selector.offset, data := bootSelector },
    { name := .application, address := slot.offset, data := files.application } ]

def checkFits (selector slot : Partition) (s : FlashSegment) : Except Text Unit :=
  let region := allowed selector slot s.name
  if s.data.length = 0 then .error (js "the " ++ s.name.text ++ js " is empty")
  else if region.size < s.data.length then
    .error (js "the " ++ s.name.text ++ js " (" ++ Text.decimal s.data.length ++
      js " bytes) does not fit its " ++ Text.decimal region.size ++ js "-byte region at " ++
      at_ region.offset)
  else .ok ()

def checkOnBoard (p : Partition) : Except Text Unit :=
  if p.offset < partitionTableOffset + sectorBytes ∨ flashBytes < p.stop then
    .error (js "partition “" ++ p.label ++ js "” lies outside the board's 8 MB of flash")
  else .ok ()

/-- The sectors that a write clears. -/
def FlashSegment.extent (s : FlashSegment) : Region where
  offset := s.address
  size := sectors s.data.length

def overlaps (r r' : Region) : Bool := r.offset < r'.stop && r'.offset < r.stop

/-- The checks of `assertPreserves` on one segment, the `i`th. -/
def checkExtent (plan : FlashPlan) (s : FlashSegment) (i : Nat) : Except Text Unit :=
  if s.extent.offset % sectorBytes ≠ 0 then
    .error (js "the " ++ s.name.text ++ js " would not start on a sector boundary")
  else do
    plan.preserved.forM fun keep =>
      if overlaps s.extent keep.toRegion then
        .error (js "refusing to flash: the " ++ s.name.text ++ js " would erase the “" ++
          keep.label ++ js "” partition, which holds the node's settings and boot counter")
      else .ok ()
    plan.segments.zipIdx.forM fun (other, j) =>
      if j ≠ i ∧ overlaps s.extent other.extent then
        .error (js "refusing to flash: the " ++ s.name.text ++ js " and the " ++ other.name.text ++
          js " overlap")
      else .ok ()

def assertPreserves (plan : FlashPlan) : Except Text Unit :=
  plan.segments.zipIdx.forM fun (s, i) => checkExtent plan s i

def planFlash (files : FirmwareFiles) : Except Text FlashPlan := do
  requireImage files.bootloader (js "bootloader")
  requireImage files.application (js "application image")
  requireBoard files.bootloader
  match tmsenseVersion files.application with
  | none => .error (js "the application image does not identify itself as TMsense firmware")
  | some version =>
    let table ← parsePartitionTable files.partitions
    match table.find? Partition.isSelector, table.find? Partition.isSlot with
    | some selector, some slot =>
      let preserved := table.filter Partition.isNvs
      if preserved.length = 0 then
        .error (js "the partition table has no NVS partition; a node could not keep its settings")
      else if bootSelector.length ≠ selector.size then
        .error (js "the partition table has an unexpected boot selector size")
      else
        let segments := segmentsOf files selector slot
        let plan : FlashPlan := { version, segments, preserved
                                  totalBytes := (segments.map fun s => s.data.length).sum }
        segments.forM (checkFits selector slot)
        table.forM checkOnBoard
        assertPreserves plan
        return plan
    | _, _ =>
      .error (js "the partition table has no boot selector or no first application slot; " ++
        js "TMsense needs both")

/-! ## The table that is read -/

section table

variable {bytes : List UInt8} {rows : List Nat} {out table : List Partition} {checked : Bool}

/-- The entries of a table, and the row after them that holds their checksum. -/
structure Checked (bytes : List UInt8) (table : List Partition) : Prop where
  entries : table = (List.range table.length).map fun i => entryAt bytes (32 * i)
  magic : ∀ i < table.length, getUint16 bytes (32 * i) = 0x50aa
  row : getUint16 bytes (32 * table.length) = 0xebeb
  inside : 32 * table.length + 32 ≤ bytes.length
  checksum : md5 (bytes.take (32 * table.length)) = checksumAt bytes (32 * table.length)

theorem readRows_ok (h : readRows bytes rows out = .ok (table, true)) :
    ∃ pre offset post, rows = pre ++ offset :: post ∧ table = out ++ pre.map (entryAt bytes) ∧
      (∀ i ∈ pre, getUint16 bytes i = 0x50aa) ∧ getUint16 bytes offset = 0xebeb ∧
      md5 (bytes.take offset) = checksumAt bytes offset := by
  induction rows generalizing out with
  | nil => cases h
  | cons offset rest ih =>
    rw [readRows] at h
    split at h
    next hEntry =>
      obtain ⟨pre, offset', post, rfl, rfl, hPre, hRow, hSum⟩ := ih h
      exact ⟨offset :: pre, offset', post, rfl, by simp, forall_mem_cons.mpr ⟨hEntry, hPre⟩,
        hRow, hSum⟩
    next =>
      split at h
      next hRow =>
        split at h
        next => cases h
        next hSum =>
          cases h
          exact ⟨[], offset, rest, rfl, by simp, by simp, hRow, hex_injective (not_not.mp hSum)⟩
      next => cases h

theorem parsePartitionTable_ok (h : parsePartitionTable bytes = .ok table) :
    Checked bytes table := by
  unfold parsePartitionTable at h
  split at h
  next => cases h
  next hSize =>
    obtain ⟨⟨out, checked⟩, hRows, h⟩ := bind_eq_ok.mp h
    dsimp only at h
    split at h
    next => cases h
    next =>
      split at h
      next => cases h
      next hChecked =>
        cases h
        obtain rfl : checked = true := by simpa using hChecked
        obtain ⟨pre, offset, post, hSplit, rfl, hPre, hRow, hSum⟩ := readRows_ok hRows
        have hLength : pre.length < bytes.length / 32 := by
          have hCount := congrArg List.length hSplit
          simp only [length_map, length_range, length_append,
            length_cons] at hCount
          omega
        have hOffset : offset = 32 * pre.length := by
          have hAt := congrArg (fun l => l[pre.length]?) hSplit
          simpa [hLength] using hAt.symm
        have hFirst : pre = (List.range pre.length).map (32 * ·) := by
          have hTake := congrArg (List.take pre.length) hSplit
          rw [take_left, ← map_take, take_range, min_eq_left hLength.le] at hTake
          exact hTake.symm
        simp only [nil_append]
        refine ⟨?_, fun i hi => ?_, ?_, ?_, ?_⟩
        · rw [length_map]
          conv_lhs => rw [hFirst]
          rw [map_map]
          rfl
        · rw [length_map] at hi
          refine hPre _ ?_
          rw [hFirst]
          exact mem_map_of_mem (mem_range.mpr hi)
        · rwa [length_map, ← hOffset]
        · rw [length_map]
          omega
        · rwa [length_map, ← hOffset]

end table

/-! ## What a plan has passed -/

section plan

variable {files : FirmwareFiles} {plan : FlashPlan} {table : List Partition}
  {selector slot p : Partition} {s : FlashSegment} {r r' : Region}

/-- The addresses of a region. -/
def Region.addresses (r : Region) : Set Nat := Set.Ico r.offset r.stop

/-- A plan and what it was made of. -/
structure Planned (files : FirmwareFiles) (plan : FlashPlan) (table : List Partition)
    (selector slot : Partition) : Prop where
  parsed : parsePartitionTable files.partitions = .ok table
  isSelector : table.find? Partition.isSelector = some selector
  isSlot : table.find? Partition.isSlot = some slot
  size : selector.size = 0x2000
  segments : plan.segments = segmentsOf files selector slot
  preserved : plan.preserved = table.filter Partition.isNvs
  fits : ∀ s ∈ plan.segments, s.data.length ≤ (allowed selector slot s.name).size
  onBoard : ∀ p ∈ table, partitionTableOffset + sectorBytes ≤ p.offset ∧ p.stop ≤ flashBytes
  aligned : ∀ s ∈ plan.segments, s.address % sectorBytes = 0
  keeps : ∀ s ∈ plan.segments, ∀ p ∈ plan.preserved, Disjoint s.extent.addresses p.addresses
  apart : plan.segments.Pairwise fun s t => Disjoint s.extent.addresses t.extent.addresses

theorem disjoint_of_not_overlaps (h : overlaps r r' = false) :
    Disjoint r.addresses r'.addresses := by
  rw [Region.addresses, Region.addresses, Set.Ico_disjoint_Ico]
  simp only [overlaps, Bool.and_eq_false_iff, decide_eq_false_iff_not, not_lt] at h
  rcases h with h | h
  · exact (min_le_right _ _).trans (h.trans (le_max_left _ _))
  · exact (min_le_left _ _).trans (h.trans (le_max_right _ _))

theorem length_setBytes {out bytes : List UInt8} {start : Nat}
    (h : start + bytes.length ≤ out.length) : (setBytes out bytes start).length = out.length := by
  unfold setBytes
  rw [length_append, length_append, length_take, length_drop]
  omega

theorem length_bootSelector : bootSelector.length = 0x2000 := by
  have hFirst :
      (setBytes (List.replicate 0x2000 0xff) [0x01, 0x00, 0x00, 0x00] 0).length = 0x2000 :=
    (length_setBytes (by rw [length_replicate]; decide)).trans length_replicate
  have hSecond := (@length_setBytes _ [0x9a, 0x98, 0x43, 0x47] 28
    (by rw [hFirst]; decide)).trans hFirst
  exact (length_setBytes (by rw [hSecond]; decide)).trans hSecond

theorem sectors_le {n m : Nat} (h : n ≤ m) (hm : m % sectorBytes = 0) : sectors n ≤ m := by
  unfold sectors sectorBytes at *
  omega

theorem checkFits_ok (h : checkFits selector slot s = .ok ()) :
    s.data.length ≤ (allowed selector slot s.name).size := by
  unfold checkFits at h
  dsimp only at h
  split at h
  next => cases h
  next =>
    split at h
    next => cases h
    next hFits => exact not_lt.mp hFits

theorem checkOnBoard_ok (h : checkOnBoard p = .ok ()) :
    partitionTableOffset + sectorBytes ≤ p.offset ∧ p.stop ≤ flashBytes := by
  unfold checkOnBoard at h
  split at h
  next => cases h
  next hInside =>
    rw [not_or, not_lt, not_lt] at hInside
    exact hInside

theorem checkExtent_ok {i : Nat} (h : checkExtent plan s i = .ok ()) :
    s.address % sectorBytes = 0 ∧
      (∀ p ∈ plan.preserved, Disjoint s.extent.addresses p.addresses) ∧
      ∀ t j, plan.segments[j]? = some t → j ≠ i →
        Disjoint s.extent.addresses t.extent.addresses := by
  unfold checkExtent at h
  split at h
  next => cases h
  next hAligned =>
    obtain ⟨⟨⟩, hKeeps, hApart⟩ := bind_eq_ok.mp h
    rw [forM_eq_ok] at hKeeps hApart
    refine ⟨not_not.mp hAligned, fun p hp => ?_, fun t j ht hj => ?_⟩
    · have hKeep := hKeeps p hp
      split at hKeep
      next => cases hKeep
      next hNot => exact disjoint_of_not_overlaps (by simpa using hNot)
    · have hOther := hApart (t, j) (mem_zipIdx_iff_getElem?.mpr ht)
      dsimp only at hOther
      split at hOther
      next => cases hOther
      next hNot =>
        rw [not_and] at hNot
        exact disjoint_of_not_overlaps (by simpa using hNot hj)

theorem assertPreserves_ok (h : assertPreserves plan = .ok ()) :
    (∀ s ∈ plan.segments, s.address % sectorBytes = 0) ∧
      (∀ s ∈ plan.segments, ∀ p ∈ plan.preserved, Disjoint s.extent.addresses p.addresses) ∧
      plan.segments.Pairwise fun s t => Disjoint s.extent.addresses t.extent.addresses := by
  have hEach : ∀ s i, plan.segments[i]? = some s → checkExtent plan s i = .ok () := fun s i hs =>
    forM_eq_ok.mp h (s, i) (mem_zipIdx_iff_getElem?.mpr hs)
  refine ⟨fun s hs => ?_, fun s hs => ?_, ?_⟩
  · obtain ⟨i, hi⟩ := mem_iff_getElem?.mp hs
    exact (checkExtent_ok (hEach s i hi)).1
  · obtain ⟨i, hi⟩ := mem_iff_getElem?.mp hs
    exact (checkExtent_ok (hEach s i hi)).2.1
  · rw [pairwise_iff_getElem]
    intro i j hi hj hij
    exact (checkExtent_ok (hEach _ i (getElem?_eq_getElem hi))).2.2 _ j
      (getElem?_eq_getElem hj) hij.ne'

theorem planFlash_ok (h : planFlash files = .ok plan) :
    ∃ table selector slot, Planned files plan table selector slot := by
  unfold planFlash at h
  obtain ⟨⟨⟩, -, h⟩ := bind_eq_ok.mp h
  obtain ⟨⟨⟩, -, h⟩ := bind_eq_ok.mp h
  obtain ⟨⟨⟩, -, h⟩ := bind_eq_ok.mp h
  split at h
  next => cases h
  next version hVersion =>
    obtain ⟨table, hTable, h⟩ := bind_eq_ok.mp h
    split at h
    next selector slot hSelector hSlot =>
      dsimp only at h
      split at h
      next => cases h
      next =>
        split at h
        next => cases h
        next hSize =>
          obtain ⟨⟨⟩, hFits, h⟩ := bind_eq_ok.mp h
          obtain ⟨⟨⟩, hBoard, h⟩ := bind_eq_ok.mp h
          obtain ⟨⟨⟩, hAssert, h⟩ := bind_eq_ok.mp h
          cases h
          obtain ⟨hAligned, hKeeps, hApart⟩ := assertPreserves_ok hAssert
          rw [length_bootSelector] at hSize
          exact ⟨table, selector, slot, hTable, hSelector, hSlot, (not_not.mp hSize).symm, rfl, rfl,
            fun s hs => checkFits_ok (forM_eq_ok.mp hFits s hs),
            fun p hp => checkOnBoard_ok (forM_eq_ok.mp hBoard p hp), hAligned, hKeeps, hApart⟩
    next => cases h

theorem Planned.selector_mem (h : Planned files plan table selector slot) : selector ∈ table :=
  mem_of_find?_eq_some h.isSelector

theorem Planned.slot_mem (h : Planned files plan table selector slot) : slot ∈ table :=
  mem_of_find?_eq_some h.isSlot

/-- The sectors of each segment are on the board. -/
theorem Planned.inside (h : Planned files plan table selector slot) (hs : s ∈ plan.segments) :
    s.address + sectors s.data.length ≤ flashBytes := by
  have hAligned := h.aligned s hs
  have hFits := h.fits s hs
  have hSelector := (h.onBoard selector h.selector_mem).2
  have hSlot := (h.onBoard slot h.slot_mem).2
  have hEnd : s.address + s.data.length ≤ flashBytes := by
    rw [h.segments] at hs
    simp only [segmentsOf, mem_cons, not_mem_nil, or_false] at hs
    unfold Region.stop at hSelector hSlot
    rcases hs with rfl | rfl | rfl | rfl
    · dsimp only [allowed, bootloaderOffset, partitionTableOffset, flashBytes] at hFits ⊢
      omega
    · dsimp only [allowed, sectorBytes, partitionTableOffset, flashBytes] at hFits ⊢
      omega
    · dsimp only [allowed] at hFits ⊢
      omega
    · dsimp only [allowed] at hFits ⊢
      omega
  -- both the address and the size of the flash are whole sectors
  unfold sectors flashBytes sectorBytes at *
  omega

/-! ## What a plan leaves alone -/

/-- Where the sectors of a plan are. -/
structure FlashSafe (files : FirmwareFiles) (plan : FlashPlan) : Prop where
  names : plan.segments.map FlashSegment.name =
    [.bootloader, .partitionTable, .bootSelector, .application]
  aligned : ∀ s ∈ plan.segments, s.address % sectorBytes = 0
  inside : ∀ s ∈ plan.segments, s.address + sectors s.data.length ≤ flashBytes
  apart : plan.segments.Pairwise fun s t => Disjoint s.extent.addresses t.extent.addresses
  table : ∃ table, parsePartitionTable files.partitions = .ok table ∧
    Checked files.partitions table ∧
    (∀ s ∈ plan.segments, s.name = .partitionTable → s.data = files.partitions) ∧
    ∀ p ∈ table, p.isNvs = true → ∀ s ∈ plan.segments,
      Disjoint s.extent.addresses p.addresses

/-- A flash stays away from the NVS partitions of the table it writes, and its segments from one
another. -/
theorem planFlash_safe (h : planFlash files = .ok plan) : FlashSafe files plan := by
  obtain ⟨table, selector, slot, hPlan⟩ := planFlash_ok h
  refine ⟨?_, hPlan.aligned, fun s hs => hPlan.inside hs, hPlan.apart, table, hPlan.parsed,
    parsePartitionTable_ok hPlan.parsed, fun s hs hName => ?_, fun p hp hNvs s hs => ?_⟩
  · rw [hPlan.segments]
    rfl
  · rw [hPlan.segments] at hs
    simp only [segmentsOf, List.mem_cons, List.not_mem_nil, or_false] at hs
    rcases hs with rfl | rfl | rfl | rfl
    · cases hName
    · rfl
    · cases hName
    · cases hName
  · refine hPlan.keeps s hs p ?_
    rw [hPlan.preserved]
    exact List.mem_filter.mpr ⟨hp, hNvs⟩

end plan

/-! ## Images for a board -/

/-- An image for the chip of a node. -/
def imageFor (flash : UInt8) (text : Text) : List UInt8 :=
  [0xe9, 0, 0, flash, 0, 0, 0, 0, 0, 0, 0, 0, 9, 0, 0, 0, 0, 0, 0, 0, 0, 0, 0, 0] ++
    text.map UInt16.toUInt8

/-- An entry of a table, without a label. -/
def entryBytes (type subtype : UInt8) (offset size : Nat) : List UInt8 :=
  [0xaa, 0x50, type, subtype] ++ uint32Bytes offset ++ uint32Bytes size ++ List.replicate 20 0

/-- The entries of a table with their checksum. -/
def tableBytes (entries : List (List UInt8)) : List UInt8 :=
  entries.flatten ++ [0xeb, 0xeb] ++ List.replicate 14 0xff ++ md5 entries.flatten

/-- A build with a slot of forty bytes and a file system right after it. -/
def narrow : FirmwareFiles where
  bootloader := imageFor 0x30 []
  partitions := tableBytes
    [ entryBytes 1 2 0x9000 0x4000, entryBytes 1 0 0xd000 0x2000,
      entryBytes 0 0x10 0x10000 40, entryBytes 1 0x82 0x10028 0x1000 ]
  application := imageFor 0 (js "tmsense-1.6")

theorem exists_plan {files : FirmwareFiles} (h : (planFlash files).toOption.isSome = true) :
    ∃ plan, planFlash files = .ok plan := by
  cases hPlan : planFlash files with
  | error e => simp [hPlan, Except.toOption] at h
  | ok plan => exact ⟨plan, rfl⟩

theorem planFlash_narrow : ∃ plan, planFlash narrow = .ok plan := exists_plan (by decide +kernel)

theorem narrow_safe : ∃ plan, planFlash narrow = .ok plan ∧ FlashSafe narrow plan := by
  obtain ⟨plan, hPlan⟩ := planFlash_narrow
  exact ⟨plan, hPlan, planFlash_safe hPlan⟩

/-! ## Each image in its own region -/

section regions

variable {files : FirmwareFiles} {plan : FlashPlan} {table : List Partition}
  {selector slot : Partition} {isOwn : Partition → Bool} {r : Region}

/-- A region lies within a partition, the first of its kind, and within no other of the table. -/
def WithinOwn (table : List Partition) (isOwn : Partition → Bool) (r : Region) : Prop :=
  ∃ own p, table.findIdx? isOwn = some own ∧ table[own]? = some p ∧
    r.addresses ⊆ p.addresses ∧
    ∀ k q, table[k]? = some q → k ≠ own → Disjoint r.addresses q.addresses

/-- What a flash erases is in the regions it is allowed. -/
def InRegions (files : FirmwareFiles) (plan : FlashPlan) : Prop :=
  ∃ table, parsePartitionTable files.partitions = .ok table ∧ ∀ s ∈ plan.segments,
    match s.name with
    | .bootloader | .partitionTable => ∀ p ∈ table, Disjoint s.extent.addresses p.addresses
    | .bootSelector => WithinOwn table Partition.isSelector s.extent
    | .application => WithinOwn table Partition.isSlot s.extent

/-- No other partition of the table, those that a plan preserves apart, reaches into a region. -/
def Alone (table : List Partition) (isOwn : Partition → Bool) (r : Region) : Prop :=
  ∀ own, table.findIdx? isOwn = some own → ∀ k q, table[k]? = some q → k ≠ own →
    q.isNvs = false → Disjoint r.addresses q.addresses

/-- The slot has room for the sectors of the application, and they and the boot selector have their
regions to themselves. -/
structure Roomy (files : FirmwareFiles) : Prop where
  room : ∀ table slot, parsePartitionTable files.partitions = .ok table →
    table.find? Partition.isSlot = some slot → sectors files.application.length ≤ slot.size
  alone : ∀ table selector slot, parsePartitionTable files.partitions = .ok table →
    table.find? Partition.isSelector = some selector → table.find? Partition.isSlot = some slot →
    Alone table Partition.isSelector selector.toRegion ∧
      Alone table Partition.isSlot ⟨slot.offset, sectors files.application.length⟩

theorem findIdx?_of_find? {α : Type} {p : α → Bool} {l : List α} {a : α} (h : l.find? p = some a) :
    ∃ i, l.findIdx? p = some i ∧ l[i]? = some a := by
  rw [find?_eq_some_iff_getElem] at h
  obtain ⟨ha, i, hi, rfl, hFirst⟩ := h
  refine ⟨i, ?_, getElem?_eq_getElem hi⟩
  rw [findIdx?_eq_some_iff_getElem]
  exact ⟨hi, ha, fun j hj => by simpa using hFirst j hj⟩

theorem WithinOwn.subset {own : Partition} (h : WithinOwn table isOwn r)
    (hOwn : table.find? isOwn = some own) : r.addresses ⊆ own.addresses := by
  obtain ⟨i, hIdx, hi⟩ := findIdx?_of_find? hOwn
  obtain ⟨j, p, hj, hp, hSub, -⟩ := h
  obtain rfl : i = j := Option.some.inj (hIdx.symm.trans hj)
  obtain rfl : own = p := Option.some.inj (hi.symm.trans hp)
  exact hSub

theorem withinOwn_iff {own : Partition} (hOwn : table.find? isOwn = some own)
    (hNvs : ∀ p ∈ table, p.isNvs = true → Disjoint r.addresses p.addresses) :
    WithinOwn table isOwn r ↔ r.addresses ⊆ own.addresses ∧ Alone table isOwn r := by
  obtain ⟨i, hIdx, hi⟩ := findIdx?_of_find? hOwn
  constructor
  · intro hWithin
    refine ⟨hWithin.subset hOwn, fun j hj k q hq hne _ => ?_⟩
    obtain ⟨j', p, hj', hp, -, hOthers⟩ := hWithin
    obtain rfl : j = j' := Option.some.inj (hj.symm.trans hj')
    exact hOthers k q hq hne
  · rintro ⟨hSub, hAlone⟩
    refine ⟨i, own, hIdx, hi, hSub, fun k q hq hne => ?_⟩
    cases hKind : q.isNvs with
    | true => exact hNvs q (mem_of_getElem? hq) hKind
    | false => exact hAlone i hIdx k q hq hne hKind

/-- The sectors before the partitions. -/
theorem disjoint_of_le {p : Partition} (h : r.stop ≤ p.offset) :
    Disjoint r.addresses p.addresses := by
  rw [Region.addresses, Region.addresses, Set.Ico_disjoint_Ico]
  exact (min_le_left _ _).trans (h.trans (le_max_right _ _))

theorem addresses_subset_iff {offset n m : Nat} :
    Region.addresses ⟨offset, n⟩ ⊆ Region.addresses ⟨offset, m⟩ ↔ n ≤ m := by
  unfold Region.addresses Region.stop
  dsimp only
  rcases Nat.eq_zero_or_pos n with rfl | hPos
  · simp
  · rw [Set.Ico_subset_Ico_iff (by omega)]
    omega

theorem Planned.extent_selector (h : Planned files plan table selector slot) :
    FlashSegment.extent ⟨.bootSelector, selector.offset, bootSelector⟩ = selector.toRegion := by
  unfold FlashSegment.extent
  dsimp only
  rw [length_bootSelector, show sectors 0x2000 = selector.size from h.size.symm]

/-- The sectors of the bootloader and of the table come before every partition. -/
theorem Planned.below (h : Planned files plan table selector slot) {s : FlashSegment}
    {p : Partition} (hs : s ∈ plan.segments) (hName : s.name = .bootloader ∨ s.name = .partitionTable)
    (hp : p ∈ table) : Disjoint s.extent.addresses p.addresses := by
  have hFits := h.fits s hs
  have hOffset := (h.onBoard p hp).1
  refine disjoint_of_le (le_trans ?_ hOffset)
  rw [h.segments] at hs
  simp only [segmentsOf, mem_cons, not_mem_nil, or_false] at hs
  rcases hs with rfl | rfl | rfl | rfl
  · have hSectors : sectors files.bootloader.length ≤ partitionTableOffset :=
      sectors_le hFits (by decide)
    dsimp only [FlashSegment.extent, Region.stop, bootloaderOffset]
    omega
  · have hSectors : sectors files.partitions.length ≤ sectorBytes := sectors_le hFits (by decide)
    dsimp only [FlashSegment.extent, Region.stop]
    omega
  · simp at hName
  · simp at hName

theorem Planned.inRegions_iff_own (h : Planned files plan table selector slot) :
    InRegions files plan ↔ WithinOwn table Partition.isSelector selector.toRegion ∧
      WithinOwn table Partition.isSlot ⟨slot.offset, sectors files.application.length⟩ := by
  rw [← h.extent_selector]
  constructor
  · rintro ⟨table', hTable, hEach⟩
    obtain rfl : table = table' := Except.ok.inj (h.parsed.symm.trans hTable)
    rw [h.segments, segmentsOf] at hEach
    exact ⟨hEach ⟨.bootSelector, _, _⟩ (by simp), hEach ⟨.application, _, _⟩ (by simp)⟩
  · rintro ⟨hSelector, hSlot⟩
    refine ⟨table, h.parsed, fun s hs => ?_⟩
    have hBelow := fun hName p hp => @Planned.below _ _ _ _ _ h s p hs hName hp
    rw [h.segments] at hs
    simp only [segmentsOf, mem_cons, not_mem_nil, or_false] at hs
    rcases hs with rfl | rfl | rfl | rfl
    · exact hBelow (.inl rfl)
    · exact hBelow (.inr rfl)
    · exact hSelector
    · exact hSlot

theorem Planned.roomy_iff (h : Planned files plan table selector slot) :
    Roomy files ↔ sectors files.application.length ≤ slot.size ∧
      Alone table Partition.isSelector selector.toRegion ∧
      Alone table Partition.isSlot ⟨slot.offset, sectors files.application.length⟩ := by
  constructor
  · intro hRoomy
    exact ⟨hRoomy.room table slot h.parsed h.isSlot,
      hRoomy.alone table selector slot h.parsed h.isSelector h.isSlot⟩
  · rintro ⟨hRoom, hAlone⟩
    constructor
    · intro table' slot' hTable hSlot
      obtain rfl : table = table' := Except.ok.inj (h.parsed.symm.trans hTable)
      obtain rfl : slot = slot' := Option.some.inj (h.isSlot.symm.trans hSlot)
      exact hRoom
    · intro table' selector' slot' hTable hSelector hSlot
      obtain rfl : table = table' := Except.ok.inj (h.parsed.symm.trans hTable)
      obtain rfl : selector = selector' := Option.some.inj (h.isSelector.symm.trans hSelector)
      obtain rfl : slot = slot' := Option.some.inj (h.isSlot.symm.trans hSlot)
      exact hAlone

/-- Each image stays in its own region if and only if the slot has room for the sectors of the
application, and no other partition reaches into what is erased for it and for the boot selector. -/
theorem inRegions_iff (h : planFlash files = .ok plan) : InRegions files plan ↔ Roomy files := by
  obtain ⟨table, selector, slot, hPlan⟩ := planFlash_ok h
  have hNvs : ∀ s ∈ segmentsOf files selector slot, ∀ p ∈ table, p.isNvs = true →
      Disjoint s.extent.addresses p.addresses := by
    intro s hs p hp hKind
    rw [← hPlan.segments] at hs
    refine hPlan.keeps s hs p ?_
    rw [hPlan.preserved]
    exact List.mem_filter.mpr ⟨hp, hKind⟩
  have hNvsSelector := hNvs ⟨.bootSelector, selector.offset, bootSelector⟩ (by simp [segmentsOf])
  have hNvsSlot := hNvs ⟨.application, slot.offset, files.application⟩ (by simp [segmentsOf])
  rw [hPlan.extent_selector] at hNvsSelector
  rw [FlashSegment.extent] at hNvsSlot
  rw [hPlan.inRegions_iff_own, hPlan.roomy_iff, withinOwn_iff hPlan.isSelector hNvsSelector,
    and_iff_right subset_rfl, withinOwn_iff hPlan.isSlot hNvsSlot, and_left_comm]
  exact and_congr_left' addresses_subset_iff

theorem inRegions_narrow : ∃ plan, planFlash narrow = .ok plan ∧
    (InRegions narrow plan ↔ Roomy narrow) := by
  obtain ⟨plan, hPlan⟩ := planFlash_narrow
  exact ⟨plan, hPlan, inRegions_iff hPlan⟩

/-- The file system is in the sector that is erased for the application. -/
theorem slot_overrun : ∃ plan, planFlash narrow = .ok plan ∧ ¬ InRegions narrow plan := by
  obtain ⟨plan, hPlan⟩ := planFlash_narrow
  refine ⟨plan, hPlan, ?_⟩
  obtain ⟨table, selector, slot, h⟩ := planFlash_ok hPlan
  have hSize : ((parsePartitionTable narrow.partitions).toOption.bind
      (List.find? Partition.isSlot)).map (fun p => p.size) = some 40 := by decide +kernel
  rw [h.parsed, Except.toOption, Option.bind_some, h.isSlot, Option.map_some] at hSize
  have hSlot : slot.size = 40 := Option.some.inj hSize
  intro hRegions
  have hSub := (h.inRegions_iff_own.mp hRegions).2.subset h.isSlot
  have hRoom : sectors narrow.application.length ≤ slot.size := addresses_subset_iff.mp hSub
  rw [hSlot] at hRoom
  exact absurd hRoom (by decide)

end regions

end TMEdge.Flasher
