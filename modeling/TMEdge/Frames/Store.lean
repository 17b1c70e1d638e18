import TMEdge.Library.JsMap
import TMEdge.Library.JsText

/-!
# Pictures and the reports they are paired with

The model of `FrameStore` (`algo/frames.ts`). Numbers are exact. A picture carries the boot it was
taken in, and a report that waits or has been paired carries itself; the store has neither, and no
function here looks at them.
-/

namespace TMEdge.Frames

open Library List JsMap

def ringFrames : Nat := 360

def totalFrames : Nat := 8192

def maxRings : Nat := 256

def maxPending : Nat := 64

structure DeviceDetection where
  x : ℚ
  y : ℚ
  area : ℚ
  contrast : ℚ
  peak : ℚ
  heat : ℚ
  deriving DecidableEq

structure RawFrameMessage where
  uid : Text
  frame : Nat
  tMin : ℚ
  step : ℚ
  pixels : List ℚ
  receivedAt : ℚ
  deriving DecidableEq

/-- A REPORT, with the fields of its detections that are kept. -/
structure Report where
  uid : Text
  frame : Nat
  dets : List DeviceDetection
  flags : Nat
  boot : Nat
  deriving DecidableEq

structure FramePair where
  frame : Nat
  uid : Text
  receivedAt : ℚ
  temps : List ℚ
  tMin : ℚ
  step : ℚ
  deviceDetections : Option (List DeviceDetection)
  deviceFlags : Option Nat
  /-- The boot the picture was taken in. -/
  boot : Nat
  /-- The report its detections were taken from. -/
  source : Option Report
  deriving DecidableEq

structure Waiting where
  dets : List DeviceDetection
  flags : Nat
  source : Report
  deriving DecidableEq

structure Ring where
  frames : List FramePair
  pending : JsMap Nat Waiting
  boot : Option Nat

abbrev Rings := JsMap Text Ring

def Ring.empty : Ring := ⟨[], .empty, none⟩

/-- `ring`: the ring of a node, made if there is none. -/
def ring (rings : Rings) (uid : Text) : Rings × Ring :=
  match rings.get uid with
  | some r => (rings, r)
  | none =>
    let rings := if maxRings ≤ rings.size then
      match rings.keys with
      | [] => rings
      | first :: _ => rings.delete first
    else rings
    (rings.set uid .empty, .empty)

/-- The node whose first picture is the oldest, the first of them. -/
def oldest (rings : Rings) : Option (Text × ℚ) :=
  rings.entries.foldl (fun best e =>
    match e.2.frames with
    | [] => best
    | f :: _ =>
      match best with
      | none => some (e.1, f.receivedAt)
      | some (_, t) => if f.receivedAt < t then some (e.1, f.receivedAt) else best) none

def dropOldest (rings : Rings) : Rings :=
  match oldest rings with
  | none => rings
  | some (uid, _) =>
    match rings.get uid with
    | none => rings
    | some r => rings.set uid { r with frames := r.frames.tail }

/-- The loop over what is too much. -/
@[irreducible] def trim (rings : Rings) : Rings :=
  let total := (rings.values.map fun r => r.frames.length).sum
  dropOldest^[total - totalFrames] rings

/-- The pair of a message and the report that waits for it. -/
def pairOf (msg : RawFrameMessage) (boot : Nat) (waiting : Option Waiting) : FramePair where
  frame := msg.frame
  uid := msg.uid
  receivedAt := msg.receivedAt
  temps := (List.range 768).map fun i => msg.tMin + msg.pixels.getD i 0 * msg.step
  tMin := msg.tMin
  step := msg.step
  deviceDetections := waiting.map Waiting.dets
  deviceFlags := waiting.map Waiting.flags
  boot := boot
  source := waiting.map Waiting.source

def addRaw (rings : Rings) (msg : RawFrameMessage) (boot : Nat) : Rings × FramePair :=
  let (rings, r) := ring rings msg.uid
  let pair := pairOf msg boot (r.pending.get msg.frame)
  let frames := r.frames ++ [pair]
  let frames := if ringFrames < frames.length then frames.tail else frames
  let r := { r with frames := frames, pending := r.pending.delete msg.frame }
  (trim (rings.set msg.uid r), pair)

/-- The first picture with the number of the report is given it. -/
def attach (rep : Report) : List FramePair → Option (List FramePair)
  | [] => none
  | f :: fs =>
    if f.frame = rep.frame then
      some ({ f with
        deviceDetections := some rep.dets
        deviceFlags := some rep.flags
        source := some rep } :: fs)
    else (attach rep fs).map (f :: ·)

/-- What is kept of the pending reports. -/
def bounded (pending : JsMap Nat Waiting) : JsMap Nat Waiting :=
  if maxPending < pending.size then
    match pending.keys.min? with
    | none => pending
    | some k => pending.delete k
  else pending

/-- The ring of a node, cleared where it is of another boot. -/
def ringFor (rings : Rings) (uid : Text) (boot : Option Nat) : Rings × Ring :=
  let (rings, r) := ring rings uid
  if boot.isSome = true ∧ r.boot.isSome = true ∧ r.boot ≠ boot then ring (rings.delete uid) uid
  else (rings, r)

/-- `addReport`; `boot` is its last argument, which may be left out. -/
def addReport (rings : Rings) (rep : Report) (boot : Option Nat) : Rings :=
  let (rings, r) := ringFor rings rep.uid boot
  let r := if boot.isSome then { r with boot := boot } else r
  match attach rep r.frames with
  | some frames => rings.set rep.uid { r with frames := frames }
  | none =>
    let pending := r.pending.set rep.frame ⟨rep.dets, rep.flags, rep⟩
    rings.set rep.uid { r with pending := bounded pending }

def list (rings : Rings) (uid : Text) : List FramePair := ((rings.get uid).map Ring.frames).getD []

/-! ## Rings after an operation -/

variable {rings : Rings} {uid u : Text} {r x : Ring} {rep : Report} {f : FramePair}

/-- Its ring, or an empty one. -/
def ringOf (rings : Rings) (uid : Text) : Ring := (rings.get uid).getD .empty

theorem ring_snd (rings : Rings) (uid : Text) : (ring rings uid).2 = ringOf rings uid := by
  unfold ring ringOf
  cases rings.get uid <;> rfl

theorem get_ring_of_ne (hNe : u ≠ uid) (h : (ring rings uid).1.get u = some x) :
    rings.get u = some x := by
  unfold ring at h
  cases hGet : rings.get uid with
  | some r => rwa [hGet] at h
  | none =>
    rw [hGet] at h
    dsimp only at h
    rw [get_set, if_neg hNe] at h
    split at h
    · split at h
      · exact h
      · rw [get_delete] at h
        split at h
        · cases h
        · exact h
    · exact h

/-- A ring from which pictures have been dropped. -/
structure Ring.Part (x r : Ring) : Prop where
  frames : x.frames ⊆ r.frames
  pending : x.pending = r.pending

theorem get_dropOldest (h : (dropOldest rings).get u = some x) :
    ∃ r, rings.get u = some r ∧ x.Part r := by
  unfold dropOldest at h
  split at h
  · exact ⟨x, h, fun _ hf => hf, rfl⟩
  · rename_i uid t _
    split at h
    · exact ⟨x, h, fun _ hf => hf, rfl⟩
    · rename_i r hGet
      rw [get_set] at h
      split at h
      · rename_i hEq
        cases h
        exact ⟨r, hEq ▸ hGet, tail_subset _, rfl⟩
      · exact ⟨x, h, fun _ hf => hf, rfl⟩

theorem get_iterate_dropOldest (n : Nat) (h : (dropOldest^[n] rings).get u = some x) :
    ∃ r, rings.get u = some r ∧ x.Part r := by
  induction n generalizing rings with
  | zero => exact ⟨x, h, fun _ hf => hf, rfl⟩
  | succ n ih =>
    obtain ⟨y, hy, hPart⟩ := ih h
    obtain ⟨r, hr, hPart'⟩ := get_dropOldest hy
    exact ⟨r, hr, fun _ hf => hPart'.frames (hPart.frames hf), hPart.pending.trans hPart'.pending⟩

theorem get_trim (h : (trim rings).get u = some x) : ∃ r, rings.get u = some r ∧ x.Part r := by
  unfold trim at h
  exact get_iterate_dropOldest _ h

/-- Another node's ring. -/
theorem get_addRaw_of_ne {msg : RawFrameMessage} {boot : Nat} (hNe : u ≠ msg.uid)
    (h : (addRaw rings msg boot).1.get u = some x) : ∃ r, rings.get u = some r ∧ x.Part r := by
  unfold addRaw at h
  dsimp only at h
  obtain ⟨y, hy, hPart⟩ := get_trim h
  rw [get_set, if_neg hNe] at hy
  exact ⟨y, get_ring_of_ne hNe hy, hPart⟩

theorem addRaw_snd (rings : Rings) (msg : RawFrameMessage) (boot : Nat) :
    (addRaw rings msg boot).2 = pairOf msg boot ((ringOf rings msg.uid).pending.get msg.frame) := by
  unfold addRaw
  dsimp only
  rw [ring_snd]

/-- The node's own. -/
theorem get_addRaw_self {msg : RawFrameMessage} {boot : Nat}
    (h : (addRaw rings msg boot).1.get msg.uid = some x) :
    (∀ f ∈ x.frames, f ∈ (ringOf rings msg.uid).frames ∨ f = (addRaw rings msg boot).2) ∧
      x.pending = (ringOf rings msg.uid).pending.delete msg.frame := by
  unfold addRaw at h ⊢
  dsimp only at h ⊢
  obtain ⟨y, hy, hPart⟩ := get_trim h
  rw [get_set, if_pos rfl] at hy
  cases hy
  rw [← ring_snd]
  refine ⟨fun f hf => ?_, hPart.pending⟩
  have hMem := hPart.frames hf
  dsimp only at hMem
  split at hMem
  · exact (mem_append.mp (mem_of_mem_tail hMem)).imp_right mem_singleton.mp
  · exact (mem_append.mp hMem).imp_right mem_singleton.mp

/-- The ring a report finds: the node's, unless it is cleared. -/
def found (rings : Rings) (rep : Report) : Ring :=
  let r := ringOf rings rep.uid
  if r.boot.isSome = true ∧ r.boot ≠ some rep.boot then .empty else r

/-- What the report makes of it. -/
def received (r : Ring) (rep : Report) : Ring :=
  match attach rep r.frames with
  | some frames => { r with boot := some rep.boot, frames := frames }
  | none => { r with
      boot := some rep.boot
      pending := bounded (r.pending.set rep.frame ⟨rep.dets, rep.flags, rep⟩) }

theorem ringFor_snd (rings : Rings) (rep : Report) :
    (ringFor rings rep.uid (some rep.boot)).2 = found rings rep := by
  unfold ringFor found
  dsimp only
  rw [ring_snd]
  by_cases hClear : (ringOf rings rep.uid).boot.isSome = true ∧
      (ringOf rings rep.uid).boot ≠ some rep.boot
  · rw [if_pos ⟨rfl, hClear⟩, if_pos hClear, ring_snd, ringOf, get_delete, if_pos rfl]
    rfl
  · rw [if_neg fun h => hClear h.2, if_neg hClear]

theorem get_ringFor_of_ne {boot : Option Nat} (hNe : u ≠ uid)
    (h : (ringFor rings uid boot).1.get u = some x) : rings.get u = some x := by
  unfold ringFor at h
  dsimp only at h
  split at h
  · have hBack := get_ring_of_ne hNe h
    rw [get_delete, if_neg hNe] at hBack
    exact get_ring_of_ne hNe hBack
  · exact get_ring_of_ne hNe h

theorem get_addReport_self (rings : Rings) (rep : Report) :
    (addReport rings rep (some rep.boot)).get rep.uid = some (received (found rings rep) rep) := by
  unfold addReport received
  simp only [ringFor_snd, Option.isSome_some, if_true]
  split
  · rw [get_set, if_pos rfl]
  · rw [get_set, if_pos rfl]

theorem get_addReport_of_ne (hNe : u ≠ rep.uid)
    (h : (addReport rings rep (some rep.boot)).get u = some x) : rings.get u = some x := by
  unfold addReport at h
  dsimp only at h
  split at h
  · rw [get_set, if_neg hNe] at h
    exact get_ringFor_of_ne hNe h
  · rw [get_set, if_neg hNe] at h
    exact get_ringFor_of_ne hNe h

end TMEdge.Frames
