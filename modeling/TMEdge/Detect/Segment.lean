import Mathlib.Order.WithBot
import TMEdge.Detect.StaticBackground
import TMEdge.Library.BreadthFirst

/-!
# Finding people in a frame

`src/edge/edgedetect.ts`: the difference to the background is cut at a threshold, each 8-connected
component is split at the peaks of a smoothed difference, and parts are dropped by area and peak. A
picture is a function of the pixel, in raster order; numbers are exact. `-Infinity` is `⊥`.
-/

namespace TMEdge.Detect

open Library

/-- A value for each pixel. -/
abbrev Picture := Nat → ℚ

def gridW : Nat := 32
def gridH : Nat := 24
/-- Most pixels are background, so that their spread is the noise of the sensor. -/
def madToSigma : ℚ := 7413 / 5000
def minSigmaC : ℚ := 2 / 25
def globalShiftFraction : ℚ := 2 / 5
def maxPeaks : Nat := 32
def maxDetections : Nat := 24

structure SegmentParams where
  minContrast : ℚ
  minPeak : ℚ
  noiseK : ℚ
  minArea : ℚ
  maxArea : ℚ
  splitSep : ℚ

def defaultSegment : SegmentParams where
  minContrast := 3 / 5
  minPeak := 6 / 5
  noiseK := 4
  minArea := 1
  maxArea := 60
  splitSep := 19 / 10

structure Detection where
  x : ℚ
  y : ℚ
  area : Nat
  contrast : ℚ
  peak : WithBot ℚ
  heat : ℚ

structure Segmentation where
  detections : List Detection
  globalShift : Bool
  truncated : Bool
  threshold : ℚ
  diff : Picture
  foreground : Nat → Bool

/-! ## The pixels around a pixel -/

/-- The steps of the loops over `dy` and `dx`. -/
def offsets : List (Int × Int) :=
  [-1, 0, 1].flatMap fun dy => [-1, 0, 1].map fun dx => (dx, dy)

def neighbour (i : Nat) (o : Int × Int) : Option Nat :=
  let nx := (i % gridW : Nat) + o.1
  let ny := (i / gridW : Nat) + o.2
  if nx < 0 ∨ gridW ≤ nx ∨ ny < 0 ∨ gridH ≤ ny then none else some (ny * gridW + nx).toNat

def around (i : Nat) : List Nat := offsets.filterMap (neighbour i)

/-- `[1, 2, 1]` in both directions. -/
def kernel (o : Int × Int) : ℚ :=
  let k := [1, 2, 1]
  k.getD (o.1 + 1).toNat 0 * k.getD (o.2 + 1).toNat 0

/-- The mean of what is positive, weighted and over the pixels that the picture has. -/
def smoothPositive (d : Picture) : Picture := fun i =>
  let cells := offsets.filterMap fun o => (neighbour i o).map fun j => (kernel o, j)
  (cells.map fun c => c.1 * max 0 (d c.2)).sum / (cells.map (·.1)).sum

/-! ## Components -/

def warmAround (foreground : Nat → Bool) (visited : List Nat) (i : Nat) : List Nat :=
  (around i).filter fun j => foreground j && !visited.contains j

/-- `members` is its own queue. -/
def flood (foreground : Nat → Bool) (visited : List Nat) (start : Nat) : List Nat :=
  breadthFirst id (warmAround foreground) gridSize (visited ++ [start]) [start]

/-- The lists that the loop over `start` fills. -/
def floods (foreground : Nat → Bool) : List Nat → List Nat → List (List Nat)
  | [], _ => []
  | start :: rest, visited =>
    if !foreground start || visited.contains start then floods foreground rest visited
    else
      let members := flood foreground visited start
      members :: floods foreground rest (visited ++ members)

/-! ## Parts of a component -/

/-- A local maximum; of equal neighbours the first in raster order. -/
def isMax (smooth : Picture) (i : Nat) : Bool :=
  (around i).all fun j => j == i || !(smooth i < smooth j || (smooth j == smooth i && j < i))

def distance2 (i j : Nat) : ℚ :=
  (((i % gridW : Nat) : ℚ) - (j % gridW : Nat)) ^ 2 +
    (((i / gridW : Nat) : ℚ) - (j / gridW : Nat)) ^ 2

/-- Strongest first; a peak closer than `splitSep` to a stronger one is the same person. -/
def thinned (sep2 : ℚ) (peaks : List Nat) : List Nat :=
  peaks.foldl
    (fun kept a => if kept.any fun b => distance2 a b < sep2 then kept else kept ++ [a]) []

def peaksOf (smooth : Picture) (p : SegmentParams) (members : List Nat) : List Nat :=
  let peaks := (members.filter (isMax smooth)).take maxPeaks
  thinned (p.splitSep * p.splitSep) (peaks.mergeSort fun a b => smooth b ≤ smooth a)

/-- The place of the nearest peak, and how far it is: `best` and `bestD2`. -/
def nearestStep (i : Nat) (best : Nat × Option ℚ) (peak : Nat × Nat) : Nat × Option ℚ :=
  let d2 := distance2 i peak.1
  match best.2 with
  | none => (peak.2, some d2)
  | some bestD2 => if d2 < bestD2 then (peak.2, some d2) else best

def nearest (peaks : List Nat) (i : Nat) : Nat :=
  (peaks.zipIdx.foldl (nearestStep i) (0, none)).1

structure Part where
  w : ℚ := 0
  x : ℚ := 0
  y : ℚ := 0
  area : Nat := 0
  peakD : ℚ := 0
  peakT : WithBot ℚ := ⊥

def Part.add (temps : List ℚ) (diff : Picture) (a : Part) (i : Nat) : Part :=
  let d := diff i
  let w := max 0 d
  { w := a.w + w
    x := a.x + w * ((i % gridW : Nat) + 1 / 2)
    y := a.y + w * ((i / gridW : Nat) + 1 / 2)
    area := a.area + 1
    peakD := max a.peakD d
    peakT := max a.peakT (match temps[i]? with | some t => (t : WithBot ℚ) | none => ⊥) }

def Part.detection (a : Part) : Detection :=
  { x := a.x / a.w, y := a.y / a.w, area := a.area, contrast := a.peakD, peak := a.peakT,
    heat := a.w }

def Part.dropped (p : SegmentParams) (a : Part) : Bool :=
  a.area < p.minArea || p.maxArea < a.area || a.peakD < p.minPeak || a.w ≤ 0

/-- What `acc` holds when all members are added. -/
def partsOf (temps : List ℚ) (diff : Picture) (peaks members : List Nat) : List Part :=
  members.foldl (fun acc i => acc.modify (nearest peaks i) fun a => a.add temps diff i)
    (peaks.map fun _ => {})

/-- The detections that a component adds. -/
def splitComponent (members : List Nat) (temps : List ℚ) (diff smooth : Picture)
    (p : SegmentParams) : List Detection :=
  let peaks := peaksOf smooth p members
  if peaks = [] then []
  else ((partsOf temps diff peaks members).filter fun a => !a.dropped p).map Part.detection

/-! ## A frame -/

def difference (temps background : List ℚ) : Picture := fun i =>
  temps.getD i 0 - background.getD i 0

def thresholdOf (diff : Picture) (p : SegmentParams) : ℚ :=
  let values := (List.range gridSize).map diff
  let mid := median values
  let sigma := max minSigmaC (madToSigma * median (values.map fun d => |d - mid|))
  max p.minContrast (p.noiseK * sigma)

/-- The detections before there are too many. -/
def found (temps : List ℚ) (diff : Picture) (foreground : Nat → Bool) (p : SegmentParams) :
    List Detection :=
  let smooth := smoothPositive diff
  (floods foreground (List.range gridSize) []).flatMap fun members =>
    splitComponent members temps diff smooth p

/-- Find people in `temps` against `background`. -/
def segment (temps background : List ℚ) (p : SegmentParams) : Segmentation :=
  let diff := difference temps background
  let threshold := thresholdOf diff p
  let foreground : Nat → Bool := fun i => threshold < diff i
  let cells := (List.range gridSize).countP foreground
  if globalShiftFraction * gridSize < cells then
    { detections := [], globalShift := true, truncated := false, threshold, diff, foreground }
  else
    let detections := found temps diff foreground p
    { detections := detections.take maxDetections, globalShift := false,
      truncated := maxDetections < detections.length, threshold, diff, foreground }

end TMEdge.Detect
