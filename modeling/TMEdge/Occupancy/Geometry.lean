import Mathlib.Data.Rat.Floor
import Mathlib.Tactic.Linarith

/-!
# Plan geometry

`src/shared/geometry.ts`. Numbers are rationals. The lens uses trigonometric functions, so what a
pose sees is given from outside (`Lens`); everything else is computed as in the source. A distance
is only ever compared with another one or with a bound, which is done on squares (`within`).
-/

namespace TMEdge.Occupancy

abbrev Point := ℚ × ℚ

structure Rect where
  x : ℚ
  y : ℚ
  width : ℚ
  height : ℚ
  deriving DecidableEq

structure NodePose where
  x : ℚ
  y : ℚ
  heightCm : ℚ
  yawDeg : ℚ
  mirror : Bool
  deriving DecidableEq

structure Lens where
  pixelToFloor : NodePose → ℚ → ℚ → Point
  floorToPixel : NodePose → ℚ → ℚ → Option Point

/-- The square of `Math.hypot`. -/
def hypotSq (x y : ℚ) : ℚ := x * x + y * y

/-- `Math.hypot(…) <= radius`, on the square of the left side. -/
def within (distSq radius : ℚ) : Bool := 0 ≤ radius && distSq ≤ radius * radius

/-- `Math.hypot(…) < radius` -/
def below (distSq radius : ℚ) : Bool := 0 < radius && distSq < radius * radius

def gridW : ℚ := 32

def gridH : ℚ := 24

/-- `pixelAreaCm2` -/
def Lens.pixelAreaCm2 (lens : Lens) (pose : NodePose) (u v : ℚ) : ℚ :=
  let (x₀, y₀) := lens.pixelToFloor pose (u - 1 / 2) (v - 1 / 2)
  let (x₁, y₁) := lens.pixelToFloor pose (u + 1 / 2) (v - 1 / 2)
  let (x₂, y₂) := lens.pixelToFloor pose (u - 1 / 2) (v + 1 / 2)
  |(x₁ - x₀) * (y₂ - y₀) - (y₁ - y₀) * (x₂ - x₀)|

/-- An edge of the polygon, from `b` to `a`, is crossed to the right of `p`. -/
def crosses (p a b : Point) : Bool :=
  (decide (p.2 < a.2) != decide (p.2 < b.2)) &&
    decide (p.1 < (b.1 - a.1) * (p.2 - a.2) / (b.2 - a.2) + a.1)

/-- `pointInPolygon`: the edges are those between a point and the one before it, the last one
before the first. -/
def pointInPolygon (p : Point) (poly : List Point) : Bool :=
  match poly.getLast? with
  | none => false
  | some last =>
    (poly.zip (last :: poly)).foldl (fun inside (a, b) => inside != crosses p a b) false

theorem hypotSq_neg (x y : ℚ) : hypotSq (-x) (-y) = hypotSq x y := by
  simp [hypotSq]

end TMEdge.Occupancy
