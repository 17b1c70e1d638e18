import Mathlib.Data.Rat.Floor
import Mathlib.Tactic.Linarith

/-!
# Occupancy settings

`OccupancyOptions` and `setOptions` of `src/edge/occupancy.ts`. Settings are finite numbers,
here rationals.

* `setOptions_ok`: what an accepted change of one setting leaves.
-/

namespace TMEdge.Occupancy

structure OccupancyOptions where
  staleMs : ℚ
  releaseMs : ℚ
  seatRadiusCm : ℚ
  enterWindow : ℚ
  enterMin : ℚ
  mergeCm : ℚ
deriving DecidableEq

/-- `DEFAULT_OCCUPANCY` -/
def defaultOccupancy : OccupancyOptions where
  staleMs := 10000
  releaseMs := 20000
  seatRadiusCm := 80
  enterWindow := 5
  enterMin := 3
  mergeCm := 50

/-- The fields of `OccupancyOptions`. -/
inductive EdgeParam
  | seatRadiusCm | mergeCm | enterWindow | enterMin | releaseMs | staleMs
deriving DecidableEq

def OccupancyOptions.get (o : OccupancyOptions) : EdgeParam → ℚ
  | .seatRadiusCm => o.seatRadiusCm
  | .mergeCm => o.mergeCm
  | .enterWindow => o.enterWindow
  | .enterMin => o.enterMin
  | .releaseMs => o.releaseMs
  | .staleMs => o.staleMs

def OccupancyOptions.set (o : OccupancyOptions) (p : EdgeParam) (v : ℚ) : OccupancyOptions :=
  match p with
  | .seatRadiusCm => { o with seatRadiusCm := v }
  | .mergeCm => { o with mergeCm := v }
  | .enterWindow => { o with enterWindow := v }
  | .enterMin => { o with enterMin := v }
  | .releaseMs => { o with releaseMs := v }
  | .staleMs => { o with staleMs := v }

def clamp (v lo hi : ℚ) : ℚ := min hi (max lo v)

/-- `Math.round`: halves go up. -/
def round (v : ℚ) : ℚ := ⌊v + 1 / 2⌋

/-- What `setOptions` makes of a value: clamped, and rounded if it counts frames. -/
def settle (p : EdgeParam) (v : ℚ) : ℚ :=
  match p with
  | .staleMs => clamp v 2000 120000
  | .releaseMs => clamp v 2000 300000
  | .seatRadiusCm => clamp v 20 300
  | .enterWindow => round (clamp v 1 60)
  | .enterMin => round (clamp v 1 60)
  | .mergeCm => clamp v 0 200

/-- `setOptions` with a patch of one field. -/
def setOptions (o : OccupancyOptions) (p : EdgeParam) (v : ℚ) : Except String OccupancyOptions :=
  let next := o.set p (settle p v)
  if next.enterWindow < next.enterMin then .error "enterMin cannot exceed enterWindow" else .ok next

@[simp] theorem get_set (o : OccupancyOptions) (p q : EdgeParam) (v : ℚ) :
    (o.set p v).get q = if q = p then v else o.get q := by
  cases p <;> cases q <;> rfl

/-- The window holds as many frames as it needs. -/
def OccupancyOptions.Consistent (o : OccupancyOptions) : Prop := o.enterMin ≤ o.enterWindow

theorem setOptions_ok {o o' : OccupancyOptions} {p : EdgeParam} {v : ℚ} :
    setOptions o p v = .ok o' ↔ o' = o.set p (settle p v) ∧ o'.Consistent := by
  unfold setOptions
  dsimp only
  split
  · rename_i hWindow
    constructor
    · intro h
      cases h
    · rintro ⟨rfl, hConsistent⟩
      exact absurd hConsistent (not_le.mpr hWindow)
  · rename_i hWindow
    constructor
    · intro h
      cases h
      exact ⟨rfl, not_lt.mp hWindow⟩
    · rintro ⟨rfl, _⟩
      rfl

end TMEdge.Occupancy
