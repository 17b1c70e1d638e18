import TMEdge.Library.JsMap
import TMEdge.Library.JsText
import TMEdge.Library.Run

/-!
# Gauges over time

`src/modules/analytics/application/metric-history.ts`: rings of buckets at three resolutions. Values
are exact numbers. What a finished bucket writes to the log, and what a restart reads from it, is left
out.
-/

namespace TMEdge.Analytics

open Library

inductive GaugeTierId
  | raw
  | minute
  | quarter
  deriving DecidableEq

structure GaugeSpec where
  id : GaugeTierId
  stepMs : Nat
  capacity : Nat

/-- The bucket that a time is in. -/
def GaugeSpec.indexOf (spec : GaugeSpec) (time : ℚ) : Int := (time / spec.stepMs).floor

def gaugeTiers : List GaugeSpec :=
  [{ id := .raw, stepMs := 10000, capacity := 420 },
   { id := .minute, stepMs := 60000, capacity := 1560 },
   { id := .quarter, stepMs := 900000, capacity := 3072 }]

/-- A column has one cell for each slot; a cell without a number is `NaN`. -/
abbrev Column := List (Option ℚ)

/-- A missing maximum is `NaN`. -/
structure Stat where
  avg : ℚ
  max : Option ℚ
  deriving DecidableEq

structure Accumulator where
  index : Int := -1
  sum : JsMap Text ℚ := .empty
  count : JsMap Text Nat := .empty
  max : JsMap Text ℚ := .empty

/-- The values of one sample; `none` is missing or not finite. -/
abbrev Values := JsMap Text (Option ℚ)

structure GaugeTier where
  spec : GaugeSpec
  stamps : List Int
  avg : JsMap Text Column := .empty
  max : JsMap Text Column := .empty
  acc : Accumulator := {}
  earliest : Option Int := none

namespace GaugeTier

def make (spec : GaugeSpec) : GaugeTier where
  spec := spec
  stamps := List.replicate spec.capacity (-1)

def slotOf (t : GaugeTier) (index : Int) : Nat := (index.tmod t.spec.capacity).toNat

def column (t : GaugeTier) (map : JsMap Text Column) (metric : Text) : Column :=
  (map.get metric).getD (List.replicate t.spec.capacity none)

/-- A slot that held another bucket is emptied in every column. -/
def claim (t : GaugeTier) (index : Int) : GaugeTier :=
  let slot := t.slotOf index
  if t.stamps[slot]? ≠ some index then
    { t with
      stamps := t.stamps.set slot index
      avg := t.avg.mapValues fun _ c => c.set slot none
      max := t.max.mapValues fun _ c => c.set slot none }
  else t

/-- `earliest` only ever goes down. -/
def lower (earliest : Option Int) (time : Int) : Option Int :=
  match earliest with
  | some e => some (if time < e then time else e)
  | none => some time

def put (t : GaugeTier) (index : Int) (metric : Text) (avg max : ℚ) : GaugeTier :=
  let slot := t.slotOf index
  let t := t.claim index
  { t with
    avg := t.avg.set metric ((t.column t.avg metric).set slot (some avg))
    max := t.max.set metric ((t.column t.max metric).set slot (some max))
    earliest := lower t.earliest (index * t.spec.stepMs) }

def read (t : GaugeTier) (index : Int) (metric : Text) : Option Stat :=
  let slot := t.slotOf index
  if index < 0 ∨ t.stamps[slot]? ≠ some index then none
  else
    match (t.avg.get metric).bind (·[slot]?), (t.max.get metric).bind (·[slot]?) with
    | some (some avg), some max => some { avg, max }
    | _, _ => none

def reader (t : GaugeTier) (metric : Text) : Int → Option Stat :=
  match t.avg.get metric, t.max.get metric with
  | some avg, some max => fun index =>
    let slot := t.slotOf index
    if index < 0 ∨ t.stamps[slot]? ≠ some index then none
    else
      match avg[slot]? with
      | some (some a) => some { avg := a, max := (max[slot]?).getD (some a) }
      | _ => none
  | _, _ => fun _ => none

/-- One finite value of the bucket that is being gathered. -/
def gather (t : GaugeTier) (index : Int) (metric : Text) (value : ℚ) : GaugeTier :=
  let sum := (t.acc.sum.get metric).getD 0 + value
  let count := (t.acc.count.get metric).getD 0 + 1
  let max := (t.acc.max.get metric).elim value fun m => if m < value then value else m
  { t with
    acc := { t.acc with
      sum := t.acc.sum.set metric sum
      count := t.acc.count.set metric count
      max := t.acc.max.set metric max } }.put index metric (sum / count) max

def gatherEntry (index : Int) (t : GaugeTier) (e : Text × Option ℚ) : GaugeTier :=
  match e.2 with
  | some value => t.gather index e.1 value
  | none => t

def record (t : GaugeTier) (time : ℚ) (values : Values) : GaugeTier :=
  let index := t.spec.indexOf time
  if index < t.acc.index then t
  else
    let t := if index ≠ t.acc.index then { t with acc := { index } } else t
    values.entries.foldl (gatherEntry index) t

end GaugeTier

structure MetricHistory where
  tiers : List GaugeTier

namespace MetricHistory

def make : MetricHistory := { tiers := gaugeTiers.map GaugeTier.make }

def record (h : MetricHistory) (call : ℚ × Values) : MetricHistory :=
  { tiers := h.tiers.map fun t => t.record call.1 call.2 }

/-- The oldest moment that anything is retained for. -/
def earliest (h : MetricHistory) : Option Int :=
  h.tiers.foldl (fun out t => t.earliest.elim out fun e => GaugeTier.lower out e) none

end MetricHistory

end TMEdge.Analytics
