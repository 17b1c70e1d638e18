import TMEdge.Analytics.BucketLog
import TMEdge.Analytics.MetricHistory

/-!
# Counters by name

`src/modules/analytics/application/counter-log.ts`: counts in five-minute and hourly buckets. Times are
whole milliseconds and amounts exact numbers. The frames that are drawn from the buckets are left out.
-/

namespace TMEdge.Analytics

open Library

inductive CounterTierId
  | fine
  | hour
  deriving DecidableEq

structure CounterSpec where
  stepMs : Nat
  capacity : Nat
  period : LogPeriod

def CounterTierId.spec : CounterTierId → CounterSpec
  | .fine => { stepMs := 300000, capacity := 576, period := .day }
  | .hour => { stepMs := 3600000, capacity := 24 * 35, period := .month }

def CounterTierId.name : CounterTierId → Text
  | .fine => js "fine"
  | .hour => js "hour"

def counterTiers : List CounterTierId := [.fine, .hour]

namespace CounterSpec

/-- The start of the bucket that a time is in. -/
def startOf (spec : CounterSpec) (time : Int) : Int := time / spec.stepMs * spec.stepMs

def retention (spec : CounterSpec) : Int := spec.capacity * spec.stepMs

end CounterSpec

def maxKeysPerBucket : Nat := 512

def overflowKey : Text := js "other"

abbrev Counts := JsMap Text ℚ

/-- The open bucket of each tier. -/
abbrev OpenState := CounterTierId → Option (BucketLine Counts)

structure CounterTier where
  buckets : JsMap Int Counts := .empty
  current : Int := -1
  earliest : Option Int := none

namespace CounterTier

def setCounts (counts : Counts) : Counts :=
  counts.entries.foldl (fun bucket e =>
    if 0 < e.2 ∧ bucket.size < maxKeysPerBucket then bucket.set e.1 e.2 else bucket) .empty

def set (tier : CounterTier) (time : Int) (counts : Counts) : CounterTier :=
  { tier with
    buckets := tier.buckets.set time (setCounts counts)
    earliest := GaugeTier.lower tier.earliest time }

/-- The last of the names is kept for the overflow. -/
def count (bucket : Counts) (key : Text) (amount : ℚ) : Counts :=
  let name := if bucket.has key ∨ bucket.size < maxKeysPerBucket - 1 then key else overflowKey
  bucket.set name ((bucket.get name).getD 0 + amount)

/-- What `add` does with one tier. -/
def add (tier : CounterTier) (spec : CounterSpec) (time : Int) (key : Text) (amount : ℚ) :
    CounterTier :=
  let start := spec.startOf time
  if start < tier.current then tier
  else
    match tier.buckets.get start with
    | some bucket => { tier with buckets := tier.buckets.set start (count bucket key amount) }
    | none =>
      { tier with
        buckets := tier.buckets.set start (count .empty key amount)
        earliest := GaugeTier.lower tier.earliest start }

/-- What `roll` does with a tier that time has moved past. -/
def roll (tier : CounterTier) (spec : CounterSpec) (start : Int) : CounterTier :=
  { tier with
    current := start
    buckets := tier.buckets.filterKeys fun time => !decide (time < start - spec.retention) }

/-- The bucket in progress, where it has entries. -/
def openBucket (tier : CounterTier) : Option (BucketLine Counts) :=
  match tier.buckets.get tier.current with
  | some bucket => if 0 < bucket.size then some { t := tier.current, v := fromEntries bucket } else none
  | none => none

/-- A tier as it is read back: the finished buckets, then the open one. -/
def restore (spec : CounterSpec) (now : Int) (lines : List (BucketLine Counts))
    (saved : Option (BucketLine Counts)) : CounterTier :=
  let tier : CounterTier := lines.foldl (fun tier line => tier.set (spec.startOf line.t) line.v) {}
  match saved with
  | some line =>
    if now - spec.retention < line.t ∧ ¬ tier.buckets.has line.t then
      { tier.set line.t line.v with current := line.t }
    else tier
  | none => tier

/-- How many of a name are in the buckets of a range. -/
def sum (tier : CounterTier) (since before : Int) (key : Text) : ℚ :=
  tier.buckets.entries.foldl (fun total e =>
    if since ≤ e.1 ∧ e.1 < before then total + (e.2.get key).getD 0 else total) 0

end CounterTier

structure CounterLog where
  name : Text
  log : BucketLog Counts OpenState
  tiers : CounterTierId → CounterTier
  dirty : Bool := false
  lastSave : Int := 0
  lastPruneDay : Text := []

namespace CounterLog

def stateName (name : Text) : Text := name ++ js "-counters"

def seriesOf (name : Text) (id : CounterTierId) : Text × LogPeriod :=
  (name ++ js "-" ++ id.name, id.spec.period)

def make (name : Text) (log : BucketLog Counts OpenState) (now : Int) : CounterLog :=
  let (state, log) := log.takeState (stateName name)
  { name, log
    tiers := fun id => .restore id.spec now
      (log.load (seriesOf name id).1 (now - id.spec.retention)) (state.bind fun state => state id) }

def earliest (c : CounterLog) : Option Int := (c.tiers .hour).earliest

def save (c : CounterLog) (now : Int) : CounterLog :=
  { c with
    log := c.log.writeState (stateName c.name) fun id => (c.tiers id).openBucket
    dirty := false
    lastSave := now }

/-- `roll` of one tier; the flag says whether one has moved. -/
def rollTier (now : Int) (s : CounterLog × Bool) (id : CounterTierId) : CounterLog × Bool :=
  let tier := s.1.tiers id
  let start := id.spec.startOf now
  if start ≤ tier.current then s
  else
    let log :=
      match if 0 ≤ tier.current then tier.openBucket else none with
      | some line => s.1.log.append (seriesOf s.1.name id).1 (seriesOf s.1.name id).2 line
      | none => s.1.log
    ({ s.1 with log, tiers := Function.update s.1.tiers id (tier.roll id.spec start) }, true)

def roll (c : CounterLog) (now : Int) : CounterLog :=
  let (c, rolled) := counterTiers.foldl (rollTier now) (c, false)
  if rolled then c.save now else c

def add (c : CounterLog) (time : Int) (key : Text) (amount : ℚ) : CounterLog :=
  if amount ≤ 0 then c
  else
    let c := c.roll time
    { c with tiers := fun id => (c.tiers id).add id.spec time key amount, dirty := true }

def pruneTier (now : Int) (name : Text) (log : BucketLog Counts OpenState) (id : CounterTierId) :
    BucketLog Counts OpenState :=
  log.prune (seriesOf name id).1 (seriesOf name id).2 (now - id.spec.retention)

def tick (c : CounterLog) (now : Int) : CounterLog :=
  let c := c.roll now
  let c := if c.dirty ∧ 60000 ≤ now - c.lastSave then c.save now else c
  let day := dayText (dayOf now)
  if day ≠ c.lastPruneDay then
    { c with lastPruneDay := day, log := counterTiers.foldl (pruneTier now c.name) c.log }
  else c

def sum (c : CounterLog) (id : CounterTierId) (since before : Int) (key : Text) : ℚ :=
  (c.tiers id).sum since before key

def close (c : CounterLog) (now : Int) : BucketLog Counts OpenState := (c.save now).log.flush

end CounterLog

/-! ## Calls -/

/-- A call, a line that lands in its file, or a close and what opens the directory next. -/
inductive CounterEvent
  | add (time : Int) (key : Text) (amount : ℚ)
  | tick (now : Int)
  | land
  | restart (now : Int)

def CounterLog.step (c : CounterLog) : CounterEvent → CounterLog
  | .add time key amount => c.add time key amount
  | .tick now => c.tick now
  | .land => { c with log := c.log.land }
  | .restart now => .make c.name (c.close now) now

end TMEdge.Analytics
