import TMEdge.Library.OrderStatistic

/-!
# The background that is learned over a day

`src/edge/staticbg.ts`: every quarter of an hour the frames, each relative to its own median, are
reduced to one median for each pixel, and the background is a quantile of these over a day. Numbers are
exact. A method returns the model that it leaves and what it does besides; `World` runs the calls and
keeps the file. That values of another type are refused when the file is read is left out.
-/

namespace TMEdge.Detect

open Library

/-! ## The model -/

def gridSize : Nat := 768

/-- The constructor refuses another quantile; the lengths of time are lengths. -/
structure StaticBackgroundOptions where
  bucketMs : ℚ
  windowMs : ℚ
  sampleMs : ℚ
  quantile : ℚ
  minBuckets : ℚ
  minSamplesPerBucket : ℚ
  bucketMs_pos : 0 < bucketMs
  windowMs_nonneg : 0 ≤ windowMs
  sampleMs_pos : 0 < sampleMs
  quantile_pos : 0 < quantile
  quantile_lt : quantile < 1

namespace StaticBackgroundOptions

def maxSamples (opts : StaticBackgroundOptions) : Nat := ⌈opts.bucketMs / opts.sampleMs⌉.toNat + 1

def startOf (opts : StaticBackgroundOptions) (time : ℚ) : ℚ :=
  ⌊time / opts.bucketMs⌋ * opts.bucketMs

end StaticBackgroundOptions

structure Bucket where
  start : ℚ
  samples : Int
  rel : List ℚ

/-- The bucket in progress; each row is a frame relative to its median. -/
structure OpenBucket where
  start : ℚ
  rows : List (List ℚ) := []

/-- A bucket as the file has it. -/
structure SavedBucket where
  start : ℚ
  samples : ℚ
  rel : List ℚ

structure Doc where
  version : ℚ := 1
  bucketMs : ℚ
  buckets : List SavedBucket

structure StaticBackground where
  buckets : List Bucket := []
  current : Option OpenBucket := none
  lastSampleAt : Option ℚ := none
  rel : Option (List ℚ) := none
  stale : Bool := false

/-- What a method does besides: it takes the quantile, it closes a bucket, it writes the file. -/
inductive Act
  | recomputed (now : ℚ)
  | closed (bucket : OpenBucket)
  | saved (doc : Doc)

/-- The values of one pixel. -/
def column (rows : List (List ℚ)) (i : Nat) : List ℚ := rows.map fun row => row.getD i 0

/-- The quantile of the buckets, pixel by pixel. -/
def learn (quantile : ℚ) (buckets : List Bucket) : List ℚ :=
  (List.range gridSize).map fun i =>
    quantileSorted (ascending (column (buckets.map Bucket.rel) i)) quantile

def OpenBucket.toBucket (cur : OpenBucket) : Bucket where
  start := cur.start
  samples := cur.rows.length
  rel := (List.range gridSize).map fun i => median (column cur.rows i)

namespace StaticBackground

variable (opts : StaticBackgroundOptions)

def voting (m : StaticBackground) (now : ℚ) : List Bucket :=
  m.buckets.filter fun b => now - opts.windowMs ≤ b.start ∧ b.start ≤ now

def recompute (m : StaticBackground) (now : ℚ) : StaticBackground :=
  let keep := m.voting opts now
  { m with
    stale := false
    buckets := keep
    rel := if (keep.length : ℚ) < opts.minBuckets then none else some (learn opts.quantile keep) }

/-- `round` is what a value is written as. -/
def toDoc (round : ℚ → ℚ) (m : StaticBackground) : Doc where
  bucketMs := opts.bucketMs
  buckets := m.buckets.map fun b =>
    { start := b.start, samples := b.samples, rel := b.rel.map round }

def close (round : ℚ → ℚ) (m : StaticBackground) (now : ℚ) : StaticBackground × List Act :=
  match m.current with
  | none => (m, [])
  | some cur =>
    if (cur.rows.length : ℚ) < opts.minSamplesPerBucket then ({ m with current := none }, [])
    else
      let m := { m with
        current := none
        buckets := m.buckets ++ [cur.toBucket] }.recompute opts now
      (m, [.closed cur, .recomputed now, .saved (m.toDoc opts round)])

/-- The quantile is taken again when the file has been read and when a bucket is too old. -/
def refresh (m : StaticBackground) (now : ℚ) : StaticBackground × List Act :=
  if m.stale ∨ m.buckets.head?.any (·.start < now - opts.windowMs) then
    (m.recompute opts now, [.recomputed now])
  else (m, [])

/-- A frame goes into the bucket in progress, unless one did a moment ago or the bucket is full. -/
def sample (m : StaticBackground) (temps : List ℚ) (time : ℚ) : StaticBackground :=
  if m.lastSampleAt.any (time - · < opts.sampleMs) then m
  else
    let cur := m.current.getD { start := opts.startOf time }
    if opts.maxSamples ≤ cur.rows.length then { m with current := some cur }
    else
      let level := median temps
      { m with
        lastSampleAt := some time
        current := some { cur with rows := cur.rows ++ [temps.map (· - level)] } }

/-- The temperatures of a frame, if there is one for each pixel and all are finite. -/
def readFrame (temps : List (Option ℚ)) : Option (List ℚ) :=
  if temps.length ≠ gridSize then none else temps.mapM id

def add (round : ℚ → ℚ) (m : StaticBackground) (temps : List (Option ℚ)) (time : Option ℚ) :
    StaticBackground × List Act :=
  match time, readFrame temps with
  | some time, some temps =>
    let (m, acts) := m.refresh opts time
    let (m, more) :=
      if m.current.any (·.start ≠ opts.startOf time) then m.close opts round time else (m, [])
    (m.sample opts temps time, acts ++ more)
  | _, _ => (m, [])

def backgroundFor (m : StaticBackground) (level : ℚ) : Option (List ℚ) :=
  m.rel.map fun rel => rel.map (level + ·)

structure State where
  ready : Bool
  buckets : Nat
  hours : ℚ
  windowHours : ℚ

def state (m : StaticBackground) (now : ℚ) : StaticBackground × List Act × State :=
  let (m, acts) := m.refresh opts now
  let voting := m.voting opts now
  let first := (voting.head?.map Bucket.start).getD now
  (m, acts,
    { ready := m.rel.isSome
      buckets := voting.length
      hours := if voting = [] then 0 else ⌊(now - first) / 3600000 * 10 + 1 / 2⌋ / 10
      windowHours := opts.windowMs / 3600000 })

/-- What `load` takes for a bucket. -/
def acceptable (taken : List Bucket) (b : SavedBucket) : Bool :=
  (b.start / opts.bucketMs).den = 1 && b.start ∉ taken.map Bucket.start && b.samples.den = 1 &&
    opts.minSamplesPerBucket ≤ b.samples && b.samples ≤ opts.maxSamples && b.rel.length = gridSize

def loadBucket (taken : List Bucket) (b : SavedBucket) : List Bucket :=
  if acceptable opts taken b then
    taken ++ [{ start := b.start, samples := b.samples.num, rel := b.rel }]
  else taken

/-- `size` is the length of the file in bytes. -/
def load (size : Doc → Nat) (file : Option Doc) : StaticBackground :=
  match file with
  | none => {}
  | some doc =>
    if 4 * 1024 * 1024 < size doc then {}
    else if doc.version ≠ 1 ∨ doc.bucketMs ≠ opts.bucketMs ∨
        ⌈opts.windowMs / opts.bucketMs⌉ + 1 < doc.buckets.length then {}
    else
      { buckets := (doc.buckets.foldl (loadBucket opts) []).mergeSort fun a b => a.start ≤ b.start
        stale := true }

end StaticBackground

/-! ## Runs -/

/-- The model and its file; the buckets that were closed, and the time of the quantile that the buckets
of the model and those of the file were kept by. -/
structure World where
  model : StaticBackground := {}
  file : Option Doc := none
  closed : List OpenBucket := []
  recomputedAt : Option ℚ := none
  savedAt : Option ℚ := none

namespace World

def act (writes : Bool) (w : World) : Act → World
  | .recomputed now => { w with recomputedAt := some now }
  | .closed bucket => { w with closed := w.closed ++ [bucket] }
  | .saved doc => if writes then { w with file := some doc, savedAt := w.recomputedAt } else w

/-- A frame, where `writes` says whether the file can be written; a look at the state; a restart. -/
inductive Event
  | add (temps : List (Option ℚ)) (time : Option ℚ) (writes : Bool)
  | state (now : ℚ)
  | restart

def Event.time? : Event → Option ℚ
  | .add _ time _ => time
  | .state now => some now
  | .restart => none

variable (opts : StaticBackgroundOptions) (round : ℚ → ℚ) (size : Doc → Nat)

def after (w : World) (writes : Bool) (result : StaticBackground × List Act) : World :=
  result.2.foldl (act writes) { w with model := result.1 }

def step (w : World) : Event → World
  | .add temps time writes => w.after writes (w.model.add opts round temps time)
  | .state now => w.after false ((w.model.state opts now).1, (w.model.state opts now).2.1)
  | .restart =>
    let model := StaticBackground.load opts size w.file
    { w with model, recomputedAt := if model.stale then w.savedAt else none }

end World

end TMEdge.Detect
