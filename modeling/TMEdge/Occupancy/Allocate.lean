import Mathlib.Data.List.MinMax
import TMEdge.Library.JsSort
import TMEdge.Library.Lists
import TMEdge.Occupancy.Engine

/-!
# Which tables a group is sent to

`src/shared/allocate.ts`. `walkOrder` sorts the tables of a floor with a comparison that takes two
tables for one row when their centres are within three quarters of a row, which need not be
consistent; `allocate` looks for the best run of tables in that order.

* `allocate_spec`: the run is the shortest that fits, and of those the one that wastes least.
* `wellOrdered_iff`: when the order is that of rows.
-/

namespace TMEdge.Occupancy

open Library List

structure TableShare where
  tableId : Text
  name : Text
  take : Int
  deriving DecidableEq

structure Allocation where
  shares : List TableShare
  label : Text
  seats : Int
  waste : Int
  deriving DecidableEq

/-! ## Walking order -/

def centreY (t : TableState) : ℚ := t.rect.y + t.rect.height / 2

def rowHeight (tables : List TableState) : ℚ :=
  (tables.map fun t => t.rect.height).foldl max 1

/-- The comparison of `walkOrder`. -/
def walkCompare (rowHeight : ℚ) (a b : TableState) : ℚ :=
  if rowHeight * (3 / 4) < |centreY a - centreY b| then centreY a - centreY b
  else a.rect.x - b.rect.x

def walkOrder (js : JsSort) (tables : List TableState) : List TableState :=
  js.sort (walkCompare (rowHeight tables)) tables

/-! ## The label -/

def isDigit (c : UInt16) : Bool := 48 ≤ c && c ≤ 57

/-- What `.` leaves out. -/
def isLineEnd (c : UInt16) : Bool := c = 10 || c = 13 || c = 0x2028 || c = 0x2029

/-- A natural number as the nearest double, halves to even; `none` is infinity. -/
def toDouble (n : Nat) : Option Nat :=
  let unit := 2 ^ (n.log2 - 52)
  let odd := n / unit % 2
  let nearest := (n + (unit - 1 + odd) / 2) / unit * unit
  if nearest < 2 ^ 1024 then some nearest else none

/-- `/^(.*?)(\d+)$/`: the digits at the end, and what is before them. -/
def splitNumber (name : Text) : Option (Text × Option Nat) :=
  let digits := (name.reverse.takeWhile isDigit).reverse
  let start := (name.reverse.dropWhile isDigit).reverse
  if digits = [] || start.any isLineEnd then none
  else some (start, toDouble (digits.foldl (fun n c => 10 * n + (c.toNat - 48)) 0))

/-- Names go on from one number. -/
def stepsOn (start : Text) : Option Nat → List Text → Bool
  | _, [] => true
  | n, name :: names =>
    match splitNumber name with
    | some (start', n') => start' = start && n' = n.bind (fun n => toDouble (n + 1)) &&
        stepsOn start n' names
    | none => false

def consecutive : List Text → Bool
  | [] => false
  | name :: names =>
    match splitNumber name with
    | some (start, n) => stepsOn start n names
    | none => false

/-- `names.join(', ')` -/
def joined (names : List Text) : Text := (names.intersperse (js ", ")).flatten

def label (names : List Text) : Text :=
  match names.head?, names.getLast? with
  | some first, some last =>
    if names.length = 1 then js "Table " ++ first
    else if consecutive names then js "Tables " ++ first ++ [0x2013] ++ last
    else js "Tables " ++ joined names
  | _, _ => js "No table"

/-! ## The search -/

/-- A table with no live count is a wall. -/
def openSeats (t : TableState) : Int := if t.status = .unknown then 0 else t.free.getD 0

/-- `best`: a run of tables and what it wastes. -/
structure Best where
  start : Nat
  length : Nat
  waste : Int
  deriving DecidableEq

/-- The inner loop, with `sum` seats at `length` tables so far. -/
def reachRun (n : Int) (start : Nat) : List Int → Int → Nat → Option Best
  | [], _, _ => none
  | free :: rest, sum, length =>
    if free = 0 then none
    else if n ≤ sum + free then some { start, length := length + 1, waste := sum + free - n }
    else reachRun n start rest (sum + free) (length + 1)

def better (best : Option Best) (found : Best) : Option Best :=
  match best with
  | none => some found
  | some b =>
    if found.length < b.length ∨ found.length = b.length ∧ found.waste < b.waste then some found
    else some b

/-- The two loops of `allocate`. -/
def bestRun (n : Int) (free : List Int) : Option Best :=
  (List.range free.length).foldl (fun best i =>
    match reachRun n i (free.drop i) 0 0 with
    | some found => better best found
    | none => best) none

/-- The group is split over the tables of a run. -/
def shareOut : List TableState → Int → List TableShare
  | [], _ => []
  | t :: rest, left =>
    if left ≤ 0 then []
    else
      let take := min (openSeats t) left
      if take ≤ 0 then shareOut rest left
      else { tableId := t.id, name := t.name, take } :: shareOut rest (left - take)

def allocate (js : JsSort) (floor : FloorState) (n : Int) : Option Allocation :=
  if n < 1 then none
  else
    let tables := walkOrder js floor.tables
    match bestRun n (tables.map openSeats) with
    | none => none
    | some best =>
      let shares := shareOut ((tables.drop best.start).take best.length) n
      some { shares, label := label (shares.map TableShare.name), seats := n, waste := best.waste }

/-! ## The best run -/

section search

variable {n sum : Int} {start length k i : Nat} {free : List Int} {b : Best}

/-- A run of open tables with seats for `n`. -/
structure FitsAt (n : Int) (free : List Int) (i k : Nat) : Prop where
  bound : i + k ≤ free.length
  pos : ∀ x ∈ (free.drop i).take k, 0 < x
  seats : n ≤ ((free.drop i).take k).sum

theorem reachRun_some (hSum : sum < n) (h : reachRun n start free sum length = some b) :
    ∃ k ≤ free.length, b = ⟨start, length + k, sum + (free.take k).sum - n⟩ ∧
      (∀ x ∈ free.take k, x ≠ 0) ∧ n ≤ sum + (free.take k).sum ∧
      ∀ m < k, sum + (free.take m).sum < n := by
  induction free generalizing sum length with
  | nil => cases h
  | cons x rest ih =>
    rw [reachRun] at h
    split at h
    next => cases h
    next hx =>
      split at h
      next hReached =>
        cases h
        refine ⟨1, by simp, by simp, by simpa using hx, by simpa using hReached, ?_⟩
        intro m hm
        obtain rfl : m = 0 := by omega
        simpa using hSum
      next hMore =>
        obtain ⟨k, hk, rfl, hPos, hSeats, hLeast⟩ := ih (not_le.mp hMore) h
        refine ⟨k + 1, by simpa using hk, ?_, ?_, ?_, ?_⟩
        · simp only [take_succ_cons, sum_cons, Best.mk.injEq, true_and]
          omega
        · simpa using ⟨hx, hPos⟩
        · rw [take_succ_cons, sum_cons]
          omega
        · rintro (- | m) hm
          · simpa using hSum
          · have hLess := hLeast m (by omega)
            rw [take_succ_cons, sum_cons]
            omega

theorem reachRun_isSome (hSum : sum < n) (hPos : ∀ x ∈ free.take k, x ≠ 0)
    (hSeats : n ≤ sum + (free.take k).sum) :
    ∃ b, reachRun n start free sum length = some b ∧ b.length ≤ length + k := by
  induction free generalizing sum length k with
  | nil =>
    simp only [take_nil, sum_nil] at hSeats
    omega
  | cons x rest ih =>
    cases k with
    | zero =>
      simp only [take_zero, sum_nil] at hSeats
      omega
    | succ k =>
      rw [take_succ_cons] at hPos hSeats
      rw [reachRun, if_neg (hPos x mem_cons_self)]
      split
      next => exact ⟨_, rfl, by dsimp only; omega⟩
      next hMore =>
        rw [sum_cons] at hSeats
        obtain ⟨b, hb, hLe⟩ := @ih (sum + x) (length + 1) k (not_le.mp hMore)
          (fun y hy => hPos y (mem_cons_of_mem _ hy)) (by omega)
        exact ⟨b, hb, by omega⟩

/-- The runs that the two loops come to. -/
def candidates (n : Int) (free : List Int) : List Best :=
  (List.range free.length).filterMap fun i => reachRun n i (free.drop i) 0 0

def Best.key (b : Best) : ℕ ×ₗ ℤ := toLex (b.length, b.waste)

theorem Best.key_lt {c : Best} :
    b.key < c.key ↔ b.length < c.length ∨ b.length = c.length ∧ b.waste < c.waste :=
  Prod.Lex.toLex_lt_toLex

theorem bestRun_eq (n : Int) (free : List Int) :
    bestRun n free = (candidates n free).argmin Best.key := by
  have hStep : ∀ (best : Option Best) (found : Best),
      better best found = List.argAux (fun b c => b.key < c.key) best found := by
    rintro (- | b) found
    · rfl
    · simp only [better, List.argAux, Best.key_lt]
  unfold bestRun candidates List.argmin
  rw [foldl_filterMap]
  refine foldl_ext _ _ _ fun best i _ => ?_
  rcases reachRun n i (free.drop i) 0 0 with - | found
  · rfl
  · exact hStep best found

theorem fitsAt_of_candidate (hn : 1 ≤ n) (hFree : ∀ x ∈ free, 0 ≤ x) (h : b ∈ candidates n free) :
    FitsAt n free b.start b.length ∧ b.waste = ((free.drop b.start).take b.length).sum - n ∧
      ∀ m < b.length, ((free.drop b.start).take m).sum < n := by
  obtain ⟨i, hi, hReach⟩ := mem_filterMap.mp h
  rw [mem_range] at hi
  obtain ⟨k, hk, rfl, hPos, hSeats, hLeast⟩ := reachRun_some (by omega) hReach
  rw [length_drop] at hk
  simp only [zero_add] at hSeats hLeast ⊢
  refine ⟨⟨by omega, fun x hx => ?_, hSeats⟩, trivial, hLeast⟩
  have hMem := mem_of_mem_drop (mem_of_mem_take hx)
  exact lt_of_le_of_ne (hFree x hMem) (hPos x hx).symm

theorem candidate_of_fitsAt (hn : 1 ≤ n) (h : FitsAt n free i k) :
    ∃ b ∈ candidates n free, b.key ≤ toLex (k, ((free.drop i).take k).sum - n) := by
  have hPos : ∀ x ∈ (free.drop i).take k, x ≠ 0 := fun x hx => (h.pos x hx).ne'
  have hSeats : n ≤ 0 + ((free.drop i).take k).sum := by
    rw [zero_add]
    exact h.seats
  obtain ⟨b, hb, hLe⟩ := @reachRun_isSome n 0 i 0 k _ (by omega) hPos hSeats
  have hi : i < free.length := by
    by_contra hNot
    have hNil := drop_eq_nil_of_le (not_lt.mp hNot)
    rw [hNil, take_nil, sum_nil] at hSeats
    omega
  refine ⟨b, mem_filterMap.mpr ⟨i, mem_range.mpr hi, hb⟩, ?_⟩
  obtain ⟨m, -, rfl, -, -, -⟩ := reachRun_some (by omega) hb
  simp only [zero_add] at hLe ⊢
  rw [Best.key, Prod.Lex.toLex_le_toLex]
  rcases hLe.lt_or_eq with hLt | rfl
  · exact .inl hLt
  · exact .inr ⟨rfl, le_rfl⟩

theorem bestRun_eq_none (hn : 1 ≤ n) (hFree : ∀ x ∈ free, 0 ≤ x) :
    bestRun n free = none ↔ ∀ i k, ¬ FitsAt n free i k := by
  rw [bestRun_eq, argmin_eq_none, eq_nil_iff_forall_not_mem]
  constructor
  · intro hNone i k hFits
    obtain ⟨b, hb, -⟩ := candidate_of_fitsAt hn hFits
    exact hNone b hb
  · intro hNone b hb
    exact hNone _ _ (fitsAt_of_candidate hn hFree hb).1

theorem bestRun_le (hn : 1 ≤ n) (h : bestRun n free = some b) (hFits : FitsAt n free i k) :
    b.key ≤ toLex (k, ((free.drop i).take k).sum - n) := by
  obtain ⟨c, hc, hLe⟩ := candidate_of_fitsAt hn hFits
  rw [bestRun_eq] at h
  exact (le_of_mem_argmin hc h).trans hLe

theorem fitsAt_of_bestRun (hn : 1 ≤ n) (hFree : ∀ x ∈ free, 0 ≤ x) (h : bestRun n free = some b) :
    FitsAt n free b.start b.length ∧ b.waste = ((free.drop b.start).take b.length).sum - n ∧
      ∀ m < b.length, ((free.drop b.start).take m).sum < n := by
  rw [bestRun_eq] at h
  exact fitsAt_of_candidate hn hFree (argmin_mem h)

end search

/-! ## The shares -/

section shares

variable {n : Int} {run : List TableState}

/-- A share of a table's free seats. -/
def TableShare.Of (s : TableShare) (t : TableState) : Prop :=
  s.tableId = t.id ∧ s.name = t.name ∧ 1 ≤ s.take ∧ s.take ≤ openSeats t

theorem shareOut_spec (hn : 0 ≤ n) (hPos : ∀ t ∈ run, 0 < openSeats t)
    (hSeats : n ≤ (run.map openSeats).sum)
    (hLeast : ∀ m < run.length, ((run.map openSeats).take m).sum < n) :
    List.Forall₂ TableShare.Of (shareOut run n) run ∧
      ((shareOut run n).map TableShare.take).sum = n := by
  induction run generalizing n with
  | nil =>
    have hZero : n ≤ 0 := by simpa using hSeats
    exact ⟨.nil, by simpa [shareOut] using le_antisymm hn hZero⟩
  | cons t rest ih =>
    have hOpen := hPos t mem_cons_self
    have hLeft : 0 < n := by simpa using hLeast 0 (by simp)
    rw [shareOut, if_neg (not_le.mpr hLeft)]
    dsimp only
    rw [if_neg (by omega)]
    rw [map_cons, sum_cons] at hSeats
    rcases le_or_gt n (openSeats t) with hLast | hMore
    · -- the last table of the run
      have hRest : rest = [] := by
        by_contra hNe
        have hFirst := hLeast 1 (by simpa using length_pos_iff.mpr hNe)
        simp only [map_cons, take_succ_cons, take_zero, sum_cons,
          sum_nil] at hFirst
        omega
      subst hRest
      rw [min_eq_right hLast, sub_self]
      exact ⟨.cons ⟨rfl, rfl, hLeft, hLast⟩ .nil, by simp [shareOut]⟩
    · rw [min_eq_left hMore.le]
      have hRest := @ih (n - openSeats t) (by omega)
        (fun t' ht' => hPos t' (mem_cons_of_mem _ ht')) (by omega) fun m hm => by
          have hLess := hLeast (m + 1) (by simpa using hm)
          rw [map_cons, take_succ_cons, sum_cons] at hLess
          omega
      refine ⟨.cons ⟨rfl, rfl, hOpen, le_rfl⟩ hRest.1, ?_⟩
      rw [map_cons, sum_cons, hRest.2]
      dsimp only
      omega

end shares

/-! ## What is allocated -/

section allocate

variable {js : JsSort} {floor : FloorState} {n : Int} {run tables : List TableState}

/-- A table whose count is known, with free seats. -/
def TableState.Open (t : TableState) : Prop :=
  t.status ≠ .unknown ∧ ∃ free, t.free = some free ∧ 0 < free

/-- Tables next to each other that have seats for `n`. -/
structure Seats (js : JsSort) (floor : FloorState) (n : Int) (run : List TableState) : Prop where
  neighbours : run <:+: walkOrder js floor.tables
  open_ : ∀ t ∈ run, t.Open
  seats : n ≤ (run.map openSeats).sum

/-- An allocation of `n` seats over a run. -/
structure Allocation.Over (a : Allocation) (n : Int) (run : List TableState) : Prop where
  shares : List.Forall₂ TableShare.Of a.shares run
  takes : (a.shares.map TableShare.take).sum = n
  seats : a.seats = n
  waste : a.waste = (run.map openSeats).sum - n

/-- No run is better: none is shorter, and none as short wastes less. -/
structure AllocationBest (js : JsSort) (floor : FloorState) (n : Int) : Prop where
  none_iff : allocate js floor n = none ↔ ∀ run, ¬ Seats js floor n run
  best : ∀ a, allocate js floor n = some a → ∃ run, Seats js floor n run ∧ a.Over n run ∧
    ∀ run', Seats js floor n run' →
      toLex (run.length, a.waste) ≤ toLex (run'.length, (run'.map openSeats).sum - n)

theorem openSeats_pos {t : TableState} : 0 < openSeats t ↔ t.Open := by
  unfold openSeats TableState.Open
  by_cases hUnknown : t.status = .unknown
  · simp [hUnknown]
  · rcases t.free with - | free
    · simp [hUnknown]
    · simp [hUnknown]

theorem openSeats_nonneg {t : TableState}
    (h : t.status ≠ .unknown → ∀ free, t.free = some free → 0 ≤ free) : 0 ≤ openSeats t := by
  unfold openSeats
  split
  next => exact le_rfl
  next hKnown =>
    rcases hFree : t.free with - | free
    · exact le_rfl
    · exact h hKnown free hFree

/-- The runs of tables are the places where the search looks. -/
theorem exists_fitsAt :
    (∃ i k, FitsAt n (tables.map openSeats) i k ∧ run = (tables.drop i).take k) ↔
      run <:+: tables ∧ (∀ t ∈ run, t.Open) ∧ n ≤ (run.map openSeats).sum := by
  constructor
  · rintro ⟨i, k, hFits, rfl⟩
    have hPos := hFits.pos
    have hSeats := hFits.seats
    rw [← map_drop, ← map_take] at hPos hSeats
    refine ⟨(List.take_prefix k _).isInfix.trans (drop_suffix i tables).isInfix,
      fun t ht => openSeats_pos.mp (hPos _ (mem_map_of_mem ht)), hSeats⟩
  · rintro ⟨⟨pre, post, rfl⟩, hOpen, hSeats⟩
    have hRun : ((pre ++ run ++ post).drop pre.length).take run.length = run := by
      rw [append_assoc, drop_left, take_left]
    refine ⟨pre.length, run.length, ⟨by simp, ?_, ?_⟩, hRun.symm⟩
    · rw [← map_drop, ← map_take, hRun]
      intro x hx
      obtain ⟨t, ht, rfl⟩ := mem_map.mp hx
      exact openSeats_pos.mpr (hOpen t ht)
    · rw [← map_drop, ← map_take, hRun]
      exact hSeats

theorem seats_iff : Seats js floor n run ↔ ∃ i k,
    FitsAt n ((walkOrder js floor.tables).map openSeats) i k ∧
      run = ((walkOrder js floor.tables).drop i).take k := by
  rw [exists_fitsAt]
  exact ⟨fun h => ⟨h.neighbours, h.open_, h.seats⟩, fun h => ⟨h.1, h.2.1, h.2.2⟩⟩

/-- A group is sent to the best run of tables, if there is one. -/
theorem allocate_spec (hn : 1 ≤ n)
    (hFree : ∀ t ∈ floor.tables, t.status ≠ .unknown → ∀ free, t.free = some free → 0 ≤ free) :
    AllocationBest js floor n := by
  have hNonneg : ∀ x ∈ (walkOrder js floor.tables).map openSeats, 0 ≤ x := by
    intro x hx
    obtain ⟨t, ht, rfl⟩ := List.mem_map.mp hx
    exact openSeats_nonneg (hFree t (js.mem_sort.mp ht))
  have hEq : allocate js floor n =
      (bestRun n ((walkOrder js floor.tables).map openSeats)).map fun best =>
        let shares := shareOut (((walkOrder js floor.tables).drop best.start).take best.length) n
        { shares, label := label (shares.map TableShare.name), seats := n
          waste := best.waste } := by
    unfold allocate
    rw [if_neg (not_lt.mpr hn)]
    dsimp only
    split
    next hNone => rw [hNone, Option.map_none]
    next best hBest => rw [hBest, Option.map_some]
  constructor
  · rw [hEq, Option.map_eq_none_iff, bestRun_eq_none hn hNonneg]
    constructor
    · intro hNone run hSeats
      obtain ⟨i, k, hFits, -⟩ := seats_iff.mp hSeats
      exact hNone i k hFits
    · intro hNone i k hFits
      exact hNone _ (seats_iff.mpr ⟨i, k, hFits, rfl⟩)
  · intro a ha
    rw [hEq, Option.map_eq_some_iff] at ha
    obtain ⟨best, hBest, rfl⟩ := ha
    obtain ⟨hFits, hWaste, hLeast⟩ := fitsAt_of_bestRun hn hNonneg hBest
    have hSeats := seats_iff.mpr ⟨best.start, best.length, hFits, rfl⟩
    have hLength : (((walkOrder js floor.tables).drop best.start).take best.length).length =
        best.length := by
      have hBound := hFits.bound
      rw [List.length_map] at hBound
      rw [List.length_take, List.length_drop]
      omega
    rw [← List.map_drop, ← List.map_take] at hWaste
    have hShares := @shareOut_spec n
      (((walkOrder js floor.tables).drop best.start).take best.length)
      (by omega) (fun t ht => openSeats_pos.mpr (hSeats.open_ t ht)) hSeats.seats fun m hm => by
        rw [hLength] at hm
        have hLess := hLeast m hm
        rw [← List.map_drop] at hLess
        rw [List.map_take, List.take_take, min_eq_left hm.le]
        exact hLess
    refine ⟨_, hSeats, ⟨hShares.1, hShares.2, rfl, hWaste⟩, fun run' hSeats' => ?_⟩
    obtain ⟨i, k, hFits', rfl⟩ := seats_iff.mp hSeats'
    have hBound := hFits'.bound
    have hLe := bestRun_le hn hBest hFits'
    rw [List.length_map] at hBound
    rw [← List.map_drop, ← List.map_take] at hLe
    rw [hLength, List.length_take, List.length_drop, min_eq_left (by omega)]
    exact hLe

end allocate

/-- A floor with tables of four and six seats, two of them taken, and one that is not seen. -/
def threeTables : FloorState where
  id := js "1"
  building := js "B"
  name := js "First"
  width := 10
  height := 10
  outline := []
  zones := []
  tables :=
    [ { id := js "t3", name := js "M3", zoneId := js "z", rect := ⟨5, 0, 1, 1⟩, capacity := 4
        occupied := none, free := none, status := .unknown, seats := [] },
      { id := js "t2", name := js "M2", zoneId := js "z", rect := ⟨2, 0, 1, 1⟩, capacity := 6
        occupied := some 2, free := some 4, status := .ok, seats := [] },
      { id := js "t1", name := js "M1", zoneId := js "z", rect := ⟨0, 0, 1, 1⟩, capacity := 4
        occupied := some 0, free := some 4, status := .fallback, seats := [] } ]
  totals := { seats := 14, free := 8, occupied := 2, unknownSeats := 4, tablesFullyFree := 1 }

theorem allocate_threeTables : AllocationBest .insertion threeTables 6 ∧
    (allocate .insertion threeTables 6).map Allocation.label =
      some (js "Tables M1" ++ [0x2013] ++ js "M2") ∧
    allocate .insertion threeTables 9 = none :=
  ⟨allocate_spec (by decide) (by decide), by decide +kernel, by decide +kernel⟩

/-! ## The order of rows -/

section rows

variable {js : JsSort} {tables tables' : List TableState} {a b c : TableState} {h : ℚ}

/-- The row rule: a table is in a row further forward, or further left in the same row. -/
def Precedes (h : ℚ) (a b : TableState) : Prop :=
  h * (3 / 4) < centreY b - centreY a ∨
    |centreY a - centreY b| ≤ h * (3 / 4) ∧ a.rect.x < b.rect.x

/-- The order is that of rows, whichever way the tables are listed. -/
structure WellOrdered (js : JsSort) (tables : List TableState) : Prop where
  rows : (walkOrder js tables).Pairwise (Precedes (rowHeight tables))
  listed : ∀ tables', tables'.Perm tables → walkOrder js tables' = walkOrder js tables

/-- No two tables of a row are at the same place from the left, and no three go round in a
circle. -/
structure Straight (tables : List TableState) : Prop where
  apart : tables.Pairwise fun a b =>
    |centreY a - centreY b| ≤ rowHeight tables * (3 / 4) → a.rect.x ≠ b.rect.x
  acyclic : ∀ a ∈ tables, ∀ b ∈ tables, ∀ c ∈ tables, Precedes (rowHeight tables) a b →
    Precedes (rowHeight tables) b c → ¬ Precedes (rowHeight tables) c a

theorem one_le_rowHeight (tables : List TableState) : 1 ≤ rowHeight tables :=
  (le_foldl_max _ 1).1

theorem rowHeight_perm (hPerm : tables'.Perm tables) : rowHeight tables' = rowHeight tables :=
  (hPerm.map _).foldl_eq 1

theorem walkCompare_neg (hHeight : 0 ≤ h) : walkCompare h a b < 0 ↔ Precedes h a b := by
  unfold walkCompare Precedes
  split
  next hFar =>
    constructor
    · intro hLess
      rw [abs_of_neg hLess] at hFar
      exact .inl (by linarith)
    · rintro (hForward | ⟨hNear, -⟩)
      · linarith
      · exact absurd hFar (not_lt.mpr hNear)
  next hNear =>
    have hNear := not_lt.mp hNear
    constructor
    · exact fun hLess => .inr ⟨hNear, by linarith⟩
    · rintro (hForward | ⟨-, hLeft⟩)
      · rw [abs_sub_comm] at hNear
        exact absurd ((le_abs_self _).trans hNear) (not_le.mpr hForward)
      · linarith

theorem walkCompare_swap (h : ℚ) (a b : TableState) : walkCompare h b a = -walkCompare h a b := by
  unfold walkCompare
  rw [abs_sub_comm]
  split
  next => exact (neg_sub _ _).symm
  next => exact (neg_sub _ _).symm

theorem walkCompare_eq_zero (hHeight : 0 ≤ h) : walkCompare h a b = 0 ↔
    |centreY a - centreY b| ≤ h * (3 / 4) ∧ a.rect.x = b.rect.x := by
  unfold walkCompare
  split
  next hFar =>
    constructor
    · intro hZero
      rw [hZero, abs_zero] at hFar
      linarith
    · exact fun hNear => absurd hFar (not_lt.mpr hNear.1)
  next hNear => rw [sub_eq_zero, and_iff_right (not_lt.mp hNear)]

theorem Precedes.asymm (hHeight : 0 ≤ h) (hab : Precedes h a b) : ¬ Precedes h b a := by
  rw [← walkCompare_neg hHeight] at hab ⊢
  rw [walkCompare_swap h a b]
  linarith

/-- Two tables that are told apart are in one of the two orders. -/
theorem precedes_or (hHeight : 0 ≤ h)
    (hApart : |centreY a - centreY b| ≤ h * (3 / 4) → a.rect.x ≠ b.rect.x) :
    Precedes h a b ∨ Precedes h b a := by
  rw [← walkCompare_neg hHeight, ← walkCompare_neg hHeight, walkCompare_swap h a b]
  rcases lt_trichotomy (walkCompare h a b) 0 with hLess | hZero | hMore
  · exact .inl hLess
  · obtain ⟨hNear, hSame⟩ := (walkCompare_eq_zero hHeight).mp hZero
    exact absurd hSame (hApart hNear)
  · exact .inr (by linarith)

theorem apart_of_precedes (hHeight : 0 ≤ h) (hab : Precedes h a b ∨ Precedes h b a)
    (hNear : |centreY a - centreY b| ≤ h * (3 / 4)) : a.rect.x ≠ b.rect.x := by
  intro hSame
  have hZero := (walkCompare_eq_zero hHeight).mpr ⟨hNear, hSame⟩
  rw [← walkCompare_neg hHeight, ← walkCompare_neg hHeight, walkCompare_swap h a b, hZero] at hab
  simp at hab

/-- Tables of a list in order keep to the relation they are ordered by. -/
theorem not_cyclic {l : List TableState} {R : TableState → TableState → Prop}
    (hAsymm : ∀ a b, R a b → ¬ R b a) (hl : l.Pairwise R) (ha : a ∈ l) (hb : b ∈ l) (hc : c ∈ l)
    (hab : R a b) (hbc : R b c) : ¬ R c a := by
  have hPlace : ∀ (i j : Nat) (hi : i < l.length) (hj : j < l.length), R l[i] l[j] → i < j := by
    intro i j hi hj hR
    rcases lt_trichotomy i j with hLess | rfl | hMore
    · exact hLess
    · exact absurd hR (hAsymm _ _ hR)
    · exact absurd (pairwise_iff_getElem.mp hl j i hj hi hMore) (hAsymm _ _ hR)
  obtain ⟨i, hi, rfl⟩ := getElem_of_mem ha
  obtain ⟨j, hj, rfl⟩ := getElem_of_mem hb
  obtain ⟨k, hk, rfl⟩ := getElem_of_mem hc
  intro hca
  have hij := hPlace i j hi hj hab
  have hjk := hPlace j k hj hk hbc
  have hki := hPlace k i hk hi hca
  omega

theorem Straight.apart_of_mem (hStraight : Straight tables) (ha : a ∈ tables) (hb : b ∈ tables)
    (hne : a ≠ b) : Precedes (rowHeight tables) a b ∨ Precedes (rowHeight tables) b a := by
  have hHeight : 0 ≤ rowHeight tables := zero_le_one.trans (one_le_rowHeight tables)
  have hBoth : tables.Pairwise fun a b =>
      Precedes (rowHeight tables) a b ∨ Precedes (rowHeight tables) b a :=
    hStraight.apart.imp fun hApart => precedes_or hHeight hApart
  have : Std.Symm fun a b =>
      Precedes (rowHeight tables) a b ∨ Precedes (rowHeight tables) b a := ⟨fun _ _ => Or.symm⟩
  exact hBoth.forall ha hb hne

theorem Straight.consistent (hStraight : Straight tables) :
    Consistent (walkCompare (rowHeight tables)) tables where
  neg a _ b _ := by rw [walkCompare_swap _ a b, neg_pos]
  trans a ha b hb c hc hab hbc := by
    have hHeight : 0 ≤ rowHeight tables := zero_le_one.trans (one_le_rowHeight tables)
    by_contra hca
    have hca : Precedes (rowHeight tables) c a := by
      rw [← walkCompare_neg hHeight, walkCompare_swap _ a c]
      linarith
    -- the first two comparisons are strict, or two of the three are the same table
    by_cases hSame : a = b
    · subst hSame
      exact absurd ((walkCompare_neg hHeight).mpr hca) (by rw [walkCompare_swap _ a c]; linarith)
    · by_cases hSame' : b = c
      · subst hSame'
        exact absurd ((walkCompare_neg hHeight).mpr hca) (by rw [walkCompare_swap _ a b]; linarith)
      · have hStrict : ∀ {a b : TableState}, a ∈ tables → b ∈ tables → a ≠ b →
            walkCompare (rowHeight tables) a b ≤ 0 → Precedes (rowHeight tables) a b := by
          intro a b ha hb hne hLe
          rcases hStraight.apart_of_mem ha hb hne with hab | hba
          · exact hab
          · rw [← walkCompare_neg hHeight, walkCompare_swap _ a b] at hba
            linarith
        exact hStraight.acyclic a ha b hb c hc (hStrict ha hb hSame hab)
          (hStrict hb hc hSame' hbc) hca

/-- The order is that of rows, and the same however the tables are listed, if and only if they are
in straight rows. -/
theorem wellOrdered_iff (js : JsSort) (tables : List TableState) :
    WellOrdered js tables ↔ Straight tables := by
  have hHeight : 0 ≤ rowHeight tables := zero_le_one.trans (one_le_rowHeight tables)
  have hPerm := js.perm (walkCompare (rowHeight tables)) tables
  constructor
  · intro hWell
    have hBoth : (walkOrder js tables).Pairwise fun a b =>
        Precedes (rowHeight tables) a b ∨ Precedes (rowHeight tables) b a :=
      hWell.rows.imp Or.inl
    constructor
    · exact ((hPerm.pairwise_iff fun h => h.symm).mp hBoth).imp fun hab =>
        apart_of_precedes hHeight hab
    · intro a ha b hb c hc
      exact not_cyclic (fun a b => Precedes.asymm hHeight) hWell.rows (js.mem_sort.mpr ha)
        (js.mem_sort.mpr hb) (js.mem_sort.mpr hc)
  · intro hStraight
    have hConsistent := hStraight.consistent
    have hTold : ∀ a ∈ tables, ∀ b ∈ tables, walkCompare (rowHeight tables) a b = 0 → a = b := by
      intro a ha b hb hZero
      by_contra hne
      obtain ⟨hNear, hSame⟩ := (walkCompare_eq_zero hHeight).mp hZero
      exact apart_of_precedes hHeight (hStraight.apart_of_mem ha hb hne) hNear hSame
    constructor
    · have hBoth : tables.Pairwise fun a b =>
          Precedes (rowHeight tables) a b ∨ Precedes (rowHeight tables) b a :=
        hStraight.apart.imp fun hApart => precedes_or hHeight hApart
      have hSorted := (js.sorted hConsistent).and ((hPerm.pairwise_iff fun h => h.symm).mpr hBoth)
      refine hSorted.imp fun {a b} hab => ?_
      rcases hab.2 with hForward | hBack
      · exact hForward
      · rw [← walkCompare_neg hHeight, walkCompare_swap _ a b] at hBack
        linarith [hab.1]
    · intro tables' hPerm'
      unfold walkOrder
      rw [rowHeight_perm hPerm']
      exact js.sort_eq_of_perm hConsistent hTold hPerm'

/-- Three tables, each in the row of the next and far from the one after. -/
def staggered : List TableState :=
  [(2, 0), (1, 7 / 10), (0, 14 / 10)].map fun p =>
    { id := [], name := [], zoneId := [], rect := ⟨p.1, p.2, 1, 1⟩, capacity := 4
      occupied := none, free := none, status := .unknown, seats := [] }

/-- No sort puts them in an order of rows. -/
theorem staggered_not_wellOrdered :
    (staggered.Pairwise fun a b => (a.rect.x, a.rect.y) ≠ (b.rect.x, b.rect.y)) ∧
      ¬ WellOrdered .insertion staggered := by
  have hApart : staggered.Pairwise fun a b => (a.rect.x, a.rect.y) ≠ (b.rect.x, b.rect.y) := by
    decide +kernel
  refine ⟨hApart, fun hWell => ?_⟩
  have hLost : ¬ (walkOrder .insertion staggered).Pairwise fun a b =>
      walkCompare (rowHeight staggered) a b < 0 := by
    decide +kernel
  refine hLost (hWell.rows.imp fun hab => (walkCompare_neg ?_).mpr hab)
  exact zero_le_one.trans (one_le_rowHeight staggered)

end rows

end TMEdge.Occupancy
