import TMEdge.Library.Decimal
import TMEdge.Library.Fallible
import TMEdge.Library.Json
import TMEdge.Occupancy.Geometry
import TMEdge.Occupancy.Options

/-!
# Reading seats

The readers of `src/edge/registry.ts` (`obj`, `only`, `str`, `num`, `points`), and the two ways a
table gets its seats: `generateSeats` of `src/shared/seats.ts` and `explicitSeats`. A `Seating`
has as many seats as the table's capacity, under ids of their own, and its neighbours are among
them and mutual; both ways give one.

How a number or a value is printed in an error is given from outside (`Format`).
-/

namespace TMEdge.Occupancy

open Library List

/-! ## Readers -/

structure Format where
  /-- `String` of a number -/
  number : ℚ → Text
  /-- `JSON.stringify`, of a property that may be `undefined` -/
  stringify : Option Json → Text

abbrev Fields := List (Text × Json)

def obj (v : Option Json) (place : Text) : Except Text Fields :=
  match v with
  | some (.object es) => .ok es
  | _ => .error (place ++ js ": expected an object")

/-- `array.join(', ')` -/
def join : List Text → Text
  | [] => []
  | [t] => t
  | t :: ts => t ++ js ", " ++ join ts

def only (o : Fields) (place : Text) (allowed : List Text) : Except Text Unit :=
  match o.find? fun e => !allowed.contains e.1 with
  | some (k, _) =>
    .error (place ++ js ": unknown field \"" ++ k ++ js "\" (allowed: " ++ join allowed ++ js ")")
  | none => .ok ()

def str (o : Fields) (k place : Text) : Except Text Text :=
  let error := .error (place ++ js "." ++ k ++ js ": expected a non-empty string")
  match Json.field? o k with
  | some (.string t) => if Text.trim t = [] then error else .ok t
  | _ => error

def num (fmt : Format) (o : Fields) (k place : Text) (min max : ℚ) : Except Text ℚ :=
  let error := .error (place ++ js "." ++ k ++ js ": expected a number in " ++ fmt.number min ++
    js ".." ++ fmt.number max ++ js ", got " ++ fmt.stringify (Json.field? o k))
  match Json.field? o k with
  | some (.number x) => if x < min ∨ max < x then error else .ok x
  | _ => error

def index (place : Text) (i : Nat) : Text := place ++ js "[" ++ Text.decimal i ++ js "]"

def point (place : Text) (p : Json × Nat) : Except Text Point :=
  match p with
  | (.array [.number x, .number y], _) => .ok (x, y)
  | (_, i) => .error (index place i ++ js ": expected [x, y]")

def points (v : Option Json) (place : Text) : Except Text (List Point) :=
  match v with
  | some (.array vs) =>
    if vs.length < 3 then .error (place ++ js ": expected at least 3 [x, y] points")
    else vs.zipIdx.mapM (point place)
  | _ => .error (place ++ js ": expected at least 3 [x, y] points")

/-! ## Seats -/

inductive SeatSide
  | L | R | T | B
  deriving DecidableEq

def SeatSide.text : SeatSide → Text
  | .L => js "L"
  | .R => js "R"
  | .T => js "T"
  | .B => js "B"

structure SeatSpec where
  id : Text
  x : ℚ
  y : ℚ
  side : SeatSide
  index : Nat
  neighbors : List Text
  deriving DecidableEq

def seatId (tableId label : Text) : Text := tableId ++ js "-" ++ label

structure Seating (tableId : Text) (capacity : Nat) where
  seats : List SeatSpec
  length_eq : seats.length = capacity
  named : ∀ a ∈ seats, ∃ label, a.id = seatId tableId label
  nodup : (seats.map SeatSpec.id).Nodup
  neighbors : ∀ a ∈ seats, ∀ i ∈ a.neighbors, ∃ b ∈ seats, b.id = i ∧ a.id ∈ b.neighbors

def seatOffsetCm : ℚ := 35

/-- `generateSeats` along one side of `n` seats -/
def sideSeats (tableId : Text) (rect : Rect) (vertical : Bool) (side : SeatSide) (n : Nat) :
    List SeatSpec :=
  (List.range n).map fun i : Nat =>
    let t : ℚ := ((i : ℚ) + 1 / 2) / n
    let x :=
      if vertical then
        if side = .L then rect.x - seatOffsetCm else rect.x + rect.width + seatOffsetCm
      else rect.x + t * rect.width
    let y :=
      if vertical then rect.y + t * rect.height
      else if side = .T then rect.y - seatOffsetCm else rect.y + rect.height + seatOffsetCm
    { id := seatId tableId (side.text ++ Text.decimal (i + 1)), x := round x, y := round y, side
      index := i, neighbors := [] }

/-- `at` of `generateSeats` -/
def seatAt (seats : List SeatSpec) (side : SeatSide) (index : Int) : Option SeatSpec :=
  seats.find? fun s => s.side = side ∧ (s.index : Int) = index

/-- The neighbours of a generated seat: next to it, and directly across. -/
def besides (seats : List SeatSpec) (sides : SeatSide × SeatSide) (seat : SeatSpec) : List Text :=
  let other := if seat.side = sides.1 then sides.2 else sides.1
  ([seatAt seats seat.side (seat.index - 1), seatAt seats seat.side (seat.index + 1),
    seatAt seats other seat.index].filterMap id).map SeatSpec.id

def generatedSides (rect : Rect) : SeatSide × SeatSide :=
  if rect.width ≤ rect.height then (.L, .R) else (.T, .B)

def generatedSpecs (tableId : Text) (rect : Rect) (capacity : Nat) : List SeatSpec :=
  let vertical : Bool := rect.width ≤ rect.height
  let sides := generatedSides rect
  sideSeats tableId rect vertical sides.1 ((capacity + 1) / 2) ++
    sideSeats tableId rect vertical sides.2 (capacity / 2)

def explicitSide (v : Option Json) (place : Text) : Except Text SeatSide :=
  let error := .error (place ++ js ".side: expected L, R, T or B")
  match v with
  | none => .ok .L
  | some (.string t) =>
    match [SeatSide.L, .R, .T, .B].find? fun s => s.text = t with
    | some side => .ok side
    | none => error
  | some _ => error

/-- `explicitSeats` of one entry -/
def explicitSeat (fmt : Format) (tableId : Text) (width height : ℚ) (place : Text)
    (v : Json × Nat) : Except Text SeatSpec := do
  let sw := place ++ js ".seats[" ++ Text.decimal v.2 ++ js "]"
  let o ← obj (some v.1) sw
  only o sw [js "id", js "x", js "y", js "side"]
  let side ← explicitSide (Json.field? o (js "side")) sw
  let label ← str o (js "id") sw
  let x ← num fmt o (js "x") sw 0 width
  let y ← num fmt o (js "y") sw 0 height
  pure { id := seatId tableId label, x, y, side, index := v.2, neighbors := [] }

/-- Two different seats within a metre of each other. -/
def near (a b : SeatSpec) : Bool :=
  a.index ≠ b.index && within (hypotSq (a.x - b.x) (a.y - b.y)) 100

/-! ## Generated seats -/

section generated

variable {tableId : Text} {rect : Rect} {capacity : Nat} {a b : SeatSpec} {seats : List SeatSpec}

theorem generatedSides_ne (rect : Rect) : (generatedSides rect).1 ≠ (generatedSides rect).2 := by
  unfold generatedSides
  split
  · decide
  · decide

theorem mem_sideSeats {vertical : Bool} {side : SeatSide} {n : Nat}
    (h : a ∈ sideSeats tableId rect vertical side n) :
    a.side = side ∧ a.id = seatId tableId (side.text ++ Text.decimal (a.index + 1)) := by
  obtain ⟨i, -, rfl⟩ := mem_map.mp h
  exact ⟨rfl, rfl⟩

/-- A generated seat is known by its side and its place along it. -/
theorem mem_generatedSpecs (h : a ∈ generatedSpecs tableId rect capacity) :
    (a.side = (generatedSides rect).1 ∨ a.side = (generatedSides rect).2) ∧
      a.id = seatId tableId (a.side.text ++ Text.decimal (a.index + 1)) := by
  rcases mem_append.mp h with h | h
  · obtain ⟨hSide, hId⟩ := mem_sideSeats h
    exact ⟨Or.inl hSide, by rw [hSide]; exact hId⟩
  · obtain ⟨hSide, hId⟩ := mem_sideSeats h
    exact ⟨Or.inr hSide, by rw [hSide]; exact hId⟩

theorem seatId_inj {t l m : Text} : seatId t l = seatId t m ↔ l = m := by
  rw [seatId, seatId, append_cancel_left_eq]

theorem side_text_ne {s s' : SeatSide} (h : s ≠ s') (l m : Text) : s.text ++ l ≠ s'.text ++ m := by
  cases s <;> cases s' <;> first | exact absurd rfl h | (intro hEq; cases hEq)

theorem nodup_sideSeats (vertical : Bool) (side : SeatSide) (n : Nat) :
    ((sideSeats tableId rect vertical side n).map SeatSpec.id).Nodup := by
  rw [sideSeats, map_map]
  refine nodup_range.map_on ?_
  intro i _ j _ hEq
  have hLabel := seatId_inj.mp hEq
  have hNumber := Text.decimal_injective (append_cancel_left hLabel)
  omega

theorem nodup_generatedSpecs : ((generatedSpecs tableId rect capacity).map SeatSpec.id).Nodup := by
  unfold generatedSpecs
  dsimp only
  rw [map_append, nodup_append]
  refine ⟨nodup_sideSeats _ _ _, nodup_sideSeats _ _ _, fun i hi j hj hij => ?_⟩
  obtain ⟨a, ha, rfl⟩ := mem_map.mp hi
  obtain ⟨b, hb, rfl⟩ := mem_map.mp hj
  rw [(mem_sideSeats ha).2, (mem_sideSeats hb).2, seatId_inj] at hij
  exact side_text_ne (generatedSides_ne rect) _ _ hij

theorem length_generatedSpecs : (generatedSpecs tableId rect capacity).length = capacity := by
  simp only [generatedSpecs, sideSeats, length_append, length_map, length_range]
  omega

theorem seatAt_some {side : SeatSide} {i : Int} (h : seatAt seats side i = some b) :
    b ∈ seats ∧ b.side = side ∧ (b.index : Int) = i := by
  have hFound := find?_some h
  simp only [decide_eq_true_eq] at hFound
  exact ⟨mem_of_find?_eq_some h, hFound⟩

theorem seatAt_of_mem (h : a ∈ seats) : ∃ b, seatAt seats a.side a.index = some b := by
  rw [← Option.isSome_iff_exists, seatAt, find?_isSome]
  exact ⟨a, h, by simp⟩

/-- Where a neighbour sits: next to the seat, or across. -/
def Beside (sides : SeatSide × SeatSide) (a b : SeatSpec) : Prop :=
  b.side = a.side ∧ ((b.index : Int) = a.index - 1 ∨ (b.index : Int) = a.index + 1) ∨
    b.side = (if a.side = sides.1 then sides.2 else sides.1) ∧ b.index = a.index

theorem Beside.symm {sides : SeatSide × SeatSide} (hSides : sides.1 ≠ sides.2)
    (ha : a.side = sides.1 ∨ a.side = sides.2) (h : Beside sides a b) : Beside sides b a := by
  rcases h with ⟨hSide, hIndex⟩ | ⟨hSide, hIndex⟩
  · refine Or.inl ⟨hSide.symm, ?_⟩
    omega
  · refine Or.inr ⟨?_, hIndex.symm⟩
    rcases ha with ha | ha
    · rw [if_pos ha] at hSide
      rw [if_neg (hSide ▸ hSides.symm), ha]
    · rw [if_neg (ha ▸ hSides.symm)] at hSide
      rw [if_pos hSide, ha]

theorem mem_besides {sides : SeatSide × SeatSide} {i : Text} :
    i ∈ besides seats sides a ↔ ∃ side index b, seatAt seats side index = some b ∧ b.id = i ∧
      (side = a.side ∧ (index = a.index - 1 ∨ index = a.index + 1) ∨
        side = (if a.side = sides.1 then sides.2 else sides.1) ∧ index = a.index) := by
  simp only [besides, mem_map, mem_filterMap, mem_cons, not_mem_nil, or_false,
    id]
  constructor
  · rintro ⟨b, ⟨found, hFound, rfl⟩, rfl⟩
    rcases hFound with hFound | hFound | hFound
    · exact ⟨_, _, b, hFound.symm, rfl, Or.inl ⟨rfl, Or.inl rfl⟩⟩
    · exact ⟨_, _, b, hFound.symm, rfl, Or.inl ⟨rfl, Or.inr rfl⟩⟩
    · exact ⟨_, _, b, hFound.symm, rfl, Or.inr ⟨rfl, rfl⟩⟩
  · rintro ⟨side, index, b, hFound, rfl, ⟨rfl, rfl | rfl⟩ | ⟨rfl, rfl⟩⟩
    · exact ⟨b, ⟨_, Or.inl rfl, hFound⟩, rfl⟩
    · exact ⟨b, ⟨_, Or.inr (Or.inl rfl), hFound⟩, rfl⟩
    · exact ⟨b, ⟨_, Or.inr (Or.inr rfl), hFound⟩, rfl⟩

theorem besides_symm (ha : a ∈ generatedSpecs tableId rect capacity) {i : Text}
    (hi : i ∈ besides (generatedSpecs tableId rect capacity) (generatedSides rect) a) :
    ∃ b ∈ generatedSpecs tableId rect capacity, b.id = i ∧
      a.id ∈ besides (generatedSpecs tableId rect capacity) (generatedSides rect) b := by
  obtain ⟨side, index, b, hFound, hId, hPlace⟩ := mem_besides.mp hi
  obtain ⟨hb, rfl, rfl⟩ := seatAt_some hFound
  obtain ⟨haSide, haId⟩ := mem_generatedSpecs ha
  have hBeside : Beside (generatedSides rect) a b := by
    rcases hPlace with ⟨hSide, hIndex⟩ | ⟨hSide, hIndex⟩
    · exact Or.inl ⟨hSide, hIndex⟩
    · exact Or.inr ⟨hSide, by omega⟩
  -- The seat found in the place of `a` has its id.
  obtain ⟨c, hc⟩ := seatAt_of_mem ha
  obtain ⟨hcMem, hcSide, hcIndex⟩ := seatAt_some hc
  have hcId : c.id = a.id := by
    rw [(mem_generatedSpecs hcMem).2, haId, hcSide, Int.ofNat.inj hcIndex]
  refine ⟨b, hb, hId, mem_besides.mpr ⟨a.side, a.index, c, hc, hcId, ?_⟩⟩
  rcases hBeside.symm (generatedSides_ne rect) haSide with ⟨hSide, hIndex⟩ | ⟨hSide, hIndex⟩
  · exact Or.inl ⟨hSide, hIndex⟩
  · exact Or.inr ⟨hSide, by omega⟩

end generated

/-- Seats with their neighbours, where these are mutual. -/
def Seating.of {tableId : Text} {capacity : Nat} (specs : List SeatSpec)
    (neighbors : SeatSpec → List Text) (hLength : specs.length = capacity)
    (hNamed : ∀ a ∈ specs, ∃ label, a.id = seatId tableId label)
    (hNodup : (specs.map SeatSpec.id).Nodup)
    (hMutual : ∀ a ∈ specs, ∀ i ∈ neighbors a, ∃ b ∈ specs, b.id = i ∧ a.id ∈ neighbors b) :
    Seating tableId capacity where
  seats := specs.map fun s => { s with neighbors := neighbors s }
  length_eq := by rw [List.length_map, hLength]
  named a ha := by
    obtain ⟨a, haMem, rfl⟩ := List.mem_map.mp ha
    exact hNamed a haMem
  nodup := by
    rw [List.map_map]
    exact hNodup
  neighbors a ha i hi := by
    obtain ⟨a, haMem, rfl⟩ := List.mem_map.mp ha
    obtain ⟨b, hb, hId, hBack⟩ := hMutual a haMem i hi
    exact ⟨_, List.mem_map.mpr ⟨b, hb, rfl⟩, hId, hBack⟩

def generateSeats (tableId : Text) (rect : Rect) (capacity : Nat) : Seating tableId capacity :=
  let specs := generatedSpecs tableId rect capacity
  .of specs (besides specs (generatedSides rect)) length_generatedSpecs
    (fun _ ha => ⟨_, (mem_generatedSpecs ha).2⟩) nodup_generatedSpecs fun _ => besides_symm

/-! ## Explicit seats -/

theorem near_symm (a b : SeatSpec) : near a b = near b a := by
  have hSq : hypotSq (a.x - b.x) (a.y - b.y) = hypotSq (b.x - a.x) (b.y - a.y) := by
    rw [← hypotSq_neg, neg_sub, neg_sub]
  simp only [near, hSq, ne_comm]

theorem near_mutual {specs : List SeatSpec} {a : SeatSpec} (ha : a ∈ specs) {i : Text}
    (hi : i ∈ (specs.filter (near a)).map SeatSpec.id) :
    ∃ b ∈ specs, b.id = i ∧ a.id ∈ (specs.filter (near b)).map SeatSpec.id := by
  obtain ⟨b, hb, rfl⟩ := mem_map.mp hi
  obtain ⟨hMem, hNear⟩ := mem_filter.mp hb
  refine ⟨b, hMem, rfl, mem_map.mpr ⟨a, mem_filter.mpr ⟨ha, ?_⟩, rfl⟩⟩
  rw [near_symm]
  exact hNear

theorem explicitSeat_id {fmt : Format} {tableId : Text} {width height : ℚ} {place : Text}
    {v : Json × Nat} {s : SeatSpec} (h : explicitSeat fmt tableId width height place v = .ok s) :
    ∃ label, s.id = seatId tableId label := by
  unfold explicitSeat at h
  obtain ⟨o, -, h⟩ := bind_eq_ok.mp h
  obtain ⟨-, -, h⟩ := bind_eq_ok.mp h
  obtain ⟨side, -, h⟩ := bind_eq_ok.mp h
  obtain ⟨label, -, h⟩ := bind_eq_ok.mp h
  obtain ⟨x, -, h⟩ := bind_eq_ok.mp h
  obtain ⟨y, -, h⟩ := bind_eq_ok.mp h
  cases h
  exact ⟨label, rfl⟩

def explicitSeats (fmt : Format) (v : Json) (tableId : Text) (capacity : Nat) (width height : ℚ)
    (place : Text) : Except Text (Seating tableId capacity) :=
  let error := .error (place ++ js ".seats: expected exactly " ++ Text.decimal capacity ++
    js " seats (the table's capacity)")
  match v with
  | .array vs =>
    if hLength : vs.length = capacity then
      match hSpecs : vs.zipIdx.mapM (explicitSeat fmt tableId width height place) with
      | .error e => .error e
      | .ok specs =>
        if hNodup : (specs.map SeatSpec.id).Nodup then
          .ok (.of specs (fun a => (specs.filter (near a)).map SeatSpec.id)
            (by rw [length_of_mapM hSpecs, List.length_zipIdx, hLength])
            (fun _ ha => (mem_of_mapM hSpecs ha).elim fun _ h => explicitSeat_id h.2) hNodup
            fun _ => near_mutual)
        else .error (place ++ js ".seats: duplicate seat id")
    else error
  | _ => error

end TMEdge.Occupancy
