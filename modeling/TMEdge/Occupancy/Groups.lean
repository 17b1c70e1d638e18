import TMEdge.Library.BreadthFirst
import TMEdge.Library.JsSort
import TMEdge.Library.Lists
import TMEdge.Occupancy.Snapshot

/-!
# Seats together

`findGroup`, `searchSeats` and `neighbouringTables` of `src/shared/seats.ts`. A group at one table
is searched breadth first over its free seats, from each of them; a group at two tables is cut off
the free seats of both.

* `findGroup_spec`: a group is found exactly where as many free seats are connected, and it is
  connected itself.
* `searchSeats_iff`: every suggestion names as many distinct free seats as asked for, exactly when
  no two tables of a suggestion have a seat id in common among the seats cut off (`PairsApart`).
-/

namespace TMEdge.Occupancy

open Library List JsMap

/-! ## One table -/

/-- The free seats of a table. -/
def TableState.freeList (table : TableState) : List SeatState :=
  table.seats.filter fun s => s.occupied = some false

/-- `free` of `findGroup` -/
def freeSeats (table : TableState) : JsMap Text SeatState :=
  table.freeList.foldl (fun m s => m.set s.id s) .empty

/-- `Number(s.side !== seat.side)` -/
def away (seat s : SeatState) : ℚ := if s.side ≠ seat.side then 1 else 0

/-- `next` of `findGroup` -/
def nextSeats (js : JsSort) (free : JsMap Text SeatState) (seen : List Text) (seat : SeatState) :
    List SeatState :=
  js.sort (fun a b => away seat a - away seat b)
    ((seat.neighbors.filterMap free.get).filter fun s => s.id ∉ seen)

/-- `picked` of one start -/
def pick (js : JsSort) (free : JsMap Text SeatState) (n : Nat) (start : SeatState) :
    List SeatState :=
  breadthFirst SeatState.id (nextSeats js free) n [start.id] [start]

/-- `new Set(picked.map((s) => s.side)).size` -/
def sidesOf (picked : List SeatState) : Nat := (picked.map SeatState.side).toFinset.card

/-- One start. `best` and `bestSides` come together: at first there is none. -/
def tryStart (js : JsSort) (free : JsMap Text SeatState) (n : Nat)
    (best : Option (List Text × Nat)) (start : SeatState) : Option (List Text × Nat) :=
  let picked := pick js free n start
  if picked.length < n then best
  else
    let sides := sidesOf picked
    match best with
    | none => some (picked.map SeatState.id, sides)
    | some (ids, bestSides) =>
      if sides < bestSides then some (picked.map SeatState.id, sides) else some (ids, bestSides)

def findGroup (js : JsSort) (table : TableState) (n : Nat) : Option (List Text) :=
  if table.status = .unknown ∨ n < 1 then none
  else
    let free := freeSeats table
    if free.size < n then none
    else (free.values.foldl (tryStart js free n) none).map Prod.fst

/-! ## All tables -/

structure SeatSuggestion where
  floorId : Text
  floorName : Text
  building : Text
  tableIds : List Text
  tableName : Text
  seatIds : List Text
  freeAtTable : Int
  capacity : Nat
  busyness : ℚ

def gap (x width x' width' : ℚ) : ℚ := max 0 (max x x' - min (x + width) (x' + width'))

/-- Tables of one zone, within three metres of each other. -/
def neighbouring (a b : TableState) : Bool :=
  a.zoneId = b.zoneId &&
    within (hypotSq (gap a.rect.x a.rect.width b.rect.x b.rect.width)
      (gap a.rect.y a.rect.height b.rect.y b.rect.height)) 300

def neighbouringTables : List TableState → List (TableState × TableState)
  | [] => []
  | a :: rest => (rest.filter (neighbouring a)).map (fun b => (a, b)) ++ neighbouringTables rest

def tableSuggestion (js : JsSort) (n : Nat) (floor : FloorState) (table : TableState) :
    Option SeatSuggestion :=
  match findGroup js table n, table.free, table.occupied with
  | some group, some free, some occupied =>
    some {
      floorId := floor.id, floorName := floor.name, building := floor.building
      tableIds := [table.id], tableName := table.name, seatIds := group, freeAtTable := free
      capacity := table.capacity, busyness := occupied / table.capacity }
  | _, _, _ => none

def pairSuggestion (n : Nat) (floor : FloorState) (tables : TableState × TableState) :
    Option SeatSuggestion :=
  let (a, b) := tables
  match a.free, b.free, a.occupied, b.occupied with
  | some aFree, some bFree, some aOccupied, some bOccupied =>
    if aFree + bFree < n then none
    else
      some {
        floorId := floor.id, floorName := floor.name, building := floor.building
        tableIds := [a.id, b.id], tableName := a.name ++ js " + " ++ b.name
        seatIds := (((a.seats ++ b.seats).filter fun s => s.occupied = some false).take n).map
          SeatState.id
        freeAtTable := aFree + bFree, capacity := a.capacity + b.capacity
        busyness := ((aOccupied + bOccupied : Nat) : ℚ) / (a.capacity + b.capacity : Nat) }
  | _, _, _, _ => none

def maxCapacity (tables : List TableState) : Nat := (tables.map TableState.capacity).foldl max 0

/-- What the loop over the floors pushes for one. -/
def floorSuggestions (js : JsSort) (n : Nat) (floor : FloorState) : List SeatSuggestion :=
  floor.tables.filterMap (tableSuggestion js n floor) ++
    if maxCapacity floor.tables < n then
      (neighbouringTables floor.tables).filterMap (pairSuggestion n floor)
    else []

def searched (floorId : Option Text) (floor : FloorState) : Bool :=
  match floorId with
  | none => true
  | some id => id = [] || floor.id = id

/-- Fewest tables first, then the quietest, then the most seats. -/
def quietest (p q : SeatSuggestion) : ℚ :=
  let tables := (p.tableIds.length : ℚ) - q.tableIds.length
  let busyness := p.busyness - q.busyness
  if tables ≠ 0 then tables
  else if busyness ≠ 0 then busyness
  else q.freeAtTable - p.freeAtTable

def searchSeats (js : JsSort) (floors : List FloorState) (n : Nat) (floorId : Option Text) :
    List SeatSuggestion :=
  js.sort quietest ((floors.filter (searched floorId)).flatMap (floorSuggestions js n))

/-! ## How seats are made -/

def SeatState.spec (s : SeatState) : SeatSpec where
  id := s.id
  x := s.x
  y := s.y
  side := s.side
  index := s.index
  neighbors := s.neighbors

/-- A seating that `generateSeats` or `explicitSeats` makes. -/
inductive Made {tableId : Text} {capacity : Nat} : Seating tableId capacity → Prop
  | generated (rect : Rect) : Made (generateSeats tableId rect capacity)
  | explicit {fmt : Format} {v : Json} {width height : ℚ} {place : Text}
      {seating : Seating tableId capacity}
      (h : explicitSeats fmt v tableId capacity width height place = .ok seating) : Made seating

/-- The seats are made in one of these ways, and each is taken, free or unknown. -/
def Seated (table : TableState) : Prop :=
  ∃ (tableId : Text) (capacity : Nat) (seating : Seating tableId capacity),
    Made seating ∧ table.seats.map SeatState.spec = seating.seats

section made

variable {tableId : Text} {capacity : Nat} {seating : Seating tableId capacity}

/-- The places beside a seat. -/
def besidePlaces (sides : SeatSide × SeatSide) (side : SeatSide) (index : Int) :
    List (SeatSide × Int) :=
  [(side, index - 1), (side, index + 1), (if side = sides.1 then sides.2 else sides.1, index)]

theorem besides_eq (seats : List SeatSpec) (sides : SeatSide × SeatSide) (seat : SeatSpec) :
    besides seats sides seat = (besidePlaces sides seat.side seat.index).filterMap fun p =>
      (seatAt seats p.1 p.2).map SeatSpec.id := by
  show List.map SeatSpec.id (List.filterMap id ((besidePlaces sides seat.side seat.index).map
    fun p => seatAt seats p.1 p.2)) = _
  rw [map_filterMap, filterMap_map]
  rfl

theorem nodup_besidePlaces {sides : SeatSide × SeatSide} (hSides : sides.1 ≠ sides.2)
    (side : SeatSide) (index : Int) : (besidePlaces sides side index).Nodup := by
  have hOther : side ≠ if side = sides.1 then sides.2 else sides.1 := by
    split
    next h => exact h ▸ hSides
    next h => exact h
  simp [besidePlaces, hOther]
  omega

theorem nodup_besides {seats : List SeatSpec} (hIds : (seats.map SeatSpec.id).Nodup)
    {sides : SeatSide × SeatSide} (hSides : sides.1 ≠ sides.2) (seat : SeatSpec) :
    (besides seats sides seat).Nodup := by
  rw [besides_eq]
  refine (nodup_besidePlaces hSides seat.side seat.index).filterMap fun p q id hp hq => ?_
  obtain ⟨a, ha, rfl⟩ := Option.map_eq_some_iff.mp hp
  obtain ⟨b, hb, hId⟩ := Option.map_eq_some_iff.mp hq
  obtain ⟨haMem, haSide, haIndex⟩ := seatAt_some ha
  obtain ⟨hbMem, hbSide, hbIndex⟩ := seatAt_some hb
  obtain rfl := inj_on_of_nodup_map hIds hbMem haMem hId
  exact Prod.ext (haSide.symm.trans hbSide) (haIndex.symm.trans hbIndex)

theorem Made.links (h : Made seating) {a : SeatSpec} (ha : a ∈ seating.seats) :
    a.neighbors.Nodup := by
  cases h with
  | generated rect =>
    obtain ⟨s, -, rfl⟩ := mem_map.mp ha
    exact nodup_besides nodup_generatedSpecs (generatedSides_ne rect) s
  | explicit h =>
    unfold explicitSeats at h
    split at h
    next =>
      split at h
      next =>
        split at h
        next => cases h
        next specs _ =>
          split at h
          next hNodup =>
            cases h
            obtain ⟨s, -, rfl⟩ := mem_map.mp ha
            exact hNodup.sublist (filter_sublist.map _)
          next => cases h
      next => cases h
    next => cases h

end made

/-- Seats with ids of their own, and links both ways. -/
structure SeatLinks (table : TableState) : Prop where
  ids : (table.seats.map SeatState.id).Nodup
  links : ∀ a ∈ table.seats, a.neighbors.Nodup
  mutual_ : ∀ a ∈ table.seats, ∀ b ∈ table.seats, b.id ∈ a.neighbors → a.id ∈ b.neighbors

theorem Seated.linked {table : TableState} (h : Seated table) : SeatLinks table := by
  obtain ⟨tableId, capacity, seating, hMade, hSeats⟩ := h
  have hIds : table.seats.map SeatState.id = seating.seats.map SeatSpec.id := by
    rw [← hSeats, map_map]
    rfl
  have hMem : ∀ a ∈ table.seats, a.spec ∈ seating.seats := fun a ha =>
    hSeats ▸ mem_map_of_mem ha
  refine ⟨hIds ▸ seating.nodup, fun a ha => hMade.links (hMem a ha), fun a ha b hb hLink => ?_⟩
  obtain ⟨c, hc, hId, hBack⟩ := seating.neighbors _ (hMem a ha) _ hLink
  obtain rfl := inj_on_of_nodup_map seating.nodup hc (hMem b hb) hId
  exact hBack

/-! ## Free seats -/

section free

variable {table : TableState} {js : JsSort} {n : Nat} {a b s start : SeatState}

/-- Seats next to each other or across, both free. -/
def Together (table : TableState) (a b : SeatState) : Prop :=
  a ∈ table.freeList ∧ b ∈ table.freeList ∧ b.id ∈ a.neighbors

/-- The free seats connected with one. -/
def component (table : TableState) (start : SeatState) : Set SeatState :=
  {s | Relation.ReflTransGen (Together table) start s}

/-- A group of connected free seats. -/
def SitTogether (table : TableState) (n : Nat) (group : List Text) : Prop :=
  group.length = n ∧ group.Nodup ∧ ∃ picked : List SeatState, group = picked.map SeatState.id ∧
    (∀ s ∈ picked, s ∈ table.freeList) ∧ ∀ a ∈ picked, ∀ b ∈ picked,
      Relation.ReflTransGen (fun x y => Together table x y ∧ x ∈ picked ∧ y ∈ picked) a b

/-- What `findGroup` is for. -/
def FindsGroup (js : JsSort) (table : TableState) (n : Nat) : Prop :=
  (findGroup js table n = none ↔ table.status = .unknown ∨
    ∀ start ∈ table.freeList, (component table start).encard < n) ∧
      ∀ group, findGroup js table n = some group → SitTogether table n group

theorem mem_freeList : s ∈ table.freeList ↔ s ∈ table.seats ∧ s.occupied = some false := by
  rw [TableState.freeList, mem_filter, decide_eq_true_eq]

theorem SeatLinks.free (h : SeatLinks table) : (table.freeList.map SeatState.id).Nodup :=
  h.ids.sublist (filter_sublist.map _)

theorem get_freeSeats (h : SeatLinks table) {id : Text} :
    (freeSeats table).get id = some s ↔ s ∈ table.freeList ∧ s.id = id :=
  get_foldl_set_eq_some SeatState.id h.free

theorem mem_values_freeSeats (h : SeatLinks table) :
    s ∈ (freeSeats table).values ↔ s ∈ table.freeList := by
  rw [mem_values_iff]
  simp only [get_freeSeats h, exists_and_left, exists_eq', and_true]

theorem size_freeSeats (h : SeatLinks table) : (freeSeats table).size = table.freeList.length := by
  refine (size_foldl_set SeatState.id (fun s => s) h.free
    (by simp [JsMap.keys, JsMap.empty])).trans ?_
  simp [JsMap.size, JsMap.empty]

theorem together_symm (h : SeatLinks table) (hStep : Together table a b) : Together table b a :=
  ⟨hStep.2.1, hStep.1, h.mutual_ a (mem_freeList.mp hStep.1).1 b (mem_freeList.mp hStep.2.1).1
    hStep.2.2⟩

theorem mem_nextSeats (h : SeatLinks table) (seen : List Text) :
    b ∈ nextSeats js (freeSeats table) seen a ↔
      (b ∈ table.freeList ∧ b.id ∈ a.neighbors) ∧ b.id ∉ seen := by
  rw [nextSeats, JsSort.mem_sort, mem_filter, mem_filterMap, decide_eq_true_eq]
  refine and_congr_left fun _ => ?_
  simp only [get_freeSeats h]
  constructor
  · rintro ⟨_, hId, hb, rfl⟩
    exact ⟨hb, hId⟩
  · rintro ⟨hb, hId⟩
    exact ⟨b.id, hId, hb, rfl⟩

theorem nodup_nextSeats (h : SeatLinks table) (seen : List Text) (ha : a ∈ table.seats) :
    ((nextSeats js (freeSeats table) seen a).map SeatState.id).Nodup := by
  refine ((js.perm _ _).map SeatState.id).nodup_iff.mpr
    (List.Nodup.sublist (filter_sublist.map _) ?_)
  have hKeys : ∀ i s, (freeSeats table).get i = some s → s.id = id i :=
    fun _ _ hGet => ((get_freeSeats h).mp hGet).2
  have hSub := keys_filterMap_sublist hKeys a.neighbors
  rw [map_id] at hSub
  exact (h.links a ha).sublist hSub

theorem finds_nextSeats (js : JsSort) (h : SeatLinks table) :
    Finds SeatState.id (nextSeats js (freeSeats table)) (Together table)
      (· ∈ table.freeList) where
  inside _ _ hStep := hStep.2.1
  key_inj _ _ ha hb hId := inj_on_of_nodup_map h.free ha hb hId
  mem seen a b ha := by
    rw [mem_nextSeats h]
    exact and_congr_left fun _ => ⟨fun hb => ⟨ha, hb⟩, fun hStep => hStep.2⟩
  nodup seen a ha := nodup_nextSeats h seen (mem_freeList.mp ha).1

end free

/-! ## One group -/

section group

variable {table : TableState} {js : JsSort} {free : JsMap Text SeatState} {n : Nat}
  {best : Option (List Text × Nat)} {starts : List SeatState} {start : SeatState}

/-- The best group of the starts so far, on the fewest sides. -/
def BestPick (js : JsSort) (free : JsMap Text SeatState) (n : Nat) (starts : List SeatState) :
    Option (List Text × Nat) → Prop
  | none => ∀ s ∈ starts, (pick js free n s).length < n
  | some (ids, sides) => (∃ s ∈ starts, n ≤ (pick js free n s).length ∧
      ids = (pick js free n s).map SeatState.id ∧ sides = sidesOf (pick js free n s)) ∧
    ∀ s ∈ starts, n ≤ (pick js free n s).length → sides ≤ sidesOf (pick js free n s)

theorem best_tryStart (h : BestPick js free n starts best) (start : SeatState) :
    BestPick js free n (starts ++ [start]) (tryStart js free n best start) := by
  unfold tryStart
  dsimp only
  split
  next hShort =>
    -- the start is passed over
    rcases best with - | ⟨ids, sides⟩
    · intro s hs
      rcases mem_append.mp hs with hs | hs
      · exact h s hs
      · exact mem_singleton.mp hs ▸ hShort
    · obtain ⟨⟨s, hs, hFound⟩, hLeast⟩ := h
      refine ⟨⟨s, mem_append_left _ hs, hFound⟩, fun s' hs' hLong => ?_⟩
      rcases mem_append.mp hs' with hs' | hs'
      · exact hLeast s' hs' hLong
      · obtain rfl := mem_singleton.mp hs'
        omega
  next hLong =>
    rw [not_lt] at hLong
    have hLast : start ∈ starts ++ [start] := by simp
    rcases best with - | ⟨ids, sides⟩
    · refine ⟨⟨start, hLast, hLong, rfl, rfl⟩, fun s hs hLong' => ?_⟩
      rcases mem_append.mp hs with hs | hs
      · exact absurd (h s hs) (not_lt.mpr hLong')
      · rw [mem_singleton.mp hs]
    · obtain ⟨⟨s, hs, hFound⟩, hLeast⟩ := h
      dsimp only
      split
      next hFewer =>
        refine ⟨⟨start, hLast, hLong, rfl, rfl⟩, fun s' hs' hLong' => ?_⟩
        rcases mem_append.mp hs' with hs' | hs'
        · exact hFewer.le.trans (hLeast s' hs' hLong')
        · rw [mem_singleton.mp hs']
      next hMore =>
        refine ⟨⟨s, mem_append_left _ hs, hFound⟩, fun s' hs' hLong' => ?_⟩
        rcases mem_append.mp hs' with hs' | hs'
        · exact hLeast s' hs' hLong'
        · exact mem_singleton.mp hs' ▸ not_lt.mp hMore

theorem best_foldl (h : BestPick js free n starts best) (rest : List SeatState) :
    BestPick js free n (starts ++ rest) (rest.foldl (tryStart js free n) best) := by
  induction rest generalizing starts best with
  | nil => rwa [append_nil]
  | cons start rest ih =>
    have hNext := ih (best_tryStart h start)
    rwa [append_assoc, singleton_append] at hNext

theorem BestPick.congr {starts' : List SeatState} (hMem : ∀ s, s ∈ starts ↔ s ∈ starts')
    (h : BestPick js free n starts best) : BestPick js free n starts' best := by
  rcases best with - | ⟨ids, sides⟩
  · exact fun s hs => h s ((hMem s).mpr hs)
  · obtain ⟨⟨s, hs, hFound⟩, hLeast⟩ := h
    exact ⟨⟨s, (hMem s).mp hs, hFound⟩, fun s' hs' => hLeast s' ((hMem s').mpr hs')⟩

/-- What `findGroup` gives: the picks of a start that has enough of them, on the fewest sides. -/
theorem findGroup_best (js : JsSort) (h : SeatLinks table) (hn : 1 ≤ n)
    (hKnown : table.status ≠ .unknown) : ∃ best,
      findGroup js table n = best.map Prod.fst ∧
        BestPick js (freeSeats table) n table.freeList best := by
  have hGuard : ¬ (table.status = .unknown ∨ n < 1) := by
    rintro (hStatus | hLess)
    · exact hKnown hStatus
    · omega
  rw [findGroup, if_neg hGuard]
  dsimp only
  split
  next hFew =>
    refine ⟨none, rfl, fun s hs => ?_⟩
    -- fewer seats are free than asked for
    obtain ⟨hNodup, hFree, -⟩ :=
      connected_breadthFirst (finds_nextSeats js h) hs n
    rw [size_freeSeats h] at hFew
    refine lt_of_le_of_lt ?_ hFew
    exact ((List.Nodup.of_map _ hNodup).subperm fun a ha => hFree a ha).length_le
  next =>
    have hStart : BestPick js (freeSeats table) n [] none := fun s hs => absurd hs not_mem_nil
    have hBest := best_foldl hStart (freeSeats table).values
    rw [nil_append] at hBest
    exact ⟨_, rfl, hBest.congr fun s => mem_values_freeSeats h⟩

theorem encard_component_lt (js : JsSort) (h : SeatLinks table) (hs : start ∈ table.freeList) :
    (component table start).encard < n ↔ (pick js (freeSeats table) n start).length < n := by
  have hIff := le_encard_iff (finds_nextSeats js h) hs n
  have hLe := length_breadthFirst_le SeatState.id (nextSeats js (freeSeats table)) n [start.id]
    [start]
  rw [← not_le, component, hIff, lt_iff_le_and_ne]
  exact (and_iff_right hLe).symm

theorem sitTogether_pick (h : SeatLinks table) (hs : start ∈ table.freeList)
    (hLong : n ≤ (pick js (freeSeats table) n start).length) :
    SitTogether table n ((pick js (freeSeats table) n start).map SeatState.id) := by
  have hFinds := finds_nextSeats js h
  obtain ⟨hNodup, hFree, -⟩ := connected_breadthFirst hFinds hs n
  have hLength : (pick js (freeSeats table) n start).length = n :=
    le_antisymm (length_breadthFirst_le _ _ n _ _) hLong
  exact ⟨by rw [length_map, hLength], hNodup, _, rfl, hFree,
    joined_breadthFirst hFinds hs (fun _ _ hStep => together_symm h hStep) n⟩

theorem findGroup_spec (js : JsSort) (h : Seated table) (hn : 1 ≤ n) : FindsGroup js table n := by
  have hLinked := h.linked
  by_cases hStatus : table.status = .unknown
  · have hNone : findGroup js table n = none := by rw [findGroup, if_pos (.inl hStatus)]
    refine ⟨iff_of_true hNone (.inl hStatus), fun group hGroup => ?_⟩
    rw [hNone] at hGroup
    cases hGroup
  obtain ⟨best, hFound, hBest⟩ := findGroup_best js hLinked hn hStatus
  rw [FindsGroup, hFound]
  rcases best with - | ⟨ids, sides⟩
  · refine ⟨iff_of_true rfl (.inr fun s hs => ?_), nofun⟩
    exact (encard_component_lt js hLinked hs).mpr (hBest s hs)
  · obtain ⟨⟨s, hs, hLong, rfl, -⟩, -⟩ := hBest
    refine ⟨iff_of_false nofun ?_, fun group hGroup => ?_⟩
    · rintro (hUnknown | hAll)
      · exact hStatus hUnknown
      · exact absurd ((encard_component_lt js hLinked hs).mp (hAll s hs)) (not_lt.mpr hLong)
    · cases hGroup
      exact sitTogether_pick hLinked hs hLong

end group

/-! ## Suggestions -/

/-- A table as a snapshot shows it. -/
structure TableState.Consistent (table : TableState) : Prop where
  seated : Seated table
  length_eq : table.seats.length = table.capacity
  known : table.status ≠ .unknown → (∀ s ∈ table.seats, s.occupied ≠ none) ∧ ∃ k,
    k = table.seats.countP (fun s => s.occupied = some true) ∧ table.occupied = some k ∧
      table.free = some ((table.capacity : Int) - k)
  unknown : table.status = .unknown → (∀ s ∈ table.seats, s.occupied = none) ∧
    table.occupied = none ∧ table.free = none

/-- A suggestion of a floor names `n` distinct free seats, of the tables it lists and of no unknown
one. -/
structure Names (floor : FloorState) (n : Nat) (s : SeatSuggestion) (tables : List TableState) :
    Prop where
  floorId : s.floorId = floor.id
  listed : tables.Sublist floor.tables ∧ s.tableIds = tables.map TableState.id
  known : ∀ t ∈ tables, t.status ≠ .unknown
  count : s.seatIds.length = n
  distinct : s.seatIds.Nodup
  free : ∀ id ∈ s.seatIds, ∃ t ∈ tables, ∃ seat ∈ t.freeList, seat.id = id

/-- The seats that are cut off two tables have no id in common. -/
def PairApart (n : Nat) (a b : TableState) : Prop :=
  ∀ s ∈ a.freeList, ∀ s' ∈ b.freeList.take (n - a.freeList.length), s.id ≠ s'.id

/-- So it is for every two tables that are searched together: known neighbours, on a floor without
a table for `n`, that have `n` free seats between them. -/
def PairsApart (floors : List FloorState) (n : Nat) (floorId : Option Text) : Prop :=
  ∀ floor ∈ floors, searched floorId floor = true → maxCapacity floor.tables < n →
    ∀ p ∈ neighbouringTables floor.tables, p.1.status ≠ .unknown → p.2.status ≠ .unknown →
      n ≤ p.1.freeList.length + p.2.freeList.length → PairApart n p.1 p.2

section suggestions

variable {js : JsSort} {n : Nat} {floor : FloorState} {floors : List FloorState}
  {floorId : Option Text} {table a b : TableState} {tables : List TableState} {s : SeatSuggestion}

theorem free_eq (h : table.Consistent) (hKnown : table.status ≠ .unknown) :
    ∃ k, table.occupied = some k ∧ table.free = some (table.freeList.length : Int) := by
  obtain ⟨hSeats, k, hCount, hOccupied, hFree⟩ := h.known hKnown
  refine ⟨k, hOccupied, hFree.trans ?_⟩
  have hAll := length_eq_countP_add_countP (fun s : SeatState => s.occupied = some true)
    (l := table.seats)
  have hRest : table.freeList.length =
      table.seats.countP fun s => ¬ decide (s.occupied = some true) = true := by
    rw [TableState.freeList, ← countP_eq_length_filter]
    refine countP_congr fun s hs => ?_
    have hSome := hSeats s hs
    rcases hOcc : s.occupied with - | - | -
    · exact absurd hOcc hSome
    · simp
    · simp
  rw [h.length_eq, ← hCount, ← hRest] at hAll
  rw [hAll]
  push_cast
  ring_nf

theorem sublist_of_mem_neighbouringTables (h : (a, b) ∈ neighbouringTables tables) :
    [a, b].Sublist tables := by
  induction tables with
  | nil => cases h
  | cons c rest ih =>
    rcases mem_append.mp h with h | h
    · obtain ⟨d, hd, hEq⟩ := mem_map.mp h
      cases hEq
      exact .cons_cons _ (singleton_sublist.mpr (mem_filter.mp hd).1)
    · exact (ih h).cons c

theorem capacity_le_maxCapacity (h : table ∈ tables) : table.capacity ≤ maxCapacity tables :=
  (le_foldl_max _ 0).2 _ (mem_map_of_mem h)

theorem tableSuggestion_names (hn : 1 ≤ n) (hTable : table ∈ floor.tables) (h : Seated table)
    (hSome : tableSuggestion js n floor table = some s) : Names floor n s [table] := by
  unfold tableSuggestion at hSome
  split at hSome
  next group free occupied hGroup hFree hOccupied =>
    cases hSome
    obtain ⟨hNone, hFound⟩ := findGroup_spec js h hn
    obtain ⟨hLength, hNodup, picked, rfl, hPicked, -⟩ := hFound group hGroup
    have hKnown : table.status ≠ .unknown := fun hStatus => by
      rw [hNone.mpr (.inl hStatus)] at hGroup
      cases hGroup
    refine ⟨rfl, ⟨singleton_sublist.mpr hTable, rfl⟩, fun t ht => ?_, hLength, hNodup,
      fun id hId => ?_⟩
    · exact mem_singleton.mp ht ▸ hKnown
    · obtain ⟨seat, hSeat, rfl⟩ := mem_map.mp hId
      exact ⟨table, mem_singleton_self table, seat, hPicked seat hSeat, rfl⟩
  next => cases hSome

theorem freeList_append :
    (a.seats ++ b.seats).filter (fun s => s.occupied = some false) = a.freeList ++ b.freeList :=
  filter_append ..

/-- A suggestion of two tables. -/
theorem pairSuggestion_eq_some (ha : a.Consistent) (hb : b.Consistent)
    (h : pairSuggestion n floor (a, b) = some s) :
    (a.status ≠ .unknown ∧ b.status ≠ .unknown ∧ n ≤ a.freeList.length + b.freeList.length) ∧
      s.floorId = floor.id ∧ s.tableIds = [a.id, b.id] ∧
        s.seatIds = ((a.freeList ++ b.freeList).take n).map SeatState.id := by
  unfold pairSuggestion at h
  dsimp only at h
  split at h
  next aFree bFree aOccupied bOccupied hFreeA hFreeB hOccupiedA hOccupiedB =>
    have hKnownA : a.status ≠ .unknown := fun hStatus => by
      rw [(ha.unknown hStatus).2.1] at hOccupiedA
      cases hOccupiedA
    have hKnownB : b.status ≠ .unknown := fun hStatus => by
      rw [(hb.unknown hStatus).2.1] at hOccupiedB
      cases hOccupiedB
    obtain ⟨-, -, hA⟩ := free_eq ha hKnownA
    obtain ⟨-, -, hB⟩ := free_eq hb hKnownB
    cases hFreeA.symm.trans hA
    cases hFreeB.symm.trans hB
    split at h
    next => cases h
    next hEnough =>
      cases h
      refine ⟨⟨hKnownA, hKnownB, by omega⟩, rfl, rfl, ?_⟩
      rw [freeList_append]
  next => cases h

theorem exists_pairSuggestion (floor : FloorState) (ha : a.Consistent) (hb : b.Consistent)
    (hKnownA : a.status ≠ .unknown) (hKnownB : b.status ≠ .unknown)
    (hEnough : n ≤ a.freeList.length + b.freeList.length) :
    ∃ s, pairSuggestion n floor (a, b) = some s := by
  obtain ⟨k, hOccupiedA, hFreeA⟩ := free_eq ha hKnownA
  obtain ⟨l, hOccupiedB, hFreeB⟩ := free_eq hb hKnownB
  unfold pairSuggestion
  simp only [hOccupiedA, hFreeA, hOccupiedB, hFreeB]
  rw [if_neg (by omega)]
  exact ⟨_, rfl⟩

/-- The seats cut off two tables are distinct exactly when the tables are apart. -/
theorem nodup_cut_iff (ha : a.Consistent) (hb : b.Consistent) (hLarge : a.capacity < n) :
    (((a.freeList ++ b.freeList).take n).map SeatState.id).Nodup ↔ PairApart n a b := by
  have hFew : a.freeList.length ≤ n :=
    (length_filter_le _ _).trans (ha.length_eq.le.trans hLarge.le)
  have hNodupB : ((b.freeList.take (n - a.freeList.length)).map SeatState.id).Nodup :=
    hb.seated.linked.free.sublist ((take_sublist _ _).map _)
  rw [take_append, take_of_length_le hFew, map_append, nodup_append]
  simp only [mem_map, forall_exists_index, and_imp, forall_apply_eq_imp_iff₂, PairApart]
  exact ⟨fun h => h.2.2, fun h => ⟨ha.seated.linked.free, hNodupB, h⟩⟩

theorem mem_searchSeats : s ∈ searchSeats js floors n floorId ↔
    ∃ floor ∈ floors, searched floorId floor = true ∧ s ∈ floorSuggestions js n floor := by
  rw [searchSeats, JsSort.mem_sort, mem_flatMap]
  simp only [mem_filter, and_assoc]

theorem pairSuggestion_names (ha : a.Consistent) (hb : b.Consistent)
    (hPair : (a, b) ∈ neighbouringTables floor.tables) (hLarge : maxCapacity floor.tables < n)
    (hSome : pairSuggestion n floor (a, b) = some s) (hApart : PairApart n a b) :
    Names floor n s [a, b] := by
  have hSub := sublist_of_mem_neighbouringTables hPair
  have hCapacity : a.capacity < n :=
    (capacity_le_maxCapacity (hSub.subset (by simp))).trans_lt hLarge
  obtain ⟨⟨hKnownA, hKnownB, hEnough⟩, hFloor, hTables, hSeats⟩ :=
    pairSuggestion_eq_some ha hb hSome
  refine ⟨hFloor, ⟨hSub, hTables⟩, by simp [hKnownA, hKnownB], ?_, ?_, fun id hId => ?_⟩
  · rw [hSeats, length_map, length_take, length_append]
    exact min_eq_left hEnough
  · rw [hSeats]
    exact (nodup_cut_iff ha hb hCapacity).mpr hApart
  · rw [hSeats] at hId
    obtain ⟨seat, hSeat, rfl⟩ := mem_map.mp hId
    rcases mem_append.mp (mem_of_mem_take hSeat) with hSeat | hSeat
    · exact ⟨a, by simp, seat, hSeat, rfl⟩
    · exact ⟨b, by simp, seat, hSeat, rfl⟩

/-- The search at one table is sound and complete; that of suggestions is sound exactly when no two
tables that are searched together are cut off the same seat id twice. -/
theorem searchSeats_iff (js : JsSort) {n : Nat} (hn : 1 ≤ n) {floors : List FloorState}
    (hFloors : ∀ floor ∈ floors, ∀ t ∈ floor.tables, t.Consistent) (floorId : Option Text) :
    (∀ table, Seated table → FindsGroup js table n) ∧
      ((∀ s ∈ searchSeats js floors n floorId, ∃ floor ∈ floors, ∃ tables, Names floor n s tables) ↔
        PairsApart floors n floorId) := by
  refine ⟨fun table h => findGroup_spec js h hn, ?_, ?_⟩
  · rintro hAll floor hFloor hSearched hLarge ⟨a, b⟩ hPair hKnownA hKnownB hEnough
    have hSub := sublist_of_mem_neighbouringTables hPair
    have ha := hFloors floor hFloor a (hSub.subset (by simp))
    have hb := hFloors floor hFloor b (hSub.subset (by simp))
    obtain ⟨s, hSome⟩ := exists_pairSuggestion floor ha hb hKnownA hKnownB hEnough
    have hMem : s ∈ searchSeats js floors n floorId := by
      refine mem_searchSeats.mpr ⟨floor, hFloor, hSearched, List.mem_append_right _ ?_⟩
      rw [if_pos hLarge]
      exact List.mem_filterMap.mpr ⟨(a, b), hPair, hSome⟩
    obtain ⟨_, _, _, hNames⟩ := hAll s hMem
    have hDistinct := hNames.distinct
    rw [(pairSuggestion_eq_some ha hb hSome).2.2.2] at hDistinct
    refine (nodup_cut_iff ha hb ?_).mp hDistinct
    exact (capacity_le_maxCapacity (hSub.subset (by simp))).trans_lt hLarge
  · intro hApart s hs
    obtain ⟨floor, hFloor, hSearched, hs⟩ := mem_searchSeats.mp hs
    refine ⟨floor, hFloor, ?_⟩
    rcases List.mem_append.mp hs with hs | hs
    · obtain ⟨table, hTable, hSome⟩ := List.mem_filterMap.mp hs
      exact ⟨_, tableSuggestion_names hn hTable (hFloors floor hFloor table hTable).seated hSome⟩
    · split at hs
      next hLarge =>
        obtain ⟨⟨a, b⟩, hPair, hSome⟩ := List.mem_filterMap.mp hs
        have hSub := sublist_of_mem_neighbouringTables hPair
        have ha := hFloors floor hFloor a (hSub.subset (by simp))
        have hb := hFloors floor hFloor b (hSub.subset (by simp))
        obtain ⟨⟨hKnownA, hKnownB, hEnough⟩, -⟩ := pairSuggestion_eq_some ha hb hSome
        exact ⟨_, pairSuggestion_names ha hb hPair hLarge hSome
          (hApart floor hFloor hSearched hLarge (a, b) hPair hKnownA hKnownB hEnough)⟩
      next => cases hs

end suggestions

/-! ## What a snapshot shows -/

section shown

variable {fmt : Format} {u : Unicode} {lens : Lens} {siteJson nodesJson : Json} {reg : Registry}
  {table : TableDef} {floors floors' : List FloorDef} {p : Json × Nat}

theorem made_tableRead {earlier : List TableDef} {floor : FloorDef} {tw : Text} {v : Json}
    (h : TableRead fmt earlier floor tw v table) : Made table.seating := by
  obtain ⟨o, capacity, -, -, -, -, -, -, hSeating⟩ := h.fields
  unfold readSeats at hSeating
  split at hSeating
  next =>
    rw [← Except.ok.inj hSeating]
    exact .generated table.rect
  next => exact .explicit hSeating

theorem made_readFloor (hAll : ∀ f ∈ floors, ∀ t ∈ f.tables, Made t.seating)
    (h : readFloor fmt floors p = .ok floors') : ∀ f ∈ floors', ∀ t ∈ f.tables, Made t.seating := by
  obtain ⟨f, rfl, hRead⟩ := readFloor_eq_ok h
  obtain ⟨o, ts, error, -, -, floor, -, -, hTables⟩ := hRead.fields
  have hNew : ∀ t ∈ f.tables, Made t.seating := by
    refine foldlM_invariant (P := fun tables : List TableDef => ∀ t ∈ tables, Made t.seating)
      hTables nofun ?_
    intro tables p tables' hOld hTable
    obtain ⟨t, rfl, hRead⟩ := readTable_eq_ok hTable
    simpa [or_imp, forall_and] using ⟨hOld, made_tableRead hRead⟩
  simpa [or_imp, forall_and] using ⟨hAll, hNew⟩

/-- The seats of an accepted table are made in one of the two ways. -/
theorem made_buildRegistry (h : buildRegistry fmt u lens siteJson nodesJson = .ok reg)
    (hTable : table ∈ reg.tables) : Made table.seating := by
  unfold buildRegistry at h
  obtain ⟨⟨site, floors⟩, hSite, h⟩ := bind_eq_ok.mp h
  obtain ⟨acc, -, h⟩ := bind_eq_ok.mp h
  obtain ⟨covered, hCovered, h⟩ := bind_eq_ok.mp h
  cases h
  obtain ⟨o, fs, place, error, -, -, hFloors⟩ := readSite_eq_ok hSite
  have hMade : ∀ f ∈ floors, ∀ t ∈ f.tables, Made t.seating :=
    foldlM_invariant (P := fun floors : List FloorDef => ∀ f ∈ floors, ∀ t ∈ f.tables,
      Made t.seating) hFloors nofun fun _ _ _ hOld hRead => made_readFloor hOld hRead
  obtain ⟨f', hf', ht⟩ := mem_flatMap.mp hTable
  obtain ⟨f, hf, hFloor⟩ := mem_of_mapM hCovered hf'
  obtain ⟨tables, hTables, rfl⟩ := coverFloor_spec hFloor
  obtain ⟨t, htMem, hCover⟩ := mem_of_mapM hTables ht
  obtain ⟨owner, coveredBy, rfl⟩ := cover_eq hCover
  exact hMade f hf t htMem

theorem consistent_stateOf (e : Engine) (status : CoverageStatus) (h : Made table.seating) :
    (e.stateOf table status).Consistent := by
  have hSpec : ∀ known, (table.seats.map (e.seatState known)).map SeatState.spec = table.seats := by
    intro known
    rw [map_map]
    exact map_id _
  have hLength : ∀ known, (table.seats.map (e.seatState known)).length = table.capacity := by
    intro known
    rw [length_map]
    exact table.seating.length_eq
  refine ⟨⟨table.id, table.capacity, table.seating, h, hSpec _⟩, hLength _, ?_, ?_⟩
  · intro hStatus
    rcases hKnown : decide (status ≠ .unknown) && e.warm table with - | -
    · exact absurd (by simp only [Engine.stateOf, hKnown]; rfl) hStatus
    · simp only [Engine.stateOf, hKnown]
      refine ⟨fun s hs => ?_, _, rfl, rfl, rfl⟩
      obtain ⟨spec, -, rfl⟩ := mem_map.mp hs
      exact Option.some_ne_none _
  · intro hStatus
    rcases hKnown : decide (status ≠ .unknown) && e.warm table with - | -
    · simp only [Engine.stateOf, hKnown]
      refine ⟨fun s hs => ?_, rfl, rfl⟩
      obtain ⟨spec, -, rfl⟩ := mem_map.mp hs
      rfl
    · rw [Bool.and_eq_true, decide_eq_true_eq] at hKnown
      exact absurd ((status_of_warm hKnown.2).symm.trans hStatus) hKnown.1

/-- Every table of a snapshot is consistent. -/
theorem consistent_snapshot (h : buildRegistry fmt u lens siteJson nodesJson = .ok reg) (e : Engine)
    (now : ℚ) : ∀ floor ∈ (Engine.snapshot reg e now).2, ∀ t ∈ floor.tables, t.Consistent := by
  intro floor hFloor state hState
  have hTables := tables_floorStates e reg.floors now
  have hAll : List.Forall₂ (fun t state => Made (TableDef.seating t) → state.Consistent)
      (reg.floors.flatMap FloorDef.tables)
      (e.tableStates (reg.floors.flatMap FloorDef.tables) now).2 :=
    forall₂_tableStates fun _ t _ _ hMade => consistent_stateOf _ _ hMade
  rw [← hTables] at hAll
  obtain ⟨t, ht, hConsistent⟩ :=
    exists_of_forall₂ hAll (mem_flatMap.mpr ⟨floor, hFloor, hState⟩)
  exact hConsistent (made_buildRegistry h ht)

end shown

/-! ## Two desks with one seat id -/

/-- A desk of one seat, on its left. -/
def twinDesk (id : String) (x : ℚ) (seats : Fields) : Json :=
  .object ([(js "id", text id), (js "name", text id), (js "zone", text "main"), (js "x", .number x),
    (js "y", .number 100), (js "width", .number 80), (js "height", .number 120),
    (js "capacity", .number 1)] ++ seats)

/-- The seat of the first one is labelled by hand. -/
def twinSite : Json :=
  .object [(js "site", .object [(js "id", text "site"), (js "name", text "Site")]),
    (js "floors", .array [.object [(js "id", text "one"), (js "building", text "B"),
      (js "name", text "One"), (js "width", .number 1000), (js "height", .number 1000),
      (js "outline", corners),
      (js "zones", .array [.object [(js "id", text "main"), (js "name", text "Main"),
        (js "polygon", corners)]]),
      (js "tables", .array [
        twinDesk "desk" 100 [(js "seats", .array [.object [(js "id", text "1-L1"),
          (js "x", .number 65), (js "y", .number 160)]])],
        twinDesk "desk-1" 300 []])]])]

def twinNode (uid table : String) (x : ℚ) : Json :=
  .object [(js "uid", text uid), (js "floor", text "one"),
    (js "pose", .object [(js "x", .number x), (js "y", .number 160), (js "heightCm", .number 260)]),
    (js "owns", .array [text table])]

def twinNodes : Json :=
  .object [(js "nodes", .array [twinNode "00:00:00:00:00:01" "desk" 65,
    twinNode "00:00:00:00:00:02" "desk-1" 265])]

theorem twin_accepted :
    (buildRegistry terse ascii plumb twinSite twinNodes).toOption.isSome = true := by
  decide +kernel

def twin : Registry :=
  (buildRegistry terse ascii plumb twinSite twinNodes).toOption.get twin_accepted

theorem buildRegistry_twin : buildRegistry terse ascii plumb twinSite twinNodes = .ok twin := by
  have hGet : (buildRegistry terse ascii plumb twinSite twinNodes).toOption = some twin :=
    (Option.some_get twin_accepted).symm
  rcases hBuild : buildRegistry terse ascii plumb twinSite twinNodes with e | r
  · rw [hBuild] at hGet
    cases hGet
  · rw [hBuild] at hGet
    cases hGet
    rfl

/-- Both nodes report for a window, and nobody is there. -/
def twinReports : List OccupancyEvent :=
  (List.range 5).flatMap fun _ => [.report (heartbeat (js "00:00:00:00:00:01")) 1,
    .report (heartbeat (js "00:00:00:00:00:02")) 1]

def twinFloors : List FloorState :=
  (Engine.snapshot twin
    (run (Engine.step twin plumb) (Engine.new twin defaultOccupancy) twinReports) 1).2

theorem consistent_twinFloors : ∀ floor ∈ twinFloors, ∀ t ∈ floor.tables, t.Consistent :=
  consistent_snapshot buildRegistry_twin _ 1

theorem searchSeats_twin : (∀ table, Seated table → FindsGroup JsSort.insertion table 2) ∧
    ((∀ s ∈ searchSeats JsSort.insertion twinFloors 2 none, ∃ floor ∈ twinFloors, ∃ tables,
      Names floor 2 s tables) ↔ PairsApart twinFloors 2 none) :=
  searchSeats_iff JsSort.insertion (by decide) consistent_twinFloors none

theorem seatIds_twin : (searchSeats JsSort.insertion twinFloors 2 none).map
    SeatSuggestion.seatIds = [[js "desk-1-L1", js "desk-1-L1"]] := by
  decide +kernel

/-- Two people are sent to two desks, to one seat. -/
theorem one_seat_for_two : ¬ ∀ (js : JsSort) (n : Nat), 1 ≤ n → ∀ floors : List FloorState,
    (∀ floor ∈ floors, ∀ t ∈ floor.tables, t.Consistent) → ∀ floorId,
      (∀ table, Seated table → FindsGroup js table n) ∧
        ∀ s ∈ searchSeats js floors n floorId, ∃ floor ∈ floors, ∃ tables,
          Names floor n s tables := by
  intro hAll
  have hNames := (hAll JsSort.insertion 2 (by decide) twinFloors consistent_twinFloors none).2
  have hSeats := seatIds_twin
  rcases hSearch : searchSeats JsSort.insertion twinFloors 2 none with - | ⟨s, rest⟩
  · rw [hSearch] at hSeats
    cases hSeats
  · rw [hSearch, List.map_cons, List.cons.injEq] at hSeats
    obtain ⟨_, _, _, hTwo⟩ := hNames s (by rw [hSearch]; exact List.mem_cons_self)
    have hDistinct := hTwo.distinct
    rw [hSeats.1] at hDistinct
    simp at hDistinct

end TMEdge.Occupancy
