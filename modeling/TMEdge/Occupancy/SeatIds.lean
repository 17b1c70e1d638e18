import TMEdge.Occupancy.Registry

/-!
# Seat ids

The id of a seat is that of its table and its label with a dash between them, and both may have
dashes of their own. Within a table ids differ; two tables can give one id to a seat of each.

* `seat_identity_iff`: the seats of a site have ids of their own exactly when no label ends another
  table's name and label (`LabelsApart`).
-/

namespace TMEdge.Occupancy

open Library List

/-! ## Tables as they are written -/

def fieldsOf : Json → Fields
  | .object es => es
  | _ => []

def itemsOf : Option Json → List Json
  | some (.array vs) => vs
  | _ => []

def textOf : Option Json → Text
  | some (.string t) => t
  | _ => []

def numberOf : Option Json → ℚ
  | some (.number x) => x
  | _ => 0

/-- The tables of a site file. -/
def tableEntries (siteJson : Json) : List Fields :=
  (itemsOf (Json.field? (fieldsOf siteJson) (js "floors"))).flatMap fun f =>
    (itemsOf (Json.field? (fieldsOf f) (js "tables"))).map fieldsOf

/-- Labels along the sides of a table with `n` seats. -/
def generatedLabels (width height : ℚ) (n : Nat) : List Text :=
  let sides : SeatSide × SeatSide := if width ≤ height then (.L, .R) else (.T, .B)
  (List.range ((n + 1) / 2)).map (fun i => sides.1.text ++ Text.decimal (i + 1)) ++
    (List.range (n / 2)).map fun i => sides.2.text ++ Text.decimal (i + 1)

/-- The labels of the seats of a table: those it gives, or generated ones. -/
def labelsOf (t : Fields) : List Text :=
  match Json.field? t (js "seats") with
  | some seats => (itemsOf (some seats)).map fun s => textOf (Json.field? (fieldsOf s) (js "id"))
  | none =>
    generatedLabels (numberOf (Json.field? t (js "width"))) (numberOf (Json.field? t (js "height")))
      (numberOf (Json.field? t (js "capacity"))).num.toNat

def idOf (t : Fields) : Text := textOf (Json.field? t (js "id"))

/-- Where the id of one table begins with that of another, the rest of it and a label of the first
make up no label of the other. -/
def LabelsApart (siteJson : Json) : Prop :=
  ∀ a ∈ tableEntries siteJson, ∀ b ∈ tableEntries siteJson, ∀ rest label,
    idOf b = seatId (idOf a) rest → label ∈ labelsOf b → seatId rest label ∉ labelsOf a

/-! ## What is read -/

section read

variable {fmt : Format} {u : Unicode} {lens : Lens} {w place : Text}
  {floors floors' : List FloorDef} {floor : FloorDef} {p : Json × Nat} {o : Fields}

theorem obj_eq_ok {v : Json} (h : obj (some v) place = .ok o) : v = .object o := by
  unfold obj at h
  split at h
  next es hEq =>
    cases h
    exact Option.some.inj hEq
  next => cases h

theorem elements_eq_ok {v : Option Json} {error : Text} {vs : List Json}
    (h : elements v error = .ok vs) : itemsOf v = vs := by
  unfold elements at h
  split at h
  next => cases h; rfl
  next => cases h

theorem nonEmptyElements_eq_ok {v : Option Json} {error : Text} {vs : List Json}
    (h : nonEmptyElements v error = .ok vs) : itemsOf v = vs := by
  unfold nonEmptyElements at h
  obtain ⟨vs', hItems, h⟩ := bind_eq_ok.mp h
  obtain ⟨-, -, h⟩ := bind_eq_ok.mp h
  cases h
  exact elements_eq_ok hItems

theorem str_eq_ok {k t : Text} (h : str o k place = .ok t) : textOf (Json.field? o k) = t := by
  unfold str at h
  split at h
  next hField =>
    split at h
    next => cases h
    next => cases h; rw [hField]; rfl
  next => cases h

theorem num_eq_ok {k : Text} {min max x : ℚ} (h : num fmt o k place min max = .ok x) :
    numberOf (Json.field? o k) = x := by
  unfold num at h
  split at h
  next hField =>
    split at h
    next => cases h
    next => cases h; rw [hField]; rfl
  next => cases h

theorem ids_of {tableId : Text} {capacity : Nat} {specs : List SeatSpec}
    {neighbors : SeatSpec → List Text} {hLength hNamed hNodup hMutual} :
    (@Seating.of tableId capacity specs neighbors hLength hNamed hNodup hMutual).seats.map
      SeatSpec.id = specs.map SeatSpec.id := by
  rw [Seating.of, map_map]
  rfl

theorem ids_sideSeats (tableId : Text) (rect : Rect) (vertical : Bool) (side : SeatSide) (n : Nat) :
    (sideSeats tableId rect vertical side n).map SeatSpec.id =
      ((List.range n).map fun i => side.text ++ Text.decimal (i + 1)).map (seatId tableId) := by
  rw [sideSeats, map_map, map_map]
  rfl

theorem ids_generateSeats (tableId : Text) (rect : Rect) (capacity : Nat) :
    (generateSeats tableId rect capacity).seats.map SeatSpec.id =
      (generatedLabels rect.width rect.height capacity).map (seatId tableId) := by
  rw [generateSeats, ids_of, generatedSpecs, map_append, ids_sideSeats, ids_sideSeats,
    generatedLabels, map_append]
  rfl

theorem id_explicitSeat {tableId : Text} {width height : ℚ} {v : Json × Nat} {s : SeatSpec}
    (h : explicitSeat fmt tableId width height place v = .ok s) :
    s.id = seatId tableId (textOf (Json.field? (fieldsOf v.1) (js "id"))) := by
  unfold explicitSeat at h
  obtain ⟨o, hObj, h⟩ := bind_eq_ok.mp h
  obtain ⟨-, -, h⟩ := bind_eq_ok.mp h
  obtain ⟨side, -, h⟩ := bind_eq_ok.mp h
  obtain ⟨label, hLabel, h⟩ := bind_eq_ok.mp h
  obtain ⟨x, -, h⟩ := bind_eq_ok.mp h
  obtain ⟨y, -, h⟩ := bind_eq_ok.mp h
  cases h
  rw [obj_eq_ok hObj, fieldsOf, str_eq_ok hLabel]

theorem ids_explicitSeats {v : Json} {tableId : Text} {capacity : Nat} {width height : ℚ}
    {seating : Seating tableId capacity}
    (h : explicitSeats fmt v tableId capacity width height place = .ok seating) :
    seating.seats.map SeatSpec.id = ((itemsOf (some v)).map fun s =>
      textOf (Json.field? (fieldsOf s) (js "id"))).map (seatId tableId) := by
  unfold explicitSeats at h
  split at h
  next vs =>
    split at h
    next hLength =>
      split at h
      next => cases h
      next specs hSpecs =>
        split at h
        next =>
          cases h
          have hIds := map_of_mapM hSpecs fun v s hSeat => id_explicitSeat hSeat
          have hFst : vs.zipIdx.map Prod.fst = vs := zipIdx_map_fst 0 vs
          rw [ids_of, hIds]
          conv_rhs => rw [itemsOf, ← hFst, map_map, map_map]
          rfl
        next => cases h
    next => cases h
  next => cases h

/-- The id of a table and those of its seats. -/
def TableDef.ids (t : TableDef) : Text × List Text := (t.id, t.seats.map SeatSpec.id)

def idsOf (entry : Fields) : Text × List Text :=
  (idOf entry, (labelsOf entry).map (seatId (idOf entry)))

theorem ids_tableRead {earlier : List TableDef} {tw : Text} {v : Json} {t : TableDef}
    (h : TableRead fmt earlier floor tw v t) : t.ids = idsOf (fieldsOf v) := by
  obtain ⟨o, capacity, hObj, hId, hWidth, hHeight, hCapacity, hSeatCount, hSeating⟩ := h.fields
  have hLabels : t.seats.map SeatSpec.id = (labelsOf o).map (seatId t.id) := by
    unfold readSeats at hSeating
    unfold labelsOf
    split at hSeating
    next hSeats =>
      have hIds := ids_generateSeats t.id t.rect t.capacity
      rw [Except.ok.inj hSeating] at hIds
      rw [hSeats, num_eq_ok hWidth, num_eq_ok hHeight, num_eq_ok hCapacity, ← hSeatCount]
      exact hIds
    next v hSeats =>
      rw [hSeats]
      exact ids_explicitSeats hSeating
  rw [TableDef.ids, idsOf, obj_eq_ok hObj, fieldsOf, idOf, str_eq_ok hId, hLabels]

theorem written_readFloor (h : readFloor fmt floors p = .ok floors') :
    ∃ f, floors' = floors ++ [f] ∧ f.tables.map TableDef.ids =
      ((itemsOf (Json.field? (fieldsOf p.1) (js "tables"))).map fieldsOf).map idsOf := by
  obtain ⟨f, rfl, hRead⟩ := readFloor_eq_ok h
  obtain ⟨o, ts, error, hObj, hItems, floor, -, -, hTables⟩ := hRead.fields
  refine ⟨f, rfl, ?_⟩
  obtain ⟨new, hNew, hAll⟩ := forall₂_of_foldlM
    (R := fun (p : Json × Nat) (t : TableDef) => t.ids = idsOf (fieldsOf p.1)) hTables
    fun _ _ _ hRead => by
      obtain ⟨t, rfl, hTable⟩ := readTable_eq_ok hRead
      exact ⟨t, rfl, ids_tableRead hTable⟩
  rw [nil_append] at hNew
  have hFst : ts.zipIdx.map Prod.fst = ts := zipIdx_map_fst 0 ts
  rw [obj_eq_ok hObj, fieldsOf, elements_eq_ok hItems, ← hFst, map_map, map_map, hNew]
  exact map_eq_of_forall₂ hAll

theorem written_readSite {siteJson : Json} {site : SiteDef}
    (h : readSite fmt siteJson = .ok (site, floors)) :
    (floors.flatMap FloorDef.tables).map TableDef.ids = (tableEntries siteJson).map idsOf := by
  obtain ⟨o, fs, place, error, hRoot, hItems, hFloors⟩ := readSite_eq_ok h
  obtain ⟨new, hNew, hAll⟩ := forall₂_of_foldlM
    (R := fun (p : Json × Nat) (f : FloorDef) => f.tables.map TableDef.ids =
      ((itemsOf (Json.field? (fieldsOf p.1) (js "tables"))).map fieldsOf).map idsOf) hFloors
    fun _ _ _ hRead => written_readFloor hRead
  rw [nil_append] at hNew
  subst hNew
  have hFst : fs.zipIdx.map Prod.fst = fs := zipIdx_map_fst 0 fs
  rw [tableEntries, obj_eq_ok hRoot, fieldsOf, nonEmptyElements_eq_ok hItems, ← hFst,
    flatMap_map, map_flatMap, map_flatMap, flatMap_def, flatMap_def]
  exact congrArg List.flatten (map_eq_of_forall₂ hAll)

/-- The tables of a registry, with their seats, are those of the site file. -/
theorem ids_buildRegistry {siteJson nodesJson : Json} {reg : Registry}
    (h : buildRegistry fmt u lens siteJson nodesJson = .ok reg) :
    reg.tables.map TableDef.ids = (tableEntries siteJson).map idsOf := by
  unfold buildRegistry at h
  obtain ⟨⟨site, floors⟩, hSite, h⟩ := bind_eq_ok.mp h
  obtain ⟨acc, -, h⟩ := bind_eq_ok.mp h
  obtain ⟨covered, hCovered, h⟩ := bind_eq_ok.mp h
  cases h
  have hFloors : covered.map (fun f => f.tables.map TableDef.ids) =
      floors.map fun f => f.tables.map TableDef.ids := by
    refine map_of_mapM hCovered fun f f' hFloor => ?_
    obtain ⟨tables, hTables, rfl⟩ := coverFloor_spec hFloor
    refine map_of_mapM hTables fun t t' hTable => ?_
    obtain ⟨owner, coveredBy, rfl⟩ := cover_eq hTable
    rfl
  rw [← written_readSite hSite, Registry.tables, map_flatMap, map_flatMap,
    flatMap_def, flatMap_def]
  exact congrArg List.flatten hFloors

end read

/-! ## Seat identity -/

/-- A seat of both tables. -/
def Shares (a b : TableDef) : Prop := ∃ s ∈ a.seats, s.id ∈ b.seats.map SeatSpec.id

instance (a b : TableDef) : Decidable (Shares a b) :=
  inferInstanceAs (Decidable (∃ s ∈ a.seats, s.id ∈ b.seats.map SeatSpec.id))

theorem Shares.symm {a b : TableDef} (h : Shares a b) : Shares b a := by
  obtain ⟨s, hs, hMem⟩ := h
  obtain ⟨s', hs', hId⟩ := mem_map.mp hMem
  exact ⟨s', hs', hId ▸ mem_map_of_mem hs⟩

/-- Every seat of a site has its own id. -/
structure SeatIdentity (reg : Registry) : Prop where
  unique : ((reg.tables.flatMap TableDef.seats).map SeatSpec.id).Nodup
  indexed : reg.seatIndex.size = (reg.tables.map TableDef.capacity).sum
  capacity : ∀ t ∈ reg.tables, t.seats.length = t.capacity
  neighbors : ∀ t ∈ reg.tables, ∀ a ∈ t.seats, ∀ i ∈ a.neighbors,
    ∃ b ∈ t.seats, b.id = i ∧ a.id ∈ b.neighbors
  apart : ∀ a ∈ reg.tables, ∀ b ∈ reg.tables, Shares a b → a = b

section identity

variable {reg : Registry}

/-- Two tables give one id to a seat of each only where the id of one goes on with a dash. -/
theorem seatId_eq_seatId {a b l m : Text} (h : seatId a l = seatId b m) :
    a = b ∧ l = m ∨ (∃ rest, b = seatId a rest ∧ l = seatId rest m) ∨
      ∃ rest, a = seatId b rest ∧ m = seatId rest l := by
  have hDash : js "-" = [45] := by decide
  simp only [seatId, hDash, append_assoc, singleton_append] at h ⊢
  rcases append_eq_append_iff.mp h with ⟨_ | ⟨c, rest⟩, rfl, hRest⟩ |
    ⟨_ | ⟨c, rest⟩, rfl, hRest⟩
  · rw [nil_append, List.cons.injEq] at hRest
    exact Or.inl ⟨by simp, hRest.2⟩
  · rw [cons_append, List.cons.injEq] at hRest
    exact Or.inr (Or.inl ⟨rest, by rw [hRest.1], hRest.2⟩)
  · rw [nil_append, List.cons.injEq] at hRest
    exact Or.inl ⟨by simp, hRest.2.symm⟩
  · rw [cons_append, List.cons.injEq] at hRest
    exact Or.inr (Or.inr ⟨rest, by rw [hRest.1], hRest.2⟩)

theorem nodup_seats (hSound : reg.Sound)
    (hApart : ∀ a ∈ reg.tables, ∀ b ∈ reg.tables, Shares a b → a = b) :
    ((reg.tables.flatMap TableDef.seats).map SeatSpec.id).Nodup := by
  rw [map_flatMap, nodup_flatMap]
  refine ⟨fun t _ => t.nodup, ?_⟩
  have hIds : reg.tables.Pairwise fun a b => a.id ≠ b.id :=
    pairwise_map.mp hSound.site.tableIds
  refine hIds.imp_of_mem fun {a b} ha hb hNe id hIdA hIdB => ?_
  obtain ⟨s, hs, rfl⟩ := mem_map.mp hIdA
  exact hNe (congrArg TableDef.id (hApart a ha b hb ⟨s, hs, hIdB⟩))

theorem size_seatIndex (hUnique : ((reg.tables.flatMap TableDef.seats).map SeatSpec.id).Nodup) :
    reg.seatIndex.size = (reg.tables.map TableDef.capacity).sum := by
  have hKeys : ((reg.tables.flatMap fun t => t.seats.map fun s => (s, t)).map
      fun e : SeatSpec × TableDef => e.1.id) =
        (reg.tables.flatMap TableDef.seats).map SeatSpec.id := by
    rw [map_flatMap, map_flatMap]
    simp only [map_map]
    rfl
  refine (JsMap.size_foldl_set (fun e : SeatSpec × TableDef => e.1.id) id (hKeys ▸ hUnique)
    (by simp [JsMap.keys, JsMap.empty])).trans ?_
  simp [JsMap.size, JsMap.empty, length_flatMap, TableDef.seats, Seating.length_eq]

theorem seatId_assoc (a rest label : Text) :
    seatId (seatId a rest) label = seatId a (seatId rest label) := by
  simp [seatId]

theorem seatId_ne (a rest : Text) : seatId a rest ≠ a := by
  intro hEq
  have hLength := congrArg List.length hEq
  simp only [seatId, length_append] at hLength
  have hDash : (js "-").length = 1 := by decide
  omega

theorem mem_tables_of_entry {siteJson : Json}
    (h : reg.tables.map TableDef.ids = (tableEntries siteJson).map idsOf) {entry : Fields}
    (hEntry : entry ∈ tableEntries siteJson) : ∃ t ∈ reg.tables, t.ids = idsOf entry := by
  have hMem : idsOf entry ∈ reg.tables.map TableDef.ids := h ▸ mem_map_of_mem hEntry
  obtain ⟨t, ht, hIds⟩ := mem_map.mp hMem
  exact ⟨t, ht, hIds⟩

theorem entry_of_mem_tables {siteJson : Json}
    (h : reg.tables.map TableDef.ids = (tableEntries siteJson).map idsOf) {t : TableDef}
    (ht : t ∈ reg.tables) : ∃ entry ∈ tableEntries siteJson, t.ids = idsOf entry := by
  have hMem : t.ids ∈ (tableEntries siteJson).map idsOf := h ▸ mem_map_of_mem ht
  obtain ⟨entry, hEntry, hIds⟩ := mem_map.mp hMem
  exact ⟨entry, hEntry, hIds.symm⟩

/-- The seats of an accepted site have ids of their own exactly when no label of a table ends the
name and label of another. -/
theorem seat_identity_iff {fmt : Format} {u : Unicode} {lens : Lens} {siteJson nodesJson : Json}
    (h : buildRegistry fmt u lens siteJson nodesJson = .ok reg) :
    SeatIdentity reg ↔ LabelsApart siteJson := by
  have hSound := buildRegistry_sound h
  have hIds := ids_buildRegistry h
  constructor
  · intro hIdentity a ha b hb rest label hName hLabel hOther
    obtain ⟨ta, hta, haIds⟩ := mem_tables_of_entry hIds ha
    obtain ⟨tb, htb, hbIds⟩ := mem_tables_of_entry hIds hb
    rw [TableDef.ids, idsOf, Prod.mk.injEq] at haIds hbIds
    have hA : seatId (idOf a) (seatId rest label) ∈ ta.seats.map SeatSpec.id :=
      haIds.2 ▸ List.mem_map_of_mem hOther
    have hB : seatId (idOf b) label ∈ tb.seats.map SeatSpec.id :=
      hbIds.2 ▸ List.mem_map_of_mem hLabel
    rw [← seatId_assoc, ← hName] at hA
    obtain ⟨s, hs, hId⟩ := List.mem_map.mp hA
    have hSame := hIdentity.apart ta hta tb htb ⟨s, hs, hId ▸ hB⟩
    exact seatId_ne (idOf a) rest (by rw [← hName, ← hbIds.1, ← hSame, haIds.1])
  · intro hLabels
    have hApart : ∀ a ∈ reg.tables, ∀ b ∈ reg.tables, Shares a b → a = b := by
      rintro a ha b hb ⟨s, hs, hMem⟩
      obtain ⟨ea, hea, haIds⟩ := entry_of_mem_tables hIds ha
      obtain ⟨eb, heb, hbIds⟩ := entry_of_mem_tables hIds hb
      rw [TableDef.ids, idsOf, Prod.mk.injEq] at haIds hbIds
      have hA : s.id ∈ a.seats.map SeatSpec.id := List.mem_map_of_mem hs
      rw [haIds.2] at hA
      rw [hbIds.2] at hMem
      obtain ⟨l, hl, hEqA⟩ := List.mem_map.mp hA
      obtain ⟨m, hm, hEqB⟩ := List.mem_map.mp hMem
      rcases seatId_eq_seatId (hEqA.trans hEqB.symm) with ⟨hId, -⟩ | ⟨rest, hId, rfl⟩ |
        ⟨rest, hId, rfl⟩
      · exact List.inj_on_of_nodup_map hSound.site.tableIds ha hb (haIds.1.trans (hId.trans
          hbIds.1.symm))
      · exact absurd hl (hLabels ea hea eb heb rest m hId hm)
      · exact absurd hm (hLabels eb heb ea hea rest l hId hl)
    have hUnique := nodup_seats hSound hApart
    exact ⟨hUnique, size_seatIndex hUnique, fun t _ => t.seating.length_eq,
      fun t _ => t.seating.neighbors, hApart⟩

end identity

/-! ## A seat of two tables -/

/-- What a node sees straight below it. -/
def plumb : Lens where
  pixelToFloor pose _ _ := (pose.x, pose.y)
  floorToPixel pose x y := if x = pose.x ∧ y = pose.y then some (gridW / 2, gridH / 2) else none

/-- Errors without their values. -/
def terse : Format := ⟨fun _ => [], fun _ => []⟩

def text (s : String) : Json := .string (js s)

def corners : Json :=
  .array [.array [.number 0, .number 0], .array [.number 1000, .number 0],
    .array [.number 1000, .number 1000]]

/-- A floor with one zone, `main`, and one table in it. -/
def floorJson (id : String) (table : Json) : Json :=
  .object [(js "id", text id), (js "building", text "B"), (js "name", text id),
    (js "width", .number 1000), (js "height", .number 1000), (js "outline", corners),
    (js "zones", .array [.object [(js "id", text "main"), (js "name", text "Main"),
      (js "polygon", corners)]]),
    (js "tables", .array [table])]

def deskJson (id : String) (seats : Fields) : Json :=
  .object ([(js "id", text id), (js "name", text id), (js "zone", text "main"),
    (js "x", .number 100), (js "y", .number 100), (js "width", .number 80),
    (js "height", .number 120), (js "capacity", .number 1)] ++ seats)

/-- A node straight above the seat of a desk, which it owns. -/
def nodeJson (uid floor table : String) : Json :=
  .object [(js "uid", text uid), (js "floor", text floor),
    (js "pose", .object [(js "x", .number 65), (js "y", .number 160),
      (js "heightCm", .number 260)]),
    (js "owns", .array [text table])]

/-- A desk with one seat on each floor; that of the first one is labelled by hand. -/
def sharedSite : Json :=
  .object [(js "site", .object [(js "id", text "site"), (js "name", text "Site")]),
    (js "floors", .array [
      floorJson "one" (deskJson "desk" [(js "seats", .array [.object [(js "id", text "1-L1"),
        (js "x", .number 65), (js "y", .number 160)]])]),
      floorJson "two" (deskJson "desk-1" [])])]

def sharedNodes : Json :=
  .object [(js "nodes", .array [nodeJson "00:00:00:00:00:01" "one" "desk",
    nodeJson "00:00:00:00:00:02" "two" "desk-1"])]

theorem shared_accepted :
    (buildRegistry terse ascii plumb sharedSite sharedNodes).toOption.isSome = true := by
  decide +kernel

def shared : Registry :=
  (buildRegistry terse ascii plumb sharedSite sharedNodes).toOption.get shared_accepted

theorem buildRegistry_shared :
    buildRegistry terse ascii plumb sharedSite sharedNodes = .ok shared := by
  have hGet : (buildRegistry terse ascii plumb sharedSite sharedNodes).toOption = some shared :=
    (Option.some_get shared_accepted).symm
  rcases hBuild : buildRegistry terse ascii plumb sharedSite sharedNodes with e | r
  · rw [hBuild] at hGet
    cases hGet
  · rw [hBuild] at hGet
    cases hGet
    rfl

theorem seat_identity_shared : SeatIdentity shared ↔ LabelsApart sharedSite :=
  seat_identity_iff buildRegistry_shared

theorem shared_seat : ∃ a ∈ shared.tables, ∃ b ∈ shared.tables,
    Shares a b ∧ a.id ≠ b.id ∧ a.coveredBy ≠ b.coveredBy := by
  decide +kernel

/-- The desks of both floors have a seat `desk-1-L1`. -/
theorem seats_not_unique : ¬ ∀ fmt u lens siteJson nodesJson reg,
    buildRegistry fmt u lens siteJson nodesJson = .ok reg → SeatIdentity reg := by
  intro hAll
  have hIdentity := hAll terse ascii plumb sharedSite sharedNodes shared buildRegistry_shared
  obtain ⟨a, ha, b, hb, hShares, hNe, -⟩ := shared_seat
  exact hNe (congrArg TableDef.id (hIdentity.apart a ha b hb hShares))

end TMEdge.Occupancy
