import TMEdge.Library.JsMap
import TMEdge.Occupancy.Seats

/-!
# The site registry

`buildRegistry` of `src/edge/registry.ts`, from the two parsed files, with every check and its
error. The map of tables and that of seats are read off the floors (`Registry.tables`,
`Registry.seatIndex`), whose table objects they share in the source; the owner and the coverage
of a table are set once all nodes are read.

* `buildRegistry_sound`: what holds of every registry that is accepted.
-/

namespace TMEdge.Occupancy

open Library List

/-! ## Definitions -/

structure TableDef where
  id : Text
  name : Text
  floorId : Text
  zoneId : Text
  rect : Rect
  capacity : Nat
  seating : Seating id capacity
  seatRadiusCm : Option ℚ
  coveredBy : List Text
  owner : Option Text

def TableDef.seats (t : TableDef) : List SeatSpec := t.seating.seats

theorem TableDef.nodup (t : TableDef) : (t.seats.map SeatSpec.id).Nodup := t.seating.nodup

structure ZoneDef where
  id : Text
  name : Text
  polygon : List Point

inductive Visibility
  | public_
  | console
  deriving DecidableEq

structure FloorDef where
  id : Text
  visibility : Visibility
  building : Text
  name : Text
  width : ℚ
  height : ℚ
  outline : List Point
  zones : List ZoneDef
  tables : List TableDef

inductive NodeDetector
  | node
  | edge
  deriving DecidableEq

/-- `floorId` and `pose` of a node, which are null together. -/
structure Placement where
  floorId : Text
  pose : NodePose
  deriving DecidableEq

structure NodeDef where
  uid : Text
  label : Text
  placement : Option Placement
  owns : List Text
  simulated : Bool
  rgb : Bool
  detector : NodeDetector
  deriving DecidableEq

structure SiteDef where
  id : Text
  name : Text
  deriving DecidableEq

structure Registry where
  site : SiteDef
  floors : List FloorDef
  nodes : JsMap Text NodeDef

def Registry.tables (r : Registry) : List TableDef := r.floors.flatMap FloorDef.tables

def Registry.seatIndex (r : Registry) : JsMap Text (SeatSpec × TableDef) :=
  (r.tables.flatMap fun t => t.seats.map fun s => (s, t)).foldl
    (fun m e => m.set e.1.id e) .empty

/-! ## Reading the site -/

def refuse (c : Prop) [Decidable c] (error : Text) : Except Text Unit :=
  if c then .error error else .ok ()

def elements (v : Option Json) (error : Text) : Except Text (List Json) :=
  match v with
  | some (.array vs) => .ok vs
  | _ => .error error

def nonEmptyElements (v : Option Json) (error : Text) : Except Text (List Json) := do
  let vs ← elements v error
  refuse (vs = []) error
  pure vs

def quoted (t : Text) : Text := js "\"" ++ t ++ js "\""

def readZone (w : Text) (zones : List ZoneDef) (p : Json × Nat) : Except Text (List ZoneDef) := do
  let zw := index (w ++ js ".zones") p.2
  let z ← obj (some p.1) zw
  only z zw [js "id", js "name", js "polygon"]
  let id ← str z (js "id") zw
  let name ← str z (js "name") zw
  let polygon ← points (Json.field? z (js "polygon")) (zw ++ js ".polygon")
  refuse (zones.any fun x => x.id = id) (zw ++ js ": duplicate zone id " ++ quoted id)
  let zone : ZoneDef := { id, name, polygon }
  pure (zones ++ [zone])

def readSeats (fmt : Format) (t : Fields) (id : Text) (rect : Rect) (capacity : Nat)
    (floor : FloorDef) (tw : Text) : Except Text (Seating id capacity) :=
  match Json.field? t (js "seats") with
  | none => .ok (generateSeats id rect capacity)
  | some v => explicitSeats fmt v id capacity floor.width floor.height tw

/-- A number that may be left out. -/
def optionalNum (fmt : Format) (o : Fields) (k place : Text) (min max : ℚ) :
    Except Text (Option ℚ) :=
  match Json.field? o k with
  | none => .ok none
  | some _ => (num fmt o k place min max).map some

def readTable (fmt : Format) (earlier : List TableDef) (floor : FloorDef) (w : Text)
    (tables : List TableDef) (p : Json × Nat) : Except Text (List TableDef) := do
  let tw := index (w ++ js ".tables") p.2
  let t ← obj (some p.1) tw
  only t tw [js "id", js "name", js "zone", js "x", js "y", js "width", js "height",
    js "capacity", js "seats", js "seatRadiusCm"]
  let id ← str t (js "id") tw
  refuse ((earlier ++ tables).any fun x => x.id = id)
    (tw ++ js ": duplicate table id " ++ quoted id ++ js " (table ids are unique site-wide)")
  let zoneId ← str t (js "zone") tw
  refuse (¬ floor.zones.any fun z => z.id = zoneId)
    (tw ++ js ".zone: no zone " ++ quoted zoneId ++ js " on floor " ++ floor.id)
  let x ← num fmt t (js "x") tw 0 floor.width
  let y ← num fmt t (js "y") tw 0 floor.height
  let width ← num fmt t (js "width") tw 20 2000
  let height ← num fmt t (js "height") tw 20 2000
  refuse (floor.width < x + width ∨ floor.height < y + height)
    (tw ++ js ": table extends past the floor (" ++ fmt.number floor.width ++ js " x " ++
      fmt.number floor.height ++ js " cm)")
  let capacity ← num fmt t (js "capacity") tw 1 20
  refuse (capacity.den ≠ 1) (tw ++ js ".capacity: must be a whole number")
  let capacity := capacity.num.toNat
  let rect : Rect := { x, y, width, height }
  let name ← str t (js "name") tw
  let seating ← readSeats fmt t id rect capacity floor tw
  let seatRadiusCm ← optionalNum fmt t (js "seatRadiusCm") tw 20 150
  let table : TableDef :=
    { id, name, floorId := floor.id, zoneId, rect, capacity, seating, seatRadiusCm
      coveredBy := [], owner := none }
  pure (tables ++ [table])

def readVisibility (v : Option Json) (w : Text) : Except Text Visibility :=
  let error := .error (w ++ js ".visibility: expected \"public\" or \"console\"")
  match v with
  | none => .ok .public_
  | some (.string t) =>
    if t = js "public" then .ok .public_ else if t = js "console" then .ok .console else error
  | some _ => error

def readFloor (fmt : Format) (floors : List FloorDef) (p : Json × Nat) :
    Except Text (List FloorDef) := do
  let w := index (js "floors") p.2
  let f ← obj (some p.1) w
  only f w [js "id", js "building", js "name", js "width", js "height", js "outline", js "zones",
    js "tables", js "visibility"]
  let visibility ← readVisibility (Json.field? f (js "visibility")) w
  let id ← str f (js "id") w
  let building ← str f (js "building") w
  let name ← str f (js "name") w
  let width ← num fmt f (js "width") w 100 100000
  let height ← num fmt f (js "height") w 100 100000
  let outline ← points (Json.field? f (js "outline")) (w ++ js ".outline")
  refuse (floors.any fun x => x.id = id) (w ++ js ": duplicate floor id " ++ quoted id)
  let zs ← nonEmptyElements (Json.field? f (js "zones"))
    (w ++ js ".zones: expected a non-empty array")
  let zones ← zs.zipIdx.foldlM (readZone w) []
  let ts ← elements (Json.field? f (js "tables")) (w ++ js ".tables: expected an array")
  let floor : FloorDef :=
    { id, visibility, building, name, width, height, outline, zones, tables := [] }
  let tables ← ts.zipIdx.foldlM (readTable fmt (floors.flatMap FloorDef.tables) floor w) []
  pure (floors ++ [{ floor with tables }])

/-! ## Reading the nodes -/

/-- `UID_RE` -/
def isUid (t : Text) : Bool :=
  t.length = 17 && t.zipIdx.all fun (c, i) => if i % 3 = 2 then c = 58 else Text.isHexDigit c

def boolean? : Json → Option Bool
  | .bool b => some b
  | _ => none

def string? : Json → Option Text
  | .string t => some t
  | _ => none

def strings? : Json → Option (List Text)
  | .array vs => vs.mapM string?
  | _ => none

/-- A field that is true or false, or left out. -/
def flag (o : Fields) (k place : Text) : Except Text (Option Bool) :=
  match Json.field? o k with
  | none => .ok none
  | some v =>
    match boolean? v with
    | some b => .ok (some b)
    | none => .error (place ++ js "." ++ k ++ js ": expected true/false")

def ownsError (w : Text) : Text := w ++ js ".owns: expected an array of table ids"

/-- `owns`, if it is there. -/
def ownsOf (n : Fields) (w : Text) : Except Text (Option (List Text)) :=
  match Json.field? n (js "owns") with
  | none => .ok none
  | some v =>
    match strings? v with
    | some owns => .ok (some owns)
    | none => .error (ownsError w)

def readDetector (fmt : Format) (v : Option Json) (w : Text) : Except Text NodeDetector :=
  let error := .error (w ++ js ".detector: expected \"node\" or \"edge\", got " ++ fmt.stringify v)
  match v with
  | none => .ok .node
  | some (.string t) =>
    if t = js "node" then .ok .node else if t = js "edge" then .ok .edge else error
  | some _ => error

/-- The label of a node, or its uid. -/
def labelOf (n : Fields) (uid : Text) : Text :=
  match Json.field? n (js "label") with
  | some (.string t) => if t = [] then uid else t
  | _ => uid

def readPose (fmt : Format) (v : Option Json) (w : Text) (floor : FloorDef) :
    Except Text NodePose := do
  let pw := w ++ js ".pose"
  let p ← obj v pw
  only p pw [js "x", js "y", js "heightCm", js "yawDeg", js "mirror"]
  let x ← num fmt p (js "x") pw (-1000) (floor.width + 1000)
  let y ← num fmt p (js "y") pw (-1000) (floor.height + 1000)
  let heightCm ← num fmt p (js "heightCm") pw 150 1500
  let yawDeg ← optionalNum fmt p (js "yawDeg") pw (-360) 360
  let mirror ← flag p (js "mirror") pw
  pure { x, y, heightCm, yawDeg := yawDeg.getD 0, mirror := mirror.getD false }

/-- A node takes a table: each has one owner. -/
def own (floors : List FloorDef) (floorId uid w : Text) (owners : JsMap Text Text) (tid : Text) :
    Except Text (JsMap Text Text) :=
  match (floors.flatMap FloorDef.tables).find? fun t => t.id = tid with
  | none => .error (w ++ js ".owns: no table " ++ quoted tid)
  | some t =>
    if t.floorId ≠ floorId then
      .error (w ++ js ".owns: table " ++ tid ++ js " is on floor " ++ t.floorId ++
        js ", node is on " ++ floorId)
    else
      match owners.get tid with
      | some owner =>
        .error (w ++ js ".owns: table " ++ tid ++ js " is already owned by " ++ owner ++
          js " -- one owner per table, or it is counted twice")
      | none => .ok (owners.set tid uid)

structure Nodes where
  nodes : JsMap Text NodeDef := .empty
  owners : JsMap Text Text := .empty

def findFloor (floors : List FloorDef) (floorId w : Text) : Except Text FloorDef :=
  match floors.find? fun f => f.id = floorId with
  | some floor => .ok floor
  | none => .error (w ++ js ".floor: no floor " ++ quoted floorId)

def readUnplaced (acc : Nodes) (w : Text) (node : NodeDef) : Except Text Nodes := do
  refuse (node.owns ≠ [])
    (w ++ js ".owns: an unplaced node cannot own tables; place it first")
  refuse node.rgb (w ++ js ".rgb: place the node before marking it RGB")
  pure { acc with nodes := acc.nodes.set node.uid node }

def readPlaced (fmt : Format) (floors : List FloorDef) (acc : Nodes) (n : Fields) (w : Text)
    (node : NodeDef) : Except Text Nodes := do
  let floorId ← str n (js "floor") w
  let floor ← findFloor floors floorId w
  let pose ← readPose fmt (Json.field? n (js "pose")) w floor
  refuse ((Json.field? n (js "owns")).isNone) (ownsError w)
  let owners ← node.owns.foldlM (own floors floorId node.uid w) acc.owners
  refuse (node.rgb ∧ floor.visibility ≠ .console)
    (w ++ js ".rgb: an RGB node is only allowed on a floor with \"visibility\": \"console\"")
  pure { nodes := acc.nodes.set node.uid { node with placement := some ⟨floorId, pose⟩ }, owners }

def readNode (fmt : Format) (u : Unicode) (floors : List FloorDef) (acc : Nodes)
    (p : Json × Nat) : Except Text Nodes := do
  let w := index (js "nodes") p.2
  let n ← obj (some p.1) w
  only n w [js "uid", js "label", js "floor", js "pose", js "owns", js "simulated", js "rgb",
    js "detector"]
  let simulated ← flag n (js "simulated") w
  let rgb ← flag n (js "rgb") w
  let owns ← ownsOf n w
  let detector ← readDetector fmt (Json.field? n (js "detector")) w
  let uid ← str n (js "uid") w
  let uid := u.toLowerCase uid
  refuse (¬ isUid uid)
    (w ++ js ".uid: expected a MAC like 30:ed:a0:cb:f5:f8, got " ++ quoted uid)
  refuse (acc.nodes.has uid) (w ++ js ": duplicate uid " ++ uid)
  let hasFloor := (Json.field? n (js "floor")).isSome
  let hasPose := (Json.field? n (js "pose")).isSome
  refuse (hasFloor ≠ hasPose)
    (w ++ js ": give both \"floor\" and \"pose\", or neither (an unplaced node)")
  let node : NodeDef :=
    { uid, label := labelOf n uid, placement := none, owns := owns.getD []
      simulated := simulated.getD false, rgb := rgb.getD false, detector }
  if hasFloor then readPlaced fmt floors acc n w node else readUnplaced acc w node

/-! ## Coverage -/

def seesWithMargin (lens : Lens) (pose : NodePose) (x y : ℚ) : Bool :=
  match lens.floorToPixel pose x y with
  | some (u, v) => 1 / 2 ≤ u && u ≤ gridW - 1 / 2 && 1 / 2 ≤ v && v ≤ gridH - 1 / 2
  | none => false

/-- The square of `dist`. -/
def distSq (pose : NodePose) (t : TableDef) : ℚ :=
  hypotSq (pose.x - (t.rect.x + t.rect.width / 2)) (pose.y - (t.rect.y + t.rect.height / 2))

/-- The nodes that see every seat of a table, closest first. -/
def seeing (lens : Lens) (nodes : JsMap Text NodeDef) (t : TableDef) : List Text :=
  let sees := nodes.values.filterMap fun n => n.placement.bind fun p =>
    if p.floorId = t.floorId ∧ t.seats.all (fun s => seesWithMargin lens p.pose s.x s.y) then
      some (n.uid, p.pose)
    else none
  (sees.mergeSort fun a b => distSq a.2 t ≤ distSq b.2 t).map Prod.fst

def cover (lens : Lens) (acc : Nodes) (t : TableDef) : Except Text TableDef :=
  let uids := seeing lens acc.nodes t
  match acc.owners.get t.id with
  | none => .ok { t with owner := none, coveredBy := uids }
  | some owner =>
    if owner ∈ uids then
      .ok { t with owner := some owner, coveredBy := owner :: uids.filter (· ≠ owner) }
    else
      .error (js "table " ++ t.id ++ js ": its owner " ++ owner ++
        js " cannot see all of its seats from that pose")

def coverFloor (lens : Lens) (acc : Nodes) (f : FloorDef) : Except Text FloorDef := do
  let tables ← f.tables.mapM (cover lens acc)
  pure { f with tables }

/-! ## The registry -/

def readSite (fmt : Format) (siteJson : Json) : Except Text (SiteDef × List FloorDef) := do
  let root ← obj (some siteJson) (js "site.json")
  only root (js "site.json") [js "site", js "floors"]
  let site ← obj (Json.field? root (js "site")) (js "site.json.site")
  only site (js "site") [js "id", js "name"]
  let id ← str site (js "id") (js "site")
  let name ← str site (js "name") (js "site")
  let fs ← nonEmptyElements (Json.field? root (js "floors"))
    (js "site.json.floors: expected a non-empty array")
  let floors ← fs.zipIdx.foldlM (readFloor fmt) []
  pure ({ id, name }, floors)

def readNodes (fmt : Format) (u : Unicode) (floors : List FloorDef) (nodesJson : Json) :
    Except Text Nodes := do
  let root ← obj (some nodesJson) (js "nodes.json")
  only root (js "nodes.json") [js "nodes"]
  let ns ← elements (Json.field? root (js "nodes")) (js "nodes.json.nodes: expected an array")
  ns.zipIdx.foldlM (readNode fmt u floors) {}

def buildRegistry (fmt : Format) (u : Unicode) (lens : Lens) (siteJson nodesJson : Json) :
    Except Text Registry := do
  let (site, floors) ← readSite fmt siteJson
  let acc ← readNodes fmt u floors nodesJson
  let floors ← floors.mapM (coverFloor lens acc)
  pure { site, floors, nodes := acc.nodes }

/-! ## What is accepted -/

section sound

variable {fmt : Format} {u : Unicode} {lens : Lens} {w : Text} {floors floors' : List FloorDef}
  {floor : FloorDef} {tables tables' : List TableDef} {acc acc' : Nodes} {p : Json × Nat}
  {siteJson : Json} {t : TableDef}

theorem refuse_eq_ok {c : Prop} [Decidable c] {error : Text} {x : Unit} :
    refuse c error = .ok x ↔ ¬c := by
  unfold refuse
  split
  next h => simp [h]
  next h => simp [h]

structure FloorDef.Sound (f : FloorDef) : Prop where
  zones : (f.zones.map ZoneDef.id).Nodup
  floor : ∀ t ∈ f.tables, t.floorId = f.id
  zone : ∀ t ∈ f.tables, t.zoneId ∈ f.zones.map ZoneDef.id

/-- Floors and tables have ids of their own. -/
structure SiteSound (floors : List FloorDef) : Prop where
  floorIds : (floors.map FloorDef.id).Nodup
  tableIds : ((floors.flatMap FloorDef.tables).map TableDef.id).Nodup
  sound : ∀ f ∈ floors, f.Sound

/-- A table is covered by nodes of its floor, its owner first. -/
structure Covered (nodes : JsMap Text NodeDef) (t : TableDef) : Prop where
  nodup : t.coveredBy.Nodup
  placed : ∀ uid ∈ t.coveredBy, ∃ n p, nodes.get uid = some n ∧ n.placement = some p ∧
    p.floorId = t.floorId
  owner : ∀ o, t.owner = some o → t.coveredBy.head? = some o

structure Registry.Sound (r : Registry) : Prop where
  site : SiteSound r.floors
  indexed : r.nodes.Indexed NodeDef.uid
  covered : ∀ t ∈ r.tables, Covered r.nodes t

theorem nodup_concat {α : Type} {l : List α} {a : α} (h : l.Nodup) (ha : a ∉ l) :
    (l ++ [a]).Nodup := by
  rw [nodup_append]
  refine ⟨h, nodup_singleton a, fun b hb c hc hEq => ha ?_⟩
  rw [← mem_singleton.mp hc, ← hEq]
  exact hb

theorem readZone_spec {zones zones' : List ZoneDef} (h : readZone w zones p = .ok zones') :
    ∃ z, zones' = zones ++ [z] ∧ z.id ∉ zones.map ZoneDef.id := by
  unfold readZone at h
  obtain ⟨z, -, h⟩ := bind_eq_ok.mp h
  obtain ⟨-, -, h⟩ := bind_eq_ok.mp h
  obtain ⟨id, -, h⟩ := bind_eq_ok.mp h
  obtain ⟨name, -, h⟩ := bind_eq_ok.mp h
  obtain ⟨polygon, -, h⟩ := bind_eq_ok.mp h
  obtain ⟨_, hNew, h⟩ := bind_eq_ok.mp h
  cases h
  refine ⟨_, rfl, ?_⟩
  simpa using refuse_eq_ok.mp hNew

theorem nodup_zones {zs : List (Json × Nat)} {zones : List ZoneDef}
    (h : zs.foldlM (readZone w) [] = .ok zones) : (zones.map ZoneDef.id).Nodup := by
  refine foldlM_invariant (P := fun zones => (zones.map ZoneDef.id).Nodup) h (by simp) ?_
  intro zones p zones' hNodup hRead
  obtain ⟨z, rfl, hNew⟩ := readZone_spec hRead
  rw [map_append]
  exact nodup_concat hNodup hNew

/-- A table that is read has a new id and lies in a zone of its floor. -/
structure TableRead (fmt : Format) (earlier : List TableDef) (floor : FloorDef) (tw : Text)
    (v : Json) (t : TableDef) : Prop where
  fresh : t.id ∉ earlier.map TableDef.id
  floorId : t.floorId = floor.id
  zone : t.zoneId ∈ floor.zones.map ZoneDef.id
  fields : ∃ o capacity, obj (some v) tw = .ok o ∧ str o (js "id") tw = .ok t.id ∧
    num fmt o (js "width") tw 20 2000 = .ok t.rect.width ∧
      num fmt o (js "height") tw 20 2000 = .ok t.rect.height ∧
        num fmt o (js "capacity") tw 1 20 = .ok capacity ∧ t.capacity = capacity.num.toNat ∧
          readSeats fmt o t.id t.rect t.capacity floor tw = .ok t.seating

theorem readTable_eq_ok {earlier : List TableDef}
    (h : readTable fmt earlier floor w tables p = .ok tables') :
    ∃ t, tables' = tables ++ [t] ∧
      TableRead fmt (earlier ++ tables) floor (index (w ++ js ".tables") p.2) p.1 t := by
  unfold readTable at h
  obtain ⟨o, hObj, h⟩ := bind_eq_ok.mp h
  obtain ⟨-, -, h⟩ := bind_eq_ok.mp h
  obtain ⟨id, hId, h⟩ := bind_eq_ok.mp h
  obtain ⟨_, hNew, h⟩ := bind_eq_ok.mp h
  obtain ⟨zoneId, -, h⟩ := bind_eq_ok.mp h
  obtain ⟨_, hZone, h⟩ := bind_eq_ok.mp h
  obtain ⟨x, -, h⟩ := bind_eq_ok.mp h
  obtain ⟨y, -, h⟩ := bind_eq_ok.mp h
  obtain ⟨width, hWidth, h⟩ := bind_eq_ok.mp h
  obtain ⟨height, hHeight, h⟩ := bind_eq_ok.mp h
  obtain ⟨-, -, h⟩ := bind_eq_ok.mp h
  obtain ⟨capacity, hCapacity, h⟩ := bind_eq_ok.mp h
  obtain ⟨-, -, h⟩ := bind_eq_ok.mp h
  obtain ⟨name, -, h⟩ := bind_eq_ok.mp h
  obtain ⟨seating, hSeating, h⟩ := bind_eq_ok.mp h
  obtain ⟨seatRadiusCm, -, h⟩ := bind_eq_ok.mp h
  cases h
  refine ⟨_, rfl, ?_, rfl, ?_,
    o, capacity, hObj, hId, hWidth, hHeight, hCapacity, rfl, hSeating⟩
  · simpa using refuse_eq_ok.mp hNew
  · simpa using refuse_eq_ok.mp hZone

/-- A floor that is read has a new id. Its tables were read one after the other. -/
structure FloorRead (fmt : Format) (floors : List FloorDef) (w : Text) (v : Json) (f : FloorDef) :
    Prop where
  fresh : f.id ∉ floors.map FloorDef.id
  zones : (f.zones.map ZoneDef.id).Nodup
  fields : ∃ o ts error, obj (some v) w = .ok o ∧
    elements (Json.field? o (js "tables")) error = .ok ts ∧ ∃ floor : FloorDef,
      floor.id = f.id ∧ floor.zones = f.zones ∧
        ts.zipIdx.foldlM (readTable fmt (floors.flatMap FloorDef.tables) floor w) [] = .ok f.tables

theorem readFloor_eq_ok (h : readFloor fmt floors p = .ok floors') :
    ∃ f, floors' = floors ++ [f] ∧ FloorRead fmt floors (index (js "floors") p.2) p.1 f := by
  unfold readFloor at h
  obtain ⟨o, hObj, h⟩ := bind_eq_ok.mp h
  obtain ⟨-, -, h⟩ := bind_eq_ok.mp h
  obtain ⟨visibility, -, h⟩ := bind_eq_ok.mp h
  obtain ⟨id, -, h⟩ := bind_eq_ok.mp h
  obtain ⟨building, -, h⟩ := bind_eq_ok.mp h
  obtain ⟨name, -, h⟩ := bind_eq_ok.mp h
  obtain ⟨width, -, h⟩ := bind_eq_ok.mp h
  obtain ⟨height, -, h⟩ := bind_eq_ok.mp h
  obtain ⟨outline, -, h⟩ := bind_eq_ok.mp h
  obtain ⟨_, hNew, h⟩ := bind_eq_ok.mp h
  obtain ⟨zs, -, h⟩ := bind_eq_ok.mp h
  obtain ⟨zones, hZones, h⟩ := bind_eq_ok.mp h
  obtain ⟨ts, hItems, h⟩ := bind_eq_ok.mp h
  obtain ⟨tables, hTables, h⟩ := bind_eq_ok.mp h
  cases h
  refine ⟨_, rfl, ?_, nodup_zones hZones, o, ts, _, hObj, hItems, _, ?_, ?_, hTables⟩
  · simpa using refuse_eq_ok.mp hNew
  · rfl
  · rfl

theorem readSite_eq_ok {site : SiteDef} (h : readSite fmt siteJson = .ok (site, floors)) :
    ∃ o fs place error,
      obj (some siteJson) place = .ok o ∧
        nonEmptyElements (Json.field? o (js "floors")) error = .ok fs ∧
          fs.zipIdx.foldlM (readFloor fmt) [] = .ok floors := by
  unfold readSite at h
  obtain ⟨root, hRoot, h⟩ := bind_eq_ok.mp h
  obtain ⟨-, -, h⟩ := bind_eq_ok.mp h
  obtain ⟨o, -, h⟩ := bind_eq_ok.mp h
  obtain ⟨-, -, h⟩ := bind_eq_ok.mp h
  obtain ⟨id, -, h⟩ := bind_eq_ok.mp h
  obtain ⟨name, -, h⟩ := bind_eq_ok.mp h
  obtain ⟨fs, hItems, h⟩ := bind_eq_ok.mp h
  obtain ⟨floors', hFloors, h⟩ := bind_eq_ok.mp h
  cases h
  exact ⟨root, fs, _, _, hRoot, hItems, hFloors⟩

theorem SiteSound.readFloor (hSound : SiteSound floors) (h : readFloor fmt floors p = .ok floors') :
    SiteSound floors' := by
  obtain ⟨f, rfl, hFresh, hZones, o, ts, error, -, -, floor, hId, hFloorZones, hTables⟩ :=
    readFloor_eq_ok h
  have hRead : (((floors.flatMap FloorDef.tables) ++ f.tables).map TableDef.id).Nodup ∧
      ∀ t ∈ f.tables, t.floorId = f.id ∧ t.zoneId ∈ f.zones.map ZoneDef.id := by
    refine foldlM_invariant (P := fun tables =>
      (((floors.flatMap FloorDef.tables) ++ tables).map TableDef.id).Nodup ∧
        ∀ t ∈ tables, t.floorId = f.id ∧ t.zoneId ∈ f.zones.map ZoneDef.id) hTables
      ⟨by simpa using hSound.tableIds, by simp⟩ ?_
    rintro tables p tables' ⟨hNodup, hAll⟩ hRead
    obtain ⟨t, rfl, hNew⟩ := readTable_eq_ok hRead
    refine ⟨?_, fun t' ht' => ?_⟩
    · rw [← append_assoc, map_append]
      exact nodup_concat hNodup hNew.fresh
    · rcases mem_append.mp ht' with ht' | ht'
      · exact hAll t' ht'
      · obtain rfl := mem_singleton.mp ht'
        exact ⟨hId ▸ hNew.floorId, hFloorZones ▸ hNew.zone⟩
  refine ⟨?_, ?_, fun f' hf' => ?_⟩
  · rw [map_append]
    exact nodup_concat hSound.floorIds hFresh
  · rw [flatMap_append, flatMap_singleton]
    exact hRead.1
  · rcases mem_append.mp hf' with hf' | hf'
    · exact hSound.sound f' hf'
    · obtain rfl := mem_singleton.mp hf'
      exact ⟨hZones, fun t ht => (hRead.2 t ht).1, fun t ht => (hRead.2 t ht).2⟩

theorem siteSound_readSite {site : SiteDef} (h : readSite fmt siteJson = .ok (site, floors)) :
    SiteSound floors := by
  obtain ⟨o, fs, place, error, -, -, hFloors⟩ := readSite_eq_ok h
  exact foldlM_invariant hFloors ⟨by simp, by simp, by simp⟩ fun _ _ _ hSound hRead =>
    hSound.readFloor hRead

/-- A node that is read is added under its uid. -/
theorem readNode_spec (h : readNode fmt u floors acc p = .ok acc') :
    ∃ k n, acc'.nodes = acc.nodes.set k n ∧ n.uid = k := by
  unfold readNode at h
  obtain ⟨o, -, h⟩ := bind_eq_ok.mp h
  obtain ⟨-, -, h⟩ := bind_eq_ok.mp h
  obtain ⟨simulated, -, h⟩ := bind_eq_ok.mp h
  obtain ⟨rgb, -, h⟩ := bind_eq_ok.mp h
  obtain ⟨owns, -, h⟩ := bind_eq_ok.mp h
  obtain ⟨detector, -, h⟩ := bind_eq_ok.mp h
  obtain ⟨uid, -, h⟩ := bind_eq_ok.mp h
  obtain ⟨-, -, h⟩ := bind_eq_ok.mp h
  obtain ⟨-, -, h⟩ := bind_eq_ok.mp h
  obtain ⟨-, -, h⟩ := bind_eq_ok.mp h
  split at h
  · unfold readPlaced at h
    obtain ⟨floorId, -, h⟩ := bind_eq_ok.mp h
    obtain ⟨floor, -, h⟩ := bind_eq_ok.mp h
    obtain ⟨pose, -, h⟩ := bind_eq_ok.mp h
    obtain ⟨-, -, h⟩ := bind_eq_ok.mp h
    obtain ⟨owners, -, h⟩ := bind_eq_ok.mp h
    obtain ⟨-, -, h⟩ := bind_eq_ok.mp h
    cases h
    exact ⟨_, _, rfl, rfl⟩
  · unfold readUnplaced at h
    obtain ⟨-, -, h⟩ := bind_eq_ok.mp h
    obtain ⟨-, -, h⟩ := bind_eq_ok.mp h
    cases h
    exact ⟨_, _, rfl, rfl⟩

theorem indexed_readNodes {nodesJson : Json} (h : readNodes fmt u floors nodesJson = .ok acc) :
    acc.nodes.Indexed NodeDef.uid := by
  unfold readNodes at h
  obtain ⟨root, -, h⟩ := bind_eq_ok.mp h
  obtain ⟨-, -, h⟩ := bind_eq_ok.mp h
  obtain ⟨ns, -, h⟩ := bind_eq_ok.mp h
  refine foldlM_invariant (P := fun acc => acc.nodes.Indexed NodeDef.uid) h
    (JsMap.indexed_empty NodeDef.uid) ?_
  intro acc p acc' hIndexed hRead
  obtain ⟨k, n, hNodes, hUid⟩ := readNode_spec hRead
  rw [hNodes]
  exact JsMap.Indexed.set hIndexed hUid

theorem mem_seeing {nodes : JsMap Text NodeDef} (hIndexed : nodes.Indexed NodeDef.uid)
    {uid : Text} (h : uid ∈ seeing lens nodes t) : ∃ n p, nodes.get uid = some n ∧
      n.placement = some p ∧ p.floorId = t.floorId := by
  simp only [seeing, mem_map, mem_mergeSort, mem_filterMap] at h
  obtain ⟨⟨uid', pose⟩, ⟨n, hn, hSees⟩, rfl⟩ := h
  obtain ⟨k, hk⟩ := JsMap.mem_values_iff.mp hn
  obtain ⟨p, hPlacement, hIf⟩ := Option.bind_eq_some_iff.mp hSees
  split at hIf
  next hFloor =>
    cases hIf
    refine ⟨n, p, ?_, hPlacement, hFloor.1⟩
    rw [hIndexed k n hk]
    exact hk
  next => cases hIf

theorem nodup_seeing {nodes : JsMap Text NodeDef} (hIndexed : nodes.Indexed NodeDef.uid)
    (t : TableDef) : (seeing lens nodes t).Nodup := by
  unfold seeing
  refine ((mergeSort_perm _ _).map Prod.fst).nodup_iff.mpr ?_
  have hKeys : (nodes.values.map NodeDef.uid).Nodup := by
    rw [JsMap.Indexed.map_values hIndexed]
    exact nodes.nodup
  refine hKeys.sublist ?_
  refine JsMap.keys_filterMap_sublist (fun n a hn => ?_) _
  obtain ⟨p, -, hIf⟩ := Option.bind_eq_some_iff.mp hn
  split at hIf
  · cases hIf
    rfl
  · cases hIf

/-- Covering a table changes nothing else of it. -/
theorem cover_eq {t' : TableDef} (h : cover lens acc t = .ok t') :
    ∃ owner coveredBy, t' = { t with owner, coveredBy } := by
  unfold cover at h
  dsimp only at h
  split at h
  · cases h
    exact ⟨_, _, rfl⟩
  · split at h
    · cases h
      exact ⟨_, _, rfl⟩
    · cases h

theorem covered_cover {t' : TableDef} (hIndexed : acc.nodes.Indexed NodeDef.uid)
    (h : cover lens acc t = .ok t') : Covered acc.nodes t' := by
  have hNodup := @nodup_seeing lens _ hIndexed t
  unfold cover at h
  dsimp only at h
  split at h
  · cases h
    exact ⟨hNodup, fun uid hUid => mem_seeing hIndexed hUid, nofun⟩
  next owner _ =>
    split at h
    next hMem =>
      cases h
      refine ⟨nodup_cons.mpr ⟨by simp, hNodup.filter _⟩, fun uid hUid => ?_,
        fun o ho => by rw [← ho, head?_cons]⟩
      rcases mem_cons.mp hUid with rfl | hUid
      · exact mem_seeing hIndexed hMem
      · exact mem_seeing hIndexed (mem_filter.mp hUid).1
    next => cases h

theorem coverFloor_spec {f f' : FloorDef} (h : coverFloor lens acc f = .ok f') :
    ∃ tables, f.tables.mapM (cover lens acc) = .ok tables ∧ f' = { f with tables } := by
  unfold coverFloor at h
  obtain ⟨tables, hTables, h⟩ := bind_eq_ok.mp h
  cases h
  exact ⟨tables, hTables, rfl⟩

/-- Covering changes neither ids nor where a table lies. -/
theorem map_coverFloor {f f' : FloorDef} (h : coverFloor lens acc f = .ok f') :
    f'.id = f.id ∧ f'.tables.map TableDef.id = f.tables.map TableDef.id ∧
      (f.Sound → f'.Sound) := by
  obtain ⟨tables, hTables, rfl⟩ := coverFloor_spec h
  have hCover : ∀ t ∈ tables, ∃ t₀ ∈ f.tables, t.floorId = t₀.floorId ∧ t.zoneId = t₀.zoneId := by
    intro t ht
    obtain ⟨t₀, ht₀, hCovered⟩ := mem_of_mapM hTables ht
    obtain ⟨owner, coveredBy, rfl⟩ := cover_eq hCovered
    exact ⟨t₀, ht₀, rfl, rfl⟩
  refine ⟨rfl, ?_, fun hSound => ⟨hSound.zones, fun t ht => ?_, fun t ht => ?_⟩⟩
  · refine map_of_mapM hTables fun t t' hCovered => ?_
    obtain ⟨owner, coveredBy, rfl⟩ := cover_eq hCovered
    rfl
  · obtain ⟨t₀, ht₀, hFloor, -⟩ := hCover t ht
    rw [hFloor]
    exact hSound.floor t₀ ht₀
  · obtain ⟨t₀, ht₀, -, hZone⟩ := hCover t ht
    rw [hZone]
    exact hSound.zone t₀ ht₀

theorem buildRegistry_sound {nodesJson : Json} {r : Registry}
    (h : buildRegistry fmt u lens siteJson nodesJson = .ok r) : r.Sound := by
  unfold buildRegistry at h
  obtain ⟨⟨site, floors⟩, hSite, h⟩ := bind_eq_ok.mp h
  obtain ⟨acc, hNodes, h⟩ := bind_eq_ok.mp h
  obtain ⟨covered, hCovered, h⟩ := bind_eq_ok.mp h
  cases h
  have hSound := siteSound_readSite hSite
  have hIndexed := indexed_readNodes hNodes
  refine ⟨⟨?_, ?_, fun f hf => ?_⟩, hIndexed, fun t ht => ?_⟩
  · rw [map_of_mapM hCovered fun _ _ h => (map_coverFloor h).1]
    exact hSound.floorIds
  · have hTables : covered.map (fun f => f.tables.map TableDef.id) =
        floors.map fun f => f.tables.map TableDef.id :=
      map_of_mapM hCovered fun _ _ h => (map_coverFloor h).2.1
    have hSame : (covered.flatMap FloorDef.tables).map TableDef.id =
        (floors.flatMap FloorDef.tables).map TableDef.id := by
      rw [map_flatMap, map_flatMap, flatMap_def, flatMap_def]
      exact congrArg List.flatten hTables
    rw [hSame]
    exact hSound.tableIds
  · obtain ⟨f₀, hf₀, hFloor⟩ := mem_of_mapM hCovered hf
    exact (map_coverFloor hFloor).2.2 (hSound.sound f₀ hf₀)
  · obtain ⟨f, hf, ht⟩ := mem_flatMap.mp ht
    obtain ⟨f₀, -, hFloor⟩ := mem_of_mapM hCovered hf
    obtain ⟨tables, hTables, rfl⟩ := coverFloor_spec hFloor
    obtain ⟨t₀, -, hTable⟩ := mem_of_mapM hTables ht
    exact covered_cover hIndexed hTable

end sound

end TMEdge.Occupancy
