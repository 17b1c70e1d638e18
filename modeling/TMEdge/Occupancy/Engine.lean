import TMEdge.Library.Run
import TMEdge.Library.UnionFind
import TMEdge.Occupancy.Registry

/-!
# The occupancy engine

`OccupancyEngine` of `src/edge/occupancy.ts` on a registry: reports come in (`ingest`), the state
of the floors is read (`snapshot`, which also forgets what it has not seen for long), and settings
change (`setOptions`). A patch of the settings has finite numbers; any other is refused before it
changes anything. A time is a number of milliseconds; without one (`NaN` in the source) only the
health of a node counts.
-/

namespace TMEdge.Occupancy

open Library

/-! ## Data -/

structure Detection where
  x : ℚ
  y : ℚ
  area : ℚ
  contrast : ℚ
  peak : ℚ
  heat : ℚ
  deriving DecidableEq

/-- `floor` is missing where the node has not been placed. -/
structure ConsoleDetection where
  detection : Detection
  floor : Option Point
  tableId : Option Text
  counted : Bool
  persons : Nat
  deriving DecidableEq

structure Report where
  uid : Text
  flags : Nat
  detections : List Detection

def reportBackgroundReady : Nat := 1

def reportGlobalShift : Nat := 2

def Report.healthy (r : Report) : Bool :=
  r.flags &&& reportBackgroundReady ≠ 0 && r.flags &&& reportGlobalShift = 0

structure NodeState where
  lastReportAt : ℚ
  healthy : Bool := false
  heats : List ℚ := []
  zoneHistory : JsMap Text (List Nat) := .empty
  lastDetections : List ConsoleDetection := []

structure SeatTrack where
  window : List Bool := []
  occupied : Bool := false
  lastSeenAt : ℚ := 0
  framesSeen : Nat := 0
  deriving DecidableEq

structure TableTrack where
  authority : Option Text := none
  peopleHistory : List Nat := []
  unknownSince : Option ℚ := none
  deriving DecidableEq

structure Engine where
  nodes : JsMap Text NodeState := .empty
  seats : JsMap Text SeatTrack := .empty
  tables : JsMap Text TableTrack := .empty
  opts : OccupancyOptions := defaultOccupancy

inductive CoverageStatus
  | ok
  | fallback
  | unknown
  deriving DecidableEq

structure SeatState where
  id : Text
  x : ℚ
  y : ℚ
  side : SeatSide
  index : Nat
  neighbors : List Text
  occupied : Option Bool
  deriving DecidableEq

structure TableState where
  id : Text
  name : Text
  zoneId : Text
  rect : Rect
  capacity : Nat
  occupied : Option Nat
  free : Option Int
  status : CoverageStatus
  seats : List SeatState
  deriving DecidableEq

structure ZoneState where
  id : Text
  name : Text
  polygon : List Point
  people : Option Nat
  deriving DecidableEq

structure FloorTotals where
  seats : Nat
  free : Int
  occupied : Nat
  unknownSeats : Nat
  tablesFullyFree : Nat
  deriving DecidableEq

structure FloorState where
  id : Text
  building : Text
  name : Text
  width : ℚ
  height : ℚ
  outline : List Point
  zones : List ZoneState
  tables : List TableState
  totals : FloorTotals
  deriving DecidableEq

/-! ## Numbers -/

/-- `push`, and `shift` once there are more than `n`. -/
def pushCapped {α : Type} (n : Nat) (l : List α) (a : α) : List α :=
  let l := l ++ [a]
  if n < l.length then l.tail else l

def median (l : List Nat) : Nat := (l.mergeSort (· ≤ ·))[l.length / 2]?.getD 0

def heatSamples : Nat := 300

def fragmentRatio : ℚ := 4 / 10

def heatMinSamples : Nat := 30

def zoneWindow : Nat := 7

/-- `refHeat` -/
def NodeState.refHeat (st : NodeState) : Option ℚ :=
  if st.heats.length < heatMinSamples then none
  else (st.heats.mergeSort (· ≤ ·))[st.heats.length / 2]?

/-! ## One person, one blob -/

structure Blob where
  detection : Detection
  floor : Point
  norm : ℚ
  deriving DecidableEq

/-- `root`: what is passed on the way to the root is pointed at it. -/
def root : Nat → List Nat → Nat → Option (List Nat × Nat) := UnionFind.find

/-- `Math.hypot(…) < mergeCm` -/
def closerThan (mergeCm : ℚ) (p q : Point) : Bool :=
  below (hypotSq (p.1 - q.1) (p.2 - q.2)) mergeCm

/-- Two blobs are near, and one carries much less heat than the other. -/
def fragments (near : Point → Point → Bool) (a b : Blob) : Bool :=
  let small := min a.norm b.norm
  let large := max a.norm b.norm
  near a.floor b.floor && decide (0 < large) && decide (small / large < fragmentRatio)

/-- The body of the two loops: `group[root(i)] = root(j)`. -/
def joinGroups (near : Point → Point → Bool) (blobs : List Blob) (group : List Nat)
    (p : Nat × Nat) : Option (List Nat) :=
  match blobs[p.1]?, blobs[p.2]? with
  | some a, some b =>
    if fragments near a b then UnionFind.link blobs.length group p.1 p.2 else some group
  | _, _ => some group

/-- `byRoot` with one more blob, the `p.2`th of `n`. -/
def addToRoot (n : Nat) (acc : List Nat × JsMap Nat (List Blob)) (p : Blob × Nat) :
    Option (List Nat × JsMap Nat (List Blob)) :=
  (root n acc.1 p.2).bind fun (group, r) =>
    let list := (acc.2.get r).getD []
    (root n group p.2).map fun (group, r) => (group, acc.2.set r (list ++ [p.1]))

def heatOf (b : Blob) : ℚ := max b.norm (1 / 1000000)

/-- The members of a cluster as one blob. -/
def mergeMembers (first : Blob) (rest : List Blob) : Blob :=
  if rest = [] then first
  else
    let members := first :: rest
    let largest := rest.foldl
      (fun a b => if a.detection.area < b.detection.area then b else a) first
    let w := (members.map heatOf).sum
    { detection :=
        { x := largest.detection.x, y := largest.detection.y
          area := (members.map fun b => b.detection.area).sum
          contrast := rest.foldl (fun m b => max m b.detection.contrast) first.detection.contrast
          peak := rest.foldl (fun m b => max m b.detection.peak) first.detection.peak
          heat := (members.map fun b => b.detection.heat).sum }
      floor :=
        ((members.map fun b => b.floor.1 * heatOf b).sum / w,
          (members.map fun b => b.floor.2 * heatOf b).sum / w)
      norm := (members.map Blob.norm).sum }

def mergeAll : List Blob → Option Blob
  | first :: rest => some (mergeMembers first rest)
  | [] => none

/-- The pairs that the two loops come to. -/
def loopPairs (n : Nat) : List (Nat × Nat) :=
  (List.range n).flatMap fun i => ((List.range n).filter fun j => i < j).map fun j => (i, j)

/-- `mergeClose`; `none` if a root were not found in as many steps as there are blobs. -/
def mergeBlobs (near : Point → Point → Bool) (blobs : List Blob) : Option (List Blob) :=
  let n := blobs.length
  ((loopPairs n).foldlM (joinGroups near blobs) (List.range n)).bind fun group =>
    (blobs.zipIdx.foldlM (addToRoot n) (group, .empty)).map fun (_, byRoot) =>
      byRoot.values.filterMap mergeAll

def mergeClose (mergeCm : ℚ) (blobs : List Blob) : List Blob :=
  (mergeBlobs (closerThan mergeCm) blobs).getD []

/-! ## Seats -/

/-- The last frames of a window. -/
def trimWindow (enterWindow : ℚ) (window : List Bool) : List Bool :=
  window.drop ⌊(window.length : ℚ) - enterWindow⌋.toNat

def SeatTrack.update (opts : OccupancyOptions) (seen : Bool) (at_ : ℚ) (track : SeatTrack) :
    SeatTrack :=
  let window := trimWindow opts.enterWindow (track.window ++ [seen])
  let lastSeenAt := if seen then at_ else track.lastSeenAt
  let framesSeen := track.framesSeen + 1
  if !track.occupied then
    if opts.enterMin ≤ window.count true then
      { window, occupied := true, lastSeenAt := at_, framesSeen }
    else { window, occupied := false, lastSeenAt, framesSeen }
  else { window, occupied := !decide (opts.releaseMs < at_ - lastSeenAt), lastSeenAt, framesSeen }

/-- Seats claimed in a frame: each person takes the nearest seat still free. -/
def assignSeats (opts : OccupancyOptions) (table : TableDef) (dets : List ConsoleDetection) :
    List Text :=
  let pairs := dets.zipIdx.flatMap fun (det, i) =>
    match det.floor with
    | none => []
    | some (x, y) => table.seats.filterMap fun s =>
      let d := hypotSq (s.x - x) (s.y - y)
      let radius := table.seatRadiusCm.getD opts.seatRadiusCm + if 1 < det.persons then 60 else 0
      if within d radius then some (d, i, s.id) else none
  let claim (acc : List Nat × List Text) (p : ℚ × Nat × Text) : List Nat × List Text :=
    let (remaining, taken) := acc
    let left := remaining[p.2.1]?.getD 0
    if left = 0 ∨ p.2.2 ∈ taken then acc
    else (remaining.set p.2.1 (left - 1), taken ++ [p.2.2])
  ((pairs.mergeSort fun p q => p.1 ≤ q.1).foldl claim (dets.map ConsoleDetection.persons, [])).2

namespace Engine

variable (reg : Registry) (lens : Lens) (e : Engine)

/-- The constructor. -/
def new (opts : OccupancyOptions) : Engine where
  seats := (reg.tables.flatMap TableDef.seats).foldl (fun m s => m.set s.id {}) .empty
  tables := reg.tables.foldl (fun m t => m.set t.id {}) .empty
  opts

/-- `setOptions` with the settings a patch names. -/
def patched (opts : OccupancyOptions) (patch : EdgeParam → Option ℚ) : OccupancyOptions :=
  [EdgeParam.staleMs, .releaseMs, .seatRadiusCm, .enterWindow, .enterMin, .mergeCm].foldl
    (fun o p => match patch p with
      | some v => o.set p (settle p v)
      | none => o) opts

def setOptions (patch : EdgeParam → Option ℚ) : Except String Engine :=
  let next := patched e.opts patch
  if next.enterWindow < next.enterMin then .error "enterMin cannot exceed enterWindow"
  else
    .ok { e with
      opts := next
      seats := e.seats.mapValues fun _ track =>
        { track with window := trimWindow next.enterWindow track.window } }

/-! ## Who counts -/

def isHealthy (uid : Text) (now : Option ℚ) : Bool :=
  match e.nodes.get uid with
  | some st => st.healthy && now.all fun now => now - st.lastReportAt ≤ e.opts.staleMs
  | none => false

def authorityFor (table : TableDef) (now : Option ℚ) : Option Text :=
  table.coveredBy.find? fun uid => e.isHealthy uid now

def statusFor (table : TableDef) (authority : Option Text) : CoverageStatus :=
  if authority = none then .unknown else if authority = table.owner then .ok else .fallback

/-- A seat nearer than the nearest so far, and within the radius. -/
def nearer (radius : ℚ) (best : Option (ℚ × Text)) (d : ℚ) (id : Text) : Option (ℚ × Text) :=
  if within d radius && best.all fun b => d < b.1 then some (d, id) else best

def nearestTable (floorId : Text) (p : Point) : Option Text :=
  (reg.tables.foldl (fun best t =>
    if t.floorId ≠ floorId then best
    else t.seats.foldl (fun best s =>
      nearer (t.seatRadiusCm.getD e.opts.seatRadiusCm) best
        (hypotSq (s.x - p.1) (s.y - p.2)) t.id) best) none).map Prod.snd

def nearestHealthyViewer (floorId : Text) (p : Point) (now : Option ℚ) : Option Text :=
  (reg.nodes.values.foldl (fun best n =>
    match n.placement with
    | none => best
    | some place =>
      if place.floorId ≠ floorId ∨ !e.isHealthy n.uid now ∨
          (lens.floorToPixel place.pose p.1 p.2).isNone then best
      else
        let d := hypotSq (place.pose.x - p.1) (place.pose.y - p.2)
        if (best : Option (ℚ × Text)).all fun b => d < b.1 then some (d, n.uid) else best)
    none).map Prod.snd

/-! ## A report comes in -/

def updateSeats (table : TableDef) (observed : List Text) (at_ : ℚ) : Engine :=
  { e with seats := table.seats.foldl (fun seats s =>
      match seats.get s.id with
      | some track => seats.set s.id (track.update e.opts (s.id ∈ observed) at_)
      | none => seats) e.seats }

/-- The state of the reporting node with the report in. -/
def heard (r : Report) (at_ : ℚ) : NodeState :=
  { (e.nodes.get r.uid).getD { lastReportAt := at_ } with
    lastReportAt := at_, healthy := r.healthy }

def setNode (uid : Text) (st : NodeState) : Engine := { e with nodes := e.nodes.set uid st }

def personsOf (ref : Option ℚ) (norm : ℚ) : Nat :=
  let ratio := match ref with
    | some ref => if ref = 0 then 1 else norm / ref
    | none => 1
  if ratio < 16 / 10 then 1 else if ratio < 25 / 10 then 2 else 3

/-- The detections of a placed node, with the heat of each. -/
def detect (place : Placement) (ref : Option ℚ) (detections : List Detection) :
    List (ConsoleDetection × ℚ) :=
  (mergeClose e.opts.mergeCm (detections.map fun d =>
    { detection := d, floor := lens.pixelToFloor place.pose d.x d.y
      norm := d.heat * lens.pixelAreaCm2 place.pose d.x d.y / 10000 })).map fun b =>
    ({ detection := b.detection, floor := some b.floor
       tableId := nearestTable reg e place.floorId b.floor
       counted := false, persons := personsOf ref b.norm }, b.norm)

/-- "One person" is learned from blobs on a seat. -/
def learn (heats : List ℚ) (dets : List (ConsoleDetection × ℚ)) : List ℚ :=
  dets.foldl (fun heats (d, norm) =>
    if d.tableId.isSome then pushCapped heatSamples heats norm else heats) heats

def hereAt (table : TableDef) (dets : List ConsoleDetection) : List ConsoleDetection :=
  dets.filter fun d => d.tableId = some table.id

/-- A node is the authority for a table of its floor when its report comes in. -/
def Moves (floorId uid : Text) (healthy : Bool) (at_ : ℚ) (table : TableDef) : Bool :=
  table.floorId = floorId && (e.authorityFor table (some at_) = some uid && healthy)

def setTable (id : Text) (track : TableTrack) : Engine :=
  { e with tables := e.tables.set id track }

/-- What a report does to one table. -/
def ingestTable (floorId uid : Text) (healthy : Bool) (dets : List ConsoleDetection) (at_ : ℚ)
    (table : TableDef) : Engine :=
  if table.floorId ≠ floorId then e
  else
    match e.tables.get table.id with
    | none => e
    | some track =>
      let authority := e.authorityFor table (some at_)
      let track := { track with authority }
      if authority ≠ some uid ∨ !healthy then e.setTable table.id track
      else
        let here := hereAt table dets
        let people := (here.map ConsoleDetection.persons).sum
        let peopleHistory := pushCapped zoneWindow track.peopleHistory people
        (e.setTable table.id { track with peopleHistory }).updateSeats table
          (assignSeats e.opts table here) at_

/-- People away from tables, in a zone and seen best by this node. -/
def counts (floorId uid : Text) (at_ : ℚ) (zone : ZoneDef) (d : ConsoleDetection) : Bool :=
  d.tableId.isNone && d.floor.any fun p => pointInPolygon p zone.polygon &&
    nearestHealthyViewer reg lens e floorId p (some at_) = some uid

def ingestZone (floorId uid : Text) (dets : List ConsoleDetection) (at_ : ℚ)
    (history : JsMap Text (List Nat)) (zone : ZoneDef) : JsMap Text (List Nat) :=
  let n := ((dets.filter (counts reg lens e floorId uid at_ zone)).map
    ConsoleDetection.persons).sum
  history.set zone.id (pushCapped zoneWindow ((history.get zone.id).getD []) n)

def ingest (r : Report) (at_ : ℚ) : Engine × List ConsoleDetection :=
  let st := e.heard r at_
  match (reg.nodes.get r.uid).bind NodeDef.placement with
  | none =>
    let dets := r.detections.map fun d =>
      { detection := d, floor := none, tableId := none, counted := false, persons := 1 }
    (e.setNode r.uid { st with lastDetections := dets }, dets)
  | some place =>
    let found := detect reg lens e place st.refHeat r.detections
    let st := { st with heats := learn st.heats found }
    let dets := found.map Prod.fst
    let e := e.setNode r.uid st
    let moved := reg.tables.filter (e.Moves place.floorId r.uid st.healthy at_)
    let dets := dets.map fun d =>
      { d with counted := moved.any fun t => d.tableId = some t.id }
    let e := reg.tables.foldl
      (fun e t => e.ingestTable place.floorId r.uid st.healthy dets at_ t) e
    match reg.floors.find? fun f => f.id = place.floorId with
    | some floor =>
      if st.healthy then
        let zoneHistory := floor.zones.foldl
          (ingestZone reg lens e place.floorId r.uid dets at_) st.zoneHistory
        let dets := dets.map fun d =>
          { d with counted := d.counted ||
              floor.zones.any fun z => counts reg lens e place.floorId r.uid at_ z d }
        (e.setNode r.uid { st with zoneHistory, lastDetections := dets }, dets)
      else (e.setNode r.uid { st with lastDetections := dets }, dets)
    | none => (e.setNode r.uid { st with lastDetections := dets }, dets)

/-! ## The state is read -/

def resetSeats (table : TableDef) : Engine :=
  { e with seats := table.seats.foldl (fun seats s => seats.set s.id {}) e.seats }

/-- A table without an authority is unknown from now on, and is forgotten once it has been for
longer than a seat is held. -/
def forget (table : TableDef) (now : ℚ) : Engine :=
  match e.tables.get table.id with
  | none => e
  | some track =>
    if e.authorityFor table (some now) = none then
      let since := track.unknownSince.getD now
      if e.opts.releaseMs < now - since then
        (e.resetSeats table).setTable table.id
          { track with unknownSince := some since, peopleHistory := [] }
      else e.setTable table.id { track with unknownSince := some since }
    else e.setTable table.id { track with unknownSince := none }

/-- Enough frames of every seat have been seen to decide it. -/
def warm (table : TableDef) : Bool :=
  table.seats.all fun s =>
    e.opts.enterWindow ≤ (((e.seats.get s.id).map SeatTrack.framesSeen).getD 0 : ℚ)

def seatState (known : Bool) (s : SeatSpec) : SeatState where
  id := s.id
  x := s.x
  y := s.y
  side := s.side
  index := s.index
  neighbors := s.neighbors
  occupied :=
    if known then some (((e.seats.get s.id).map SeatTrack.occupied).getD false) else none

def stateOf (table : TableDef) (status : CoverageStatus) : TableState :=
  let known := status ≠ .unknown && e.warm table
  let seats := table.seats.map (e.seatState known)
  let occupied := if known then some (seats.countP fun s => s.occupied = some true) else none
  { id := table.id, name := table.name, zoneId := table.zoneId, rect := table.rect
    capacity := table.capacity, occupied, free := occupied.map fun n => table.capacity - n
    status := if known then status else .unknown, seats }

def tableState (table : TableDef) (now : ℚ) : Engine × TableState :=
  let status := statusFor table (e.authorityFor table (some now))
  let e := e.forget table now
  (e, e.stateOf table status)

def tableStates : Engine → List TableDef → ℚ → Engine × List TableState
  | e, [], _ => (e, [])
  | e, t :: ts, now =>
    let (e, state) := e.tableState t now
    let (e, states) := tableStates e ts now
    (e, state :: states)

/-- The people a node has counted in a zone, if it is healthy and has any frames of it. -/
def zonePeople (zoneId : Text) (now : ℚ) (n : Text × NodeState) : Option Nat :=
  if e.isHealthy n.1 (some now) then
    match n.2.zoneHistory.get zoneId with
    | some (h :: hs) => some (median (h :: hs))
    | _ => none
  else none

def zoneState (tables : List TableState) (now : ℚ) (zone : ZoneDef) : ZoneState :=
  let zt := tables.filter fun t => t.zoneId = zone.id
  let anyUnknown := zt.any fun t => t.status = .unknown
  let atTables := (zt.map fun t =>
    median (((e.tables.get t.id).map TableTrack.peopleHistory).getD [])).sum
  let away := e.nodes.entries.filterMap (e.zonePeople zone.id now)
  let covered := (zt ≠ [] && !anyUnknown) || away ≠ []
  { id := zone.id, name := zone.name, polygon := zone.polygon
    people := if covered && !anyUnknown then some (atTables + away.sum) else none }

def totalsOf (tables : List TableState) : FloorTotals :=
  let known := tables.filter fun t => t.status ≠ .unknown
  { seats := (tables.map TableState.capacity).sum
    free := (known.map fun t => t.free.getD 0).sum
    occupied := (known.map fun t => t.occupied.getD 0).sum
    unknownSeats :=
      ((tables.filter fun t => t.status = .unknown).map TableState.capacity).sum
    tablesFullyFree := (known.filter fun t => t.occupied = some 0).length }

def floorState (floor : FloorDef) (now : ℚ) : Engine × FloorState :=
  let (e, tables) := e.tableStates floor.tables now
  (e, { id := floor.id, building := floor.building, name := floor.name, width := floor.width
        height := floor.height, outline := floor.outline
        zones := floor.zones.map (e.zoneState tables now), tables
        totals := totalsOf tables })

def floorStates : Engine → List FloorDef → ℚ → Engine × List FloorState
  | e, [], _ => (e, [])
  | e, f :: fs, now =>
    let (e, state) := e.floorState f now
    let (e, states) := floorStates e fs now
    (e, state :: states)

/-- The floors of a snapshot; its edge, site and time are those given. -/
def snapshot (now : ℚ) : Engine × List FloorState := e.floorStates reg.floors now

end Engine

/-! ## Settings -/

section settings

/-- What the ranges of `setOptions` keep. -/
structure OccupancyOptions.Sane (o : OccupancyOptions) : Prop where
  staleMs : 0 < o.staleMs
  releaseMs : 0 < o.releaseMs
  enterWindow : 0 < o.enterWindow

theorem sane_default : defaultOccupancy.Sane := by
  constructor <;> norm_num [defaultOccupancy]

theorem clamp_pos {v lo hi : ℚ} (hLo : 0 < lo) (hHi : lo ≤ hi) : 0 < clamp v lo hi :=
  hLo.trans_le (le_min hHi (le_max_left _ _))

theorem OccupancyOptions.Sane.set {o : OccupancyOptions} (h : o.Sane) (p : EdgeParam) (v : ℚ) :
    (o.set p (settle p v)).Sane := by
  cases p with
  | staleMs => exact ⟨clamp_pos (by norm_num) (by norm_num), h.releaseMs, h.enterWindow⟩
  | releaseMs => exact ⟨h.staleMs, clamp_pos (by norm_num) (by norm_num), h.enterWindow⟩
  | enterWindow =>
    have hClamp : (1 : ℚ) ≤ clamp v 1 60 := le_min (by norm_num) (le_max_left _ _)
    refine ⟨h.staleMs, h.releaseMs, ?_⟩
    have hFloor : (1 : ℤ) ≤ ⌊clamp v 1 60 + 1 / 2⌋ := Int.le_floor.mpr (by push_cast; linarith)
    exact Int.cast_pos.mpr (lt_of_lt_of_le one_pos hFloor)
  | _ => exact ⟨h.staleMs, h.releaseMs, h.enterWindow⟩

theorem sane_patched {opts : OccupancyOptions} (h : opts.Sane) (patch : EdgeParam → Option ℚ) :
    (Engine.patched opts patch).Sane := by
  have hAll : ∀ (ps : List EdgeParam) (o : OccupancyOptions), o.Sane →
      (ps.foldl (fun o p => match patch p with
        | some v => o.set p (settle p v)
        | none => o) o).Sane := by
    intro ps
    induction ps with
    | nil => exact fun _ ho => ho
    | cons p ps ih =>
      intro o ho
      refine ih _ ?_
      dsimp only
      split
      · exact ho.set p _
      · exact ho
  exact hAll _ opts h

/-- Settings change windows, but not what is occupied. -/
theorem setOptions_ok_spec {e e' : Engine} {patch : EdgeParam → Option ℚ}
    (h : e.setOptions patch = .ok e') : e'.opts = Engine.patched e.opts patch ∧
      ∀ id, e'.seats.get id = (e.seats.get id).map fun track =>
        { track with window := trimWindow e'.opts.enterWindow track.window } := by
  unfold Engine.setOptions at h
  dsimp only at h
  split at h
  · cases h
  · cases h
    exact ⟨rfl, fun id => JsMap.get_mapValues _ _ _⟩

end settings

/-! ## Seat tracks -/

section seats

variable {reg : Registry} {e : Engine} {table : TableDef} {observed : List Text} {at_ : ℚ}
  {id : Text}

theorem find?_seat (h : id ∈ table.seats.map SeatSpec.id) :
    ∃ s, table.seats.find? (fun s => s.id = id) = some s ∧ s.id = id := by
  obtain ⟨s, hs, rfl⟩ := List.mem_map.mp h
  rcases hFind : table.seats.find? (fun s' => s'.id = s.id) with - | s'
  · simpa using List.find?_eq_none.mp hFind s hs
  · exact ⟨s', hFind, by simpa using List.find?_some hFind⟩

theorem find?_no_seat (h : id ∉ table.seats.map SeatSpec.id) :
    table.seats.find? (fun s => s.id = id) = none := by
  refine List.find?_eq_none.mpr fun s hs hId => h ?_
  rw [← of_decide_eq_true hId]
  exact List.mem_map_of_mem hs

/-- `updateSeats` changes the tracks of the table, each on its own. -/
theorem Engine.updateSeats_spec (e : Engine) (table : TableDef) (observed : List Text) (at_ : ℚ)
    (id : Text) : (e.updateSeats table observed at_).seats.get id =
      (table.seats.find? fun s => s.id = id).elim (e.seats.get id) fun s =>
        (e.seats.get id).map (SeatTrack.update e.opts (s.id ∈ observed) at_) := by
  refine JsMap.get_foldl_modify SeatSpec.id
    (fun s track => track.update e.opts (s.id ∈ observed) at_) ?_ ?_ table.nodup e.seats id
  · intro m s track hGet
    rw [hGet]
  · intro m s hGet
    rw [hGet]

theorem Engine.get_updateSeats (e : Engine) (table : TableDef) (observed : List Text) (at_ : ℚ)
    (h : id ∈ table.seats.map SeatSpec.id) :
    (e.updateSeats table observed at_).seats.get id =
      (e.seats.get id).map (SeatTrack.update e.opts (id ∈ observed) at_) := by
  obtain ⟨s, hFind, rfl⟩ := find?_seat h
  rw [e.updateSeats_spec, hFind, Option.elim_some]

theorem Engine.get_updateSeats_ne (e : Engine) (table : TableDef) (observed : List Text) (at_ : ℚ)
    (h : id ∉ table.seats.map SeatSpec.id) :
    (e.updateSeats table observed at_).seats.get id = e.seats.get id := by
  rw [e.updateSeats_spec, find?_no_seat h, Option.elim_none]

theorem Engine.get_resetSeats (e : Engine) (table : TableDef) (id : Text) :
    (e.resetSeats table).seats.get id =
      if id ∈ table.seats.map SeatSpec.id then some {} else e.seats.get id := by
  have hGet := JsMap.get_foldl_set SeatSpec.id (fun _ => ({} : SeatTrack)) table.nodup e.seats id
  split
  next h =>
    obtain ⟨s, hFind, -⟩ := find?_seat h
    rw [hFind] at hGet
    exact hGet
  next h =>
    rw [find?_no_seat h] at hGet
    exact hGet

end seats

/-! ## Runs -/

inductive OccupancyEvent
  | report (r : Report) (at_ : ℚ)
  | snapshot (now : ℚ)
  | setOptions (patch : EdgeParam → Option ℚ)

def Engine.step (reg : Registry) (lens : Lens) (e : Engine) : OccupancyEvent → Engine
  | .report r at_ => (Engine.ingest reg lens e r at_).1
  | .snapshot now => (Engine.snapshot reg e now).1
  | .setOptions patch =>
    match e.setOptions patch with
    | .ok e => e
    | .error _ => e

end TMEdge.Occupancy
