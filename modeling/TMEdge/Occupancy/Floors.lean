import TMEdge.Library.Unwinding
import TMEdge.Occupancy.Snapshot

/-!
# One floor and the others

What a node reports is seen on its own floor only (`Alike`), unless another floor has a zone or a
seat of the same id: people in a zone are kept under its bare id, and so is what is known of a
seat.

* `floor_undisturbed`: a floor that has nothing in common with the others (`Apart`) is shown the
  same, whatever the nodes of the others report.
* `floor_disturbed`: two floors with a zone `main`.
-/

namespace TMEdge.Occupancy

open Library List JsMap

/-! ## Two runs -/

/-- A node that is placed on another floor. -/
def Elsewhere (reg : Registry) (floorId uid : Text) : Bool :=
  ((reg.nodes.get uid).bind NodeDef.placement).any fun place => place.floorId ≠ floorId

/-- Everything but a report from another floor. -/
def OccupancyEvent.concerns (reg : Registry) (floorId : Text) : OccupancyEvent → Bool
  | .report r _ => !Elsewhere reg floorId r.uid
  | _ => true

/-- A floor as a snapshot shows it. -/
def shownFloor (reg : Registry) (floorId : Text) (now : ℚ) (e : Engine) : Option FloorState :=
  (Engine.snapshot reg e now).2.find? fun f => f.id = floorId

/-- Two runs that differ in the reports of nodes on other floors show a floor the same. -/
def Undisturbed (reg : Registry) (lens : Lens) (floorId : Text) : Prop :=
  ∀ (opts : OccupancyOptions) (es es' : List OccupancyEvent),
    es.filter (OccupancyEvent.concerns reg floorId) =
      es'.filter (OccupancyEvent.concerns reg floorId) →
    ∀ now, shownFloor reg floorId now (run (Engine.step reg lens) (Engine.new reg opts) es) =
      shownFloor reg floorId now (run (Engine.step reg lens) (Engine.new reg opts) es')

/-- No other floor with a node on it has a zone of the same id, and no table elsewhere that a node
covers has a seat of the same id. -/
structure Apart (reg : Registry) (floorId : Text) : Prop where
  zones : ∀ uid place, (reg.nodes.get uid).bind NodeDef.placement = some place →
    place.floorId ≠ floorId → ∀ g ∈ reg.floors, g.id = place.floorId →
      ∀ f ∈ reg.floors, f.id = floorId → ∀ z ∈ f.zones, z.id ∉ g.zones.map ZoneDef.id
  seats : ∀ a ∈ reg.tables, a.floorId = floorId → ∀ b ∈ reg.tables, b.floorId ≠ floorId →
    b.coveredBy ≠ [] → ¬ Shares a b

/-! ## What is seen of a floor -/

/-- The nodes of other floors have counted nobody in a zone of this one. -/
def Quiet (reg : Registry) (floorId : Text) (e : Engine) : Prop :=
  ∀ uid st, Elsewhere reg floorId uid = true → e.nodes.get uid = some st →
    ∀ f ∈ reg.floors, f.id = floorId → ∀ z ∈ f.zones, st.zoneHistory.get z.id = none

/-- Two states that are the same on a floor. A table that no node covers is forgotten at the same
time, wherever it is. -/
structure Alike (reg : Registry) (floorId : Text) (e e' : Engine) : Prop where
  opts : e'.opts = e.opts
  nodes : ∀ uid, Elsewhere reg floorId uid = false → e'.nodes.get uid = e.nodes.get uid
  tables : ∀ t ∈ reg.tables, t.floorId = floorId → e'.tables.get t.id = e.tables.get t.id
  seats : ∀ t ∈ reg.tables, t.floorId = floorId → ∀ s ∈ t.seats,
    e'.seats.get s.id = e.seats.get s.id
  bare : ∀ t ∈ reg.tables, t.coveredBy = [] →
    (e'.tables.get t.id).map TableTrack.unknownSince =
      (e.tables.get t.id).map TableTrack.unknownSince
  quiet : Quiet reg floorId e
  quiet' : Quiet reg floorId e'

section alike

variable {reg : Registry} {lens : Lens} {floorId : Text} {e e' e'' : Engine} {t : TableDef}
  {uid : Text} {now : ℚ}

theorem Alike.symm (h : Alike reg floorId e e') : Alike reg floorId e' e :=
  ⟨h.opts.symm, fun uid hUid => (h.nodes uid hUid).symm,
    fun t ht hFloor => (h.tables t ht hFloor).symm,
    fun t ht hFloor s hs => (h.seats t ht hFloor s hs).symm,
    fun t ht hBare => (h.bare t ht hBare).symm, h.quiet', h.quiet⟩

theorem Alike.trans (h : Alike reg floorId e e') (h' : Alike reg floorId e' e'') :
    Alike reg floorId e e'' :=
  ⟨h'.opts.trans h.opts, fun uid hUid => (h'.nodes uid hUid).trans (h.nodes uid hUid),
    fun t ht hFloor => (h'.tables t ht hFloor).trans (h.tables t ht hFloor),
    fun t ht hFloor s hs => (h'.seats t ht hFloor s hs).trans (h.seats t ht hFloor s hs),
    fun t ht hBare => (h'.bare t ht hBare).trans (h.bare t ht hBare), h.quiet, h'.quiet'⟩

theorem alike_new (opts : OccupancyOptions) :
    Alike reg floorId (Engine.new reg opts) (Engine.new reg opts) :=
  ⟨rfl, fun _ _ => rfl, fun _ _ _ => rfl, fun _ _ _ _ _ => rfl, fun _ _ _ => rfl, nofun, nofun⟩

theorem not_elsewhere {place : Placement}
    (hPlace : (reg.nodes.get uid).bind NodeDef.placement = some place)
    (hFloor : place.floorId = floorId) : Elsewhere reg floorId uid = false := by
  simp [Elsewhere, hPlace, hFloor]

theorem Alike.isHealthy (h : Alike reg floorId e e') (hUid : Elsewhere reg floorId uid = false)
    (now : Option ℚ) : e'.isHealthy uid now = e.isHealthy uid now := by
  rw [Engine.isHealthy, h.nodes uid hUid, h.opts, Engine.isHealthy]

/-- A table of the floor is covered by nodes of the floor. -/
theorem Alike.authorityFor (hSound : reg.Sound) (h : Alike reg floorId e e') (ht : t ∈ reg.tables)
    (hSeen : t.floorId = floorId ∨ t.coveredBy = []) (now : Option ℚ) :
    e'.authorityFor t now = e.authorityFor t now := by
  unfold Engine.authorityFor
  rcases hSeen with hFloor | hBare
  · refine find?_congr fun uid hUid => ?_
    obtain ⟨place, hPlace, hSame⟩ := hSound.placed ht hUid
    exact h.isHealthy (not_elsewhere hPlace (hSame.trans hFloor)) now
  · rw [hBare, find?_nil, find?_nil]

/-! ## A snapshot -/

theorem Alike.lapsed (hSound : reg.Sound) (h : Alike reg floorId e e') (ht : t ∈ reg.tables)
    (hSeen : t.floorId = floorId ∨ t.coveredBy = []) (now : ℚ) :
    e'.lapsed now t = e.lapsed now t := by
  funext track
  rw [Engine.lapsed, h.authorityFor hSound ht hSeen, h.opts, Engine.lapsed]

theorem Alike.settled (hSound : reg.Sound) (h : Alike reg floorId e e') (ht : t ∈ reg.tables)
    (hSeen : t.floorId = floorId ∨ t.coveredBy = []) (now : ℚ) :
    e'.settled now t = e.settled now t := by
  funext track
  rw [Engine.settled, h.authorityFor hSound ht hSeen, h.lapsed hSound ht hSeen, Engine.settled]

theorem forgets_eq (e : Engine) (now : ℚ) (t : TableDef) : e.forgets now t =
    ((e.tables.get t.id).map TableTrack.unknownSince).any fun since =>
      e.authorityFor t (some now) = none && e.opts.releaseMs < now - since.getD now := by
  rw [Engine.forgets]
  rcases e.tables.get t.id with - | track
  · rfl
  · rfl

theorem Alike.forgets (hSound : reg.Sound) (h : Alike reg floorId e e') (ht : t ∈ reg.tables)
    (hSeen : t.floorId = floorId ∨ t.coveredBy = []) (now : ℚ) :
    e'.forgets now t = e.forgets now t := by
  have hSince : (e'.tables.get t.id).map TableTrack.unknownSince =
      (e.tables.get t.id).map TableTrack.unknownSince := by
    rcases hSeen with hFloor | hBare
    · rw [h.tables t ht hFloor]
    · exact h.bare t ht hBare
  rw [forgets_eq, forgets_eq, hSince, h.authorityFor hSound ht hSeen, h.opts]

theorem since_settled (e : Engine) (now : ℚ) (t : TableDef) (o : Option TableTrack) :
    (o.map (e.settled now t)).map TableTrack.unknownSince =
      (o.map TableTrack.unknownSince).map fun since =>
        if e.authorityFor t (some now) = none then some (since.getD now) else none := by
  rcases o with - | track
  · rfl
  · rfl

theorem Alike.forget (hSound : reg.Sound) (hApart : Apart reg floorId)
    (h : Alike reg floorId e e') (ht : t ∈ reg.tables) (now : ℚ) :
    Alike reg floorId (e.forget t now) (e'.forget t now) := by
  obtain ⟨hNodes, hOpts⟩ := forget_nodes e t now
  obtain ⟨hNodes', hOpts'⟩ := forget_nodes e' t now
  have hQuiet : ∀ {e : Engine}, Quiet reg floorId e → Quiet reg floorId (e.forget t now) := by
    intro e hQuiet uid st hUid hGet
    rw [(forget_nodes e t now).1] at hGet
    exact hQuiet uid st hUid hGet
  refine ⟨by rw [hOpts, hOpts', h.opts], fun uid hUid => ?_, fun u hu hFloor => ?_,
    fun u hu hFloor s hs => ?_, fun u hu hBare => ?_, hQuiet h.quiet, hQuiet h.quiet'⟩
  · rw [hNodes, hNodes']
    exact h.nodes uid hUid
  · rw [get_forget_tables, get_forget_tables, h.tables u hu hFloor]
    split
    next hId =>
      obtain rfl := inj_on_of_nodup_map hSound.site.tableIds hu ht hId
      rw [h.settled hSound ht (.inl hFloor)]
    next => rfl
  · rw [get_forget_seats, get_forget_seats, h.seats u hu hFloor s hs]
    by_cases hShared : s.id ∈ t.seats.map SeatSpec.id
    · have hSeen : t.floorId = floorId ∨ t.coveredBy = [] := by
        by_contra hNot
        rw [not_or] at hNot
        exact hApart.seats u hu hFloor t ht hNot.1 hNot.2 ⟨s, hs, hShared⟩
      rw [h.forgets hSound ht hSeen]
    · rw [if_neg fun hBoth => hShared hBoth.2, if_neg fun hBoth => hShared hBoth.2]
  · rw [get_forget_tables, get_forget_tables]
    split
    next hId =>
      obtain rfl := inj_on_of_nodup_map hSound.site.tableIds hu ht hId
      rw [since_settled, since_settled, h.bare u hu hBare, h.authorityFor hSound ht (.inr hBare)]
    next => exact h.bare u hu hBare

theorem Alike.forgetAll (hSound : reg.Sound) (hApart : Apart reg floorId)
    (h : Alike reg floorId e e') (ts : List TableDef) (hts : ∀ t ∈ ts, t ∈ reg.tables) (now : ℚ) :
    Alike reg floorId (e.forgetAll now ts) (e'.forgetAll now ts) := by
  induction ts generalizing e e' with
  | nil => exact h
  | cons t ts ih =>
    exact ih (h.forget hSound hApart (hts t (by simp)) now) fun t' ht' => hts t' (by simp [ht'])

end alike

/-! ## What a report does to the tables -/

section tables

variable {reg : Registry} {lens : Lens} {floorId : Text} {e e' : Engine} {t : TableDef}
  {place uid : Text} {healthy : Bool} {dets : List ConsoleDetection} {at_ : ℚ}

/-- A table of the floor of a report: its track, and the seats that move with it. -/
theorem get_ingestTable (e : Engine) (t : TableDef) (id : Text) :
    (e.ingestTable place uid healthy dets at_ t).tables.get id =
      if t.floorId = place ∧ id = t.id then
        (e.tables.get id).map fun track =>
          { track with
            authority := e.authorityFor t (some at_)
            peopleHistory :=
              if e.authorityFor t (some at_) = some uid ∧ healthy = true then
                pushCapped zoneWindow track.peopleHistory
                  ((Engine.hereAt t dets).map ConsoleDetection.persons).sum
              else track.peopleHistory }
      else e.tables.get id := by
  unfold Engine.ingestTable
  by_cases hFloor : t.floorId = place
  · rw [if_neg (not_not.mpr hFloor)]
    by_cases hId : id = t.id
    · subst hId
      rw [if_pos ⟨hFloor, rfl⟩]
      rcases hTrack : e.tables.get t.id with - | track
      · simp [hTrack]
      · by_cases hMoves : e.authorityFor t (some at_) = some uid ∧ healthy = true
        · simp [hMoves.1, hMoves.2, Engine.updateSeats, Engine.setTable]
        · have hStays : e.authorityFor t (some at_) ≠ some uid ∨ (!healthy) = true := by
            rw [not_and_or, Bool.not_eq_true] at hMoves
            simpa using hMoves
          simp only [hMoves, hStays, if_true, if_false, Engine.setTable, JsMap.get_set,
            Option.map_some]
    · rw [if_neg fun hBoth => hId hBoth.2]
      rcases e.tables.get t.id with - | track
      · rfl
      · dsimp only
        split
        · simp [Engine.setTable, hId]
        · simp [Engine.updateSeats, Engine.setTable, hId]
  · rw [if_pos hFloor, if_neg fun hBoth => hFloor hBoth.1]

theorem seats_ingestTable (e : Engine) (t : TableDef) (id : Text) :
    (e.ingestTable place uid healthy dets at_ t).seats.get id =
      if t.floorId = place ∧ (e.tables.get t.id).isSome = true ∧
          e.authorityFor t (some at_) = some uid ∧ healthy = true ∧
            id ∈ t.seats.map SeatSpec.id then
        (e.seats.get id).map (SeatTrack.update e.opts
          (id ∈ assignSeats e.opts t (Engine.hereAt t dets)) at_)
      else e.seats.get id := by
  unfold Engine.ingestTable
  by_cases hFloor : t.floorId = place
  · rw [if_neg (not_not.mpr hFloor)]
    rcases e.tables.get t.id with - | track
    · simp
    · by_cases hMoves : e.authorityFor t (some at_) = some uid ∧ healthy = true
      · simp only [hMoves.1, hMoves.2, ne_eq, not_true_eq_false, Bool.not_true,
          Bool.false_eq_true, or_self, if_false]
        by_cases hMem : id ∈ t.seats.map SeatSpec.id
        · rw [if_pos ⟨hFloor, rfl, trivial, trivial, hMem⟩, Engine.get_updateSeats _ _ _ _ hMem]
          rfl
        · rw [if_neg fun hAll => hMem hAll.2.2.2.2, Engine.get_updateSeats_ne _ _ _ _ hMem]
          rfl
      · have hStays : e.authorityFor t (some at_) ≠ some uid ∨ (!healthy) = true := by
          rw [not_and_or, Bool.not_eq_true] at hMoves
          simpa using hMoves
        rw [if_neg fun hAll => hMoves ⟨hAll.2.2.1, hAll.2.2.2.1⟩]
        simp only [hStays, if_true, Engine.setTable]
  · rw [if_pos hFloor, if_neg fun hAll => hFloor hAll.1]

theorem since_ingestTable (e : Engine) (t : TableDef) (id : Text) :
    ((e.ingestTable place uid healthy dets at_ t).tables.get id).map TableTrack.unknownSince =
      (e.tables.get id).map TableTrack.unknownSince := by
  rw [get_ingestTable]
  split
  · rw [Option.map_map]
    rfl
  · rfl

theorem quiet_ingestTable (h : Quiet reg floorId e) (t : TableDef) :
    Quiet reg floorId (e.ingestTable place uid healthy dets at_ t) := by
  intro uid' st hUid hGet
  rw [(ingestTable_nodes e t).1] at hGet
  exact h uid' st hUid hGet

/-- A report from the floor does the same to both. -/
theorem Alike.ingestTable (hSound : reg.Sound) (h : Alike reg floorId e e') (ht : t ∈ reg.tables) :
    Alike reg floorId (e.ingestTable floorId uid healthy dets at_ t)
      (e'.ingestTable floorId uid healthy dets at_ t) := by
  obtain ⟨hNodes, hOpts⟩ := @ingestTable_nodes at_ floorId uid healthy dets e t
  obtain ⟨hNodes', hOpts'⟩ := @ingestTable_nodes at_ floorId uid healthy dets e' t
  refine ⟨by rw [hOpts, hOpts', h.opts], fun uid' hUid => ?_, fun u hu hFloor => ?_,
    fun u hu hFloor s hs => ?_, fun u hu hBare => ?_, quiet_ingestTable h.quiet t,
    quiet_ingestTable h.quiet' t⟩
  · rw [hNodes, hNodes']
    exact h.nodes uid' hUid
  · rw [get_ingestTable, get_ingestTable, h.tables u hu hFloor]
    by_cases hOn : t.floorId = floorId
    · rw [h.authorityFor hSound ht (.inl hOn)]
    · rw [if_neg fun hBoth => hOn hBoth.1, if_neg fun hBoth => hOn hBoth.1]
  · rw [seats_ingestTable, seats_ingestTable, h.seats u hu hFloor s hs, h.opts]
    by_cases hOn : t.floorId = floorId
    · rw [h.authorityFor hSound ht (.inl hOn), h.tables t ht hOn]
    · rw [if_neg fun hAll => hOn hAll.1, if_neg fun hAll => hOn hAll.1]
  · rw [since_ingestTable, since_ingestTable]
    exact h.bare u hu hBare

/-- One from another floor leaves it as it is. -/
theorem Alike.ingestTable_other (hSound : reg.Sound) (hApart : Apart reg floorId)
    (h : Alike reg floorId e e') (hOther : place ≠ floorId) (ht : t ∈ reg.tables) :
    Alike reg floorId (e.ingestTable place uid healthy dets at_ t) e' := by
  obtain ⟨hNodes, hOpts⟩ := @ingestTable_nodes at_ place uid healthy dets e t
  refine ⟨by rw [hOpts, h.opts], fun uid' hUid => ?_, fun u hu hFloor => ?_,
    fun u hu hFloor s hs => ?_, fun u hu hBare => ?_, quiet_ingestTable h.quiet t, h.quiet'⟩
  · rw [hNodes]
    exact h.nodes uid' hUid
  · rw [get_ingestTable, if_neg]
    · exact h.tables u hu hFloor
    · rintro ⟨hOn, hId⟩
      obtain rfl := inj_on_of_nodup_map hSound.site.tableIds hu ht hId
      exact hOther (hOn.symm.trans hFloor)
  · rw [seats_ingestTable, if_neg]
    · exact h.seats u hu hFloor s hs
    · rintro ⟨hOn, -, hAuthority, -, hMem⟩
      refine hApart.seats u hu hFloor t ht (hOn ▸ hOther) (fun hBare => ?_) ⟨s, hs, hMem⟩
      have hCovers := mem_of_authority hAuthority
      rw [hBare] at hCovers
      cases hCovers
  · rw [since_ingestTable]
    exact h.bare u hu hBare

theorem Alike.setNode (h : Alike reg floorId e e') (uid : Text) (st : NodeState)
    (hQuiet : Elsewhere reg floorId uid = true → ∀ f ∈ reg.floors, f.id = floorId →
      ∀ z ∈ f.zones, st.zoneHistory.get z.id = none) :
    Alike reg floorId (e.setNode uid st) (e'.setNode uid st) := by
  have hBoth : ∀ {e : Engine}, Quiet reg floorId e → Quiet reg floorId (e.setNode uid st) := by
    intro e hE uid' st' hUid hGet
    simp only [Engine.setNode, JsMap.get_set] at hGet
    split at hGet
    next hSame =>
      cases hGet
      exact hQuiet (hSame ▸ hUid)
    next => exact hE uid' st' hUid hGet
  refine ⟨h.opts, fun uid' hUid => ?_, h.tables, h.seats, h.bare, hBoth h.quiet, hBoth h.quiet'⟩
  simp only [Engine.setNode, JsMap.get_set]
  rw [h.nodes uid' hUid]

theorem Alike.setNode_other (h : Alike reg floorId e e') (hUid : Elsewhere reg floorId uid = true)
    (st : NodeState) (hQuiet : ∀ f ∈ reg.floors, f.id = floorId → ∀ z ∈ f.zones,
      st.zoneHistory.get z.id = none) : Alike reg floorId (e.setNode uid st) e' := by
  refine ⟨h.opts, fun uid' hHere => ?_, h.tables, h.seats, h.bare, fun uid' st' hUid' hGet => ?_,
    h.quiet'⟩
  · rw [h.nodes uid' hHere, Engine.setNode, JsMap.get_set, if_neg]
    rintro rfl
    rw [hUid] at hHere
    cases hHere
  · simp only [Engine.setNode, JsMap.get_set] at hGet
    split at hGet
    next =>
      cases hGet
      exact hQuiet
    next => exact h.quiet uid' st' hUid' hGet

end tables

/-! ## A report -/

section report

variable {reg : Registry} {lens : Lens} {floorId : Text} {e e' : Engine} {r : Report} {at_ : ℚ}

theorem Alike.ingestTables (hSound : reg.Sound) (h : Alike reg floorId e e') (uid : Text)
    (healthy : Bool) (dets : List ConsoleDetection) (at_ : ℚ) {ts : List TableDef}
    (hts : ∀ t ∈ ts, t ∈ reg.tables) :
    Alike reg floorId (ts.foldl (fun e t => e.ingestTable floorId uid healthy dets at_ t) e)
      (ts.foldl (fun e t => e.ingestTable floorId uid healthy dets at_ t) e') := by
  induction ts generalizing e e' with
  | nil => exact h
  | cons t ts ih =>
    exact ih (h.ingestTable hSound (hts t (by simp))) fun t' ht' => hts t' (by simp [ht'])

theorem Alike.ingestTables_other (hSound : reg.Sound) (hApart : Apart reg floorId)
    (h : Alike reg floorId e e') {place : Text} (hOther : place ≠ floorId) (uid : Text)
    (healthy : Bool) (dets : List ConsoleDetection) (at_ : ℚ) {ts : List TableDef}
    (hts : ∀ t ∈ ts, t ∈ reg.tables) :
    Alike reg floorId (ts.foldl (fun e t => e.ingestTable place uid healthy dets at_ t) e) e' := by
  induction ts generalizing e with
  | nil => exact h
  | cons t ts ih =>
    exact ih (h.ingestTable_other hSound hApart hOther (hts t (by simp)))
      fun t' ht' => hts t' (by simp [ht'])

theorem detect_congr (hOpts : e'.opts = e.opts) (place : Placement) (ref : Option ℚ)
    (ds : List Detection) :
    Engine.detect reg lens e' place ref ds = Engine.detect reg lens e place ref ds := by
  have hNearest : ∀ p, Engine.nearestTable reg e' place.floorId p =
      Engine.nearestTable reg e place.floorId p := fun p => by
    rw [Engine.nearestTable, hOpts, Engine.nearestTable]
  simp only [Engine.detect, hNearest, hOpts]

/-- Whoever sees a point of the floor best is on the floor. -/
theorem Alike.nearestHealthyViewer (hSound : reg.Sound) (h : Alike reg floorId e e') (p : Point)
    (now : Option ℚ) : Engine.nearestHealthyViewer reg lens e' floorId p now =
      Engine.nearestHealthyViewer reg lens e floorId p now := by
  unfold Engine.nearestHealthyViewer
  refine congrArg _ (foldl_ext _ _ _ fun best n hn => ?_)
  rcases hPlacement : n.placement with - | place
  · rfl
  · by_cases hFloor : place.floorId = floorId
    · obtain ⟨uid, hGet⟩ := mem_values_iff.mp hn
      obtain rfl := hSound.indexed uid n hGet
      have hHere : Elsewhere reg floorId n.uid = false :=
        not_elsewhere (by rw [hGet, Option.bind_some, hPlacement]) hFloor
      simp only [h.isHealthy hHere]
    · simp [hFloor]

theorem Alike.counts (hSound : reg.Sound) (h : Alike reg floorId e e') (uid : Text) :
    Engine.counts reg lens e' floorId uid at_ = Engine.counts reg lens e floorId uid at_ := by
  funext zone d
  simp only [Engine.counts, h.nearestHealthyViewer hSound]

theorem Alike.ingestZone (hSound : reg.Sound) (h : Alike reg floorId e e') (uid : Text)
    (dets : List ConsoleDetection) :
    Engine.ingestZone reg lens e' floorId uid dets at_ =
      Engine.ingestZone reg lens e floorId uid dets at_ := by
  funext history zone
  rw [Engine.ingestZone, h.counts hSound, Engine.ingestZone]

theorem get_foldl_ingestZone {floor uid : Text} {dets : List ConsoleDetection}
    {zones : List ZoneDef} {id : Text} (hNot : id ∉ zones.map ZoneDef.id)
    (history : JsMap Text (List Nat)) :
    (zones.foldl (Engine.ingestZone reg lens e floor uid dets at_) history).get id =
      history.get id := by
  induction zones generalizing history with
  | nil => rfl
  | cons z zones ih =>
    rw [map_cons, mem_cons, not_or] at hNot
    rw [foldl_cons, ih hNot.2, Engine.ingestZone, JsMap.get_set, if_neg hNot.1]

theorem Alike.moves (hSound : reg.Sound) (h : Alike reg floorId e e') (uid : Text)
    (healthy : Bool) : reg.tables.filter (e'.Moves floorId uid healthy at_) =
      reg.tables.filter (e.Moves floorId uid healthy at_) := by
  refine filter_congr fun t ht => ?_
  by_cases hFloor : t.floorId = floorId
  · rw [Engine.Moves, h.authorityFor hSound ht (.inl hFloor), Engine.Moves]
  · simp [Engine.Moves, hFloor]

theorem Alike.report (hSound : reg.Sound) (h : Alike reg floorId e e')
    (hUid : Elsewhere reg floorId r.uid = false) :
    Alike reg floorId (Engine.ingest reg lens e r at_).1 (Engine.ingest reg lens e' r at_).1 := by
  have hHeard : e'.heard r at_ = e.heard r at_ := by
    rw [Engine.heard, h.nodes _ hUid, Engine.heard]
  have hNot : ∀ {P : Prop}, Elsewhere reg floorId r.uid = true → P := fun hElse => by
    rw [hUid] at hElse
    cases hElse
  unfold Engine.ingest
  rcases hPlace : (reg.nodes.get r.uid).bind NodeDef.placement with - | place
  · dsimp only
    rw [hHeard]
    exact h.setNode r.uid _ hNot
  · have hOn : place.floorId = floorId := by
      by_contra hOff
      simp [Elsewhere, hPlace, hOff] at hUid
    subst hOn
    dsimp only
    rw [hHeard, detect_congr h.opts]
    have hSet := h.setNode r.uid { e.heard r at_ with
      heats := Engine.learn (e.heard r at_).heats
        (Engine.detect reg lens e place (e.heard r at_).refHeat r.detections) } hNot
    dsimp only at hSet
    rw [hSet.moves hSound]
    have hTables := fun dets =>
      hSet.ingestTables hSound r.uid (e.heard r at_).healthy dets at_ (fun _ ht => ht)
    split
    · split
      · rw [(hTables _).ingestZone hSound, (hTables _).counts hSound]
        exact (hTables _).setNode r.uid _ hNot
      · exact (hTables _).setNode r.uid _ hNot
    · exact (hTables _).setNode r.uid _ hNot

theorem Alike.report_other (hSound : reg.Sound) (hApart : Apart reg floorId)
    (h : Alike reg floorId e e') (hUid : Elsewhere reg floorId r.uid = true) :
    Alike reg floorId (Engine.ingest reg lens e r at_).1 e' := by
  obtain ⟨place, hPlace, hOff⟩ := (Option.any_eq_true _ _).mp hUid
  rw [decide_eq_true_eq] at hOff
  have hHistory : ∀ f ∈ reg.floors, f.id = floorId → ∀ z ∈ f.zones,
      (e.heard r at_).zoneHistory.get z.id = none := by
    intro f hf hId z hz
    rcases hGet : e.nodes.get r.uid with - | st
    · rw [Engine.heard, hGet]
      rfl
    · rw [Engine.heard, hGet]
      exact h.quiet r.uid st hUid hGet f hf hId z hz
  unfold Engine.ingest
  rw [hPlace]
  dsimp only
  have hTables := fun heats dets =>
    (h.setNode_other hUid { e.heard r at_ with heats } hHistory).ingestTables_other hSound hApart
      hOff r.uid (e.heard r at_).healthy dets at_ (fun _ ht => ht)
  split
  next floor hFloor =>
    split
    · refine (hTables _ _).setNode_other hUid _ fun f hf hId z hz => ?_
      have hZone := hApart.zones r.uid place hPlace hOff floor (mem_of_find?_eq_some hFloor)
        (by simpa using find?_some hFloor) f hf hId z hz
      rw [get_foldl_ingestZone hZone]
      exact hHistory f hf hId z hz
    · exact (hTables _ _).setNode_other hUid _ hHistory
  next => exact (hTables _ _).setNode_other hUid _ hHistory

end report

/-! ## What is shown -/

section shown

variable {reg : Registry} {lens : Lens} {floorId : Text} {e e' : Engine} {t : TableDef}
  {f : FloorDef} {now : ℚ}

theorem Alike.tableState (hSound : reg.Sound) (hApart : Apart reg floorId)
    (h : Alike reg floorId e e') (ht : t ∈ reg.tables) (hFloor : t.floorId = floorId) (now : ℚ) :
    (e'.tableState t now).2 = (e.tableState t now).2 := by
  have hForget := h.forget hSound hApart ht now
  unfold Engine.tableState
  rw [h.authorityFor hSound ht (.inl hFloor)]
  exact stateOf_congr hForget.opts (hForget.seats t ht hFloor)

/-- Who is away from the tables of a zone has been counted by nodes of the floor. -/
theorem away_here (hQuiet : Quiet reg floorId e) (hf : f ∈ reg.floors) (hId : f.id = floorId)
    {z : ZoneDef} (hz : z ∈ f.zones) (now : ℚ) :
    e.nodes.entries.filterMap (e.zonePeople z.id now) =
      (e.nodes.entries.filter fun n => !Elsewhere reg floorId n.1).filterMap
        (e.zonePeople z.id now) := by
  rw [filterMap_filter]
  refine filterMap_congr fun n hn => ?_
  rcases hElse : Elsewhere reg floorId n.1 with - | -
  · rfl
  · have hNone := hQuiet n.1 n.2 hElse (get_eq_some_iff.mpr hn) f hf hId z hz
    simp [Engine.zonePeople, hNone]

theorem Alike.entries_perm (h : Alike reg floorId e e') :
    (e'.nodes.entries.filter fun n => !Elsewhere reg floorId n.1).Perm
      (e.nodes.entries.filter fun n => !Elsewhere reg floorId n.1) := by
  have hNodup : ∀ m : JsMap Text NodeState, m.entries.Nodup := fun m => m.nodup.of_map _
  refine (perm_ext_iff_of_nodup ((hNodup _).filter _) ((hNodup _).filter _)).mpr fun n => ?_
  rw [mem_filter, mem_filter, and_congr_left_iff]
  intro hHere
  have hSame := h.nodes n.1 (by simpa using hHere)
  rw [← get_eq_some_iff (m := e'.nodes) (k := n.1), hSame, get_eq_some_iff]

theorem Alike.away (h : Alike reg floorId e e') (hf : f ∈ reg.floors) (hId : f.id = floorId)
    {z : ZoneDef} (hz : z ∈ f.zones) (now : ℚ) :
    (e'.nodes.entries.filterMap (e'.zonePeople z.id now)).Perm
      (e.nodes.entries.filterMap (e.zonePeople z.id now)) := by
  rw [away_here h.quiet hf hId hz, away_here h.quiet' hf hId hz]
  have hPeople : ∀ n ∈ e'.nodes.entries.filter fun n => !Elsewhere reg floorId n.1,
      e'.zonePeople z.id now n = e.zonePeople z.id now n := by
    intro n hn
    have hHere : Elsewhere reg floorId n.1 = false := by
      simpa using (mem_filter.mp hn).2
    rw [Engine.zonePeople, h.isHealthy hHere, Engine.zonePeople]
  rw [filterMap_congr hPeople]
  exact h.entries_perm.filterMap _

theorem Alike.zoneState (h : Alike reg floorId e e') (hf : f ∈ reg.floors) (hId : f.id = floorId)
    {z : ZoneDef} (hz : z ∈ f.zones) {states : List TableState}
    (hStates : ∀ state ∈ states, ∃ t ∈ reg.tables, t.floorId = floorId ∧ state.id = t.id) :
    e'.zoneState states now z = e.zoneState states now z := by
  have hAway := h.away hf hId hz now
  have hNone : (e'.nodes.entries.filterMap (e'.zonePeople z.id now) ≠ []) =
      (e.nodes.entries.filterMap (e.zonePeople z.id now) ≠ []) := by
    rw [ne_eq, ne_eq, ← length_eq_zero_iff, hAway.length_eq, length_eq_zero_iff]
  have hAt : (states.filter fun t => t.zoneId = z.id).map (fun t =>
        median (((e'.tables.get t.id).map TableTrack.peopleHistory).getD [])) =
      (states.filter fun t => t.zoneId = z.id).map fun t =>
        median (((e.tables.get t.id).map TableTrack.peopleHistory).getD []) := by
    refine map_congr_left fun state hState => ?_
    obtain ⟨t, ht, hFloor, hSame⟩ := hStates state (mem_filter.mp hState).1
    rw [hSame, h.tables t ht hFloor]
  simp only [Engine.zoneState, hAt, hAway.sum_eq, hNone]

theorem Alike.floorState (hSound : reg.Sound) (hApart : Apart reg floorId)
    (h : Alike reg floorId e e') (hf : f ∈ reg.floors) (hId : f.id = floorId) (now : ℚ) :
    (e'.floorState f now).2 = (e.floorState f now).2 := by
  have hMem : ∀ t ∈ f.tables, t ∈ reg.tables := fun t ht => mem_flatMap.mpr ⟨f, hf, ht⟩
  have hOn : ∀ t ∈ f.tables, t.floorId = floorId := fun t ht =>
    ((hSound.site.sound f hf).floor t ht).trans hId
  have hTables : (e'.tableStates f.tables now).2 = (e.tableStates f.tables now).2 := by
    refine tableStates_eq_iff.mpr fun pre a post hSplit => ?_
    have ha : a ∈ f.tables := by simp [hSplit]
    exact (h.forgetAll hSound hApart pre (fun t ht => hMem t (by simp [hSplit, ht])) now).tableState
      hSound hApart (hMem a ha) (hOn a ha) now
  have hAll := h.forgetAll hSound hApart f.tables hMem now
  have hZones : f.zones.map ((e'.forgetAll now f.tables).zoneState
        (e.tableStates f.tables now).2 now) =
      f.zones.map ((e.forgetAll now f.tables).zoneState (e.tableStates f.tables now).2 now) := by
    refine map_congr_left fun z hz => hAll.zoneState hf hId hz fun state hState => ?_
    obtain ⟨t, ht, hSame⟩ := id_of_mem_tableStates hState
    exact ⟨t, hMem t ht, hOn t ht, hSame⟩
  simp only [Engine.floorState, tableStates_fst, hTables, hZones]

theorem floorStates_cons (e : Engine) (g : FloorDef) (fs : List FloorDef) (now : ℚ) :
    (e.floorStates (g :: fs) now).2 =
      (e.floorState g now).2 :: ((e.forgetAll now g.tables).floorStates fs now).2 := by
  rw [← tableStates_fst]
  rfl

theorem find?_floorStates (e : Engine) {pre post : List FloorDef}
    (hPre : ∀ g ∈ pre, g.id ≠ floorId) (hId : f.id = floorId) :
    (e.floorStates (pre ++ f :: post) now).2.find? (fun s => s.id = floorId) =
      some ((e.forgetAll now (pre.flatMap FloorDef.tables)).floorState f now).2 := by
  induction pre generalizing e with
  | nil =>
    have hThis : decide ((e.floorState f now).2.id = floorId) = true := decide_eq_true hId
    simp only [nil_append, floorStates_cons, find?_cons, hThis]
    rfl
  | cons g pre ih =>
    have hOther : decide ((e.floorState g now).2.id = floorId) = false :=
      decide_eq_false (hPre g (by simp))
    simp only [cons_append, floorStates_cons, find?_cons, hOther]
    rw [ih _ fun g' hg' => hPre g' (by simp [hg']), flatMap_cons, forgetAll_append]

theorem find?_floorStates_none (e : Engine) {fs : List FloorDef}
    (hNone : ∀ g ∈ fs, g.id ≠ floorId) :
    (e.floorStates fs now).2.find? (fun s => s.id = floorId) = none := by
  induction fs generalizing e with
  | nil => rfl
  | cons g fs ih =>
    have hOther : decide ((e.floorState g now).2.id = floorId) = false :=
      decide_eq_false (hNone g (by simp))
    simp only [floorStates_cons, find?_cons, hOther]
    exact ih _ fun g' hg' => hNone g' (by simp [hg'])

theorem Alike.shownFloor (hSound : reg.Sound) (hApart : Apart reg floorId)
    (h : Alike reg floorId e e') (now : ℚ) :
    shownFloor reg floorId now e' = shownFloor reg floorId now e := by
  unfold Occupancy.shownFloor Engine.snapshot
  rcases hFind : reg.floors.find? fun g => g.id = floorId with - | f
  · have hNone : ∀ g ∈ reg.floors, g.id ≠ floorId := by simpa using hFind
    rw [find?_floorStates_none e' hNone, find?_floorStates_none e hNone]
  · obtain ⟨hId, pre, post, hSplit, hPre⟩ := find?_eq_some_iff_append.mp hFind
    rw [decide_eq_true_eq] at hId
    have hPre : ∀ g ∈ pre, g.id ≠ floorId := by simpa using hPre
    have hf : f ∈ reg.floors := by simp [hSplit]
    rw [hSplit, find?_floorStates e' hPre hId, find?_floorStates e hPre hId]
    have hBefore := h.forgetAll hSound hApart (pre.flatMap FloorDef.tables) (fun t ht => by
      obtain ⟨g, hg, ht⟩ := mem_flatMap.mp ht
      exact mem_flatMap.mpr ⟨g, by simp [hSplit, hg], ht⟩) now
    rw [hBefore.floorState hSound hApart hf hId]

end shown

/-! ## Whole runs -/

section runs

variable {reg : Registry} {lens : Lens} {floorId : Text} {e e' : Engine}

theorem Alike.setOptions (h : Alike reg floorId e e') (patch : EdgeParam → Option ℚ) :
    Alike reg floorId (Engine.step reg lens e (.setOptions patch))
      (Engine.step reg lens e' (.setOptions patch)) := by
  unfold Engine.step Engine.setOptions
  dsimp only
  rw [h.opts]
  by_cases hBad : (Engine.patched e.opts patch).enterWindow < (Engine.patched e.opts patch).enterMin
  · rw [if_pos hBad, if_pos hBad]
    exact h
  · rw [if_neg hBad, if_neg hBad]
    refine ⟨rfl, h.nodes, h.tables, fun t ht hFloor s hs => ?_, h.bare, h.quiet, h.quiet'⟩
    rw [get_mapValues, get_mapValues, h.seats t ht hFloor s hs]

theorem alike_step (hSound : reg.Sound) (hApart : Apart reg floorId) {ev : OccupancyEvent}
    (h : Alike reg floorId e e') (hConcerns : ev.concerns reg floorId = true) :
    Alike reg floorId (Engine.step reg lens e ev) (Engine.step reg lens e' ev) := by
  cases ev with
  | report r at_ => exact h.report hSound (by simpa [OccupancyEvent.concerns] using hConcerns)
  | snapshot now =>
    rw [Engine.step, Engine.step, snapshot_fst, snapshot_fst]
    exact h.forgetAll hSound hApart reg.tables (fun _ ht => ht) now
  | setOptions patch => exact h.setOptions patch

theorem alike_hidden (hSound : reg.Sound) (hApart : Apart reg floorId) {ev : OccupancyEvent}
    (h : Alike reg floorId e e') (hConcerns : ev.concerns reg floorId = false) :
    Alike reg floorId (Engine.step reg lens e ev) e' := by
  cases ev with
  | report r at_ =>
    exact h.report_other hSound hApart (by simpa [OccupancyEvent.concerns] using hConcerns)
  | snapshot now => cases hConcerns
  | setOptions patch => cases hConcerns

/-- A floor that has neither a zone nor a seat in common with the others is shown the same, whatever
the nodes of the others report. -/
theorem floor_undisturbed {fmt : Format} {u : Unicode} {siteJson nodesJson : Json}
    (h : buildRegistry fmt u lens siteJson nodesJson = .ok reg) (hApart : Apart reg floorId) :
    Undisturbed reg lens floorId := by
  intro opts es es' hSame now
  have hSound := buildRegistry_sound h
  have hAlike := run_related (R := Alike reg floorId) (fun _ _ hR => hR.symm)
    (fun _ _ _ hR hR' => hR.trans hR')
    (fun s s' ev hR hSeen => @alike_step reg lens floorId s s' hSound hApart ev hR hSeen)
    (fun s s' ev hR hSeen => @alike_hidden reg lens floorId s s' hSound hApart ev hR hSeen)
    (alike_new opts) hSame
  exact (hAlike.shownFloor hSound hApart now).symm

end runs

/-! ## A zone on two floors -/

/-- A floor with one zone and no tables. -/
def hallJson (id zone : String) : Json :=
  .object [(js "id", text id), (js "building", text "B"), (js "name", text id),
    (js "width", .number 1000), (js "height", .number 1000), (js "outline", corners),
    (js "zones", .array [.object [(js "id", text zone), (js "name", text "Main"),
      (js "polygon", corners)]]),
    (js "tables", .array [])]

def hallSite (zone : String) : Json :=
  .object [(js "site", .object [(js "id", text "site"), (js "name", text "Site")]),
    (js "floors", .array [hallJson "one" "main", hallJson "two" zone])]

/-- A node on the second floor. -/
def hallNodes : Json :=
  .object [(js "nodes", .array [.object [(js "uid", text "00:00:00:00:00:02"),
    (js "floor", text "two"), (js "pose", .object [(js "x", .number 500), (js "y", .number 100),
      (js "heightCm", .number 260)]), (js "owns", .array [])]])]

theorem halls_accepted : ∀ zone ∈ ["main", "loft"],
    (buildRegistry terse ascii plumb (hallSite zone) hallNodes).toOption.isSome = true := by
  decide +kernel

theorem ok_of_isSome {x : Except Text Registry} (h : x.toOption.isSome = true) :
    x = .ok (x.toOption.get h) := by
  rcases x with error | reg
  · cases h
  · rfl

def halls : Registry :=
  (buildRegistry terse ascii plumb (hallSite "main") hallNodes).toOption.get
    (halls_accepted "main" (by simp))

def loft : Registry :=
  (buildRegistry terse ascii plumb (hallSite "loft") hallNodes).toOption.get
    (halls_accepted "loft" (by simp))

theorem apart_loft : Apart loft (js "one") := by
  have hZones : ∀ g ∈ loft.floors, g.id ≠ js "one" → ∀ f ∈ loft.floors, f.id = js "one" →
      ∀ z ∈ f.zones, z.id ∉ g.zones.map ZoneDef.id := by
    decide +kernel
  have hTables : loft.tables.length = 0 := by decide +kernel
  refine ⟨fun uid place _ hOff g hg hId f hf hOn z hz => ?_, fun a ha => ?_⟩
  · exact hZones g hg (hId ▸ hOff) f hf hOn z hz
  · rw [length_eq_zero_iff.mp hTables] at ha
    cases ha

theorem loft_undisturbed : Undisturbed loft plumb (js "one") :=
  floor_undisturbed (ok_of_isSome (halls_accepted "loft" (by simp))) apart_loft

/-- Somebody below the node of the second floor. -/
def visitor : Report :=
  { heartbeat (js "00:00:00:00:00:02") with
    detections := [{ x := 16, y := 12, area := 4, contrast := 2, peak := 30, heat := 10 }] }

/-- Whoever walks on the second floor is counted on the first one too. -/
theorem floor_disturbed : ¬ ∀ fmt u lens siteJson nodesJson reg,
    buildRegistry fmt u lens siteJson nodesJson = .ok reg →
      ∀ floorId, Undisturbed reg lens floorId := by
  intro hAll
  have hElse : Elsewhere halls (js "one") (js "00:00:00:00:00:02") = true := by decide +kernel
  have hSame := hAll terse ascii plumb (hallSite "main") hallNodes halls
    (ok_of_isSome (halls_accepted "main" (by simp))) (js "one") defaultOccupancy
    [.report visitor 0] [.report (heartbeat (js "00:00:00:00:00:02")) 0]
    (by simp [OccupancyEvent.concerns, visitor, heartbeat, hElse]) 0
  revert hSame
  decide +kernel

end TMEdge.Occupancy
