import TMEdge.Occupancy.Engine
import TMEdge.Occupancy.SeatIds

/-!
# Who moves a table

What a report does to the tables of its floor (`Ingested`, `ingestTable_kept`). A report moves only
the tables whose authority it comes from, but a seat that two tables share moves with both.

* `only_authority_iff`: only the authority of a table moves it exactly when tables that share a
  seat are covered alike.
-/

namespace TMEdge.Occupancy

open Library List

/-! ## A report -/

section ingest

variable {reg : Registry} {lens : Lens} {e e' : Engine} {r : Report} {at_ : ℚ}
  {floorId uid : Text} {healthy : Bool} {dets : List ConsoleDetection} {table other : TableDef}

/-- The health of a node as others see it. -/
def Engine.pulse (e : Engine) (uid : Text) : Option (Bool × ℚ) :=
  (e.nodes.get uid).map fun st => (st.healthy, st.lastReportAt)

theorem isHealthy_eq (e : Engine) (uid : Text) (now : Option ℚ) : e.isHealthy uid now =
    (e.pulse uid).any fun p => p.1 && now.all fun now => now - p.2 ≤ e.opts.staleMs := by
  unfold Engine.isHealthy Engine.pulse
  rcases e.nodes.get uid with - | st
  · rfl
  · rfl

theorem isHealthy_congr (hPulse : ∀ uid, e.pulse uid = e'.pulse uid)
    (hStale : e.opts.staleMs = e'.opts.staleMs) (uid : Text) (now : Option ℚ) :
    e.isHealthy uid now = e'.isHealthy uid now := by
  rw [isHealthy_eq, isHealthy_eq, hPulse, hStale]

theorem authorityFor_congr (hPulse : ∀ uid, e.pulse uid = e'.pulse uid)
    (hStale : e.opts.staleMs = e'.opts.staleMs) (table : TableDef) (now : Option ℚ) :
    e.authorityFor table now = e'.authorityFor table now := by
  unfold Engine.authorityFor
  congr 1
  exact funext fun uid => isHealthy_congr hPulse hStale uid now

theorem pulse_setNode (e : Engine) (uid uid' : Text) (st : NodeState) :
    (e.setNode uid st).pulse uid' =
      if uid' = uid then some (st.healthy, st.lastReportAt) else e.pulse uid' := by
  simp only [Engine.setNode, Engine.pulse, JsMap.get_set]
  split
  · rfl
  · rfl

theorem ingestTable_nodes (e : Engine) (table : TableDef) :
    (e.ingestTable floorId uid healthy dets at_ table).nodes = e.nodes ∧
      (e.ingestTable floorId uid healthy dets at_ table).opts = e.opts := by
  unfold Engine.ingestTable
  split
  · exact ⟨rfl, rfl⟩
  · split
    · exact ⟨rfl, rfl⟩
    · dsimp only
      split
      · exact ⟨rfl, rfl⟩
      · exact ⟨rfl, rfl⟩

/-- What a report does to the tables. -/
def Engine.ingestTables (e : Engine) (reg : Registry) (floorId uid : Text) (healthy : Bool)
    (dets : List ConsoleDetection) (at_ : ℚ) : Engine :=
  reg.tables.foldl (fun e t => e.ingestTable floorId uid healthy dets at_ t) e

theorem foldl_ingestTable_nodes (ts : List TableDef) (e : Engine) :
    (ts.foldl (fun e t => e.ingestTable floorId uid healthy dets at_ t) e).nodes = e.nodes ∧
      (ts.foldl (fun e t => e.ingestTable floorId uid healthy dets at_ t) e).opts = e.opts := by
  induction ts generalizing e with
  | nil => exact ⟨rfl, rfl⟩
  | cons t ts ih =>
    obtain ⟨hNodes, hOpts⟩ := ih (e.ingestTable floorId uid healthy dets at_ t)
    obtain ⟨hNodes', hOpts'⟩ := @ingestTable_nodes at_ floorId uid healthy dets e t
    exact ⟨hNodes.trans hNodes', hOpts.trans hOpts'⟩

/-- A report comes in: from a node that is not placed, or with what it does to the tables. -/
inductive Ingested (reg : Registry) (e : Engine) (r : Report) (at_ : ℚ) : Engine → Prop
  | unplaced (st : NodeState) (hPlace : (reg.nodes.get r.uid).bind NodeDef.placement = none)
      (hPulse : st.healthy = r.healthy ∧ st.lastReportAt = at_) :
      Ingested reg e r at_ (e.setNode r.uid st)
  | placed (place : Placement) (st st' : NodeState) (dets : List ConsoleDetection)
      (hPlace : (reg.nodes.get r.uid).bind NodeDef.placement = some place)
      (hPulse : st.healthy = r.healthy ∧ st.lastReportAt = at_)
      (hPulse' : st'.healthy = r.healthy ∧ st'.lastReportAt = at_) :
      Ingested reg e r at_ (((e.setNode r.uid st).ingestTables reg place.floorId r.uid r.healthy
        dets at_).setNode r.uid st')

theorem ingested (reg : Registry) (lens : Lens) (e : Engine) (r : Report) (at_ : ℚ) :
    Ingested reg e r at_ (Engine.ingest reg lens e r at_).1 := by
  unfold Engine.ingest
  dsimp only
  split
  next hPlace => exact .unplaced _ hPlace ⟨rfl, rfl⟩
  next place hPlace =>
    split
    · split
      · exact .placed place _ _ _ hPlace ⟨rfl, rfl⟩ ⟨rfl, rfl⟩
      · exact .placed place _ _ _ hPlace ⟨rfl, rfl⟩ ⟨rfl, rfl⟩
    · exact .placed place _ _ _ hPlace ⟨rfl, rfl⟩ ⟨rfl, rfl⟩

/-- Afterwards the reporting node is as healthy as its report says, and the others are as they
were. -/
theorem Ingested.pulse (h : Ingested reg e r at_ e') (uid : Text) :
    e'.pulse uid = if uid = r.uid then some (r.healthy, at_) else e.pulse uid := by
  cases h with
  | unplaced st hPlace hPulse => rw [pulse_setNode, hPulse.1, hPulse.2]
  | placed place st st' dets hPlace hPulse hPulse' =>
    rw [pulse_setNode, hPulse'.1, hPulse'.2]
    split
    · rfl
    next hNe =>
      have hNodes := (@foldl_ingestTable_nodes at_ place.floorId r.uid r.healthy dets reg.tables
        (e.setNode r.uid st)).1
      rw [Engine.pulse, Engine.ingestTables, hNodes, ← Engine.pulse, pulse_setNode, if_neg hNe]

theorem Ingested.opts (h : Ingested reg e r at_ e') : e'.opts = e.opts := by
  cases h with
  | unplaced st hPlace hPulse => rfl
  | placed place st st' dets hPlace hPulse hPulse' =>
    exact (@foldl_ingestTable_nodes at_ place.floorId r.uid r.healthy dets reg.tables
      (e.setNode r.uid st)).2

/-! ## What stays -/

/-- The seats of a table and the people seen at it are as they were. -/
structure TableKept (table : TableDef) (e e' : Engine) : Prop where
  seats : ∀ s ∈ table.seats, e'.seats.get s.id = e.seats.get s.id
  people : (e'.tables.get table.id).map TableTrack.peopleHistory =
    (e.tables.get table.id).map TableTrack.peopleHistory

theorem TableKept.refl (table : TableDef) (e : Engine) : TableKept table e e :=
  ⟨fun _ _ => rfl, rfl⟩

theorem TableKept.trans {e'' : Engine} (h : TableKept table e e') (h' : TableKept table e' e'') :
    TableKept table e e'' :=
  ⟨fun s hs => (h'.seats s hs).trans (h.seats s hs), h'.people.trans h.people⟩

theorem moves_iff : e.Moves floorId uid healthy at_ table = true ↔
    table.floorId = floorId ∧ e.authorityFor table (some at_) = some uid ∧ healthy = true := by
  simp [Engine.Moves]

/-- One table is kept by what a report does to another, unless that one moves and is the same or
shares a seat. -/
theorem ingestTable_kept
    (h : e.Moves floorId uid healthy at_ other = true →
      other.id ≠ table.id ∧ ¬ Shares table other) :
    TableKept table e (e.ingestTable floorId uid healthy dets at_ other) := by
  unfold Engine.ingestTable
  split
  · exact .refl table e
  next hFloor =>
    split
    · exact .refl table e
    next track hTrack =>
      dsimp only
      split
      · refine ⟨fun _ _ => rfl, ?_⟩
        simp only [Engine.setTable, JsMap.get_set]
        split
        next hId => rw [hId, hTrack, Option.map_some, Option.map_some]
        next => rfl
      next hMoves =>
        simp only [not_or, not_not, Bool.not_eq_true', Bool.not_eq_false] at hMoves
        obtain ⟨hNe, hApart⟩ := h (moves_iff.mpr ⟨not_not.mp hFloor, hMoves⟩)
        constructor
        · intro s hs
          rw [Engine.get_updateSeats_ne]
          · rfl
          · exact fun hMem => hApart ⟨s, hs, hMem⟩
        · simp only [Engine.updateSeats, Engine.setTable, JsMap.get_set, if_neg (Ne.symm hNe)]

theorem moves_congr (hPulse : ∀ uid, e'.pulse uid = e.pulse uid) (hOpts : e'.opts = e.opts) :
    e'.Moves floorId uid healthy at_ table = e.Moves floorId uid healthy at_ table := by
  rw [Engine.Moves, Engine.Moves, authorityFor_congr hPulse (by rw [hOpts])]

theorem pulse_congr (hNodes : e'.nodes = e.nodes) (uid : Text) : e'.pulse uid = e.pulse uid := by
  rw [Engine.pulse, hNodes, Engine.pulse]

theorem foldl_ingestTable_kept (ts : List TableDef) (e : Engine)
    (h : ∀ other ∈ ts, e.Moves floorId uid healthy at_ other = true →
      other.id ≠ table.id ∧ ¬ Shares table other) :
    TableKept table e (ts.foldl (fun e t => e.ingestTable floorId uid healthy dets at_ t) e) := by
  induction ts generalizing e with
  | nil => exact .refl table e
  | cons t ts ih =>
    obtain ⟨hNodes, hOpts⟩ := @ingestTable_nodes at_ floorId uid healthy dets e t
    refine (ingestTable_kept (h t (by simp))).trans (ih _ fun other hOther hMoves => ?_)
    rw [moves_congr (pulse_congr hNodes) hOpts] at hMoves
    exact h other (by simp [hOther]) hMoves

/-- A table that a report does not keep: it, or one that shares a seat with it, is moved by the
reporting node. -/
theorem Ingested.kept (h : Ingested reg e r at_ e')
    (hQuiet : ∀ place, (reg.nodes.get r.uid).bind NodeDef.placement = some place →
      ∀ other ∈ reg.tables, e'.Moves place.floorId r.uid r.healthy at_ other = true →
        other.id ≠ table.id ∧ ¬ Shares table other) : TableKept table e e' := by
  have hPulse' := h.pulse
  have hOpts' := h.opts
  cases h with
  | unplaced st hPlace hPulse => exact ⟨fun _ _ => rfl, rfl⟩
  | placed place st st' dets hPlace hPulse _ =>
    have hSet : _ = (e.setNode r.uid st).opts := hOpts'
    have hKept := @foldl_ingestTable_kept at_ place.floorId r.uid r.healthy dets table reg.tables
      (e.setNode r.uid st) fun other hOther hMoves => by
        refine hQuiet place hPlace other hOther ((moves_congr (fun uid => ?_) hSet).trans hMoves)
        rw [hPulse', pulse_setNode, hPulse.1, hPulse.2]
    exact ⟨hKept.seats, hKept.people⟩

/-! ## The authority -/

/-- A report leaves a table as it was, or comes from its authority: a node on its floor that the
report makes healthy and that is the first of those that cover it to be so. -/
def AuthorityMoves (reg : Registry) (lens : Lens) (e : Engine) (r : Report) (at_ : ℚ) : Prop :=
  ∀ table ∈ reg.tables, TableKept table e (Engine.ingest reg lens e r at_).1 ∨
    ((reg.nodes.get r.uid).bind NodeDef.placement).any (fun p => p.floorId = table.floorId) = true ∧
      r.healthy = true ∧
      (Engine.ingest reg lens e r at_).1.authorityFor table (some at_) = some r.uid

/-- While its owner is healthy and not stale, a table is left alone by the others. -/
def OwnerHolds (reg : Registry) (lens : Lens) (e : Engine) (r : Report) (at_ : ℚ) : Prop :=
  ∀ table ∈ reg.tables, ∀ owner, table.owner = some owner → e.isHealthy owner (some at_) = true →
    r.uid ≠ owner → TableKept table e (Engine.ingest reg lens e r at_).1

/-- Tables that share a seat are covered by the same nodes in the same order. -/
def CoveredAlike (reg : Registry) : Prop :=
  ∀ a ∈ reg.tables, ∀ b ∈ reg.tables, Shares a b → a.coveredBy = b.coveredBy

theorem isHealthy_ingest (h : Ingested reg e r at_ e') (hNe : uid ≠ r.uid) (now : Option ℚ) :
    e'.isHealthy uid now = e.isHealthy uid now := by
  rw [isHealthy_eq, isHealthy_eq, h.pulse, if_neg hNe, h.opts]

theorem mem_of_authority {now : Option ℚ} (h : e.authorityFor table now = some uid) :
    uid ∈ table.coveredBy :=
  mem_of_find?_eq_some h

theorem Registry.Sound.placed (hSound : reg.Sound) (hTable : table ∈ reg.tables)
    (hUid : uid ∈ table.coveredBy) : ∃ place,
      (reg.nodes.get uid).bind NodeDef.placement = some place ∧ place.floorId = table.floorId := by
  obtain ⟨n, p, hNode, hPlacement, hFloor⟩ := (hSound.covered table hTable).placed uid hUid
  exact ⟨p, by rw [hNode, Option.bind_some, hPlacement], hFloor⟩

theorem authorityMoves_of_alike (hSound : reg.Sound) (hAlike : CoveredAlike reg) (e : Engine)
    (r : Report) (at_ : ℚ) : AuthorityMoves reg lens e r at_ := by
  intro table hTable
  have hIngested := ingested reg lens e r at_
  rw [or_iff_not_imp_left]
  intro hMoved
  -- Some table moves that is this one or shares a seat with it.
  have hOther : ∃ other ∈ reg.tables, (other.id = table.id ∨ Shares table other) ∧
      r.healthy = true ∧
      (Engine.ingest reg lens e r at_).1.authorityFor other (some at_) = some r.uid := by
    by_contra hNone
    refine hMoved (hIngested.kept fun place hPlace other hOther hMoves => ?_)
    obtain ⟨-, hAuthority, hHealthy⟩ := moves_iff.mp hMoves
    by_contra hMeets
    refine hNone ⟨other, hOther, ?_, hHealthy, hAuthority⟩
    by_cases hId : other.id = table.id
    · exact Or.inl hId
    · exact Or.inr (by simpa [hId] using hMeets)
  obtain ⟨other, hOther, hMeets, hHealthy, hAuthority⟩ := hOther
  have hSame : other.coveredBy = table.coveredBy := by
    rcases hMeets with hId | hShares
    · rw [inj_on_of_nodup_map hSound.site.tableIds hOther hTable hId]
    · exact (hAlike table hTable other hOther hShares).symm
  rw [Engine.authorityFor, hSame] at hAuthority
  obtain ⟨place, hPlace, hFloor⟩ := hSound.placed hTable (mem_of_authority hAuthority)
  exact ⟨by simp [hPlace, hFloor], hHealthy, hAuthority⟩

theorem ownerHolds_of_authorityMoves (hSound : reg.Sound) (h : AuthorityMoves reg lens e r at_) :
    OwnerHolds reg lens e r at_ := by
  intro table hTable owner hOwner hHealthy hNe
  rcases h table hTable with hKept | ⟨-, -, hAuthority⟩
  · exact hKept
  · have hFirst := (hSound.covered table hTable).owner owner hOwner
    obtain ⟨rest, hCovered⟩ : ∃ rest, table.coveredBy = owner :: rest := by
      rcases hList : table.coveredBy with - | ⟨o, rest⟩
      · simp [hList] at hFirst
      · rw [hList, head?_cons, Option.some.injEq] at hFirst
        exact ⟨rest, by rw [hFirst]⟩
    rw [Engine.authorityFor, hCovered, find?_cons,
      isHealthy_ingest (ingested reg lens e r at_) (Ne.symm hNe), hHealthy] at hAuthority
    exact absurd (Option.some.inj hAuthority).symm hNe

end ingest

/-! ## Seats move -/

section moves

variable {reg : Registry} {lens : Lens} {e e' : Engine} {r : Report} {at_ : ℚ}
  {floorId uid : Text} {healthy : Bool} {dets : List ConsoleDetection} {table : TableDef}

/-- Tracks stay, and their frames are counted up. -/
structure Grows (e e' : Engine) : Prop where
  seats : ∀ id track, e.seats.get id = some track →
    ∃ track', e'.seats.get id = some track' ∧ track.framesSeen ≤ track'.framesSeen
  tables : ∀ id, (e.tables.get id).isSome = true → (e'.tables.get id).isSome = true

theorem Grows.refl (e : Engine) : Grows e e :=
  ⟨fun _ track hGet => ⟨track, hGet, le_rfl⟩, fun _ h => h⟩

theorem Grows.trans {e'' : Engine} (h : Grows e e') (h' : Grows e' e'') : Grows e e'' := by
  refine ⟨fun id track hGet => ?_, fun id hSome => h'.tables id (h.tables id hSome)⟩
  obtain ⟨track', hGet', hLe⟩ := h.seats id track hGet
  obtain ⟨track'', hGet'', hLe'⟩ := h'.seats id track' hGet'
  exact ⟨track'', hGet'', hLe.trans hLe'⟩

theorem framesSeen_update (opts : OccupancyOptions) (seen : Bool) (at_ : ℚ) (track : SeatTrack) :
    (track.update opts seen at_).framesSeen = track.framesSeen + 1 := by
  unfold SeatTrack.update
  dsimp only
  split
  · split
    · rfl
    · rfl
  · rfl

theorem isSome_get_set {κ ν : Type*} [DecidableEq κ] {m : JsMap κ ν} {k k' : κ} {v : ν}
    (h : (m.get k').isSome = true) : ((m.set k v).get k').isSome = true := by
  rw [JsMap.get_set]
  split
  · rfl
  · exact h

theorem updateSeats_grows (e : Engine) (table : TableDef) (observed : List Text) (at_ : ℚ) :
    Grows e (e.updateSeats table observed at_) := by
  refine ⟨fun id track hGet => ?_, fun _ h => h⟩
  by_cases hMem : id ∈ table.seats.map SeatSpec.id
  · refine ⟨_, by rw [e.get_updateSeats table observed at_ hMem, hGet, Option.map_some], ?_⟩
    rw [framesSeen_update]
    exact Nat.le_succ _
  · exact ⟨track, by rw [e.get_updateSeats_ne table observed at_ hMem, hGet], le_rfl⟩

theorem ingestTable_grows (e : Engine) (table : TableDef) :
    Grows e (e.ingestTable floorId uid healthy dets at_ table) := by
  unfold Engine.ingestTable
  split
  · exact .refl e
  · split
    · exact .refl e
    · dsimp only
      have hTable : ∀ track, Grows e (e.setTable table.id track) := fun track =>
        ⟨(Grows.refl e).seats, fun _ h => isSome_get_set h⟩
      split
      · exact hTable _
      · exact (hTable _).trans (updateSeats_grows _ _ _ _)

theorem foldl_ingestTable_grows (ts : List TableDef) (e : Engine) :
    Grows e (ts.foldl (fun e t => e.ingestTable floorId uid healthy dets at_ t) e) := by
  induction ts generalizing e with
  | nil => exact .refl e
  | cons t ts ih => exact (ingestTable_grows e t).trans (ih _)

/-- A table that moves counts a frame of each of its seats. -/
theorem ingestTable_counts (hMoves : e.Moves floorId uid healthy at_ table = true)
    (hTable : (e.tables.get table.id).isSome = true) {s : SeatSpec} (hs : s ∈ table.seats)
    {track : SeatTrack} (hGet : e.seats.get s.id = some track) :
    ∃ track', (e.ingestTable floorId uid healthy dets at_ table).seats.get s.id = some track' ∧
      track.framesSeen < track'.framesSeen := by
  obtain ⟨hFloor, hAuthority, hHealthy⟩ := moves_iff.mp hMoves
  obtain ⟨tableTrack, hTrack⟩ := Option.isSome_iff_exists.mp hTable
  unfold Engine.ingestTable
  rw [if_neg (not_not.mpr hFloor)]
  simp only [hTrack, hAuthority, hHealthy, ne_eq, not_true_eq_false, Bool.not_true,
    Bool.false_eq_true, or_self, if_false]
  rw [Engine.get_updateSeats _ _ _ _ (mem_map_of_mem hs)]
  refine ⟨_, congrArg _ hGet, ?_⟩
  rw [framesSeen_update]
  exact Nat.lt_succ_self _

theorem foldl_ingestTable_counts {ts : List TableDef} (hMem : table ∈ ts)
    (hMoves : e.Moves floorId uid healthy at_ table = true)
    (hTable : (e.tables.get table.id).isSome = true) {s : SeatSpec} (hs : s ∈ table.seats)
    {track : SeatTrack} (hGet : e.seats.get s.id = some track) :
    ∃ track', (ts.foldl (fun e t => e.ingestTable floorId uid healthy dets at_ t) e).seats.get
      s.id = some track' ∧ track.framesSeen < track'.framesSeen := by
  induction ts generalizing e track with
  | nil => cases hMem
  | cons t ts ih =>
    rcases mem_cons.mp hMem with rfl | hMem
    · obtain ⟨track', hGet', hLt⟩ :=
        @ingestTable_counts e at_ floorId uid healthy dets table hMoves hTable s hs track hGet
      obtain ⟨track'', hGet'', hLe⟩ :=
        (foldl_ingestTable_grows ts _).seats s.id track' hGet'
      exact ⟨track'', hGet'', hLt.trans_le hLe⟩
    · have hGrows := @ingestTable_grows at_ floorId uid healthy dets e t
      obtain ⟨hNodes, hOpts⟩ := @ingestTable_nodes at_ floorId uid healthy dets e t
      obtain ⟨track', hGet', hLe⟩ := hGrows.seats s.id track hGet
      obtain ⟨track'', hGet'', hLt⟩ := ih hMem
        ((moves_congr (pulse_congr hNodes) hOpts).trans hMoves) (hGrows.tables _ hTable) hGet'
      exact ⟨track'', hGet'', hLe.trans_lt hLt⟩

theorem Ingested.grows (h : Ingested reg e r at_ e') : Grows e e' := by
  cases h with
  | unplaced st hPlace hPulse => exact ⟨(Grows.refl e).seats, (Grows.refl e).tables⟩
  | placed place st st' dets hPlace hPulse hPulse' =>
    have hGrows := @foldl_ingestTable_grows at_ place.floorId r.uid r.healthy dets reg.tables
      (e.setNode r.uid st)
    exact ⟨hGrows.seats, hGrows.tables⟩

/-- The seats of a table whose authority reports do not stay as they were. -/
theorem Ingested.counts (h : Ingested reg e r at_ e') {place : Placement}
    (hPlace : (reg.nodes.get r.uid).bind NodeDef.placement = some place)
    (hMem : table ∈ reg.tables) (hMoves : e'.Moves place.floorId r.uid r.healthy at_ table = true)
    (hTable : (e.tables.get table.id).isSome = true) {s : SeatSpec} (hs : s ∈ table.seats)
    (hSeat : (e.seats.get s.id).isSome = true) : e'.seats.get s.id ≠ e.seats.get s.id := by
  obtain ⟨track, hGet⟩ := Option.isSome_iff_exists.mp hSeat
  have hPulse' := h.pulse
  have hOpts' := h.opts
  cases h with
  | unplaced st hNone hPulse =>
    rw [hPlace] at hNone
    cases hNone
  | placed place' st st' dets hPlace' hPulse _ =>
    obtain rfl := Option.some.inj (hPlace.symm.trans hPlace')
    have hSet : _ = (e.setNode r.uid st).opts := hOpts'
    have hMoves' : (e.setNode r.uid st).Moves place.floorId r.uid r.healthy at_ table = true := by
      refine (moves_congr (fun uid => ?_) hSet).symm.trans hMoves
      rw [hPulse', pulse_setNode, hPulse.1, hPulse.2]
    obtain ⟨track', hGet', hLt⟩ := @foldl_ingestTable_counts (e.setNode r.uid st) at_ place.floorId
      r.uid r.healthy dets table reg.tables hMem hMoves' hTable s hs track hGet
    intro hEq
    have hSame := hGet'.symm.trans (hEq.trans hGet)
    rw [Option.some.inj hSame] at hLt
    exact lt_irrefl _ hLt

/-! ## New engines -/

theorem isSome_foldl_set {α κ ν : Type*} [DecidableEq κ] (key : α → κ) (v : ν) (l : List α)
    (m : JsMap κ ν) {k : κ} (h : k ∈ l.map key ∨ (m.get k).isSome = true) :
    ((l.foldl (fun m a => m.set (key a) v) m).get k).isSome = true := by
  induction l generalizing m with
  | nil => simpa using h
  | cons a l ih =>
    refine ih _ ?_
    rw [map_cons, mem_cons, or_assoc] at h
    rcases h with rfl | h | h
    · exact Or.inr (by simp)
    · exact Or.inl h
    · exact Or.inr (isSome_get_set h)

theorem isSome_seat_new (opts : OccupancyOptions) (hTable : table ∈ reg.tables) {s : SeatSpec}
    (hs : s ∈ table.seats) : ((Engine.new reg opts).seats.get s.id).isSome = true :=
  isSome_foldl_set SeatSpec.id ({} : SeatTrack) _ .empty
    (Or.inl (mem_map_of_mem (mem_flatMap.mpr ⟨table, hTable, hs⟩)))

theorem isSome_table_new (opts : OccupancyOptions) (hTable : table ∈ reg.tables) :
    ((Engine.new reg opts).tables.get table.id).isSome = true :=
  isSome_foldl_set TableDef.id ({} : TableTrack) _ .empty (Or.inl (mem_map_of_mem hTable))

end moves

/-! ## Covered alike -/

/-- Without an element, a list is searched for the others. -/
theorem find?_pair_of_not_mem {α : Type*} [DecidableEq α] {l : List α} {x : α} (h : x ∉ l)
    (y : α) : l.find? (fun c => decide (c = x ∨ c = y)) =
      l.find? fun c => decide (c = y ∨ c = y) := by
  induction l with
  | nil => rfl
  | cons c l ih =>
    rw [mem_cons, not_or] at h
    rw [find?_cons, find?_cons, ih h.2]
    simp [Ne.symm h.1]

/-- Lists that agree on which of any two comes first. -/
theorem eq_of_find?_pair {α : Type*} [DecidableEq α] {l m : List α} (hl : l.Nodup) (hm : m.Nodup)
    (h : ∀ x y : α, l.find? (fun c => decide (c = x ∨ c = y)) =
      m.find? fun c => decide (c = x ∨ c = y)) : l = m := by
  induction l generalizing m with
  | nil =>
    cases m with
    | nil => rfl
    | cons b m => simpa using h b b
  | cons a l ih =>
    cases m with
    | nil => simpa using h a a
    | cons b m =>
      obtain rfl : a = b := by simpa using h a b
      rw [nodup_cons] at hl hm
      -- What is not first is searched for in the rest.
      have hRest : ∀ x y : α, a ≠ x → a ≠ y → l.find? (fun c => decide (c = x ∨ c = y)) =
          m.find? fun c => decide (c = x ∨ c = y) := by
        intro x y hx hy
        simpa [hx, hy] using h x y
      have hOne : ∀ y : α, l.find? (fun c => decide (c = y ∨ c = y)) =
          m.find? fun c => decide (c = y ∨ c = y) := by
        intro y
        by_cases hy : a = y
        · subst hy
          rw [find?_eq_none.mpr fun c hc hEq => hl.1 (by simp_all),
            find?_eq_none.mpr fun c hc hEq => hm.1 (by simp_all)]
        · exact hRest y y hy hy
      congr 1
      refine ih hl.2 hm.2 fun x y => ?_
      by_cases hx : a = x
      · subst hx
        rw [find?_pair_of_not_mem hl.1, find?_pair_of_not_mem hm.1, hOne]
      · by_cases hy : a = y
        · subst hy
          simp only [or_comm (b := _ = a)]
          rw [find?_pair_of_not_mem hl.1, find?_pair_of_not_mem hm.1, hOne]
        · exact hRest x y hx hy

/-- A report of a node that has learned its background and sees nobody. -/
def heartbeat (uid : Text) : Report := { uid, flags := reportBackgroundReady, detections := [] }

theorem healthy_heartbeat (uid : Text) : (heartbeat uid).healthy = true := by
  simp [heartbeat, Report.healthy, reportBackgroundReady, reportGlobalShift]

section alike

variable {reg : Registry} {lens : Lens}

/-- Only its authority moves a table, in every state that a run reaches. -/
def OnlyAuthority (reg : Registry) (lens : Lens) : Prop :=
  ∀ (es : List OccupancyEvent) (r : Report) (at_ : ℚ),
    let e := run (Engine.step reg lens) (Engine.new reg defaultOccupancy) es
    AuthorityMoves reg lens e r at_ ∧ OwnerHolds reg lens e r at_

/-- With two nodes healthy and no others, the authority of a table is the first of the two. -/
theorem authority_of_heartbeats (reg : Registry) (u v : Text) (table : TableDef) {e e' : Engine}
    (h : Ingested reg (Engine.new reg defaultOccupancy) (heartbeat v) 0 e)
    (h' : Ingested reg e (heartbeat u) 0 e') : e'.authorityFor table (some 0) =
      table.coveredBy.find? fun c => decide (c = u ∨ c = v) := by
  unfold Engine.authorityFor
  congr 1
  funext c
  have hStale : (0 : ℚ) ≤ e'.opts.staleMs := by
    rw [h'.opts, h.opts]
    exact (by norm_num : (0 : ℚ) ≤ 5000)
  have hNew : (Engine.new reg defaultOccupancy).pulse c = none := rfl
  rw [isHealthy_eq, h'.pulse, h.pulse, hNew, healthy_heartbeat, healthy_heartbeat]
  by_cases hu : c = u
  · simp [hu, heartbeat, hStale]
  · by_cases hv : c = v
    · simp [hv, heartbeat, hStale]
    · simp [hu, hv, heartbeat]

/-- Where two tables share a seat, the node that moves one of them has to be the authority of
both. -/
theorem authority_agrees (hSound : reg.Sound) (hOnly : OnlyAuthority reg lens) {a b : TableDef}
    (ha : a ∈ reg.tables) (hb : b ∈ reg.tables) (hShares : Shares a b) {u v : Text}
    (hFirst : a.coveredBy.find? (fun c => decide (c = u ∨ c = v)) = some u) :
    b.coveredBy.find? (fun c => decide (c = u ∨ c = v)) = some u := by
  obtain ⟨s, hs, hMem⟩ := hShares
  obtain ⟨s', hs', hId⟩ := mem_map.mp hMem
  have hRun := ingested reg lens (Engine.new reg defaultOccupancy) (heartbeat v) 0
  obtain ⟨hMoves, -⟩ := hOnly [.report (heartbeat v) 0] (heartbeat u) 0
  have hLast := ingested reg lens (Engine.ingest reg lens (Engine.new reg defaultOccupancy)
    (heartbeat v) 0).1 (heartbeat u) 0
  obtain ⟨place, hPlace, hFloor⟩ := hSound.placed ha (mem_of_find?_eq_some hFirst)
  have hAuthority := authority_of_heartbeats reg u v a hRun hLast
  -- The node moves the first table, and with it the seat that both have.
  have hCounts := hLast.counts hPlace ha
    (moves_iff.mpr ⟨hFloor.symm, hAuthority.trans hFirst, healthy_heartbeat u⟩)
    (hRun.grows.tables _ (isSome_table_new defaultOccupancy ha)) hs
    (by
      obtain ⟨track, hTrack⟩ := Option.isSome_iff_exists.mp (isSome_seat_new defaultOccupancy ha hs)
      obtain ⟨track', hTrack', -⟩ := hRun.grows.seats _ track hTrack
      rw [hTrack', Option.isSome_some])
  rcases hMoves b hb with hKept | ⟨-, -, hAuthority'⟩
  · exact absurd (hId ▸ hKept.seats s' hs') hCounts
  · exact (authority_of_heartbeats reg u v b hRun hLast).symm.trans hAuthority'

theorem coveredAlike_of_onlyAuthority (hSound : reg.Sound) (hOnly : OnlyAuthority reg lens) :
    CoveredAlike reg := by
  intro a ha b hb hShares
  refine eq_of_find?_pair (hSound.covered a ha).nodup (hSound.covered b hb).nodup fun x y => ?_
  -- Whichever of the two comes first in one of the lists does in the other.
  have hAgree : ∀ {a b : TableDef}, a ∈ reg.tables → b ∈ reg.tables → Shares a b → ∀ u,
      a.coveredBy.find? (fun c => decide (c = x ∨ c = y)) = some u →
        b.coveredBy.find? (fun c => decide (c = x ∨ c = y)) = some u := by
    intro a b ha hb hShares u hFirst
    have hPair : u = x ∨ u = y := by simpa using find?_some hFirst
    rcases hPair with rfl | rfl
    · exact authority_agrees hSound hOnly ha hb hShares hFirst
    · simp only [or_comm (a := _ = x)] at hFirst ⊢
      exact authority_agrees hSound hOnly ha hb hShares hFirst
  exact Option.ext fun u => ⟨hAgree ha hb hShares u, hAgree hb ha hShares.symm u⟩

/-- Only its authority moves a table exactly when tables that share a seat are covered by the same
nodes in the same order. -/
theorem only_authority_iff {fmt : Format} {u : Unicode} {siteJson nodesJson : Json}
    (h : buildRegistry fmt u lens siteJson nodesJson = .ok reg) :
    OnlyAuthority reg lens ↔ CoveredAlike reg := by
  have hSound := buildRegistry_sound h
  constructor
  · exact coveredAlike_of_onlyAuthority hSound
  · intro hAlike es r at_
    have hMoves := @authorityMoves_of_alike reg lens hSound hAlike
      (run (Engine.step reg lens) (Engine.new reg defaultOccupancy) es) r at_
    exact ⟨hMoves, ownerHolds_of_authorityMoves hSound hMoves⟩

end alike

theorem only_authority_shared : OnlyAuthority shared plumb ↔ CoveredAlike shared :=
  only_authority_iff buildRegistry_shared

/-- The node of the second floor moves the desk of the first one. -/
theorem other_node_moves : ¬ ∀ fmt u lens siteJson nodesJson reg,
    buildRegistry fmt u lens siteJson nodesJson = .ok reg → OnlyAuthority reg lens := by
  intro hAll
  have hOnly := hAll terse ascii plumb sharedSite sharedNodes shared buildRegistry_shared
  obtain ⟨a, ha, b, hb, hShares, -, hCovered⟩ := shared_seat
  exact hCovered (coveredAlike_of_onlyAuthority (buildRegistry_sound buildRegistry_shared) hOnly
    a ha b hb hShares)

end TMEdge.Occupancy
