import TMEdge.Occupancy.Authority

/-!
# Snapshots

A snapshot goes through the tables in their order and forgets those that nobody has seen for longer
than a seat is held (`forgetAll`). What it shows of a floor adds up (`floorConsistent`). Asked again
at the same time it shows the same, unless a table it forgets had a seat in common with a known one
before it.

* `snapshot_consistent_iff`: in the states that a run reaches.
-/

namespace TMEdge.Occupancy

open Library List

/-! ## Forgetting -/

section forget

variable {e e' : Engine} {table : TableDef} {now : ℚ} {ts : List TableDef}

/-- A track that has been unknown for longer than a seat is held. -/
def Engine.lapsed (e : Engine) (now : ℚ) (table : TableDef) (track : TableTrack) : Bool :=
  e.authorityFor table (some now) = none &&
    e.opts.releaseMs < now - track.unknownSince.getD now

def Engine.forgets (e : Engine) (now : ℚ) (table : TableDef) : Bool :=
  (e.tables.get table.id).any (e.lapsed now table)

theorem blind_of_forgets (h : e.forgets now table = true) :
    e.authorityFor table (some now) = none := by
  obtain ⟨track, -, hLapsed⟩ := (Option.any_eq_true _ _).mp h
  rw [Engine.lapsed, Bool.and_eq_true] at hLapsed
  exact of_decide_eq_true hLapsed.1

/-- The track of a table after a snapshot. -/
def Engine.settled (e : Engine) (now : ℚ) (table : TableDef) (track : TableTrack) : TableTrack where
  authority := track.authority
  unknownSince :=
    if e.authorityFor table (some now) = none then some (track.unknownSince.getD now) else none
  peopleHistory := if e.lapsed now table track then [] else track.peopleHistory

theorem forget_nodes (e : Engine) (table : TableDef) (now : ℚ) :
    (e.forget table now).nodes = e.nodes ∧ (e.forget table now).opts = e.opts := by
  unfold Engine.forget
  split
  · exact ⟨rfl, rfl⟩
  · split
    · dsimp only
      split
      · exact ⟨rfl, rfl⟩
      · exact ⟨rfl, rfl⟩
    · exact ⟨rfl, rfl⟩

theorem get_forget_seats (e : Engine) (table : TableDef) (now : ℚ) (id : Text) :
    (e.forget table now).seats.get id =
      if e.forgets now table = true ∧ id ∈ table.seats.map SeatSpec.id then some {}
      else e.seats.get id := by
  unfold Engine.forget Engine.forgets
  rcases e.tables.get table.id with - | track
  · simp
  · by_cases hNone : e.authorityFor table (some now) = none
    · by_cases hLong : e.opts.releaseMs < now - track.unknownSince.getD now
      · simp only [hNone, hLong, if_true, Engine.setTable, Engine.get_resetSeats, Option.any_some,
          Engine.lapsed, decide_true, Bool.and_self, true_and]
      · simp [hNone, hLong, Engine.setTable, Engine.lapsed]
    · simp [hNone, Engine.setTable, Engine.lapsed]

theorem get_forget_tables (e : Engine) (table : TableDef) (now : ℚ) (id : Text) :
    (e.forget table now).tables.get id =
      if id = table.id then (e.tables.get id).map (e.settled now table) else e.tables.get id := by
  unfold Engine.forget
  by_cases hId : id = table.id
  · subst hId
    rcases hTrack : e.tables.get table.id with - | track
    · simp [hTrack]
    · by_cases hNone : e.authorityFor table (some now) = none
      · by_cases hLong : e.opts.releaseMs < now - track.unknownSince.getD now
        · simp [hNone, hLong, Engine.setTable, Engine.settled, Engine.lapsed]
        · simp [hNone, hLong, Engine.setTable, Engine.settled, Engine.lapsed]
      · simp [hNone, Engine.setTable, Engine.settled, Engine.lapsed]
  · rw [if_neg hId]
    rcases e.tables.get table.id with - | track
    · rfl
    · by_cases hNone : e.authorityFor table (some now) = none
      · by_cases hLong : e.opts.releaseMs < now - track.unknownSince.getD now
        · simp [hNone, hLong, Engine.setTable, Engine.resetSeats, hId]
        · simp [hNone, hLong, Engine.setTable, hId]
      · simp [hNone, Engine.setTable, hId]

theorem isHealthy_nodes (hNodes : e'.nodes = e.nodes) (hOpts : e'.opts = e.opts) (uid : Text)
    (now : Option ℚ) : e'.isHealthy uid now = e.isHealthy uid now := by
  rw [Engine.isHealthy, hNodes, hOpts, Engine.isHealthy]

theorem authorityFor_nodes (hNodes : e'.nodes = e.nodes) (hOpts : e'.opts = e.opts)
    (table : TableDef) (now : Option ℚ) : e'.authorityFor table now = e.authorityFor table now := by
  unfold Engine.authorityFor
  congr 1
  exact funext fun uid => isHealthy_nodes hNodes hOpts uid now

theorem lapsed_nodes (hNodes : e'.nodes = e.nodes) (hOpts : e'.opts = e.opts) (now : ℚ)
    (table : TableDef) : e'.lapsed now table = e.lapsed now table := by
  funext track
  rw [Engine.lapsed, authorityFor_nodes hNodes hOpts, hOpts, Engine.lapsed]

theorem settled_nodes (hNodes : e'.nodes = e.nodes) (hOpts : e'.opts = e.opts) (now : ℚ)
    (table : TableDef) : e'.settled now table = e.settled now table := by
  funext track
  rw [Engine.settled, authorityFor_nodes hNodes hOpts, lapsed_nodes hNodes hOpts, Engine.settled]

/-- A track is settled once. -/
theorem lapsed_settled (track : TableTrack) :
    e.lapsed now table (e.settled now table track) = e.lapsed now table track := by
  by_cases hNone : e.authorityFor table (some now) = none
  · simp [Engine.lapsed, Engine.settled, hNone]
  · simp [Engine.lapsed, hNone]

theorem people_settled (track : TableTrack) :
    (e.settled now table (e.settled now table track)).peopleHistory =
      (e.settled now table track).peopleHistory := by
  rw [Engine.settled, lapsed_settled]
  by_cases hLapsed : e.lapsed now table track = true
  · simp [Engine.settled, hLapsed]
  · simp [Engine.settled, hLapsed]

/-! ## All tables of a site -/

/-- What a snapshot does to the tables it has come to. -/
def Engine.forgetAll (e : Engine) (now : ℚ) (ts : List TableDef) : Engine :=
  ts.foldl (fun e t => e.forget t now) e

@[simp] theorem forgetAll_nil (e : Engine) (now : ℚ) : e.forgetAll now [] = e := rfl

@[simp] theorem forgetAll_cons (e : Engine) (now : ℚ) (t : TableDef) (ts : List TableDef) :
    e.forgetAll now (t :: ts) = (e.forget t now).forgetAll now ts := rfl

theorem forgetAll_append (e : Engine) (now : ℚ) (ts ts' : List TableDef) :
    e.forgetAll now (ts ++ ts') = (e.forgetAll now ts).forgetAll now ts' := by
  simp [Engine.forgetAll]

theorem forgetAll_nodes (e : Engine) (now : ℚ) (ts : List TableDef) :
    (e.forgetAll now ts).nodes = e.nodes ∧ (e.forgetAll now ts).opts = e.opts := by
  induction ts generalizing e with
  | nil => exact ⟨rfl, rfl⟩
  | cons t ts ih =>
    obtain ⟨hNodes, hOpts⟩ := ih (e.forget t now)
    obtain ⟨hNodes', hOpts'⟩ := forget_nodes e t now
    exact ⟨hNodes.trans hNodes', hOpts.trans hOpts'⟩

theorem authorityFor_forgetAll (e : Engine) (now : ℚ) (ts : List TableDef) (table : TableDef)
    (time : Option ℚ) : (e.forgetAll now ts).authorityFor table time = e.authorityFor table time :=
  authorityFor_nodes (forgetAll_nodes e now ts).1 (forgetAll_nodes e now ts).2 table time

theorem get_forgetAll_tables (hIds : (ts.map TableDef.id).Nodup) (e : Engine) (now : ℚ)
    (ht : table ∈ ts) : (e.forgetAll now ts).tables.get table.id =
      (e.tables.get table.id).map (e.settled now table) := by
  induction ts generalizing e with
  | nil => cases ht
  | cons t ts ih =>
    rw [map_cons, nodup_cons] at hIds
    have hOthers : ∀ (ts : List TableDef) (e : Engine), table.id ∉ ts.map TableDef.id →
        (e.forgetAll now ts).tables.get table.id = e.tables.get table.id := by
      intro ts
      induction ts with
      | nil => exact fun _ _ => rfl
      | cons t ts ih =>
        intro e hNot
        rw [map_cons, mem_cons, not_or] at hNot
        rw [forgetAll_cons, ih _ hNot.2, get_forget_tables, if_neg hNot.1]
    obtain ⟨hNodes, hOpts⟩ := forget_nodes e t now
    rcases mem_cons.mp ht with rfl | ht
    · rw [forgetAll_cons, hOthers ts _ hIds.1, get_forget_tables, if_pos rfl]
    · have hNe : table.id ≠ t.id := fun hEq => hIds.1 (hEq ▸ mem_map_of_mem ht)
      rw [forgetAll_cons, ih hIds.2 _ ht, get_forget_tables, if_neg hNe,
        settled_nodes hNodes hOpts]

/-- A table that is forgotten with a seat of this id. -/
def Engine.Drops (e : Engine) (now : ℚ) (ts : List TableDef) (id : Text) : Prop :=
  ∃ t ∈ ts, e.forgets now t = true ∧ id ∈ t.seats.map SeatSpec.id

theorem forgets_forget {t : TableDef} (hNe : t.id ≠ table.id) :
    (e.forget table now).forgets now t = e.forgets now t := by
  obtain ⟨hNodes, hOpts⟩ := forget_nodes e table now
  rw [Engine.forgets, get_forget_tables, if_neg hNe, lapsed_nodes hNodes hOpts, Engine.forgets]

instance (e : Engine) (now : ℚ) (ts : List TableDef) (id : Text) : Decidable (e.Drops now ts id) :=
  inferInstanceAs (Decidable (∃ t ∈ ts, e.forgets now t = true ∧ id ∈ t.seats.map SeatSpec.id))

theorem get_forgetAll_seats (hIds : (ts.map TableDef.id).Nodup) (e : Engine) (now : ℚ) (id : Text) :
    (e.forgetAll now ts).seats.get id =
      if e.Drops now ts id then some {} else e.seats.get id := by
  induction ts generalizing e with
  | nil => simp [Engine.Drops]
  | cons t ts ih =>
    rw [map_cons, nodup_cons] at hIds
    have hLater : (e.forget t now).Drops now ts id ↔ e.Drops now ts id := by
      refine exists_congr fun t' => and_congr_right fun ht' => ?_
      rw [forgets_forget fun hEq => hIds.1 (hEq ▸ mem_map_of_mem ht')]
    have hCons : e.Drops now (t :: ts) id ↔
        (e.forgets now t = true ∧ id ∈ t.seats.map SeatSpec.id) ∨ e.Drops now ts id := by
      simp [Engine.Drops]
    rw [forgetAll_cons, ih hIds.2, get_forget_seats]
    simp only [hLater, hCons]
    by_cases hNow : e.forgets now t = true ∧ id ∈ t.seats.map SeatSpec.id
    · rw [if_pos hNow, if_pos (Or.inl hNow), ite_self]
    · rw [if_neg hNow]
      simp only [hNow, false_or]

/-- Forgetting twice forgets the same tables. -/
theorem forgets_forgetAll (hIds : (ts.map TableDef.id).Nodup) (ht : table ∈ ts) :
    (e.forgetAll now ts).forgets now table = e.forgets now table := by
  obtain ⟨hNodes, hOpts⟩ := forgetAll_nodes e now ts
  rw [Engine.forgets, get_forgetAll_tables hIds e now ht, lapsed_nodes hNodes hOpts,
    Engine.forgets]
  rcases e.tables.get table.id with - | track
  · rfl
  · rw [Option.map_some, Option.any_some, Option.any_some, lapsed_settled]

end forget

/-! ## One table -/

section state

variable {e e' : Engine} {table : TableDef} {status : CoverageStatus} {now : ℚ}

theorem warm_congr (hOpts : e.opts = e'.opts)
    (hSeats : ∀ s ∈ table.seats, e.seats.get s.id = e'.seats.get s.id) :
    e.warm table = e'.warm table := by
  rw [Engine.warm, Engine.warm, hOpts, Bool.eq_iff_iff, all_eq_true, all_eq_true]
  exact forall₂_congr fun s hs => by rw [hSeats s hs]

theorem stateOf_congr (hOpts : e.opts = e'.opts)
    (hSeats : ∀ s ∈ table.seats, e.seats.get s.id = e'.seats.get s.id) :
    e.stateOf table status = e'.stateOf table status := by
  have hStates : ∀ known, table.seats.map (e.seatState known) =
      table.seats.map (e'.seatState known) := fun known =>
    map_congr_left fun s hs => by rw [Engine.seatState, hSeats s hs, Engine.seatState]
  simp only [Engine.stateOf, warm_congr hOpts hSeats, hStates]

/-- A table that is not known is shown the same, whatever its tracks are. -/
theorem stateOf_unknown (h : status = .unknown ∨ e.warm table = false)
    (h' : status = .unknown ∨ e'.warm table = false) :
    e.stateOf table status = e'.stateOf table status := by
  have hUnknown : (decide (status ≠ .unknown) && e.warm table) = false := by
    rcases h with h | h
    · simp [h]
    · simp [h]
  have hUnknown' : (decide (status ≠ .unknown) && e'.warm table) = false := by
    rcases h' with h' | h'
    · simp [h']
    · simp [h']
  simp only [Engine.stateOf, hUnknown, hUnknown']
  rfl

end state

/-! ## The tables in their order -/

section order

variable {e e' : Engine} {now : ℚ} {ts pre post : List TableDef} {a : TableDef} {fs : List FloorDef}
  {id : Text}

theorem tableStates_fst (e : Engine) (ts : List TableDef) (now : ℚ) :
    (e.tableStates ts now).1 = e.forgetAll now ts := by
  induction ts generalizing e with
  | nil => rfl
  | cons t ts ih => exact ih (e.forget t now)

theorem tableStates_append (e : Engine) (ts ts' : List TableDef) (now : ℚ) :
    (e.tableStates (ts ++ ts') now).2 =
      (e.tableStates ts now).2 ++ ((e.forgetAll now ts).tableStates ts' now).2 := by
  induction ts generalizing e with
  | nil => rfl
  | cons t ts ih => exact congrArg ((e.tableState t now).2 :: ·) (ih (e.forget t now))

theorem floorStates_fst (e : Engine) (fs : List FloorDef) (now : ℚ) :
    (e.floorStates fs now).1 = e.forgetAll now (fs.flatMap FloorDef.tables) := by
  induction fs generalizing e with
  | nil => rfl
  | cons f fs ih =>
    rw [flatMap_cons, forgetAll_append, ← tableStates_fst e f.tables]
    exact ih (e.tableStates f.tables now).1

theorem tables_floorStates (e : Engine) (fs : List FloorDef) (now : ℚ) :
    (e.floorStates fs now).2.flatMap FloorState.tables =
      (e.tableStates (fs.flatMap FloorDef.tables) now).2 := by
  induction fs generalizing e with
  | nil => rfl
  | cons f fs ih =>
    rw [flatMap_cons, tableStates_append, ← tableStates_fst, ← ih]
    rfl

/-- What a snapshot shows of a table when it has come to it. -/
def Engine.shown (e : Engine) (now : ℚ) (pre : List TableDef) (a : TableDef) : TableState :=
  ((e.forgetAll now pre).tableState a now).2

theorem tableStates_eq_iff : (e.tableStates ts now).2 = (e'.tableStates ts now).2 ↔
    ∀ pre a post, ts = pre ++ a :: post → e.shown now pre a = e'.shown now pre a := by
  induction ts generalizing e e' with
  | nil => simp [Engine.tableStates]
  | cons t ts ih =>
    have hCons : ∀ e : Engine, (e.tableStates (t :: ts) now).2 =
        e.shown now [] t :: ((e.forget t now).tableStates ts now).2 := fun _ => rfl
    rw [hCons, hCons, List.cons.injEq, ih]
    constructor
    · rintro ⟨hHead, hRest⟩ pre a post hSplit
      rcases cons_eq_append_iff.mp hSplit with ⟨rfl, hEq⟩ | ⟨pre, rfl, hEq⟩
      · cases hEq
        exact hHead
      · exact hRest pre a post hEq
    · intro hAll
      exact ⟨hAll [] t ts rfl, fun pre a post hSplit =>
        hAll (t :: pre) a post (by rw [hSplit]; rfl)⟩

theorem floorStates_eq (h : ∀ pre f post, fs = pre ++ f :: post →
    ((e.forgetAll now (pre.flatMap FloorDef.tables)).floorState f now).2 =
      ((e'.forgetAll now (pre.flatMap FloorDef.tables)).floorState f now).2) :
    (e.floorStates fs now).2 = (e'.floorStates fs now).2 := by
  induction fs generalizing e e' with
  | nil => rfl
  | cons f fs ih =>
    have hCons : ∀ e : Engine, (e.floorStates (f :: fs) now).2 =
        (e.floorState f now).2 :: ((e.forgetAll now f.tables).floorStates fs now).2 := by
      intro e
      rw [← tableStates_fst]
      rfl
    rw [hCons, hCons, ih fun pre f' post hSplit => ?_]
    · exact congrArg (· :: _) (h [] f fs rfl)
    · have hNext := h (f :: pre) f' post (by rw [hSplit]; rfl)
      rw [flatMap_cons, forgetAll_append, forgetAll_append] at hNext
      exact hNext

/-! ## Shown again -/

/-- A table is known at a snapshot that has come to it: it has an authority, every seat has been
seen for a window, and no table forgotten before it had one of its seats. -/
def Engine.Known (e : Engine) (now : ℚ) (pre : List TableDef) (a : TableDef) : Prop :=
  e.authorityFor a (some now) ≠ none ∧ e.warm a = true ∧
    ∀ c ∈ pre, e.forgets now c = true → ¬ Shares a c

theorem statusFor_unknown {authority : Option Text} :
    Engine.statusFor a authority = .unknown ↔ authority = none := by
  unfold Engine.statusFor
  split
  next h => simp [h]
  next h =>
    split
    · simp [h]
    · simp [h]

theorem status_of_cold {status : CoverageStatus} (h : e.warm a = false) :
    (e.stateOf a status).status = .unknown := by
  simp [Engine.stateOf, h]

theorem status_of_warm {status : CoverageStatus} (h : e.warm a = true) :
    (e.stateOf a status).status = status := by
  by_cases hStatus : status = .unknown
  · simp [Engine.stateOf, hStatus]
  · simp [Engine.stateOf, hStatus, h]

theorem cold_of_reset (hWindow : 0 < e.opts.enterWindow) {s : SeatSpec} (hs : s ∈ a.seats)
    (hReset : e.seats.get s.id = some {}) : e.warm a = false := by
  rw [Engine.warm, all_eq_false]
  refine ⟨s, hs, ?_⟩
  rw [hReset, Option.map_some, Option.getD_some, decide_eq_true_eq, not_le]
  exact_mod_cast hWindow

theorem shown_eq (e : Engine) (now : ℚ) (pre : List TableDef) (a : TableDef) :
    e.shown now pre a = (e.forgetAll now (pre ++ [a])).stateOf a
      (Engine.statusFor a (e.authorityFor a (some now))) := by
  rw [forgetAll_append, ← authorityFor_forgetAll e now pre]
  rfl

theorem drops_append : e.Drops now (pre ++ post) id ↔ e.Drops now pre id ∨ e.Drops now post id := by
  simp only [Engine.Drops, mem_append, or_and_right, exists_or]

theorem not_drops_of_authority (hAuthority : e.authorityFor a (some now) ≠ none) :
    ¬ e.Drops now [a] id := by
  rintro ⟨t, ht, hForgets, -⟩
  obtain rfl := mem_singleton.mp ht
  exact hAuthority (blind_of_forgets hForgets)

theorem drops_split (hAuthority : e.authorityFor a (some now) ≠ none) :
    e.Drops now (pre ++ a :: post) id ↔ e.Drops now pre id ∨ e.Drops now post id := by
  rw [← singleton_append, drops_append, drops_append]
  simp only [not_drops_of_authority hAuthority, false_or]

/-- The seats of a table with an authority, at the first snapshot and at the second. -/
theorem get_first (hIds : ((pre ++ a :: post).map TableDef.id).Nodup)
    (hAuthority : e.authorityFor a (some now) ≠ none) (id : Text) :
    (e.forgetAll now (pre ++ [a])).seats.get id =
      if e.Drops now pre id then some {} else e.seats.get id := by
  have hSub : ((pre ++ [a]).map TableDef.id).Nodup := by
    refine hIds.sublist (List.Sublist.map _ ?_)
    exact (List.Sublist.refl pre).append (singleton_sublist.mpr (by simp))
  rw [get_forgetAll_seats hSub]
  simp only [drops_append, not_drops_of_authority hAuthority, or_false]

theorem get_second (hIds : ((pre ++ a :: post).map TableDef.id).Nodup) (id : Text) :
    ((e.forgetAll now (pre ++ a :: post)).forgetAll now (pre ++ [a])).seats.get id =
      if e.Drops now (pre ++ a :: post) id then some {} else e.seats.get id := by
  have hSub : (pre ++ [a]).Sublist (pre ++ a :: post) :=
    (List.Sublist.refl pre).append (singleton_sublist.mpr (by simp))
  rw [get_forgetAll_seats (hIds.sublist (hSub.map _)), get_forgetAll_seats hIds]
  split
  next hDrops =>
    obtain ⟨t, ht, hForgets, hMem⟩ := hDrops
    have ht := hSub.subset ht
    rw [forgets_forgetAll hIds ht] at hForgets
    rw [if_pos ⟨t, ht, hForgets, hMem⟩]
  next => rfl

/-- A table is shown again as it was unless it was known and a later one, forgotten by then, has
taken a seat of it along. -/
theorem shown_again_iff (hIds : ((pre ++ a :: post).map TableDef.id).Nodup)
    (hWindow : 0 < e.opts.enterWindow) :
    (e.forgetAll now (pre ++ a :: post)).shown now pre a = e.shown now pre a ↔
      (e.Known now pre a → ∀ b ∈ post, e.forgets now b = true → ¬ Shares a b) := by
  rw [shown_eq, shown_eq, authorityFor_forgetAll]
  have hOpts : ((e.forgetAll now (pre ++ a :: post)).forgetAll now (pre ++ [a])).opts = e.opts :=
    (forgetAll_nodes _ now _).2.trans (forgetAll_nodes e now _).2
  have hOpts' : (e.forgetAll now (pre ++ [a])).opts = e.opts := (forgetAll_nodes e now _).2
  by_cases hAuthority : e.authorityFor a (some now) = none
  · have hUnknown := (statusFor_unknown (a := a)).mpr hAuthority
    exact iff_of_true (stateOf_unknown (Or.inl hUnknown) (Or.inl hUnknown))
      fun hKnown => absurd hAuthority hKnown.1
  have hFirst := get_first (e := e) hIds hAuthority
  have hSecond := @get_second e now pre post a hIds
  -- Where a table before it took a seat along, it is unknown both times.
  by_cases hBefore : ∃ s ∈ a.seats, e.Drops now pre s.id
  · obtain ⟨s, hs, hDrops⟩ := hBefore
    have hCold := cold_of_reset (e := e.forgetAll now (pre ++ [a])) (hOpts'.symm ▸ hWindow) hs
      ((hFirst s.id).trans (if_pos hDrops))
    have hCold' := cold_of_reset (e := (e.forgetAll now (pre ++ a :: post)).forgetAll now
      (pre ++ [a])) (hOpts.symm ▸ hWindow) hs
      ((hSecond s.id).trans (if_pos ((drops_split hAuthority).mpr (Or.inl hDrops))))
    refine iff_of_true (stateOf_unknown (Or.inr hCold') (Or.inr hCold)) fun hKnown => ?_
    obtain ⟨c, hc, hForgets, hMem⟩ := hDrops
    exact absurd ⟨s, hs, hMem⟩ (hKnown.2.2 c hc hForgets)
  push Not at hBefore
  have hSeats : ∀ s ∈ a.seats, (e.forgetAll now (pre ++ [a])).seats.get s.id =
      e.seats.get s.id := fun s hs => (hFirst s.id).trans (if_neg (hBefore s hs))
  have hSame : (e.forgetAll now (pre ++ [a])).warm a = e.warm a := warm_congr hOpts' hSeats
  by_cases hAfter : ∃ s ∈ a.seats, e.Drops now post s.id
  · obtain ⟨s, hs, hDrops⟩ := hAfter
    have hCold := cold_of_reset (e := (e.forgetAll now (pre ++ a :: post)).forgetAll now
      (pre ++ [a])) (hOpts.symm ▸ hWindow) hs
      ((hSecond s.id).trans (if_pos ((drops_split hAuthority).mpr (Or.inr hDrops))))
    by_cases hWarm : e.warm a = true
    · refine iff_of_false (fun hEq => ?_) fun hAll => ?_
      · have hStatus := congrArg TableState.status hEq
        rw [status_of_cold hCold, status_of_warm (hSame.trans hWarm)] at hStatus
        exact hAuthority (statusFor_unknown.mp hStatus.symm)
      · obtain ⟨b, hb, hForgets, hMem⟩ := hDrops
        refine hAll ⟨hAuthority, hWarm, fun c hc hC hShares => ?_⟩ b hb hForgets ⟨s, hs, hMem⟩
        obtain ⟨s', hs', hMem'⟩ := hShares
        exact hBefore s' hs' ⟨c, hc, hC, hMem'⟩
    · rw [Bool.not_eq_true] at hWarm
      exact iff_of_true (stateOf_unknown (Or.inr hCold) (Or.inr (hSame.trans hWarm)))
        fun hKnown => absurd (hWarm.symm.trans hKnown.2.1) Bool.false_ne_true
  · push Not at hAfter
    refine iff_of_true (stateOf_congr (hOpts.trans hOpts'.symm) fun s hs => ?_) ?_
    · rw [hSecond, hSeats s hs, if_neg]
      exact fun hDrops => ((drops_split hAuthority).mp hDrops).elim (hBefore s hs) (hAfter s hs)
    · rintro - b hb hForgets ⟨s, hs, hMem⟩
      exact hAfter s hs ⟨b, hb, hForgets, hMem⟩

end order

/-! ## A floor -/

section floor

variable {e e' : Engine} {now : ℚ} {ts pre post : List TableDef} {t : TableDef}
  {fs : List FloorDef} {f : FloorDef}

/-- No node that covers the table is healthy and not stale, or a seat has been seen in fewer frames
than a window has. -/
def Engine.Unseen (e : Engine) (now : ℚ) (t : TableDef) : Prop :=
  (∀ uid ∈ t.coveredBy, e.isHealthy uid (some now) = false) ∨
    ∃ s ∈ t.seats, (((e.seats.get s.id).map SeatTrack.framesSeen).getD 0 : ℚ) < e.opts.enterWindow

structure TableConsistent (e : Engine) (now : ℚ) (t : TableDef) (state : TableState) : Prop where
  same : state.id = t.id ∧ state.zoneId = t.zoneId ∧ state.capacity = t.capacity
  known : state.status ≠ .unknown → ∃ n ≤ state.capacity, state.occupied = some n ∧
    state.free = some ((state.capacity : Int) - n) ∧ ∀ s ∈ state.seats, s.occupied ≠ none
  unknown : state.status = .unknown → state.occupied = none ∧ state.free = none ∧
    ∀ s ∈ state.seats, s.occupied = none
  unseen : e.Unseen now t → state.status = .unknown

structure FloorConsistent (e : Engine) (now : ℚ) (f : FloorDef) (state : FloorState) : Prop where
  id : state.id = f.id
  tables : List.Forall₂ (TableConsistent e now) f.tables state.tables
  totals : (state.totals.seats : Int) =
    state.totals.free + state.totals.occupied + state.totals.unknownSeats
  zones : ∀ z ∈ state.zones, ∀ t ∈ state.tables, t.zoneId = z.id → t.status = .unknown →
    z.people = none

theorem tableConsistent_stateOf (e e' : Engine) (now : ℚ) (t : TableDef) (status : CoverageStatus)
    (hUnseen : e.Unseen now t → status = .unknown ∨ e'.warm t = false) :
    TableConsistent e now t (e'.stateOf t status) := by
  rcases hKnown : decide (status ≠ .unknown) && e'.warm t with - | -
  · -- Unknown: nothing is shown.
    have hStatus : (e'.stateOf t status).status = .unknown := by
      simp only [Engine.stateOf, hKnown]
      rfl
    refine ⟨⟨rfl, rfl, rfl⟩, fun h => absurd hStatus h, fun _ => ?_, fun _ => hStatus⟩
    simp only [Engine.stateOf, hKnown]
    refine ⟨rfl, rfl, fun s hs => ?_⟩
    obtain ⟨spec, -, rfl⟩ := mem_map.mp hs
    rfl
  · rw [Bool.and_eq_true, decide_eq_true_eq] at hKnown
    obtain ⟨hStatus, hWarm⟩ := hKnown
    have hShown : (e'.stateOf t status).status = status := status_of_warm hWarm
    refine ⟨⟨rfl, rfl, rfl⟩, fun _ => ?_, fun h => absurd (hShown.symm.trans h) hStatus,
      fun h => ?_⟩
    · refine ⟨(t.seats.map (e'.seatState true)).countP fun s => s.occupied = some true, ?_, ?_, ?_,
        ?_⟩
      · refine countP_le_length.trans (le_of_eq ?_)
        rw [length_map]
        exact t.seating.length_eq
      · simp [Engine.stateOf, hStatus, hWarm]
      · simp [Engine.stateOf, hStatus, hWarm]
      · simp [Engine.stateOf, hStatus, hWarm, Engine.seatState]
    · rcases hUnseen h with h | h
      · exact absurd h hStatus
      · exact absurd (h.symm.trans hWarm) Bool.false_ne_true

/-- What a table adds to the totals. -/
theorem totalsOf_cons (t : TableState) (states : List TableState) :
    (Engine.totalsOf (t :: states)).seats = t.capacity + (Engine.totalsOf states).seats ∧
      (Engine.totalsOf (t :: states)).free =
        (if t.status = .unknown then 0 else t.free.getD 0) + (Engine.totalsOf states).free ∧
      (Engine.totalsOf (t :: states)).occupied =
        (if t.status = .unknown then 0 else t.occupied.getD 0) +
          (Engine.totalsOf states).occupied ∧
      (Engine.totalsOf (t :: states)).unknownSeats =
        (if t.status = .unknown then t.capacity else 0) +
          (Engine.totalsOf states).unknownSeats := by
  by_cases hUnknown : t.status = .unknown
  · simp [Engine.totalsOf, hUnknown]
  · simp [Engine.totalsOf, hUnknown]

theorem totals_sum {states : List TableState}
    (h : ∀ t ∈ states, t.status ≠ .unknown → ∃ n, t.occupied = some n ∧
      t.free = some ((t.capacity : Int) - n)) :
    ((Engine.totalsOf states).seats : Int) = (Engine.totalsOf states).free +
      (Engine.totalsOf states).occupied + (Engine.totalsOf states).unknownSeats := by
  induction states with
  | nil => rfl
  | cons t states ih =>
    have hRest := ih fun t' ht' => h t' (by simp [ht'])
    obtain ⟨hSeats, hFree, hOccupied, hUnknownSeats⟩ := totalsOf_cons t states
    rw [hSeats, hFree, hOccupied, hUnknownSeats]
    by_cases hUnknown : t.status = .unknown
    · simp only [hUnknown, if_true]
      omega
    · obtain ⟨n, hTaken, hLeft⟩ := h t (by simp) hUnknown
      simp only [hUnknown, if_false, hTaken, hLeft, Option.getD_some]
      omega

theorem unseen_forgetAll {status : CoverageStatus} (hIds : (ts.map TableDef.id).Nodup)
    (hStatus : status = Engine.statusFor t (e.authorityFor t (some now)))
    (h : e.Unseen now t) : status = .unknown ∨ (e.forgetAll now ts).warm t = false := by
  rcases h with hBlind | ⟨s, hs, hFrames⟩
  · left
    rw [hStatus, statusFor_unknown, Engine.authorityFor, find?_eq_none]
    intro uid hUid
    simp [hBlind uid hUid]
  · right
    rw [Engine.warm, all_eq_false]
    refine ⟨s, hs, ?_⟩
    rw [decide_eq_true_eq, not_le, (forgetAll_nodes e now ts).2, get_forgetAll_seats hIds]
    refine lt_of_le_of_lt ?_ hFrames
    split
    · simp
    · exact le_rfl

theorem forall₂_tableStates {P : TableDef → TableState → Prop}
    (h : ∀ pre t post, ts = pre ++ t :: post → P t (e.shown now pre t)) :
    List.Forall₂ P ts (e.tableStates ts now).2 := by
  induction ts generalizing e with
  | nil => exact .nil
  | cons t ts ih =>
    refine .cons (h [] t ts rfl) (ih fun pre t' post hSplit => ?_)
    exact h (t :: pre) t' post (by rw [hSplit]; rfl)

theorem forall₂_floorStates {P : FloorDef → FloorState → Prop}
    (h : ∀ pre f post, fs = pre ++ f :: post →
      P f ((e.forgetAll now (pre.flatMap FloorDef.tables)).floorState f now).2) :
    List.Forall₂ P fs (e.floorStates fs now).2 := by
  induction fs generalizing e with
  | nil => exact .nil
  | cons f fs ih =>
    refine .cons (h [] f fs rfl) (ih fun pre f' post hSplit => ?_)
    have hNext := h (f :: pre) f' post (by rw [hSplit]; rfl)
    rw [flatMap_cons, forgetAll_append, ← tableStates_fst e f.tables] at hNext
    exact hNext

theorem shown_forgetAll (e : Engine) (now : ℚ) (ts pre : List TableDef) (t : TableDef) :
    (e.forgetAll now ts).shown now pre t = e.shown now (ts ++ pre) t := by
  rw [Engine.shown, Engine.shown, forgetAll_append]

/-- What a snapshot shows of a floor, once it has come to it, adds up. -/
theorem floorConsistent (hIds : ((pre ++ f.tables).map TableDef.id).Nodup) :
    FloorConsistent e now f ((e.forgetAll now pre).floorState f now).2 := by
  have hTables : List.Forall₂ (TableConsistent e now) f.tables
      ((e.forgetAll now pre).tableStates f.tables now).2 := by
    refine forall₂_tableStates fun before t after hSplit => ?_
    rw [shown_forgetAll, shown_eq]
    refine tableConsistent_stateOf _ _ _ _ _ fun hUnseen => unseen_forgetAll ?_ rfl hUnseen
    refine hIds.sublist (List.Sublist.map _ ?_)
    rw [append_assoc, hSplit]
    exact (List.Sublist.refl pre).append
      ((List.Sublist.refl before).append (singleton_sublist.mpr (by simp)))
  refine ⟨rfl, hTables, totals_sum fun state hState hKnown => ?_, fun z hz state hState hZone
    hUnknown => ?_⟩
  · obtain ⟨t, -, hConsistent⟩ := exists_of_forall₂ hTables hState
    obtain ⟨n, -, hOccupied, hFree, -⟩ := hConsistent.known hKnown
    exact ⟨n, hOccupied, hFree⟩
  · obtain ⟨zone, -, rfl⟩ := mem_map.mp hz
    have hAny : ((((e.forgetAll now pre).tableStates f.tables now).2.filter fun t =>
        t.zoneId = zone.id).any fun t => t.status = .unknown) = true := by
      rw [any_eq_true]
      exact ⟨state, mem_filter.mpr ⟨hState, decide_eq_true hZone⟩, decide_eq_true hUnknown⟩
    simp only [Engine.zoneState, hAny, Bool.not_true, Bool.and_false]
    rfl

end floor

/-! ## A site -/

section site

variable {reg : Registry} {lens : Lens} {e e' : Engine} {now : ℚ}

/-- The floors of a snapshot add up, and a second one at the same time shows the same. -/
def SnapshotConsistent (reg : Registry) (e : Engine) (now : ℚ) : Prop :=
  List.Forall₂ (FloorConsistent e now) reg.floors (Engine.snapshot reg e now).2 ∧
    (Engine.snapshot reg (Engine.snapshot reg e now).1 now).2 = (Engine.snapshot reg e now).2

/-- No table that is forgotten has a seat in common with a known one before it. -/
def Spared (reg : Registry) (e : Engine) (now : ℚ) : Prop :=
  ∀ pre a post, reg.tables = pre ++ a :: post → e.Known now pre a →
    ∀ b ∈ post, e.forgets now b = true → ¬ Shares a b

theorem zoneState_congr {states : List TableState} (hNodes : e'.nodes = e.nodes)
    (hOpts : e'.opts = e.opts)
    (hPeople : ∀ t ∈ states, (e'.tables.get t.id).map TableTrack.peopleHistory =
      (e.tables.get t.id).map TableTrack.peopleHistory) (zone : ZoneDef) :
    e'.zoneState states now zone = e.zoneState states now zone := by
  have hAt : ∀ ts : List TableState, (∀ t ∈ ts, t ∈ states) →
      ts.map (fun t => median (((e'.tables.get t.id).map TableTrack.peopleHistory).getD [])) =
        ts.map fun t => median (((e.tables.get t.id).map TableTrack.peopleHistory).getD []) :=
    fun ts hTs => map_congr_left fun t ht => by rw [hPeople t (hTs t ht)]
  have hAway : e'.zonePeople zone.id now = e.zonePeople zone.id now := by
    funext n
    rw [Engine.zonePeople, isHealthy_nodes hNodes hOpts, Engine.zonePeople]
  rw [Engine.zoneState, Engine.zoneState, hNodes, hAway,
    hAt _ fun t ht => (mem_filter.mp ht).1]

theorem people_forgetAll {ts : List TableDef} (hIds : (ts.map TableDef.id).Nodup) {t : TableDef}
    (ht : t ∈ ts) {all : List TableDef} (hAll : (all.map TableDef.id).Nodup) (hMem : t ∈ all) :
    (((e.forgetAll now all).forgetAll now ts).tables.get t.id).map TableTrack.peopleHistory =
      ((e.forgetAll now ts).tables.get t.id).map TableTrack.peopleHistory := by
  obtain ⟨hNodes, hOpts⟩ := forgetAll_nodes e now all
  rw [get_forgetAll_tables hIds _ now ht, get_forgetAll_tables hIds e now ht,
    get_forgetAll_tables hAll e now hMem, settled_nodes hNodes hOpts]
  rcases e.tables.get t.id with - | track
  · rfl
  · simp only [Option.map_some, people_settled]

theorem id_of_mem_tableStates {ts : List TableDef} {state : TableState}
    (h : state ∈ (e.tableStates ts now).2) : ∃ t ∈ ts, state.id = t.id :=
  exists_of_forall₂ (forall₂_tableStates (P := fun t state => state.id = t.id) fun _ _ _ _ => rfl) h

/-- A floor is made up of its tables and of the people at and away from them. -/
theorem floorState_congr {f : FloorDef} (hNodes : e'.nodes = e.nodes) (hOpts : e'.opts = e.opts)
    (hTables : (e'.tableStates f.tables now).2 = (e.tableStates f.tables now).2)
    (hPeople : ∀ t ∈ f.tables,
      ((e'.forgetAll now f.tables).tables.get t.id).map TableTrack.peopleHistory =
        ((e.forgetAll now f.tables).tables.get t.id).map TableTrack.peopleHistory) :
    (e'.floorState f now).2 = (e.floorState f now).2 := by
  have hZones : ∀ zone, (e'.forgetAll now f.tables).zoneState (e.tableStates f.tables now).2 now
      zone = (e.forgetAll now f.tables).zoneState (e.tableStates f.tables now).2 now zone := by
    intro zone
    refine zoneState_congr ?_ ?_ (fun state hState => ?_) zone
    · rw [(forgetAll_nodes _ now _).1, (forgetAll_nodes _ now _).1, hNodes]
    · rw [(forgetAll_nodes _ now _).2, (forgetAll_nodes _ now _).2, hOpts]
    · obtain ⟨t, ht, hId⟩ := id_of_mem_tableStates hState
      rw [hId]
      exact hPeople t ht
  simp only [Engine.floorState, tableStates_fst, hTables, funext hZones]

theorem floorState_again {fpre fpost : List FloorDef} {f : FloorDef}
    (hIds : (reg.tables.map TableDef.id).Nodup) (hFloors : reg.floors = fpre ++ f :: fpost)
    (hShown : ∀ pre a post, reg.tables = pre ++ a :: post →
      (e.forgetAll now reg.tables).shown now pre a = e.shown now pre a) :
    (((e.forgetAll now reg.tables).forgetAll now (fpre.flatMap FloorDef.tables)).floorState f
      now).2 = ((e.forgetAll now (fpre.flatMap FloorDef.tables)).floorState f now).2 := by
  have hAll : reg.tables =
      fpre.flatMap FloorDef.tables ++ f.tables ++ fpost.flatMap FloorDef.tables := by
    rw [Registry.tables, hFloors, flatMap_append, flatMap_cons, append_assoc]
  have hSub : ((fpre.flatMap FloorDef.tables ++ f.tables).map TableDef.id).Nodup := by
    rw [hAll, map_append] at hIds
    exact (nodup_append.mp hIds).1
  refine floorState_congr ?_ ?_ (tableStates_eq_iff.mpr fun pre a post hSplit => ?_) fun t ht => ?_
  · rw [(forgetAll_nodes _ now _).1, (forgetAll_nodes _ now _).1, (forgetAll_nodes _ now _).1]
  · rw [(forgetAll_nodes _ now _).2, (forgetAll_nodes _ now _).2, (forgetAll_nodes _ now _).2]
  · rw [shown_forgetAll (e.forgetAll now reg.tables) now,
      shown_forgetAll e now (fpre.flatMap FloorDef.tables)]
    refine hShown _ a (post ++ fpost.flatMap FloorDef.tables) ?_
    rw [hAll, hSplit]
    simp
  · rw [← forgetAll_append (e.forgetAll now reg.tables) now,
      ← forgetAll_append e now (fpre.flatMap FloorDef.tables)]
    refine people_forgetAll hSub (mem_append_right _ ht) hIds ?_
    rw [hAll]
    exact mem_append_left _ (mem_append_right _ ht)

theorem snapshot_fst (reg : Registry) (e : Engine) (now : ℚ) :
    (Engine.snapshot reg e now).1 = e.forgetAll now reg.tables := floorStates_fst e reg.floors now

/-- What a snapshot shows adds up on every floor. -/
theorem snapshot_floors (hIds : (reg.tables.map TableDef.id).Nodup) (e : Engine) (now : ℚ) :
    List.Forall₂ (FloorConsistent e now) reg.floors (Engine.snapshot reg e now).2 := by
  refine forall₂_floorStates fun pre f post hSplit => floorConsistent ?_
  rw [Registry.tables, hSplit, flatMap_append, flatMap_cons, ← append_assoc,
    map_append] at hIds
  exact (nodup_append.mp hIds).1

/-- A second snapshot shows the same exactly when no table that the first one forgot had a seat in
common with a known one before it. -/
theorem snapshot_again_iff (hIds : (reg.tables.map TableDef.id).Nodup)
    (hWindow : 0 < e.opts.enterWindow) :
    (Engine.snapshot reg (Engine.snapshot reg e now).1 now).2 = (Engine.snapshot reg e now).2 ↔
      Spared reg e now := by
  rw [snapshot_fst]
  constructor
  · intro hSame pre a post hSplit
    have hTables := congrArg (List.flatMap FloorState.tables) hSame
    rw [Engine.snapshot, Engine.snapshot, tables_floorStates, tables_floorStates] at hTables
    have hShown := tableStates_eq_iff.mp hTables pre a post hSplit
    rw [hSplit] at hShown
    exact (shown_again_iff (hSplit ▸ hIds) hWindow).mp hShown
  · intro hSpared
    refine floorStates_eq fun fpre f fpost hFloors => ?_
    refine floorState_again hIds hFloors fun pre a post hSplit => ?_
    have hShown := (shown_again_iff (hSplit ▸ hIds) hWindow).mpr (hSpared pre a post hSplit)
    rw [← hSplit] at hShown
    exact hShown

theorem sane_step (h : e.opts.Sane) (ev : OccupancyEvent) :
    (Engine.step reg lens e ev).opts.Sane := by
  cases ev with
  | report r at_ =>
    rw [Engine.step, (ingested reg lens e r at_).opts]
    exact h
  | snapshot now =>
    rw [Engine.step, snapshot_fst, (forgetAll_nodes e now _).2]
    exact h
  | setOptions patch =>
    rcases hOk : e.setOptions patch with error | e'
    · simpa only [Engine.step, hOk] using h
    · simp only [Engine.step, hOk]
      rw [(setOptions_ok_spec hOk).1]
      exact sane_patched h patch

theorem sane_run (reg : Registry) (lens : Lens) (es : List OccupancyEvent) :
    (run (Engine.step reg lens) (Engine.new reg defaultOccupancy) es).opts.Sane :=
  run_invariant (fun e : Engine => e.opts.Sane) (fun _ ev hSane => sane_step hSane ev) sane_default es

/-- A snapshot is consistent exactly when no table that it forgets has a seat in common with a known
one before it. -/
theorem snapshot_consistent_iff {fmt : Format} {u : Unicode} {siteJson nodesJson : Json}
    (h : buildRegistry fmt u lens siteJson nodesJson = .ok reg) (es : List OccupancyEvent)
    (now : ℚ) :
    SnapshotConsistent reg (run (Engine.step reg lens) (Engine.new reg defaultOccupancy) es) now ↔
      Spared reg (run (Engine.step reg lens) (Engine.new reg defaultOccupancy) es) now := by
  have hIds := (buildRegistry_sound h).site.tableIds
  have hSane := sane_run reg lens es
  rw [SnapshotConsistent, snapshot_again_iff hIds hSane.enterWindow]
  exact and_iff_right (snapshot_floors hIds _ now)

end site

/-! ## A desk that is forgotten -/

theorem snapshot_consistent_shared : SnapshotConsistent shared
    (run (Engine.step shared plumb) (Engine.new shared defaultOccupancy) []) 0 ↔ Spared shared
      (run (Engine.step shared plumb) (Engine.new shared defaultOccupancy) []) 0 :=
  snapshot_consistent_iff buildRegistry_shared [] 0

/-- The node of the first floor reports for a window, and that of the second one never does. -/
def halfBlind : List OccupancyEvent :=
  [.snapshot 0] ++ (List.range 5).map fun _ =>
    .report (heartbeat (js "00:00:00:00:00:01")) 20001

/-- The desk of the second floor is forgotten and takes the seat of the first one along: a desk that
was free is unknown a moment later. -/
theorem shown_otherwise : ¬ ∀ fmt u lens siteJson nodesJson reg,
    buildRegistry fmt u lens siteJson nodesJson = .ok reg → ∀ es now, SnapshotConsistent reg
      (run (Engine.step reg lens) (Engine.new reg defaultOccupancy) es) now := by
  intro hAll
  have hAgain := (hAll terse ascii plumb sharedSite sharedNodes shared buildRegistry_shared
    halfBlind 20001).2
  revert hAgain
  decide +kernel

end TMEdge.Occupancy
