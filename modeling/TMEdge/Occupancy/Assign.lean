import TMEdge.Library.Matching
import TMEdge.Occupancy.Engine

/-!
# Who sits where in a frame

`assignSeats` goes through the seats that detections reach, the nearest first, and gives each seat
to the detection if that has persons left.

* `assignSeats_maximal`: the seats can be given to the detections, and no person is left beside a
  free seat.
-/

namespace TMEdge.Occupancy

open Library List

section assign

variable {opts : OccupancyOptions} {table : TableDef} {dets : List ConsoleDetection}

/-- How far a detection reaches at a table. -/
def reach (opts : OccupancyOptions) (table : TableDef) (det : ConsoleDetection) : ℚ :=
  table.seatRadiusCm.getD opts.seatRadiusCm + if 1 < det.persons then 60 else 0

/-- A seat within the reach of a detection. -/
def Reaches (opts : OccupancyOptions) (table : TableDef) (det : ConsoleDetection) (s : SeatSpec) :
    Prop :=
  ∃ p, det.floor = some p ∧ within (hypotSq (s.x - p.1) (s.y - p.2)) (reach opts table det) = true

/-- The seats of a frame given to detections. -/
structure Assignment (opts : OccupancyOptions) (table : TableDef) (dets : List ConsoleDetection)
    (seats : List Text) (owner : Text → Option Nat) : Prop where
  once : seats.Nodup
  owned : ∀ id, id ∈ seats ↔ (owner id).isSome = true
  reaches : ∀ id i, owner id = some i →
    ∃ det s, dets[i]? = some det ∧ s ∈ table.seats ∧ s.id = id ∧ Reaches opts table det s
  persons : ∀ i det, dets[i]? = some det →
    seats.countP (fun id => owner id = some i) ≤ det.persons
  maximal : ∀ i det, dets[i]? = some det →
    seats.countP (fun id => owner id = some i) < det.persons →
      ∀ s ∈ table.seats, Reaches opts table det s → s.id ∈ seats

/-- The seats that detections reach, with their distances. -/
def reachedPairs (opts : OccupancyOptions) (table : TableDef) (dets : List ConsoleDetection) :
    List (ℚ × Nat × Text) :=
  dets.zipIdx.flatMap fun (det, i) =>
    match det.floor with
    | none => []
    | some (x, y) => table.seats.filterMap fun s =>
      let d := hypotSq (s.x - x) (s.y - y)
      if within d (reach opts table det) then some (d, i, s.id) else none

theorem assignSeats_eq (opts : OccupancyOptions) (table : TableDef)
    (dets : List ConsoleDetection) : assignSeats opts table dets =
      ((((reachedPairs opts table dets).mergeSort fun p q => p.1 ≤ q.1).map Prod.snd).foldl
        Matching.claim (dets.map ConsoleDetection.persons, [])).2 := by
  rw [foldl_map]
  refine congrArg Prod.snd (foldl_ext _ _ _ ?_)
  rintro ⟨remaining, taken⟩ p -
  by_cases hSkip : remaining[p.2.1]?.getD 0 = 0 ∨ p.2.2 ∈ taken
  · simp only [Matching.claim, hSkip, if_true]
  · simp only [Matching.claim, hSkip, if_false]

/-- The pairs are those of a detection and a seat that it reaches. -/
theorem mem_reachedPairs {i : Nat} {id : Text} :
    (∃ d, (d, i, id) ∈ reachedPairs opts table dets) ↔
      ∃ det s, dets[i]? = some det ∧ s ∈ table.seats ∧ s.id = id ∧ Reaches opts table det s := by
  simp only [reachedPairs, mem_flatMap, Prod.exists, mem_zipIdx_iff_getElem?]
  constructor
  · rintro ⟨d, det, j, hDet, hMem⟩
    rcases hFloor : det.floor with - | p
    · simp [hFloor] at hMem
    · simp only [hFloor] at hMem
      obtain ⟨s, hs, hSome⟩ := mem_filterMap.mp hMem
      split at hSome
      next hWithin =>
        cases hSome
        exact ⟨det, s, hDet, hs, rfl, p, hFloor, hWithin⟩
      next => cases hSome
  · rintro ⟨det, s, hDet, hs, rfl, p, hFloor, hWithin⟩
    refine ⟨hypotSq (s.x - p.1) (s.y - p.2), det, i, hDet, ?_⟩
    simp only [hFloor]
    exact mem_filterMap.mpr ⟨s, hs, by rw [if_pos hWithin]⟩

/-- `assignSeats` makes a maximal assignment. -/
theorem assignSeats_maximal (opts : OccupancyOptions) (table : TableDef)
    (dets : List ConsoleDetection) :
    ∃ owner, Assignment opts table dets (assignSeats opts table dets) owner := by
  obtain ⟨chosen, h⟩ := Matching.exists_claimed (dets.map ConsoleDetection.persons)
    (((reachedPairs opts table dets).mergeSort fun p q => p.1 ≤ q.1).map Prod.snd)
  rw [assignSeats_eq]
  have hPairs : ∀ i id, (i, id) ∈ ((reachedPairs opts table dets).mergeSort fun p q =>
      p.1 ≤ q.1).map Prod.snd ↔ ∃ det s, dets[i]? = some det ∧ s ∈ table.seats ∧ s.id = id ∧
        Reaches opts table det s := by
    intro i id
    rw [← mem_reachedPairs]
    simp
  have hIds : (chosen.map Prod.snd).Nodup := h.taken ▸ h.nodup
  -- The owner of a seat is the detection it was claimed for.
  have hOwner : ∀ id i, (chosen.find? fun c => c.2 = id).map Prod.fst = some i ↔
      (i, id) ∈ chosen := by
    intro id i
    rw [Option.map_eq_some_iff]
    constructor
    · rintro ⟨c, hFind, rfl⟩
      have hSame : c.2 = id := by simpa using List.find?_some hFind
      rw [← hSame]
      exact List.mem_of_find?_eq_some hFind
    · intro hMem
      rcases hFind : chosen.find? fun c => c.2 = id with - | c
      · simpa using List.find?_eq_none.mp hFind _ hMem
      · have hSame : c.2 = id := by simpa using List.find?_some hFind
        refine ⟨c, hFind, ?_⟩
        rw [List.inj_on_of_nodup_map hIds (List.mem_of_find?_eq_some hFind) hMem hSame]
  have hCount : ∀ i, (chosen.map Prod.snd).countP (fun id =>
      (chosen.find? fun c => c.2 = id).map Prod.fst = some i) =
        chosen.countP fun c => c.1 = i := by
    intro i
    rw [List.countP_map]
    refine List.countP_congr fun c hc => ?_
    simp only [Function.comp_apply, decide_eq_true_eq, hOwner]
    constructor
    · intro hMem
      exact congrArg Prod.fst (List.inj_on_of_nodup_map hIds hc hMem rfl)
    · rintro rfl
      exact hc
  have hUnits : ∀ (i : Nat) (det : ConsoleDetection), dets[i]? = some det →
      (dets.map ConsoleDetection.persons)[i]?.getD 0 = det.persons := by
    intro i det hDet
    rw [List.getElem?_map, hDet, Option.map_some, Option.getD_some]
  refine ⟨fun id => (chosen.find? fun c => c.2 = id).map Prod.fst, h.nodup, fun id => ?_,
    fun id i hi => ?_, fun i det hDet => ?_, fun i det hDet hLess s hs hReaches => ?_⟩
  · rw [← h.taken, Option.isSome_iff_exists]
    simp only [hOwner]
    simp
  · exact (hPairs i id).mp (h.sub _ ((hOwner id i).mp hi))
  · have hLeft := h.left i
    rw [hUnits i det hDet] at hLeft
    rw [← h.taken, hCount]
    omega
  · have hLeft := h.left i
    rw [hUnits i det hDet] at hLeft
    rw [← h.taken, hCount] at hLess
    rcases h.maximal _ ((hPairs i s.id).mpr ⟨det, s, hDet, hs, rfl, hReaches⟩) with hNone | hTaken
    · dsimp only at hNone
      omega
    · exact hTaken

end assign

end TMEdge.Occupancy
