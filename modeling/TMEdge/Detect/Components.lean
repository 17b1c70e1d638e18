import TMEdge.Detect.Segment
import TMEdge.Library.Lists

/-!
# Warm components and what is found of them

* `exact_floods`: the lists that are filled are the 8-connected components, each pixel in one of them.
* `splitComponent_iff`: a component of a person's size is found exactly when one of its pixels is a
  maximum of the smoothed picture.
* `nothingDropped_iff`: the same for a frame.
* `ring_dropped`: eight warm pixels around a cold one have no such maximum.
-/

namespace TMEdge.Detect

open Library List

variable {foreground : Nat → Bool} {starts visited members : List Nat} {start i j : Nat}

/-! ## Pixels that touch -/

/-- At a side or a corner. -/
def Near (i j : Nat) : Prop :=
  (i % gridW ≤ j % gridW + 1 ∧ j % gridW ≤ i % gridW + 1) ∧
    i / gridW ≤ j / gridW + 1 ∧ j / gridW ≤ i / gridW + 1

/-- A pixel of the foreground. -/
def Warm (foreground : Nat → Bool) (i : Nat) : Prop := i < gridSize ∧ foreground i = true

def Touches (foreground : Nat → Bool) (i j : Nat) : Prop :=
  Warm foreground i ∧ Warm foreground j ∧ Near i j

theorem touches_symm (h : Touches foreground i j) : Touches foreground j i :=
  ⟨h.2.1, h.1, ⟨h.2.2.1.2, h.2.2.1.1⟩, h.2.2.2.2, h.2.2.2.1⟩

theorem reached_symm (h : Relation.ReflTransGen (Touches foreground) i j) :
    Relation.ReflTransGen (Touches foreground) j i := by
  have : Std.Symm (Touches foreground) := ⟨fun _ _ => touches_symm⟩
  exact Relation.ReflTransGen.stdSymm.symm _ _ h

theorem mem_offsets {o : Int × Int} : o ∈ offsets ↔ (-1 ≤ o.1 ∧ o.1 ≤ 1) ∧ -1 ≤ o.2 ∧ o.2 ≤ 1 := by
  obtain ⟨dx, dy⟩ := o
  simp only [offsets, mem_flatMap, mem_map, Prod.mk.injEq, mem_cons,
    not_mem_nil, or_false]
  constructor
  · rintro ⟨y, hy, x, hx, rfl, rfl⟩
    omega
  · rintro ⟨hx, hy⟩
    exact ⟨dy, by omega, dx, by omega, rfl, rfl⟩

theorem neighbour_eq_some {o : Int × Int} : neighbour i o = some j ↔
    j < gridSize ∧ ((j % gridW : Nat) : Int) = (i % gridW : Nat) + o.1 ∧
      ((j / gridW : Nat) : Int) = (i / gridW : Nat) + o.2 := by
  obtain ⟨dx, dy⟩ := o
  unfold neighbour
  dsimp only
  split
  · rename_i hOutside
    refine ⟨nofun, fun h => ?_⟩
    simp only [gridSize, gridW, gridH] at *
    omega
  · rename_i hInside
    rw [Option.some.injEq]
    simp only [gridSize, gridW, gridH] at *
    omega

theorem mem_around : j ∈ around i ↔ j < gridSize ∧ Near i j := by
  simp only [around, mem_filterMap, mem_offsets, neighbour_eq_some, Near]
  constructor
  · rintro ⟨o, ho, hj, hx, hy⟩
    omega
  · rintro ⟨hj, hx, hy⟩
    exact ⟨((j % gridW : Nat) - (i % gridW : Nat), (j / gridW : Nat) - (i / gridW : Nat)),
      by dsimp only; omega, hj, by dsimp only; omega, by dsimp only; omega⟩

theorem nodup_around (i : Nat) : (around i).Nodup := by
  refine List.Nodup.filterMap (fun o o' j ho ho' => ?_) (by decide)
  obtain ⟨-, hx, hy⟩ := neighbour_eq_some.mp ho
  obtain ⟨-, hx', hy'⟩ := neighbour_eq_some.mp ho'
  exact Prod.ext (by omega) (by omega)

theorem mem_warmAround (hi : Warm foreground i) :
    j ∈ warmAround foreground visited i ↔ Touches foreground i j ∧ j ∉ visited := by
  simp only [warmAround, mem_filter, mem_around, Bool.and_eq_true, Bool.not_eq_true',
    contains_eq_mem, decide_eq_false_iff_not]
  exact ⟨fun h => ⟨⟨hi, ⟨h.1.1, h.2.1⟩, h.1.2⟩, h.2.2⟩,
    fun h => ⟨⟨h.1.2.1.1, h.1.2.2⟩, h.1.2.1.2, h.2⟩⟩

theorem finds_warmAround :
    Finds id (warmAround foreground) (Touches foreground) (Warm foreground) where
  inside _ _ h := h.2.1
  key_inj _ _ _ _ h := h
  mem _ _ _ ha := mem_warmAround ha
  nodup _ a _ := by
    rw [map_id]
    exact (nodup_around a).filter _

/-! ## One component -/

/-- What touches a visited pixel is visited. -/
def Closed (foreground : Nat → Bool) (visited : List Nat) : Prop :=
  ∀ a ∈ visited, ∀ b, Touches foreground a b → b ∈ visited

theorem Closed.reached (h : Closed foreground visited) (hi : i ∈ visited)
    (hReach : Relation.ReflTransGen (Touches foreground) i j) : j ∈ visited := by
  induction hReach with
  | refl => exact hi
  | tail _ hStep ih => exact h _ ih _ hStep

/-- What has been visited before makes no difference. -/
theorem flood_eq (hClosed : Closed foreground visited) (hWarm : Warm foreground start)
    (hStart : start ∉ visited) :
    flood foreground visited start =
      breadthFirst id (warmAround foreground) gridSize [start] [start] := by
  suffices hSame : (flood foreground visited start).map id =
      breadthFirst id (warmAround foreground) gridSize [start] ([start].map id) by
    rwa [map_id, map_id] at hSame
  refine map_breadthFirst (S := fun seen seen' => ∀ k, k ∈ seen ↔ k ∈ visited ∨ k ∈ seen')
    (D := fun a => Warm foreground a ∧ a ∉ visited) ?_ (fun k => mem_append)
    (fun a ha => mem_singleton.mp ha ▸ ⟨hWarm, hStart⟩)
  · intro seen seen' a hSeen ha
    have hFresh : ∀ b, Touches foreground a b → b ∉ visited := fun b hb hVisited =>
      ha.2 (hClosed b hVisited a (touches_symm hb))
    have hNext : warmAround foreground seen a = warmAround foreground seen' a := by
      refine filter_congr fun b hb => ?_
      by_cases hWarmB : foreground b = true
      · have hTouch : Touches foreground a b :=
          ⟨ha.1, ⟨(mem_around.mp hb).1, hWarmB⟩, (mem_around.mp hb).2⟩
        have hIff : b ∈ seen ↔ b ∈ seen' := by
          rw [hSeen]
          exact or_iff_right (hFresh b hTouch)
        simp only [contains_eq_mem, hIff]
      · simp [hWarmB]
    refine ⟨by rw [map_id, hNext]; rfl, fun k => ?_, fun b hb => ?_⟩
    · rw [map_id, map_id, mem_append, mem_append, hSeen, hNext, or_assoc]
      rfl
    · obtain ⟨hTouch, -⟩ := (mem_warmAround ha.1).mp hb
      exact ⟨hTouch.2.1, hFresh b hTouch⟩

/-- Pixels that are not repeated are not more than the picture has. -/
theorem length_le_gridSize (hNodup : members.Nodup) (h : ∀ i ∈ members, i < gridSize) :
    members.length ≤ gridSize := by
  have hSub : members ⊆ List.range gridSize := fun i hi => mem_range.mpr (h i hi)
  have hLe := (subperm_of_subset hNodup hSub).length_le
  rwa [length_range] at hLe

theorem flood_spec (hClosed : Closed foreground visited) (hWarm : Warm foreground start)
    (hStart : start ∉ visited) : (flood foreground visited start).Nodup ∧
      ∀ j, j ∈ flood foreground visited start ↔
        Relation.ReflTransGen (Touches foreground) start j := by
  rw [flood_eq hClosed hWarm hStart]
  obtain ⟨hNodup, hInside, hReached⟩ := connected_breadthFirst finds_warmAround hWarm gridSize
  obtain ⟨queue, seen, hRun, hEnd⟩ :=
    (searching_start (R := Touches foreground) hWarm).run (n := gridSize) finds_warmAround
  rw [nil_append] at hRun
  rw [map_id] at hNodup
  refine ⟨hNodup, fun j => ⟨fun hj => (hReached j hj).lift id fun _ _ hStep => hStep.1,
    fun hj => ?_⟩⟩
  have hQueue : queue = [] := by
    rcases hEnd with hEnd | hEnd
    · have hAll := hRun.nodup
      rw [map_id] at hAll
      have hLe := length_le_gridSize hAll fun i hi => (hRun.inside i hi).1
      rw [length_append] at hLe
      exact length_eq_zero_iff.mp (by omega)
    · exact hEnd
  subst hQueue
  exact hRun.mem_of_reached finds_warmAround hj

/-! ## All components -/

/-- An 8-connected component of the foreground. -/
def IsComponent (foreground : Nat → Bool) (C : Finset Nat) : Prop :=
  ∃ start, Warm foreground start ∧
    ∀ j, j ∈ C ↔ Relation.ReflTransGen (Touches foreground) start j

/-- The lists are the components, and each pixel is in one of them. -/
structure Exact (foreground : Nat → Bool) (lists : List (List Nat)) : Prop where
  component : ∀ members ∈ lists, IsComponent foreground members.toFinset
  every : ∀ C, IsComponent foreground C → ∃ members ∈ lists, members.toFinset = C
  once : lists.flatten.Nodup

/-- What the loop over `start` has filled when `visited` have been before. -/
structure Filled (foreground : Nat → Bool) (starts visited : List Nat) (lists : List (List Nat)) :
    Prop where
  component : ∀ members ∈ lists, IsComponent foreground members.toFinset
  fresh : ∀ j ∈ lists.flatten, j ∉ visited
  once : lists.flatten.Nodup
  covered : ∀ start ∈ starts, foreground start = true → start ∈ visited ∨ start ∈ lists.flatten

theorem filled_floods (hClosed : Closed foreground visited) (hStarts : ∀ i ∈ starts, i < gridSize) :
    Filled foreground starts visited (floods foreground starts visited) := by
  induction starts generalizing visited with
  | nil => exact ⟨nofun, nofun, .nil, nofun⟩
  | cons start rest ih =>
    rw [forall_mem_cons] at hStarts
    rw [floods]
    split
    · rename_i hSkip
      have hRest := ih hClosed hStarts.2
      refine ⟨hRest.component, hRest.fresh, hRest.once, fun i hi hFore => ?_⟩
      rcases mem_cons.mp hi with rfl | hi
      · exact .inl (by simpa [hFore] using hSkip)
      · exact hRest.covered i hi hFore
    · rename_i hTake
      have hWarm : Warm foreground start := ⟨hStarts.1, by simp_all⟩
      have hFresh : start ∉ visited := by simp_all
      obtain ⟨hNodup, hMem⟩ := flood_spec hClosed hWarm hFresh
      -- a component that was visited would have been visited as a whole
      have hApart : ∀ j ∈ flood foreground visited start, j ∉ visited := fun j hj hVisited =>
        hFresh (hClosed.reached hVisited (reached_symm ((hMem j).mp hj)))
      have hClosed' : Closed foreground (visited ++ flood foreground visited start) := by
        intro a ha b hStep
        rcases mem_append.mp ha with ha | ha
        · exact mem_append_left _ (hClosed a ha b hStep)
        · exact mem_append_right _ ((hMem b).mpr (((hMem a).mp ha).tail hStep))
      have hRest := ih hClosed' hStarts.2
      refine ⟨fun members hMembers => ?_, fun j hj => ?_, ?_, fun i hi hFore => ?_⟩
      · rcases mem_cons.mp hMembers with rfl | hMembers
        · exact ⟨start, hWarm, fun j => by rw [mem_toFinset, hMem]⟩
        · exact hRest.component members hMembers
      · rw [flatten_cons, mem_append] at hj
        rcases hj with hj | hj
        · exact hApart j hj
        · exact fun hVisited => hRest.fresh j hj (mem_append_left _ hVisited)
      · rw [flatten_cons, nodup_append]
        refine ⟨hNodup, hRest.once, fun a ha b hb hEq => ?_⟩
        exact hRest.fresh b hb (mem_append_right _ (hEq ▸ ha))
      · rw [flatten_cons, mem_append]
        rcases mem_cons.mp hi with rfl | hi
        · exact .inr (.inl ((hMem i).mpr .refl))
        · rcases hRest.covered i hi hFore with hSeen | hSeen
          · exact (mem_append.mp hSeen).imp id .inl
          · exact .inr (.inr hSeen)

theorem exact_floods (foreground : Nat → Bool) :
    Exact foreground (floods foreground (List.range gridSize) []) := by
  have hFilled : Filled foreground (List.range gridSize) [] _ :=
    filled_floods nofun fun i hi => mem_range.mp hi
  refine ⟨hFilled.component, fun C hC => ?_, hFilled.once⟩
  obtain ⟨start, hWarm, hMem⟩ := hC
  have hCovered := hFilled.covered start (mem_range.mpr hWarm.1) hWarm.2
  obtain ⟨members, hMembers, hStart⟩ :=
    mem_flatten.mp (hCovered.resolve_left not_mem_nil)
  obtain ⟨start', -, hMem'⟩ := hFilled.component members hMembers
  have hBack := (hMem' start).mp (mem_toFinset.mpr hStart)
  refine ⟨members, hMembers, Finset.ext fun j => ?_⟩
  rw [hMem', hMem]
  exact ⟨fun h => (reached_symm hBack).trans h, fun h => hBack.trans h⟩

/-! ## The parts of a component -/

variable {temps : List ℚ} {diff smooth : Picture} {p : SegmentParams} {peaks : List Nat}

theorem add_area (a : Part) (i : Nat) : (a.add temps diff i).area = a.area + 1 := rfl

theorem foldl_add_area (l : List Nat) (a : Part) :
    (l.foldl (Part.add temps diff) a).area = a.area + l.length := by
  induction l generalizing a with
  | nil => rfl
  | cons i l ih =>
    rw [foldl_cons, ih, add_area, length_cons]
    omega

theorem foldl_add_w (l : List Nat) (a : Part) :
    (l.foldl (Part.add temps diff) a).w = a.w + (l.map fun i => max 0 (diff i)).sum := by
  induction l generalizing a with
  | nil => rw [foldl_nil, map_nil, sum_nil, add_zero]
  | cons i l ih =>
    rw [foldl_cons, ih, map_cons, sum_cons, ← add_assoc]
    rfl

theorem foldl_add_peakD (l : List Nat) (a : Part) :
    (l.foldl (Part.add temps diff) a).peakD = (l.map diff).foldl max a.peakD := by
  induction l generalizing a with
  | nil => rfl
  | cons i l ih => rw [foldl_cons, ih, map_cons, foldl_cons]; rfl

theorem nearest_lt (hPeaks : peaks ≠ []) (i : Nat) : nearest peaks i < peaks.length := by
  have hPos := length_pos_iff.mpr hPeaks
  have hFold : ∀ (l : List (Nat × Nat)) (best : Nat × Option ℚ), best.1 < peaks.length →
      (∀ peak ∈ l, peak.2 < peaks.length) → (l.foldl (nearestStep i) best).1 < peaks.length := by
    intro l
    induction l with
    | nil => exact fun _ hBest _ => hBest
    | cons peak l ih =>
      intro best hBest hAll
      rw [forall_mem_cons] at hAll
      refine ih _ ?_ hAll.2
      unfold nearestStep
      split
      · exact hAll.1
      · dsimp only
        split
        · exact hAll.1
        · exact hBest
  refine hFold peaks.zipIdx (0, none) hPos fun peak hPeak => ?_
  have hLt := (mem_zipIdx hPeak).2.1
  omega

/-- The members that are nearest to a peak. -/
def share (peaks members : List Nat) (k : Nat) : List Nat :=
  members.filter fun i => nearest peaks i = k

theorem getElem?_partsOf (k : Nat) : (partsOf temps diff peaks members)[k]? =
    peaks[k]?.map fun _ => (share peaks members k).foldl (Part.add temps diff) {} := by
  rw [partsOf, getElem?_foldl_modify (nearest peaks) (Part.add temps diff), getElem?_map,
    Option.map_map]
  rfl

theorem sum_area_partsOf (hPeaks : peaks ≠ []) :
    ((partsOf temps diff peaks members).map Part.area).sum = members.length := by
  have hFold : ∀ (l : List Nat) (acc : List Part), acc.length = peaks.length →
      ((l.foldl (fun acc i => acc.modify (nearest peaks i) fun a => a.add temps diff i) acc).map
        Part.area).sum = (acc.map Part.area).sum + l.length := by
    intro l
    induction l with
    | nil => exact fun _ _ => rfl
    | cons i l ih =>
      intro acc hAcc
      rw [foldl_cons, ih _ (by rw [length_modify, hAcc]),
        sum_modify acc (hAcc ▸ nearest_lt hPeaks i) fun a => add_area a i, length_cons]
      omega
  rw [partsOf, hFold members _ (length_map ..)]
  have hZero : ((peaks.map fun _ => ({} : Part)).map Part.area).sum = 0 := by simp
  omega

/-! ## The peaks of a component -/

theorem thinned_ne_nil {sep2 : ℚ} (hPeaks : peaks ≠ []) : thinned sep2 peaks ≠ [] := by
  have hFold : ∀ (l kept : List Nat), kept ≠ [] → l.foldl (fun kept a =>
      if kept.any fun b => distance2 a b < sep2 then kept else kept ++ [a]) kept ≠ [] := by
    intro l
    induction l with
    | nil => exact fun _ h => h
    | cons a l ih =>
      intro kept hKept
      refine ih _ ?_
      dsimp only
      split
      · exact hKept
      · simp
  cases peaks with
  | nil => exact absurd rfl hPeaks
  | cons a l => exact hFold l [a] (cons_ne_nil a [])

/-- The strongest peak is never thinned out. -/
theorem peaksOf_ne_nil : peaksOf smooth p members ≠ [] ↔ ∃ i ∈ members, isMax smooth i = true := by
  have hFilter : (∃ i ∈ members, isMax smooth i = true) ↔ members.filter (isMax smooth) ≠ [] := by
    simp [filter_eq_nil_iff]
  rw [hFilter, peaksOf]
  constructor
  · intro hPeaks hNone
    rw [hNone, take_nil, mergeSort_nil] at hPeaks
    exact hPeaks rfl
  · intro hSome
    refine thinned_ne_nil fun hNone => ?_
    have hLength := congrArg List.length hNone
    have hPos := length_pos_iff.mpr hSome
    rw [length_mergeSort, length_take, length_nil] at hLength
    simp only [maxPeaks] at hLength
    omega

/-- The part of a pixel, which is not dropped if the pixel is the warmest of a person. -/
theorem exists_part (hPeaks : peaks ≠ []) (hi : i ∈ members) (hMin : p.minArea ≤ 1)
    (hMax : (members.length : ℚ) ≤ p.maxArea) (hPeak : p.minPeak ≤ diff i) (hPos : 0 < diff i) :
    ∃ a ∈ partsOf temps diff peaks members, a.dropped p = false := by
  have hShare : i ∈ share peaks members (nearest peaks i) :=
    mem_filter.mpr ⟨hi, decide_eq_true rfl⟩
  have hLe : (share peaks members (nearest peaks i)).length ≤ members.length :=
    length_filter_le _ _
  have hOne : 1 ≤ (share peaks members (nearest peaks i)).length :=
    length_pos_of_mem hShare
  refine ⟨(share peaks members (nearest peaks i)).foldl (Part.add temps diff) {},
    mem_of_getElem? (i := nearest peaks i) ?_, ?_⟩
  · rw [getElem?_partsOf, getElem?_eq_getElem (nearest_lt hPeaks i)]
    rfl
  · have hW : 0 < ((share peaks members (nearest peaks i)).map fun i => max 0 (diff i)).sum := by
      refine (lt_max_of_lt_right hPos).trans_le (single_le_sum (fun x hx => ?_) _
        (mem_map_of_mem hShare))
      obtain ⟨j, -, rfl⟩ := mem_map.mp hx
      exact le_max_left 0 _
    have hD := (le_foldl_max ((share peaks members (nearest peaks i)).map diff) 0).2 _
      (mem_map_of_mem hShare)
    have hOne' : (1 : ℚ) ≤ (share peaks members (nearest peaks i)).length := by exact_mod_cast hOne
    have hLe' : ((share peaks members (nearest peaks i)).length : ℚ) ≤ members.length := by
      exact_mod_cast hLe
    simp only [Part.dropped, foldl_add_area, foldl_add_w, foldl_add_peakD, Bool.or_eq_false_iff,
      decide_eq_false_iff_not, not_lt, not_le, zero_add]
    exact ⟨⟨⟨hMin.trans hOne', hLe'.trans hMax⟩, hPeak.trans hD⟩, hW⟩

/-- A part that is not dropped is warm. -/
theorem exists_pos_of_part {a : Part} (ha : a ∈ partsOf temps diff peaks members)
    (hKept : a.dropped p = false) : ∃ i ∈ members, 0 < diff i := by
  obtain ⟨k, hk⟩ := getElem?_of_mem ha
  rw [getElem?_partsOf] at hk
  obtain ⟨-, -, rfl⟩ := Option.map_eq_some_iff.mp hk
  by_contra hNone
  push Not at hNone
  have hZero : ((share peaks members k).map fun i => max 0 (diff i)).sum = 0 := by
    refine sum_eq_zero fun x hx => ?_
    obtain ⟨j, hj, rfl⟩ := mem_map.mp hx
    exact max_eq_left (hNone j (mem_filter.mp hj).1)
  simp only [Part.dropped, foldl_add_w, hZero, Bool.or_eq_false_iff, decide_eq_false_iff_not] at hKept
  exact hKept.2 (le_of_eq (add_zero _))

/-- A component is found, and its parts are all of it. -/
def KeepsPart (temps : List ℚ) (diff smooth : Picture) (p : SegmentParams) (members : List Nat) :
    Prop :=
  splitComponent members temps diff smooth p ≠ [] ∧
    ((partsOf temps diff (peaksOf smooth p members) members).map Part.area).sum = members.length

/-- At most `maxArea` pixels, of which the warmest is at least `minPeak`. -/
def PersonSized (diff : Picture) (p : SegmentParams) (C : Finset Nat) : Prop :=
  (C.card : ℚ) ≤ p.maxArea ∧ ∃ i ∈ C, p.minPeak ≤ diff i

/-- A pixel is a maximum of the smoothed picture, and one is warmer than the background. -/
def HasMax (diff smooth : Picture) (C : Finset Nat) : Prop :=
  (∃ i ∈ C, isMax smooth i = true) ∧ ∃ i ∈ C, 0 < diff i

theorem splitComponent_iff (hNodup : members.Nodup) (hMin : p.minArea ≤ 1)
    (hPerson : PersonSized diff p members.toFinset) :
    KeepsPart temps diff smooth p members ↔ HasMax diff smooth members.toFinset := by
  obtain ⟨hMax, i, hi, hPeak⟩ := hPerson
  rw [toFinset_card_of_nodup hNodup] at hMax
  simp only [HasMax, mem_toFinset]
  constructor
  · intro hKept
    have hPeaks : peaksOf smooth p members ≠ [] := fun hNone => hKept.1 (by
      rw [splitComponent]
      exact if_pos hNone)
    refine ⟨peaksOf_ne_nil.mp hPeaks, ?_⟩
    have hFound := hKept.1
    rw [splitComponent] at hFound
    rw [if_neg hPeaks] at hFound
    obtain ⟨d, hd⟩ := exists_mem_of_ne_nil _ hFound
    obtain ⟨a, ha, -⟩ := mem_map.mp hd
    rw [mem_filter, Bool.not_eq_true'] at ha
    exact exists_pos_of_part ha.1 ha.2
  · rintro ⟨hIsMax, j, hj, hPos⟩
    have hPeaks : peaksOf smooth p members ≠ [] := peaksOf_ne_nil.mpr hIsMax
    obtain ⟨m, hm, hWarmest⟩ := members.toFinset.exists_max_image diff ⟨i, hi⟩
    rw [mem_toFinset] at hm
    have hPeak' := hPeak.trans (hWarmest i hi)
    have hPos' := hPos.trans_le (hWarmest j (mem_toFinset.mpr hj))
    obtain ⟨a, ha, hDropped⟩ : ∃ a ∈ partsOf temps diff (peaksOf smooth p members) members,
        a.dropped p = false := exists_part hPeaks hm hMin hMax hPeak' hPos'
    refine ⟨?_, sum_area_partsOf hPeaks⟩
    rw [splitComponent, if_neg hPeaks]
    exact ne_nil_of_mem (mem_map_of_mem (mem_filter.mpr ⟨ha, by rw [hDropped]; rfl⟩))

/-! ## A frame -/

variable {background : List ℚ}

theorem diff_segment (temps background : List ℚ) (p : SegmentParams) :
    (segment temps background p).diff = difference temps background := by
  unfold segment
  dsimp only
  split <;> rfl

theorem foreground_segment (temps background : List ℚ) (p : SegmentParams) (i : Nat) :
    (segment temps background p).foreground i = true ↔
      thresholdOf (difference temps background) p < difference temps background i := by
  unfold segment
  dsimp only
  split <;> exact decide_eq_true_iff

theorem globalShift_segment (temps background : List ℚ) (p : SegmentParams) :
    (segment temps background p).globalShift = false ↔
      ((List.range gridSize).countP (segment temps background p).foreground : ℚ) ≤
        globalShiftFraction * gridSize := by
  unfold segment
  dsimp only
  split
  · rename_i hShift
    exact ⟨nofun, fun h => absurd hShift (not_lt.mpr h)⟩
  · rename_i hStill
    exact ⟨fun _ => not_lt.mp hStill, fun _ => rfl⟩

theorem exists_component (hWarm : Warm foreground start) :
    ∃ C, IsComponent foreground C ∧ start ∈ C := by
  have hNone : Closed foreground [] := nofun
  obtain ⟨-, hMem⟩ := flood_spec hNone hWarm not_mem_nil
  exact ⟨(flood foreground [] start).toFinset,
    ⟨start, hWarm, fun j => by rw [mem_toFinset, hMem]⟩,
    mem_toFinset.mpr ((hMem start).mpr .refl)⟩

theorem IsComponent.warm {C : Finset Nat} (h : IsComponent foreground C) (hj : j ∈ C) :
    Warm foreground j := by
  obtain ⟨start, hWarm, hMem⟩ := h
  cases (hMem j).mp hj with
  | refl => exact hWarm
  | tail _ hStep => exact hStep.2.1

/-- Every component of a person's size is found, unless all of the picture has changed. -/
def NothingDropped (temps background : List ℚ) (p : SegmentParams) : Prop :=
  let s := segment temps background p
  let lists := floods s.foreground (List.range gridSize) []
  s.globalShift = false → Exact s.foreground lists ∧
    (p.minArea ≤ 1 → ∀ members ∈ lists, PersonSized s.diff p members.toFinset →
      KeepsPart temps s.diff (smoothPositive s.diff) p members)

theorem nothingDropped_iff (temps background : List ℚ) (p : SegmentParams) :
    let s := segment temps background p
    NothingDropped temps background p ↔ (s.globalShift = false → p.minArea ≤ 1 →
      ∀ C, IsComponent s.foreground C → PersonSized s.diff p C →
        HasMax s.diff (smoothPositive s.diff) C) := by
  intro s
  have hExact := exact_floods s.foreground
  constructor
  · intro hKept hShift hMin C hC hPerson
    obtain ⟨members, hMembers, rfl⟩ := hExact.every C hC
    have hNodup := (List.nodup_flatten.mp hExact.once).1 members hMembers
    exact (splitComponent_iff hNodup hMin hPerson).mp ((hKept hShift).2 hMin members hMembers hPerson)
  · intro hMax hShift
    refine ⟨hExact, fun hMin members hMembers hPerson => ?_⟩
    have hNodup := (List.nodup_flatten.mp hExact.once).1 members hMembers
    exact (splitComponent_iff hNodup hMin hPerson).mpr
      (hMax hShift hMin _ (hExact.component members hMembers) hPerson)

/-! ## Eight pixels around a cold one -/

def ringPixels : List Nat := [367, 368, 369, 399, 401, 431, 432, 433]

def ring : Picture := fun i => if i ∈ ringPixels then 2 else 0

def ringTemps : List ℚ := (List.range gridSize).map ring

def flatRoom : List ℚ := List.replicate gridSize 0

theorem difference_ring : difference ringTemps flatRoom = ring := by
  funext i
  have hRoom : flatRoom.getD i 0 = 0 := by
    rw [flatRoom, getD_eq_getElem?_getD, getElem?_replicate]
    split <;> rfl
  rw [difference, hRoom, sub_zero, ringTemps, getD_eq_getElem?_getD, getElem?_map]
  by_cases hi : i < gridSize
  · rw [getElem?_range hi]
    rfl
  · rw [getElem?_eq_none (by simpa using hi)]
    have hOut : i ∉ ringPixels := fun hMem => by
      have hAll : ∀ j ∈ ringPixels, j < gridSize := by decide
      exact hi (hAll i hMem)
    exact (if_neg hOut).symm

theorem median_ring : median ((List.range gridSize).map ring) = 0 := by
  refine le_antisymm (median_le ?_) (le_median (by simp [gridSize]) fun v hv => ?_)
  · rw [length_map, length_range, countP_map]
    decide +kernel
  · obtain ⟨i, -, rfl⟩ := mem_map.mp hv
    unfold ring
    split <;> norm_num

theorem thresholdOf_ring : thresholdOf ring defaultSegment = 3 / 5 := by
  have hSame : (((List.range gridSize).map ring).map fun d => |d - 0|) =
      (List.range gridSize).map ring := by
    rw [map_map]
    refine map_congr_left fun i _ => ?_
    simp only [Function.comp_apply, sub_zero, ring]
    split <;> norm_num
  unfold thresholdOf
  dsimp only
  rw [median_ring, hSame, median_ring]
  norm_num [minSigmaC, madToSigma, defaultSegment]

theorem isMax_ring : ∀ i ∈ ringPixels, isMax (smoothPositive ring) i = false := by
  decide +kernel

theorem foreground_ring (i : Nat) :
    (segment ringTemps flatRoom defaultSegment).foreground i = true ↔ i ∈ ringPixels := by
  rw [foreground_segment, difference_ring, thresholdOf_ring, ring]
  split
  · exact iff_of_true (by norm_num) ‹_›
  · exact iff_of_false (by norm_num) ‹_›

theorem still_ring : (segment ringTemps flatRoom defaultSegment).globalShift = false := by
  rw [globalShift_segment]
  have hCount : (List.range gridSize).countP (segment ringTemps flatRoom defaultSegment).foreground =
      (List.range gridSize).countP (· ∈ ringPixels) :=
    countP_congr fun i _ => by rw [foreground_ring, decide_eq_true_iff]
  have hEight : (List.range gridSize).countP (· ∈ ringPixels) = 8 := by decide +kernel
  rw [hCount, hEight]
  norm_num [globalShiftFraction, gridSize]

theorem ring_dropped : ¬NothingDropped ringTemps flatRoom defaultSegment := by
  intro hDropped
  have hMax := (nothingDropped_iff ringTemps flatRoom defaultSegment).mp hDropped still_ring le_rfl
  rw [diff_segment, difference_ring] at hMax
  have hWarm : Warm (segment ringTemps flatRoom defaultSegment).foreground 367 :=
    ⟨by decide, (foreground_ring 367).mpr (by decide)⟩
  obtain ⟨C, hC, hStart⟩ := exists_component hWarm
  have hInside : ∀ i ∈ C, i ∈ ringPixels := fun i hi => (foreground_ring i).mp (hC.warm hi).2
  have hCard : C.card ≤ 8 :=
    Finset.card_le_card (t := ringPixels.toFinset) fun i hi => List.mem_toFinset.mpr (hInside i hi)
  have hCard' : (C.card : ℚ) ≤ 8 := by exact_mod_cast hCard
  obtain ⟨⟨i, hi, hIsMax⟩, -⟩ := hMax C hC
    ⟨hCard'.trans (by norm_num [defaultSegment]), 367, hStart, by decide +kernel⟩
  rw [isMax_ring i (hInside i hi)] at hIsMax
  cases hIsMax

end TMEdge.Detect
