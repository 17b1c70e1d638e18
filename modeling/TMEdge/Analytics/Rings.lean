import TMEdge.Analytics.MetricHistory

/-!
# What the rings read

* `read_samples`: what is read for a bucket after any run of samples.
* `bucket_left`: a bucket that is read after more than a whole round of the ring.
-/

namespace TMEdge.Analytics

open Library List JsMap

namespace GaugeTier

/-! ## Cells -/

section cells

variable {t : GaugeTier} {map : JsMap Text Column} {m m' : Text} {slot slot' : Nat} {a x : ℚ}
  {index : Int}

/-- The number in a cell of a column, if there is one. -/
def cell (map : JsMap Text Column) (m : Text) (slot : Nat) : Option ℚ :=
  ((map.get m).bind (·[slot]?)).join

/-- Every column has a cell for each slot. -/
def Wide (t : GaugeTier) (map : JsMap Text Column) : Prop :=
  ∀ m c, map.get m = some c → c.length = t.spec.capacity

theorem cell_column : (t.column map m)[slot]?.join = cell map m slot := by
  unfold column cell
  rcases map.get m with - | c
  · rw [Option.getD_none, getElem?_replicate]
    split <;> rfl
  · rfl

theorem length_column (h : t.Wide map) : (t.column map m).length = t.spec.capacity := by
  unfold column
  rcases hGet : map.get m with - | c
  · exact length_replicate
  · exact h m c hGet

theorem cell_set (h : t.Wide map) (hSlot : slot < t.spec.capacity) :
    cell (map.set m ((t.column map m).set slot (some a))) m' slot' =
      if m' = m ∧ slot' = slot then some a else cell map m' slot' := by
  rw [cell, get_set]
  by_cases hm : m' = m
  · subst hm
    rw [if_pos rfl, Option.bind_some, getElem?_set, length_column h, if_pos hSlot]
    by_cases hEq : slot = slot'
    · rw [if_pos hEq, if_pos ⟨rfl, hEq.symm⟩]
      rfl
    · rw [if_neg hEq, if_neg (fun hBoth => hEq hBoth.2.symm)]
      exact cell_column
  · rw [if_neg hm, if_neg (fun hBoth => hm hBoth.1)]
    rfl

theorem wide_set (h : t.Wide map) {c : Column} (hc : c.length = t.spec.capacity) :
    t.Wide (map.set m c) := by
  intro m' c' hGet
  rw [get_set] at hGet
  split at hGet
  next =>
    cases hGet
    exact hc
  next => exact h m' c' hGet

theorem wide_emptied (h : t.Wide map) : t.Wide (map.mapValues fun _ c => c.set slot none) := by
  intro m c hGet
  rw [get_mapValues, Option.map_eq_some_iff] at hGet
  obtain ⟨c', hc', rfl⟩ := hGet
  rw [length_set]
  exact h m c' hc'

theorem cell_emptied : cell (map.mapValues fun _ c => c.set slot none) m slot' =
    if slot' = slot then none else cell map m slot' := by
  rw [cell, cell, get_mapValues]
  rcases map.get m with - | c
  · split <;> rfl
  · rw [Option.map_some, Option.bind_some, Option.bind_some, getElem?_set]
    by_cases hEq : slot = slot'
    · rw [if_pos hEq, if_pos hEq.symm]
      split <;> rfl
    · rw [if_neg hEq, if_neg (Ne.symm hEq)]

end cells

/-! ## A value is put -/

section put

variable {t : GaugeTier} {m m' : Text} {slot : Nat} {a x : ℚ} {index : Int}

/-- A ring with a slot for each stamp and a cell for each slot. -/
structure Shaped (t : GaugeTier) : Prop where
  positive : 0 < t.spec.capacity
  stamps : t.stamps.length = t.spec.capacity
  avg : t.Wide t.avg
  max : t.Wide t.max

theorem slotOf_lt (hPositive : 0 < t.spec.capacity) (hIndex : 0 ≤ index) :
    t.slotOf index < t.spec.capacity := by
  have hCapacity : (0 : Int) < t.spec.capacity := by omega
  have hLow := Int.emod_nonneg index hCapacity.ne'
  have hHigh := Int.emod_lt_of_pos index hCapacity
  rw [slotOf, Int.tmod_eq_emod_of_nonneg hIndex]
  omega

/-- Two buckets with one slot. -/
theorem slotOf_eq {i j : Int} (hPositive : 0 < t.spec.capacity) (hi : 0 ≤ i) (hj : 0 ≤ j) :
    t.slotOf i = t.slotOf j ↔ (t.spec.capacity : Int) ∣ j - i := by
  have hCapacity : (0 : Int) < t.spec.capacity := by omega
  have hLowI := Int.emod_nonneg i hCapacity.ne'
  have hLowJ := Int.emod_nonneg j hCapacity.ne'
  rw [slotOf, slotOf, Int.tmod_eq_emod_of_nonneg hi, Int.tmod_eq_emod_of_nonneg hj,
    ← Int.emod_emod_of_dvd j (dvd_refl _), ← Int.modEq_iff_dvd]
  constructor
  · intro h
    rw [Int.emod_emod_of_dvd j (dvd_refl _)] at h
    have hEq : i % t.spec.capacity = j % t.spec.capacity := by omega
    exact hEq
  · intro h
    rw [Int.emod_emod_of_dvd j (dvd_refl _)]
    exact congrArg Int.toNat h

theorem claim_stamps (h : t.Shaped) (hIndex : 0 ≤ index) :
    (t.claim index).stamps[slot]? =
      if slot = t.slotOf index then some index else t.stamps[slot]? := by
  have hLt : t.slotOf index < t.stamps.length := h.stamps ▸ slotOf_lt h.positive hIndex
  unfold claim
  dsimp only
  split
  next =>
    dsimp only
    rw [getElem?_set, if_pos hLt]
    by_cases hEq : slot = t.slotOf index
    · rw [if_pos hEq, if_pos hEq.symm]
    · rw [if_neg hEq, if_neg (Ne.symm hEq)]
  next hStamp =>
    split
    next hEq =>
      rw [hEq]
      exact not_not.mp hStamp
    next => rfl

theorem claim_cell (map : GaugeTier → JsMap Text Column)
    (hMap : map (t.claim index) = if t.stamps[t.slotOf index]? ≠ some index then
      (map t).mapValues fun _ c => c.set (t.slotOf index) none else map t) :
    cell (map (t.claim index)) m slot =
      if slot = t.slotOf index ∧ t.stamps[slot]? ≠ some index then none
      else cell (map t) m slot := by
  rw [hMap]
  by_cases hSlot : slot = t.slotOf index
  · subst hSlot
    by_cases hStamp : t.stamps[t.slotOf index]? ≠ some index
    · rw [if_pos hStamp, if_pos ⟨rfl, hStamp⟩, cell_emptied, if_pos rfl]
    · rw [if_neg hStamp, if_neg (fun hBoth : _ ∧ _ => hStamp hBoth.2)]
  · have hNot : ¬ (slot = t.slotOf index ∧ t.stamps[slot]? ≠ some index) :=
      fun hBoth => hSlot hBoth.1
    rw [if_neg hNot]
    split
    · rw [cell_emptied, if_neg hSlot]
    · rfl

theorem claim_avg : (t.claim index).avg = if t.stamps[t.slotOf index]? ≠ some index then
    t.avg.mapValues fun _ c => c.set (t.slotOf index) none else t.avg := by
  unfold claim
  dsimp only
  split <;> rfl

theorem claim_max : (t.claim index).max = if t.stamps[t.slotOf index]? ≠ some index then
    t.max.mapValues fun _ c => c.set (t.slotOf index) none else t.max := by
  unfold claim
  dsimp only
  split <;> rfl

theorem claim_spec : (t.claim index).spec = t.spec ∧ (t.claim index).acc = t.acc := by
  unfold claim
  dsimp only
  split <;> exact ⟨rfl, rfl⟩

theorem Shaped.claim (h : t.Shaped) : (t.claim index).Shaped := by
  unfold GaugeTier.claim
  dsimp only
  split
  next => exact ⟨h.positive, length_set.trans h.stamps, wide_emptied h.avg, wide_emptied h.max⟩
  next => exact h

theorem Shaped.put (h : t.Shaped) : (t.put index m a x).Shaped := by
  have hClaim := @Shaped.claim _ index h
  have hColumn : ∀ map : JsMap Text Column, (t.claim index).Wide map →
      ((((t.claim index).column map m).set (t.slotOf index) (some a)).length =
        (t.claim index).spec.capacity) := by
    intro map hWide
    rw [length_set, length_column hWide]
  refine ⟨hClaim.positive, hClaim.stamps, wide_set hClaim.avg ?_, wide_set hClaim.max ?_⟩
  · rw [length_set, length_column hClaim.avg]
  · rw [length_set, length_column hClaim.max]

theorem put_stamps (h : t.Shaped) (hIndex : 0 ≤ index) :
    (t.put index m a x).stamps[slot]? =
      if slot = t.slotOf index then some index else t.stamps[slot]? :=
  claim_stamps h hIndex

/-- The cells of the averages, or of the maxima, after a put. -/
theorem put_cell (h : t.Shaped) (hIndex : 0 ≤ index) (map : GaugeTier → JsMap Text Column)
    (hWide : (t.claim index).Wide (map (t.claim index)))
    (hMap : map (t.claim index) = if t.stamps[t.slotOf index]? ≠ some index then
      (map t).mapValues fun _ c => c.set (t.slotOf index) none else map t) :
    cell ((map (t.claim index)).set m
      (((t.claim index).column (map (t.claim index)) m).set (t.slotOf index) (some a))) m' slot =
      if slot = t.slotOf index then
        if m' = m then some a
        else if t.stamps[slot]? = some index then cell (map t) m' slot else none
      else cell (map t) m' slot := by
  have hSlot : t.slotOf index < (t.claim index).spec.capacity := by
    rw [claim_spec.1]
    exact slotOf_lt h.positive hIndex
  rw [cell_set hWide hSlot, claim_cell map hMap]
  by_cases hEq : slot = t.slotOf index
  · rw [if_pos hEq]
    by_cases hm : m' = m
    · rw [if_pos hm, if_pos ⟨hm, hEq⟩]
    · rw [if_neg hm, if_neg (fun hBoth => hm hBoth.1)]
      by_cases hStamp : t.stamps[slot]? = some index
      · rw [if_pos hStamp, if_neg (fun hBoth => hBoth.2 hStamp)]
      · rw [if_neg hStamp, if_pos ⟨hEq, hStamp⟩]
  · rw [if_neg hEq, if_neg (fun hBoth => hEq hBoth.2), if_neg (fun hBoth => hEq hBoth.1)]

theorem put_avg (h : t.Shaped) (hIndex : 0 ≤ index) : cell (t.put index m a x).avg m' slot =
    if slot = t.slotOf index then
      if m' = m then some a
      else if t.stamps[slot]? = some index then cell t.avg m' slot else none
    else cell t.avg m' slot :=
  put_cell h hIndex GaugeTier.avg h.claim.avg claim_avg

theorem put_max (h : t.Shaped) (hIndex : 0 ≤ index) : cell (t.put index m a x).max m' slot =
    if slot = t.slotOf index then
      if m' = m then some x
      else if t.stamps[slot]? = some index then cell t.max m' slot else none
    else cell t.max m' slot :=
  put_cell h hIndex GaugeTier.max h.claim.max claim_max

end put

/-! ## What the ring holds -/

section holds

variable {t : GaugeTier} {h : Int → Text → List ℚ} {m : Text} {index i : Int} {v : ℚ}

def meanOf (l : List ℚ) : Option ℚ := if l = [] then none else some (l.sum / l.length)

/-- `h` has the samples of every bucket and metric so far. -/
structure Holds (t : GaugeTier) (h : Int → Text → List ℚ) : Prop where
  shaped : t.Shaped
  sums : ∀ m, (t.acc.sum.get m).getD 0 = (h t.acc.index m).sum
  counts : ∀ m, (t.acc.count.get m).getD 0 = (h t.acc.index m).length
  maxs : ∀ m, t.acc.max.get m = (h t.acc.index m).max?
  bound : ∀ i m, h i m ≠ [] → 0 ≤ i ∧ i ≤ t.acc.index
  newest : ∀ slot s, t.stamps[slot]? = some s → ∀ i m, h i m ≠ [] → t.slotOf i = slot → i ≤ s
  own : ∀ slot s, t.stamps[slot]? = some s → 0 ≤ s → t.slotOf s = slot ∧ ∃ m, h s m ≠ []
  cells : ∀ slot s m, t.stamps[slot]? = some s →
    cell t.avg m slot = meanOf (h s m) ∧ cell t.max m slot = (h s m).max?

/-- One more sample. -/
def withSample (h : Int → Text → List ℚ) (index : Int) (m : Text) (v : ℚ) :
    Int → Text → List ℚ :=
  fun i m' => if i = index ∧ m' = m then h i m' ++ [v] else h i m'

theorem withSample_same : withSample h index m v index m = h index m ++ [v] := by
  rw [withSample, if_pos ⟨rfl, rfl⟩]

theorem withSample_ne_nil {m' : Text} (hNe : withSample h index m v i m' ≠ []) :
    h i m' ≠ [] ∨ i = index := by
  unfold withSample at hNe
  split at hNe
  next hBoth => exact .inr hBoth.1
  next => exact .inl hNe

theorem max?_concat (l : List ℚ) (v : ℚ) :
    (l ++ [v]).max? = some (l.max?.elim v fun m => if m < v then v else m) := by
  cases l with
  | nil => rfl
  | cons a l =>
    rw [cons_append, max?_cons', max?_cons', foldl_append, Option.elim_some,
      foldl_cons, foldl_nil]
    congr 1
    split
    next hLt => exact max_eq_right hLt.le
    next hNot => exact max_eq_left (not_lt.mp hNot)

theorem Holds.stamp (hHolds : Holds t h) (hIndex : 0 ≤ index) :
    ∃ s, t.stamps[t.slotOf index]? = some s := by
  have hLt := slotOf_lt hHolds.shaped.positive hIndex
  rw [← hHolds.shaped.stamps] at hLt
  exact ⟨_, getElem?_eq_getElem hLt⟩

/-- A bucket that its slot is not stamped with is empty, when it is the newest one. -/
theorem Holds.empty_of_stamp (hHolds : Holds t h) (hIndex : 0 ≤ t.acc.index)
    (hStamp : t.stamps[t.slotOf t.acc.index]? ≠ some t.acc.index) (m : Text) :
    h t.acc.index m = [] := by
  obtain ⟨s, hs⟩ := hHolds.stamp hIndex
  by_contra hNe
  have hLe := hHolds.newest _ s hs _ m hNe rfl
  obtain ⟨-, m', hm'⟩ := hHolds.own _ s hs (hIndex.trans hLe)
  have hEq : s = t.acc.index := le_antisymm (hHolds.bound s m' hm').2 hLe
  exact hStamp (hEq ▸ hs)

theorem Shaped.withAcc (hShaped : t.Shaped) (acc : Accumulator) : Shaped { t with acc := acc } :=
  ⟨hShaped.positive, hShaped.stamps, hShaped.avg, hShaped.max⟩

theorem gather_stamps (hShaped : t.Shaped) (hIndex : 0 ≤ index) (slot : Nat) :
    (t.gather index m v).stamps[slot]? =
      if slot = t.slotOf index then some index else t.stamps[slot]? :=
  put_stamps (hShaped.withAcc _) hIndex

theorem gather_avg (hShaped : t.Shaped) (hIndex : 0 ≤ index) (m' : Text) (slot : Nat) :
    cell (t.gather index m v).avg m' slot =
      if slot = t.slotOf index then
        if m' = m then
          some (((t.acc.sum.get m).getD 0 + v) / (((t.acc.count.get m).getD 0 + 1 : Nat) : ℚ))
        else if t.stamps[slot]? = some index then cell t.avg m' slot else none
      else cell t.avg m' slot :=
  put_avg (hShaped.withAcc _) hIndex

theorem gather_max (hShaped : t.Shaped) (hIndex : 0 ≤ index) (m' : Text) (slot : Nat) :
    cell (t.gather index m v).max m' slot =
      if slot = t.slotOf index then
        if m' = m then some ((t.acc.max.get m).elim v fun m => if m < v then v else m)
        else if t.stamps[slot]? = some index then cell t.max m' slot else none
      else cell t.max m' slot :=
  put_max (hShaped.withAcc _) hIndex

theorem gather_slotOf (i : Int) : (t.gather index m v).slotOf i = t.slotOf i := by
  have hSpec : (t.gather index m v).spec = t.spec := claim_spec.1
  rw [slotOf, slotOf, hSpec]

theorem gather_acc : (t.gather index m v).acc = { t.acc with
    sum := t.acc.sum.set m ((t.acc.sum.get m).getD 0 + v)
    count := t.acc.count.set m ((t.acc.count.get m).getD 0 + 1)
    max := t.acc.max.set m ((t.acc.max.get m).elim v fun m => if m < v then v else m) } :=
  claim_spec.2

/-- A sample of the newest bucket. -/
theorem Holds.gather (hHolds : Holds t h) (hIndex : 0 ≤ t.acc.index) (m : Text) (v : ℚ) :
    Holds (t.gather t.acc.index m v) (withSample h t.acc.index m v) := by
  have hAcc := @gather_acc t m t.acc.index v
  have hAccIndex : (t.gather t.acc.index m v).acc.index = t.acc.index := by rw [hAcc]
  have hAt : ∀ m', withSample h t.acc.index m v t.acc.index m' =
      if m' = m then h t.acc.index m' ++ [v] else h t.acc.index m' := by
    intro m'
    by_cases hm : m' = m
    · rw [withSample, if_pos ⟨rfl, hm⟩, if_pos hm]
    · rw [withSample, if_neg (fun hBoth => hm hBoth.2), if_neg hm]
  have hStamps : ∀ slot s, (t.gather t.acc.index m v).stamps[slot]? = some s →
      slot = t.slotOf t.acc.index ∧ s = t.acc.index ∨
      slot ≠ t.slotOf t.acc.index ∧ t.stamps[slot]? = some s := by
    intro slot s hs
    rw [gather_stamps hHolds.shaped hIndex] at hs
    split at hs
    next hEq => exact .inl ⟨hEq, (Option.some.inj hs).symm⟩
    next hNe => exact .inr ⟨hNe, hs⟩
  have hSum : ((t.acc.sum.get m).getD 0 + v) / (((t.acc.count.get m).getD 0 + 1 : Nat) : ℚ) =
      (h t.acc.index m ++ [v]).sum / ((h t.acc.index m ++ [v]).length : ℚ) := by
    rw [hHolds.sums, hHolds.counts, sum_append, sum_singleton, length_append,
      length_singleton]
  refine {
    shaped := (hHolds.shaped.withAcc _).put
    sums := fun m' => ?_
    counts := fun m' => ?_
    maxs := fun m' => ?_
    bound := fun i m' hNe => ?_
    newest := fun slot s hs i m' hNe hSlot => ?_
    own := fun slot s hs hPositive => ?_
    cells := fun slot s m' hs => ?_ }
  · rw [hAccIndex, hAt, hAcc]
    dsimp only
    rw [get_set]
    by_cases hm : m' = m
    · rw [if_pos hm, if_pos hm, hm, Option.getD_some, hHolds.sums, sum_append,
        sum_singleton]
    · rw [if_neg hm, if_neg hm]
      exact hHolds.sums m'
  · rw [hAccIndex, hAt, hAcc]
    dsimp only
    rw [get_set]
    by_cases hm : m' = m
    · rw [if_pos hm, if_pos hm, hm, Option.getD_some, hHolds.counts, length_append,
        length_singleton]
    · rw [if_neg hm, if_neg hm]
      exact hHolds.counts m'
  · rw [hAccIndex, hAt, hAcc]
    dsimp only
    rw [get_set]
    by_cases hm : m' = m
    · rw [if_pos hm, if_pos hm, hm, hHolds.maxs, max?_concat]
    · rw [if_neg hm, if_neg hm]
      exact hHolds.maxs m'
  · rw [hAccIndex]
    rcases withSample_ne_nil hNe with hOld | rfl
    · exact hHolds.bound i m' hOld
    · exact ⟨hIndex, le_rfl⟩
  · rw [gather_slotOf] at hSlot
    rcases hStamps slot s hs with ⟨hEq, rfl⟩ | ⟨hOther, hOld⟩
    · rcases withSample_ne_nil hNe with hBefore | rfl
      · exact (hHolds.bound i m' hBefore).2
      · exact le_rfl
    · rcases withSample_ne_nil hNe with hBefore | rfl
      · exact hHolds.newest slot s hOld i m' hBefore hSlot
      · exact absurd hSlot.symm hOther
  · rw [gather_slotOf]
    rcases hStamps slot s hs with ⟨hEq, rfl⟩ | ⟨hOther, hOld⟩
    · refine ⟨hEq.symm, m, ?_⟩
      rw [withSample_same]
      exact append_ne_nil_of_right_ne_nil _ (cons_ne_nil _ _)
    · obtain ⟨hSlot, m', hm'⟩ := hHolds.own slot s hOld hPositive
      refine ⟨hSlot, m', ?_⟩
      unfold withSample
      split
      · exact append_ne_nil_of_left_ne_nil hm' _
      · exact hm'
  · have hMean : meanOf (h t.acc.index m ++ [v]) =
        some ((h t.acc.index m ++ [v]).sum / ((h t.acc.index m ++ [v]).length : ℚ)) :=
      if_neg (append_ne_nil_of_right_ne_nil _ (cons_ne_nil _ _))
    rw [gather_avg hHolds.shaped hIndex, gather_max hHolds.shaped hIndex]
    rcases hStamps slot s hs with ⟨hEq, rfl⟩ | ⟨hOther, hOld⟩
    · rw [if_pos hEq, if_pos hEq, hAt]
      by_cases hm : m' = m
      · rw [if_pos hm, if_pos hm, if_pos hm, hm, hMean, hSum, hHolds.maxs, max?_concat]
        exact ⟨rfl, rfl⟩
      · rw [if_neg hm, if_neg hm, if_neg hm]
        by_cases hStamp : t.stamps[slot]? = some t.acc.index
        · rw [if_pos hStamp, if_pos hStamp]
          exact hHolds.cells slot _ m' hStamp
        · -- the slot held another bucket: there is no sample of this one yet
          rw [if_neg hStamp, if_neg hStamp, hHolds.empty_of_stamp hIndex (hEq ▸ hStamp) m']
          exact ⟨rfl, rfl⟩
    · rw [if_neg hOther, if_neg hOther]
      have hSame : withSample h t.acc.index m v s m' = h s m' := by
        rw [withSample, if_neg]
        rintro ⟨rfl, -⟩
        exact hOther (hHolds.own slot _ hOld hIndex).1.symm
      rw [hSame]
      exact hHolds.cells slot s m' hOld

end holds

/-! ## Runs -/

section runs

variable {t : GaugeTier} {h : Int → Text → List ℚ} {m : Text} {index i : Int} {spec : GaugeSpec}

/-- The samples of some entries of a call. -/
def withEntries (h : Int → Text → List ℚ) (index : Int) (es : List (Text × Option ℚ)) :
    Int → Text → List ℚ :=
  es.foldl (fun h e => e.2.elim h fun v => withSample h index e.1 v) h

theorem withEntries_apply {es : List (Text × Option ℚ)} (hNodup : (es.map Prod.fst).Nodup) :
    withEntries h index es i m = h i m ++
      if i = index then ((JsMap.lookupEntries m es).join).toList else [] := by
  induction es generalizing h with
  | nil =>
    rw [JsMap.lookupEntries, Option.join_none, Option.toList_none, ite_self, append_nil]
    rfl
  | cons e es ih =>
    obtain ⟨hNew, hNodup⟩ := nodup_cons.mp hNodup
    have hFold : withEntries h index (e :: es) =
        withEntries (e.2.elim h fun v => withSample h index e.1 v) index es := rfl
    rw [hFold, ih hNodup, JsMap.lookupEntries]
    by_cases hKey : e.1 = m
    · have hNone : JsMap.lookupEntries m es = none := by
        rcases hLookup : JsMap.lookupEntries m es with - | v
        · rfl
        · exact absurd (hKey ▸ lookupEntries_isSome.mp (Option.isSome_of_eq_some hLookup)) hNew
      rw [if_pos hKey, hNone, Option.join_none, Option.toList_none, ite_self, append_nil,
        Option.join_some]
      rcases e.2 with - | v
      · rw [Option.elim_none, Option.toList_none, ite_self, append_nil]
      · rw [Option.elim_some, withSample, Option.toList_some]
        by_cases hi : i = index
        · rw [if_pos ⟨hi, hKey.symm⟩, if_pos hi]
        · rw [if_neg (fun hBoth => hi hBoth.1), if_neg hi, append_nil]
    · rw [if_neg hKey]
      congr 1
      rcases e.2 with - | v
      · rfl
      · rw [Option.elim_some, withSample, if_neg (fun hBoth => hKey hBoth.2.symm)]

theorem gatherEntry_acc (e : Text × Option ℚ) :
    (gatherEntry index t e).acc.index = t.acc.index ∧ (gatherEntry index t e).spec = t.spec := by
  unfold gatherEntry
  split
  · rw [gather_acc]
    exact ⟨rfl, claim_spec.1⟩
  · exact ⟨rfl, rfl⟩

theorem Holds.entries (hHolds : Holds t h) (hIndex : 0 ≤ t.acc.index)
    (es : List (Text × Option ℚ)) :
    Holds (es.foldl (gatherEntry t.acc.index) t) (withEntries h t.acc.index es) ∧
      (es.foldl (gatherEntry t.acc.index) t).acc.index = t.acc.index ∧
      (es.foldl (gatherEntry t.acc.index) t).spec = t.spec := by
  induction es generalizing t h with
  | nil => exact ⟨hHolds, rfl, rfl⟩
  | cons e es ih =>
    obtain ⟨hSame, hSpec⟩ := @gatherEntry_acc t t.acc.index e
    have hStep : Holds (gatherEntry t.acc.index t e)
        (e.2.elim h fun v => withSample h t.acc.index e.1 v) := by
      unfold gatherEntry
      rcases e.2 with - | v
      · exact hHolds
      · exact hHolds.gather hIndex e.1 v
    have hRest := ih hStep (by rw [hSame]; exact hIndex)
    rw [hSame, hSpec] at hRest
    exact hRest

/-- The samples of a metric in a bucket. -/
def samplesIn (spec : GaugeSpec) (calls : List (ℚ × Values)) (i : Int) (m : Text) : List ℚ :=
  calls.filterMap fun c => if spec.indexOf c.1 = i then (c.2.get m).join else none

theorem samplesIn_concat (spec : GaugeSpec) (calls : List (ℚ × Values)) (c : ℚ × Values) :
    samplesIn spec (calls ++ [c]) i m = samplesIn spec calls i m ++
      if i = spec.indexOf c.1 then (c.2.get m).join.toList else [] := by
  rw [samplesIn, filterMap_append]
  congr 1
  by_cases hi : spec.indexOf c.1 = i
  · rw [if_pos hi.symm, filterMap_cons, if_pos hi]
    rcases (c.2.get m).join with - | v
    · rfl
    · rfl
  · rw [if_neg (Ne.symm hi), filterMap_cons, if_neg hi]
    rfl

def runTier (spec : GaugeSpec) (calls : List (ℚ × Values)) : GaugeTier :=
  calls.foldl (fun t c => t.record c.1 c.2) (make spec)

theorem Holds.record (hHolds : Holds t h) {time : ℚ} (hTime : 0 ≤ t.spec.indexOf time)
    (hLater : t.acc.index ≤ t.spec.indexOf time) (values : Values) :
    Holds (t.record time values) (withEntries h (t.spec.indexOf time) values.entries) ∧
      (t.record time values).acc.index = t.spec.indexOf time ∧
      (t.record time values).spec = t.spec := by
  unfold GaugeTier.record
  rw [if_neg (not_lt.mpr hLater)]
  dsimp only
  by_cases hSame : t.spec.indexOf time = t.acc.index
  · rw [if_neg (not_not.mpr hSame), hSame]
    exact hHolds.entries (hSame ▸ hTime) values.entries
  · rw [if_pos hSame]
    have hNew : ∀ m, h (t.spec.indexOf time) m = [] := by
      intro m
      by_contra hNe
      exact hSame (le_antisymm (hHolds.bound _ m hNe).2 hLater)
    have hFresh : Holds { t with acc := { index := t.spec.indexOf time } } h := {
      hHolds with
      shaped := hHolds.shaped.withAcc _
      sums := fun m => by
        dsimp only
        rw [hNew]
        rfl
      counts := fun m => by
        dsimp only
        rw [hNew]
        rfl
      maxs := fun m => by
        dsimp only
        rw [hNew]
        rfl
      bound := fun i m hNe => ⟨(hHolds.bound i m hNe).1, (hHolds.bound i m hNe).2.trans hLater⟩ }
    exact hFresh.entries hTime values.entries

theorem indexOf_mono (spec : GaugeSpec) {time time' : ℚ} (hLe : time ≤ time') :
    spec.indexOf time ≤ spec.indexOf time' :=
  Int.floor_le_floor (div_le_div_of_nonneg_right hLe (Nat.cast_nonneg _))

theorem indexOf_nonneg (spec : GaugeSpec) {time : ℚ} (hTime : 0 ≤ time) : 0 ≤ spec.indexOf time :=
  Int.floor_nonneg.mpr (div_nonneg hTime (Nat.cast_nonneg _))

theorem holds_make (spec : GaugeSpec) (hCapacity : 0 < spec.capacity) :
    Holds (make spec) (samplesIn spec []) where
  shaped := ⟨hCapacity, length_replicate, nofun, nofun⟩
  sums _ := rfl
  counts _ := rfl
  maxs _ := rfl
  bound _ _ hNe := absurd rfl hNe
  newest _ _ _ _ _ hNe := absurd rfl hNe
  own slot s hs hPositive := by
    rw [make, getElem?_replicate] at hs
    split at hs
    · cases hs
      omega
    · cases hs
  cells _ _ _ _ := ⟨rfl, rfl⟩

/-- After a run at non-decreasing times, a ring holds the samples of the run. -/
theorem runTier_holds (spec : GaugeSpec) (hCapacity : 0 < spec.capacity)
    (calls : List (ℚ × Values)) (hTimes : calls.Pairwise fun a b => a.1 ≤ b.1)
    (hPositive : ∀ c ∈ calls, 0 ≤ c.1) :
    Holds (runTier spec calls) (samplesIn spec calls) ∧ (runTier spec calls).spec = spec ∧
      ∀ time, (∀ c ∈ calls, c.1 ≤ time) → 0 ≤ time →
        (runTier spec calls).acc.index ≤ spec.indexOf time := by
  induction calls using List.reverseRecOn with
  | nil =>
    refine ⟨holds_make spec hCapacity, rfl, fun time _ hTime => ?_⟩
    have hIndex := indexOf_nonneg spec hTime
    have hNew : (runTier spec []).acc.index = -1 := rfl
    omega
  | append_singleton calls c ih =>
    obtain ⟨hBefore, -, hLast⟩ := pairwise_append.mp hTimes
    have hc : 0 ≤ c.1 := hPositive c (mem_append_right _ (mem_singleton_self c))
    obtain ⟨hHolds, hSpec, hIndex⟩ := ih hBefore fun c' hc' =>
      hPositive c' (mem_append_left _ hc')
    have hEarlier : ∀ c' ∈ calls, c'.1 ≤ c.1 := fun c' hc' =>
      hLast c' hc' c (mem_singleton_self c)
    have hStep := @Holds.record _ _ hHolds c.1 (by rw [hSpec]; exact indexOf_nonneg spec hc)
      (by rw [hSpec]; exact hIndex c.1 hEarlier hc) c.2
    rw [hSpec] at hStep
    have hRun : runTier spec (calls ++ [c]) = (runTier spec calls).record c.1 c.2 := by
      rw [runTier, foldl_append, foldl_cons, foldl_nil]
      rfl
    have hSamples : withEntries (samplesIn spec calls) (spec.indexOf c.1) c.2.entries =
        samplesIn spec (calls ++ [c]) := by
      funext i m
      rw [withEntries_apply c.2.nodup, samplesIn_concat]
      rfl
    rw [hSamples] at hStep
    rw [hRun]
    refine ⟨hStep.1, hStep.2.2, fun time hAll hTime => ?_⟩
    rw [hStep.2.1]
    exact indexOf_mono spec (hAll c (mem_append_right _ (mem_singleton_self c)))

/-- A bucket whose slot a later bucket has taken. -/
def Overtaken (spec : GaugeSpec) (calls : List (ℚ × Values)) (i : Int) : Prop :=
  ∃ j m, i < j ∧ (spec.capacity : Int) ∣ j - i ∧ samplesIn spec calls j m ≠ []

theorem read_eq (index : Int) (metric : Text) : t.read index metric =
    if index < 0 ∨ t.stamps[t.slotOf index]? ≠ some index then none
    else
      match (t.avg.get metric).bind (·[t.slotOf index]?),
        (t.max.get metric).bind (·[t.slotOf index]?) with
      | some (some avg), some max => some { avg, max }
      | _, _ => none := rfl

/-- What a stamped slot reads. -/
theorem Holds.read_stamped (hHolds : Holds t h) (hPositive : 0 ≤ i)
    (hStamp : t.stamps[t.slotOf i]? = some i) (m : Text) :
    t.read i m = (meanOf (h i m)).map fun avg => { avg, max := (h i m).max? } := by
  have hNot : ¬ (i < 0 ∨ t.stamps[t.slotOf i]? ≠ some i) := by
    rintro (hNeg | hNe)
    · omega
    · exact hNe hStamp
  obtain ⟨hAvg, hMax⟩ := hHolds.cells _ i m hStamp
  rw [read_eq, if_neg hNot]
  rcases hSamples : h i m with - | ⟨v, vs⟩
  · rw [hSamples] at hAvg
    have hNone : cell t.avg m (t.slotOf i) = none := hAvg
    unfold cell at hNone
    rcases hBind : (t.avg.get m).bind (·[t.slotOf i]?) with _ | _ | a
    · rfl
    · rfl
    · rw [hBind] at hNone
      cases hNone
  · rw [hSamples] at hAvg hMax
    have hMean : meanOf (v :: vs) = some ((v :: vs).sum / (v :: vs).length) :=
      if_neg (cons_ne_nil v vs)
    rw [hMean] at hAvg ⊢
    rw [max?_cons'] at hMax ⊢
    unfold cell at hAvg hMax
    rw [Option.join_eq_some_iff] at hAvg hMax
    rw [hAvg, hMax]
    rfl

/-- The metric is read by `reader` as by `read`. -/
theorem Holds.reader_eq (hHolds : Holds t h) (i : Int) (m : Text) : t.reader m i = t.read i m := by
  rw [read_eq]
  unfold reader
  rcases hAvg : t.avg.get m with - | avg
  · dsimp only
    split <;> rfl
  rcases hMax : t.max.get m with - | max
  · dsimp only
    split
    · rfl
    · rcases (some avg).bind (·[t.slotOf i]?) with - | ⟨- | a⟩ <;> rfl
  · dsimp only [Option.bind_some]
    split
    next => rfl
    next hNot =>
      rw [not_or, not_lt] at hNot
      have hLt := slotOf_lt hHolds.shaped.positive hNot.1
      rw [← hHolds.shaped.max m max hMax] at hLt
      rw [getElem?_eq_getElem hLt]
      rcases avg[t.slotOf i]? with - | ⟨- | a⟩ <;> rfl

/-- The stamp of the slot of a bucket that has samples and was not overtaken. -/
theorem Holds.stamped (hHolds : Holds t h) (hSample : h i m ≠ [])
    (hKept : ∀ j m', i < j → t.slotOf j = t.slotOf i → h j m' = []) :
    t.stamps[t.slotOf i]? = some i := by
  obtain ⟨hPositive, -⟩ := hHolds.bound i m hSample
  obtain ⟨s, hs⟩ := hHolds.stamp hPositive
  have hLe := hHolds.newest _ s hs i m hSample rfl
  obtain ⟨hSlot, m', hm'⟩ := hHolds.own _ s hs (hPositive.trans hLe)
  rcases eq_or_lt_of_le hLe with rfl | hLt
  · exact hs
  · exact absurd (hKept s m' hLt hSlot) hm'

theorem Holds.read_none (hHolds : Holds t h)
    (hGone : h i m = [] ∨ ∃ j m', i < j ∧ t.slotOf j = t.slotOf i ∧ h j m' ≠ []) :
    t.read i m = none := by
  by_cases hRead : i < 0 ∨ t.stamps[t.slotOf i]? ≠ some i
  · rw [read_eq, if_pos hRead]
  · rw [not_or, not_lt, not_not] at hRead
    rcases hGone with hEmpty | ⟨j, m', hLt, hSlot, hSample⟩
    · rw [hHolds.read_stamped hRead.1 hRead.2, hEmpty]
      rfl
    · have hLe := hHolds.newest _ i hRead.2 j m' hSample hSlot
      omega

theorem overtaken_iff {calls : List (ℚ × Values)} (hSpec : t.spec = spec)
    (hHolds : Holds t (samplesIn spec calls)) (hPositive : 0 ≤ i) :
    Overtaken spec calls i ↔
      ∃ j m', i < j ∧ t.slotOf j = t.slotOf i ∧ samplesIn spec calls j m' ≠ [] := by
  subst hSpec
  constructor
  · rintro ⟨j, m', hLt, hDvd, hSample⟩
    exact ⟨j, m', hLt, ((slotOf_eq hHolds.shaped.positive hPositive (by omega)).mpr hDvd).symm,
      hSample⟩
  · rintro ⟨j, m', hLt, hSlot, hSample⟩
    exact ⟨j, m', hLt, (slotOf_eq hHolds.shaped.positive hPositive (by omega)).mp hSlot.symm,
      hSample⟩

/-- The last round of the ring, up to the newest bucket with a sample, is not overtaken. -/
theorem not_overtaken {calls : List (ℚ × Values)} {newest : Int}
    (hNewest : ∀ j m, samplesIn spec calls j m ≠ [] → j ≤ newest)
    (hLast : newest - spec.capacity < i) : ¬ Overtaken spec calls i := by
  rintro ⟨j, m', hLt, hDvd, hSample⟩
  have hLe := Int.le_of_dvd (by omega) hDvd
  have hNew := hNewest j m' hSample
  omega

theorem capacity_positive (hSpec : spec ∈ gaugeTiers) : 0 < spec.capacity := by
  revert spec
  decide

theorem run_tiers (calls : List (ℚ × Values)) :
    (run MetricHistory.record MetricHistory.make calls).tiers =
      gaugeTiers.map fun spec => runTier spec calls := by
  induction calls using List.reverseRecOn with
  | nil => rfl
  | append_singleton calls c ih =>
    rw [run_concat, MetricHistory.record, ih, map_map]
    refine map_congr_left fun spec _ => ?_
    rw [runTier, foldl_append]
    rfl

/-- What is read of a tier: the samples of the bucket, until a later one takes its slot. -/
structure Reads (spec : GaugeSpec) (t : GaugeTier) (calls : List (ℚ × Values)) : Prop where
  kept : ∀ i m, samplesIn spec calls i m ≠ [] → ¬ Overtaken spec calls i → ∃ avg max,
    t.read i m = some { avg, max := some max } ∧
      avg = (samplesIn spec calls i m).sum / (samplesIn spec calls i m).length ∧
      (samplesIn spec calls i m).max? = some max
  gone : ∀ i m, samplesIn spec calls i m = [] ∨ Overtaken spec calls i → t.read i m = none
  last : ∀ newest i, (∀ j m, samplesIn spec calls j m ≠ [] → j ≤ newest) →
    newest - spec.capacity < i → ¬ Overtaken spec calls i
  reader : ∀ i m, t.reader m i = t.read i m

theorem reads_runTier (hMem : spec ∈ gaugeTiers) (calls : List (ℚ × Values))
    (hTimes : calls.Pairwise fun a b => a.1 ≤ b.1) (hPositive : ∀ c ∈ calls, 0 ≤ c.1) :
    Reads spec (runTier spec calls) calls := by
  obtain ⟨hHolds, hSpec, -⟩ := runTier_holds spec (capacity_positive hMem) calls hTimes hPositive
  refine ⟨fun i m hSample hKept => ?_, fun i m hGone => ?_, fun newest i => not_overtaken,
    hHolds.reader_eq⟩
  · have hi := (hHolds.bound i m hSample).1
    rw [overtaken_iff hSpec hHolds hi] at hKept
    have hStamp := hHolds.stamped hSample fun j m' hLt hSlot => by
      by_contra hNe
      exact hKept ⟨j, m', hLt, hSlot, hNe⟩
    rw [hHolds.read_stamped hi hStamp, meanOf, if_neg hSample]
    obtain ⟨v, vs, hCons⟩ := exists_cons_of_ne_nil hSample
    exact ⟨_, _, by rw [hCons, max?_cons']; rfl, by rw [hCons], by rw [hCons, max?_cons']⟩
  · by_cases hi : 0 ≤ i
    · rw [overtaken_iff hSpec hHolds hi] at hGone
      exact hHolds.read_none hGone
    · exact if_pos (.inl (not_le.mp hi))

theorem read_samples (calls : List (ℚ × Values)) (hTimes : calls.Pairwise fun a b => a.1 ≤ b.1)
    (hPositive : ∀ c ∈ calls, 0 ≤ c.1) :
    List.Forall₂ (fun spec t => Reads spec t calls) gaugeTiers
      (run MetricHistory.record MetricHistory.make calls).tiers := by
  rw [run_tiers, List.forall₂_map_right_iff, List.forall₂_same]
  exact fun spec hMem => reads_runTier hMem calls hTimes hPositive

end runs

/-! ## A bucket that nothing took the slot of -/

/-- Two samples, more than a round of the ten-second ring apart. -/
def twoSamples : List (ℚ × Values) :=
  [(0, JsMap.empty.set (js "m") (some 1)), (4250000, JsMap.empty.set (js "m") (some 2))]

theorem read_samples_two : List.Forall₂ (fun spec t => Reads spec t twoSamples) gaugeTiers
    (run MetricHistory.record MetricHistory.make twoSamples).tiers :=
  read_samples twoSamples (by simp [twoSamples]) (by simp [twoSamples])

theorem bucket_left : ∃ t, (run MetricHistory.record MetricHistory.make twoSamples).tiers[0]? =
      some t ∧ t.spec.capacity = 420 ∧ t.acc.index = 425 ∧
    samplesIn t.spec twoSamples 425 (js "m") = [2] ∧
    t.read 0 (js "m") = some { avg := 1, max := some 1 } := by
  refine ⟨runTier { id := .raw, stepMs := 10000, capacity := 420 } twoSamples, ?_, ?_, ?_, ?_, ?_⟩
  · rw [run_tiers]
    rfl
  · decide +kernel
  · decide +kernel
  · decide +kernel
  · decide +kernel

end GaugeTier

end TMEdge.Analytics
