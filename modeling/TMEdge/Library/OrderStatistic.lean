import Mathlib

/-!
# Order statistics

Medians and interpolated quantiles of lists of numbers, bounded by counting.

* `median_le`: a value that more than half of the list does not exceed is not exceeded by the median.
* `quantileSorted_le`: the same of a quantile, whose value comes from two neighbours of the sorted list.
-/

namespace TMEdge.Library

open List

variable {α : Type*} [LinearOrder α] {a : List α} {x : α} {j : Nat}

/-- The elements of a sorted list that do not exceed `x` come first. -/
theorem getD_le_of_countP (hSorted : a.Pairwise (· ≤ ·)) (hj : j < a.countP (· ≤ x)) (d : α) :
    a.getD j d ≤ x := by
  have hLength : j < a.length := hj.trans_le countP_le_length
  rw [getD_eq_getElem _ _ hLength]
  by_contra hNot
  have hRest : (a.drop j).countP (· ≤ x) = 0 := by
    refine countP_eq_zero.mpr fun y hy => ?_
    obtain ⟨i, hi, rfl⟩ := getElem_of_mem hy
    rw [getElem_drop]
    have hBound : j + i < a.length := by rw [length_drop] at hi; omega
    have hLe : a[j] ≤ a[j + i] := by
      rcases Nat.eq_zero_or_pos i with rfl | hPos
      · exact le_refl _
      · exact pairwise_iff_getElem.mp hSorted j (j + i) hLength _ (by omega)
    simpa using (not_le.mp hNot).trans_le hLe
  have hSplit : a.countP (· ≤ x) = (a.take j).countP (· ≤ x) + (a.drop j).countP (· ≤ x) := by
    rw [← countP_append, take_append_drop]
  have hTake : (a.take j).countP (· ≤ x) ≤ j :=
    countP_le_length.trans (length_take_le j a)
  omega

/-- The list in ascending order. -/
def ascending (l : List α) : List α := l.mergeSort fun a b => decide (a ≤ b)

theorem ascending_sorted (l : List α) : (ascending l).Pairwise (· ≤ ·) := by
  have hSorted := @pairwise_mergeSort α (fun a b => decide (a ≤ b))
    (fun a b c hab hbc => decide_eq_true
      ((of_decide_eq_true hab).trans (of_decide_eq_true hbc)))
    (fun a b => by simpa using le_total a b) l
  exact hSorted.imp fun h => of_decide_eq_true h

theorem length_ascending (l : List α) : (ascending l).length = l.length := length_mergeSort l

theorem countP_ascending (l : List α) (p : α → Bool) : (ascending l).countP p = l.countP p :=
  (mergeSort_perm l _).countP_eq p

theorem mem_ascending {l : List α} : x ∈ ascending l ↔ x ∈ l := mem_mergeSort

/-- The middle of the list, or the mean of the two in the middle. -/
def median (values : List ℚ) : ℚ :=
  let a := ascending values
  let n := a.length
  if n = 0 then 0
  else
    let mid := n / 2
    if n % 2 = 1 then a.getD mid 0 else (a.getD (mid - 1) 0 + a.getD mid 0) / 2

theorem median_le {values : List ℚ} {x : ℚ} (h : values.length < 2 * values.countP (· ≤ x)) :
    median values ≤ x := by
  have hSorted := ascending_sorted values
  have hCount := countP_ascending values (· ≤ x)
  have hLength := length_ascending values
  have hLe := @countP_le_length _ (fun y => decide (y ≤ x)) values
  unfold median
  dsimp only
  rw [if_neg (by omega), hLength]
  split
  · exact getD_le_of_countP hSorted (by omega) 0
  · have hLow := getD_le_of_countP (j := values.length / 2 - 1) hSorted (x := x) (by omega) 0
    have hHigh := getD_le_of_countP (j := values.length / 2) hSorted (x := x) (by omega) 0
    linarith

theorem le_median {values : List ℚ} {x : ℚ} (hSome : values ≠ []) (h : ∀ v ∈ values, x ≤ v) :
    x ≤ median values := by
  have hPos := length_pos_iff.mpr hSome
  have hLength := length_ascending values
  have hGet : ∀ j < values.length, x ≤ (ascending values).getD j 0 := by
    intro j hj
    rw [getD_eq_getElem _ _ (hLength ▸ hj)]
    exact h _ (mem_ascending.mp (getElem_mem _))
  unfold median
  dsimp only
  rw [if_neg (by omega), hLength]
  split
  · exact hGet _ (by omega)
  · have hLow := hGet (values.length / 2 - 1) (by omega)
    have hHigh := hGet (values.length / 2) (by omega)
    linarith

/-- The quantile of an ascending list, between the two neighbours of its place. -/
def quantileSorted (a : List ℚ) (q : ℚ) : ℚ :=
  if a.length = 0 then 0
  else
    let pos := q * ((a.length : ℚ) - 1)
    let lo := ⌊pos⌋.toNat
    let hi := min (a.length - 1) (lo + 1)
    a.getD lo 0 + (a.getD hi 0 - a.getD lo 0) * (pos - lo)

theorem quantileSorted_le {a : List ℚ} {q x : ℚ} (hSorted : a.Pairwise (· ≤ ·)) (hq : 0 < q)
    (hq' : q < 1) (h : ⌊q * ((a.length : ℚ) - 1)⌋ + 2 ≤ (a.countP (· ≤ x) : Int)) :
    quantileSorted a q ≤ x := by
  have hLe := @countP_le_length _ (fun y => decide (y ≤ x)) a
  unfold quantileSorted
  split
  · rename_i hEmpty
    have hFloor : -1 ≤ ⌊q * ((a.length : ℚ) - 1)⌋ := by
      refine Int.le_floor.mpr ?_
      rw [hEmpty]
      push_cast
      linarith
    omega
  · rename_i hNonempty
    have hLength : (1 : ℚ) ≤ a.length := by exact_mod_cast Nat.pos_of_ne_zero hNonempty
    have hPos : 0 ≤ q * ((a.length : ℚ) - 1) := mul_nonneg hq.le (by linarith)
    have hFloor := Int.floor_nonneg.mpr hPos
    have hBelow := Int.floor_le (q * ((a.length : ℚ) - 1))
    have hAbove := Int.lt_floor_add_one (q * ((a.length : ℚ) - 1))
    obtain ⟨lo, hLo⟩ := Int.eq_ofNat_of_zero_le hFloor
    dsimp only
    rw [hLo] at h hBelow hAbove ⊢
    rw [Int.toNat_natCast, Nat.min_eq_right (by omega)]
    have hLow := getD_le_of_countP hSorted (x := x) (j := lo) (by omega) 0
    have hHigh := getD_le_of_countP hSorted (x := x) (j := lo + 1) (by omega) 0
    push_cast at hBelow hAbove
    -- the value is between the two neighbours
    nlinarith

end TMEdge.Library
