import Mathlib

/-!
# Token buckets

A bucket is refilled at a rate up to its capacity, and drawn from by what it holds. A draw is a
time and an amount; a draw of nothing refills the bucket and charges nothing.

* `Draws.level`: the level stays between nothing and the capacity.
* `Draws.interval`: in any interval the draws come to at most the capacity and what flows in.
-/

namespace TMEdge.Library

open List

structure Bucket where
  level : ℚ
  time : ℚ

def Bucket.refill (capacity rate : ℚ) (b : Bucket) (t : ℚ) : ℚ :=
  min capacity (b.level + max 0 (t - b.time) * rate)

/-- The bucket after a draw. -/
def Bucket.draw (capacity rate : ℚ) (b : Bucket) (d : ℚ × ℚ) : Bucket :=
  ⟨b.refill capacity rate d.1 - d.2, d.1⟩

/-- Each draw takes no more than the bucket then holds. -/
def Draws (capacity rate : ℚ) : Bucket → List (ℚ × ℚ) → Prop
  | _, [] => True
  | b, d :: ds => 0 ≤ d.2 ∧ d.2 ≤ b.refill capacity rate d.1 ∧
      Draws capacity rate (b.draw capacity rate d) ds

/-- What is drawn in an interval. -/
def drawnWithin (start stop : ℚ) (ds : List (ℚ × ℚ)) : ℚ :=
  ((ds.filter fun d => start ≤ d.1 ∧ d.1 ≤ stop).map Prod.snd).sum

section

variable {capacity rate start stop : ℚ} {b : Bucket} {d : ℚ × ℚ} {ds : List (ℚ × ℚ)}

theorem drawnWithin_cons (start stop : ℚ) (d : ℚ × ℚ) (ds : List (ℚ × ℚ)) :
    drawnWithin start stop (d :: ds) =
      (if start ≤ d.1 ∧ d.1 ≤ stop then d.2 else 0) + drawnWithin start stop ds := by
  unfold drawnWithin
  rw [filter_cons]
  by_cases h : start ≤ d.1 ∧ d.1 ≤ stop
  · simp [h]
  · simp [h]

theorem drawnWithin_of_late (h : ∀ d ∈ ds, stop < d.1) : drawnWithin start stop ds = 0 := by
  unfold drawnWithin
  rw [filter_eq_nil_iff.mpr]
  · rfl
  · intro d hd
    have hLate := h d hd
    simp only [decide_eq_true_eq, not_and, not_le]
    exact fun _ => hLate

theorem Bucket.refill_le (capacity rate : ℚ) (b : Bucket) (t : ℚ) :
    b.refill capacity rate t ≤ capacity := min_le_left _ _

theorem Bucket.refill_le_add (b : Bucket) {t : ℚ} (h : b.time ≤ t) :
    b.refill capacity rate t ≤ b.level + (t - b.time) * rate := by
  have hMin := min_le_right capacity (b.level + max 0 (t - b.time) * rate)
  rw [max_eq_right (sub_nonneg.mpr h)] at hMin
  unfold Bucket.refill
  rw [max_eq_right (sub_nonneg.mpr h)]
  exact hMin

theorem Bucket.refill_nonneg (hCapacity : 0 ≤ capacity) (hRate : 0 ≤ rate) (h : 0 ≤ b.level)
    (t : ℚ) : 0 ≤ b.refill capacity rate t :=
  le_min hCapacity (add_nonneg h (mul_nonneg (le_max_left _ _) hRate))

/-- The level stays between nothing and the capacity. -/
theorem Bucket.draw_level (hd : 0 ≤ d.2 ∧ d.2 ≤ b.refill capacity rate d.1) :
    0 ≤ (b.draw capacity rate d).level ∧ (b.draw capacity rate d).level ≤ capacity := by
  have hTop := b.refill_le capacity rate d.1
  unfold Bucket.draw
  constructor <;> dsimp only <;> linarith

/-- What is drawn until some time is there already or flows in until then. -/
theorem Draws.until_le (hRate : 0 ≤ rate) (hDraws : Draws capacity rate b ds)
    (hLevel : 0 ≤ b.level) (hTimes : ds.Pairwise fun d d' => d.1 ≤ d'.1)
    (hAfter : ∀ d ∈ ds, b.time ≤ d.1) (hStart : start ≤ b.time) (hStop : b.time ≤ stop) :
    drawnWithin start stop ds ≤ b.level + (stop - b.time) * rate := by
  induction ds generalizing b with
  | nil =>
    have hFlow : 0 ≤ (stop - b.time) * rate := mul_nonneg (sub_nonneg.mpr hStop) hRate
    unfold drawnWithin
    simpa using add_nonneg hLevel hFlow
  | cons d ds ih =>
    obtain ⟨hNonneg, hHolds, hRest⟩ := hDraws
    obtain ⟨hFirst, hTimes⟩ := pairwise_cons.mp hTimes
    have hNow := hAfter d mem_cons_self
    by_cases hIn : d.1 ≤ stop
    · have hLater : drawnWithin start stop ds ≤
          (b.draw capacity rate d).level + (stop - d.1) * rate :=
        ih hRest (Bucket.draw_level ⟨hNonneg, hHolds⟩).1 hTimes hFirst (hStart.trans hNow) hIn
      have hRefill : b.refill capacity rate d.1 ≤ b.level + (d.1 - b.time) * rate :=
        b.refill_le_add hNow
      rw [drawnWithin_cons, if_pos ⟨hStart.trans hNow, hIn⟩]
      calc d.2 + drawnWithin start stop ds
          ≤ d.2 + ((b.refill capacity rate d.1 - d.2) + (stop - d.1) * rate) :=
            add_le_add_right hLater d.2
        _ = b.refill capacity rate d.1 + (stop - d.1) * rate := by ring
        _ ≤ b.level + (d.1 - b.time) * rate + (stop - d.1) * rate :=
            add_le_add_left hRefill _
        _ = b.level + (stop - b.time) * rate := by ring
    · -- this draw is too late, and so are the others
      have hLate : ∀ d' ∈ d :: ds, stop < d'.1 := by
        intro d' hd'
        rcases mem_cons.mp hd' with rfl | hd'
        · exact not_le.mp hIn
        · exact (not_le.mp hIn).trans_le (hFirst d' hd')
      have hFlow : 0 ≤ (stop - b.time) * rate := mul_nonneg (sub_nonneg.mpr hStop) hRate
      rw [drawnWithin_of_late hLate]
      exact add_nonneg hLevel hFlow

/-- In any interval the draws come to at most the capacity and what flows in. -/
theorem Draws.interval (hCapacity : 0 ≤ capacity) (hRate : 0 ≤ rate)
    (hDraws : Draws capacity rate b ds) (hTimes : ds.Pairwise fun d d' => d.1 ≤ d'.1)
    (hInterval : start ≤ stop) : drawnWithin start stop ds ≤ capacity + (stop - start) * rate := by
  have hFlow : 0 ≤ (stop - start) * rate := mul_nonneg (sub_nonneg.mpr hInterval) hRate
  induction ds generalizing b with
  | nil =>
    unfold drawnWithin
    simpa using add_nonneg hCapacity hFlow
  | cons d ds ih =>
    obtain ⟨hNonneg, hHolds, hRest⟩ := hDraws
    obtain ⟨hFirst, hTimes⟩ := pairwise_cons.mp hTimes
    rw [drawnWithin_cons]
    by_cases hIn : start ≤ d.1 ∧ d.1 ≤ stop
    · -- the first draw of the interval finds at most a full bucket
      have hLater : drawnWithin start stop ds ≤
          (b.draw capacity rate d).level + (stop - d.1) * rate :=
        hRest.until_le hRate (Bucket.draw_level ⟨hNonneg, hHolds⟩).1 hTimes hFirst hIn.1 hIn.2
      have hTop := b.refill_le capacity rate d.1
      have hShorter : (stop - d.1) * rate ≤ (stop - start) * rate :=
        mul_le_mul_of_nonneg_right (by linarith [hIn.1]) hRate
      rw [if_pos hIn]
      calc d.2 + drawnWithin start stop ds
          ≤ d.2 + ((b.refill capacity rate d.1 - d.2) + (stop - d.1) * rate) :=
            add_le_add_right hLater d.2
        _ = b.refill capacity rate d.1 + (stop - d.1) * rate := by ring
        _ ≤ capacity + (stop - start) * rate := add_le_add hTop hShorter
    · rw [if_neg hIn, zero_add]
      exact ih hRest hTimes

end

end TMEdge.Library
