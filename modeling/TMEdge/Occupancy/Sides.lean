import TMEdge.Occupancy.Groups

/-!
# A group on one side

`findGroup` prefers a group on one side of the table. A search from a seat goes out to both sides of
it, the lower number first (`front`), and turns to the opposite side as soon as the seats of its own
that wait are used up.

* `oneSided_iff`: when a search stays on its side.
* `exists_clear_iff`: the same in terms of a run of free seats (`Kept`).
* `findGroup_side_iff`: a group for which a side has room is kept on one side exactly when there is
  such a run.
-/

namespace TMEdge.Occupancy

open Library List

/-! ## Along a side -/

section line

variable {f g : Int → Bool} {a b a' b' m : Nat}

/-- The seat at a place, if it is free. -/
def freeAt (f : Int → Bool) (j : Int) : List Int := if f j then [j] else []

/-- The seats of the side that wait when `a` to the left and `b` to the right have been taken. -/
def front (f : Int → Bool) (a b : Nat) : List Int :=
  if a ≤ b then freeAt f (-a - 1) ++ freeAt f (b + 1) else freeAt f (b + 1) ++ freeAt f (-a - 1)

/-- The seat taken last. -/
def last (a b : Nat) : Int := if b < a then -a else b

/-- One direction gets ahead only where the other one is blocked. -/
def Balanced (f : Int → Bool) (a b : Nat) : Prop :=
  (a < b → f (-a - 1) = false) ∧ (b + 1 < a → f (b + 1) = false)

/-- The seats that are taken before the neighbour of the last one is. -/
def Early (a b : Nat) (j : Int) : Prop :=
  b < a ∧ 2 - a ≤ j ∧ j ≤ b ∧ j ≤ a - 2 ∨ a ≤ b ∧ -a ≤ j ∧ 1 - b ≤ j ∧ j ≤ b - 2

/-- From `a` and `b`, `m` more seats of the side are taken, up to `a'` and `b'`. -/
structure Extends (f g : Int → Bool) (a b m a' b' : Nat) : Prop where
  low : a ≤ a'
  high : b ≤ b'
  count : a' + b' = a + b + m
  balanced : Balanced f a' b'
  free : ∀ j : Int, -a' ≤ j → j ≤ b' → f j = true
  unopposed : ∀ j : Int, j < -a ∨ b < j ∨ j = last a b → Early a' b' j → g j = false

def Clear (f g : Int → Bool) (a b m : Nat) : Prop := ∃ a' b' : Nat, Extends f g a b m a' b'

theorem length_front : (front f a b).length =
    (if f (-a - 1) then 1 else 0) + if f (b + 1) then 1 else 0 := by
  unfold front freeAt
  split <;> split <;> split <;> rfl

/-- Only one direction is ever ahead. -/
theorem le_of_left (hBal : Balanced f a b) (hf : f (-a - 1) = true) : b ≤ a := by
  by_contra hNot
  rw [hBal.1 (by omega)] at hf
  cases hf

theorem le_of_right (hBal : Balanced f a b) (hf : f (b + 1) = true) : a ≤ b + 1 := by
  by_contra hNot
  rw [hBal.2 (by omega)] at hf
  cases hf

theorem last_left (hBal : Balanced f a b) (hf : f (-a - 1) = true) : last (a + 1) b = -a - 1 := by
  rw [last, if_pos (Nat.lt_succ_of_le (le_of_left hBal hf))]
  push_cast
  ring

theorem last_right (hBal : Balanced f a b) (hf : f (b + 1) = true) : last a (b + 1) = b + 1 := by
  rw [last, if_neg (not_lt.mpr (le_of_right hBal hf))]
  push_cast
  rfl

theorem balanced_left (hBal : Balanced f a b) (hf : f (-a - 1) = true)
    (hOrder : a ≤ b ∨ f (b + 1) = false) : Balanced f (a + 1) b := by
  have hab := le_of_left hBal hf
  exact ⟨fun hLt => by omega, fun hLt => hOrder.resolve_left (by omega)⟩

theorem balanced_right (hBal : Balanced f a b) (hf : f (b + 1) = true)
    (hOrder : b < a ∨ f (-a - 1) = false) : Balanced f a (b + 1) := by
  have hab := le_of_right hBal hf
  exact ⟨fun hLt => hOrder.resolve_left (by omega), fun hLt => by omega⟩

theorem front_left (hBal : Balanced f a b) (hf : f (-a - 1) = true)
    (hOrder : a ≤ b ∨ f (b + 1) = false) : front f a b = (-(a : Int) - 1) :: freeAt f (b + 1) ∧
      freeAt f (b + 1) ++ freeAt f (-(a + 1 : Nat) - 1) = front f (a + 1) b := by
  have hab := le_of_left hBal hf
  constructor
  · rcases hOrder with hOrder | hOrder
    · simp [front, hOrder, freeAt, hf]
    · simp [front, freeAt, hf, hOrder]
  · rw [front, if_neg (by omega)]

theorem front_right (hBal : Balanced f a b) (hf : f (b + 1) = true)
    (hOrder : b < a ∨ f (-a - 1) = false) : front f a b = ((b : Int) + 1) :: freeAt f (-a - 1) ∧
      freeAt f (-a - 1) ++ freeAt f ((b + 1 : Nat) + 1) = front f a (b + 1) := by
  have hab := le_of_right hBal hf
  constructor
  · rcases hOrder with hOrder | hOrder
    · simp [front, not_le.mpr hOrder, freeAt, hf]
    · simp [front, freeAt, hf, hOrder]
  · rw [front, if_pos hab]

theorem Extends.further (h : Extends f g a b (m + 1) a' b') :
    (f (-a - 1) = true → (a ≤ b ∨ f (b + 1) = false) → a + 1 ≤ a') ∧
      (f (b + 1) = true → (b < a ∨ f (-a - 1) = false) → b + 1 ≤ b') := by
  have hLow := h.low
  have hHigh := h.high
  have hCount := h.count
  refine ⟨fun hf hOrder => ?_, fun hf hOrder => ?_⟩
  · by_contra hNot
    obtain rfl : a' = a := by omega
    rcases hOrder with hOrder | hOrder
    · rw [h.balanced.1 (by omega)] at hf
      cases hf
    · rw [h.free _ (by omega) (by omega)] at hOrder
      cases hOrder
  · by_contra hNot
    obtain rfl : b' = b := by omega
    rcases hOrder with hOrder | hOrder
    · rw [h.balanced.2 (by omega)] at hf
      cases hf
    · rw [h.free _ (by omega) (by omega)] at hOrder
      cases hOrder

/-- A seat to the left is taken. -/
theorem clear_left (hBal : Balanced f a b) (hf : f (-a - 1) = true)
    (hOrder : a ≤ b ∨ f (b + 1) = false) (hg : g (last a b) = false) :
    Clear f g a b (m + 1) ↔ Clear f g (a + 1) b m := by
  have hLast := last_left hBal hf
  refine exists_congr fun a' => exists_congr fun b' => ⟨fun h => ?_, fun h => ?_⟩
  · have hLow := h.further.1 hf hOrder
    have hCount := h.count
    exact ⟨hLow, h.high, by omega, h.balanced, h.free, fun j hj =>
      h.unopposed j (by push_cast at hj; omega)⟩
  · have hLow := h.low
    have hCount := h.count
    refine ⟨by omega, h.high, by omega, h.balanced, h.free, fun j hj hEarly => ?_⟩
    by_cases hHere : j = last a b
    · exact hHere ▸ hg
    · exact h.unopposed j (by push_cast; omega) hEarly

theorem clear_right (hBal : Balanced f a b) (hf : f (b + 1) = true)
    (hOrder : b < a ∨ f (-a - 1) = false) (hg : g (last a b) = false) :
    Clear f g a b (m + 1) ↔ Clear f g a (b + 1) m := by
  have hLast := last_right hBal hf
  refine exists_congr fun a' => exists_congr fun b' => ⟨fun h => ?_, fun h => ?_⟩
  · have hHigh := h.further.2 hf hOrder
    have hCount := h.count
    exact ⟨h.low, hHigh, by omega, h.balanced, h.free, fun j hj =>
      h.unopposed j (by push_cast at hj; omega)⟩
  · have hHigh := h.high
    have hCount := h.count
    refine ⟨h.low, by omega, by omega, h.balanced, h.free, fun j hj hEarly => ?_⟩
    by_cases hHere : j = last a b
    · exact hHere ▸ hg
    · exact h.unopposed j (by push_cast; omega) hEarly

theorem not_clear (hL : f (-a - 1) = false) (hR : f (b + 1) = false) : ¬ Clear f g a b (m + 1) := by
  rintro ⟨a', b', h⟩
  have hLow := h.low
  have hHigh := h.high
  have hCount := h.count
  by_cases hMore : a < a'
  · rw [h.free _ (by omega) (by omega)] at hL
    cases hL
  · rw [h.free _ (by omega) (by omega)] at hR
    cases hR

/-- The seats that wait are taken, whatever is opposite. -/
theorem clear_of_le (hBal : Balanced f a b) (hFree : ∀ j : Int, -a ≤ j → j ≤ b → f j = true)
    (h : m ≤ (front f a b).length) : Clear f g a b m := by
  rw [length_front] at h
  have hClear : ∀ a' b' : Nat, a ≤ a' ∧ a' ≤ a + 1 → b ≤ b' ∧ b' ≤ b + 1 → a' + b' = a + b + m →
      (a < a' → f (-a - 1) = true) → (b < b' → f (b + 1) = true) → Balanced f a' b' →
        Clear f g a b m := by
    intro a' b' ha hb hCount hL hR hBal'
    have hLeft : a < a' → b ≤ a := fun hMore => le_of_left hBal (hL hMore)
    have hRight : b < b' → a ≤ b + 1 := fun hMore => le_of_right hBal (hR hMore)
    refine ⟨a', b', ha.1, hb.1, hCount, hBal', fun j hj hj' => ?_, fun j hj hEarly => ?_⟩
    · obtain hj | hj | hj : j = -a - 1 ∨ j = b + 1 ∨ -a ≤ j ∧ j ≤ b := by omega
      · exact hj ▸ hL (by omega)
      · exact hj ▸ hR (by omega)
      · exact hFree j hj.1 hj.2
    · unfold Early at hEarly
      unfold last at hj
      split at hj <;> omega
  unfold Balanced at hBal hClear
  obtain rfl | rfl | rfl : m = 0 ∨ m = 1 ∨ m = 2 := by split at h <;> split at h <;> omega
  · exact hClear a b (by omega) (by omega) rfl (by omega) (by omega) hBal
  · by_cases hL : f (-a - 1) = true ∧ (a ≤ b ∨ f (b + 1) = false)
    · exact hClear (a + 1) b (by omega) (by omega) (by omega) (fun _ => hL.1) (by omega) (by grind)
    · exact hClear a (b + 1) (by omega) (by omega) (by omega) (by omega) (by grind) (by grind)
  · exact hClear (a + 1) (b + 1) (by omega) (by omega) (by omega) (by grind) (by grind) (by grind)

/-- Where the last one taken is opposite a free seat, no more than those that wait are taken. -/
theorem Extends.le_front (h : Extends f g a b m a' b') (hBal : Balanced f a b)
    (hg : g (last a b) = true) : m ≤ (front f a b).length := by
  have hLow := h.low
  have hHigh := h.high
  have hCount := h.count
  have hLate : ¬ Early a' b' (last a b) := fun hEarly => by
    rw [h.unopposed _ (by omega) hEarly] at hg
    cases hg
  have hL := h.free (-a - 1)
  have hR := h.free (b + 1)
  have hBal' := h.balanced
  unfold Balanced at hBal hBal'
  unfold Early last at hLate
  rw [length_front]
  grind

end line

/-! ## A search over places -/

/-- A side and a number along it. -/
abbrev Place := SeatSide × Int

def SeatSide.across : SeatSide → SeatSide
  | .L => .R
  | .R => .L
  | .T => .B
  | .B => .T

/-- The free places beside one that have not been seen. -/
def nextPlaces (free : Place → Bool) (seen : List Place) (p : Place) : List Place :=
  (([(p.1, p.2 - 1), (p.1, p.2 + 1), (p.1.across, p.2)] : List Place).filter free).filter
    fun q => q ∉ seen

section walk

variable {free : Place → Bool} {s : SeatSide} {i : Int} {seen queue : List Place} {a b m : Nat}

/-- Places along a side, counted from a seat. -/
def along (s : SeatSide) (i : Int) (js : List Int) : List Place := js.map fun j => (s, i + j)

/-- A search that takes `m` places, all on one side. -/
def OneSided (free : Place → Bool) (s : SeatSide) (m : Nat) (seen queue : List Place) : Prop :=
  (breadthFirst id (nextPlaces free) m seen queue).length = m ∧
    ∀ p ∈ breadthFirst id (nextPlaces free) m seen queue, p.1 = s

/-- What has been seen when `a` to the left and `b` to the right have been taken, and no free seat
was opposite: these and those that wait. -/
def Walked (free : Place → Bool) (s : SeatSide) (i : Int) (seen : List Place) (a b : Nat) : Prop :=
  ∀ q, free q = true → (q ∈ seen ↔ q.1 = s ∧ i - a - 1 ≤ q.2 ∧ q.2 ≤ i + b + 1)

theorem across_ne (s : SeatSide) : s.across ≠ s := by
  cases s <;> decide

theorem oneSided_cons (j : Int) : OneSided free s (m + 1) seen ((s, j) :: queue) ↔
    OneSided free s m (seen ++ nextPlaces free seen (s, j))
      (queue ++ nextPlaces free seen (s, j)) := by
  rw [OneSided, OneSided, breadthFirst, map_id, length_cons, forall_mem_cons,
    Nat.add_right_cancel_iff]
  exact and_congr_right fun _ => and_iff_right rfl

/-- Once the opposite side has come on the queue, what waits before it is all that is taken. -/
theorem oneSided_opposed {l : List Place} {p : Place} (hl : ∀ q ∈ l, q.1 = s) (hp : p.1 ≠ s) :
    OneSided free s m seen (l ++ [p]) ↔ m ≤ l.length := by
  constructor
  · rintro ⟨-, hSide⟩
    by_contra hMore
    have hTake := take_prefix_breadthFirst id (nextPlaces free) m seen (l ++ [p])
    rw [take_of_length_le (by simp; omega)] at hTake
    exact hp (hSide p (hTake.subset (by simp)))
  · intro hLe
    have hAll : breadthFirst id (nextPlaces free) m seen (l ++ [p]) = l.take m := by
      rw [breadthFirst_eq_take (by simp; omega), take_append_of_le_length hLe]
    refine ⟨by rw [hAll, length_take_of_le hLe], fun q hq => ?_⟩
    exact hl q (mem_of_mem_take (hAll ▸ hq))

theorem along_freeAt (j : Int) :
    along s i (freeAt (fun j => free (s, i + j)) j) = [(s, i + j)].filter free := by
  by_cases hFree : free (s, i + j) = true
  · simp [along, freeAt, hFree]
  · simp [along, freeAt, hFree]

theorem filter_fresh {x y z : Place} (hx : free x = true → x ∉ seen)
    (hy : free y = true → y ∈ seen) (hz : free z = true → z ∉ seen) :
    ([x, y, z].filter free).filter (fun q => q ∉ seen) = [x].filter free ++ [z].filter free ∧
      ([y, x, z].filter free).filter (fun q => q ∉ seen) = [x].filter free ++ [z].filter free := by
  by_cases h1 : free x = true <;> by_cases h2 : free y = true <;> by_cases h3 : free z = true <;>
    simp [h1, h2, h3, hx, hy, hz]

/-- Next to a seat that waits to the left. -/
theorem nextPlaces_left (h : Walked free s i seen a b) :
    nextPlaces free seen (s, i + (-a - 1)) =
      along s i (freeAt (fun j => free (s, i + j)) (-(a + 1 : Nat) - 1)) ++
        along s.across i (freeAt (fun j => free (s.across, i + j)) (-a - 1)) := by
  have hNext : (i + (-a - 1) - 1 : Int) = i + (-(a + 1 : Nat) - 1) := by push_cast; ring
  rw [along_freeAt, along_freeAt, ← hNext]
  refine (filter_fresh (fun hf => ?_) (fun hf => ?_) fun hf => ?_).1
  · rw [h _ hf]
    omega
  · rw [h _ hf]
    exact ⟨rfl, by omega, by omega⟩
  · rw [h _ hf]
    exact fun hq => across_ne s hq.1

theorem nextPlaces_right (h : Walked free s i seen a b) :
    nextPlaces free seen (s, i + (b + 1)) =
      along s i (freeAt (fun j => free (s, i + j)) ((b + 1 : Nat) + 1)) ++
        along s.across i (freeAt (fun j => free (s.across, i + j)) (b + 1)) := by
  have hNext : (i + (b + 1) + 1 : Int) = i + ((b + 1 : Nat) + 1) := by push_cast; ring
  rw [along_freeAt, along_freeAt, ← hNext]
  refine (filter_fresh (fun hf => ?_) (fun hf => ?_) fun hf => ?_).2
  · rw [h _ hf]
    omega
  · rw [h _ hf]
    exact ⟨rfl, by omega, by omega⟩
  · rw [h _ hf]
    exact fun hq => across_ne s hq.1

theorem walked_left (h : Walked free s i seen a b)
    (hOpposite : free (s.across, i + (-a - 1)) = false) :
    Walked free s i (seen ++ nextPlaces free seen (s, i + (-a - 1))) (a + 1) b := by
  intro q hq
  rw [mem_append, h q hq, nextPlaces_left h, along_freeAt, along_freeAt]
  simp only [mem_append, mem_filter, mem_singleton, hq, and_true]
  have hNot : q ≠ (s.across, i + (-a - 1)) := by
    rintro rfl
    rw [hOpposite] at hq
    cases hq
  by_cases hSide : q.1 = s
  · simp only [hNot, or_false, Prod.ext_iff, hSide, true_and]
    push_cast
    omega
  · simp only [hNot, or_false, Prod.ext_iff, hSide, false_and]

theorem walked_right (h : Walked free s i seen a b)
    (hOpposite : free (s.across, i + (b + 1)) = false) :
    Walked free s i (seen ++ nextPlaces free seen (s, i + (b + 1))) a (b + 1) := by
  intro q hq
  rw [mem_append, h q hq, nextPlaces_right h, along_freeAt, along_freeAt]
  simp only [mem_append, mem_filter, mem_singleton, hq, and_true]
  have hNot : q ≠ (s.across, i + (b + 1)) := by
    rintro rfl
    rw [hOpposite] at hq
    cases hq
  by_cases hSide : q.1 = s
  · simp only [hNot, or_false, Prod.ext_iff, hSide, true_and]
    push_cast
    omega
  · simp only [hNot, or_false, Prod.ext_iff, hSide, false_and]

@[simp] theorem along_nil : along s i [] = [] := rfl

@[simp] theorem along_cons (j : Int) (js : List Int) :
    along s i (j :: js) = (s, i + j) :: along s i js := rfl

theorem along_append (js ks : List Int) : along s i (js ++ ks) = along s i js ++ along s i ks :=
  map_append

/-- When a search goes on along its side, from where the last seat has been taken. -/
theorem oneSided_iff (hBal : Balanced (fun j => free (s, i + j)) a b)
    (hFree : ∀ j : Int, -a ≤ j → j ≤ b → free (s, i + j) = true)
    (hWalked : free (s.across, i + last a b) = false → Walked free s i seen a b) :
    OneSided free s m seen (along s i (front (fun j => free (s, i + j)) a b) ++
        along s.across i (freeAt (fun j => free (s.across, i + j)) (last a b))) ↔
      Clear (fun j => free (s, i + j)) (fun j => free (s.across, i + j)) a b m := by
  induction m generalizing seen a b with
  | zero => exact iff_of_true ⟨rfl, nofun⟩ (clear_of_le hBal hFree (Nat.zero_le _))
  | succ m ih =>
    generalize hf : (fun j => free (s, i + j)) = f at hBal ih ⊢
    generalize hg : (fun j => free (s.across, i + j)) = g at ih ⊢
    have hfAt : ∀ j, free (s, i + j) = f j := fun j => congrFun hf j
    have hgAt : ∀ j, free (s.across, i + j) = g j := fun j => congrFun hg j
    rw [hgAt] at hWalked
    rcases hOpposite : g (last a b) with - | -
    · have hWalk := hWalked hOpposite
      have hNone : freeAt g (last a b) = [] := by rw [freeAt, if_neg (by simp [hOpposite])]
      rw [hNone, along_nil, append_nil]
      by_cases hL : f (-a - 1) = true ∧ (a ≤ b ∨ f (b + 1) = false)
      · -- the seat to the left is next
        obtain ⟨hFront, hNext⟩ := front_left hBal hL.1 hL.2
        have hQueue : along s i (freeAt f (b + 1)) ++ nextPlaces free seen (s, i + (-a - 1)) =
            along s i (front f (a + 1) b) ++ along s.across i (freeAt g (last (a + 1) b)) := by
          rw [nextPlaces_left hWalk, hf, hg, ← append_assoc, ← along_append, hNext,
            last_left hBal hL.1]
        rw [hFront, along_cons, oneSided_cons, clear_left hBal hL.1 hL.2 hOpposite, hQueue]
        refine ih (balanced_left hBal hL.1 hL.2) (fun j hLow hHigh => ?_) fun hFree => ?_
        · by_cases hHere : j = -a - 1
          · rw [hHere, hfAt, hL.1]
          · exact hFree j (by push_cast at hLow; omega) hHigh
        · rw [last_left hBal hL.1] at hFree
          exact walked_left hWalk hFree
      by_cases hR : f (b + 1) = true ∧ (b < a ∨ f (-a - 1) = false)
      · -- the seat to the right is next
        obtain ⟨hFront, hNext⟩ := front_right hBal hR.1 hR.2
        have hQueue : along s i (freeAt f (-a - 1)) ++ nextPlaces free seen (s, i + (b + 1)) =
            along s i (front f a (b + 1)) ++ along s.across i (freeAt g (last a (b + 1))) := by
          rw [nextPlaces_right hWalk, hf, hg, ← append_assoc, ← along_append, hNext,
            last_right hBal hR.1]
        rw [hFront, along_cons, oneSided_cons, clear_right hBal hR.1 hR.2 hOpposite, hQueue]
        refine ih (balanced_right hBal hR.1 hR.2) (fun j hLow hHigh => ?_) fun hFree => ?_
        · by_cases hHere : j = b + 1
          · rw [hHere, hfAt, hR.1]
          · exact hFree j hLow (by push_cast at hHigh; omega)
        · rw [last_right hBal hR.1] at hFree
          exact walked_right hWalk hFree
      · -- both ends are blocked
        have hBlocked : f (-a - 1) = false ∧ f (b + 1) = false := by grind
        have hEmpty : front f a b = [] := by simp [front, freeAt, hBlocked]
        rw [hEmpty, along_nil]
        refine iff_of_false (fun h => ?_) (not_clear hBlocked.1 hBlocked.2)
        have hLength := h.1
        rw [breadthFirst_nil] at hLength
        cases hLength
    · -- the opposite seat is free
      have hOne : freeAt g (last a b) = [last a b] := by rw [freeAt, if_pos hOpposite]
      rw [hOne, along_cons, along_nil, oneSided_opposed _ (across_ne s), along, length_map]
      · exact ⟨clear_of_le hBal fun j hLow hHigh => (hfAt j).symm.trans (hFree j hLow hHigh),
          fun ⟨_, _, h⟩ => h.le_front hBal hOpposite⟩
      · intro q hq
        obtain ⟨j, -, rfl⟩ := mem_map.mp hq
        rfl

theorem nextPlaces_start : nextPlaces free [(s, i)] (s, i) =
    along s i (front (fun j => free (s, i + j)) 0 0) ++
      along s.across i (freeAt (fun j => free (s.across, i + j)) (last 0 0)) := by
  have hUnseen : ∀ q ∈ ([(s, i - 1), (s, i + 1), (s.across, i)] : List Place).filter free,
      q ∉ [(s, i)] := by
    intro q hq
    have hMem := (mem_filter.mp hq).1
    simp only [mem_cons, not_mem_nil, or_false] at hMem
    rw [mem_singleton]
    rcases hMem with rfl | rfl | rfl
    · simp
    · simp
    · simp [across_ne]
  have hLast : last 0 0 = 0 := rfl
  rw [nextPlaces, filter_eq_self.mpr fun q hq => decide_eq_true (hUnseen q hq), front,
    if_pos le_rfl, along_append, along_freeAt, along_freeAt, along_freeAt, ← filter_append,
    ← filter_append, hLast]
  simp [sub_eq_add_neg]

/-- A whole search, from a free seat. -/
theorem oneSided_start (hStart : free (s, i) = true) :
    OneSided free s (m + 1) [(s, i)] [(s, i)] ↔
      Clear (fun j => free (s, i + j)) (fun j => free (s.across, i + j)) 0 0 m := by
  rw [oneSided_cons, nil_append, nextPlaces_start]
  refine oneSided_iff ⟨fun hLt => absurd hLt (lt_irrefl 0), fun hLt => absurd hLt (by omega)⟩
    (fun j hLow hHigh => ?_) fun hOpposite q hq => ?_
  · obtain rfl : j = 0 := by push_cast at hLow hHigh; omega
    rwa [add_zero]
  · have hNone : freeAt (fun j => free (s.across, i + j)) (last 0 0) = [] := by
      rw [freeAt, if_neg (by simp [hOpposite])]
    rw [hNone, along_nil, append_nil, front, if_pos le_rfl, along_append, along_freeAt,
      along_freeAt]
    simp only [mem_append, mem_filter, mem_singleton, hq, and_true, Prod.ext_iff]
    by_cases hSide : q.1 = s
    · simp only [hSide, true_and]
      push_cast
      omega
    · simp only [hSide, false_and, or_self]

end walk

/-! ## Runs of free seats -/

section kept

variable {F G : Int → Bool} {n m : Nat} {lo : Int}

def Run (F : Int → Bool) (n : Nat) (lo : Int) : Prop := ∀ j, lo ≤ j → j < lo + n → F j = true

/-- A run of `n` free seats that has no free seat opposite but for at most three at its ends: the
first and the last two where `n` is odd, the first two and the last one where it is even. Or, where
there is no free seat after it (`n` odd) or before it (`n` even), the two at the other end. -/
def Kept (F G : Int → Bool) (n : Nat) (lo : Int) : Prop :=
  Run F n lo ∧
    if n % 2 = 1 then
      (∀ j, lo < j → j < lo + n - 2 → G j = false) ∨
        F (lo + n) = false ∧ ∀ j, lo + 1 < j → j < lo + n → G j = false
    else
      (∀ j, lo + 1 < j → j < lo + n - 1 → G j = false) ∨
        F (lo - 1) = false ∧ ∀ j, lo ≤ j → j < lo + n - 2 → G j = false

theorem exists_clear_iff : (∃ i, F i = true ∧
    Clear (fun j => F (i + j)) (fun j => G (i + j)) 0 0 m) ↔ ∃ lo, Kept F G (m + 1) lo := by
  constructor
  · rintro ⟨i, -, a, b, h⟩
    have hCount := h.count
    have hRun : Run F (m + 1) (i - a) := fun j hLow hHigh => by
      have hFree := h.free (j - i) (by omega) (by push_cast at hHigh; omega)
      rwa [add_sub_cancel] at hFree
    have hApart : ∀ j, Early a b (j - i) → G j = false := fun j hEarly => by
      have hNone := h.unopposed (j - i) (by simp [last]; omega) hEarly
      rwa [add_sub_cancel] at hNone
    unfold Early at hApart
    have hBal := h.balanced
    refine ⟨i - a, hRun, ?_⟩
    split
    next hOdd =>
      by_cases hab : a ≤ b
      · exact .inl fun j hLow hHigh => hApart j (by push_cast at hHigh; omega)
      · refine .inr ⟨?_, fun j hLow hHigh => hApart j (by push_cast at hHigh; omega)⟩
        have hBlocked := hBal.2 (by omega)
        rw [← hBlocked]
        exact congrArg F (by push_cast; omega)
    next hEven =>
      by_cases hab : b < a
      · exact .inl fun j hLow hHigh => hApart j (by push_cast at hHigh; omega)
      · refine .inr ⟨?_, fun j hLow hHigh => hApart j (by push_cast at hHigh; omega)⟩
        have hBlocked := hBal.1 (by omega)
        rw [← hBlocked]
        exact congrArg F (by omega)
  · rintro ⟨lo, hRun, hApart⟩
    have hReach : ∀ a b : Nat, a + b = m → (a < b → F (lo - 1) = false) →
        (b + 1 < a → F (lo + (m + 1 : Nat)) = false) →
          (∀ j, Early a b (j - (lo + a)) → G j = false) → ∃ i, F i = true ∧
            Clear (fun j => F (i + j)) (fun j => G (i + j)) 0 0 m := by
      intro a b hCount hLow hHigh hEarly
      refine ⟨lo + a, hRun _ (by omega) (by push_cast; omega), a, b, Nat.zero_le _, Nat.zero_le _,
        by omega, ⟨fun hLt => ?_, fun hLt => ?_⟩, fun j hj hj' => ?_, fun j _ hj => ?_⟩
      · rw [← hLow hLt]
        exact congrArg F (by omega)
      · rw [← hHigh hLt]
        exact congrArg F (by push_cast; omega)
      · exact hRun _ (by omega) (by push_cast; omega)
      · exact hEarly _ (by rwa [add_sub_cancel_left])
    unfold Early at hReach
    split at hApart
    next hOdd =>
      rcases hApart with hApart | ⟨hEnd, hApart⟩
      · exact hReach (m / 2) (m / 2) (by omega) (by omega) (by omega) fun j hj =>
          hApart j (by omega) (by push_cast; omega)
      · exact hReach m 0 (by omega) (by omega) (fun _ => hEnd) fun j hj =>
          hApart j (by push_cast at hj; omega) (by push_cast at hj ⊢; omega)
    next hEven =>
      rcases hApart with hApart | ⟨hEnd, hApart⟩
      · exact hReach ((m + 1) / 2) (m / 2) (by omega) (by omega) (by omega) fun j hj =>
          hApart j (by omega) (by push_cast; omega)
      · exact hReach 0 m (by omega) (fun _ => hEnd) (by omega) fun j hj =>
          hApart j (by push_cast at hj; omega) (by push_cast at hj ⊢; omega)

end kept

/-! ## The seats of a table -/

def place (s : SeatState) : Place := (s.side, s.index)

def freePlace (table : TableState) (p : Place) : Bool := table.freeList.any fun s => place s = p

/-- The seats are those that `generateSeats` makes, each taken, free or unknown. -/
def Generated (tableId : Text) (rect : Rect) (capacity : Nat) (table : TableState) : Prop :=
  table.seats.map SeatState.spec = (generateSeats tableId rect capacity).seats

section table

variable {tableId : Text} {rect : Rect} {capacity : Nat} {table : TableState} {js : JsSort}
  {n m : Nat} {a b s : SeatState} {seen : List Text} {seen' : List Place}

theorem freePlace_iff {p : Place} :
    freePlace table p = true ↔ ∃ s ∈ table.freeList, place s = p := by
  simp [freePlace]

theorem Generated.seated (h : Generated tableId rect capacity table) : Seated table :=
  ⟨tableId, capacity, _, .generated rect, h⟩

theorem Generated.spec (h : Generated tableId rect capacity table) (hs : s ∈ table.seats) :
    ∃ c ∈ generatedSpecs tableId rect capacity, c.id = s.id ∧ c.side = s.side ∧
      c.index = s.index ∧
        besides (generatedSpecs tableId rect capacity) (generatedSides rect) c = s.neighbors := by
  have hMem : s.spec ∈ (generateSeats tableId rect capacity).seats := h ▸ mem_map_of_mem hs
  obtain ⟨c, hc, hSpec⟩ := mem_map.mp hMem
  exact ⟨c, hc, congrArg SeatSpec.id hSpec, congrArg SeatSpec.side hSpec,
    congrArg SeatSpec.index hSpec, congrArg SeatSpec.neighbors hSpec⟩

theorem across_eq (hSide : s.side = (generatedSides rect).1 ∨ s.side = (generatedSides rect).2) :
    (if s.side = (generatedSides rect).1 then (generatedSides rect).2
      else (generatedSides rect).1) = s.side.across := by
  have hSides : generatedSides rect = (.L, .R) ∨ generatedSides rect = (.T, .B) := by
    unfold generatedSides
    split
    · exact .inl rfl
    · exact .inr rfl
  rcases hSides with hSides | hSides <;> rw [hSides] at hSide ⊢ <;>
    rcases hSide with hSide | hSide <;> rw [hSide] <;> decide

theorem Generated.place_inj (h : Generated tableId rect capacity table) (ha : a ∈ table.seats)
    (hb : b ∈ table.seats) (hPlace : place a = place b) : a = b := by
  obtain ⟨c, hc, hcId, hcSide, hcIndex, -⟩ := h.spec ha
  obtain ⟨d, hd, hdId, hdSide, hdIndex, -⟩ := h.spec hb
  obtain ⟨hSide, hIndex⟩ := Prod.ext_iff.mp hPlace
  refine inj_on_of_nodup_map h.seated.linked.ids ha hb ?_
  rw [← hcId, ← hdId, (mem_generatedSpecs hc).2, (mem_generatedSpecs hd).2, hcSide, hdSide,
    hcIndex, hdIndex]
  have hIndex' : a.index = b.index := Int.ofNat.inj hIndex
  have hSide' : a.side = b.side := hSide
  rw [hSide', hIndex']

/-- The free seat at a place, as `findGroup` comes to it. -/
theorem Generated.lookup_iff (h : Generated tableId rect capacity table) {p : Place} :
    ((seatAt (generatedSpecs tableId rect capacity) p.1 p.2).map SeatSpec.id).bind
      (freeSeats table).get = some s ↔ s ∈ table.freeList ∧ place s = p := by
  have hLinked := h.seated.linked
  constructor
  · intro hLook
    obtain ⟨id, hId, hGet⟩ := Option.bind_eq_some_iff.mp hLook
    obtain ⟨c, hc, rfl⟩ := Option.map_eq_some_iff.mp hId
    obtain ⟨hs, hsId⟩ := (get_freeSeats hLinked).mp hGet
    obtain ⟨hcMem, hcSide, hcIndex⟩ := seatAt_some hc
    obtain ⟨d, hd, hdId, hdSide, hdIndex, -⟩ := h.spec (mem_freeList.mp hs).1
    obtain rfl :=
      inj_on_of_nodup_map nodup_generatedSpecs hcMem hd (hsId.symm.trans hdId.symm)
    exact ⟨hs, Prod.ext (hdSide.symm.trans hcSide) (by rw [← hcIndex, hdIndex]; rfl)⟩
  · rintro ⟨hs, rfl⟩
    obtain ⟨d, hd, hdId, hdSide, hdIndex, -⟩ := h.spec (mem_freeList.mp hs).1
    obtain ⟨c, hc⟩ := seatAt_of_mem hd
    obtain ⟨hcMem, hcSide, hcIndex⟩ := seatAt_some hc
    have hcId : c.id = s.id := by
      rw [← hdId, (mem_generatedSpecs hcMem).2, (mem_generatedSpecs hd).2, hcSide,
        Int.ofNat.inj hcIndex]
    rw [hdSide, hdIndex] at hc
    rw [place, hc, Option.map_some, Option.bind_some, get_freeSeats hLinked]
    exact ⟨hs, hcId.symm⟩

theorem map_place_found {look : Place → Option SeatState} {free : Place → Bool}
    (hLook : ∀ p s, look p = some s → place s = p) (hFree : ∀ p, (look p).isSome = free p)
    (hSeen : ∀ p s, look p = some s → (s.id ∈ seen ↔ p ∈ seen')) (l : List Place) :
    ((l.filterMap look).filter fun s => s.id ∉ seen).map place =
      (l.filter free).filter fun q => q ∉ seen' := by
  induction l with
  | nil => rfl
  | cons p l ih =>
    rcases hAt : look p with - | s
    · have hNot : ¬ free p = true := by simp [← hFree, hAt]
      rw [filterMap_cons_none hAt, filter_cons_of_neg hNot, ih]
    · have hYes : free p = true := by simp [← hFree, hAt]
      rw [filterMap_cons_some hAt, filter_cons_of_pos hYes]
      by_cases hMem : p ∈ seen'
      · rw [filter_cons_of_neg (by simpa using (hSeen p s hAt).mpr hMem),
          filter_cons_of_neg (by simpa using hMem), ih]
      · rw [filter_cons_of_pos (by simpa using fun h => hMem ((hSeen p s hAt).mp h)),
          filter_cons_of_pos (by simpa using hMem), map_cons, ih, hLook p s hAt]

/-- What `findGroup` finds next to a seat, in terms of places. They come in the order of the sort
already. -/
theorem Generated.map_nextSeats (h : Generated tableId rect capacity table) (js : JsSort)
    (ha : a ∈ table.seats) (hSeen : ∀ s ∈ table.freeList, s.id ∈ seen ↔ place s ∈ seen') :
    (nextSeats js (freeSeats table) seen a).map place =
      nextPlaces (freePlace table) seen' (place a) := by
  obtain ⟨c, hc, hcId, hcSide, hcIndex, hBesides⟩ := h.spec ha
  let look : Place → Option SeatState := fun p =>
    ((seatAt (generatedSpecs tableId rect capacity) p.1 p.2).map SeatSpec.id).bind
      (freeSeats table).get
  let l : List Place := [(a.side, (a.index : Int) - 1), (a.side, (a.index : Int) + 1),
    (a.side.across, (a.index : Int))]
  have hNeighbors : a.neighbors.filterMap (freeSeats table).get = l.filterMap look := by
    have hAcross := across_eq (s := a) (hcSide ▸ (mem_generatedSpecs hc).1)
    rw [← hBesides, besides_eq, filterMap_filterMap, besidePlaces, hcSide, hcIndex, hAcross]
  have hFound : ((l.filterMap look).filter fun s => s.id ∉ seen).map place =
      nextPlaces (freePlace table) seen' (place a) := by
    refine map_place_found (fun p s hs => (h.lookup_iff.mp hs).2) (fun p => ?_) (fun p s hs => ?_) l
    · rw [Bool.eq_iff_iff, Option.isSome_iff_exists, freePlace_iff]
      exact exists_congr fun s => h.lookup_iff
    · obtain ⟨hFree, rfl⟩ := h.lookup_iff.mp hs
      exact hSeen s hFree
  have hSub : (nextPlaces (freePlace table) seen' (place a)).Sublist l :=
    filter_sublist.trans filter_sublist
  rw [nextSeats, hNeighbors, JsSort.sort_eq_self js (JsSort.consistent_sub (away a) _) ?_ ?_,
    hFound]
  · refine List.Nodup.of_map place (hFound ▸ List.Nodup.sublist hSub ?_)
    simp [l, (across_ne a.side).symm]
    omega
  · have hSorted : l.Pairwise fun p q : Place =>
        (if p.1 ≠ a.side then (1 : ℚ) else 0) - (if q.1 ≠ a.side then 1 else 0) ≤ 0 := by
      simp [l, across_ne]
    exact pairwise_map.mp (hFound ▸ hSorted.sublist hSub)

theorem Generated.map_pick (h : Generated tableId rect capacity table) (js : JsSort) (n : Nat)
    (hs : s ∈ table.freeList) :
    (pick js (freeSeats table) n s).map place =
      breadthFirst id (nextPlaces (freePlace table)) n [place s] [place s] := by
  have hInj : ∀ a ∈ table.freeList, ∀ b ∈ table.freeList, a.id = b.id ↔ place a = place b := by
    intro a ha b hb
    have ha' := (mem_freeList.mp ha).1
    have hb' := (mem_freeList.mp hb).1
    constructor
    · exact fun hId => congrArg place (inj_on_of_nodup_map h.seated.linked.ids ha' hb' hId)
    · exact fun hPlace => congrArg SeatState.id (h.place_inj ha' hb' hPlace)
  refine map_breadthFirst (D := fun s => s ∈ table.freeList)
    (S := fun seen seen' => ∀ s ∈ table.freeList, s.id ∈ seen ↔ place s ∈ seen')
    (fun seen seen' a hSeen ha => ?_) (fun t ht => ?_) fun t ht => mem_singleton.mp ht ▸ hs
  · have hMap := h.map_nextSeats js (mem_freeList.mp ha).1 hSeen
    have hFound : ∀ b ∈ nextSeats js (freeSeats table) seen a, b ∈ table.freeList :=
      fun b hb => ((mem_nextSeats h.seated.linked seen).mp hb).1.1
    refine ⟨hMap, fun t ht => ?_, hFound⟩
    rw [map_id, ← hMap, mem_append, mem_append, hSeen t ht]
    refine or_congr_right ?_
    rw [mem_map, mem_map]
    exact exists_congr fun b => and_congr_right fun hb => hInj b (hFound b hb) t ht
  · rw [mem_singleton, mem_singleton]
    exact hInj t ht s hs

/-- The free seats of one side. -/
def sideOf (table : TableState) (side : SeatSide) (j : Int) : Bool := freePlace table (side, j)

/-- Some search stays on its side exactly when there is a run to keep. -/
theorem Generated.exists_oneSided_iff (h : Generated tableId rect capacity table) :
    (∃ s ∈ table.freeList, m + 1 ≤ (pick js (freeSeats table) (m + 1) s).length ∧
      ∀ t ∈ pick js (freeSeats table) (m + 1) s, t.side = s.side) ↔
        ∃ side lo, Kept (sideOf table side) (sideOf table side.across) (m + 1) lo := by
  have hPick : ∀ s ∈ table.freeList, (m + 1 ≤ (pick js (freeSeats table) (m + 1) s).length ∧
      ∀ t ∈ pick js (freeSeats table) (m + 1) s, t.side = s.side) ↔
        Clear (fun j => sideOf table s.side (s.index + j))
          (fun j => sideOf table s.side.across (s.index + j)) 0 0 m := by
    intro s hs
    have hStart : freePlace table (s.side, (s.index : Int)) = true :=
      freePlace_iff.mpr ⟨s, hs, rfl⟩
    refine Iff.trans ?_ (oneSided_start hStart)
    have hMap := h.map_pick js (m + 1) hs
    rw [OneSided, show (s.side, (s.index : Int)) = place s from rfl, ← hMap, length_map,
      forall_mem_map]
    refine and_congr_left fun _ => ⟨fun hLe => le_antisymm ?_ hLe, fun hEq => hEq.ge⟩
    exact length_breadthFirst_le _ _ _ _ _
  constructor
  · rintro ⟨s, hs, hSide⟩
    refine ⟨s.side, exists_clear_iff.mp ⟨s.index, ?_, (hPick s hs).mp hSide⟩⟩
    exact freePlace_iff.mpr ⟨s, hs, rfl⟩
  · rintro ⟨side, hKept⟩
    obtain ⟨i, hFree, hClear⟩ := exists_clear_iff.mpr hKept
    obtain ⟨s, hs, hPlace⟩ := freePlace_iff.mp hFree
    obtain ⟨rfl, rfl⟩ := Prod.ext_iff.mp hPlace
    exact ⟨s, hs, (hPick s hs).mpr hClear⟩

theorem Generated.together (h : Generated tableId rect capacity table) (ha : a ∈ table.freeList)
    (hb : b ∈ table.freeList) (hNext : place b = (a.side, (a.index : Int) + 1)) :
    Together table a b := by
  have hMem : place b ∈ nextPlaces (freePlace table) [] (place a) := by
    refine mem_filter.mpr ⟨mem_filter.mpr ⟨?_, freePlace_iff.mpr ⟨b, hb, rfl⟩⟩, by simp⟩
    rw [hNext]
    exact mem_cons_of_mem _ mem_cons_self
  have hMap := h.map_nextSeats JsSort.insertion (mem_freeList.mp ha).1
    (fun s _ => iff_of_false (not_mem_nil (a := s.id)) not_mem_nil)
  rw [← hMap] at hMem
  obtain ⟨c, hc, hPlace⟩ := mem_map.mp hMem
  obtain ⟨⟨hcFree, hLink⟩, -⟩ := (mem_nextSeats h.seated.linked _).mp hc
  obtain rfl := h.place_inj (mem_freeList.mp hcFree).1 (mem_freeList.mp hb).1 hPlace
  exact ⟨ha, hb, hLink⟩

/-- The seats of a run are connected. -/
theorem Generated.le_encard (h : Generated tableId rect capacity table) {side : SeatSide}
    {lo : Int} (hRun : Run (sideOf table side) n lo) (hs : s ∈ table.freeList)
    (hPlace : place s = (side, lo)) : (n : ℕ∞) ≤ (component table s).encard := by
  have hSeat : ∀ k : Nat, ∃ t, k < n → t ∈ table.freeList ∧ place t = (side, lo + k) := by
    intro k
    by_cases hk : k < n
    · obtain ⟨t, ht, hAt⟩ := freePlace_iff.mp (hRun (lo + k) (by omega) (by omega))
      exact ⟨t, fun _ => ⟨ht, hAt⟩⟩
    · exact ⟨s, fun h => absurd h hk⟩
  choose seat hSeat using hSeat
  have hReached : ∀ k, k < n → seat k ∈ component table s := by
    intro k
    induction k with
    | zero =>
      intro hk
      obtain ⟨ht, hAt⟩ := hSeat 0 hk
      rw [Nat.cast_zero, add_zero, ← hPlace] at hAt
      rw [h.place_inj (mem_freeList.mp ht).1 (mem_freeList.mp hs).1 hAt]
      exact Relation.ReflTransGen.refl
    | succ k ih =>
      intro hk
      obtain ⟨ht, hAt⟩ := hSeat k (by omega)
      obtain ⟨ht', hAt'⟩ := hSeat (k + 1) hk
      refine (ih (by omega)).tail (h.together ht ht' ?_)
      obtain ⟨hSide, hIndex⟩ := Prod.ext_iff.mp hAt
      rw [hAt']
      exact Prod.ext hSide.symm (by simp only [place] at hIndex; push_cast; omega)
  have hInj : Set.InjOn seat (Finset.range n : Set Nat) := by
    intro k hk l hl hEq
    obtain ⟨-, hAt⟩ := hSeat k (Finset.mem_range.mp hk)
    obtain ⟨-, hAt'⟩ := hSeat l (Finset.mem_range.mp hl)
    rw [hEq, hAt'] at hAt
    have hIndex := (Prod.ext_iff.mp hAt).2
    simp only at hIndex
    omega
  calc (n : ℕ∞) = (Finset.range n : Set Nat).encard := by
        rw [Set.encard_coe_eq_coe_finsetCard, Finset.card_range]
    _ = (seat '' (Finset.range n : Set Nat)).encard := hInj.encard_image.symm
    _ ≤ (component table s).encard := by
        refine Set.encard_le_encard ?_
        rintro _ ⟨k, hk, rfl⟩
        exact hReached k (Finset.mem_range.mp hk)

theorem sidesOf_le_one {picked : List SeatState} :
    sidesOf picked ≤ 1 ↔ ∀ a ∈ picked, ∀ b ∈ picked, a.side = b.side := by
  rw [sidesOf, Finset.card_le_one]
  simp only [mem_toFinset, forall_mem_map]

/-! ## The claim -/

/-- A group for which a side has room is kept on one side. -/
def KeepsSide (js : JsSort) (table : TableState) (n : Nat) : Prop :=
  (∃ side lo, Run (sideOf table side) n lo) → ∀ group, findGroup js table n = some group →
    ∃ side, ∀ id ∈ group, ∃ s ∈ table.seats, s.id = id ∧ s.side = side

theorem Generated.group_side_iff (h : Generated tableId rect capacity table)
    (hs : s ∈ table.freeList) :
    (∃ side, ∀ id ∈ (pick js (freeSeats table) (m + 1) s).map SeatState.id,
      ∃ t ∈ table.seats, t.id = id ∧ t.side = side) ↔
        ∀ t ∈ pick js (freeSeats table) (m + 1) s, t.side = s.side := by
  have hFree :=
    (connected_breadthFirst (finds_nextSeats js h.seated.linked) hs (m + 1)).2.1
  have hSelf : ∀ t ∈ table.seats, ∀ t' ∈ table.seats, t.id = t'.id → t = t' := fun t ht t' ht' =>
    inj_on_of_nodup_map h.seated.linked.ids ht ht'
  constructor
  · rintro ⟨side, hSide⟩ t ht
    have hAt : ∀ t ∈ pick js (freeSeats table) (m + 1) s, t.side = side := fun t ht => by
      obtain ⟨t', ht', hId, hSide'⟩ := hSide t.id (mem_map_of_mem ht)
      rw [← hSelf t' ht' t (mem_freeList.mp (hFree t ht)).1 hId, hSide']
    rw [hAt t ht, hAt s mem_cons_self]
  · intro hSide
    refine ⟨s.side, fun id hId => ?_⟩
    obtain ⟨t, ht, rfl⟩ := mem_map.mp hId
    exact ⟨t, (mem_freeList.mp (hFree t ht)).1, rfl, hSide t ht⟩

/-- A group for which a side has room is kept on one side exactly when there is a run of free seats
on a side that the search does not leave too early. -/
theorem findGroup_side_iff (js : JsSort) {tableId : Text} {rect : Rect} {capacity : Nat}
    {table : TableState} (h : Generated tableId rect capacity table) (n : Nat) :
    KeepsSide js table n ↔ table.status = .unknown ∨
      ((∃ side lo, Run (sideOf table side) n lo) →
        ∃ side lo, Kept (sideOf table side) (sideOf table side.across) n lo) := by
  have hLinked := h.seated.linked
  rcases n with - | m
  · -- nobody is seated
    have hNone : findGroup js table 0 = none := by rw [findGroup, if_pos (.inr Nat.zero_lt_one)]
    refine iff_of_true (fun _ group hGroup => ?_) (.inr fun _ => ⟨.L, 0, ?_, ?_⟩)
    · rw [hNone] at hGroup
      cases hGroup
    · intro j hLow hHigh
      push_cast at hHigh
      omega
    · rw [if_neg (by decide)]
      exact .inl fun j hLow hHigh => by push_cast at hHigh; omega
  by_cases hStatus : table.status = .unknown
  · have hNone : findGroup js table (m + 1) = none := by rw [findGroup, if_pos (.inl hStatus)]
    refine iff_of_true (fun _ group hGroup => ?_) (.inl hStatus)
    rw [hNone] at hGroup
    cases hGroup
  obtain ⟨best, hFound, hBest⟩ := findGroup_best js hLinked (Nat.succ_pos m) hStatus
  rw [KeepsSide, hFound]
  constructor
  · refine fun hKeeps => .inr fun hRoom => ?_
    rcases best with - | ⟨ids, sides⟩
    · -- the first seat of the run is a start with enough seats
      obtain ⟨side, lo, hRun⟩ := hRoom
      obtain ⟨s, hs, hPlace⟩ := freePlace_iff.mp (hRun lo le_rfl (by push_cast; omega))
      have hFew := (encard_component_lt js hLinked hs).mpr (hBest s hs)
      exact absurd (h.le_encard hRun hs hPlace) (not_le.mpr hFew)
    · obtain ⟨⟨s, hs, hLong, rfl, -⟩, -⟩ := hBest
      have hSide := hKeeps hRoom _ rfl
      exact h.exists_oneSided_iff.mp ⟨s, hs, hLong, (h.group_side_iff hs).mp hSide⟩
  · rintro (hUnknown | hKept) hRoom group hGroup
    · exact absurd hUnknown hStatus
    rcases best with - | ⟨ids, sides⟩
    · cases hGroup
    · cases hGroup
      obtain ⟨⟨s, hs, hLong, rfl, rfl⟩, hLeast⟩ := hBest
      obtain ⟨s', hs', hLong', hSide'⟩ := h.exists_oneSided_iff.mpr (hKept hRoom)
      have hOne : sidesOf (pick js (freeSeats table) (m + 1) s') ≤ 1 :=
        sidesOf_le_one.mpr fun a ha b hb => (hSide' a ha).trans (hSide' b hb).symm
      have hSides := sidesOf_le_one.mp ((hLeast s' hs' hLong').trans hOne)
      exact (h.group_side_iff hs).mpr fun t ht => hSides t ht s List.mem_cons_self

end table

/-! ## A bench with four seats on each side -/

def vacant (s : SeatSpec) : SeatState where
  id := s.id
  x := s.x
  y := s.y
  side := s.side
  index := s.index
  neighbors := s.neighbors
  occupied := some false

def benchRect : Rect := ⟨0, 0, 105, 240⟩

/-- Nobody is there. -/
def bench : TableState where
  id := js "bench"
  name := js "Bench"
  zoneId := js "main"
  rect := benchRect
  capacity := 8
  occupied := some 0
  free := some 8
  status := .ok
  seats := (generateSeats (js "bench") benchRect 8).seats.map vacant

theorem generated_bench : Generated (js "bench") benchRect 8 bench := by
  rw [Generated, bench, map_map]
  exact map_id _

theorem findGroup_side_bench : KeepsSide JsSort.insertion bench 4 ↔ bench.status = .unknown ∨
    ((∃ side lo, Run (sideOf bench side) 4 lo) →
      ∃ side lo, Kept (sideOf bench side) (sideOf bench side.across) 4 lo) :=
  findGroup_side_iff JsSort.insertion generated_bench 4

theorem run_bench : Run (sideOf bench .L) 4 0 := by
  intro j hLow hHigh
  obtain rfl | rfl | rfl | rfl : j = 0 ∨ j = 1 ∨ j = 2 ∨ j = 3 := by push_cast at hHigh; omega
  all_goals decide +kernel

theorem findGroup_bench : findGroup JsSort.insertion bench 4 =
    some [js "bench-L1", js "bench-L2", js "bench-R1", js "bench-L3"] := by
  decide +kernel

theorem sides_bench : ∀ s ∈ bench.seats, (s.id = js "bench-L1" → s.side = .L) ∧
    (s.id = js "bench-R1" → s.side = .R) := by
  decide +kernel

/-- Four people get seats on both sides, although the whole left side is free. -/
theorem split_over_sides : ¬ ∀ (js : JsSort) (tableId : Text) (rect : Rect) (capacity : Nat)
    (table : TableState), Generated tableId rect capacity table → ∀ n, KeepsSide js table n := by
  intro hAll
  have hKeeps := hAll JsSort.insertion (js "bench") benchRect 8 bench generated_bench 4
  obtain ⟨side, hSide⟩ := hKeeps ⟨.L, 0, run_bench⟩ _ findGroup_bench
  obtain ⟨s, hs, hId, hLeft⟩ := hSide (js "bench-L1") (by simp)
  obtain ⟨s', hs', hId', hRight⟩ := hSide (js "bench-R1") (by simp)
  rw [(sides_bench s hs).1 hId] at hLeft
  rw [(sides_bench s' hs').2 hId', ← hLeft] at hRight
  cases hRight

end TMEdge.Occupancy
