import Mathlib

/-!
# Loops that add into an array

A list of numbers to which terms are added at their places, by nested loops whose bodies may fail.

* `Adds`: what a step adds at each place.
* `adds_foldlM`: a loop adds the sum of what its steps add.
* `sum_between`: of a sum over a range of integers with one term, that term if it is in the range.
-/

namespace TMEdge.Library

open List

/-- `for (let i = lo; i <= hi; i++)`. -/
def between (lo hi : Int) : List Int :=
  (List.range (hi + 1 - lo).toNat).map fun k : Nat => lo + (k : Int)

theorem mem_between {lo hi i : Int} : i ∈ between lo hi ↔ lo ≤ i ∧ i ≤ hi := by
  simp only [between, mem_map, mem_range]
  constructor
  · rintro ⟨k, hk, rfl⟩
    omega
  · rintro ⟨hLo, hHi⟩
    exact ⟨(i - lo).toNat, by omega, by omega⟩

theorem nodup_between (lo hi : Int) : (between lo hi).Nodup :=
  nodup_range.map fun _ _ hEq => Int.ofNat.inj (Int.add_left_cancel hEq)

/-! ## Rows of a table laid end to end -/

variable {a b n : Nat}

theorem flat_lt {m : Nat} (ha : a < m) (hb : b < n) : a * n + b < m * n := by
  have hRow := Nat.mul_le_mul_right n (Nat.succ_le_of_lt ha)
  rw [Nat.succ_mul] at hRow
  omega

theorem flat_inj {a' b' : Nat} (hb : b < n) (hb' : b' < n) (h : a * n + b = a' * n + b') :
    a = a' ∧ b = b' := by
  have hMod := congrArg (· % n) h
  simp only [Nat.mul_add_mod_self_right, Nat.mod_eq_of_lt hb, Nat.mod_eq_of_lt hb'] at hMod
  subst hMod
  exact ⟨Nat.eq_of_mul_eq_mul_right (by omega) (Nat.add_right_cancel h), rfl⟩

variable {R ι : Type*} [AddCommMonoid R] {out out' out'' : List R} {g g' : Nat → R}

def Adds (out out' : List R) (g : Nat → R) : Prop :=
  out'.length = out.length ∧ ∀ q < out.length, out'.getD q 0 = out.getD q 0 + g q

theorem Adds.zero (out : List R) : Adds out out fun _ => 0 :=
  ⟨rfl, fun _ _ => (add_zero _).symm⟩

theorem Adds.congr (h : Adds out out' g) (hEq : ∀ q < out.length, g q = g' q) : Adds out out' g' :=
  ⟨h.1, fun q hq => hEq q hq ▸ h.2 q hq⟩

theorem Adds.trans (h : Adds out out' g) (h' : Adds out' out'' g') :
    Adds out out'' fun q => g q + g' q := by
  refine ⟨h'.1.trans h.1, fun q hq => ?_⟩
  rw [h'.2 q (h.1.symm ▸ hq), h.2 q hq, add_assoc]

theorem adds_set (out : List R) (i : Nat) (a : R) :
    Adds out (out.set i (out.getD i 0 + a)) fun q => if i = q then a else 0 := by
  refine ⟨length_set, fun q hq => ?_⟩
  rw [getD_eq_getElem _ _ (by rwa [length_set]), getElem_set]
  dsimp only
  split
  · rename_i hEq
    rw [hEq]
  · rw [getD_eq_getElem _ _ hq, add_zero]

theorem adds_foldlM {step : List R → ι → Option (List R)} {g : ι → Nat → R} {n : Nat}
    (l : List ι) (hStep : ∀ i ∈ l, ∀ out : List R, out.length = n →
      ∃ out', step out i = some out' ∧ Adds out out' (g i)) (hLength : out.length = n) :
    ∃ out', l.foldlM step out = some out' ∧ Adds out out' fun q => (l.map fun i => g i q).sum := by
  induction l generalizing out with
  | nil => exact ⟨out, rfl, .zero out⟩
  | cons i l ih =>
    obtain ⟨out₁, h₁, hAdds₁⟩ := hStep i mem_cons_self out hLength
    obtain ⟨out₂, h₂, hAdds₂⟩ := ih (fun j hj => hStep j (mem_cons_of_mem _ hj))
      (hAdds₁.1.trans hLength)
    refine ⟨out₂, by rw [foldlM_cons, h₁]; exact h₂, ?_⟩
    simpa only [map_cons, sum_cons] using hAdds₁.trans hAdds₂

theorem sum_between {lo hi : Int} (a : Int) (f : Int → R) :
    ((between lo hi).map fun i => if i = a then f i else 0).sum =
      if lo ≤ a ∧ a ≤ hi then f a else 0 := by
  rw [← sum_toFinset _ (nodup_between lo hi), Finset.sum_ite_eq']
  simp only [mem_toFinset, mem_between]

end TMEdge.Library
