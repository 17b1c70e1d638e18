import Mathlib

/-!
# Lists

Facts about lists that more than one part of the model uses.
-/

namespace TMEdge.Library

open List

/-- A maximum that is computed from left to right. -/
theorem le_foldl_max {α : Type} [LinearOrder α] (l : List α) (a : α) :
    a ≤ l.foldl max a ∧ ∀ x ∈ l, x ≤ l.foldl max a := by
  induction l generalizing a with
  | nil => exact ⟨le_rfl, fun x hx => absurd hx not_mem_nil⟩
  | cons y l ih =>
    obtain ⟨hStart, hAll⟩ := ih (max a y)
    refine ⟨(le_max_left a y).trans hStart, fun x hx => ?_⟩
    rcases mem_cons.mp hx with rfl | hx
    · exact (le_max_right a x).trans hStart
    · exact hAll x hx

/-! ## Elements that are changed in place -/

section modify

variable {α β : Type} (place : β → Nat) (step : α → β → α)

/-- Each element is changed by what falls to its place. -/
theorem getElem?_foldl_modify (l : List β) (acc : List α) (k : Nat) :
    (l.foldl (fun acc i => acc.modify (place i) fun a => step a i) acc)[k]? =
      acc[k]?.map fun a => (l.filter fun i => place i = k).foldl step a := by
  induction l generalizing acc with
  | nil => simp
  | cons i l ih =>
    rw [foldl_cons, ih, getElem?_modify]
    cases acc[k]? with
    | none => rfl
    | some a => by_cases hPlace : place i = k <;> simp [hPlace]

/-- What each change adds is added to the sum. -/
theorem sum_modify {size : α → Nat} {f : α → α} (acc : List α) {k : Nat} (hk : k < acc.length)
    (hf : ∀ a, size (f a) = size a + 1) :
    ((acc.modify k f).map size).sum = (acc.map size).sum + 1 := by
  induction acc generalizing k with
  | nil => exact absurd hk (Nat.not_lt_zero k)
  | cons a acc ih =>
    cases k with
    | zero => simp [hf]; omega
    | succ k =>
      rw [modify_succ_cons, map_cons, sum_cons, map_cons, sum_cons,
        ih (Nat.lt_of_succ_lt_succ hk), Nat.add_assoc]

end modify

end TMEdge.Library
