import Mathlib.Data.List.Sort
import Mathlib.Data.Rat.Defs
import Mathlib.Order.Defs.LinearOrder
import Mathlib.Algebra.Order.Ring.Rat

/-!
# Array sort

`Array.prototype.sort` with a comparison function. Where the function is consistent on the elements,
the result is in its order, and elements that it takes for equal keep theirs. Where it is not, the
result is some arrangement of the same elements.

* `sort_eq_of_perm`: a comparison that tells any two elements apart leaves one result only.
-/

namespace TMEdge.Library

open List

section compare

variable {α : Type} {cmp : α → α → ℚ} {l l' : List α} {a b c : α}

/-- A consistent comparison of the elements of a list. -/
structure Consistent (cmp : α → α → ℚ) (l : List α) : Prop where
  neg : ∀ a ∈ l, ∀ b ∈ l, cmp a b < 0 ↔ 0 < cmp b a
  trans : ∀ a ∈ l, ∀ b ∈ l, ∀ c ∈ l, cmp a b ≤ 0 → cmp b c ≤ 0 → cmp a c ≤ 0

/-- A sort of a host. -/
structure JsSort where
  sort : {α : Type} → (α → α → ℚ) → List α → List α
  perm : ∀ {α : Type} (cmp : α → α → ℚ) (l : List α), (sort cmp l).Perm l
  sorted : ∀ {α : Type} {cmp : α → α → ℚ} {l : List α}, Consistent cmp l →
    (sort cmp l).Pairwise fun a b => cmp a b ≤ 0
  stable : ∀ {α : Type} {cmp : α → α → ℚ} {l : List α} {a b : α}, Consistent cmp l →
    [a, b].Sublist l → cmp a b ≤ 0 → [a, b].Sublist (sort cmp l)

theorem Consistent.perm (h : Consistent cmp l) (hPerm : l.Perm l') : Consistent cmp l' where
  neg a ha b hb := h.neg a (hPerm.mem_iff.mpr ha) b (hPerm.mem_iff.mpr hb)
  trans a ha b hb c hc := h.trans a (hPerm.mem_iff.mpr ha) b (hPerm.mem_iff.mpr hb) c
    (hPerm.mem_iff.mpr hc)

theorem Consistent.total (h : Consistent cmp l) (ha : a ∈ l) (hb : b ∈ l) :
    cmp a b ≤ 0 ∨ cmp b a ≤ 0 := by
  rcases le_or_gt (cmp a b) 0 with hLe | hGt
  · exact .inl hLe
  · exact .inr ((h.neg b hb a ha).mpr hGt).le

end compare

namespace JsSort

variable {α : Type} {cmp : α → α → ℚ} {l l' : List α} {a : α}

theorem pairwise_insertionSort (h : Consistent cmp l) :
    (l.insertionSort fun a b => cmp a b ≤ 0).Pairwise fun a b => cmp a b ≤ 0 := by
  -- the comparison is an order on the elements that the list has
  have : IsTrans { x // x ∈ l } fun a b => cmp a.1 b.1 ≤ 0 :=
    ⟨fun a b c => h.trans a.1 a.2 b.1 b.2 c.1 c.2⟩
  have : Std.Total fun a b : { x // x ∈ l } => cmp a.1 b.1 ≤ 0 := ⟨fun a b => h.total a.2 b.2⟩
  have hSorted := List.pairwise_insertionSort
    (fun a b : { x // x ∈ l } => cmp a.1 b.1 ≤ 0) l.attach
  have hMap := map_insertionSort (fun a b : { x // x ∈ l } => cmp a.1 b.1 ≤ 0)
    (fun a b => cmp a b ≤ 0) Subtype.val l.attach fun _ _ _ _ => Iff.rfl
  rw [attach_map_subtype_val] at hMap
  rw [← hMap, pairwise_map]
  exact hSorted

/-- A host that sorts by insertion. -/
def insertion : JsSort where
  sort cmp l := l.insertionSort fun a b => cmp a b ≤ 0
  perm _ l := List.perm_insertionSort _ l
  sorted := pairwise_insertionSort
  stable {_ cmp _ _ _} _ hSub hLe :=
    @List.pair_sublist_insertionSort _ (fun a b => cmp a b ≤ 0) _ _ _ _ hLe hSub

theorem mem_sort (js : JsSort) : a ∈ js.sort cmp l ↔ a ∈ l := (js.perm cmp l).mem_iff

theorem consistent_sub (f : α → ℚ) (l : List α) : Consistent (fun a b => f a - f b) l where
  neg _ _ _ _ := by rw [sub_neg, sub_pos]
  trans _ _ _ _ _ _ hab hbc := sub_nonpos.mpr ((sub_nonpos.mp hab).trans (sub_nonpos.mp hbc))

/-- Elements that are told apart are put in one order, however they came. -/
theorem sort_eq_of_perm (js : JsSort) (h : Consistent cmp l)
    (hApart : ∀ a ∈ l, ∀ b ∈ l, cmp a b = 0 → a = b) (hPerm : l'.Perm l) :
    js.sort cmp l' = js.sort cmp l := by
  have hBoth := ((js.perm cmp l').trans hPerm).trans (js.perm cmp l).symm
  refine hBoth.eq_of_pairwise (fun a b ha hb hab hba => ?_) (js.sorted (h.perm hPerm.symm))
    (js.sorted h)
  rw [mem_sort, hPerm.mem_iff] at ha
  rw [mem_sort] at hb
  refine hApart a ha b hb (le_antisymm hab (not_lt.mp fun hNeg => ?_))
  exact absurd ((h.neg a ha b hb).mp hNeg) (not_lt.mpr hba)

/-- Of two elements of a list, one comes first. -/
theorem not_sublist_swap {b : α} (hNodup : l.Nodup) (h : [a, b].Sublist l) :
    ¬ [b, a].Sublist l := by
  classical
  have hOrder : l.Pairwise fun a b => l.idxOf a < l.idxOf b := by
    rw [pairwise_iff_getElem]
    intro i j hi hj hij
    rwa [hNodup.idxOf_getElem, hNodup.idxOf_getElem]
  rw [pairwise_iff_forall_sublist] at hOrder
  exact fun h' => lt_asymm (hOrder h) (hOrder h')

theorem sublist_or_swap {b : α} (ha : a ∈ l) (hb : b ∈ l) (hNe : a ≠ b) :
    [a, b].Sublist l ∨ [b, a].Sublist l := by
  obtain ⟨pre, post, rfl⟩ := append_of_mem ha
  rcases mem_append.mp hb with hb | hb
  · right
    exact (singleton_sublist.mpr hb).append (singleton_sublist.mpr mem_cons_self)
  · left
    have hPost := (mem_cons.mp hb).resolve_left hNe.symm
    exact List.Sublist.trans (.cons_cons a (singleton_sublist.mpr hPost))
      (sublist_append_right pre _)

/-- A list in order stays as it is. -/
theorem sort_eq_self (js : JsSort) (h : Consistent cmp l) (hNodup : l.Nodup)
    (hSorted : l.Pairwise fun a b => cmp a b ≤ 0) : js.sort cmp l = l := by
  have hPerm := js.perm cmp l
  have hNodup' := hPerm.nodup_iff.mpr hNodup
  have hSame : (js.sort cmp l).Pairwise fun a b => [a, b].Sublist l := by
    rw [pairwise_iff_forall_sublist]
    intro a b hab
    have ha : a ∈ l := hPerm.subset (hab.subset (by simp))
    have hb : b ∈ l := hPerm.subset (hab.subset (by simp))
    have hNe : a ≠ b := by
      have hPair := hNodup'.sublist hab
      simpa using hPair
    rcases sublist_or_swap ha hb hNe with hFirst | hSwap
    · exact hFirst
    · have hLe := pairwise_iff_forall_sublist.mp hSorted hSwap
      exact absurd (js.stable h hSwap hLe) (not_sublist_swap hNodup' hab)
  refine hPerm.eq_of_pairwise (fun a b _ _ hab hba => ?_) hSame ?_
  · exact absurd hba (not_sublist_swap hNodup hab)
  · exact pairwise_iff_forall_sublist.mpr fun hab => hab

end JsSort

end TMEdge.Library
