import Mathlib

/-!
# Tables of records

The calls of a service as a list that grows: a call is known by its place.

* `getElem?_set_of_some`, `getElem?_concat_cases`: a record changes, a record comes in.
* `countP_lt_of_forall₂`: records that only lose a property, one of which loses it.
* `countP_eraseIdx`, `countP_set_of_some`: one record goes, or changes.
-/

namespace TMEdge.Library

open List Option

variable {α β : Type*} {l : List α} {n i : Nat} {a b : α} {p : α → Bool}

theorem getElem?_set_of_some (h : l[n]? = some a) (b : α) (i : Nat) :
    (l.set n b)[i]? = if i = n then some b else l[i]? := by
  obtain ⟨hLt, -⟩ := List.getElem?_eq_some_iff.mp h
  rw [getElem?_set]
  rcases eq_or_ne n i with rfl | hne
  · simp [hLt]
  · rw [if_neg hne, if_neg hne.symm]

theorem getElem?_concat_cases (h : (l ++ [a])[i]? = some b) :
    l[i]? = some b ∨ i = l.length ∧ b = a := by
  rcases Nat.lt_trichotomy i l.length with hlt | rfl | hgt
  · exact .inl (by rwa [getElem?_append_left hlt] at h)
  · exact .inr ⟨rfl, by simpa using h.symm⟩
  · rw [getElem?_eq_none (by simp; omega)] at h
    exact nomatch h

theorem forall₂_get {R : α → β → Prop} {l' : List β} (h : List.Forall₂ R l l') {b : β}
    (hb : l'[i]? = some b) : ∃ a, l[i]? = some a ∧ R a b := by
  induction h generalizing i with
  | nil => exact nomatch hb
  | cons hR _ ih =>
    cases i with
    | zero => exact ⟨_, rfl, some.inj hb ▸ hR⟩
    | succ i => exact ih hb

theorem forall₂_set {R : α → α → Prop} (hRefl : ∀ a, R a a) (ha : l[n]? = some a) (hR : R a b) :
    List.Forall₂ R l (l.set n b) := by
  induction l generalizing n with
  | nil => exact nomatch ha
  | cons a' l ih =>
    cases n with
    | zero =>
      obtain rfl : a' = a := some.inj ha
      exact .cons hR (forall₂_same.mpr fun a _ => hRefl a)
    | succ n => exact .cons (hRefl a') (ih ha)

theorem countP_le_of_forall₂ {l' : List α}
    (h : List.Forall₂ (fun a b => p b = true → p a = true) l l') : l'.countP p ≤ l.countP p := by
  induction h with
  | nil => exact le_rfl
  | @cons a b _ _ hp _ ih =>
    rw [countP_cons, countP_cons]
    rcases hb : p b
    · simp; omega
    · simp [hp hb]; omega

/-- One record loses the property, and none gains it. -/
theorem countP_lt_of_forall₂ {l' : List α}
    (h : List.Forall₂ (fun a b => p b = true → p a = true) l l') (ha : l[n]? = some a)
    (hb : l'[n]? = some b) (hpa : p a = true) (hpb : p b = false) : l'.countP p < l.countP p := by
  induction h generalizing n with
  | nil => exact nomatch ha
  | @cons a' b' _ _ hp hTail ih =>
    rw [countP_cons, countP_cons]
    cases n with
    | zero =>
      obtain rfl : a' = a := some.inj ha
      obtain rfl : b' = b := some.inj hb
      have hLe := countP_le_of_forall₂ hTail
      simp only [hpa, hpb, if_true, Bool.false_eq_true, if_false]
      omega
    | succ n =>
      have hLt := ih ha hb
      rcases hb' : p b'
      · simp; omega
      · simp [hp hb']; omega

/-! ## Counting -/

theorem countP_eraseIdx (h : l[i]? = some a) (p : α → Bool) :
    l.countP p = (l.eraseIdx i).countP p + if p a then 1 else 0 := by
  induction l generalizing i with
  | nil => cases h
  | cons b l ih =>
    cases i with
    | zero =>
      obtain rfl : b = a := some.inj h
      rw [countP_cons, eraseIdx_cons_zero]
    | succ i =>
      rw [countP_cons, eraseIdx_cons_succ, countP_cons, ih h]
      omega

theorem countP_set_of_some (h : l[i]? = some a) (b : α) (p : α → Bool) :
    (l.set i b).countP p + (if p a then 1 else 0) = l.countP p + if p b then 1 else 0 := by
  induction l generalizing i with
  | nil => cases h
  | cons c l ih =>
    cases i with
    | zero =>
      obtain rfl : c = a := some.inj h
      rw [set_cons_zero, countP_cons, countP_cons]
      omega
    | succ i =>
      have := ih h
      rw [set_cons_succ, countP_cons, countP_cons]
      omega

/-- A record that is changed and then left out. -/
theorem filter_set_sublist (ha : l[i]? = some a) (hpb : p b = false) :
    ((l.set i b).filter p).Sublist (l.filter p) := by
  induction l generalizing i with
  | nil => cases ha
  | cons c l ih =>
    cases i with
    | zero =>
      rw [set_cons_zero, filter_cons_of_neg (by simp [hpb])]
      exact (sublist_cons_self c l).filter p
    | succ i =>
      rw [set_cons_succ]
      by_cases hc : p c = true
      · rw [filter_cons_of_pos hc, filter_cons_of_pos hc]
        exact (ih ha).cons_cons c
      · rw [filter_cons_of_neg hc, filter_cons_of_neg hc]
        exact ih ha

end TMEdge.Library
