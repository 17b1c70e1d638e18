import Mathlib

/-!
# Computations that may fail

* `bind_eq_ok`, `of_ite_throw`: the parts of a computation that ends well.
* `forall₂_of_mapM`, `forall₂_of_foldlM`, `foldlM_invariant`: what a loop that ends well has done.
* `forM_eq_ok`: a loop of checks.
-/

namespace TMEdge.Library

open List

variable {ε α β : Type}

theorem bind_eq_ok {x : Except ε α} {f : α → Except ε β} {b : β} :
    (x >>= f) = .ok b ↔ ∃ a, x = .ok a ∧ f a = .ok b := by
  cases x with
  | error e => simp [bind, Except.bind]
  | ok a => simp [bind, Except.bind]

theorem of_ite_throw {c : Prop} [Decidable c] {e : ε} {x : Except ε α} {a : α}
    (h : (if c then throw e else x) = .ok a) : ¬c ∧ x = .ok a := by
  split at h
  · exact nomatch h
  · exact ⟨‹_›, h⟩

/-- What a list is mapped to, item by item. -/
theorem forall₂_of_mapM {f : α → Except ε β} {l : List α} {l' : List β}
    (h : l.mapM f = .ok l') : List.Forall₂ (fun a b => f a = .ok b) l l' := by
  induction l generalizing l' with
  | nil =>
    cases h
    exact .nil
  | cons a l ih =>
    rw [mapM_cons, bind_eq_ok] at h
    obtain ⟨b, hHead, h⟩ := h
    obtain ⟨bs, hRest, h⟩ := bind_eq_ok.mp h
    cases h
    exact .cons hHead (ih hRest)

theorem length_of_mapM {f : α → Except ε β} {l : List α} {l' : List β}
    (h : l.mapM f = .ok l') : l'.length = l.length :=
  (forall₂_of_mapM h).length_eq.symm

theorem exists_of_forall₂ {R : α → β → Prop} {l : List α} {l' : List β}
    (h : List.Forall₂ R l l') {b : β} (hb : b ∈ l') : ∃ a ∈ l, R a b := by
  induction h with
  | nil => cases hb
  | cons hHead _ ih =>
    rcases mem_cons.mp hb with rfl | hb
    · exact ⟨_, by simp, hHead⟩
    · obtain ⟨a, ha, hf⟩ := ih hb
      exact ⟨a, by simp [ha], hf⟩

theorem mem_of_mapM {f : α → Except ε β} {l : List α} {l' : List β} (h : l.mapM f = .ok l')
    {b : β} (hb : b ∈ l') : ∃ a ∈ l, f a = .ok b :=
  exists_of_forall₂ (forall₂_of_mapM h) hb

/-- A function that sees no difference sees none in the lists. -/
theorem map_eq_of_forall₂ {γ : Type} {l : List α} {l' : List β} {g : α → γ} {g' : β → γ}
    (h : List.Forall₂ (fun a b => g' b = g a) l l') : l'.map g' = l.map g := by
  induction h with
  | nil => rfl
  | cons hHead _ ih => rw [map_cons, map_cons, hHead, ih]

theorem pairwise_of_forall₂ {S : α → β → Prop} {R : α → α → Prop} {R' : β → β → Prop} {l : List α}
    {l' : List β} (h : List.Forall₂ S l l') (hR : ∀ a a' b b', S a a' → S b b' → R a b → R' a' b')
    (hPairwise : l.Pairwise R) : l'.Pairwise R' := by
  induction h with
  | nil => exact .nil
  | cons hHead hRest ih =>
    rw [pairwise_cons] at hPairwise ⊢
    refine ⟨fun b' hb' => ?_, ih hPairwise.2⟩
    obtain ⟨b, hb, hS⟩ := exists_of_forall₂ hRest hb'
    exact hR _ _ _ _ hHead hS (hPairwise.1 b hb)

/-- What a computation without error returns for each element. -/
theorem eq_map_of_forall₂ {f : α → Except ε β} {g : α → β} {l : List α} {l' : List β}
    (h : List.Forall₂ (fun a b => f a = .ok b) l l') (hg : ∀ a b, f a = .ok b → g a = b) :
    l' = l.map g := by
  induction h with
  | nil => rfl
  | cons hHead _ ih => rw [map_cons, hg _ _ hHead, ih]

theorem map_of_mapM {γ : Type} {f : α → Except ε β} {l : List α} {l' : List β} {g : α → γ}
    {g' : β → γ} (h : l.mapM f = .ok l') (hSame : ∀ a b, f a = .ok b → g' b = g a) :
    l'.map g' = l.map g :=
  map_eq_of_forall₂ ((forall₂_of_mapM h).imp hSame)

theorem foldlM_invariant {P : β → Prop} {f : β → α → Except ε β} {l : List α} {b b' : β}
    (h : l.foldlM f b = .ok b') (hStart : P b)
    (hStep : ∀ b a b', P b → f b a = .ok b' → P b') : P b' := by
  induction l generalizing b with
  | nil =>
    cases h
    exact hStart
  | cons a l ih =>
    rw [foldlM_cons, bind_eq_ok] at h
    obtain ⟨c, hc, h⟩ := h
    exact ih h (hStep b a c hStart hc)

/-- What a loop adds to a list, item by item. -/
theorem forall₂_of_foldlM {R : α → β → Prop} {f : List β → α → Except ε (List β)} {l : List α}
    {bs bs' : List β} (h : l.foldlM f bs = .ok bs')
    (hStep : ∀ bs a bs', f bs a = .ok bs' → ∃ b, bs' = bs ++ [b] ∧ R a b) :
    ∃ new, bs' = bs ++ new ∧ List.Forall₂ R l new := by
  induction l generalizing bs with
  | nil =>
    cases h
    exact ⟨[], by simp, .nil⟩
  | cons a l ih =>
    rw [foldlM_cons, bind_eq_ok] at h
    obtain ⟨c, hc, h⟩ := h
    obtain ⟨b, rfl, hb⟩ := hStep _ _ _ hc
    obtain ⟨new, rfl, hNew⟩ := ih h
    exact ⟨b :: new, by simp, .cons hb hNew⟩

theorem forM_eq_ok {f : α → Except ε Unit} {l : List α} :
    l.forM f = .ok () ↔ ∀ a ∈ l, f a = .ok () := by
  induction l with
  | nil => simp [pure, Except.pure]
  | cons a l ih =>
    change (f a >>= fun _ => l.forM f) = .ok () ↔ _
    rw [bind_eq_ok, forall_mem_cons, ← ih]
    constructor
    · rintro ⟨⟨⟩, hHead, hRest⟩
      exact ⟨hHead, hRest⟩
    · rintro ⟨hHead, hRest⟩
      exact ⟨(), hHead, hRest⟩

end TMEdge.Library
