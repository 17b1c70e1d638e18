import Mathlib.Data.Finset.Card
import Mathlib.Data.List.Nodup
import Mathlib.Logic.Relation
import Mathlib.Tactic.Linarith

/-!
# Union-find

A forest of parents in a list, an element whose parent is itself being a root. `find` follows the
parents and points every element on its way at the root; `link` points the root of one element at
the root of another.

* `Joined.link`: after a link the classes are those of the relation with the pair added.
-/

namespace TMEdge.Library.UnionFind

open List Option

variable {parents parents' : List Nat} {i j k k' r s x y : Nat} {R : Nat → Nat → Prop} {n : Nat}

/-- The root of an element, and the parents with the path to it compressed; `none` without enough
fuel. -/
def find : Nat → List Nat → Nat → Option (List Nat × Nat)
  | 0, _, _ => none
  | fuel + 1, parents, i =>
    let parent := parents[i]?.getD i
    if parent = i then some (parents, i)
    else (find fuel parents parent).map fun (parents, r) => (parents.set i r, r)

/-- The root of `i` is pointed at the root of `j`. -/
def link (fuel : Nat) (parents : List Nat) (i j : Nat) : Option (List Nat) :=
  (find fuel parents i).bind fun (parents, r) =>
    (find fuel parents j).map fun (parents, s) => parents.set r s

/-! ## Forests -/

/-- `k` parents lead from an element to a root. -/
inductive Leads (parents : List Nat) : Nat → Nat → Nat → Prop
  | root {i : Nat} (h : parents[i]? = some i) : Leads parents 0 i i
  | step {i p r k : Nat} (h : parents[i]? = some p) (hne : p ≠ i) (hp : Leads parents k p r) :
    Leads parents (k + 1) i r

/-- Every element leads to a root. -/
def Forest (parents : List Nat) : Prop := ∀ i < parents.length, ∃ k r, Leads parents k i r

theorem Leads.lt (h : Leads parents k i r) : i < parents.length := by
  cases h with
  | root h => exact (List.getElem?_eq_some_iff.mp h).1
  | step h hne hp => exact (List.getElem?_eq_some_iff.mp h).1

theorem Leads.isRoot (h : Leads parents k i r) : parents[r]? = some r := by
  induction h with
  | root h => exact h
  | step _ _ _ ih => exact ih

theorem Leads.of_root (h : Leads parents k i r) : Leads parents 0 r r := .root h.isRoot

theorem Leads.unique (h : Leads parents k i r) (h' : Leads parents k' i s) : k = k' ∧ r = s := by
  induction h generalizing k' with
  | root hi =>
    cases h' with
    | root => exact ⟨rfl, rfl⟩
    | step hi' hne => exact absurd (some.inj (hi'.symm.trans hi)) hne
  | step hi hne _ ih =>
    cases h' with
    | root hi' => exact absurd (some.inj (hi.symm.trans hi')) hne
    | step hi' _ hp' =>
      obtain rfl := some.inj (hi.symm.trans hi')
      obtain ⟨rfl, rfl⟩ := ih hp'
      exact ⟨rfl, rfl⟩

/-- On the way to a root there is an element for every smaller number of steps. -/
theorem Leads.exists_below (h : Leads parents k i r) {m : Nat} (hm : m ≤ k) :
    ∃ x, Leads parents m x r := by
  induction h with
  | @root i hi =>
    obtain rfl : m = 0 := Nat.le_zero.mp hm
    exact ⟨i, .root hi⟩
  | @step i p r k hi hne hp ih =>
    rcases Nat.lt_or_ge k m with hLt | hLe
    · obtain rfl : m = k + 1 := by omega
      exact ⟨i, .step hi hne hp⟩
    · exact ih hLe

/-- The elements on the way differ in their distance, so there are fewer steps than elements. -/
theorem Leads.lt_length (h : Leads parents k i r) : k < parents.length := by
  choose! at_ hAt using fun m (hm : m ≤ k) => h.exists_below hm
  have hCard := Finset.card_le_card_of_injOn at_ (s := Finset.range (k + 1))
    (t := Finset.range parents.length)
    (fun m hm => Finset.mem_coe.mpr (Finset.mem_range.mpr
      (hAt m (Nat.lt_succ_iff.mp (Finset.mem_range.mp hm))).lt))
    (fun m hm m' hm' hEq => by
      have hm := hAt m (Nat.lt_succ_iff.mp (Finset.mem_range.mp hm))
      have hm' := hAt m' (Nat.lt_succ_iff.mp (Finset.mem_range.mp hm'))
      rw [hEq] at hm
      exact (hm.unique hm').1)
  rw [Finset.card_range, Finset.card_range] at hCard
  omega

/-! ## Paths are compressed -/

/-- Everything leads where it led before, in no more steps. -/
structure Compresses (parents parents' : List Nat) : Prop where
  length : parents'.length = parents.length
  leads : ∀ k x s, Leads parents k x s → ∃ k' ≤ k, Leads parents' k' x s

theorem Compresses.refl (parents : List Nat) : Compresses parents parents :=
  ⟨rfl, fun k _ _ h => ⟨k, le_rfl, h⟩⟩

theorem Compresses.trans {parents'' : List Nat} (h : Compresses parents parents')
    (h' : Compresses parents' parents'') : Compresses parents parents'' where
  length := h'.length.trans h.length
  leads k x s hLeads := by
    obtain ⟨k', hk', hLeads'⟩ := h.leads k x s hLeads
    obtain ⟨k'', hk'', hLeads''⟩ := h'.leads k' x s hLeads'
    exact ⟨k'', hk''.trans hk', hLeads''⟩

theorem Compresses.forest (h : Compresses parents parents') (hForest : Forest parents) :
    Forest parents' := by
  intro i hi
  rw [h.length] at hi
  obtain ⟨k, r, hLeads⟩ := hForest i hi
  obtain ⟨k', -, hLeads'⟩ := h.leads k i r hLeads
  exact ⟨k', r, hLeads'⟩

/-- An element that is no root is pointed at its root. -/
theorem compresses_set (h : Leads parents k i r) (hne : i ≠ r) :
    Compresses parents (parents.set i r) := by
  refine ⟨length_set, fun k' x s hLeads => ?_⟩
  have hRoot : Leads (parents.set i r) 0 r r :=
    .root (by rw [getElem?_set_ne hne, h.isRoot])
  induction hLeads with
  | @root x hx =>
    have hxi : i ≠ x := by
      rintro rfl
      exact hne (h.unique (.root hx)).2.symm
    exact ⟨0, le_rfl, .root (by rw [getElem?_set_ne hxi, hx])⟩
  | @step x p s k' hx hxp hp ih =>
    by_cases hxi : i = x
    · subst hxi
      obtain ⟨-, rfl⟩ := h.unique (.step hx hxp hp)
      exact ⟨1, by omega, .step (getElem?_set_self h.lt) hne.symm hRoot⟩
    · obtain ⟨k'', hk'', hLeads⟩ := ih
      exact ⟨k'' + 1, by omega, .step (by rw [getElem?_set_ne hxi, hx]) hxp hLeads⟩

/-- `find` ends at the root. -/
theorem find_eq (h : Leads parents k i r) {fuel : Nat} (hFuel : k < fuel) :
    ∃ parents', find fuel parents i = some (parents', r) ∧ Compresses parents parents' := by
  induction h generalizing fuel with
  | @root i hi =>
    obtain ⟨fuel, rfl⟩ := Nat.exists_eq_succ_of_ne_zero (by omega : fuel ≠ 0)
    exact ⟨parents, by simp [find, hi], .refl parents⟩
  | @step i p r k hi hne hp ih =>
    obtain ⟨fuel, rfl⟩ := Nat.exists_eq_succ_of_ne_zero (by omega : fuel ≠ 0)
    obtain ⟨parents', hFind, hCompresses⟩ := @ih fuel (by omega)
    have hStep : Leads parents (k + 1) i r := .step hi hne hp
    obtain ⟨k', -, hLeads⟩ := hCompresses.leads _ _ _ hStep
    have hir : i ≠ r := by
      rintro rfl
      have hZero := (hStep.unique hStep.of_root).1
      omega
    exact ⟨parents'.set i r, by simp [find, hi, hne, hFind],
      hCompresses.trans (compresses_set hLeads hir)⟩

/-! ## Classes -/

/-- Two elements lead to one root, or are the same. -/
def Same (parents : List Nat) (x y : Nat) : Prop :=
  x = y ∨ ∃ k k' r, Leads parents k x r ∧ Leads parents k' y r

theorem Same.of_leads (hx : Leads parents k x r) (hy : Leads parents k' y r) : Same parents x y :=
  .inr ⟨k, k', r, hx, hy⟩

theorem Same.symm (h : Same parents x y) : Same parents y x := by
  rcases h with rfl | ⟨k, k', r, hx, hy⟩
  · exact .inl rfl
  · exact .of_leads hy hx

theorem Same.trans {z : Nat} (h : Same parents x y) (h' : Same parents y z) : Same parents x z := by
  rcases h with rfl | ⟨k, k', r, hx, hy⟩
  · exact h'
  · rcases h' with rfl | ⟨_, _, s, hy', hz⟩
    · exact .of_leads hx hy
    · obtain rfl := (hy.unique hy').2
      exact .of_leads hx hz

theorem same_iff (hx : Leads parents k x r) (hy : Leads parents k' y s) :
    Same parents x y ↔ r = s := by
  constructor
  · rintro (rfl | ⟨_, _, t, hx', hy'⟩)
    · exact (hx.unique hy).2
    · exact ((hx.unique hx').2).trans ((hy.unique hy').2).symm
  · rintro rfl
    exact .of_leads hx hy

/-- The classes of a forest on `n` elements are those of a relation. -/
structure Joined (n : Nat) (R : Nat → Nat → Prop) (parents : List Nat) : Prop where
  length : parents.length = n
  forest : Forest parents
  same : ∀ x y, Same parents x y ↔ Relation.EqvGen R x y

theorem eqvGen_le {E : Nat → Nat → Prop} (hRel : ∀ x y, R x y → E x y) (hRefl : ∀ x, E x x)
    (hSymm : ∀ x y, E x y → E y x) (hTrans : ∀ x y z, E x y → E y z → E x z)
    (h : Relation.EqvGen R x y) : E x y := by
  induction h with
  | rel x y h => exact hRel x y h
  | refl x => exact hRefl x
  | symm x y _ ih => exact hSymm x y ih
  | trans x y z _ _ ih ih' => exact hTrans x y z ih ih'

theorem Joined.exists_leads (h : Joined n R parents) (hx : x < n) :
    ∃ k r, Leads parents k x r := h.forest x (by rw [h.length]; exact hx)

/-- Every element its own root. -/
theorem joined_range (n : Nat) : Joined n (fun _ _ => False) (List.range n) := by
  have hRoot : ∀ x < n, Leads (List.range n) 0 x x := fun x hx =>
    .root (by rw [getElem?_range hx])
  refine ⟨length_range, fun x hx => ?_, fun x y => ?_⟩
  · rw [length_range] at hx
    exact ⟨0, x, hRoot x hx⟩
  · constructor
    · rintro (rfl | ⟨k, k', r, hx, hy⟩)
      · exact .refl x
      · have hxn := hx.lt
        have hyn := hy.lt
        rw [length_range] at hxn hyn
        obtain rfl := (hRoot x hxn |>.unique hx).2
        obtain rfl := (hRoot y hyn |>.unique hy).2
        exact .refl _
    · intro h
      exact eqvGen_le (fun _ _ h => h.elim) (fun _ => .inl rfl) (fun _ _ => Same.symm)
        (fun _ _ _ => Same.trans) h

theorem Compresses.joined (h : Compresses parents parents') (hJoined : Joined n R parents) :
    Joined n R parents' where
  length := h.length.trans hJoined.length
  forest := h.forest hJoined.forest
  same x y := by
    rw [← hJoined.same]
    have hOld : ∀ {k x r}, Leads parents' k x r → ∃ k, Leads parents k x r := by
      intro k x r hx
      obtain ⟨m, s, hs⟩ := hJoined.forest x (by rw [← h.length]; exact hx.lt)
      obtain ⟨m', -, hs'⟩ := h.leads m x s hs
      obtain rfl := (hx.unique hs').2
      exact ⟨m, hs⟩
    constructor
    · rintro (rfl | ⟨k, k', r, hx, hy⟩)
      · exact .inl rfl
      · obtain ⟨m, hx⟩ := hOld hx
        obtain ⟨m', hy⟩ := hOld hy
        exact .of_leads hx hy
    · rintro (rfl | ⟨k, k', r, hx, hy⟩)
      · exact .inl rfl
      · obtain ⟨m, -, hx⟩ := h.leads k x r hx
        obtain ⟨m', -, hy⟩ := h.leads k' y r hy
        exact .of_leads hx hy

/-- A root pointed at another takes its elements along. -/
theorem leads_set (hr : Leads parents 0 r r) (hs : Leads parents 0 s s) (hne : r ≠ s)
    {t : Nat} (hx : Leads parents k x t) :
    ∃ k', Leads (parents.set r s) k' x (if t = r then s else t) := by
  have hRoot : Leads (parents.set r s) 0 s s :=
    .root (by rw [getElem?_set_ne hne, hs.isRoot])
  induction hx with
  | @root x hx =>
    by_cases hxr : x = r
    · subst hxr
      rw [if_pos rfl]
      exact ⟨1, .step (getElem?_set_self hr.lt) hne.symm hRoot⟩
    · rw [if_neg hxr]
      exact ⟨0, .root (by rw [getElem?_set_ne (Ne.symm hxr), hx])⟩
  | @step x p t k hx hxp hp ih =>
    have hxr : r ≠ x := by
      rintro rfl
      exact hxp (some.inj (hx.symm.trans hr.isRoot))
    obtain ⟨k', hLeads⟩ := ih
    exact ⟨k' + 1, .step (by rw [getElem?_set_ne hxr, hx]) hxp hLeads⟩

/-- Pointing the root of `i` at the root of `j` joins their classes. -/
theorem Joined.set {n : Nat} (h : Joined n R parents) (hi : Leads parents k i r)
    (hj : Leads parents k' j s) :
    Joined n (fun x y => R x y ∨ x = i ∧ y = j) (parents.set r s) := by
  by_cases hne : r = s
  · -- they are in one class already
    subst hne
    have hSet : parents.set r r = parents := by
      obtain ⟨hr, hEq⟩ := List.getElem?_eq_some_iff.mp hi.isRoot
      have hSelf := set_getElem_self hr
      rwa [hEq] at hSelf
    rw [hSet]
    refine ⟨h.length, h.forest, fun x y => ?_⟩
    rw [h.same]
    constructor
    · exact Relation.EqvGen.mono (fun _ _ => Or.inl) _ _
    · refine eqvGen_le (fun x y hxy => ?_) Relation.EqvGen.refl (fun _ _ => .symm _ _)
        (fun _ _ _ => .trans _ _ _)
      rcases hxy with hxy | ⟨rfl, rfl⟩
      · exact .rel _ _ hxy
      · exact (h.same _ _).mp (.of_leads hi hj)
  · have hNew := fun {k x t} hx => @leads_set parents k r s x hi.of_root hj.of_root hne t hx
    have hForest : Forest (parents.set r s) := by
      intro x hx
      rw [length_set] at hx
      obtain ⟨k, t, hLeads⟩ := h.forest x hx
      obtain ⟨k', hLeads'⟩ := hNew hLeads
      exact ⟨k', _, hLeads'⟩
    refine ⟨length_set.trans h.length, hForest, fun x y => ?_⟩
    have hOld : ∀ {x y}, Same parents x y →
        Relation.EqvGen (fun x y => R x y ∨ x = i ∧ y = j) x y := fun hSame =>
      Relation.EqvGen.mono (fun _ _ => Or.inl) _ _ ((h.same _ _).mp hSame)
    have hPair : Relation.EqvGen (fun x y => R x y ∨ x = i ∧ y = j) i j :=
      .rel _ _ (.inr ⟨rfl, rfl⟩)
    constructor
    · rintro (rfl | ⟨m, m', t, hx, hy⟩)
      · exact .refl x
      · have hxn := hx.lt
        have hyn := hy.lt
        rw [length_set] at hxn hyn
        obtain ⟨l, u, hxu⟩ := h.forest x hxn
        obtain ⟨l', v, hyv⟩ := h.forest y hyn
        obtain ⟨_, hxu'⟩ := hNew hxu
        obtain ⟨_, hyv'⟩ := hNew hyv
        have hEq := ((hxu'.unique hx).2).trans ((hyv'.unique hy).2).symm
        by_cases hu : u = r
        · by_cases hv : v = r
          · subst hu hv
            exact hOld (.of_leads hxu hyv)
          · subst hu
            rw [if_pos rfl, if_neg hv] at hEq
            subst hEq
            exact .trans _ _ _ (hOld (.of_leads hxu hi))
              (.trans _ _ _ hPair (hOld (.of_leads hj hyv)))
        · by_cases hv : v = r
          · subst hv
            rw [if_neg hu, if_pos rfl] at hEq
            subst hEq
            exact .trans _ _ _ (hOld (.of_leads hxu hj))
              (.trans _ _ _ (.symm _ _ hPair) (hOld (.of_leads hi hyv)))
          · rw [if_neg hu, if_neg hv] at hEq
            subst hEq
            exact hOld (.of_leads hxu hyv)
    · refine eqvGen_le (fun x y hxy => ?_) (fun x => .inl rfl) (fun _ _ => Same.symm)
        (fun _ _ _ => Same.trans)
      rcases hxy with hxy | ⟨rfl, rfl⟩
      · rcases (h.same x y).mpr (.rel _ _ hxy) with rfl | ⟨_, _, t, hx, hy⟩
        · exact .inl rfl
        · obtain ⟨_, hx'⟩ := hNew hx
          obtain ⟨_, hy'⟩ := hNew hy
          exact .of_leads hx' hy'
      · obtain ⟨_, hx'⟩ := hNew hi
        obtain ⟨_, hy'⟩ := hNew hj
        rw [if_pos rfl] at hx'
        rw [if_neg (Ne.symm hne)] at hy'
        exact .of_leads hx' hy'

/-- `find` with as much fuel as there are elements. -/
theorem Joined.find (h : Joined n R parents) (hi : i < n) :
    ∃ parents' k r, find n parents i = some (parents', r) ∧ Leads parents k i r ∧
      Compresses parents parents' := by
  obtain ⟨k, r, hLeads⟩ := h.exists_leads hi
  obtain ⟨parents', hFind, hCompresses⟩ := find_eq hLeads (h.length ▸ hLeads.lt_length)
  exact ⟨parents', k, r, hFind, hLeads, hCompresses⟩

/-- A link joins two classes. -/
theorem Joined.link {n : Nat} (h : Joined n R parents) (hi : i < n) (hj : j < n) :
    ∃ parents', link n parents i j = some parents' ∧
      Joined n (fun x y => R x y ∨ x = i ∧ y = j) parents' := by
  obtain ⟨p₁, k, r, hFind, hr, hCompresses⟩ := h.find hi
  have h₁ := hCompresses.joined h
  obtain ⟨p₂, k', s, hFind', hs, hCompresses'⟩ := h₁.find hj
  obtain ⟨_, -, hr₁⟩ := hCompresses.leads k i r hr
  obtain ⟨_, -, hr₂⟩ := hCompresses'.leads _ i r hr₁
  obtain ⟨_, -, hs₂⟩ := hCompresses'.leads k' j s hs
  refine ⟨p₂.set r s, ?_, (hCompresses'.joined h₁).set hr₂ hs₂⟩
  simp [UnionFind.link, hFind, hFind']

end TMEdge.Library.UnionFind
