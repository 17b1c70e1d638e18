import Mathlib

/-!
# Greedy matching with capacities

Demands with some units each claim places one pair at a time, in a given order: a pair is taken
where its demand has units left and its place is free.

* `exists_claimed`: every order ends in a maximal matching that keeps to the capacities.
-/

namespace TMEdge.Library.Matching

open List

variable {β : Type*} {caps : List Nat} {ps chosen : List (Nat × β)}
  {acc : List Nat × List β}

/-- The units a demand has left, and the places that are taken, after one pair. -/
def claim [DecidableEq β] (acc : List Nat × List β) (p : Nat × β) : List Nat × List β :=
  let left := acc.1[p.1]?.getD 0
  if left = 0 ∨ p.2 ∈ acc.2 then acc else (acc.1.set p.1 (left - 1), acc.2 ++ [p.2])

/-- What has been claimed from the pairs so far, by the pairs that were taken. -/
structure Claimed (caps : List Nat) (ps : List (Nat × β)) (acc : List Nat × List β)
    (chosen : List (Nat × β)) : Prop where
  taken : chosen.map Prod.snd = acc.2
  nodup : acc.2.Nodup
  sub : ∀ c ∈ chosen, c ∈ ps
  left : ∀ i, acc.1[i]?.getD 0 + chosen.countP (fun c => c.1 = i) = caps[i]?.getD 0
  maximal : ∀ p ∈ ps, acc.1[p.1]?.getD 0 = 0 ∨ p.2 ∈ acc.2

theorem Claimed.nil (caps : List Nat) : Claimed caps ([] : List (Nat × β)) (caps, []) [] :=
  ⟨rfl, nodup_nil, by simp, by simp, by simp⟩

theorem Claimed.skip (h : Claimed caps ps acc chosen) {p : Nat × β}
    (hSkip : acc.1[p.1]?.getD 0 = 0 ∨ p.2 ∈ acc.2) : Claimed caps (ps ++ [p]) acc chosen := by
  refine ⟨h.taken, h.nodup, fun c hc => mem_append_left _ (h.sub c hc), h.left, ?_⟩
  intro q hq
  rcases mem_append.mp hq with hq | hq
  · exact h.maximal q hq
  · rw [mem_singleton.mp hq]
    exact hSkip

/-- Units after one of a demand is used. -/
theorem getD_set_pred (caps : List Nat) (i j : Nat) (h : caps[i]?.getD 0 ≠ 0) :
    (caps.set i (caps[i]?.getD 0 - 1))[j]?.getD 0 =
      if i = j then caps[i]?.getD 0 - 1 else caps[j]?.getD 0 := by
  have hLength : i < caps.length := by
    by_contra hLe
    exact h (by rw [getElem?_eq_none (not_lt.mp hLe), Option.getD_none])
  by_cases hij : i = j
  · subst hij
    rw [getElem?_set_self hLength, if_pos rfl, Option.getD_some]
  · rw [getElem?_set_ne hij, if_neg hij]

theorem Claimed.take (h : Claimed caps ps acc chosen) {p : Nat × β}
    (hLeft : acc.1[p.1]?.getD 0 ≠ 0) (hFree : p.2 ∉ acc.2) :
    Claimed caps (ps ++ [p]) (acc.1.set p.1 (acc.1[p.1]?.getD 0 - 1), acc.2 ++ [p.2])
      (chosen ++ [p]) := by
  refine ⟨?_, ?_, ?_, ?_, ?_⟩
  · rw [map_append, h.taken]
    rfl
  · rw [nodup_append]
    refine ⟨h.nodup, nodup_singleton _, fun a ha b hb hab => hFree ?_⟩
    rw [← mem_singleton.mp hb, ← hab]
    exact ha
  · intro c hc
    rcases mem_append.mp hc with hc | hc
    · exact mem_append_left _ (h.sub c hc)
    · exact mem_append_right _ hc
  · intro i
    have hUnits := h.left i
    rw [getD_set_pred _ _ _ hLeft, countP_append, countP_singleton]
    by_cases hi : p.1 = i
    · subst hi
      simp only [if_true, decide_true]
      omega
    · simp only [hi, if_false, decide_false]
      simpa using hUnits
  · intro q hq
    rcases mem_append.mp hq with hq | hq
    · rcases h.maximal q hq with hNone | hTaken
      · left
        rw [getD_set_pred _ _ _ hLeft]
        split
        next hEq => rw [hEq] at hLeft; exact absurd hNone hLeft
        next => exact hNone
      · exact Or.inr (mem_append_left _ hTaken)
    · rw [mem_singleton.mp hq]
      exact Or.inr (mem_append_right _ (mem_singleton_self _))

variable [DecidableEq β]

theorem Claimed.claim (h : Claimed caps ps acc chosen) (p : Nat × β) :
    ∃ chosen, Claimed caps (ps ++ [p]) (claim acc p) chosen := by
  unfold Matching.claim
  dsimp only
  split
  next hSkip => exact ⟨chosen, h.skip hSkip⟩
  next hTake =>
    rw [not_or] at hTake
    exact ⟨chosen ++ [p], h.take hTake.1 hTake.2⟩

theorem Claimed.foldl (h : Claimed caps ps acc chosen) (qs : List (Nat × β)) :
    ∃ chosen, Claimed caps (ps ++ qs) (qs.foldl Matching.claim acc) chosen := by
  induction qs generalizing ps acc chosen with
  | nil => exact ⟨chosen, by simpa using h⟩
  | cons q qs ih =>
    obtain ⟨chosen', h'⟩ := h.claim q
    obtain ⟨chosen'', h''⟩ := ih h'
    rw [append_assoc, singleton_append] at h''
    exact ⟨chosen'', h''⟩

theorem exists_claimed (caps : List Nat) (ps : List (Nat × β)) :
    ∃ chosen, Claimed caps ps (ps.foldl Matching.claim (caps, [])) chosen := by
  obtain ⟨chosen, h⟩ := (Claimed.nil (β := β) caps).foldl ps
  exact ⟨chosen, by simpa using h⟩

end TMEdge.Library.Matching
