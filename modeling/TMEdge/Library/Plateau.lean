import Mathlib.Order.RelClasses
import Mathlib.Logic.Relation
import Mathlib.Order.WellFounded

/-!
# Plateaus and a local tie rule

Points with values, a symmetric relation of being next to each other, and an order in which the
points are visited. A plateau is a connected set of equal values, as large as possible; a point is a
peak when nothing next to it is greater and nothing equal next to it comes before it.

* `one_peak_iff`: the peaks are one for each plateau without a greater point next to it, and lie
  on no other, exactly when every point without an equal one next to it and before it is the first
  of its plateau, or has a greater one next to it if the plateau has.
-/

namespace TMEdge.Library

variable {κ α : Type*} {near : κ → κ → Prop} {v : κ → α} {rank : κ → ℕ} {c d : κ}

/-- On one plateau. -/
def Plateau (near : κ → κ → Prop) (v : κ → α) : κ → κ → Prop :=
  Relation.ReflTransGen fun a b => near a b ∧ v b = v a

/-- No equal point next to it comes before it. -/
def Leads (near : κ → κ → Prop) (v : κ → α) (rank : κ → ℕ) (c : κ) : Prop :=
  ∀ n, near c n → v n = v c → rank c ≤ rank n

/-- No point of its plateau comes before it. -/
def FirstOf (near : κ → κ → Prop) (v : κ → α) (rank : κ → ℕ) (c : κ) : Prop :=
  ∀ d, Plateau near v c d → rank c ≤ rank d

theorem Plateau.refl (c : κ) : Plateau near v c c := Relation.ReflTransGen.refl

theorem Plateau.trans {e : κ} (h : Plateau near v c d) (h' : Plateau near v d e) :
    Plateau near v c e := Relation.ReflTransGen.trans h h'

theorem Plateau.symm (hNear : ∀ a b, near a b → near b a) (h : Plateau near v c d) :
    Plateau near v d c := by
  induction h with
  | refl => exact .refl c
  | tail _ hStep ih => exact ih.head ⟨hNear _ _ hStep.1, hStep.2.symm⟩

theorem Plateau.value (h : Plateau near v c d) : v d = v c := by
  induction h with
  | refl => rfl
  | tail _ hStep ih => exact hStep.2.trans ih

theorem FirstOf.leads (h : FirstOf near v rank c) : Leads near v rank c :=
  fun n hn hEq => h n (Relation.ReflTransGen.single ⟨hn, hEq⟩)

/-- Every plateau has a first point. -/
theorem exists_firstOf (near : κ → κ → Prop) (v : κ → α) (rank : κ → ℕ) (c : κ) :
    ∃ d, Plateau near v c d ∧ FirstOf near v rank d := by
  obtain ⟨d, hd, hMin⟩ := WellFounded.has_min (measure rank).wf {d | Plateau near v c d} ⟨c, .refl c⟩
  refine ⟨d, hd, fun e he => ?_⟩
  exact not_lt.mp (hMin e (hd.trans he))

variable [LT α]

/-- Something next to it is greater. -/
def Overlooked (near : κ → κ → Prop) (v : κ → α) (c : κ) : Prop := ∃ n, near c n ∧ v c < v n

/-- Nothing next to its plateau is greater. -/
def Summit (near : κ → κ → Prop) (v : κ → α) (c : κ) : Prop :=
  ∀ d, Plateau near v c d → ¬ Overlooked near v d

def Peak (near : κ → κ → Prop) (v : κ → α) (rank : κ → ℕ) (c : κ) : Prop :=
  ¬ Overlooked near v c ∧ Leads near v rank c

theorem Summit.of_plateau (h : Summit near v c) (hPlateau : Plateau near v c d) :
    Summit near v d := fun e he => h e (hPlateau.trans he)

/-- The first point of a summit is a peak. -/
theorem Summit.peak (h : Summit near v c) (hFirst : FirstOf near v rank c) :
    Peak near v rank c := ⟨h c (.refl c), hFirst.leads⟩

/-- `D` chooses whole plateaus. -/
theorem one_peak_iff (hNear : ∀ a b, near a b → near b a) (hRank : Function.Injective rank)
    {D : κ → Prop} (hD : ∀ a b, v a = v b → D a → D b) :
    ((∀ c, D c → Peak near v rank c → Summit near v c) ∧
      ∀ c, D c → Summit near v c → ∃! d, Plateau near v c d ∧ Peak near v rank d) ↔
    ∀ c, D c → Leads near v rank c →
      (Summit near v c → FirstOf near v rank c) ∧ (¬ Summit near v c → Overlooked near v c) := by
  constructor
  · rintro ⟨hOn, hOne⟩ c hc hLeads
    refine ⟨fun hSummit => ?_, fun hLow => ?_⟩
    · obtain ⟨m, hm, hFirst⟩ := exists_firstOf near v rank c
      have hPeak : Peak near v rank c := ⟨hSummit c (.refl c), hLeads⟩
      have hSame : c = m := (hOne c hc hSummit).unique ⟨.refl c, hPeak⟩
        ⟨hm, (hSummit.of_plateau hm).peak hFirst⟩
      rw [hSame]
      exact hFirst
    · by_contra hFree
      exact hLow (hOn c hc ⟨hFree, hLeads⟩)
  · intro h
    refine ⟨fun c hc hPeak => ?_, fun c hc hSummit => ?_⟩
    · by_contra hLow
      exact hPeak.1 ((h c hc hPeak.2).2 hLow)
    · obtain ⟨m, hm, hFirst⟩ := exists_firstOf near v rank c
      refine ⟨m, ⟨hm, (hSummit.of_plateau hm).peak hFirst⟩, ?_⟩
      rintro d ⟨hd, hPeak⟩
      have hFirst' := (h d (hD c d hd.value.symm hc) hPeak.2).1 (hSummit.of_plateau hd)
      have hBack := Plateau.symm hNear hd
      exact hRank (le_antisymm (hFirst' m (hBack.trans hm))
        (hFirst d ((Plateau.symm hNear hm).trans hd)))

end TMEdge.Library
