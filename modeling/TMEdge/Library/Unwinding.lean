import TMEdge.Library.Run

/-!
# Runs that look alike

A relation between states that every visible step keeps, and that no hidden step leaves, relates
what two runs come to that differ in their hidden steps only.
-/

namespace TMEdge.Library

variable {σ ε : Type*} {step : σ → ε → σ} {R : σ → σ → Prop} {visible : ε → Bool}

/-- A run looks like what is left of it without its hidden steps. -/
theorem run_filter_related
    (hVisible : ∀ s s' e, R s s' → visible e = true → R (step s e) (step s' e))
    (hHidden : ∀ s s' e, R s s' → visible e = false → R (step s e) s') {s s' : σ} (h : R s s')
    (es : List ε) : R (run step s es) (run step s' (es.filter visible)) := by
  induction es generalizing s s' with
  | nil => exact h
  | cons e es ih =>
    rcases hSeen : visible e with - | -
    · rw [run_cons, List.filter_cons_of_neg (by simp [hSeen])]
      exact ih (hHidden s s' e h hSeen)
    · rw [run_cons, List.filter_cons_of_pos hSeen, run_cons]
      exact ih (hVisible s s' e h hSeen)

theorem run_related (hSymm : ∀ s s', R s s' → R s' s)
    (hTrans : ∀ s s' s'', R s s' → R s' s'' → R s s'')
    (hVisible : ∀ s s' e, R s s' → visible e = true → R (step s e) (step s' e))
    (hHidden : ∀ s s' e, R s s' → visible e = false → R (step s e) s') {s : σ} (h : R s s)
    {es fs : List ε} (hSame : es.filter visible = fs.filter visible) :
    R (run step s es) (run step s fs) := by
  have hLeft := run_filter_related hVisible hHidden h es
  have hRight := run_filter_related hVisible hHidden h fs
  rw [hSame] at hLeft
  exact hTrans _ _ _ hLeft (hSymm _ _ hRight)

end TMEdge.Library
