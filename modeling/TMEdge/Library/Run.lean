import Mathlib

/-!
# Runs of an event-driven machine

A machine is a total step function `step : σ → ε → σ`; everything the environment may
choose (a clock reading, the outcome of a call, which suspended job runs next) is part
of the event. A run is the fold of `step` over a list of events.

* `run_invariant`: what holds at the start and is kept by every step holds after every
  run.
* `run_invariant_guarded`: the same when every step of the run meets a condition on the
  state it starts from (`Guarded`).
* `guarded_of_forall_split`: a property of every state passed through can be used as
  such a condition.
-/

namespace TMEdge.Library

variable {σ ε : Type*} {G : σ → ε → Prop} {es : List ε} {s : σ} {step : σ → ε → σ}

def run (step : σ → ε → σ) (s : σ) (es : List ε) : σ := es.foldl step s

@[simp] theorem run_nil (step : σ → ε → σ) (s : σ) : run step s [] = s := rfl

@[simp] theorem run_cons (step : σ → ε → σ) (s : σ) (e : ε) (es : List ε) :
    run step s (e :: es) = run step (step s e) es := rfl

theorem run_append (step : σ → ε → σ) (s : σ) (es fs : List ε) :
    run step s (es ++ fs) = run step (run step s es) fs := by
  simp [run]

theorem run_concat (step : σ → ε → σ) (s : σ) (es : List ε) (e : ε) :
    run step s (es ++ [e]) = step (run step s es) e := by
  simp [run]

/-- Every step of the run meets `G` in the state it starts from. -/
def Guarded (step : σ → ε → σ) (G : σ → ε → Prop) : σ → List ε → Prop
  | _, [] => True
  | s, e :: es => G s e ∧ Guarded step G (step s e) es

def decideGuarded (step : σ → ε → σ) (G : σ → ε → Prop) [∀ s e, Decidable (G s e)] :
    ∀ (s : σ) (es : List ε), Decidable (Guarded step G s es)
  | _, [] => isTrue trivial
  | s, e :: es =>
    have := decideGuarded step G (step s e) es
    inferInstanceAs (Decidable (G s e ∧ Guarded step G (step s e) es))

instance {step : σ → ε → σ} {G : σ → ε → Prop} [∀ s e, Decidable (G s e)] {s : σ}
    {es : List ε} : Decidable (Guarded step G s es) :=
  decideGuarded step G s es

theorem guarded_append {fs : List ε} :
    Guarded step G s (es ++ fs) ↔ Guarded step G s es ∧ Guarded step G (run step s es) fs := by
  induction es generalizing s with
  | nil => simp [Guarded]
  | cons e es ih => simp only [List.cons_append, Guarded, run_cons, ih, and_assoc]

theorem Guarded.and {step : σ → ε → σ} {G G' : σ → ε → Prop} {s : σ} {es : List ε}
    (h : Guarded step G s es) (h' : Guarded step G' s es) :
    Guarded step (fun s e => G s e ∧ G' s e) s es := by
  induction es generalizing s with
  | nil => trivial
  | cons e es ih => exact ⟨⟨h.1, h'.1⟩, ih h.2 h'.2⟩

theorem run_invariant_guarded (I : σ → Prop) (hstep : ∀ s e, I s → G s e → I (step s e))
    (h0 : I s) (hG : Guarded step G s es) : I (run step s es) := by
  induction es generalizing s with
  | nil => exact h0
  | cons e es ih => exact ih (hstep s e h0 hG.1) hG.2

theorem run_invariant (I : σ → Prop) (hstep : ∀ s e, I s → I (step s e)) (h0 : I s) (es : List ε) :
    I (run step s es) := by
  induction es generalizing s with
  | nil => exact h0
  | cons e es ih => exact ih (hstep s e h0)

/-- A condition that holds at every step taken from every prefix of the run guards it. -/
theorem guarded_of_forall_split (h : ∀ pre e post, es = pre ++ e :: post → G (run step s pre) e) :
    Guarded step G s es := by
  induction es generalizing s with
  | nil => trivial
  | cons e es ih =>
    refine ⟨h [] e es rfl, ih fun pre e' post he => ?_⟩
    have := h (e :: pre) e' post (by simp [he])
    simpa using this

/-- A condition on events alone that every event of the list meets. -/
theorem guarded_of_forall_mem {step : σ → ε → σ} {P : ε → Prop} {s : σ} {es : List ε}
    (h : ∀ e ∈ es, P e) : Guarded step (fun _ e => P e) s es := by
  induction es generalizing s with
  | nil => trivial
  | cons e es ih => exact ⟨h e (by simp), ih fun e' he' => h e' (by simp [he'])⟩

end TMEdge.Library
