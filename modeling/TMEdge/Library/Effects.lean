import Mathlib

/-!
# Programs of effects that may be interrupted

A program is a list of effects on a state. An effect that cannot be carried out throws.
A program may also be stopped in the middle of one effect, by an error that the effect
throws or by a crash, and then leaves what `interrupt` says.

* `exec`: the state a program leaves, and how it ended.
* `Holds`: what the ends of a program satisfy, by the list of its effects.
* `exec_holds`: the rule.
-/

namespace TMEdge.Library

inductive Ending
  | done
  | threw
  | crashed
  deriving DecidableEq

/-- Where a program is stopped, whether by a crash, and what the effect leaves. -/
structure Stop (π : Type*) where
  place : Nat
  crash : Bool
  leaves : π
  deriving DecidableEq

namespace Stop

variable {π : Type*}

def later (stop : Stop π) : Stop π := { stop with place := stop.place - 1 }

def ending (stop : Stop π) : Ending := if stop.crash then .crashed else .threw

end Stop

section Programs

variable {σ ε π : Type*} (apply : ε → σ → Option σ) (interrupt : ε → π → σ → σ)

def exec : List ε → Option (Stop π) → σ → σ × Ending
  | [], _, s => (s, .done)
  | e :: es, stop, s =>
    match stop.filter (·.place = 0) with
    | some stop => (interrupt e stop.leaves s, stop.ending)
    | none =>
      match apply e s with
      | some s' => exec es (stop.map Stop.later) s'
      | none => (s, .threw)

/-- A program that is done leaves `Q`, one that throws `T` and one that crashes in its
`n`-th effect `C n`; it is stopped only where `allowed` says. -/
def Holds (Q T : σ → Prop) : List ε → (allowed : Nat → Bool → Prop) → (C : Nat → σ → Prop) →
    σ → Prop
  | [], _, _, s => Q s
  | e :: es, allowed, C, s =>
    (allowed 0 false → ∀ left, T (interrupt e left s)) ∧
      (allowed 0 true → ∀ left, C 0 (interrupt e left s)) ∧
      (apply e s = none → T s) ∧
      ∀ s', apply e s = some s' →
        Holds Q T es (fun n => allowed (n + 1)) (fun n => C (n + 1)) s'

theorem exec_holds {Q T : σ → Prop} {es : List ε} {allowed : Nat → Bool → Prop}
    {C : Nat → σ → Prop} {s : σ} (h : Holds apply interrupt Q T es allowed C s)
    {stop : Option (Stop π)}
    (hStop : ∀ st, stop = some st → st.place < es.length → allowed st.place st.crash) :
    match (exec apply interrupt es stop s).2 with
    | .done => Q (exec apply interrupt es stop s).1
    | .threw => T (exec apply interrupt es stop s).1
    | .crashed => ∃ st, stop = some st ∧ C st.place (exec apply interrupt es stop s).1 := by
  induction es generalizing allowed C s stop with
  | nil => exact h
  | cons e es ih =>
    obtain ⟨hThrow, hCrash, hFails, hNext⟩ := h
    unfold exec
    cases hFirst : stop.filter (·.place = 0) with
    | some st =>
      obtain ⟨hSome, hPlace⟩ := Option.filter_eq_some_iff.mp hFirst
      rw [decide_eq_true_eq] at hPlace
      have hAllowed := hStop st hSome (by rw [hPlace]; exact Nat.succ_pos _)
      rw [hPlace] at hAllowed
      dsimp only [Stop.ending]
      cases hWay : st.crash with
      | true => exact ⟨st, hSome, hPlace ▸ hCrash (hWay ▸ hAllowed) st.leaves⟩
      | false => exact hThrow (hWay ▸ hAllowed) st.leaves
    | none =>
      dsimp only
      cases hApply : apply e s with
      | none => exact hFails hApply
      | some s' =>
        have hLater : ∀ st, stop = some st → st.place - 1 + 1 = st.place := by
          intro st hSome
          rw [hSome, Option.filter_some] at hFirst
          split at hFirst
          · cases hFirst
          · rename_i hPlace
            rw [decide_eq_true_eq] at hPlace
            omega
        have hRest := @ih _ _ s' (hNext s' hApply) (stop.map Stop.later) fun st hSome hPlace => by
          obtain ⟨st₀, hSome₀, rfl⟩ := Option.map_eq_some_iff.mp hSome
          have hPlace' : st₀.place - 1 < es.length := hPlace
          have hAllowed := hStop st₀ hSome₀ (by rw [List.length_cons]; omega)
          rwa [← hLater st₀ hSome₀] at hAllowed
        dsimp only
        split at hRest
        · exact hRest
        · exact hRest
        · obtain ⟨st, hSome, hC⟩ := hRest
          obtain ⟨st₀, hSome₀, rfl⟩ := Option.map_eq_some_iff.mp hSome
          have hC' : C (st₀.place - 1 + 1) _ := hC
          rw [hLater st₀ hSome₀] at hC'
          exact ⟨st₀, hSome₀, hC'⟩

end Programs

end TMEdge.Library
