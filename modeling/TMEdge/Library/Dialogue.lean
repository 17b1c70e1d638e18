/-!
# Programs that are answered

A program calls a world that answers it, in order, and prints lines. A run ends with a value or an
error, or waits when the answers have run out. The world may answer anything: a statement about
every list of answers is one about every behaviour of the world.

* `Prints`: the lines that a program prints, whatever it is answered, have a property.
* `prints_bind`, `prints_forever`: so do those of a sequence and of a loop.
-/

namespace TMEdge.Library

inductive Reply (ε β : Type)
  | value (b : β)
  | thrown (e : ε)
  | waiting
  deriving DecidableEq

/-- Answers of type `α`, lines of type `τ`, errors of type `ε`. -/
def Dialogue (α τ ε β : Type) := List α → List τ → Reply ε β × List α × List τ

namespace Dialogue

variable {α τ ε β γ σ : Type}

protected def pure (b : β) : Dialogue α τ ε β := fun answers lines => (.value b, answers, lines)

protected def bind (m : Dialogue α τ ε β) (f : β → Dialogue α τ ε γ) : Dialogue α τ ε γ :=
  fun answers lines =>
    match m answers lines with
    | (.value b, answers, lines) => f b answers lines
    | (.thrown e, answers, lines) => (.thrown e, answers, lines)
    | (.waiting, answers, lines) => (.waiting, answers, lines)

instance : Monad (Dialogue α τ ε) where
  pure := Dialogue.pure
  bind := Dialogue.bind

/-- One call, and its answer. -/
def ask : Dialogue α τ ε α := fun answers lines =>
  match answers with
  | [] => (.waiting, [], lines)
  | a :: answers => (.value a, answers, lines)

def print (l : τ) : Dialogue α τ ε Unit := fun answers lines => (.value (), answers, lines ++ [l])

def throws (e : ε) : Dialogue α τ ε β := fun answers lines => (.thrown e, answers, lines)

/-- `n` rounds at most of a loop. -/
def rounds (body : σ → Dialogue α τ ε (σ ⊕ β)) : Nat → σ → Dialogue α τ ε β
  | 0, _ => fun answers lines => (.waiting, answers, lines)
  | n + 1, s => body s >>= fun
    | .inl s => rounds body n s
    | .inr b => pure b

/-- A loop each round of which makes a call: it does not outlast the answers. -/
def forever (body : σ → Dialogue α τ ε (σ ⊕ β)) (s : σ) : Dialogue α τ ε β :=
  fun answers lines => rounds body (answers.length + 1) s answers lines

/-- The errors of a program, changed. -/
def mapError (f : ε → ε) (m : Dialogue α τ ε β) : Dialogue α τ ε β := fun answers lines =>
  match m answers lines with
  | (.thrown e, rest) => (.thrown (f e), rest)
  | r => r

/-! ## What is printed -/

variable {P : τ → Prop} {m : Dialogue α τ ε β} {f : β → Dialogue α τ ε γ} {answers : List α}
  {lines : List τ}

def Prints (P : τ → Prop) (m : Dialogue α τ ε β) : Prop :=
  ∀ answers lines, (∀ l ∈ lines, P l) → ∀ l ∈ (m answers lines).2.2, P l

theorem prints_pure (P : τ → Prop) (b : β) : Prints P (pure b : Dialogue α τ ε β) :=
  fun _ _ h => h

theorem prints_throws (P : τ → Prop) (e : ε) : Prints P (throws e : Dialogue α τ ε β) :=
  fun _ _ h => h

theorem prints_ask (P : τ → Prop) : Prints P (ask : Dialogue α τ ε α) := by
  intro answers lines h
  cases answers <;> exact h

theorem prints_print {l : τ} (hl : P l) : Prints P (print l : Dialogue α τ ε Unit) := by
  intro answers lines h l' hl'
  rcases List.mem_append.mp hl' with hl' | hl'
  · exact h l' hl'
  · rw [List.mem_singleton.mp hl']
    exact hl

theorem prints_bind (hm : Prints P m) (hf : ∀ b, Prints P (f b)) : Prints P (m >>= f) := by
  intro answers lines h
  have hFirst := hm answers lines h
  change ∀ l ∈ (Dialogue.bind m f answers lines).2.2, P l
  unfold Dialogue.bind
  split
  · rename_i b rest lines' hEq
    rw [hEq] at hFirst
    exact hf b rest lines' hFirst
  · rename_i e rest lines' hEq
    rwa [hEq] at hFirst
  · rename_i rest lines' hEq
    rwa [hEq] at hFirst

theorem prints_rounds {body : σ → Dialogue α τ ε (σ ⊕ β)} (hBody : ∀ s, Prints P (body s)) (n : Nat)
    (s : σ) : Prints P (rounds body n s) := by
  induction n generalizing s with
  | zero => exact fun _ _ h => h
  | succ n ih =>
    refine prints_bind (hBody s) fun r => ?_
    cases r with
    | inl s => exact ih s
    | inr b => exact prints_pure P b

theorem prints_forever {body : σ → Dialogue α τ ε (σ ⊕ β)} (hBody : ∀ s, Prints P (body s))
    (s : σ) : Prints P (forever body s) :=
  fun answers lines h => prints_rounds hBody _ s answers lines h

theorem prints_mapError (g : ε → ε) (hm : Prints P m) : Prints P (mapError g m) := by
  intro answers lines h
  have hFirst := hm answers lines h
  unfold mapError
  split
  · rename_i e rest hEq
    rwa [hEq] at hFirst
  · exact hFirst

theorem prints_ite {c : Prop} [Decidable c] {m' : Dialogue α τ ε β} (hm : Prints P m)
    (hm' : Prints P m') : Prints P (if c then m else m') := by
  split
  · exact hm
  · exact hm'

/-! ## Values and errors -/

theorem bind_eq_value {rest : List α} {lines' : List τ} {b : γ} :
    (m >>= f) answers lines = (.value b, rest, lines') ↔
      ∃ a answers₁ lines₁, m answers lines = (.value a, answers₁, lines₁) ∧
        f a answers₁ lines₁ = (.value b, rest, lines') := by
  change Dialogue.bind m f answers lines = _ ↔ _
  unfold Dialogue.bind
  constructor
  · intro h
    split at h
    · rename_i a answers₁ lines₁ hEq
      exact ⟨a, answers₁, lines₁, hEq, h⟩
    · cases h
    · cases h
  · rintro ⟨a, answers₁, lines₁, hEq, h⟩
    rw [hEq]
    exact h

theorem mapError_eq_thrown {g : ε → ε} {e : ε} (h : (mapError g m answers lines).1 = .thrown e) :
    ∃ e', e = g e' := by
  unfold mapError at h
  split at h
  · rename_i e' rest hEq
    cases h
    exact ⟨e', rfl⟩
  · rename_i hNot
    cases hRun : m answers lines with
    | mk r rest =>
      rw [hRun] at h
      dsimp only at h
      subst h
      exact absurd hRun (hNot e rest)

theorem mapError_eq_value {g : ε → ε} {rest : List α} {lines' : List τ} {b : β} :
    mapError g m answers lines = (.value b, rest, lines') ↔
      m answers lines = (.value b, rest, lines') := by
  unfold mapError
  constructor
  · intro h
    split at h
    · cases h
    · exact h
  · intro h
    rw [h]

end Dialogue

end TMEdge.Library
