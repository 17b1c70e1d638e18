import Mathlib

/-!
# Traces

A trace is a list of entries that grows at its end. `cut a b` says that the entry `b` ends
what the entry `a` stands for (a reset of what `a` wrote, say).

* `Since cut t a`: `a` is in the trace and nothing after it cuts it.
* `Ordered cut rel t`: `rel` holds between any two entries, the earlier of which is not cut
  in between. `ordered_concat` is its induction step.
* `Justified P t`: every entry satisfies `P` of the entries before it.
-/

namespace TMEdge.Library

open List

variable {α : Type*} {cut : α → α → Prop} {rel : α → α → Prop} {a e : α} {t : List α}

/-- Where an entry of an extended trace stands. -/
theorem concat_eq_append_cons {pre post : List α} :
    t ++ [e] = pre ++ a :: post ↔
      (post = [] ∧ pre = t ∧ a = e) ∨ ∃ post', post = post' ++ [e] ∧ t = pre ++ a :: post' := by
  constructor
  · intro h
    rcases eq_nil_or_concat post with rfl | ⟨post', b, rfl⟩
    · obtain ⟨rfl, he⟩ := append_inj' h rfl
      exact Or.inl ⟨rfl, rfl, by simpa using he.symm⟩
    · rw [concat_eq_append,
        show pre ++ a :: (post' ++ [b]) = (pre ++ a :: post') ++ [b] by simp] at h
      obtain ⟨rfl, he⟩ := append_inj' h rfl
      obtain rfl : e = b := by simpa using he
      exact Or.inr ⟨post', concat_eq_append, rfl⟩
  · rintro (⟨rfl, rfl, rfl⟩ | ⟨post', rfl, rfl⟩)
    · rfl
    · simp

variable (cut rel) in
def Since (t : List α) (a : α) : Prop :=
  ∃ pre post, t = pre ++ a :: post ∧ ∀ b ∈ post, ¬ cut a b

theorem since_nil : ¬ Since cut [] a := by
  rintro ⟨pre, post, h, _⟩
  simp at h

theorem since_concat : Since cut (t ++ [e]) a ↔ a = e ∨ (Since cut t a ∧ ¬ cut a e) := by
  constructor
  · rintro ⟨pre, post, h, hCut⟩
    rcases concat_eq_append_cons.mp h with ⟨_, _, rfl⟩ | ⟨post', rfl, rfl⟩
    · exact Or.inl rfl
    · refine Or.inr ⟨⟨pre, post', rfl, fun b hb => hCut b ?_⟩, hCut e ?_⟩
      · exact mem_append_left _ hb
      · simp
  · rintro (rfl | ⟨⟨pre, post, rfl, hCut⟩, he⟩)
    · exact ⟨t, [], rfl, by simp⟩
    · refine ⟨pre, post ++ [e], by simp, fun b hb => ?_⟩
      rcases mem_append.mp hb with hb | hb
      · exact hCut b hb
      · rw [mem_singleton] at hb
        exact hb ▸ he

theorem Since.mem (h : Since cut t a) : a ∈ t := by
  obtain ⟨pre, post, rfl, _⟩ := h
  simp

variable (cut rel) in
def Ordered (t : List α) : Prop :=
  ∀ pre a mid b post, t = pre ++ a :: (mid ++ b :: post) → (∀ x ∈ mid, ¬ cut a x) → rel a b

theorem ordered_nil : Ordered cut rel [] := by
  intro pre a mid b post h
  simp at h

theorem ordered_concat (h : Ordered cut rel t) (he : ∀ a, Since cut t a → rel a e) :
    Ordered cut rel (t ++ [e]) := by
  intro pre a mid b post hEq hCut
  rw [show pre ++ a :: (mid ++ b :: post) = (pre ++ a :: mid) ++ b :: post by simp] at hEq
  rcases concat_eq_append_cons.mp hEq with ⟨_, rfl, rfl⟩ | ⟨post', rfl, rfl⟩
  · exact he a ⟨pre, mid, rfl, hCut⟩
  · exact h pre a mid b post' (by simp) hCut

def Justified (P : List α → α → Prop) (t : List α) : Prop :=
  ∀ pre a post, t = pre ++ a :: post → P pre a

variable {P : List α → α → Prop}

theorem justified_nil : Justified P [] := by
  intro pre a post h
  simp at h

theorem justified_concat (h : Justified P t) (he : P t e) : Justified P (t ++ [e]) := by
  intro pre a post hEq
  rcases concat_eq_append_cons.mp hEq with ⟨_, rfl, rfl⟩ | ⟨post', _, rfl⟩
  · exact he
  · exact h pre a post' rfl

/-- Entries that need no justification may be added freely. -/
theorem justified_append {l : List α} (h : Justified P t) (hl : ∀ e ∈ l, ∀ pre, P pre e) :
    Justified P (t ++ l) := by
  induction l generalizing t with
  | nil => simpa using h
  | cons e l ih =>
    rw [show t ++ e :: l = (t ++ [e]) ++ l by simp]
    refine ih (justified_concat h (hl e (by simp) t)) fun a ha => hl a ?_
    exact mem_cons_of_mem e ha

end TMEdge.Library
