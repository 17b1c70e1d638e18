import Mathlib.Data.Set.Card
import Mathlib.Logic.Relation

/-!
# Breadth-first search

A search takes what is at the front of its queue, and puts what it finds next to it and has not seen
before at the end, until it has taken `n`. What it has seen is known by its key.

* `Searching.run`: what has been taken stays connected, and is closed once the queue is empty.
* `connected_breadthFirst`, `joined_breadthFirst`, `le_encard_iff`: from one start, what is taken is
  connected, and there are `n` exactly when as many are reached from the start.
* `map_breadthFirst`: two searches that find the same take the same.
-/

namespace TMEdge.Library

open List

section search

variable {α κ : Type} {key : α → κ} {next : List κ → α → List α}

/-- `next seen a` is found next to `a`, where `seen` have been seen. -/
def breadthFirst (key : α → κ) (next : List κ → α → List α) :
    Nat → List κ → List α → List α
  | 0, _, _ => []
  | _ + 1, _, [] => []
  | n + 1, seen, a :: queue =>
    a :: breadthFirst key next n (seen ++ (next seen a).map key) (queue ++ next seen a)

@[simp] theorem breadthFirst_zero (seen : List κ) (queue : List α) :
    breadthFirst key next 0 seen queue = [] := rfl

@[simp] theorem breadthFirst_nil (n : Nat) (seen : List κ) :
    breadthFirst key next n seen [] = [] := by
  cases n <;> rfl

theorem length_breadthFirst_le (key : α → κ) (next : List κ → α → List α) (n : Nat)
    (seen : List κ) (queue : List α) : (breadthFirst key next n seen queue).length ≤ n := by
  induction n generalizing seen queue with
  | zero => exact le_rfl
  | succ n ih =>
    cases queue with
    | nil => exact Nat.zero_le _
    | cons a queue => exact Nat.succ_le_succ (ih _ _)

/-- What is on the queue is taken first. -/
theorem take_prefix_breadthFirst (key : α → κ) (next : List κ → α → List α) (n : Nat)
    (seen : List κ) (queue : List α) : queue.take n <+: breadthFirst key next n seen queue := by
  induction n generalizing seen queue with
  | zero => exact nil_prefix
  | succ n ih =>
    cases queue with
    | nil => exact nil_prefix
    | cons a queue =>
      rw [take_succ_cons, breadthFirst, cons_prefix_cons]
      refine ⟨rfl, List.IsPrefix.trans ?_ (ih _ (queue ++ next seen a))⟩
      exact (prefix_append queue _).take n

theorem breadthFirst_eq_take {n : Nat} {seen : List κ} {queue : List α} (h : n ≤ queue.length) :
    breadthFirst key next n seen queue = queue.take n := by
  refine ((take_prefix_breadthFirst key next n seen queue).eq_of_length_le ?_).symm
  rw [length_take_of_le h]
  exact length_breadthFirst_le key next n seen queue

/-- Searches that find the same take the same. -/
theorem map_breadthFirst {β κ' : Type} {key' : β → κ'} {next' : List κ' → β → List β} {f : α → β}
    {S : List κ → List κ' → Prop} {D : α → Prop}
    (hNext : ∀ seen seen' a, S seen seen' → D a → (next seen a).map f = next' seen' (f a) ∧
      S (seen ++ (next seen a).map key) (seen' ++ (next' seen' (f a)).map key') ∧
        ∀ b ∈ next seen a, D b)
    {n : Nat} {seen : List κ} {seen' : List κ'} {queue : List α} (hSeen : S seen seen')
    (hQueue : ∀ a ∈ queue, D a) :
    (breadthFirst key next n seen queue).map f = breadthFirst key' next' n seen' (queue.map f) := by
  induction n generalizing seen seen' queue with
  | zero => rfl
  | succ n ih =>
    cases queue with
    | nil => rfl
    | cons a queue =>
      rw [forall_mem_cons] at hQueue
      obtain ⟨hMap, hSeen', hFound⟩ := hNext seen seen' a hSeen hQueue.1
      have hQueue' : ∀ b ∈ queue ++ next seen a, D b := fun b hb =>
        (mem_append.mp hb).elim (hQueue.2 b) (hFound b)
      have hRest := ih hSeen' hQueue'
      rw [map_append, hMap] at hRest
      rw [breadthFirst, map_cons, hRest, map_cons, breadthFirst]

end search

/-! ## What is reached -/

section reached

variable {α κ : Type} {key : α → κ} {next : List κ → α → List α} {R : α → α → Prop}
  {D : α → Prop} {taken queue l : List α} {seen : List κ} {start a : α} {n : Nat}

/-- A search finds what is related and not seen, once each. -/
structure Finds (key : α → κ) (next : List κ → α → List α) (R : α → α → Prop) (D : α → Prop) :
    Prop where
  inside : ∀ a b, R a b → D b
  key_inj : ∀ a b, D a → D b → key a = key b → a = b
  mem : ∀ seen a b, D a → (b ∈ next seen a ↔ R a b ∧ key b ∉ seen)
  nodup : ∀ seen a, D a → ((next seen a).map key).Nodup

/-- All but the first are found next to one before. -/
def Grown (R : α → α → Prop) (l : List α) : Prop :=
  ∀ pre a post, l = pre ++ a :: post → pre ≠ [] → ∃ p ∈ pre, R p a

theorem Grown.left {l' : List α} (h : Grown R (l ++ l')) : Grown R l :=
  fun pre a post hSplit => h pre a (post ++ l') (by rw [hSplit, append_assoc]; rfl)

theorem Grown.append {new : List α} (h : Grown R l) (ha : a ∈ l) (hNew : ∀ b ∈ new, R a b) :
    Grown R (l ++ new) := by
  intro pre b post hSplit hPre
  rcases append_eq_append_iff.mp hSplit with ⟨mid, rfl, hRest⟩ | ⟨_ | ⟨c, mid⟩, rfl, hRest⟩
  · exact ⟨a, mem_append_left _ ha, hNew b (hRest ▸ by simp)⟩
  · rw [append_nil] at ha
    exact ⟨a, ha, hNew b (by rw [nil_append] at hRest; rw [← hRest]; simp)⟩
  · rw [cons_append, List.cons.injEq] at hRest
    exact h pre b mid (by rw [hRest.1]) hPre

/-- What is found is connected with the start. -/
theorem Grown.reached (h : Grown R (start :: l)) (ha : a ∈ start :: l) :
    Relation.ReflTransGen (fun x y => R x y ∧ x ∈ start :: l ∧ y ∈ start :: l) start a := by
  obtain ⟨pre, post, hSplit⟩ := append_of_mem ha
  induction hLength : pre.length using Nat.strong_induction_on generalizing pre a post with
  | _ k ih =>
    rcases pre with - | ⟨c, pre⟩
    · rw [nil_append, List.cons.injEq] at hSplit
      rw [hSplit.1]
    · obtain ⟨p, hp, hStep⟩ := h _ a post hSplit (by simp)
      obtain ⟨pre', post', hSplit'⟩ := append_of_mem hp
      have hAll : start :: l = pre' ++ p :: (post' ++ a :: post) := by
        rw [hSplit, hSplit', append_assoc]
        rfl
      have hpMem : p ∈ start :: l := hAll ▸ by simp
      have hShort : pre'.length < k := by
        rw [← hLength, hSplit', length_append, length_cons]
        omega
      exact (ih _ hShort hpMem pre' _ hAll rfl).tail ⟨hStep, hpMem, ha⟩

/-- A search on its way: `taken` has been taken and `queue` is waiting. -/
structure Searching (key : α → κ) (R : α → α → Prop) (D : α → Prop) (start : α)
    (taken queue : List α) (seen : List κ) : Prop where
  first : ∃ rest, taken ++ queue = start :: rest
  inside : ∀ a ∈ taken ++ queue, D a
  nodup : ((taken ++ queue).map key).Nodup
  known : ∀ k, k ∈ seen ↔ k ∈ (taken ++ queue).map key
  grown : Grown R (taken ++ queue)
  closed : ∀ a ∈ taken, ∀ b, R a b → key b ∈ seen

theorem searching_start (hStart : D start) :
    Searching key R D start [] [start] [key start] where
  first := ⟨[], rfl⟩
  inside a ha := mem_singleton.mp ha ▸ hStart
  nodup := nodup_singleton _
  known _ := Iff.rfl
  grown pre a post hSplit hPre := by
    rcases pre with - | ⟨c, pre⟩
    · exact absurd rfl hPre
    · simp at hSplit
  closed _ ha := absurd ha not_mem_nil

/-- One step of a search. -/
theorem Searching.step (hFinds : Finds key next R D)
    (h : Searching key R D start taken (a :: queue) seen) :
    Searching key R D start (taken ++ [a]) (queue ++ next seen a)
      (seen ++ (next seen a).map key) := by
  have hAll : taken ++ [a] ++ (queue ++ next seen a) = taken ++ a :: queue ++ next seen a := by
    simp
  have haMem : a ∈ taken ++ a :: queue := by simp
  have ha := h.inside a haMem
  obtain ⟨rest, hFirst⟩ := h.first
  refine ⟨⟨rest ++ next seen a, by rw [hAll, hFirst]; rfl⟩, fun b hb => ?_, ?_, fun k => ?_, ?_,
    fun b hb c hStep => ?_⟩
  · rw [hAll, mem_append] at hb
    rcases hb with hb | hb
    · exact h.inside b hb
    · exact hFinds.inside a b ((hFinds.mem seen a b ha).mp hb).1
  · rw [hAll, map_append, nodup_append]
    refine ⟨h.nodup, hFinds.nodup seen a ha, fun k hk k' hk' hEq => ?_⟩
    obtain ⟨b, hb, rfl⟩ := mem_map.mp hk'
    exact ((hFinds.mem seen a b ha).mp hb).2 ((h.known _).mpr (hEq ▸ hk))
  · rw [hAll, map_append, mem_append, mem_append, h.known]
  · rw [hAll]
    exact h.grown.append haMem fun b hb => ((hFinds.mem seen a b ha).mp hb).1
  · rw [mem_append]
    rcases mem_append.mp hb with hb | hb
    · exact .inl (h.closed b hb c hStep)
    · obtain rfl := mem_singleton.mp hb
      by_cases hc : key c ∈ seen
      · exact .inl hc
      · exact .inr (mem_map_of_mem ((hFinds.mem seen b c ha).mpr ⟨hStep, hc⟩))

/-- A whole search: it takes `n`, or all that it has seen. -/
theorem Searching.run (hFinds : Finds key next R D) (h : Searching key R D start taken queue seen)
    (n : Nat) : ∃ queue' seen',
      Searching key R D start (taken ++ breadthFirst key next n seen queue) queue' seen' ∧
        ((breadthFirst key next n seen queue).length = n ∨ queue' = []) := by
  induction n generalizing taken queue seen with
  | zero => exact ⟨queue, seen, by rwa [breadthFirst_zero, append_nil], .inl rfl⟩
  | succ n ih =>
    cases queue with
    | nil => exact ⟨[], seen, by rwa [breadthFirst_nil, append_nil], .inr rfl⟩
    | cons a queue =>
      obtain ⟨queue', seen', hRun, hEnd⟩ := ih (h.step hFinds)
      rw [append_assoc, singleton_append] at hRun
      exact ⟨queue', seen', hRun, hEnd.imp_left (congrArg Nat.succ)⟩

/-- Once the queue is empty, all that is reached has been taken. -/
theorem Searching.mem_of_reached (hFinds : Finds key next R D)
    (h : Searching key R D start taken [] seen) (ha : Relation.ReflTransGen R start a) :
    a ∈ taken := by
  have hTaken := append_nil taken
  induction ha with
  | refl =>
    obtain ⟨rest, hFirst⟩ := h.first
    rw [← hTaken, hFirst]
    exact mem_cons_self
  | @tail b c _ hStep ih =>
    obtain ⟨c', hc', hKey⟩ := mem_map.mp ((h.known _).mp (h.closed b ih c hStep))
    have hIn := h.inside c' hc'
    rw [hTaken] at hc'
    exact hFinds.key_inj c' c hIn (hFinds.inside b c hStep) hKey ▸ hc'

/-- What a search from `start` takes. -/
theorem connected_breadthFirst (hFinds : Finds key next R D) (hStart : D start) (n : Nat) :
    let picked := breadthFirst key next n [key start] [start]
    (picked.map key).Nodup ∧ (∀ a ∈ picked, D a) ∧
      ∀ a ∈ picked,
        Relation.ReflTransGen (fun x y => R x y ∧ x ∈ picked ∧ y ∈ picked) start a := by
  intro picked
  obtain ⟨queue', seen', hRun, -⟩ := (searching_start (R := R) hStart).run hFinds n
  rw [nil_append] at hRun
  have hNodup := hRun.nodup
  rw [map_append] at hNodup
  refine ⟨(nodup_append.mp hNodup).1, fun a ha => hRun.inside a (mem_append_left _ ha),
    fun a ha => ?_⟩
  -- `picked` is not empty, and begins where all begins
  have hPicked : ∃ rest, picked = start :: rest := by
    obtain ⟨rest, hFirst⟩ := hRun.first
    rcases hEq : picked with - | ⟨c, tail⟩
    · rw [hEq] at ha
      cases ha
    · change picked ++ queue' = _ at hFirst
      rw [hEq, cons_append, List.cons.injEq] at hFirst
      exact ⟨tail, by rw [hFirst.1]⟩
  obtain ⟨rest, hRest⟩ := hPicked
  have hGrown : Grown R picked := hRun.grown.left
  rw [hRest] at hGrown ha ⊢
  exact hGrown.reached ha

/-- Where the relation goes both ways, any two of what is taken are connected. -/
theorem joined_breadthFirst (hFinds : Finds key next R D) (hStart : D start)
    (hSymm : ∀ x y, R x y → R y x) (n : Nat) :
    let picked := breadthFirst key next n [key start] [start]
    ∀ a ∈ picked, ∀ b ∈ picked,
      Relation.ReflTransGen (fun x y => R x y ∧ x ∈ picked ∧ y ∈ picked) a b := by
  intro picked a ha b hb
  have hReached := (connected_breadthFirst hFinds hStart n).2.2
  have : Std.Symm fun x y => R x y ∧ x ∈ picked ∧ y ∈ picked :=
    ⟨fun x y hStep => ⟨hSymm x y hStep.1, hStep.2.2, hStep.2.1⟩⟩
  exact (Relation.ReflTransGen.stdSymm.symm _ _ (hReached a ha)).trans (hReached b hb)

/-- A search takes `n` exactly when as many can be reached. -/
theorem le_encard_iff (hFinds : Finds key next R D) (hStart : D start) (n : Nat) :
    (n : ℕ∞) ≤ Set.encard {a | Relation.ReflTransGen R start a} ↔
      (breadthFirst key next n [key start] [start]).length = n := by
  classical
  obtain ⟨hNodup, -, hReached⟩ := connected_breadthFirst hFinds hStart n
  generalize hPicked : breadthFirst key next n [key start] [start] = picked at hNodup hReached ⊢
  have hCard : Set.encard {a | a ∈ picked} = picked.length := by
    rw [← toFinset_card_of_nodup (List.Nodup.of_map key hNodup),
      ← Set.encard_coe_eq_coe_finsetCard, coe_toFinset]
  constructor
  · intro hMany
    obtain ⟨queue', seen', hRun, hEnd⟩ := (searching_start (R := R) hStart).run hFinds n
    rw [hPicked, nil_append] at hRun
    rw [hPicked] at hEnd
    rcases hEnd with hEnd | rfl
    · exact hEnd
    · have hAll : {a | Relation.ReflTransGen R start a} ⊆ {a | a ∈ picked} :=
        fun a ha => hRun.mem_of_reached hFinds ha
      have hLe := hMany.trans ((Set.encard_le_encard hAll).trans_eq hCard)
      refine le_antisymm ?_ (by exact_mod_cast hLe)
      rw [← hPicked]
      exact length_breadthFirst_le _ _ _ _ _
  · intro hLength
    rw [← hLength, ← hCard]
    refine Set.encard_le_encard fun a ha => ?_
    exact (hReached a ha).lift id fun _ _ hStep => hStep.1

end reached

end TMEdge.Library
