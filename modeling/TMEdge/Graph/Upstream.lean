import TMEdge.Graph.Order

/-!
# What a node depends on

The model of `upstreamOf` (`algo/graph.ts`), which passes over the edges until a pass adds
nothing, and the two facts about pipelines.

* `upstreamLoop_eq`: at most one pass more than there are edges.
* `pipeline_ordering`: the order and the dependencies are right.
-/

namespace TMEdge.Graph

open Library List

/-- One edge of a pass: the ids needed so far, and whether the pass has added one. -/
def growAlong (s : List Text × Bool) (e : Edge) : List Text × Bool :=
  if e.targetNode ∈ s.1 ∧ e.sourceNode ∉ s.1 then (s.1 ++ [e.sourceNode], true) else s

/-- The loop, for at most `n` passes; `none` when these do not suffice. -/
def upstreamLoop (edges : List Edge) : Nat → List Text → Option (List Text)
  | 0, _ => none
  | n + 1, need =>
    match edges.foldl growAlong (need, false) with
    | (need, true) => upstreamLoop edges n need
    | (need, false) => some need

/-- The set in the order of insertion. -/
def upstreamOf (p : Pipeline) (id : Text) : Option (List Text) :=
  upstreamLoop p.edges (p.edges.length + 1) [id]

/-- Some edge leads from `a` to `b`. -/
def Pipeline.Feeds (p : Pipeline) (a b : Text) : Prop :=
  ∃ e ∈ p.edges, e.sourceNode = a ∧ e.targetNode = b

variable {p : Pipeline} {id : Text} {need : List Text} {es : List Edge}

/-- What is needed at any time: no repetition, and only what leads to `id`. -/
structure Needed (p : Pipeline) (id : Text) (need : List Text) : Prop where
  nodup : need.Nodup
  start : id ∈ need
  inside : ∀ v ∈ need, v = id ∨ ∃ e ∈ p.edges, e.sourceNode = v
  leads : ∀ v ∈ need, Relation.ReflTransGen p.Feeds v id

theorem Needed.length_le (h : Needed p id need) : need.length ≤ p.edges.length + 1 := by
  have hSub : need ⊆ id :: p.edges.map Edge.sourceNode := by
    intro v hv
    rcases h.inside v hv with rfl | ⟨e, he, rfl⟩
    · exact mem_cons_self
    · exact mem_cons_of_mem _ (mem_map_of_mem he)
  have hLe := (h.nodup.subperm hSub).length_le
  rwa [length_cons, length_map] at hLe

theorem Needed.growAlong (h : Needed p id need) {e : Edge} (he : e ∈ p.edges) (grew : Bool) :
    Needed p id (growAlong (need, grew) e).1 := by
  unfold Graph.growAlong
  split
  · rename_i hGrow
    dsimp only at hGrow ⊢
    refine ⟨?_, mem_append_left _ h.start, ?_, ?_⟩
    · rw [← concat_eq_append]
      exact h.nodup.concat hGrow.2
    · intro v hv
      rcases mem_append.mp hv with hv | hv
      · exact h.inside v hv
      · exact Or.inr ⟨e, he, (mem_singleton.mp hv).symm⟩
    · intro v hv
      rcases mem_append.mp hv with hv | hv
      · exact h.leads v hv
      · rw [mem_singleton.mp hv]
        exact .head ⟨e, he, rfl, rfl⟩ (h.leads _ hGrow.1)
  · exact h

/-- A pass adds something, or it has found the edges closed. -/
theorem Needed.pass (h : Needed p id need) (hes : es ⊆ p.edges) (grew : Bool) :
    ∃ need' grew', es.foldl Graph.growAlong (need, grew) = (need', grew') ∧ Needed p id need' ∧
      need <+: need' ∧
      (need' = need ∧ grew' = grew ∧ (∀ e ∈ es, e.targetNode ∈ need → e.sourceNode ∈ need) ∨
        need.length < need'.length ∧ grew' = true) := by
  induction es generalizing need grew with
  | nil => exact ⟨need, grew, rfl, h, prefix_refl _, Or.inl ⟨rfl, rfl, nofun⟩⟩
  | cons e es ih =>
    rw [cons_subset] at hes
    by_cases hGrow : e.targetNode ∈ need ∧ e.sourceNode ∉ need
    · have hNext := h.growAlong hes.1 grew
      have hEq : Graph.growAlong (need, grew) e = (need ++ [e.sourceNode], true) := if_pos hGrow
      rw [hEq] at hNext
      obtain ⟨need', grew', hFold, hNeeded, hPrefix, hMore⟩ := ih hNext hes.2 true
      refine ⟨need', grew', by rw [foldl_cons, hEq, hFold], hNeeded,
        (prefix_append _ _).trans hPrefix, Or.inr ⟨?_, ?_⟩⟩
      · have hLe := hPrefix.length_le
        rw [length_append, length_singleton] at hLe
        omega
      · rcases hMore with ⟨-, hEq, -⟩ | ⟨-, hEq⟩
        · exact hEq
        · exact hEq
    · have hEq : Graph.growAlong (need, grew) e = (need, grew) := if_neg hGrow
      obtain ⟨need', grew', hFold, hNeeded, hPrefix, hMore⟩ := ih h hes.2 grew
      refine ⟨need', grew', by rw [foldl_cons, hEq, hFold], hNeeded, hPrefix, ?_⟩
      refine hMore.imp_left fun ⟨hSame, hGrew, hClosed⟩ => ⟨hSame, hGrew, ?_⟩
      rw [forall_mem_cons]
      exact ⟨fun hTarget => by_contra fun hSource => hGrow ⟨hTarget, hSource⟩, hClosed⟩

theorem upstreamLoop_eq {n : Nat} (h : Needed p id need)
    (hPasses : p.edges.length + 1 < n + need.length) :
    ∃ need', upstreamLoop p.edges n need = some need' ∧ Needed p id need' ∧
      ∀ e ∈ p.edges, e.targetNode ∈ need' → e.sourceNode ∈ need' := by
  induction n generalizing need with
  | zero =>
    have hLe := h.length_le
    omega
  | succ n ih =>
    obtain ⟨need', grew', hFold, hNeeded, -, hMore⟩ := h.pass (List.Subset.refl _) false
    rw [upstreamLoop, hFold]
    rcases hMore with ⟨rfl, rfl, hClosed⟩ | ⟨hLonger, rfl⟩
    · exact ⟨need', rfl, hNeeded, hClosed⟩
    · exact ih hNeeded (by omega)

theorem upstreamOf_spec (p : Pipeline) (id : Text) : ∃ need, upstreamOf p id = some need ∧
    need.Nodup ∧ ∀ v, v ∈ need ↔ Relation.ReflTransGen p.Feeds v id := by
  have hStart : Needed p id [id] := by
    refine ⟨nodup_singleton id, mem_cons_self, fun v hv => ?_, fun v hv => ?_⟩
    · exact Or.inl (mem_singleton.mp hv)
    · rw [mem_singleton.mp hv]
  obtain ⟨need, hLoop, hNeeded, hClosed⟩ := upstreamLoop_eq hStart
    (show p.edges.length + 1 < p.edges.length + 1 + 1 by omega)
  refine ⟨need, hLoop, hNeeded.nodup, fun v => ⟨hNeeded.leads v, fun hPath => ?_⟩⟩
  induction hPath using Relation.ReflTransGen.head_induction_on with
  | refl => exact hNeeded.start
  | head hStep _ ih =>
    obtain ⟨e, he, rfl, rfl⟩ := hStep
    exact hClosed e he ih

/-- The loop of `order` ends, whatever bound is put on its rounds from one more than the nodes
on; it finds an order exactly when the edges between existing nodes have no cycle. -/
theorem pipeline_ordering (p : Pipeline) (hNodup : p.nodes.Nodup) (hSome : ∀ id ∈ p.nodes, id ≠ []) :
    (∃ sorted, ∀ n, p.nodes.length < n →
      orderLoop (wiring p).out n (orderStart p) = some sorted) ∧
    (order p = none ↔ ∃ v, Relation.TransGen p.Arrow v v) ∧
    (∀ l, order p = some l → p.Orders l) ∧
    ∀ id, ∃ need, upstreamOf p id = some need ∧ need.Nodup ∧
      ∀ v, v ∈ need ↔ Relation.ReflTransGen p.Feeds v id := by
  refine ⟨?_, ⟨fun hNone => ?_, fun ⟨v, hCycle⟩ => ?_⟩, fun l hl => ?_, upstreamOf_spec p⟩
  · obtain ⟨s, hLoop, -⟩ := orderLoop_eq hSome (sorted_start p)
      (show p.nodes.length < p.nodes.length + 1 + 0 by omega)
    exact ⟨s.sorted, fun n hn => orderLoop_mono hLoop hn⟩
  · rcases order_cases hNodup hSome with ⟨l, hl, -⟩ | ⟨-, hCycle⟩
    · rw [hNone] at hl
      cases hl
    · exact hCycle
  · rcases order_cases hNodup hSome with ⟨l, -, hOrders⟩ | ⟨hNone, -⟩
    · exact absurd hCycle (not_cycle hOrders.2 v)
    · exact hNone
  · rcases order_cases hNodup hSome with ⟨l', hl', hOrders⟩ | ⟨hNone, -⟩
    · rw [hl, Option.some.injEq] at hl'
      rwa [hl']
    · rw [hl] at hNone
      cases hNone

/-- Two parallel edges, an edge from a node that does not exist. -/
def diamond : Pipeline where
  nodes := [js "c", js "a", js "b"]
  edges := [⟨js "a", js "b"⟩, ⟨js "a", js "b"⟩, ⟨js "b", js "c"⟩, ⟨js "x", js "a"⟩]

theorem pipeline_ordering_diamond :
    order diamond = some [js "a", js "b", js "c"] ∧ diamond.Orders [js "a", js "b", js "c"] := by
  have hOrder : order diamond = some [js "a", js "b", js "c"] := by decide
  exact ⟨hOrder, (pipeline_ordering diamond (by decide) (by decide)).2.2.1 _ hOrder⟩

end TMEdge.Graph
