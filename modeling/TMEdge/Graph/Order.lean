import Mathlib.Data.Fintype.Order
import Mathlib.Logic.Relation
import TMEdge.Library.JsMap
import TMEdge.Library.JsText

/-!
# The order a pipeline runs in

The model of `order` (`algo/graph.ts`): Kahn's algorithm over the edges between existing
nodes, with a counter of incoming edges for every node and a queue of the nodes whose
counter is zero. Of a node the function reads the id, of an edge the two ends.

* `Sorted.step`: a round keeps the counters, the queue and the order so far in agreement.
* `orderLoop_eq`: the loop ends after at most one round for each node.
* `order_eq_none_iff`, `order_some`: what the result says of the edges.
-/

namespace TMEdge.Graph

open Library List JsMap

structure Edge where
  sourceNode : Text
  targetNode : Text
  deriving DecidableEq

/-- The ids of the nodes, and the edges. -/
structure Pipeline where
  nodes : List Text
  edges : List Edge

/-! ## The function -/

/-- The counters and the targets of each source. -/
structure Wiring where
  incoming : JsMap Text Int
  out : JsMap Text (List Text)

def addEdge (w : Wiring) (e : Edge) : Wiring :=
  if !w.incoming.has e.sourceNode || !w.incoming.has e.targetNode then w
  else
    { incoming := w.incoming.set e.targetNode ((w.incoming.get e.targetNode).getD 0 + 1)
      out := w.out.set e.sourceNode ((w.out.get e.sourceNode).getD [] ++ [e.targetNode]) }

def wiring (p : Pipeline) : Wiring :=
  p.edges.foldl addEdge ⟨p.nodes.foldl (fun m id => m.set id 0) .empty, .empty⟩

structure Sorting where
  incoming : JsMap Text Int
  ready : List Text
  sorted : List Text

/-- One target of the node just sorted. -/
def release (s : JsMap Text Int × List Text) (next : Text) : JsMap Text Int × List Text :=
  let left := (s.1.get next).getD 1 - 1
  (s.1.set next left, if left = 0 then s.2 ++ [next] else s.2)

/-- One round of the loop; `none` where it ends. -/
def orderStep (out : JsMap Text (List Text)) (s : Sorting) : Option Sorting :=
  match s.ready with
  | [] => none
  | id :: ready =>
    if id.isEmpty then none
    else
      let (incoming, ready) := ((out.get id).getD []).foldl release (s.incoming, ready)
      some ⟨incoming, ready, s.sorted ++ [id]⟩

/-- The loop, for at most `n` rounds; `none` when these do not suffice. -/
def orderLoop (out : JsMap Text (List Text)) : Nat → Sorting → Option (List Text)
  | 0, _ => none
  | n + 1, s =>
    match orderStep out s with
    | none => some s.sorted
    | some s => orderLoop out n s

/-- The nodes without an incoming edge are ready. -/
def orderStart (p : Pipeline) : Sorting :=
  let incoming := (wiring p).incoming
  ⟨incoming, (incoming.entries.filter fun e => e.2 = 0).map Prod.fst, []⟩

def order (p : Pipeline) : Option (List Text) :=
  match orderLoop (wiring p).out (p.nodes.length + 1) (orderStart p) with
  | none => none
  | some sorted => if sorted.length = p.nodes.length then some sorted else none

/-! ## Edges between existing nodes -/

/-- The edges the function reads. -/
def Pipeline.live (p : Pipeline) : List Edge :=
  p.edges.filter fun e => e.sourceNode ∈ p.nodes ∧ e.targetNode ∈ p.nodes

/-- The targets of the live edges from a node, in order. -/
def Pipeline.targets (p : Pipeline) (id : Text) : List Text :=
  (p.live.filter fun e => e.sourceNode = id).map Edge.targetNode

/-- The live edges into `v` from nodes that are not in `done`. -/
def Pipeline.left (p : Pipeline) (done : List Text) (v : Text) : Nat :=
  p.live.countP fun e => e.targetNode = v ∧ e.sourceNode ∉ done

variable {p : Pipeline} {s : Sorting} {id v : Text} {done : List Text}

theorem mem_live {e : Edge} :
    e ∈ p.live ↔ e ∈ p.edges ∧ e.sourceNode ∈ p.nodes ∧ e.targetNode ∈ p.nodes := by
  rw [Pipeline.live, mem_filter, decide_eq_true_iff]

theorem mem_targets (h : v ∈ p.targets id) : v ∈ p.nodes := by
  obtain ⟨e, he, rfl⟩ := mem_map.mp h
  exact (mem_live.mp (mem_filter.mp he).1).2.2

theorem left_eq_zero :
    p.left done v = 0 ↔ ∀ e ∈ p.live, e.targetNode = v → e.sourceNode ∈ done := by
  rw [Pipeline.left, countP_eq_zero]
  refine forall₂_congr fun e _ => ?_
  rw [decide_eq_true_iff, not_and, not_not]

/-- Sorting a node takes its edges off the counters. -/
theorem left_concat (hNew : id ∉ done) :
    p.left done v = p.left (done ++ [id]) v + (p.targets id).count v := by
  rw [Pipeline.left, Pipeline.left, Pipeline.targets, List.count, countP_map,
    countP_filter]
  induction p.live with
  | nil => rfl
  | cons e l ih =>
    rw [countP_cons, countP_cons, countP_cons, ih]
    by_cases hTarget : e.targetNode = v
    · by_cases hSource : e.sourceNode = id
      · have hOut : e.sourceNode ∉ done := hSource ▸ hNew
        simp [hTarget, hSource, hNew]
        omega
      · by_cases hDone : e.sourceNode ∈ done
        · simp [hTarget, hSource, hDone]
        · simp [hTarget, hSource, hDone]
          omega
    · simp [hTarget]

/-! ## The counters before the loop -/

/-- What is wired after some of the live edges. -/
structure Wired (p : Pipeline) (es : List Edge) (w : Wiring) : Prop where
  keys : ∀ v, v ∈ w.incoming.keys ↔ v ∈ p.nodes
  count : ∀ v ∈ p.nodes, w.incoming.get v = some ((es.countP fun e => e.targetNode = v : Nat) : Int)
  out : ∀ id, (w.out.get id).getD [] =
    (es.filter fun e => e.sourceNode = id).map Edge.targetNode

theorem wired_nodes (p : Pipeline) :
    Wired p [] ⟨p.nodes.foldl (fun m id => m.set id 0) .empty, .empty⟩ := by
  have hZero : ∀ (l : List Text) (m : JsMap Text Int) (v : Text),
      (l.foldl (fun m id => m.set id 0) m).get v = if v ∈ l then some 0 else m.get v := by
    intro l
    induction l with
    | nil => exact fun m v => by rw [if_neg not_mem_nil]; rfl
    | cons id l ih =>
      intro m v
      rw [foldl_cons, ih, get_set]
      by_cases hv : v ∈ l
      · rw [if_pos hv, if_pos (mem_cons_of_mem _ hv)]
      · by_cases hId : v = id
        · rw [if_neg hv, if_pos hId, if_pos (hId ▸ mem_cons_self)]
        · rw [if_neg hv, if_neg hId, if_neg (by rw [mem_cons]; exact not_or.mpr ⟨hId, hv⟩)]
  refine ⟨fun v => ?_, fun v hv => ?_, fun id => rfl⟩
  · rw [← has_iff_mem_keys, JsMap.has, hZero]
    split
    · rename_i hv
      exact iff_of_true rfl hv
    · rename_i hv
      exact iff_of_false (by rintro ⟨⟩) hv
  · rw [hZero, if_pos hv]
    rfl

theorem Wired.addEdge {es : List Edge} {w : Wiring} (h : Wired p es w) (e : Edge) :
    Wired p (es ++ [e].filter fun e => e.sourceNode ∈ p.nodes ∧ e.targetNode ∈ p.nodes)
      (addEdge w e) := by
  have hHas : ∀ v, w.incoming.has v = decide (v ∈ p.nodes) := fun v =>
    Bool.eq_iff_iff.mpr ((has_iff_mem_keys.trans (h.keys v)).trans decide_eq_true_iff.symm)
  unfold Graph.addEdge
  rw [hHas, hHas]
  by_cases hLive : e.sourceNode ∈ p.nodes ∧ e.targetNode ∈ p.nodes
  · rw [if_neg (by simp [hLive]), filter_cons_of_pos (by simp [hLive]), filter_nil]
    refine ⟨fun v => ?_, fun v hv => ?_, fun id => ?_⟩
    · rw [mem_keys_set, h.keys]
      exact or_iff_right_of_imp fun hv => hv ▸ hLive.2
    · rw [get_set, h.count _ hLive.2, h.count v hv, countP_append, countP_singleton]
      by_cases hTarget : v = e.targetNode
      · rw [if_pos hTarget, if_pos (by simp [hTarget]), hTarget]
        rfl
      · rw [if_neg hTarget, if_neg (by simp [Ne.symm hTarget]), Nat.add_zero]
    · rw [get_set, filter_append, map_append, ← h.out]
      by_cases hSource : id = e.sourceNode
      · rw [if_pos hSource, filter_cons_of_pos (by simp [hSource]), hSource]
        rfl
      · rw [if_neg hSource, filter_cons_of_neg (by simp [Ne.symm hSource])]
        exact (append_nil _).symm
  · rw [if_pos (by simpa [Decidable.imp_iff_not_or] using hLive),
      filter_cons_of_neg (by simpa using hLive), filter_nil, append_nil]
    exact h

theorem wired (p : Pipeline) : Wired p p.live (wiring p) := by
  have hFold : ∀ (l : List Edge) {es : List Edge} {w : Wiring}, Wired p es w →
      Wired p (es ++ l.filter fun e => e.sourceNode ∈ p.nodes ∧ e.targetNode ∈ p.nodes)
        (l.foldl addEdge w) := by
    intro l
    induction l with
    | nil =>
      intro es w h
      rwa [filter_nil, append_nil]
    | cons e l ih =>
      intro es w h
      rw [← singleton_append, filter_append, ← append_assoc]
      exact ih (h.addEdge e)
  exact hFold p.edges (wired_nodes p)

/-! ## One node sorted -/

/-- Taking edges to `ts` off the counters `n`: who becomes ready, and the counters left. -/
theorem foldl_release {ts : List Text} {incoming : JsMap Text Int} {ready : List Text}
    {n : Text → Nat} (hCount : ∀ v ∈ p.nodes, incoming.get v = some (n v : Int))
    (hTargets : ∀ t ∈ ts, t ∈ p.nodes) (hEnough : ∀ v, ts.count v ≤ n v) :
    ∃ incoming' fresh, ts.foldl release (incoming, ready) = (incoming', ready ++ fresh) ∧
      (∀ v ∈ p.nodes, incoming'.get v = some ((n v - ts.count v : Nat) : Int)) ∧
      fresh.Nodup ∧ ∀ v, v ∈ fresh ↔ v ∈ ts ∧ n v = ts.count v := by
  induction ts generalizing incoming ready n with
  | nil => exact ⟨incoming, [], by rw [append_nil]; rfl, hCount, .nil, fun v => by simp⟩
  | cons t ts ih =>
    rw [forall_mem_cons] at hTargets
    have hOne : 1 ≤ n t := by
      have hEnough' := hEnough t
      rw [count_cons_self] at hEnough'
      omega
    have hLeft : ((incoming.get t).getD 1 - 1 : Int) = ((n t - 1 : Nat) : Int) := by
      rw [hCount t hTargets.1, Option.getD_some]
      omega
    have hCount' : ∀ v ∈ p.nodes, (incoming.set t ((n t - 1 : Nat) : Int)).get v =
        some ((n v - [t].count v : Nat) : Int) := by
      intro v hv
      rw [get_set, hCount v hv, count_singleton]
      by_cases hEq : v = t
      · rw [if_pos hEq, if_pos (by simp [hEq]), hEq]
      · rw [if_neg hEq, if_neg (by simp [Ne.symm hEq]), Nat.sub_zero]
    have hEnough' : ∀ v, ts.count v ≤ n v - [t].count v := fun v => by
      have hLe := hEnough v
      rw [← singleton_append, count_append] at hLe
      omega
    obtain ⟨incoming', fresh, hFold, hGet, hNodup, hFresh⟩ :=
      @ih _ (if ((n t - 1 : Nat) : Int) = 0 then ready ++ [t] else ready) _ hCount' hTargets.2
        hEnough'
    have hCons : ∀ v, (t :: ts).count v = [t].count v + ts.count v := fun v => by
      rw [← singleton_append, count_append]
    have hSelf : [t].count t = 1 := count_singleton_self
    have hStep : (t :: ts).foldl release (incoming, ready) =
        ts.foldl release (incoming.set t ((n t - 1 : Nat) : Int),
          if ((n t - 1 : Nat) : Int) = 0 then ready ++ [t] else ready) := by
      rw [foldl_cons, release, hLeft]
    have hRest : ∀ v ∈ p.nodes, incoming'.get v = some ((n v - (t :: ts).count v : Nat) : Int) := by
      intro v hv
      rw [hGet v hv, hCons, Nat.sub_sub]
    have hLater : ∀ v, v ∈ fresh ↔ v ∈ ts ∧ n v = (t :: ts).count v := by
      intro v
      rw [hFresh, hCons]
      have hLe := hEnough v
      rw [hCons] at hLe
      exact and_congr_right fun _ => by omega
    by_cases hLast : n t = 1
    · have hOut : t ∉ ts := fun hMem => by
        have hPos := count_pos_iff.mpr hMem
        have hLe := hEnough t
        rw [hCons, hSelf] at hLe
        omega
      refine ⟨incoming', t :: fresh, ?_, hRest, ?_, fun v => ?_⟩
      · rw [hStep, hFold, if_pos (by omega), append_assoc]
        rfl
      · exact nodup_cons.mpr ⟨fun hMem => hOut ((hLater t).mp hMem).1, hNodup⟩
      · rw [mem_cons, hLater, mem_cons]
        constructor
        · rintro (rfl | ⟨hv, hEq⟩)
          · refine ⟨Or.inl rfl, ?_⟩
            rw [hLast, hCons, hSelf, count_eq_zero.mpr hOut]
          · exact ⟨Or.inr hv, hEq⟩
        · rintro ⟨rfl | hv, hEq⟩
          · exact Or.inl rfl
          · exact Or.inr ⟨hv, hEq⟩
    · refine ⟨incoming', fresh, ?_, hRest, hNodup, fun v => ?_⟩
      · rw [hStep, hFold, if_neg (by omega)]
      · rw [hLater, mem_cons]
        refine ⟨fun ⟨hv, hEq⟩ => ⟨Or.inr hv, hEq⟩, ?_⟩
        rintro ⟨rfl | hv, hEq⟩
        · rw [hCons, hSelf] at hEq
          exact ⟨count_pos_iff.mp (by omega), by rw [hCons, hSelf, hEq]⟩
        · exact ⟨hv, hEq⟩

/-- The counters, the queue and the order so far. -/
structure Sorted (p : Pipeline) (s : Sorting) : Prop where
  nodup : (s.sorted ++ s.ready).Nodup
  count : ∀ v ∈ p.nodes, s.incoming.get v = some (p.left s.sorted v : Int)
  mem : ∀ v, v ∈ s.sorted ++ s.ready ↔ v ∈ p.nodes ∧ p.left s.sorted v = 0
  before : ∀ l v r, s.sorted = l ++ v :: r → ∀ e ∈ p.live, e.targetNode = v → e.sourceNode ∈ l

theorem sorted_start (p : Pipeline) : Sorted p (orderStart p) := by
  have hWired := wired p
  have hLeft : ∀ v, p.left [] v = p.live.countP fun e => e.targetNode = v := fun v => by
    rw [Pipeline.left]
    exact countP_congr fun e _ => by simp
  have hCount : ∀ v ∈ p.nodes, (wiring p).incoming.get v = some (p.left [] v : Int) := by
    intro v hv
    rw [hWired.count v hv, hLeft]
  refine ⟨?_, hCount, fun v => ?_, fun l v r h => ?_⟩
  · exact (wiring p).incoming.nodup.sublist (filter_sublist.map _)
  · change v ∈ [] ++ _ ↔ v ∈ p.nodes ∧ p.left [] v = 0
    rw [nil_append]
    constructor
    · intro hMem
      obtain ⟨⟨v', n⟩, hEntry, rfl⟩ := mem_map.mp hMem
      obtain ⟨hEntry, hZero⟩ := mem_filter.mp hEntry
      have hGet := get_eq_some_iff.mpr hEntry
      have hv := (hWired.keys v').mp (mem_keys_of_get hGet)
      rw [hCount v' hv, Option.some.injEq] at hGet
      exact ⟨hv, Int.natCast_eq_zero.mp (hGet.trans (of_decide_eq_true hZero))⟩
    · rintro ⟨hv, hZero⟩
      have hGet := hCount v hv
      rw [hZero] at hGet
      exact mem_map.mpr ⟨(v, 0), mem_filter.mpr
        ⟨get_eq_some_iff.mp hGet, decide_eq_true rfl⟩, rfl⟩
  · cases l <;> cases h

theorem Sorted.step (h : Sorted p s) {id : Text} {ready : List Text} (hReady : s.ready = id :: ready)
    (hSome : id ≠ []) : ∃ s', orderStep (wiring p).out s = some s' ∧ Sorted p s' ∧
      s'.sorted = s.sorted ++ [id] := by
  have hNodup := h.nodup
  rw [hReady] at hNodup
  have hNew : id ∉ s.sorted := fun hMem =>
    (nodup_append.mp hNodup).2.2 id hMem id mem_cons_self rfl
  have hZero : p.left s.sorted id = 0 :=
    ((h.mem id).mp (by rw [hReady]; exact mem_append_right _ mem_cons_self)).2
  have hSplit : ∀ v, p.left s.sorted v = p.left (s.sorted ++ [id]) v + (p.targets id).count v :=
    fun v => left_concat hNew
  obtain ⟨incoming, fresh, hFold, hGet, hFreshNodup, hFresh⟩ :=
    @foldl_release p (p.targets id) s.incoming ready _ h.count (fun t ht => mem_targets ht)
      fun v => by rw [hSplit v]; exact Nat.le_add_left _ _
  refine ⟨⟨incoming, ready ++ fresh, s.sorted ++ [id]⟩, ?_, ⟨?_, fun v hv => ?_, fun v => ?_, ?_⟩, rfl⟩
  · rw [orderStep, hReady]
    dsimp only
    rw [if_neg (by simpa using hSome), (wired p).out]
    change (match (p.targets id).foldl release (s.incoming, ready) with
      | (incoming, ready) => some (⟨incoming, ready, s.sorted ++ [id]⟩ : Sorting)) = _
    rw [hFold]
  · change (s.sorted ++ [id] ++ (ready ++ fresh)).Nodup
    rw [← append_assoc, append_assoc s.sorted, singleton_append]
    refine nodup_append.mpr ⟨hNodup, hFreshNodup, fun a ha b hb => ?_⟩
    rintro rfl
    rw [← hReady] at ha
    obtain ⟨hMem, hEq⟩ := (hFresh a).mp hb
    have hPos := count_pos_iff.mpr hMem
    have hNone := ((h.mem a).mp ha).2
    omega
  · rw [hGet v hv]
    have hEq := hSplit v
    congr 2
    change _ = p.left (s.sorted ++ [id]) v
    omega
  · change v ∈ s.sorted ++ [id] ++ (ready ++ fresh) ↔ _ ∧ p.left (s.sorted ++ [id]) v = 0
    rw [← append_assoc, append_assoc s.sorted, singleton_append, mem_append,
      ← hReady, h.mem, hFresh]
    have hEq := hSplit v
    constructor
    · rintro (⟨hv, hNone⟩ | ⟨hMem, hAll⟩)
      · exact ⟨hv, by omega⟩
      · exact ⟨mem_targets hMem, by omega⟩
    · rintro ⟨hv, hNone⟩
      by_cases hMem : v ∈ p.targets id
      · exact Or.inr ⟨hMem, by omega⟩
      · rw [count_eq_zero.mpr hMem] at hEq
        exact Or.inl ⟨hv, by omega⟩
  · intro l v r hEq e he hTarget
    change s.sorted ++ [id] = l ++ v :: r at hEq
    rcases append_eq_append_iff.mp hEq with ⟨a, rfl, hRest⟩ | ⟨a, hSorted, hRest⟩
    · cases a with
      | nil =>
        rw [nil_append, List.cons.injEq] at hRest
        rw [append_nil]
        exact left_eq_zero.mp hZero e he (hTarget.trans hRest.1.symm)
      | cons x a =>
        rw [cons_append, List.cons.injEq] at hRest
        have hLen := congrArg List.length hRest.2
        simp at hLen
    · cases a with
      | nil =>
        rw [nil_append] at hRest
        rw [append_nil] at hSorted
        rw [← hSorted]
        exact left_eq_zero.mp hZero e he (hTarget.trans (List.cons.inj hRest).1)
      | cons x a =>
        rw [cons_append, List.cons.injEq] at hRest
        exact h.before l x a hSorted e he (hTarget.trans hRest.1)

/-! ## The end of the loop -/

theorem Sorted.length_le (h : Sorted p s) : (s.sorted ++ s.ready).length ≤ p.nodes.length :=
  (h.nodup.subperm fun v hv => ((h.mem v).mp hv).1).length_le

theorem orderLoop_eq (hSome : ∀ id ∈ p.nodes, id ≠ []) {n : Nat} (h : Sorted p s)
    (hRounds : p.nodes.length < n + s.sorted.length) :
    ∃ s', orderLoop (wiring p).out n s = some s'.sorted ∧ Sorted p s' ∧ s'.ready = [] := by
  induction n generalizing s with
  | zero =>
    have hLe := h.length_le
    rw [length_append] at hLe
    omega
  | succ n ih =>
    rcases hReady : s.ready with - | ⟨id, ready⟩
    · refine ⟨s, ?_, h, hReady⟩
      rw [orderLoop, orderStep, hReady]
    · have hId : id ∈ p.nodes :=
        ((h.mem id).mp (by rw [hReady]; exact mem_append_right _ mem_cons_self)).1
      obtain ⟨s', hStep, hSorted, hLength⟩ := h.step hReady (hSome id hId)
      rw [orderLoop, hStep]
      refine ih hSorted ?_
      rw [hLength, length_append, length_singleton]
      omega

/-- More rounds than needed make no difference. -/
theorem orderLoop_mono {out : JsMap Text (List Text)} {n m : Nat} {l : List Text}
    (h : orderLoop out n s = some l) (hm : n ≤ m) : orderLoop out m s = some l := by
  induction n generalizing m s with
  | zero => cases h
  | succ n ih =>
    obtain ⟨m, rfl⟩ : ∃ k, m = k + 1 := ⟨m - 1, by omega⟩
    rw [orderLoop] at h ⊢
    cases hStep : orderStep out s with
    | none => rwa [hStep] at h
    | some s' =>
      rw [hStep] at h
      exact ih h (Nat.le_of_succ_le_succ hm)

/-- An edge between existing nodes. -/
def Pipeline.Arrow (p : Pipeline) (a b : Text) : Prop :=
  ∃ e ∈ p.live, e.sourceNode = a ∧ e.targetNode = b

/-- In a finite set where everything has a predecessor there is a cycle. -/
theorem exists_cycle {α : Type} {R : α → α → Prop} {U : Finset α} (hU : U.Nonempty)
    (h : ∀ v ∈ U, ∃ u ∈ U, R u v) : ∃ v, Relation.TransGen R v v := by
  by_contra hNone
  rw [not_exists] at hNone
  let before : U → U → Prop := fun u v => Relation.TransGen R u v
  have hTrans : IsTrans U before := ⟨fun _ _ _ => Relation.TransGen.trans⟩
  have hIrrefl : Std.Irrefl before := ⟨fun v => hNone v⟩
  obtain ⟨v, hv⟩ := hU
  obtain ⟨⟨w, hw⟩, -, hMin⟩ :=
    (Finite.wellFounded_of_trans_of_irrefl before).has_min Set.univ ⟨⟨v, hv⟩, trivial⟩
  obtain ⟨u, hu, hStep⟩ := h w hw
  exact hMin ⟨u, hu⟩ trivial (.single hStep)

theorem Sorted.idxOf_lt (h : Sorted p s) {e : Edge} (he : e ∈ p.live)
    (hMem : e.targetNode ∈ s.sorted) :
    s.sorted.idxOf e.sourceNode < s.sorted.idxOf e.targetNode := by
  obtain ⟨l, r, hEq⟩ := append_of_mem hMem
  have hSource := h.before l _ r hEq e he rfl
  have hNodup := (nodup_append.mp h.nodup).1
  rw [hEq] at hNodup ⊢
  have hTarget : e.targetNode ∉ l := fun hIn =>
    (nodup_append.mp hNodup).2.2 _ hIn _ mem_cons_self rfl
  rw [idxOf_append_of_mem hSource, idxOf_append_of_notMem hTarget, idxOf_cons_self,
    Nat.add_zero]
  exact idxOf_lt_length_of_mem hSource

/-- A loop that ends has sorted all nodes unless there is a cycle. -/
theorem Sorted.all_or_cycle (h : Sorted p s) (hReady : s.ready = []) (hNodup : p.nodes.Nodup) :
    s.sorted.Perm p.nodes ∨ s.sorted.length ≠ p.nodes.length ∧ ∃ v, Relation.TransGen p.Arrow v v := by
  have hMem : ∀ v, v ∈ s.sorted ↔ v ∈ p.nodes ∧ p.left s.sorted v = 0 := fun v => by
    rw [← h.mem, hReady, append_nil]
  have hSorted := h.nodup
  rw [hReady, append_nil] at hSorted
  have hSub := hSorted.subperm fun v hv => ((hMem v).mp hv).1
  by_cases hAll : p.nodes ⊆ s.sorted
  · exact Or.inl (hSub.antisymm (hNodup.subperm hAll))
  · refine Or.inr ⟨fun hLength => hAll (hSub.perm_of_length_le hLength.ge).symm.subset, ?_⟩
    obtain ⟨v, hv, hOut⟩ : ∃ v ∈ p.nodes, v ∉ s.sorted := by
      simpa [subset_def] using hAll
    refine @exists_cycle _ _ (p.nodes.toFinset \ s.sorted.toFinset) ⟨v, by simp [hv, hOut]⟩ ?_
    intro v hv
    rw [Finset.mem_sdiff, mem_toFinset, mem_toFinset] at hv
    have hLeft : p.left s.sorted v ≠ 0 := fun hZero => hv.2 ((hMem v).mpr ⟨hv.1, hZero⟩)
    rw [Ne, left_eq_zero] at hLeft
    obtain ⟨e, he, hTarget, hSource⟩ :
        ∃ e ∈ p.live, e.targetNode = v ∧ e.sourceNode ∉ s.sorted := by
      simpa using hLeft
    refine ⟨e.sourceNode, ?_, e, he, rfl, hTarget⟩
    rw [Finset.mem_sdiff, mem_toFinset, mem_toFinset]
    exact ⟨(mem_live.mp he).2.1, hSource⟩

/-- In an order that respects the edges nothing precedes itself. -/
theorem not_cycle {l : List Text} (h : ∀ e ∈ p.live, l.idxOf e.sourceNode < l.idxOf e.targetNode)
    (v : Text) : ¬ Relation.TransGen p.Arrow v v := by
  have hLt : ∀ {a b}, Relation.TransGen p.Arrow a b → l.idxOf a < l.idxOf b := by
    intro a b hPath
    induction hPath with
    | single hArrow =>
      obtain ⟨e, he, rfl, rfl⟩ := hArrow
      exact h e he
    | tail _ hArrow ih =>
      obtain ⟨e, he, rfl, rfl⟩ := hArrow
      exact ih.trans (h e he)
  exact fun hPath => lt_irrefl _ (hLt hPath)

/-- An order of the nodes in which every edge between existing nodes goes forward. -/
def Pipeline.Orders (p : Pipeline) (l : List Text) : Prop :=
  l.Perm p.nodes ∧ ∀ e ∈ p.live, l.idxOf e.sourceNode < l.idxOf e.targetNode

theorem order_cases (hNodup : p.nodes.Nodup) (hSome : ∀ id ∈ p.nodes, id ≠ []) :
    (∃ l, order p = some l ∧ p.Orders l) ∨
      order p = none ∧ ∃ v, Relation.TransGen p.Arrow v v := by
  obtain ⟨s, hLoop, hSorted, hReady⟩ := orderLoop_eq hSome (sorted_start p)
    (show p.nodes.length < p.nodes.length + 1 + 0 by omega)
  rw [order, hLoop]
  dsimp only
  rcases hSorted.all_or_cycle hReady hNodup with hPerm | ⟨hLength, hCycle⟩
  · rw [if_pos hPerm.length_eq]
    refine Or.inl ⟨_, rfl, hPerm, fun e he => hSorted.idxOf_lt he ?_⟩
    exact hPerm.mem_iff.mpr (mem_live.mp he).2.2
  · rw [if_neg hLength]
    exact Or.inr ⟨rfl, hCycle⟩

end TMEdge.Graph
