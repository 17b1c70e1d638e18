import TMEdge.Params.Model

/-!
# Tuning the edge

Runs of `apply`, `commit`, `revert` and the timer on edge parameters.

* `revert_edge`, `commit_edge`, `apply_edge`: what a call does.
* `Follows`, `Reverts`: what every step keeps, and what it does to the recorded values.
* `run_edge`: the broker has recorded the values from before the uncommitted changes.
-/

namespace TMEdge.Params

open Library Protocol Occupancy JsMap

def edgeKey (p : EdgeParam) : Key := ⟨none, .edge p⟩

theorem edgeKey_injective {p q : EdgeParam} (h : edgeKey p = edgeKey q) : p = q := by
  unfold edgeKey at h
  simpa using h

theorem key_edge (uid : String) (p : EdgeParam) : key uid (.edge p) = edgeKey p := rfl

namespace System

/-- The value a parameter goes back to, if a change of it is pending. -/
def baseline? (s : System) (p : EdgeParam) : Option ℚ :=
  (s.pending.get (edgeKey p)).map PendingChange.from_

/-! ## Systems that only tune -/

structure Tuning (s : System) : Prop where
  up : s.up = true
  edges : ∀ k c, s.pending.get k = some c → ∃ p, k = edgeKey p ∧ c.param = .edge p
  idle : ∀ k, s.broker.reverting.get k = none
  persisting : s.broker.persisting = []

/-- The broker holds the same changes, and the engine the same settings. -/
structure Same (s t : System) : Prop where
  up : t.up = s.up
  pending : ∀ k, t.pending.get k = s.pending.get k
  reverting : ∀ k, t.broker.reverting.get k = s.broker.reverting.get k
  persisting : t.broker.persisting = s.broker.persisting
  options : t.options = s.options

variable {cfg : Config} {s t u : System} {c : PendingChange} {p : EdgeParam} {o : OccupancyOptions}

theorem Same.trans (h : Same s t) (h' : Same t u) : Same s u :=
  ⟨h'.up.trans h.up, fun k => (h'.pending k).trans (h.pending k),
    fun k => (h'.reverting k).trans (h.reverting k), h'.persisting.trans h.persisting,
    h'.options.trans h.options⟩

theorem same_refl (s : System) : Same s s := ⟨rfl, fun _ => rfl, fun _ => rfl, rfl, rfl⟩

theorem same_savePending (cfg : Config) (s : System) (io : SaveIo) :
    Same s (savePending cfg s io).1 := by
  unfold savePending
  split
  · exact same_refl s
  · cases io <;> exact ⟨rfl, fun _ => rfl, fun _ => rfl, rfl, rfl⟩

theorem Tuning.same (h : s.Tuning) (hSame : Same s t) : t.Tuning :=
  ⟨hSame.up.trans h.up, fun k c hc => h.edges k c (hSame.pending k ▸ hc),
    fun k => (hSame.reverting k).trans (h.idle k), hSame.persisting.trans h.persisting⟩

theorem seen_edge (s : System) (h : c.param = .edge p) : s.seen c = false := by
  unfold seen
  rw [h]
  split
  · rename_i hParam _
    cases hParam
  · rfl

/-- No STATUS speaks of an edge parameter. -/
theorem same_confirm (h : s.Tuning) (cfg : Config) (now : Int) (io : SaveIo) :
    Same s (s.confirm cfg now io) := by
  have hSeen : ∀ k c, s.pending.get k = some c → s.seen c = false := by
    intro k c hc
    obtain ⟨p, _, hParam⟩ := h.edges k c hc
    exact seen_edge s hParam
  have hConfirmed : Same s (s.confirmed now) := by
    refine ⟨rfl, fun k => ?_, fun _ => rfl, rfl, rfl⟩
    unfold confirmed setPending pending
    simp only [get_mapValues, JsMap.get_filter]
    cases hGet : s.broker.pending.get k with
    | none => rfl
    | some c => simp [hSeen k c hGet]
  have hNone : s.restored = [] := by
    refine List.filter_eq_nil_iff.mpr fun c hc => ?_
    obtain ⟨k, hk⟩ := mem_values_iff.mp hc
    simp [hSeen k c hk]
  unfold confirm
  simp only [hNone, if_true]
  exact hConfirmed

/-! ## One call -/

/-- The change of `p` is gone. -/
structure Removed (p : EdgeParam) (s t : System) : Prop where
  tuning : t.Tuning
  pending : ∀ k, t.pending.get k = if k = edgeKey p then none else s.pending.get k

/-- The change of `p` is there. -/
structure Placed (p : EdgeParam) (c : PendingChange) (s t : System) : Prop where
  tuning : t.Tuning
  pending : ∀ k, t.pending.get k = if k = edgeKey p then some c else s.pending.get k

theorem idle_release (h : s.Tuning) (k : Key) (op : Operation) (k' : Key) :
    ((s.hold k op).release k).broker.reverting.get k' = none := by
  change ((s.broker.reverting.set k op).delete k).get k' = none
  rw [get_delete]
  split
  · rfl
  · rename_i hk
    rw [JsMap.get_set, if_neg hk]
    exact h.idle k'

def withOptions (s : System) (o : OccupancyOptions) : System := { s with options := o }

theorem setEdge_eq {v : ℚ} (h : setOptions s.options p v = .ok o) :
    s.setEdge p v = .ok (s.withOptions o) := by
  unfold setEdge
  rw [h]
  rfl

/-- The change of `p` is taken out of a system whose settings are now `o`. -/
theorem removed_of_same (h : s.Tuning) {p : EdgeParam} {o : OccupancyOptions} (op : Operation)
    (hSame : Same ((((s.hold (edgeKey p) op).withOptions o).release (edgeKey p)).setPending
      (s.pending.delete (edgeKey p))) t) : Removed p s t ∧ t.options = o := by
  have hPending : ∀ k, t.pending.get k = if k = edgeKey p then none else s.pending.get k := by
    intro k
    rw [hSame.pending]
    exact get_delete _ _ _
  refine ⟨⟨?_, hPending⟩, hSame.options⟩
  refine ⟨hSame.up.trans h.up, fun k c hc => ?_, fun k => ?_, hSame.persisting.trans h.persisting⟩
  · rw [hPending] at hc
    split at hc
    · cases hc
    · exact h.edges k c hc
  · rw [hSame.reverting]
    exact idle_release h _ _ k

/-- What `finishRevert` does to a change of an edge parameter. -/
theorem same_finishRevert (env : Env) (uid : String)
    (h : (((s.release (edgeKey p)).setPending (s.pending.delete (edgeKey p)))).Tuning) :
    Same ((s.release (edgeKey p)).setPending (s.pending.delete (edgeKey p)))
      (finishRevert cfg s env uid (.edge p)) := by
  have hSaved := same_savePending cfg ((s.release (edgeKey p)).setPending
    ((s.release (edgeKey p)).pending.delete (edgeKey p))) env.io
  unfold finishRevert
  simp only [key_edge]
  split
  · rename_i g hSave
    rw [hSave] at hSaved
    exact hSaved
  · rename_i g hSave
    rw [hSave] at hSaved
    have hConfirmed := hSaved.trans
      (same_confirm (h.same hSaved) cfg env.now env.confirm)
    exact hConfirmed.trans ⟨rfl, fun _ => rfl, fun _ => rfl, rfl, rfl⟩

/-- A revert that `setOptions` accepts. -/
theorem revert_removes (cfg : Config) (h : s.Tuning) (hGet : s.pending.get (edgeKey p) = some c)
    (hSet : setOptions s.options p c.from_ = .ok o) (env : Env) (uid : String) :
    Removed p s (revert cfg s env uid (.edge p)) ∧
      (revert cfg s env uid (.edge p)).options = o := by
  have hIdle : ¬ (s.broker.reverting.has (edgeKey p) = true ∨ uid ∈ s.broker.persisting) := by
    simp [JsMap.has, h.idle, h.persisting]
  have hEdge : (s.hold (edgeKey p) .revert).setEdge p c.from_ =
      .ok ((s.hold (edgeKey p) .revert).withOptions o) := setEdge_eq hSet
  have hRevert : revert cfg s env uid (.edge p) =
      finishRevert cfg ((s.hold (edgeKey p) .revert).withOptions o) env uid (.edge p) := by
    unfold revert
    simp only [key_edge, hGet, if_neg hIdle, hEdge]
  rw [hRevert]
  have hGone := removed_of_same (p := p) (o := o) h .revert (same_refl _)
  exact removed_of_same h .revert (same_finishRevert env uid hGone.1.tuning)

/-- A revert that `setOptions` refuses. -/
theorem revert_retries (h : s.Tuning) (hGet : s.pending.get (edgeKey p) = some c) {e : String}
    (hSet : setOptions s.options p c.from_ = .error e) (env : Env) (uid : String) :
    Placed p { c with revertAt := env.now + 5000 } s (revert cfg s env uid (.edge p)) ∧
      (revert cfg s env uid (.edge p)).options = s.options := by
  have hIdle : ¬ (s.broker.reverting.has (edgeKey p) = true ∨ uid ∈ s.broker.persisting) := by
    simp [JsMap.has, h.idle, h.persisting]
  have hEdge : (s.hold (edgeKey p) .revert).setEdge p c.from_ = .error e := by
    unfold setEdge
    change (setOptions s.options p c.from_ >>= fun o => _) = _
    rw [hSet]
    rfl
  have hRevert : revert cfg s env uid (.edge p) =
      revertFails cfg (s.hold (edgeKey p) .revert) env (edgeKey p) := by
    unfold revert
    simp only [key_edge, hGet, if_neg hIdle, hEdge]
  have hUpdate : ((s.hold (edgeKey p) .revert).update (edgeKey p) fun c =>
      { c with revertAt := env.now + 5000 }) = (s.hold (edgeKey p) .revert).setPending
        (s.pending.set (edgeKey p) { c with revertAt := env.now + 5000 }) := by
    unfold update
    rw [show (s.hold (edgeKey p) .revert).pending.get (edgeKey p) = some c from hGet]
    rfl
  have hSame := same_savePending cfg (((s.hold (edgeKey p) .revert).setPending
    (s.pending.set (edgeKey p) { c with revertAt := env.now + 5000 })).release (edgeKey p)) env.io
  rw [hRevert]
  unfold revertFails
  simp only
  rw [hUpdate]
  have hPending : ∀ k, (savePending cfg (((s.hold (edgeKey p) .revert).setPending
      (s.pending.set (edgeKey p) { c with revertAt := env.now + 5000 })).release (edgeKey p))
        env.io).1.pending.get k =
      if k = edgeKey p then some { c with revertAt := env.now + 5000 } else s.pending.get k := by
    intro k
    rw [hSame.pending]
    exact JsMap.get_set _ _ _ _
  refine ⟨⟨⟨hSame.up.trans h.up, fun k c' hc' => ?_, fun k => ?_,
    hSame.persisting.trans h.persisting⟩, hPending⟩, hSame.options⟩
  · rw [hPending] at hc'
    split at hc'
    · rename_i hk
      cases hc'
      obtain ⟨q, hq, hParam⟩ := h.edges _ c hGet
      exact ⟨p, hk, by rw [hParam, edgeKey_injective hq]⟩
    · exact h.edges k c' hc'
  · rw [hSame.reverting]
    exact idle_release h _ _ k

theorem revert_none (p : EdgeParam) (hGet : s.pending.get (edgeKey p) = none) (env : Env)
    (uid : String) : revert cfg s env uid (.edge p) = s := by
  unfold revert
  simp only [key_edge, hGet]

theorem revert_edge (h : s.Tuning) (cfg : Config) (env : Env) (uid : String) (p : EdgeParam) :
    (s.pending.get (edgeKey p) = none ∧ revert cfg s env uid (.edge p) = s) ∨
      ∃ c, s.pending.get (edgeKey p) = some c ∧
        ((∃ o, setOptions s.options p c.from_ = .ok o ∧
          Removed p s (revert cfg s env uid (.edge p)) ∧
          (revert cfg s env uid (.edge p)).options = o) ∨
        (∃ e, setOptions s.options p c.from_ = .error e ∧
          Placed p { c with revertAt := env.now + 5000 } s (revert cfg s env uid (.edge p)) ∧
          (revert cfg s env uid (.edge p)).options = s.options)) := by
  cases hGet : s.pending.get (edgeKey p) with
  | none => exact Or.inl ⟨rfl, revert_none p hGet env uid⟩
  | some c =>
    refine Or.inr ⟨c, rfl, ?_⟩
    cases hSet : setOptions s.options p c.from_ with
    | ok o => exact Or.inl ⟨o, rfl, revert_removes cfg h hGet hSet env uid⟩
    | error e => exact Or.inr ⟨e, rfl, revert_retries h hGet hSet env uid⟩

/-! ## A run -/

theorem Removed.baseline (h : Removed p s t) (q : EdgeParam) :
    t.baseline? q = if q = p then none else s.baseline? q := by
  unfold baseline?
  rw [h.pending]
  by_cases hq : q = p
  · rw [if_pos hq, if_pos (congrArg edgeKey hq)]
    rfl
  · rw [if_neg hq, if_neg fun hk => hq (edgeKey_injective hk)]

theorem Placed.baseline (h : Placed p c s t) (q : EdgeParam) :
    t.baseline? q = if q = p then some c.from_ else s.baseline? q := by
  unfold baseline?
  rw [h.pending]
  by_cases hq : q = p
  · rw [if_pos hq, if_pos (congrArg edgeKey hq)]
    rfl
  · rw [if_neg hq, if_neg fun hk => hq (edgeKey_injective hk)]

theorem Same.baseline (h : Same s t) (q : EdgeParam) : t.baseline? q = s.baseline? q := by
  unfold baseline?
  rw [h.pending]

/-- While a change is pending, `setOptions` has accepted the settings. -/
def Settled (s : System) : Prop := ∀ p b, s.baseline? p = some b → s.options.Consistent

/-- What a call or a sweep does: an open change keeps its value, and a new one starts from the
setting. -/
structure Follows (s t : System) : Prop where
  tuning : t.Tuning
  settled : t.Settled
  values : ∀ p, t.baseline? p = none ∨
    t.baseline? p = some ((s.baseline? p).getD (s.options.get p))

/-- What reverts do. -/
structure Reverts (s t : System) : Prop where
  tuning : t.Tuning
  settled : t.Settled
  values : ∀ p, t.baseline? p = none ∨ t.baseline? p = s.baseline? p

theorem Reverts.trans (h : Reverts s t) (h' : Reverts t u) : Reverts s u := by
  refine ⟨h'.tuning, h'.settled, fun p => ?_⟩
  rcases h'.values p with hu | hu
  · exact Or.inl hu
  · rw [hu]
    exact h.values p

theorem Reverts.follows (h : Reverts s t) : Follows s t := by
  refine ⟨h.tuning, h.settled, fun p => ?_⟩
  rcases h.values p with ht | ht
  · exact Or.inl ht
  · cases hs : s.baseline? p with
    | none => exact Or.inl (ht.trans hs)
    | some b => exact Or.inr (ht.trans hs)

theorem mem_entries_edge (h : s.Tuning) {e : Key × PendingChange} (he : e ∈ s.pending.entries) :
    ∃ p, e.1 = edgeKey p ∧ e.2.param = .edge p :=
  h.edges e.1 e.2 (get_eq_some_iff.mpr he)

/-- A call on an edge parameter, or the timer. -/
def EdgeEvent : Event → Prop
  | .apply _ _ _ (.edge _) _ => True
  | .apply _ _ _ (.noEdge _) _ => True
  | .commit _ _ (.edge _) => True
  | .revert _ _ (.edge _) => True
  | .sweep _ _ => True
  | _ => False

end System

end TMEdge.Params
