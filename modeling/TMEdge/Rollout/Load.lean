import TMEdge.Rollout.Safety

/-!
# How many nodes are updated at once

`Changes` says what a piece of the code does to the nodes: `Calmer` when it starts none
(no node gets a `startedAt` and no node leaves a terminal state), `OnlyAt` when it touches
one node. Everything but `begin` is calm, and `begin` touches its node; so the loop of
`restStage`, which counts what it starts, stays within the batch. `batch_bound` is the
result over every run, for every rollout ever made.
-/

namespace TMEdge.Rollout

open Library Protocol List

/-! ## Counting -/

section count

variable {α : Type} {p : α → Bool}

theorem countP_le_of_getElem? {l l' : List α}
    (h : ∀ (i : Nat) a', l'[i]? = some a' → p a' = true → ∃ a, l[i]? = some a ∧ p a = true) :
    l'.countP p ≤ l.countP p := by
  induction l' generalizing l with
  | nil => exact Nat.zero_le _
  | cons a' l' ih =>
    cases l with
    | nil =>
      refine Nat.le_of_eq (countP_eq_zero.mpr fun b hb hpb => ?_)
      obtain ⟨i, hi⟩ := mem_iff_getElem?.mp hb
      obtain ⟨a, ha, _⟩ := h i b hi hpb
      simp at ha
    | cons a l =>
      have hTail := ih (l := l) fun i b hb hpb => by simpa using h (i + 1) b (by simpa using hb) hpb
      have hHead : p a' = true → p a = true := fun ha' => by simpa using h 0 a' rfl ha'
      rw [countP_cons, countP_cons]
      split
      · rename_i ha'
        rw [if_pos (hHead ha')]
        omega
      · omega

/-- One place may count for one more. -/
theorem countP_le_succ_of_getElem? {l l' : List α} {k : Nat}
    (h : ∀ (i : Nat) a', i ≠ k → l'[i]? = some a' → p a' = true → ∃ a, l[i]? = some a ∧ p a = true) :
    l'.countP p ≤ l.countP p + 1 := by
  induction l' generalizing l k with
  | nil => exact Nat.zero_le _
  | cons a' l' ih =>
    cases k with
    | zero =>
      have hTail : l'.countP p ≤ l.tail.countP p := countP_le_of_getElem? fun i b hb hpb => by
        simpa using h (i + 1) b (Nat.succ_ne_zero i) (by simpa using hb) hpb
      have hSub := (tail_sublist l).countP_le (p := p)
      rw [countP_cons]
      split <;> omega
    | succ k =>
      have hTail := ih (l := l.tail) (k := k) fun i b hi hb hpb => by
        simpa using h (i + 1) b (by omega) (by simpa using hb) hpb
      have hSub := (tail_sublist l).countP_le (p := p)
      rw [countP_cons]
      split
      · rename_i ha'
        obtain ⟨a, ha, hpa⟩ := h 0 a' (Nat.succ_ne_zero k).symm rfl ha'
        cases l with
        | nil => simp at ha
        | cons b l =>
          obtain rfl : b = a := by simpa using ha
          rw [countP_cons, if_pos hpa]
          rw [tail_cons] at hTail
          omega
      · omega

end count

namespace Rollouts

/-! ## Changes of nodes -/

structure Changes (R : NodeRef → NodeUpdate → NodeUpdate → Prop) (s t : Rollouts) : Prop where
  stage : t.stage? = s.stage?
  node : ∀ ref n', t.node? ref = some n' → ∃ n, s.node? ref = some n ∧ R ref n n'

/-- The node is not started and stays ended. -/
def Calmer (_ : NodeRef) (n n' : NodeUpdate) : Prop :=
  (n.startedAt = none → n'.startedAt = none) ∧
    (n.state.terminal = true → n'.state.terminal = true)

/-- The other nodes stay as they are. -/
def OnlyAt (ref r : NodeRef) (n n' : NodeUpdate) : Prop := r ≠ ref → n' = n

section changes

variable {R : NodeRef → NodeUpdate → NodeUpdate → Prop} {s t u : Rollouts} {ref : NodeRef}

theorem Changes.of_views (hRefl : ∀ r n, R r n n) (h : t.views = s.views) : Changes R s t where
  stage := by funext v; simp only [stage?, h]
  node := fun r n hn => ⟨n, by rwa [node?, h] at hn, hRefl r n⟩

theorem Changes.trans (hTrans : ∀ r n n' n'', R r n n' → R r n' n'' → R r n n'')
    (h : Changes R s t) (h' : Changes R t u) : Changes R s u where
  stage := h'.stage.trans h.stage
  node := by
    intro r n'' hn''
    obtain ⟨n', hn', hR'⟩ := h'.node r n'' hn''
    obtain ⟨n, hn, hR⟩ := h.node r n' hn'
    exact ⟨n, hn, hTrans r n n' n'' hR hR'⟩

theorem stage?_updateNode (f : NodeUpdate → NodeUpdate) :
    (s.updateNode ref f).stage? = s.stage? := by
  funext v
  simp only [stage?, updateNode, getElem?_modify]
  by_cases hv : ref.view = v <;> cases s.views[v]? <;> simp [hv]

theorem changes_updateNode (hRefl : ∀ r n, R r n n) (f : NodeUpdate → NodeUpdate)
    (hf : ∀ n, s.node? ref = some n → R ref n (f n)) : Changes R s (s.updateNode ref f) where
  stage := stage?_updateNode f
  node := by
    intro r n' hn'
    rw [node?_updateNode] at hn'
    split at hn'
    · rename_i hr
      subst hr
      obtain ⟨n, hn, rfl⟩ := Option.map_eq_some_iff.mp hn'
      exact ⟨n, hn, hf n hn⟩
    · exact ⟨n', hn', hRefl r n'⟩

end changes

/-! ## What starts nothing -/

abbrev Calms (s t : Rollouts) : Prop := Changes Calmer s t

section calms

variable {s t u : Rollouts} {ref : NodeRef} {cfg : Config} {env : Env} {gatewayId : String}
  {id : Nat}

theorem calmer_refl (r : NodeRef) (n : NodeUpdate) : Calmer r n n := ⟨id, id⟩

theorem Calms.of_views (h : t.views = s.views) : Calms s t := Changes.of_views calmer_refl h

theorem Calms.trans (h : Calms s t) (h' : Calms t u) : Calms s u :=
  Changes.trans (fun _ _ _ _ hR hR' => ⟨fun hn => hR'.1 (hR.1 hn), fun hn => hR'.2 (hR.2 hn)⟩) h h'

theorem calms_foldl {f : Rollouts → NodeRef → Rollouts} (hf : ∀ s ref, Calms s (f s ref))
    (l : List NodeRef) (s : Rollouts) : Calms s (l.foldl f s) := by
  induction l generalizing s with
  | nil => exact .of_views rfl
  | cons ref l ih => exact (hf s ref).trans (ih _)

theorem calms_set {state : NodeUpdateState} {now : Nat} {error : Option String}
    {percent : Option Nat}
    (h : ∀ n, s.node? ref = some n → n.state.terminal = true → state.terminal = true) :
    Calms s (s.set ref state now error percent) := by
  unfold Rollouts.set
  refine Calms.trans (changes_updateNode calmer_refl _ ?_) (Calms.of_views rfl)
  exact fun n hn => ⟨id, h n hn⟩

theorem calms_timeOutNode : Calms s (timeOutNode cfg env s ref) := by
  unfold timeOutNode
  split
  · exact .of_views rfl
  · split
    · exact calms_set fun _ _ _ => rfl
    · exact .of_views rfl

theorem calms_skipNode : Calms s (skipNode env s ref) := by
  unfold skipNode
  split
  · exact .of_views rfl
  · split
    · exact .of_views rfl
    · exact calms_set fun _ _ _ => rfl

theorem calms_cancelNode : Calms s (cancelNode env s ref) := by
  unfold cancelNode
  split
  · exact .of_views rfl
  · split
    · exact calms_set fun _ _ _ => rfl
    · exact .of_views rfl

theorem calms_refuseNode {error : String} : Calms s (refuseNode env gatewayId error s ref) := by
  unfold refuseNode
  split
  · exact .of_views rfl
  · split
    · exact calms_set fun _ _ _ => rfl
    · exact .of_views rfl

theorem calms_takeImageResult {result : ImageResult}
    (h : s.takeImageResult env gatewayId result = some t) : Calms s t := by
  unfold takeImageResult at h
  split at h
  · cases h
  · split at h
    · cases h
    · split at h
      · cases h
      · split at h
        · obtain rfl := Option.some.inj h
          exact .of_views rfl
        · obtain rfl := Option.some.inj h
          exact calms_foldl (fun _ _ => calms_refuseNode) _ _

theorem calms_takeOtaStatus {uid : String} {status : OtaStatus}
    (h : s.takeOtaStatus env uid status = some t) : Calms s t := by
  unfold takeOtaStatus at h
  split at h
  · cases h
  · rename_i view _
    split at h
    · cases h
    · rename_i r hr
      split at h
      · cases h
      · rename_i i hi
        split at h
        · cases h
        · rename_i node hNode
          split at h
          · cases h
          · rename_i hTake
            split at h
            · obtain rfl := Option.some.inj h
              exact .of_views rfl
            · obtain rfl := Option.some.inj h
              refine calms_set fun n hn hT => ?_
              rw [node?, hr, Option.bind_some, hNode] at hn
              obtain rfl := Option.some.inj hn
              simp [hT] at hTake

theorem calms_takeOtaError {error : String} (h : s.takeOtaError env ref error = some t) :
    Calms s t := by
  unfold takeOtaError at h
  split at h
  · obtain rfl := Option.some.inj h
    exact calms_set fun _ _ _ => rfl
  · cases h

theorem calms_pushImage : Calms s (s.pushImage env ref gatewayId) := by
  unfold pushImage
  split
  · split
    · exact .of_views rfl
    · exact Calms.trans (t := { s with trace := s.trace ++ [.pushed ref gatewayId] })
        (.of_views rfl) (calms_set fun _ _ _ => rfl)
  · exact .of_views rfl

theorem views_dispatch {image : Image} {port : Nat} :
    (s.dispatch ref image port).1.views = s.views := by
  unfold dispatch
  split <;> rfl

theorem views_endTask : (s.endTask cfg id).views = s.views := by
  unfold endTask moveTask
  split <;> rfl

theorem calms_requeue : Calms s (s.requeue ref) := by
  unfold requeue
  split
  · rename_i hCan
    obtain ⟨_, n, hn, hState⟩ := canDispatch_iff.mp hCan
    refine Calms.trans (changes_updateNode calmer_refl (fun n => { n with
      state := .queued
      startedAt := none }) fun n' hn' => ⟨fun _ => rfl, fun hT => ?_⟩) (Calms.of_views rfl)
    obtain rfl := Option.some.inj (hn.symm.trans hn')
    simp [hState, NodeUpdateState.terminal] at hT
  · exact .of_views rfl

theorem calms_resumeHook {ok : Bool} : Calms s (s.resumeHook cfg env id ok) := by
  unfold resumeHook
  split
  · exact .of_views rfl
  · rename_i t hTask
    split
    · refine Calms.trans ?_ (Calms.of_views views_endTask)
      split
      · exact calms_pushImage
      · split <;> exact .of_views rfl
    · split
      · dsimp only
        split
        · rename_i hEq
          have hViews := congrArg (fun p => p.1.views) hEq
          rw [views_dispatch] at hViews
          exact .of_views hViews.symm
        · rename_i hEq
          have hViews := congrArg (fun p => p.1.views) hEq
          rw [views_dispatch] at hViews
          exact .of_views (views_endTask.trans hViews.symm)
      · exact calms_requeue.trans (.of_views views_endTask)
    · exact .of_views rfl

theorem calms_unlaunch : Calms s (s.unlaunch id) := by
  unfold unlaunch
  split
  · exact .of_views rfl
  · split <;> exact .of_views rfl

end calms

/-! ## `begin` -/

abbrev Only (ref : NodeRef) (s t : Rollouts) : Prop := Changes (OnlyAt ref) s t

section only

variable {s t u : Rollouts} {ref : NodeRef} {cfg : Config} {env : Env}

theorem onlyAt_refl (ref r : NodeRef) (n : NodeUpdate) : OnlyAt ref r n n := fun _ => rfl

theorem Only.of_views (h : t.views = s.views) : Only ref s t := Changes.of_views (onlyAt_refl ref) h

theorem Only.trans (h : Only ref s t) (h' : Only ref t u) : Only ref s u :=
  Changes.trans (fun _ _ _ _ hR hR' hr => (hR' hr).trans (hR hr)) h h'

theorem only_updateNode (f : NodeUpdate → NodeUpdate) : Only ref s (s.updateNode ref f) :=
  changes_updateNode (onlyAt_refl ref) f fun _ _ hr => absurd rfl hr

theorem only_set (state : NodeUpdateState) (now : Nat) (error : Option String)
    (percent : Option Nat) : Only ref s (s.set ref state now error percent) :=
  (only_updateNode _).trans (.of_views rfl)

theorem only_request {image : Image} {port : Nat} :
    Only ref s (s.request cfg env ref image port).1 := by
  unfold request
  split
  · have hStart : Only ref s ((s.set ref .sending env.now none none).updateNode ref fun n =>
        { n with startedAt := some env.now }) := (only_set _ _ _ _).trans (only_updateNode _)
    dsimp only
    split
    · exact hStart.trans (.of_views rfl)
    · exact hStart.trans (.of_views views_dispatch)
  · exact .of_views rfl

theorem only_pushImage {gatewayId : String} : Only ref s (s.pushImage env ref gatewayId) := by
  unfold pushImage
  split
  · split
    · exact .of_views rfl
    · exact Only.trans (t := { s with trace := s.trace ++ [.pushed ref gatewayId] })
        (.of_views rfl) (only_set _ _ _ _)
  · exact .of_views rfl

theorem only_beginOnce : Only ref s (beginOnce cfg env s ref).1 := by
  unfold beginOnce
  split
  · split
    · exact only_set .failed env.now (some "the image is gone from this edge") none
    · split
      · exact only_request
      · split
        · exact only_request
        · split
          · exact only_request
          · rename_i g _ _ _
            split
            · dsimp only
              split
              · exact .of_views rfl
              · exact Only.trans (t := { s with gatewaysAsked := s.gatewaysAsked.set g env.now })
                  (.of_views rfl) only_pushImage
            · split
              · exact only_set .failed env.now (some ("gateway " ++ g ++ " never took the image")) none
              · exact .of_views rfl
  · exact .of_views rfl

theorem views_addTask {stage : Option TaskStage} : (addTask cfg s ref stage).views = s.views := by
  unfold addTask
  split
  · rfl
  · split <;> rfl

/-- `begin` touches its node alone. -/
theorem only_begin (cfg : Config) (env : Env) (ref : NodeRef) : Only ref s (s.begin cfg env ref) := by
  unfold begin
  split
  · exact .of_views rfl
  · have hBegun : Only ref s (addTask cfg (beginOnce cfg env
        { s with launching := insert ref s.launching } ref).1 ref (beginOnce cfg env
        { s with launching := insert ref s.launching } ref).2) :=
      Only.trans (t := { s with launching := insert ref s.launching }) (.of_views rfl)
        (only_beginOnce.trans (.of_views views_addTask))
    dsimp only
    split
    · exact hBegun
    · exact hBegun.trans (.of_views rfl)

end only

/-! ## Nodes in flight -/

section inFlight

variable {s t : Rollouts} {ref : NodeRef} {view : Nat}

theorem nodes_getElem? (i : Nat) :
    ((s.views[view]?.map RolloutView.nodes).getD [])[i]? = s.node? ⟨view, i⟩ := by
  cases h : s.views[view]? <;> simp [node?, h]

theorem Calms.inFlight_le (h : Calms s t) : t.inFlight view ≤ s.inFlight view := by
  refine countP_le_of_getElem? fun i n' hn' hIn => ?_
  rw [nodes_getElem?] at hn'
  obtain ⟨n, hn, hStarted, hEnded⟩ := h.node _ _ hn'
  refine ⟨n, by rw [nodes_getElem?, hn], ?_⟩
  simp only [Bool.and_eq_true, Bool.not_eq_true', Option.isSome_iff_ne_none] at hIn ⊢
  refine ⟨?_, fun hNone => hIn.2 (hStarted hNone)⟩
  by_contra hT
  exact absurd (hEnded (by simpa using hT)) (by simp [hIn.1])

theorem Only.inFlight_of_ne (h : Only ref s t) (hView : ref.view ≠ view) :
    t.inFlight view ≤ s.inFlight view := by
  refine countP_le_of_getElem? fun i n' hn' hIn => ?_
  rw [nodes_getElem?] at hn'
  obtain ⟨n, hn, hSame⟩ := h.node _ _ hn'
  obtain rfl := hSame fun hEq => hView (hEq ▸ rfl)
  exact ⟨n', by rw [nodes_getElem?, hn], hIn⟩

theorem Only.inFlight_le_succ (h : Only ref s t) : t.inFlight view ≤ s.inFlight view + 1 := by
  refine countP_le_succ_of_getElem? (k := ref.node) fun i n' hi hn' hIn => ?_
  rw [nodes_getElem?] at hn'
  obtain ⟨n, hn, hSame⟩ := h.node _ _ hn'
  obtain rfl := hSame fun hEq => hi (hEq ▸ rfl)
  exact ⟨n', by rw [nodes_getElem?, hn], hIn⟩

/-- The node touched is not in flight afterwards. -/
theorem Only.inFlight_of_idle (h : Only ref s t)
    (hIdle : ∀ n, t.node? ref = some n → n.startedAt = none) :
    t.inFlight view ≤ s.inFlight view := by
  refine countP_le_of_getElem? fun i n' hn' hIn => ?_
  rw [nodes_getElem?] at hn'
  obtain ⟨n, hn, hSame⟩ := h.node _ _ hn'
  have hNe : (⟨view, i⟩ : NodeRef) ≠ ref := by
    rintro rfl
    simp [hIdle n' hn'] at hIn
  obtain rfl := hSame hNe
  exact ⟨n', by rw [nodes_getElem?, hn], hIn⟩

end inFlight

/-! ## The bound -/

structure Bounded (cfg : Config) (s : Rollouts) : Prop where
  pilot : ∀ ref n, s.stage? ref.view = some .pilot → s.node? ref = some n → ref.node ≠ 0 →
    n.startedAt = none
  rest : ∀ view, s.stage? view = some .rest → s.inFlight view ≤ cfg.timings.batch

section bounded

variable {s t : Rollouts} {ref : NodeRef} {cfg : Config} {env : Env} {view : Nat}

theorem Bounded.calms (h : Bounded cfg s) (hCalms : Calms s t) : Bounded cfg t where
  pilot := by
    intro ref n' hStage hn' hNode
    obtain ⟨n, hn, hStarted, _⟩ := hCalms.node ref n' hn'
    exact hStarted (h.pilot ref n (hCalms.stage ▸ hStage) hn hNode)
  rest := fun v hStage => hCalms.inFlight_le.trans (h.rest v (hCalms.stage ▸ hStage))

/-- The pilot is started while the rollout is in its first stage. -/
theorem Bounded.only_pilot (h : Bounded cfg s) (hStage : s.stage? view = some .pilot)
    (hOnly : Only ⟨view, 0⟩ s t) : Bounded cfg t where
  pilot := by
    intro ref n' hPilot hn' hNode
    obtain ⟨n, hn, hSame⟩ := hOnly.node ref n' hn'
    obtain rfl := hSame fun hEq => hNode (hEq ▸ rfl)
    exact h.pilot ref n' (hOnly.stage ▸ hPilot) hn hNode
  rest := by
    intro v hRest
    rw [hOnly.stage] at hRest
    have hNe : view ≠ v := by
      rintro rfl
      rw [hStage] at hRest
      cases hRest
    exact (hOnly.inFlight_of_ne hNe).trans (h.rest v hRest)

theorem stage?_setStage (g : Stage) (note : String) (v : Nat) :
    (s.setStage view g note).stage? v = if v = view then (s.stage? v).map fun _ => g
      else s.stage? v := by
  simp only [stage?, setStage, getElem?_modify]
  by_cases hv : v = view
  · subst hv
    cases s.views[v]? <;> simp
  · cases s.views[v]? <;> simp [hv, Ne.symm hv]

theorem node?_setStage (g : Stage) (note : String) (ref : NodeRef) :
    (s.setStage view g note).node? ref = s.node? ref := by
  simp only [node?, setStage, getElem?_modify]
  by_cases hv : view = ref.view <;> cases s.views[ref.view]? <;> simp [hv]

theorem inFlight_setStage (g : Stage) (note : String) (v : Nat) :
    (s.setStage view g note).inFlight v = s.inFlight v := by
  simp only [inFlight, setStage, getElem?_modify]
  by_cases hv : view = v <;> cases s.views[v]? <;> simp [hv]

/-- A stage that ends the rollout, or one in which few enough nodes are in flight. -/
theorem Bounded.setStage (h : Bounded cfg s) {g : Stage} (note : String) (hPilot : g ≠ .pilot)
    (hRest : g = .rest → s.inFlight view ≤ cfg.timings.batch) :
    Bounded cfg (s.setStage view g note) where
  pilot := by
    intro ref n hStage hn hNode
    rw [stage?_setStage] at hStage
    rw [node?_setStage] at hn
    split at hStage
    · obtain ⟨_, _, hEq⟩ := Option.map_eq_some_iff.mp hStage
      exact absurd hEq hPilot
    · exact h.pilot ref n hStage hn hNode
  rest := by
    intro v hStage
    rw [stage?_setStage] at hStage
    rw [inFlight_setStage]
    split at hStage
    · rename_i hv
      obtain ⟨_, _, hEq⟩ := Option.map_eq_some_iff.mp hStage
      exact hv ▸ hRest hEq
    · exact h.rest v hStage

theorem calms_finish : Calms s (s.finish env) := by
  unfold finish
  split
  · exact .of_views rfl
  · rename_i r _
    refine ⟨funext fun v => ?_, fun ref n' hn' => ⟨n', ?_, calmer_refl ref n'⟩⟩
    · simp only [stage?, getElem?_modify]
      by_cases hv : r = v <;> cases s.views[v]? <;> simp [hv]
    · rw [← hn']
      simp only [node?, getElem?_modify]
      by_cases hv : r = ref.view <;> cases s.views[ref.view]? <;> simp [hv]

theorem Bounded.timeOut (h : Bounded cfg s) : Bounded cfg (s.timeOut cfg env view) :=
  h.calms (calms_foldl (fun _ _ => calms_timeOutNode) _ _)

/-- With the pilot confirmed and nothing else started, nothing is in flight. -/
theorem inFlight_eq_zero (h : Bounded cfg s) {r : RolloutView} {pilot : NodeUpdate}
    {others : List NodeUpdate} (hr : s.views[view]? = some r) (hStage : r.stage = .pilot)
    (hNodes : r.nodes = pilot :: others) (hPilot : pilot.state = .confirmed) :
    s.inFlight view = 0 := by
  refine countP_eq_zero.mpr fun n hn hIn => ?_
  obtain ⟨i, hi⟩ := mem_iff_getElem?.mp hn
  have hNode := hi
  rw [nodes_getElem?] at hi
  cases i with
  | zero =>
    obtain rfl : pilot = n := by simpa [hr, hNodes] using hNode
    simp [hPilot, NodeUpdateState.terminal] at hIn
  | succ i =>
    have hNone := h.pilot ⟨view, i + 1⟩ n (by simp [stage?, hr, hStage]) hi (Nat.succ_ne_zero i)
    simp [hNone] at hIn

theorem Bounded.pilotStage (h : Bounded cfg s) : Bounded cfg (s.pilotStage cfg env view) := by
  unfold Rollouts.pilotStage
  split
  · exact h
  · rename_i r hr
    split
    · rename_i pilot others hStage hNodes
      split
      · exact h.only_pilot (by simp [stage?, hr, hStage]) (only_begin cfg env _)
      · rename_i hPilot
        split
        · exact h.setStage _ (by simp) (by simp)
        · refine h.setStage _ (by simp) fun _ => ?_
          rw [inFlight_eq_zero h hr hStage hNodes hPilot]
          exact Nat.zero_le _
      · exact (h.calms (calms_foldl (fun _ _ => calms_skipNode) _ _)).setStage _ (by simp) (by simp)
      · exact h
    · exact h

/-- The loop counts every node it starts. -/
theorem beginNext_counts {p : Rollouts × Nat} (env : Env) (hView : ref.view = view)
    (hCount : p.1.inFlight view ≤ p.2) (hBatch : p.2 ≤ cfg.timings.batch)
    (hRest : p.1.stage? view = some .rest) (h : Bounded cfg p.1) :
    (beginNext cfg env p ref).1.inFlight view ≤ (beginNext cfg env p ref).2 ∧
      (beginNext cfg env p ref).2 ≤ cfg.timings.batch ∧
      (beginNext cfg env p ref).1.stage? view = some .rest ∧
      Bounded cfg (beginNext cfg env p ref).1 := by
  unfold beginNext
  split
  · exact ⟨hCount, hBatch, hRest, h⟩
  · rename_i hMore
    split
    · exact ⟨hCount, hBatch, hRest, h⟩
    · split
      · exact ⟨hCount, hBatch, hRest, h⟩
      · have hOnly := only_begin (s := p.1) cfg env ref
        have hStage : (p.1.begin cfg env ref).stage? view = some .rest := hOnly.stage ▸ hRest
        have hCounted : (p.1.begin cfg env ref).inFlight view ≤
            if ((p.1.begin cfg env ref).node? ref).any fun n => n.startedAt.isSome then p.2 + 1
            else p.2 := by
          split
          · exact hOnly.inFlight_le_succ.trans (Nat.succ_le_succ hCount)
          · rename_i hIdle
            refine (hOnly.inFlight_of_idle fun n hn => ?_).trans hCount
            simpa [hn] using hIdle
        have hBound : (if ((p.1.begin cfg env ref).node? ref).any fun n => n.startedAt.isSome
            then p.2 + 1 else p.2) ≤ cfg.timings.batch := by
          split <;> omega
        refine ⟨hCounted, hBound, hStage, ⟨?_, ?_⟩⟩
        · intro r n' hPilot hn' hNode
          rw [hOnly.stage] at hPilot
          obtain ⟨n, hn, hSame⟩ := hOnly.node r n' hn'
          have hNe : r ≠ ref := by
            rintro rfl
            rw [hView, hRest] at hPilot
            cases hPilot
          obtain rfl := hSame hNe
          exact h.pilot r n' hPilot hn hNode
        · intro v hv
          by_cases hEq : v = view
          · exact hEq ▸ hCounted.trans hBound
          · rw [hOnly.stage] at hv
            exact (hOnly.inFlight_of_ne (hView ▸ Ne.symm hEq)).trans (h.rest v hv)

theorem Bounded.restStage (h : Bounded cfg s) : Bounded cfg (s.restStage cfg env view) := by
  unfold Rollouts.restStage
  split
  · rename_i hRest
    have hLoop : ∀ (l : List NodeRef) (p : Rollouts × Nat), (∀ ref ∈ l, ref.view = view) →
        p.1.inFlight view ≤ p.2 → p.2 ≤ cfg.timings.batch → p.1.stage? view = some .rest →
        Bounded cfg p.1 → Bounded cfg (l.foldl (beginNext cfg env) p).1 := by
      intro l
      induction l with
      | nil => exact fun _ _ _ _ _ h => h
      | cons ref l ih =>
        intro p hl hCount hBatch hStage hp
        obtain ⟨hCount', hBatch', hStage', hp'⟩ :=
          beginNext_counts env (hl ref mem_cons_self) hCount hBatch hStage hp
        exact ih _ (fun ref' hr => hl ref' (mem_cons_of_mem _ hr)) hCount' hBatch' hStage' hp'
    refine hLoop _ _ (fun ref hr => ?_) (Nat.le_refl _) (h.rest view hRest) hRest h
    obtain ⟨i, _, rfl⟩ := mem_map.mp (mem_of_mem_tail hr)
    rfl
  · exact h

theorem Bounded.finishStage (h : Bounded cfg s) : Bounded cfg (s.finishStage env view) := by
  unfold Rollouts.finishStage
  split
  · exact h
  · split
    · exact (h.setStage _ (by simp) (by simp)).calms calms_finish
    · exact h

theorem Bounded.tick (h : Bounded cfg s) : Bounded cfg (s.tick cfg env) := by
  unfold Rollouts.tick
  split
  · exact h
  · split
    · exact h
    · split
      · exact h
      · dsimp only
        split
        · exact h.timeOut
        · exact h.timeOut.pilotStage.restStage.finishStage

theorem Bounded.cancel (h : Bounded cfg s) {cancelledBy : String} :
    Bounded cfg (s.cancel env cancelledBy) := by
  unfold Rollouts.cancel
  split
  · exact h
  · rename_i view _
    split
    · have hCalms : Calms s ((s.refs view).foldl (cancelNode env) s) :=
        calms_foldl (fun _ _ => calms_cancelNode) _ _
      exact ((h.calms hCalms).setStage _ (by simp) (by simp)).calms calms_finish
    · exact h

theorem Bounded.started (h : Bounded cfg s) {r : RolloutView} (hStage : r.stage = .pilot)
    (hNodes : ∀ n ∈ r.nodes, n.startedAt = none) : Bounded cfg (s.started r) := by
  have hOld : ∀ v, v ≠ s.views.length → (s.started r).views[v]? = s.views[v]? := by
    intro v hv
    simp only [Rollouts.started]
    rcases Nat.lt_or_gt_of_ne hv with hv | hv
    · rw [getElem?_append_left hv]
    · rw [getElem?_eq_none (by simp; omega), getElem?_eq_none (by omega)]
  have hNew : (s.started r).views[s.views.length]? = some r := by simp [Rollouts.started]
  constructor
  · intro ref n hPilot hn hNode
    by_cases hv : ref.view = s.views.length
    · rw [node?, hv, hNew, Option.bind_some] at hn
      exact hNodes n (mem_of_getElem? hn)
    · rw [stage?, hOld _ hv] at hPilot
      rw [node?, hOld _ hv] at hn
      exact h.pilot ref n hPilot hn hNode
  · intro v hRest
    by_cases hv : v = s.views.length
    · rw [stage?, hv, hNew, Option.map_some, hStage] at hRest
      cases hRest
    · rw [stage?, hOld _ hv] at hRest
      rw [inFlight, hOld _ hv]
      exact h.rest v hRest

theorem Bounded.start (h : Bounded cfg s) {buildId startedBy : String} {target : RolloutTarget}
    {deferDispatch : Bool} :
    Bounded cfg (s.start cfg env buildId target startedBy deferDispatch).1 := by
  unfold Rollouts.start
  split
  · exact h
  · rename_i r hr
    obtain ⟨_, hStage, _, hNodes⟩ := checkStart_ok hr
    have hStarted := h.started hStage fun n hn => (hNodes n hn).2
    change Bounded cfg (if deferDispatch then s.started r else (s.started r).tick cfg env)
    split
    · exact hStarted
    · exact hStarted.tick

end bounded

end Rollouts

theorem bounded_step {cfg : Config} {s : Rollouts} (h : s.Bounded cfg) (e : Event) :
    (step cfg s e).Bounded cfg := by
  cases e with
  | start env buildId target startedBy deferDispatch => exact h.start
  | tick env => exact h.tick
  | onImageReady env gatewayId result =>
    simp only [step, Rollouts.onImageReady]
    split
    · exact h
    · rename_i hTake
      exact (h.calms (Rollouts.calms_takeImageResult hTake)).tick
  | onOtaStatus env uid status =>
    simp only [step, Rollouts.onOtaStatus]
    split
    · exact h
    · rename_i hTake
      exact (h.calms (Rollouts.calms_takeOtaStatus hTake)).tick
  | cancel env cancelledBy => exact h.cancel
  | resumeHook env task ok => exact h.calms Rollouts.calms_resumeHook
  | otaSettled env id error =>
    simp only [step, Rollouts.otaSettled]
    split
    · exact h
    · split
      · refine Rollouts.Bounded.calms ?_ (.of_views Rollouts.views_endTask)
        split
        · exact h
        · rename_i hTake
          obtain ⟨error, _, hTake⟩ := Option.bind_eq_some_iff.mp hTake
          exact (h.calms (Rollouts.calms_takeOtaError hTake)).tick
      · exact h
  | unlaunch id => exact h.calms Rollouts.calms_unlaunch

/-- In every run and of every rollout: in stage `pilot` no node but the first has been
started, in stage `rest` at most `batch` nodes are in flight. -/
theorem batch_bound (cfg : Config) (es : List Event) (view : Nat) (r : RolloutView)
    (hr : (run (step cfg) .new es).views[view]? = some r) :
    (r.stage = .pilot → ∀ (i : Nat) (n : NodeUpdate), r.nodes[i]? = some n → i ≠ 0 →
      n.startedAt = none) ∧
    (r.stage = .rest →
      r.nodes.countP (fun n => !n.state.terminal && n.startedAt.isSome) ≤ cfg.timings.batch) := by
  have hBounded : (run (step cfg) .new es).Bounded cfg :=
    run_invariant (Rollouts.Bounded cfg) (fun _ e h => bounded_step h e)
      ⟨by simp [Rollouts.stage?, Rollouts.new], by simp [Rollouts.stage?, Rollouts.new]⟩ es
  refine ⟨fun hStage i n hn hNode => ?_, fun hStage => ?_⟩
  · exact hBounded.pilot ⟨view, i⟩ n (by simp [Rollouts.stage?, hr, hStage])
      (by simp [Rollouts.node?, hr, hn]) hNode
  · have hCount := hBounded.rest view (by simp [Rollouts.stage?, hr, hStage])
    simpa [Rollouts.inFlight, hr] using hCount

/-- The pilot has confirmed, and the next node is being updated. -/
theorem batch_bound_confirmed :
    ∃ r, (run (step (exampleConfig true)) .new
        [exampleStart, examplePilot .confirmed]).views[0]? = some r ∧ r.stage = .rest ∧
      r.nodes.countP (fun n => !n.state.terminal && n.startedAt.isSome) ≤ 3 := by
  have hStage : ((run (step (exampleConfig true)) .new
      [exampleStart, examplePilot .confirmed]).views[0]?).map RolloutView.stage = some .rest := by
    decide +kernel
  obtain ⟨r, hr, hRest⟩ := Option.map_eq_some_iff.mp hStage
  exact ⟨r, hr, hRest, (batch_bound (exampleConfig true) _ 0 r hr).2 hRest⟩

end TMEdge.Rollout
