import TMEdge.Library.Trace
import TMEdge.Rollout.Held

/-!
# Safety of rollouts

Over every run of `Rollouts`, whatever the order of its calls and of the settlements of the
promises it awaits:

* `pilot_first`: an OTA goes to a node only after the pilot of its rollout has confirmed,
  once, and not after the rollout has ended or was replaced. A node also never leaves a
  terminal state, unless `cancel` skips a node that ended while its request was held back.
* `ended_in_history`: a rollout that has ended is finished and was added to the history
  once, unless `tick` stopped it because its pilot failed.
-/

namespace TMEdge.Rollout

open Library Protocol Relation List Function

/-! ## Dispatch -/

/-- What must have happened, and what must not, before an OTA. -/
def Allowed (pre : List Effect) : Effect → Prop
  | .ota ref _ _ =>
    (ref.node ≠ 0 → .set ⟨ref.view, 0⟩ .confirmed ∈ pre) ∧
    (∀ uid image, .ota ref uid image ∉ pre) ∧
    (∀ g, g.ended = true → .staged ref.view g ∉ pre) ∧
    ∀ view, .started view ∈ pre → view ≤ ref.view
  | _ => True

/-- The node has left the queue for good or its request is held back. -/
structure Underway (c : Core) (ref : NodeRef) : Prop where
  state : ∃ g, c.state ref = some g ∧ g ≠ .queued
  pilot : ref.node ≠ 0 → .set ⟨ref.view, 0⟩ .confirmed ∈ c.trace

structure Inv (c : Core) : Prop where
  active_last : ∀ v, c.active = some v → v + 1 = c.size
  started : ∀ v, .started v ∈ c.trace → v < c.size
  known : ∀ ref g, c.state ref = some g → ref.view < c.size
  ended : ∀ v g, .staged v g ∈ c.trace → g.ended = true →
    v < c.size ∧ ∀ g', c.stage v = some g' → g'.ended = true
  confirmed : ∀ ref, c.state ref = some .confirmed → .set ref .confirmed ∈ c.trace
  rest : ∀ v, c.stage v = some .rest → .set ⟨v, 0⟩ .confirmed ∈ c.trace
  requests_nodup : c.requests.Nodup
  requests : ∀ ref ∈ c.requests, Underway c ref
  dispatched : ∀ ref uid image, .ota ref uid image ∈ c.trace →
    ref ∉ c.requests ∧ ∃ g, c.state ref = some g ∧ g ≠ .queued
  allowed : Justified Allowed c.trace

theorem inv_new : Inv Rollouts.new.core := by
  constructor <;> simp [Rollouts.core, Rollouts.new, Rollouts.node?, Rollouts.stage?, justified_nil]

/-- Effects the invariant does not speak of. -/
def Quiet : Effect → Prop
  | .ota _ _ _ | .staged _ _ | .started _ => False
  | _ => True

theorem Quiet.allowed {e : Effect} (h : Quiet e) (pre : List Effect) : Allowed pre e := by
  cases e <;> simp_all [Quiet, Allowed]

theorem quiet_nodeDone {l : List Effect} (h : ∀ e ∈ l, ∃ uid, e = .nodeDone uid) :
    ∀ e ∈ l, Quiet e := by
  intro e he
  obtain ⟨uid, rfl⟩ := h e he
  trivial

section steps

variable {A O B : Prop} {c c' : Core} {v : Nat} {es : List Effect} {requests : List NodeRef}
  {ref : NodeRef}

theorem Inv.current_last (h : Inv c) (hCurrent : c.Current v) : v + 1 = c.size :=
  h.active_last v hCurrent.1

/-- A rollout that has not ended was never staged as ended. -/
theorem Inv.not_ended (h : Inv c) (hCurrent : c.Current v) {g : Stage} (hg : g.ended = true) :
    .staged v g ∉ c.trace := by
  intro hMem
  obtain ⟨_, g', hg', hOpen⟩ := hCurrent
  have := (h.ended v g hMem hg).2 g' hg'
  simp [this] at hOpen

/-- Changes of node states and requests. -/
theorem Inv.nodes (h : Inv c) {state : NodeRef → Option NodeUpdateState}
    {requests : List NodeRef} {es : List Effect} (hQuiet : ∀ e ∈ es, Quiet e)
    (hKnown : ∀ r g, state r = some g → r.view < c.size)
    (hConfirmed : ∀ r, state r = some .confirmed →
      c.state r = some .confirmed ∨ .set r .confirmed ∈ es)
    (hNodup : requests.Nodup)
    (hRequests : ∀ r ∈ requests, Underway { c with state := state } r)
    (hDispatched : ∀ r uid image, .ota r uid image ∈ c.trace →
      r ∉ requests ∧ ∃ g, state r = some g ∧ g ≠ .queued) :
    Inv { c with
      state := state
      requests := requests
      trace := c.trace ++ es } where
  active_last := h.active_last
  started := by
    intro v hv
    rcases mem_append.mp hv with hv | hv
    · exact h.started v hv
    · exact (hQuiet _ hv).elim
  known := hKnown
  ended := by
    intro v g hv
    rcases mem_append.mp hv with hv | hv
    · exact h.ended v g hv
    · exact (hQuiet _ hv).elim
  confirmed := by
    intro r hr
    rcases hConfirmed r hr with hr | hr
    · exact mem_append_left _ (h.confirmed r hr)
    · exact mem_append_right _ hr
  rest := fun v hv => mem_append_left _ (h.rest v hv)
  requests_nodup := hNodup
  requests := fun r hr =>
    ⟨(hRequests r hr).state, fun hNode => mem_append_left _ ((hRequests r hr).pilot hNode)⟩
  dispatched := by
    intro r uid image hr
    rcases mem_append.mp hr with hr | hr
    · exact hDispatched r uid image hr
    · exact (hQuiet _ hr).elim
  allowed := justified_append h.allowed fun e he pre => (hQuiet e he).allowed pre

/-- Changes of the stage of the running rollout. -/
theorem Inv.stages (h : Inv c) {g : Stage} {finished : Nat → Bool} {past : List Nat}
    (hCurrent : c.Current v) (hRest : g = .rest → .set ⟨v, 0⟩ .confirmed ∈ c.trace)
    (hEffects : ∀ e ∈ es, e = .staged v g ∨ e = .finished v) :
    Inv { c with
      stage := Function.update c.stage v (some g)
      finished := finished
      past := past
      trace := c.trace ++ es } where
  active_last := h.active_last
  started := by
    intro w hw
    rcases mem_append.mp hw with hw | hw
    · exact h.started w hw
    · rcases hEffects _ hw with hw | hw <;> cases hw
  known := h.known
  ended := by
    intro w g' hw hEnded
    rcases mem_append.mp hw with hw | hw
    · have hne : w ≠ v := fun hEq => h.not_ended hCurrent hEnded (hEq ▸ hw)
      refine ⟨(h.ended w g' hw hEnded).1, fun g'' hg'' => ?_⟩
      simp only [update_of_ne hne] at hg''
      exact (h.ended w g' hw hEnded).2 g'' hg''
    · have hv := h.current_last hCurrent
      rcases hEffects _ hw with hw | hw <;> cases hw
      refine ⟨by simp only; omega, fun g'' hg'' => ?_⟩
      obtain rfl : g = g'' := by simpa using hg''
      exact hEnded
  confirmed := fun r hr => mem_append_left _ (h.confirmed r hr)
  rest := by
    intro w hw
    refine mem_append_left _ ?_
    by_cases hEq : w = v
    · subst hEq
      exact hRest (by simpa using hw)
    · simp only [update_of_ne hEq] at hw
      exact h.rest w hw
  requests_nodup := h.requests_nodup
  requests := fun r hr =>
    ⟨(h.requests r hr).state, fun hNode => mem_append_left _ ((h.requests r hr).pilot hNode)⟩
  dispatched := by
    intro r uid image hr
    rcases mem_append.mp hr with hr | hr
    · exact h.dispatched r uid image hr
    · rcases hEffects _ hr with hr | hr <;> cases hr
  allowed := by
    refine justified_append h.allowed fun e he pre => ?_
    rcases hEffects e he with rfl | rfl <;> trivial

/-- A new rollout. -/
theorem Inv.start (h : Inv c) {n : Nat} {name : NodeRef → Option (String × String)} :
    Inv { c with
      name := name
      state := fun ref =>
        if ref.view = c.size then (if ref.node < n then some .queued else none)
        else c.state ref
      stage := Function.update c.stage c.size (some .pilot)
      size := c.size + 1
      active := some c.size
      trace := c.trace ++ [.started c.size] } where
  active_last := by simp
  started := by
    intro v hv
    rcases mem_append.mp hv with hv | hv
    · exact Nat.lt_succ_of_lt (h.started v hv)
    · obtain rfl : v = c.size := by simpa using hv
      exact Nat.lt_succ_self _
  known := by
    intro ref g hg
    dsimp only at hg ⊢
    split at hg
    · omega
    · exact Nat.lt_succ_of_lt (h.known ref g hg)
  ended := by
    intro v g hv hEnded
    have hOld : .staged v g ∈ c.trace := by simpa using hv
    obtain ⟨hLt, hStage⟩ := h.ended v g hOld hEnded
    refine ⟨Nat.lt_succ_of_lt hLt, fun g' hg' => hStage g' ?_⟩
    simpa only [update_of_ne (Nat.ne_of_lt hLt)] using hg'
  confirmed := by
    intro ref hRef
    dsimp only at hRef
    split at hRef
    · split at hRef <;> simp at hRef
    · exact mem_append_left _ (h.confirmed ref hRef)
  rest := by
    intro v hv
    refine mem_append_left _ ?_
    by_cases hEq : v = c.size
    · subst hEq
      simp at hv
    · simp only [update_of_ne hEq] at hv
      exact h.rest v hv
  requests_nodup := h.requests_nodup
  requests := by
    intro r hr
    have hUnderway := h.requests r hr
    obtain ⟨g, hg, hNe⟩ := hUnderway.state
    have hView := h.known r g hg
    refine ⟨⟨g, ?_, hNe⟩, fun hNode => mem_append_left _ (hUnderway.pilot hNode)⟩
    dsimp only
    rwa [if_neg (Nat.ne_of_lt hView)]
  dispatched := by
    intro r uid image hr
    obtain ⟨hFree, g, hg, hNe⟩ := h.dispatched r uid image (by simpa using hr)
    have hView := h.known r g hg
    refine ⟨hFree, g, ?_, hNe⟩
    dsimp only
    rwa [if_neg (Nat.ne_of_lt hView)]
  allowed := justified_concat h.allowed trivial

/-- An OTA that is allowed. -/
theorem Inv.ota (h : Inv c) {uid : String} {image : OtaImage}
    (hRequests : (ref :: requests).Subperm c.requests) (hCurrent : c.Current ref.view)
    (hState : c.state ref = some .sending) :
    Inv { c with
      requests := requests
      trace := c.trace ++ [.ota ref uid image] } := by
  have hHeld : ref ∈ c.requests := hRequests.subset (by simp)
  have hOthers : ∀ r ∈ requests, r ∈ c.requests := fun r hr =>
    hRequests.subset (mem_cons_of_mem _ hr)
  obtain ⟨hFree, hNodup⟩ := nodup_cons.mp (nodup_of_subperm hRequests h.requests_nodup)
  have hLast := h.current_last hCurrent
  constructor
  · exact h.active_last
  · exact fun v hv => h.started v (by simpa using hv)
  · exact h.known
  · exact fun v g hv => h.ended v g (by simpa using hv)
  · exact fun r hr => mem_append_left _ (h.confirmed r hr)
  · exact fun v hv => mem_append_left _ (h.rest v hv)
  · exact hNodup
  · intro r hr
    have hUnderway := h.requests r (hOthers r hr)
    exact ⟨hUnderway.state, fun hNode => mem_append_left _ (hUnderway.pilot hNode)⟩
  · intro r uid' image' hr
    rcases mem_append.mp hr with hr | hr
    · obtain ⟨hr, hState⟩ := h.dispatched r uid' image' hr
      exact ⟨fun hMem => hr (hOthers r hMem), hState⟩
    · obtain rfl : r = ref := by
        have := mem_singleton.mp hr
        simp_all
      exact ⟨hFree, .sending, hState, by simp⟩
  · refine justified_concat h.allowed ⟨(h.requests ref hHeld).pilot, ?_, ?_, ?_⟩
    · exact fun uid' image' hMem => (h.dispatched ref uid' image' hMem).1 hHeld
    · exact fun g hg => h.not_ended hCurrent hg
    · intro v hv
      have := h.started v hv
      omega

/-- A node of the queue has no request held back and no OTA. -/
theorem Inv.queued (h : Inv c) (hState : c.state ref = some .queued) :
    ref ∉ c.requests ∧ ∀ uid image, .ota ref uid image ∉ c.trace := by
  constructor
  · intro hMem
    obtain ⟨g, hg, hNe⟩ := (h.requests ref hMem).state
    exact hNe (Option.some.inj (hg.symm.trans hState))
  · intro uid image hMem
    obtain ⟨_, g, hg, hNe⟩ := h.dispatched ref uid image hMem
    exact hNe (Option.some.inj (hg.symm.trans hState))

/-- A node is set to a state other than `queued`. -/
theorem Inv.setNode (h : Inv c) {ref : NodeRef} {old new : NodeUpdateState} {es : List Effect}
    {requests : List NodeRef} (hState : c.state ref = some old) (hNew : new ≠ .queued)
    (hQuiet : ∀ e ∈ es, Quiet e) (hConfirmed : new = .confirmed → .set ref .confirmed ∈ es)
    (hNodup : requests.Nodup)
    (hRequests : ∀ r ∈ requests, r ∈ c.requests ∨
      (r = ref ∧ (ref.node ≠ 0 → .set ⟨ref.view, 0⟩ .confirmed ∈ c.trace)))
    (hFree : ∀ uid image, .ota ref uid image ∈ c.trace → ref ∉ requests) :
    Inv { c with
      state := Function.update c.state ref (some new)
      requests := requests
      trace := c.trace ++ es } := by
  have hMoved : ∀ r, (∃ g, c.state r = some g ∧ g ≠ .queued) ∨ r = ref →
      ∃ g, Function.update c.state ref (some new) r = some g ∧ g ≠ .queued := by
    intro r hr
    by_cases hEq : r = ref
    · exact ⟨new, by simp [hEq], hNew⟩
    · simpa [hEq] using hr
  refine h.nodes hQuiet ?_ ?_ hNodup ?_ ?_
  · intro r g hr
    by_cases hEq : r = ref
    · exact hEq ▸ h.known ref old hState
    · exact h.known r g (by simpa [hEq] using hr)
  · intro r hr
    by_cases hEq : r = ref
    · subst hEq
      exact Or.inr (hConfirmed (by simpa using hr))
    · exact Or.inl (by simpa [hEq] using hr)
  · intro r hr
    rcases hRequests r hr with hOld | ⟨rfl, hPilot⟩
    · exact ⟨hMoved r (Or.inl (h.requests r hOld).state), (h.requests r hOld).pilot⟩
    · exact ⟨hMoved r (Or.inr rfl), hPilot⟩
  · intro r uid image hr
    obtain ⟨hNotHeld, hSome⟩ := h.dispatched r uid image hr
    refine ⟨fun hMem => ?_, hMoved r (Or.inl hSome)⟩
    rcases hRequests r hMem with hOld | ⟨rfl, _⟩
    · exact hNotHeld hOld
    · exact hFree uid image hr hMem

theorem inv_nodeStep (h : Inv c) (hStep : NodeStep A O c c') : Inv c' := by
  cases hStep with
  | set hState hOld hNew hDone =>
    refine h.setNode hState hNew.1 ?_ (by rintro rfl; simp) h.requests_nodup
      (fun r hr => Or.inl hr) fun uid image hMem => (h.dispatched _ uid image hMem).1
    exact forall_mem_cons.mpr ⟨trivial, quiet_nodeDone hDone⟩
  | @launch ref hCurrent hState hPilot =>
    obtain ⟨hNotHeld, hNoOta⟩ := h.queued hState
    refine h.setNode hState (by simp) ?_ (by simp) ?_ (fun r hr => ?_)
      fun uid image hMem => absurd hMem (hNoOta uid image)
    · exact forall_mem_singleton.mpr trivial
    · exact nodup_append'.mpr ⟨h.requests_nodup, nodup_singleton _, by simpa using hNotHeld⟩
    · rcases mem_append.mp hr with hr | hr
      · exact Or.inl hr
      · refine Or.inr ⟨mem_singleton.mp hr, fun hNode => ?_⟩
        exact h.rest _ (hPilot.resolve_left hNode)
  | @dropped requests hRequests =>
    have hSubset := hRequests.subset
    have hDropped : Inv { c with
        requests := requests
        trace := c.trace ++ [] } :=
      h.nodes (by simp) h.known (fun r hr => Or.inl hr)
        (nodup_of_subperm hRequests h.requests_nodup) (fun r hr => h.requests r (hSubset hr))
        fun r uid image hr => ⟨fun hMem => (h.dispatched r uid image hr).1 (hSubset hMem),
          (h.dispatched r uid image hr).2⟩
    simpa using hDropped
  | @requeue ref requests hRequests hState =>
    have hHeld : ref ∈ c.requests := hRequests.subset (by simp)
    have hOthers : ∀ r ∈ requests, r ∈ c.requests := fun r hr =>
      hRequests.subset (mem_cons_of_mem _ hr)
    obtain ⟨hFree, hNodup⟩ := nodup_cons.mp (nodup_of_subperm hRequests h.requests_nodup)
    refine h.nodes (forall_mem_singleton.mpr trivial) ?_ ?_ hNodup ?_ ?_
    · intro r g hr
      by_cases hEq : r = ref
      · exact hEq ▸ h.known ref _ hState
      · exact h.known r g (by simpa [hEq] using hr)
    · intro r hr
      by_cases hEq : r = ref
      · subst hEq
        simp at hr
      · exact Or.inl (by simpa [hEq] using hr)
    · intro r hr
      have hEq : r ≠ ref := fun hEq => hFree (hEq ▸ hr)
      have hUnderway := h.requests r (hOthers r hr)
      exact ⟨by simpa [hEq] using hUnderway.state, hUnderway.pilot⟩
    · intro r uid image hr
      obtain ⟨hNotHeld, hSome⟩ := h.dispatched r uid image hr
      have hEq : r ≠ ref := fun hEq => hNotHeld (hEq ▸ hHeld)
      exact ⟨fun hMem => hNotHeld (hOthers r hMem), by simpa [hEq] using hSome⟩
  | ota _ hRequests hCurrent hState => exact h.ota hRequests hCurrent hState
  | tasks _ _ _ =>
    exact ⟨h.active_last, h.started, h.known, h.ended, h.confirmed, h.rest, h.requests_nodup,
      fun r hr => ⟨(h.requests r hr).state, (h.requests r hr).pilot⟩, h.dispatched, h.allowed⟩
  | push hCurrent =>
    exact h.nodes (forall_mem_singleton.mpr trivial) h.known (fun r hr => Or.inl hr)
      h.requests_nodup h.requests h.dispatched

theorem inv_coreStep (h : Inv c) (hStep : CoreStep A O B c c') : Inv c' := by
  cases hStep with
  | node hNode => exact inv_nodeStep h hNode
  | start _ _ => exact h.start
  | @rest view hCurrent hPilot =>
    exact h.stages hCurrent (fun _ => h.confirmed _ hPilot) (by simp)
  | stop hB hCurrent => exact h.stages hCurrent (by simp) (by simp)
  | @close view g n hCurrent hEnded =>
    have hNotRest : g ≠ .rest := by
      rintro rfl
      cases hEnded
    simp only [append_assoc]
    refine h.stages hCurrent (fun hg => absurd hg hNotRest) fun e he => ?_
    rcases mem_append.mp he with he | he
    · exact Or.inl (eq_of_mem_replicate he)
    · exact Or.inr (mem_singleton.mp he)

theorem inv_coreSteps (h : Inv c) (hSteps : ReflTransGen (CoreStep A O B) c c') : Inv c' := by
  induction hSteps with
  | refl => exact h
  | tail _ hStep ih => exact inv_coreStep ih hStep

/-- Without the exception of `cancel`, a terminal state is kept. -/
theorem terminal_coreStep (h : Inv c) (hStep : CoreStep False O B c c') {g : NodeUpdateState}
    (hState : c.state ref = some g) (hT : g.terminal = true) : c'.state ref = some g := by
  have hOther : ∀ {r : NodeRef} {old : NodeUpdateState}, c.state r = some old →
      old.terminal = false → ref ≠ r := by
    rintro r old hr hOpen rfl
    obtain rfl := Option.some.inj (hState.symm.trans hr)
    simp [hT] at hOpen
  cases hStep with
  | node hNode =>
    cases hNode with
    | set hr hOld hNew hDone =>
      simpa [hOther hr (by simpa using hOld)] using hState
    | launch hCurrent hr hPilot => simpa [hOther hr rfl] using hState
    | dropped _ => exact hState
    | requeue hRequests hr => simpa [hOther hr rfl] using hState
    | ota _ _ _ _ => exact hState
    | push _ => exact hState
    | tasks _ _ _ => exact hState
  | start _ _ =>
    have hView := h.known ref g hState
    dsimp only
    rwa [if_neg (Nat.ne_of_lt hView)]
  | rest _ _ => exact hState
  | stop _ _ => exact hState
  | close _ _ => exact hState

theorem terminal_coreSteps (h : Inv c) (hSteps : ReflTransGen (CoreStep False O B) c c')
    {g : NodeUpdateState} (hState : c.state ref = some g) (hT : g.terminal = true) :
    c'.state ref = some g := by
  induction hSteps with
  | refl => exact hState
  | tail hSteps hStep ih => exact terminal_coreStep (inv_coreSteps h hSteps) hStep ih hT

end steps

theorem inv_run (cfg : Config) (es : List Event) : Inv (run (step cfg) .new es).core :=
  run_invariant (fun s => Inv s.core) (fun s e h => inv_coreSteps h (coreSteps_step cfg s e))
    inv_new es

/-- A run of steps that do not cancel a rollout with an ended node held back. -/
abbrev KeepsEnded (cfg : Config) (s : Rollouts) (es : List Event) : Prop :=
  Guarded (step cfg) (fun s e => ¬ s.CancelsEnded e) s es

theorem terminal_run {cfg : Config} {s : Rollouts} (h : Inv s.core) {fs : List Event}
    (hKeeps : KeepsEnded cfg s fs) {ref : NodeRef} {g : NodeUpdateState}
    (hState : s.core.state ref = some g) (hT : g.terminal = true) :
    (run (step cfg) s fs).core.state ref = some g := by
  induction fs generalizing s with
  | nil => exact hState
  | cons e fs ih =>
    have hSteps := coreSteps_step cfg s e
    have hSteps' : ReflTransGen (CoreStep False (Rollouts.MayDispatch cfg e)
        (s.TickFindsFailedPilot cfg e)) s.core
        (step cfg s e).core := by
      rwa [eq_false hKeeps.1] at hSteps
    exact ih (inv_coreSteps h hSteps) hKeeps.2 (terminal_coreSteps h hSteps' hState hT)

/-- Pilot first: over every run, an OTA goes to a node other than the first only after the
first node of its rollout has confirmed, at most one OTA goes to a node, and none to a
rollout that has ended or was replaced. As long as no rollout is cancelled while a node of
it that has ended still waits for `beforeDispatch`, a node never leaves a terminal state. -/
theorem pilot_first (cfg : Config) (es fs : List Event) :
    Justified Allowed (run (step cfg) .new es).trace ∧
    (KeepsEnded cfg .new (es ++ fs) →
      ∀ ref n, (run (step cfg) .new es).node? ref = some n → n.state.terminal = true →
        ∃ n', (run (step cfg) .new (es ++ fs)).node? ref = some n' ∧ n'.state = n.state) := by
  have hInv := inv_run cfg es
  refine ⟨hInv.allowed, fun hKeeps ref n hn hT => ?_⟩
  have hKept := terminal_run hInv (guarded_append.mp hKeeps).2 (Rollouts.core_state hn) hT
  rw [← run_append] at hKept
  exact Option.map_eq_some_iff.mp hKept

/-- An edge with two nodes that are reached directly. -/
def exampleEnv (now : Nat) : Env where
  now := now
  image := fun _ => some ⟨[], "", 0, "tmsense-1.7"⟩
  nodes := [⟨"a", "A", none, some "10.0.0.1", some .direct, true, false⟩,
    ⟨"b", "B", none, some "10.0.0.2", some .direct, true, false⟩]
  sendImage := fun _ => true

def exampleStart : Event := .start (exampleEnv 1000) "0123456789abcdef" .all "op" false

def examplePilot (state : OtaState) : Event :=
  .onOtaStatus (exampleEnv 2000) "a" ⟨state, 100, .none, "01234567"⟩

def exampleConfig (hook : Bool) : Config where
  timings := {}
  directPort := 8080
  hook := hook

theorem pilot_first_cancelled :
    ∃ n, (run (step (exampleConfig false)) .new
      ([exampleStart, examplePilot .confirmed] ++ [.cancel (exampleEnv 3000) "op"])).node? ⟨0, 0⟩ =
        some n ∧ n.state = .confirmed := by
  have hState : ((run (step (exampleConfig false)) .new
      [exampleStart, examplePilot .confirmed]).node? ⟨0, 0⟩).map NodeUpdate.state =
        some .confirmed := by decide +kernel
  obtain ⟨n, hn, hConfirmed⟩ := Option.map_eq_some_iff.mp hState
  have hFree : (run (step (exampleConfig false)) .new
      [exampleStart, examplePilot .confirmed]).awaitingDispatch = ∅ := by decide +kernel
  have hKeeps : KeepsEnded (exampleConfig false) .new
      ([exampleStart, examplePilot .confirmed] ++ [.cancel (exampleEnv 3000) "op"]) := by
    refine guarded_append.mpr ⟨⟨id, id, trivial⟩, ?_, trivial⟩
    rintro ⟨ref, n, hRef, _⟩
    rw [hFree] at hRef
    simp at hRef
  obtain ⟨n', hn', hSame⟩ := (pilot_first (exampleConfig false) _ _).2 hKeeps ⟨0, 0⟩ n hn
    (by rw [hConfirmed]; rfl)
  exact ⟨n', hn', hSame.trans hConfirmed⟩

/-- `cancel` skips a pilot that has confirmed while its request was held back. -/
theorem confirmed_then_skipped :
    ¬ ∀ (cfg : Config) (es fs : List Event) (ref : NodeRef) (n : NodeUpdate),
      (run (step cfg) .new es).node? ref = some n → n.state.terminal = true →
        ∃ n', (run (step cfg) .new (es ++ fs)).node? ref = some n' ∧ n'.state = n.state := by
  intro h
  have hBefore : ((run (step (exampleConfig true)) .new
      [exampleStart, examplePilot .confirmed]).node? ⟨0, 0⟩).map NodeUpdate.state =
        some .confirmed := by decide +kernel
  have hAfter : ((run (step (exampleConfig true)) .new
      ([exampleStart, examplePilot .confirmed] ++
        [.cancel (exampleEnv 3000) "op"])).node? ⟨0, 0⟩).map NodeUpdate.state =
        some .skipped := by decide +kernel
  obtain ⟨n, hn, hConfirmed⟩ := Option.map_eq_some_iff.mp hBefore
  obtain ⟨n', hn', hSame⟩ := h (exampleConfig true) _ [.cancel (exampleEnv 3000) "op"] _ n hn
    (by rw [hConfirmed]; rfl)
  rw [hn', Option.map_some, hSame, hConfirmed] at hAfter
  cases hAfter

/-! ## History -/

/-- The rollouts that were finished, in order. -/
def finishes (trace : List Effect) : List Nat :=
  trace.filterMap fun
    | .finished view => some view
    | _ => none

theorem finishes_append (t l : List Effect) : finishes (t ++ l) = finishes t ++ finishes l :=
  filterMap_append

theorem finishes_eq_nil {l : List Effect} (h : ∀ e ∈ l, ∀ v, e ≠ .finished v) :
    finishes l = [] := by
  refine filterMap_eq_nil_iff.mpr fun e he => ?_
  cases e with
  | finished v => exact absurd rfl (h _ he v)
  | _ => rfl

structure Recorded (c : Core) : Prop where
  stage_known : ∀ v g, c.stage v = some g → v < c.size
  finished_known : ∀ v, c.finished v = true → v < c.size
  finished : ∀ v, c.finished v = true ↔ v ∈ finishes c.trace
  ended : ∀ v g, c.stage v = some g → (g.ended = true ↔ c.finished v = true)
  nodup : (finishes c.trace).Nodup
  past : c.past = (finishes c.trace).drop ((finishes c.trace).length - 20)

theorem recorded_new : Recorded Rollouts.new.core := by
  constructor <;> simp [Rollouts.core, Rollouts.new, Rollouts.stage?, Rollouts.finished, finishes]

/-- The last twenty, one more added. -/
theorem pushPast_drop (l : List Nat) (v : Nat) :
    pushPast (l.drop (l.length - 20)) v = (l ++ [v]).drop ((l ++ [v]).length - 20) := by
  unfold pushPast
  by_cases h : l.length < 20
  · have hZero : l.length - 20 = 0 := by omega
    have hZero' : (l ++ [v]).length - 20 = 0 := by simp; omega
    rw [hZero, hZero', drop_zero, drop_zero, if_neg (by simp; omega)]
  · have hLong : 20 < (l.drop (l.length - 20) ++ [v]).length := by simp; omega
    have hSub : (l ++ [v]).length - 20 = l.length - 20 + 1 := by simp; omega
    rw [if_pos hLong, hSub, ← drop_one, ← drop_append_of_le_length (by omega),
      drop_drop]

section recorded

variable {A O : Prop} {c c' : Core}

/-- Only `finish` adds to the history. -/
theorem Recorded.of_same (h : Recorded c) (hSame : SameRollouts c c') {l : List Effect}
    (hTrace : c'.trace = c.trace ++ l) (hl : ∀ e ∈ l, ∀ v, e ≠ .finished v) : Recorded c' := by
  have hFinishes : finishes c'.trace = finishes c.trace := by
    rw [hTrace, finishes_append, finishes_eq_nil hl, append_nil]
  constructor
  · rw [hSame.stage, hSame.size]
    exact h.stage_known
  · rw [hSame.finished, hSame.size]
    exact h.finished_known
  · rw [hSame.finished, hFinishes]
    exact h.finished
  · rw [hSame.stage, hSame.finished]
    exact h.ended
  · rw [hFinishes]
    exact h.nodup
  · rw [hFinishes, hSame.past]
    exact h.past

theorem NodeStep.trace (hStep : NodeStep A O c c') :
    ∃ l, c'.trace = c.trace ++ l ∧ ∀ e ∈ l, ∀ v, e ≠ .finished v := by
  cases hStep with
  | set hState hOld hNew hDone =>
    refine ⟨_, rfl, fun e he v hv => ?_⟩
    rcases mem_cons.mp he with rfl | he
    · cases hv
    · obtain ⟨uid, rfl⟩ := hDone e he
      cases hv
  | dropped _ => exact ⟨[], by simp, by simp⟩
  | tasks _ _ _ => exact ⟨[], by simp, by simp⟩
  | _ => exact ⟨_, rfl, by simp⟩

theorem Recorded.open_not_finished (h : Recorded c) {v : Nat} (hCurrent : c.Current v) :
    c.finished v = false := by
  obtain ⟨_, g, hg, hOpen⟩ := hCurrent
  have hEnded := h.ended v g hg
  simpa [hOpen] using hEnded

theorem Recorded.start (h : Recorded c) {state : NodeRef → Option NodeUpdateState}
    {name : NodeRef → Option (String × String)} :
    Recorded { c with
      name := name
      state := state
      stage := Function.update c.stage c.size (some .pilot)
      size := c.size + 1
      active := some c.size
      trace := c.trace ++ [.started c.size] } := by
  have hFinishes : finishes (c.trace ++ [.started c.size]) = finishes c.trace := by
    simp [finishes]
  constructor
  · intro v g hg
    by_cases hv : v = c.size
    · exact hv ▸ Nat.lt_succ_self _
    · exact Nat.lt_succ_of_lt (h.stage_known v g (by simpa [hv] using hg))
  · exact fun v hv => Nat.lt_succ_of_lt (h.finished_known v hv)
  · rw [hFinishes]
    exact h.finished
  · intro v g hg
    by_cases hv : v = c.size
    · subst hv
      obtain rfl : .pilot = g := by simpa using hg
      have hFresh : c.finished c.size ≠ true := fun hDone =>
        Nat.lt_irrefl _ (h.finished_known _ hDone)
      simp [Stage.ended, hFresh]
    · exact h.ended v g (by simpa [hv] using hg)
  · rw [hFinishes]
    exact h.nodup
  · rw [hFinishes]
    exact h.past

theorem Recorded.rest (h : Recorded c) {view : Nat} (hCurrent : c.Current view) :
    Recorded { c with
      stage := Function.update c.stage view (some .rest)
      trace := c.trace ++ [.staged view .rest] } := by
  have hFinishes : finishes (c.trace ++ [.staged view .rest]) = finishes c.trace := by
    simp [finishes]
  have hOpen := h.open_not_finished hCurrent
  obtain ⟨_, g₀, hg₀, _⟩ := hCurrent
  constructor
  · intro v g hg
    by_cases hv : v = view
    · exact hv ▸ h.stage_known view g₀ hg₀
    · exact h.stage_known v g (by simpa [hv] using hg)
  · exact h.finished_known
  · rw [hFinishes]
    exact h.finished
  · intro v g hg
    by_cases hv : v = view
    · subst hv
      obtain rfl : .rest = g := by simpa using hg
      simp [Stage.ended, hOpen]
    · exact h.ended v g (by simpa [hv] using hg)
  · rw [hFinishes]
    exact h.nodup
  · rw [hFinishes]
    exact h.past

theorem Recorded.close (h : Recorded c) {view n : Nat} {g₁ : Stage} (hCurrent : c.Current view)
    (hEnded : g₁.ended = true) :
    Recorded { c with
      stage := Function.update c.stage view (some g₁)
      finished := Function.update c.finished view true
      past := pushPast c.past view
      trace := c.trace ++ List.replicate (n + 1) (.staged view g₁) ++ [.finished view] } := by
  have hFinishes : finishes (c.trace ++ List.replicate (n + 1) (.staged view g₁) ++
      [.finished view]) = finishes c.trace ++ [view] := by
    have hNone : finishes (List.replicate (n + 1) (.staged view g₁)) = [] := by
      refine finishes_eq_nil fun e he v hv => ?_
      rw [eq_of_mem_replicate he] at hv
      cases hv
    rw [finishes_append, finishes_append, hNone, append_nil]
    rfl
  have hOpen := h.open_not_finished hCurrent
  have hNew : view ∉ finishes c.trace := by
    rw [← h.finished]
    simp [hOpen]
  obtain ⟨_, g₀, hg₀, _⟩ := hCurrent
  have hKnown := h.stage_known view g₀ hg₀
  constructor
  · intro v g hg
    by_cases hv : v = view
    · exact hv ▸ hKnown
    · exact h.stage_known v g (by simpa [hv] using hg)
  · intro v hFinished
    by_cases hv : v = view
    · exact hv ▸ hKnown
    · exact h.finished_known v (by simpa [hv] using hFinished)
  · intro v
    rw [hFinishes, mem_append, mem_singleton]
    by_cases hv : v = view
    · simp [hv]
    · simpa [hv] using h.finished v
  · intro v g hg
    by_cases hv : v = view
    · subst hv
      obtain rfl : g₁ = g := by simpa using hg
      simp [hEnded]
    · simpa [hv] using h.ended v g (by simpa [hv] using hg)
  · rw [hFinishes]
    exact nodup_append'.mpr ⟨h.nodup, nodup_singleton _, by simpa using hNew⟩
  · rw [hFinishes, ← pushPast_drop, ← h.past]

theorem recorded_coreStep (h : Recorded c) (hStep : CoreStep A O False c c') : Recorded c' := by
  cases hStep with
  | node hNode =>
    obtain ⟨l, hTrace, hl⟩ := hNode.trace
    exact h.of_same hNode.same hTrace hl
  | start _ _ => exact h.start
  | rest hCurrent hPilot => exact h.rest hCurrent
  | stop hB hCurrent => exact hB.elim
  | close hCurrent hEnded => exact h.close hCurrent hEnded

theorem recorded_coreSteps (h : Recorded c) (hSteps : ReflTransGen (CoreStep A O False) c c') :
    Recorded c' := by
  induction hSteps with
  | refl => exact h
  | tail _ hStep ih => exact recorded_coreStep ih hStep

end recorded

/-- A run in which `tick` never finds the pilot failed or overdue. -/
abbrev PilotHolds (cfg : Config) (s : Rollouts) (es : List Event) : Prop :=
  Guarded (step cfg) (fun s e => ¬ s.TickFindsFailedPilot cfg e) s es

theorem recorded_run {cfg : Config} {es : List Event} (h : PilotHolds cfg .new es) :
    Recorded (run (step cfg) .new es).core := by
  refine run_invariant_guarded (fun s => Recorded s.core) (fun s e hRecorded hHolds => ?_)
    recorded_new h
  have hSteps := coreSteps_step cfg s e
  rw [eq_false hHolds] at hSteps
  exact recorded_coreSteps hRecorded hSteps

/-- No rollout is lost from the history: as long as `tick` does not find the pilot of a
rollout in its first stage failed or overdue, every rollout that is done or stopped has
`finishedAt` set and was added to the history exactly once, and `history()` shows it until
twenty later ones have finished. -/
theorem ended_in_history (cfg : Config) (es : List Event) (hHolds : PilotHolds cfg .new es)
    (view : Nat) (r : RolloutView) (hView : (run (step cfg) .new es).views[view]? = some r)
    (hEnded : r.stage.ended = true) :
    r.finishedAt ≠ none ∧
    (finishes (run (step cfg) .new es).trace).count view = 1 ∧
    ∀ pre post, finishes (run (step cfg) .new es).trace = pre ++ view :: post →
      post.length < 20 → r ∈ (run (step cfg) .new es).history := by
  have hRecorded := recorded_run hHolds
  generalize run (step cfg) .new es = s at *
  have hStage : s.core.stage view = some r.stage := by simp [Rollouts.core, Rollouts.stage?, hView]
  have hFinished := (hRecorded.ended view r.stage hStage).mp hEnded
  have hMem := (hRecorded.finished view).mp hFinished
  refine ⟨?_, ?_, ?_⟩
  · intro hNone
    simp [Rollouts.core, Rollouts.finished, hView, hNone] at hFinished
  · exact List.count_eq_one_of_mem hRecorded.nodup hMem
  · intro pre post hSplit hLater
    have hPast : view ∈ s.past := by
      have hDrop : s.past = (finishes s.trace).drop ((finishes s.trace).length - 20) :=
        hRecorded.past
      rw [hDrop, hSplit, List.drop_append_of_le_length (by simp; omega)]
      simp
    exact List.mem_filterMap.mpr ⟨view, List.mem_reverse.mpr hPast, hView⟩

theorem ended_in_history_cancelled :
    ∃ r, (run (step (exampleConfig false)) .new
        [exampleStart, .cancel (exampleEnv 3000) "op"]).views[0]? = some r ∧
      r.finishedAt ≠ none ∧
      r ∈ (run (step (exampleConfig false)) .new
        [exampleStart, .cancel (exampleEnv 3000) "op"]).history := by
  have hStage : ((run (step (exampleConfig false)) .new
      [exampleStart, .cancel (exampleEnv 3000) "op"]).stage? 0) = some .stopped := by
    decide +kernel
  have hFinishes : finishes (run (step (exampleConfig false)) .new
      [exampleStart, .cancel (exampleEnv 3000) "op"]).trace = [0] := by decide +kernel
  obtain ⟨r, hr, hStopped⟩ := Option.map_eq_some_iff.mp hStage
  obtain ⟨hFinished, _, hHistory⟩ := ended_in_history (exampleConfig false)
    [exampleStart, .cancel (exampleEnv 3000) "op"] ⟨id, id, trivial⟩ 0 r hr
    (by rw [hStopped]; rfl)
  exact ⟨r, hr, hFinished, hHistory [] [] hFinishes (by simp)⟩

/-- A rollout whose pilot fails is stopped, and neither finished nor kept. -/
theorem failed_pilot_not_recorded :
    ¬ ∀ (cfg : Config) (es : List Event) (view : Nat) (r : RolloutView),
      (run (step cfg) .new es).views[view]? = some r → r.stage.ended = true →
        r.finishedAt ≠ none ∧ (finishes (run (step cfg) .new es).trace).count view = 1 := by
  intro h
  have hStage : ((run (step (exampleConfig false)) .new
      [exampleStart, examplePilot .failed]).stage? 0) = some .stopped := by decide +kernel
  have hFinishes : finishes (run (step (exampleConfig false)) .new
      [exampleStart, examplePilot .failed]).trace = [] := by decide +kernel
  obtain ⟨r, hr, hStopped⟩ := Option.map_eq_some_iff.mp hStage
  have hCount := (h (exampleConfig false) _ 0 r hr (by rw [hStopped]; rfl)).2
  rw [hFinishes] at hCount
  simp at hCount

end TMEdge.Rollout
