import TMEdge.Library.Run
import TMEdge.Rollout.Model

/-!
# What an event does to the rollouts

`Event` and `step` make a machine of `Rollouts`: the calls of its methods and the
settlements of the promises it awaits, in any order. `Core` keeps the node states, the
stages, the requests held back by `beforeDispatch` and the trace; `NodeStep` and `CoreStep`
say once everything that can happen to them. `coreSteps_step` connects the two.

Two steps are possible only under a condition that is a parameter: `A`, a node leaves a
terminal state, and `B`, a rollout is stopped without being finished.
-/

namespace TMEdge.Rollout

open Library Protocol Relation List Function

/-! ## Events -/

inductive Event
  | start (env : Env) (buildId : String) (target : RolloutTarget) (startedBy : String)
      (deferDispatch : Bool)
  | tick (env : Env)
  | onImageReady (env : Env) (gatewayId : String) (result : Rollouts.ImageResult)
  | onOtaStatus (env : Env) (uid : String) (status : OtaStatus)
  | cancel (env : Env) (cancelledBy : String)
  | resumeHook (env : Env) (task : Nat) (ok : Bool)
  | otaSettled (env : Env) (task : Nat) (error : Option String)
  | unlaunch (task : Nat)

def step (cfg : Config) (s : Rollouts) : Event → Rollouts
  | .start env buildId target startedBy deferDispatch =>
    (s.start cfg env buildId target startedBy deferDispatch).1
  | .tick env => s.tick cfg env
  | .onImageReady env gatewayId result => s.onImageReady cfg env gatewayId result
  | .onOtaStatus env uid status => s.onOtaStatus cfg env uid status
  | .cancel env cancelledBy => s.cancel env cancelledBy
  | .resumeHook env task ok => s.resumeHook cfg env task ok
  | .otaSettled env task error => s.otaSettled cfg env task error
  | .unlaunch task => s.unlaunch task

/-! ## The core -/

structure Core where
  state : NodeRef → Option NodeUpdateState
  /-- The id of the rollout and the uid of the node; they never change. -/
  name : NodeRef → Option (String × String)
  stage : Nat → Option Stage
  finished : Nat → Bool
  size : Nat
  active : Option Nat
  past : List Nat
  /-- The nodes of the calls of `request` that wait for `beforeDispatch`. -/
  requests : List NodeRef
  task? : Nat → Option Task
  nextTask : Nat
  trace : List Effect

def Task.requested (t : Task) : Option NodeRef :=
  match t.stage with
  | .request _ _ => some t.ref
  | _ => none

namespace Rollouts

def name? (s : Rollouts) (ref : NodeRef) : Option (String × String) :=
  s.views[ref.view]?.bind fun v => v.nodes[ref.node]?.map fun n => (v.id, n.uid)

def finished (s : Rollouts) (view : Nat) : Bool :=
  (s.views[view]?.bind RolloutView.finishedAt).isSome

def core (s : Rollouts) : Core where
  state := fun ref => (s.node? ref).map NodeUpdate.state
  name := s.name?
  stage := s.stage?
  finished := s.finished
  size := s.views.length
  active := s.active
  past := s.past
  requests := s.tasks.filterMap Task.requested
  task? := s.task?
  nextTask := s.nextTask
  trace := s.trace

end Rollouts

/-- The rollout is the active one and has not ended. -/
def Core.Current (c : Core) (view : Nat) : Prop :=
  c.active = some view ∧ ∃ g, c.stage view = some g ∧ g.ended = false

/-- The node whose request the call with this id holds back. -/
def Core.request? (c : Core) (id : Nat) : Option NodeRef := (c.task? id).bind Task.requested

/-- The history keeps twenty rollouts. -/
def pushPast (past : List Nat) (view : Nat) : List Nat :=
  if 20 < (past ++ [view]).length then (past ++ [view]).tail else past ++ [view]

inductive NodeStep (A O : Prop) : Core → Core → Prop
  | set {c : Core} {ref : NodeRef} {old new : NodeUpdateState} {done : List Effect}
      (hState : c.state ref = some old) (hOld : old.terminal = true → A)
      (hNew : new ≠ .queued ∧ new ≠ .sending) (hDone : ∀ e ∈ done, ∃ uid, e = .nodeDone uid) :
      NodeStep A O c { c with
        state := Function.update c.state ref (some new)
        trace := c.trace ++ .set ref new :: done }
  | launch {c : Core} {ref : NodeRef} (hCurrent : c.Current ref.view)
      (hState : c.state ref = some .queued)
      (hPilot : ref.node = 0 ∨ c.stage ref.view = some .rest) :
      NodeStep A O c { c with
        state := Function.update c.state ref (some .sending)
        requests := c.requests ++ [ref]
        trace := c.trace ++ [.set ref .sending] }
  | dropped {c : Core} {requests : List NodeRef} (hRequests : requests.Subperm c.requests) :
      NodeStep A O c { c with requests := requests }
  | requeue {c : Core} {ref : NodeRef} {requests : List NodeRef}
      (hRequests : (ref :: requests).Subperm c.requests) (hState : c.state ref = some .sending) :
      NodeStep A O c { c with
        state := Function.update c.state ref (some .queued)
        requests := requests
        trace := c.trace ++ [.requeued ref] }
  | ota {c : Core} {ref : NodeRef} {requests : List NodeRef} {uid : String} {image : OtaImage}
      (hO : O) (hRequests : (ref :: requests).Subperm c.requests) (hCurrent : c.Current ref.view)
      (hState : c.state ref = some .sending) :
      NodeStep A O c { c with
        requests := requests
        trace := c.trace ++ [.ota ref uid image] }
  | push {c : Core} {ref : NodeRef} {gatewayId : String} (hCurrent : c.Current ref.view) :
      NodeStep A O c { c with trace := c.trace ++ [.pushed ref gatewayId] }

  | tasks {c : Core} {task? : Nat → Option Task} {nextTask : Nat} (hNext : c.nextTask ≤ nextTask)
      (hOld : ∀ id, id < c.nextTask → ∀ ref, (task? id).bind Task.requested = some ref →
        c.request? id = some ref)
      (hFresh : ∀ id, nextTask ≤ id → c.task? id = none → task? id = none) :
      NodeStep A O c { c with
        task? := task?
        nextTask := nextTask }

inductive CoreStep (A O B : Prop) : Core → Core → Prop
  | node {c c' : Core} (h : NodeStep A O c c') : CoreStep A O B c c'
  | start {c : Core} {n : Nat} {name : NodeRef → Option (String × String)}
      (hName : ∀ ref, ref.view ≠ c.size → name ref = c.name ref)
      (hActive : ∀ v, c.active = some v → ∀ g, c.stage v = some g → g.ended = true) :
      CoreStep A O B c { c with
        name := name
        state := fun ref =>
          if ref.view = c.size then (if ref.node < n then some .queued else none)
          else c.state ref
        stage := Function.update c.stage c.size (some .pilot)
        size := c.size + 1
        active := some c.size
        trace := c.trace ++ [.started c.size] }
  | rest {c : Core} {view : Nat} (hCurrent : c.Current view)
      (hPilot : c.state ⟨view, 0⟩ = some .confirmed) :
      CoreStep A O B c { c with
        stage := Function.update c.stage view (some .rest)
        trace := c.trace ++ [.staged view .rest] }
  | stop {c : Core} {view : Nat} (hB : B) (hCurrent : c.Current view) :
      CoreStep A O B c { c with
        stage := Function.update c.stage view (some .stopped)
        trace := c.trace ++ [.staged view .stopped] }
  | close {c : Core} {view : Nat} {g : Stage} {n : Nat} (hCurrent : c.Current view)
      (hEnded : g.ended = true) :
      CoreStep A O B c { c with
        stage := Function.update c.stage view (some g)
        finished := Function.update c.finished view true
        past := pushPast c.past view
        trace := c.trace ++ List.replicate (n + 1) (.staged view g) ++ [.finished view] }

/-! ## Frames of the node steps -/

section frame

variable {A O : Prop} {c c' : Core}

/-- A node step leaves the rollouts themselves alone. -/
structure SameRollouts (c c' : Core) : Prop where
  name : c'.name = c.name
  stage : c'.stage = c.stage
  finished : c'.finished = c.finished
  size : c'.size = c.size
  active : c'.active = c.active
  past : c'.past = c.past

theorem NodeStep.same (h : NodeStep A O c c') : SameRollouts c c' := by
  cases h <;> constructor <;> rfl

theorem sameRollouts_of_steps (h : ReflTransGen (NodeStep A O) c c') : SameRollouts c c' := by
  induction h with
  | refl => constructor <;> rfl
  | tail _ hStep ih =>
    have hSame := hStep.same
    constructor
    · rw [hSame.name, ih.name]
    · rw [hSame.stage, ih.stage]
    · rw [hSame.finished, ih.finished]
    · rw [hSame.size, ih.size]
    · rw [hSame.active, ih.active]
    · rw [hSame.past, ih.past]

theorem SameRollouts.current (h : SameRollouts c c') {view : Nat} (hCurrent : c.Current view) :
    c'.Current view := by
  rw [Core.Current, h.active, h.stage]
  exact hCurrent

theorem coreSteps_of_nodeSteps {B : Prop} (h : ReflTransGen (NodeStep A O) c c') :
    ReflTransGen (CoreStep A O B) c c' :=
  ReflTransGen.mono (fun _ _ => .node) _ _ h

end frame

/-! ## The core of an updated state -/

namespace Rollouts

variable {s : Rollouts} {ref : NodeRef} {n : NodeUpdate}

theorem node?_updateNode (f : NodeUpdate → NodeUpdate) (r : NodeRef) :
    (s.updateNode ref f).node? r = if r = ref then (s.node? r).map f else s.node? r := by
  obtain ⟨v, i⟩ := ref
  obtain ⟨v', i'⟩ := r
  simp only [node?, updateNode, getElem?_modify, NodeRef.mk.injEq]
  by_cases hv : v = v'
  · subst hv
    by_cases hi : i = i'
    · subst hi
      cases s.views[v]? <;> simp
    · cases s.views[v]? <;> simp [hi, Ne.symm hi]
  · simp [hv, Ne.symm hv]

theorem core_updateNode (f : NodeUpdate → NodeUpdate) (hf : ∀ n, (f n).uid = n.uid) :
    (s.updateNode ref f).core =
      { s.core with
        state := Function.update s.core.state ref ((s.node? ref).map fun n => (f n).state) } := by
  have hState : (s.updateNode ref f).core.state =
      Function.update s.core.state ref ((s.node? ref).map fun n => (f n).state) := by
    funext r
    simp only [core, node?_updateNode, update_apply]
    by_cases hr : r = ref
    · subst hr
      simp [comp_def]
    · simp [hr]
  have hName : (s.updateNode ref f).core.name = s.core.name := by
    funext r
    simp only [core, name?, updateNode, getElem?_modify]
    by_cases hv : ref.view = r.view <;> cases s.views[r.view]? <;>
      simp only [hv, if_true, if_false, Option.map_eq_map, Option.map_some, Option.map_none,
        Option.bind_some, Option.bind_none, getElem?_modify]
    · rename_i v
      by_cases hi : ref.node = r.node <;> cases v.nodes[r.node]? <;> simp [hi, hf]
  have hStage : (s.updateNode ref f).core.stage = s.core.stage := by
    funext v
    simp only [core, stage?, updateNode, getElem?_modify]
    by_cases hv : ref.view = v <;> cases s.views[v]? <;> simp [hv]
  have hFinished : (s.updateNode ref f).core.finished = s.core.finished := by
    funext v
    simp only [core, Rollouts.finished, updateNode, getElem?_modify]
    by_cases hv : ref.view = v <;> cases s.views[v]? <;> simp [hv]
  have hSize : (s.updateNode ref f).core.size = s.core.size := by
    simp [core, updateNode]
  rw [Core.mk.injEq]
  exact ⟨hState, hName, hStage, hFinished, hSize, rfl, rfl, rfl, rfl, rfl, rfl⟩

/-- A change that keeps the node's state does not show. -/
theorem core_updateNode_same (f : NodeUpdate → NodeUpdate) (hf : ∀ n, (f n).state = n.state)
    (hUid : ∀ n, (f n).uid = n.uid) : (s.updateNode ref f).core = s.core := by
  have hSame : Function.update s.core.state ref ((s.node? ref).map fun n => (f n).state) =
      s.core.state := by
    simp only [hf]
    exact update_eq_self ref s.core.state
  rw [core_updateNode f hUid, hSame]

theorem core_setStage (view : Nat) (g : Stage) (note : String) (h : s.stage? view ≠ none) :
    (s.setStage view g note).core =
      { s.core with
        stage := Function.update s.core.stage view (some g)
        trace := s.core.trace ++ [.staged view g] } := by
  have hState : (s.setStage view g note).core.state = s.core.state := by
    funext r
    simp only [core, node?, setStage, getElem?_modify]
    by_cases hv : view = r.view <;> cases s.views[r.view]? <;> simp [hv]
  have hName : (s.setStage view g note).core.name = s.core.name := by
    funext r
    simp only [core, name?, setStage, getElem?_modify]
    by_cases hv : view = r.view <;> cases s.views[r.view]? <;> simp [hv]
  have hStage : (s.setStage view g note).core.stage =
      Function.update s.core.stage view (some g) := by
    funext v
    simp only [core, stage?, setStage, getElem?_modify, update_apply]
    by_cases hv : v = view
    · subst hv
      obtain ⟨r, hr⟩ : ∃ r, s.views[v]? = some r := by
        cases hr : s.views[v]? with
        | none => simp [stage?, hr] at h
        | some r => exact ⟨r, rfl⟩
      simp [hr]
    · simp [hv, Ne.symm hv]
  have hFinished : (s.setStage view g note).core.finished = s.core.finished := by
    funext v
    simp only [core, Rollouts.finished, setStage, getElem?_modify]
    by_cases hv : view = v <;> cases s.views[v]? <;> simp [hv]
  have hSize : (s.setStage view g note).core.size = s.core.size := by
    simp [core, setStage]
  rw [Core.mk.injEq]
  exact ⟨hState, hName, hStage, hFinished, hSize, rfl, rfl, rfl, rfl, rfl, rfl⟩

theorem core_finish {env : Env} {view : Nat} (hActive : s.active = some view)
    (h : s.stage? view ≠ none) :
    (s.finish env).core =
      { s.core with
        finished := Function.update s.core.finished view true
        past := pushPast s.core.past view
        trace := s.core.trace ++ [.finished view] } := by
  have hState : (s.finish env).core.state = s.core.state := by
    funext r
    simp only [core, node?, finish, hActive, getElem?_modify]
    by_cases hv : view = r.view <;> cases s.views[r.view]? <;> simp [hv]
  have hName : (s.finish env).core.name = s.core.name := by
    funext r
    simp only [core, name?, finish, hActive, getElem?_modify]
    by_cases hv : view = r.view <;> cases s.views[r.view]? <;> simp [hv]
  have hStage : (s.finish env).core.stage = s.core.stage := by
    funext v
    simp only [core, stage?, finish, hActive, getElem?_modify]
    by_cases hv : view = v <;> cases s.views[v]? <;> simp [hv]
  have hFinished : (s.finish env).core.finished =
      Function.update s.core.finished view true := by
    funext v
    simp only [core, Rollouts.finished, finish, hActive, getElem?_modify,
      update_apply]
    by_cases hv : v = view
    · subst hv
      obtain ⟨r, hr⟩ : ∃ r, s.views[v]? = some r := by
        cases hr : s.views[v]? with
        | none => simp [stage?, hr] at h
        | some r => exact ⟨r, rfl⟩
      simp [hr]
    · simp [hv, Ne.symm hv]
  rw [Core.mk.injEq]
  refine ⟨hState, hName, hStage, hFinished, ?_⟩
  simp only [core, finish, hActive, pushPast, length_modify, true_and, and_true]
  rfl

theorem core_trace (trace : List Effect) :
    { s with trace := trace }.core = { s.core with trace := trace } := rfl

/-- What `set` tells `onNodeDone`. -/
def doneEffects (state : NodeUpdateState) (uid : String) : List Effect :=
  if state = .sending ∨ state = .downloading then [] else [.nodeDone uid]

theorem core_set (state : NodeUpdateState) (now : Nat) (error : Option String)
    (percent : Option Nat) (h : s.node? ref = some n) :
    (s.set ref state now error percent).core =
      { s.core with
        state := Function.update s.core.state ref (some state)
        trace := s.core.trace ++ .set ref state :: doneEffects state n.uid } := by
  rw [set, core_trace, core_updateNode _ (by exact fun _ => rfl)]
  simp only [node?_updateNode, h, doneEffects]
  simp [core, updateNode]

/-! ## Nodes -/

section nodes

variable {A O : Prop} {cfg : Config} {env : Env} {state : NodeUpdateState} {image : Image}
  {port : Nat}

/-- `s` becomes `t` by steps on nodes only. -/
abbrev NodeSteps (A O : Prop) (s t : Rollouts) : Prop := ReflTransGen (NodeStep A O) s.core t.core

theorem isCurrentNode_iff :
    s.isCurrentNode ref = true ↔ s.core.Current ref.view ∧ ∃ n, s.node? ref = some n := by
  simp only [isCurrentNode, Core.Current, core, Bool.and_eq_true, decide_eq_true_eq, Option.any_eq_true,
    Bool.not_eq_true', Option.isSome_iff_exists, and_assoc]

theorem canDispatch_iff :
    s.canDispatch ref state = true ↔
      s.core.Current ref.view ∧ ∃ n, s.node? ref = some n ∧ n.state = state := by
  simp only [canDispatch, Bool.and_eq_true, isCurrentNode_iff, Option.any_eq_true,
    decide_eq_true_eq]
  constructor
  · rintro ⟨⟨hCurrent, _⟩, n, hn, hState⟩
    exact ⟨hCurrent, n, hn, hState⟩
  · rintro ⟨hCurrent, n, hn, hState⟩
    exact ⟨⟨hCurrent, n, hn⟩, n, hn, hState⟩

theorem core_state (h : s.node? ref = some n) : s.core.state ref = some n.state := by
  simp [core, h]

theorem mem_doneEffects {uid : String} {e : Effect} (he : e ∈ doneEffects state uid) :
    ∃ u, e = .nodeDone u := by
  unfold doneEffects at he
  split at he
  · simp at he
  · exact ⟨uid, by simpa using he⟩

theorem nodeSteps_set {now : Nat} {error : Option String} {percent : Option Nat}
    (h : s.node? ref = some n) (hOld : n.state.terminal = true → A)
    (hNew : state ≠ .queued ∧ state ≠ .sending) :
    NodeSteps A O s (s.set ref state now error percent) := by
  rw [NodeSteps, core_set state now error percent h]
  exact .single (.set (core_state h) hOld hNew fun _ => mem_doneEffects)

theorem nodeSteps_fail {now : Nat} {error : Option String} {percent : Option Nat}
    (h : s.canDispatch ref .queued = true) :
    NodeSteps A O s (s.set ref .failed now error percent) := by
  obtain ⟨_, n, hn, hState⟩ := canDispatch_iff.mp h
  refine nodeSteps_set hn (fun hT => ?_) (by simp)
  simp [hState, NodeUpdateState.terminal] at hT

/-- Where a call of `beginOnce` is suspended, it holds back a request or it does not. -/
def heldBack (ref : NodeRef) : Option TaskStage → List NodeRef
  | some (.request _ _) => [ref]
  | _ => []

theorem task?_addTask {stage : TaskStage} {id : Nat} (h : id ≠ s.nextTask) :
    (s.addTask cfg ref (some stage)).task? id = s.task? id := by
  simp [addTask, task?, find?_append, Ne.symm h]

theorem nodeSteps_addTask (cfg : Config) (stage : Option TaskStage) :
    ReflTransGen (NodeStep A O)
      { s.core with requests := s.core.requests ++ heldBack ref stage }
      (s.addTask cfg ref stage).core := by
  have hTask : ∀ stage : TaskStage, ReflTransGen (NodeStep A O)
      { s.core with requests := s.core.requests ++ heldBack ref (some stage) }
      (s.addTask cfg ref (some stage)).core := by
    intro stage
    have hRequests : s.core.requests ++ heldBack ref (some stage) =
        (s.tasks ++ [(⟨s.nextTask, ref, stage⟩ : Task)]).filterMap Task.requested := by
      rw [filterMap_append]
      cases stage <;> rfl
    rw [hRequests]
    refine .single (.tasks (c := { s.core with requests := _ }) (Nat.le_succ _) ?_ ?_)
    · intro id hId r hr
      have hNe : id ≠ s.nextTask := Nat.ne_of_lt hId
      change ((s.addTask cfg ref (some stage)).task? id).bind _ = _ at hr
      rwa [task?_addTask hNe] at hr
    · intro id hId hNone
      have hNe : id ≠ s.nextTask := Nat.ne_of_gt hId
      change (s.addTask cfg ref (some stage)).task? id = none
      rwa [task?_addTask hNe]
  cases stage with
  | some stage => exact hTask stage
  | none =>
    rw [show heldBack ref none = [] from rfl, append_nil]
    by_cases hHook : cfg.hook = true
    · have h := hTask .unlaunch
      rw [show heldBack ref (some .unlaunch) = [] from rfl, append_nil] at h
      rwa [addTask, if_pos hHook]
    · rw [addTask, if_neg hHook]

theorem nodeSteps_addTask_free {stage : Option TaskStage} (h : heldBack ref stage = []) :
    NodeSteps A O s (s.addTask cfg ref stage) := by
  have hAdd : ReflTransGen (NodeStep A O)
      { s.core with requests := s.core.requests ++ heldBack ref stage }
      (s.addTask cfg ref stage).core := nodeSteps_addTask cfg stage
  rwa [h, append_nil] at hAdd

/-- A request that was held back is sent or dropped. -/
theorem nodeSteps_dispatch (hO : O) (image : Image) (port : Nat) {held requests : List NodeRef}
    (hRequests : (ref :: requests).Subperm held) :
    ReflTransGen (NodeStep A O) { s.core with requests := held }
      { (s.dispatch ref image port).1.core with requests := requests } := by
  unfold dispatch
  split
  · rename_i hCan
    obtain ⟨hCurrent, n, hn, hState⟩ := canDispatch_iff.mp hCan
    exact .single (.ota (c := { s.core with requests := held }) hO hRequests hCurrent
      (by rw [← hState]; exact core_state hn))
  · have hTail := (sublist_cons_self ref requests).subperm.trans hRequests
    exact .single (.dropped (c := { s.core with requests := held }) hTail)

theorem heldBack_dispatch : heldBack ref (s.dispatch ref image port).2 = [] := by
  unfold dispatch
  split <;> rfl

theorem requests_dispatch : (s.dispatch ref image port).1.core.requests = s.core.requests := by
  unfold dispatch
  split <;> rfl

theorem nodeSteps_request (hO : cfg.hook = false → O)
    (hPilot : ref.node = 0 ∨ s.stage? ref.view = some .rest) :
    NodeSteps A O s (addTask cfg (s.request cfg env ref image port).1 ref
      (s.request cfg env ref image port).2) := by
  refine ReflTransGen.trans ?_ (nodeSteps_addTask cfg _)
  unfold request
  split
  · rename_i hCan
    obtain ⟨hCurrent, n, hn, hState⟩ := canDispatch_iff.mp hCan
    have hQueued : s.core.state ref = some .queued := by rw [core_state hn, hState]
    dsimp only
    generalize hSent : ((s.set ref .sending env.now none none).updateNode ref fun n =>
        { n with startedAt := some env.now }) = t
    have hCore : t.core =
        { s.core with
          state := Function.update s.core.state ref (some .sending)
          trace := s.core.trace ++ [.set ref .sending] } := by
      rw [← hSent, core_updateNode_same, core_set _ _ _ _ hn]
      · simp [doneEffects]
      · exact fun _ => rfl
      · exact fun _ => rfl
    have hLaunch : NodeStep A O s.core { t.core with requests := t.core.requests ++ [ref] } := by
      rw [hCore]
      exact .launch hCurrent hQueued hPilot
    split
    · exact .single hLaunch
    · rename_i hHook
      refine .head hLaunch ?_
      rw [heldBack_dispatch, append_nil, requests_dispatch]
      exact nodeSteps_dispatch (hO (by simpa using hHook)) _ _
        (perm_append_singleton ref t.core.requests).symm.subperm
  · rw [show heldBack ref (s, (none : Option TaskStage)).2 = [] from rfl, append_nil]

theorem nodeSteps_pushImage {gatewayId : String} :
    NodeSteps A O s (s.pushImage env ref gatewayId) := by
  unfold pushImage
  split
  · rename_i hCan
    have hPush : NodeSteps A O s { s with trace := s.trace ++ [.pushed ref gatewayId] } :=
      .single (.push (canDispatch_iff.mp hCan).1)
    dsimp only
    split
    · exact hPush
    · exact hPush.trans (nodeSteps_fail hCan)
  · exact .refl

variable (cfg env) in
theorem nodeSteps_beginOnce (hO : cfg.hook = false → O) (hCan : s.canDispatch ref .queued = true)
    (hPilot : ref.node = 0 ∨ s.stage? ref.view = some .rest) :
    NodeSteps A O s (addTask cfg (beginOnce cfg env s ref).1 ref (beginOnce cfg env s ref).2) := by
  have hFail : ∀ (now : Nat) (error : Option String), NodeSteps A O s
      (addTask cfg (s.set ref .failed now error none) ref none) := by
    intro now error
    exact (nodeSteps_fail hCan).trans (nodeSteps_addTask_free rfl)
  have hIdle : NodeSteps A O s (addTask cfg s ref none) := nodeSteps_addTask_free rfl
  unfold beginOnce
  split
  · split
    · exact hFail _ _
    · split
      · exact nodeSteps_request hO hPilot
      · split
        · exact nodeSteps_request hO hPilot
        · split
          · exact nodeSteps_request hO hPilot
          · split
            · dsimp only
              split
              · refine ReflTransGen.trans ?_ (nodeSteps_addTask_free rfl)
                exact .refl
              · refine ReflTransGen.trans (ReflTransGen.trans ?_ nodeSteps_pushImage)
                  (nodeSteps_addTask_free rfl)
                exact .refl
            · split
              · exact hFail _ _
              · exact hIdle
  · exact hIdle

theorem nodeSteps_begin (hO : cfg.hook = false → O) (hPilot : ref.node = 0 ∨ s.stage? ref.view = some .rest) :
    NodeSteps A O s (s.begin cfg env ref) := by
  unfold begin
  split
  · exact .refl
  · rename_i hCan
    have hQueued : s.canDispatch ref .queued = true := by
      simp only [Bool.or_eq_true, Bool.not_eq_true', not_or, Bool.not_eq_false] at hCan
      exact hCan.1
    have h := nodeSteps_beginOnce (A := A) (O := O) cfg env
      (s := { s with launching := insert ref s.launching }) hO hQueued hPilot
    dsimp only
    split
    · exact h
    · exact h

end nodes

/-! ## `tick` -/

section tick

variable {A O B : Prop} {cfg : Config} {env : Env} {view : Nat}

/-- Node steps over a list of nodes, with what they need of the state. -/
theorem nodeSteps_foldl {σ : Type} (proj : σ → Rollouts) (I : σ → Prop) {f : σ → NodeRef → σ}
    {l : List NodeRef}
    (hf : ∀ x, I x → ∀ ref ∈ l, NodeSteps A O (proj x) (proj (f x ref)) ∧ I (f x ref))
    {x : σ} (hx : I x) : NodeSteps A O (proj x) (proj (l.foldl f x)) ∧ I (l.foldl f x) := by
  induction l generalizing x with
  | nil => exact ⟨.refl, hx⟩
  | cons ref l ih =>
    obtain ⟨hHead, hI⟩ := hf x hx ref (by simp)
    obtain ⟨hTail, hEnd⟩ := ih (fun x hx ref h => hf x hx ref (mem_cons_of_mem _ h)) hI
    exact ⟨hHead.trans hTail, hEnd⟩

theorem nodeSteps_timeOutNode : NodeSteps A O s (timeOutNode cfg env s ref) := by
  unfold timeOutNode
  split
  · exact .refl
  · rename_i n hn
    split
    · rename_i hOverdue
      refine nodeSteps_set hn (fun hT => ?_) (by simp)
      unfold overdue at hOverdue
      split at hOverdue <;> simp_all
    · exact .refl

/-- The pilot of a rollout in its first stage has failed, or it is overdue. -/
def PilotFails (cfg : Config) (env : Env) (s : Rollouts) : Prop :=
  ∃ view r pilot, s.active = some view ∧ s.views[view]? = some r ∧ r.stage = .pilot ∧
    r.nodes.head? = some pilot ∧ (pilot.state = .failed ∨ overdue cfg env.now pilot = true)

theorem node?_set {state : NodeUpdateState} {now : Nat} {error : Option String}
    {percent : Option Nat} {r : NodeRef} (h : r ≠ ref) :
    (s.set ref state now error percent).node? r = s.node? r := by
  change (updateNode _ _ _).node? r = _
  rw [node?_updateNode, if_neg h]

/-- Timing out the nodes fails a pilot only when it is overdue. -/
theorem timeOut_pilot {pilot pilot' : NodeUpdate} (hPilot : s.node? ⟨view, 0⟩ = some pilot)
    (hPilot' : (timeOut cfg env s view).node? ⟨view, 0⟩ = some pilot')
    (hFailed : pilot'.state = .failed) :
    pilot.state = .failed ∨ overdue cfg env.now pilot = true := by
  have hKeep : ∀ l : List NodeRef, ∀ t : Rollouts,
      (t.node? ⟨view, 0⟩ = some pilot ∨ overdue cfg env.now pilot = true) →
      ((l.foldl (timeOutNode cfg env) t).node? ⟨view, 0⟩ = some pilot ∨
        overdue cfg env.now pilot = true) := by
    intro l
    induction l with
    | nil => exact fun t h => h
    | cons ref l ih =>
      intro t ht
      rcases ht with ht | ht
      · refine ih _ ?_
        unfold timeOutNode
        split
        · exact Or.inl ht
        · rename_i n hn
          split
          · rename_i hOverdue
            by_cases hr : ref = ⟨view, 0⟩
            · subst hr
              rw [ht] at hn
              obtain rfl := Option.some.inj hn
              exact Or.inr hOverdue
            · exact Or.inl (by rw [node?_set (Ne.symm hr), ht])
          · exact Or.inl ht
      · exact Or.inr ht
  rcases hKeep (s.refs view) s (Or.inl hPilot) with h | h
  · rw [timeOut, h] at hPilot'
    obtain rfl := Option.some.inj hPilot'
    exact Or.inl hFailed
  · exact Or.inr h

theorem nodeSteps_timeOut : NodeSteps A O s (timeOut cfg env s view) :=
  (nodeSteps_foldl id (fun _ => True) (fun _ _ _ _ => ⟨nodeSteps_timeOutNode, trivial⟩) trivial).1

theorem nodeSteps_skipNode : NodeSteps A O s (skipNode env s ref) := by
  unfold skipNode
  split
  · exact .refl
  · rename_i n hn
    split
    · exact .refl
    · rename_i hT
      exact nodeSteps_set hn (fun h => absurd h hT) (by simp)

theorem nodeSteps_restStage (hO : cfg.hook = false → O) : NodeSteps A O s (restStage cfg env s view) := by
  unfold restStage
  split
  · rename_i hRest
    refine (nodeSteps_foldl Prod.fst (fun p => p.1.stage? view = some .rest) ?_
      (x := (s, s.inFlight view)) hRest).1
    rintro ⟨t, k⟩ ht ref hRef
    have hView : ref.view = view := by
      obtain ⟨i, _, rfl⟩ := mem_map.mp (mem_of_mem_tail hRef)
      rfl
    have hBegin : NodeSteps A O t (t.begin cfg env ref) :=
      nodeSteps_begin hO (Or.inr (hView.symm ▸ ht))
    have hStage : (t.begin cfg env ref).stage? view = some .rest :=
      (congrFun (sameRollouts_of_steps hBegin).stage view).trans ht
    unfold beginNext
    split
    · exact ⟨.refl, ht⟩
    · split
      · exact ⟨.refl, ht⟩
      · split
        · exact ⟨.refl, ht⟩
        · exact ⟨hBegin, hStage⟩
  · exact .refl

/-- `s` becomes `t` by steps of the core. -/
abbrev CoreSteps (A O B : Prop) (s t : Rollouts) : Prop := ReflTransGen (CoreStep A O B) s.core t.core

theorem stage?_ne_none (h : s.core.Current view) : s.stage? view ≠ none := by
  obtain ⟨_, g, hg, _⟩ := h
  exact fun hNone => by simp [core, hNone] at hg

theorem core_setStage_finish {g : Stage} {note : String} (hActive : s.active = some view)
    (h : s.stage? view ≠ none) :
    ((s.setStage view g note).finish env).core =
      { s.core with
        stage := Function.update s.core.stage view (some g)
        finished := Function.update s.core.finished view true
        past := pushPast s.core.past view
        trace := s.core.trace ++ [.staged view g] ++ [.finished view] } := by
  have hStage : (s.setStage view g note).stage? view ≠ none := by
    change (s.setStage view g note).core.stage view ≠ none
    rw [core_setStage view g note h]
    simp
  have hActive' : (s.setStage view g note).active = some view := hActive
  rw [core_finish hActive' hStage, core_setStage view g note h]

theorem coreSteps_close {g : Stage} {note : String} (hCurrent : s.core.Current view)
    (hEnded : g.ended = true) : CoreSteps A O B s ((s.setStage view g note).finish env) := by
  rw [CoreSteps, core_setStage_finish hCurrent.1 (stage?_ne_none hCurrent)]
  exact .single (.close (n := 0) hCurrent hEnded)

theorem coreSteps_finishStage (hCurrent : s.core.Current view) :
    CoreSteps A O B s (s.finishStage env view) := by
  unfold finishStage
  split
  · exact .refl
  · split
    · exact coreSteps_close hCurrent rfl
    · exact .refl

/-- A rollout of one node is done as soon as it has confirmed. -/
theorem coreSteps_single {r : RolloutView} {pilot : NodeUpdate} (hCurrent : s.core.Current view)
    (hView : s.views[view]? = some r) (hNodes : r.nodes = [pilot])
    (hPilot : pilot.state = .confirmed) :
    CoreSteps A O B s ((s.setStage view .done "done").finishStage env view) := by
  have hSome := stage?_ne_none hCurrent
  have hView' : (s.setStage view .done "done").views[view]? = some
      { r with
        stage := .done
        note := "done" } := by
    simp [setStage, hView]
  have hSome' : (s.setStage view .done "done").stage? view ≠ none := by
    simp [stage?, hView']
  have hActive' : (s.setStage view .done "done").active = some view := hCurrent.1
  rw [finishStage, hView']
  simp only [hNodes, all_cons, all_nil, hPilot, NodeUpdateState.terminal]
  rw [if_pos (by simp), CoreSteps, core_setStage_finish hActive' hSome',
    core_setStage view .done _ hSome]
  have hClose := CoreStep.close (A := A) (O := O) (B := B) (g := .done) (n := 1) hCurrent rfl
  simpa [List.replicate] using ReflTransGen.single hClose

variable (A O cfg env) in
/-- What the first stage does. -/
theorem pilotStage_cases (hO : cfg.hook = false → O) (hCurrent : s.core.Current view)
    (hB : ∀ r pilot, s.views[view]? = some r → r.stage = .pilot → r.nodes.head? = some pilot →
      pilot.state = .failed → B) :
    (CoreSteps A O B s (s.pilotStage cfg env view) ∧
      ((s.pilotStage cfg env view).core.Current view ∨
        (s.pilotStage cfg env view).stage? view = some .stopped)) ∨
    (∃ r pilot, s.views[view]? = some r ∧ r.nodes = [pilot] ∧ pilot.state = .confirmed ∧
      s.pilotStage cfg env view = s.setStage view .done "done") := by
  have hIdle : CoreSteps A O B s s ∧ (s.core.Current view ∨ s.stage? view = some .stopped) :=
    ⟨.refl, Or.inl hCurrent⟩
  unfold pilotStage
  split
  · exact Or.inl hIdle
  · rename_i r hView
    split
    · rename_i pilot others hStage hNodes
      have hState : s.core.state ⟨view, 0⟩ = some pilot.state :=
        core_state (by simp [node?, hView, hNodes])
      split
      · -- the pilot is still to be updated
        have hSteps : NodeSteps A O s (s.begin cfg env ⟨view, 0⟩) := nodeSteps_begin hO (Or.inl rfl)
        exact Or.inl ⟨coreSteps_of_nodeSteps hSteps,
          Or.inl ((sameRollouts_of_steps hSteps).current hCurrent)⟩
      · rename_i hConfirmed
        split
        · rename_i hOthers
          exact Or.inr ⟨r, pilot, hView, by rw [hNodes, hOthers], hConfirmed, rfl⟩
        · left
          have hCore := core_setStage view .rest "pilot confirmed; updating the rest"
            (stage?_ne_none hCurrent)
          refine ⟨?_, Or.inl ?_⟩
          · rw [CoreSteps, hCore]
            exact .single (.rest hCurrent (by rw [hState, hConfirmed]))
          · rw [hCore]
            exact ⟨hCurrent.1, .rest, by simp, rfl⟩
      · rename_i hFailed
        left
        have hSkip : NodeSteps A O s ((s.refs view).tail.foldl (skipNode env) s) :=
          (nodeSteps_foldl id (fun _ => True)
            (fun _ _ _ _ => ⟨nodeSteps_skipNode, trivial⟩) trivial).1
        have hCurrent' := (sameRollouts_of_steps hSkip).current hCurrent
        have hCore := core_setStage view .stopped ("stopped: the pilot node failed (" ++
          pilot.error.getD "unknown" ++ "). Every other node kept its firmware.")
          (stage?_ne_none hCurrent')
        refine ⟨(coreSteps_of_nodeSteps hSkip).trans ?_, Or.inr ?_⟩
        · rw [hCore]
          exact .single (.stop (hB r pilot hView hStage (by simp [hNodes]) hFailed) hCurrent')
        · change (setStage _ _ _ _).core.stage view = _
          rw [hCore]
          simp
      · exact Or.inl hIdle
    · exact Or.inl hIdle

theorem restStage_of_ne (h : s.stage? view ≠ some .rest) : s.restStage cfg env view = s := by
  rw [restStage, if_neg h]

theorem finishStage_of_stopped (h : s.stage? view = some .stopped) :
    s.finishStage env view = s := by
  unfold finishStage
  split
  · rfl
  · rename_i r hr
    rw [stage?, hr] at h
    have hStopped : r.stage = .stopped := by simpa using h
    simp [hStopped]

theorem coreSteps_tick (hO : cfg.hook = false → O) (hB : PilotFails cfg env s → B) : CoreSteps A O B s (s.tick cfg env) := by
  unfold tick
  split
  · exact .refl
  · rename_i view hActive
    split
    · exact .refl
    · rename_i r hView
      split
      · exact .refl
      · rename_i hEnded
        have hTimeOut : NodeSteps A O s (s.timeOut cfg env view) := nodeSteps_timeOut
        have hSame := sameRollouts_of_steps hTimeOut
        have hCurrent : s.core.Current view :=
          ⟨hActive, r.stage, by simp [core, stage?, hView], by simpa using hEnded⟩
        have hSteps : CoreSteps A O B s (s.timeOut cfg env view) := coreSteps_of_nodeSteps hTimeOut
        dsimp only
        split
        · exact hSteps
        · refine hSteps.trans ?_
          have hCurrent' := hSame.current hCurrent
          -- the pilot is failed by now only if it was before, or was overdue
          have hPilot : ∀ r' pilot, (s.timeOut cfg env view).views[view]? = some r' →
              r'.stage = .pilot → r'.nodes.head? = some pilot → pilot.state = .failed → B := by
            intro r' pilot' hView' hStage' hHead' hFailed'
            have hStage : r.stage = .pilot := by
              have := congrFun hSame.stage view
              simpa [core, stage?, hView, hView', hStage'] using this.symm
            obtain ⟨pilot, hHead⟩ : ∃ pilot, r.nodes.head? = some pilot := by
              cases hNodes : r.nodes with
              | nil => contradiction
              | cons pilot others => exact ⟨pilot, rfl⟩
            have hNode : s.node? ⟨view, 0⟩ = some pilot := by
              simpa [node?, hView, head?_eq_getElem?] using hHead
            have hNode' : (s.timeOut cfg env view).node? ⟨view, 0⟩ = some pilot' := by
              simpa [node?, hView', head?_eq_getElem?] using hHead'
            exact hB ⟨view, r, pilot, hActive, hView, hStage, hHead,
              timeOut_pilot hNode hNode' hFailed'⟩
          generalize s.timeOut cfg env view = t at *
          rcases pilotStage_cases A O cfg env hO hCurrent' hPilot with
            ⟨hPilotSteps, hAfter | hAfter⟩ | ⟨r', pilot', hView', hNodes', hState', hEq⟩
          · have hRest : NodeSteps A O (t.pilotStage cfg env view)
                ((t.pilotStage cfg env view).restStage cfg env view) := nodeSteps_restStage hO
            refine hPilotSteps.trans ((coreSteps_of_nodeSteps hRest).trans ?_)
            exact coreSteps_finishStage ((sameRollouts_of_steps hRest).current hAfter)
          · rw [restStage_of_ne (by simp [hAfter]), finishStage_of_stopped hAfter]
            exact hPilotSteps
          · have hStage : (t.setStage view .done "done").stage? view ≠ some .rest := by
              simp [stage?, setStage, hView']
            rw [hEq, restStage_of_ne hStage]
            exact coreSteps_single hCurrent' hView' hNodes' hState'

end tick

/-! ## Suspended calls -/

section tasks

variable {A O B : Prop} {cfg : Config} {env : Env} {id : Nat} {t : Task} {stage : TaskStage}
  {image : Image} {port : Nat}

theorem subperm_of_parts {pre post : List Task} {X Y : List NodeRef}
    (hX : X.Sublist (pre.filterMap Task.requested))
    (hY : Y.Sublist (post.filterMap Task.requested)) :
    (t.requested.toList ++ (X ++ Y)).Subperm ((pre ++ t :: post).filterMap Task.requested) := by
  have hSplit : (pre ++ t :: post).filterMap Task.requested =
      pre.filterMap Task.requested ++ (t.requested.toList ++ post.filterMap Task.requested) := by
    cases h : t.requested <;> simp [h]
  rw [hSplit]
  refine (perm_append_comm_assoc _ X Y).subperm.trans ?_
  exact (hX.append ((List.Sublist.refl _).append hY)).subperm

theorem requested_eq_none (id : Nat) (h : heldBack ref (some stage) = []) :
    Task.requested ⟨id, ref, stage⟩ = none := by
  cases stage <;> simp_all [heldBack, Task.requested]

theorem sublist_map_move {stage : TaskStage} (hStage : ∀ ref, heldBack ref (some stage) = [])
    (l : List Task) :
    ((l.map fun t => if t.id = id then { t with stage := stage } else t).filterMap
      Task.requested).Sublist (l.filterMap Task.requested) := by
  induction l with
  | nil => exact .slnil
  | cons u l ih =>
    have hMoved := requested_eq_none u.id (hStage u.ref)
    by_cases hId : u.id = id
    · rw [map_cons, if_pos hId, filterMap_cons_none hMoved]
      refine ih.trans ?_
      exact (sublist_cons_self u l).filterMap _
    · rw [map_cons, if_neg hId, filterMap_cons, filterMap_cons]
      split
      · exact ih
      · exact ih.cons_cons _

/-- A suspended call that goes on holds back its request no longer. -/
theorem subperm_moveTask (stage : TaskStage) (hTask : s.task? id = some t)
    (hStage : ∀ ref, heldBack ref (some stage) = []) :
    (t.requested.toList ++ (s.moveTask id stage).core.requests).Subperm s.core.requests := by
  obtain ⟨hId, pre, post, hTasks, _⟩ := find?_eq_some_iff_append.mp hTask
  have hMoved := requested_eq_none t.id (hStage t.ref)
  have hAfter : (s.moveTask id stage).core.requests =
      ((pre.map fun t => if t.id = id then { t with stage := stage } else t).filterMap
        Task.requested) ++
      ((post.map fun t => if t.id = id then { t with stage := stage } else t).filterMap
        Task.requested) := by
    have hTid : t.id = id := by simpa using hId
    simp only [core, moveTask, hTasks, map_append, map_cons, filterMap_append,
      if_pos hTid, filterMap_cons_none hMoved]
  rw [hAfter, core, hTasks]
  exact subperm_of_parts (sublist_map_move hStage pre) (sublist_map_move hStage post)

theorem subperm_endTask (cfg : Config) (hTask : s.task? id = some t) :
    (t.requested.toList ++ (s.endTask cfg id).core.requests).Subperm s.core.requests := by
  unfold endTask
  split
  · exact subperm_moveTask .unlaunch hTask fun _ => rfl
  · obtain ⟨hId, pre, post, hTasks, _⟩ := find?_eq_some_iff_append.mp hTask
    have hTid : t.id = id := by simpa using hId
    have hAfter : ({ s with tasks := s.tasks.filter fun t => t.id ≠ id } : Rollouts).core.requests =
        ((pre.filter fun t => t.id ≠ id).filterMap Task.requested) ++
        ((post.filter fun t => t.id ≠ id).filterMap Task.requested) := by
      simp [core, hTasks, filter_append, hTid]
    rw [hAfter, core, hTasks]
    exact subperm_of_parts (filter_sublist.filterMap _) (filter_sublist.filterMap _)

theorem task?_moveTask {stage : TaskStage} (id' : Nat) :
    (s.moveTask id stage).task? id' = (s.task? id').map fun t =>
      if t.id = id then { t with stage := stage } else t := by
  simp only [task?, moveTask, find?_map]
  congr 2
  funext t
  simp only [comp_apply]
  split <;> rfl

/-- Moving a call on to a stage that holds nothing back. -/
theorem nodeSteps_moveTask (hStage : ∀ ref, heldBack ref (some stage) = []) :
    ReflTransGen (NodeStep A O)
      { s.core with requests := (s.moveTask id stage).core.requests }
      (s.moveTask id stage).core := by
  refine .single (.tasks (c := { s.core with requests := _ }) (Nat.le_refl _) ?_ ?_)
  · intro id' _ r hr
    change ((s.moveTask id stage).task? id').bind Task.requested = some r at hr
    change (s.task? id').bind Task.requested = some r
    rw [task?_moveTask] at hr
    cases hTask : s.task? id' with
    | none => simp [hTask] at hr
    | some t =>
      rw [hTask, Option.map_some, Option.bind_some] at hr
      split at hr
      · rw [requested_eq_none t.id (hStage t.ref)] at hr
        cases hr
      · exact hr
  · intro id' _ hNone
    rw [task?_moveTask, show s.task? id' = none from hNone, Option.map_none]

theorem task?_filter (id' : Nat) :
    ({ s with tasks := s.tasks.filter fun t => t.id ≠ id } : Rollouts).task? id' =
      if id' = id then none else s.task? id' := by
  unfold task?
  dsimp only
  rw [List.find?_filter]
  split
  · rename_i hEq
    subst hEq
    simp
  · rename_i hNe
    congr 1
    funext t
    by_cases hId : t.id = id' <;> simp [hId, hNe]

/-- Removing the calls with an id. -/
theorem nodeSteps_removeTask :
    ReflTransGen (NodeStep A O)
      { s.core with requests := (s.tasks.filter fun t => t.id ≠ id).filterMap Task.requested }
      ({ s with tasks := s.tasks.filter fun t => t.id ≠ id } : Rollouts).core := by
  refine .single (.tasks (c := { s.core with requests := _ }) (Nat.le_refl _) ?_ ?_)
  · intro id' _ r hr
    rw [task?_filter] at hr
    split at hr
    · cases hr
    · exact hr
  · intro id' _ hNone
    rw [task?_filter]
    split
    · rfl
    · exact hNone

theorem nodeSteps_endTask_after :
    ReflTransGen (NodeStep A O) { s.core with requests := (s.endTask cfg id).core.requests }
      (s.endTask cfg id).core := by
  unfold endTask
  split
  · exact nodeSteps_moveTask fun _ => rfl
  · exact nodeSteps_removeTask

theorem nodeSteps_endTask : NodeSteps A O s (s.endTask cfg id) := by
  have hSub : (s.endTask cfg id).core.requests.Sublist s.core.requests := by
    unfold endTask
    split
    · exact sublist_map_move (fun _ => rfl) s.tasks
    · exact filter_sublist.filterMap _
  exact ReflTransGen.trans (.single (.dropped hSub.subperm)) nodeSteps_endTask_after

theorem requested_request (h : t.stage = .request image port) : t.requested.toList = [t.ref] := by
  simp [Task.requested, h]

theorem task?_dispatch : (s.dispatch ref image port).1.task? id = s.task? id := by
  unfold dispatch
  split <;> rfl

theorem stage_dispatch {u : Rollouts} (h : s.dispatch ref image port = (u, some stage)) :
    stage = .ota := by
  unfold dispatch at h
  split at h
  · simp_all
  · simp at h

theorem task?_requeue : (s.requeue ref).task? id = s.task? id := by
  unfold requeue
  split <;> rfl

theorem requests_requeue : (s.requeue ref).core.requests = s.core.requests := by
  unfold requeue
  split <;> rfl

/-- The end of a request whose `beforeDispatch` has failed. -/
theorem nodeSteps_requeue {requests : List NodeRef}
    (hRequests : (ref :: requests).Subperm s.core.requests) :
    ReflTransGen (NodeStep A O) s.core { (s.requeue ref).core with requests := requests } := by
  unfold requeue
  split
  · rename_i hCan
    obtain ⟨_, n, hn, hState⟩ := canDispatch_iff.mp hCan
    have hSending : s.core.state ref = some .sending := by rw [core_state hn, hState]
    rw [core_trace (s := s.updateNode ref _), core_updateNode _ (by exact fun _ => rfl), hn]
    exact .single (.requeue hRequests hSending)
  · have hTail := (sublist_cons_self ref requests).subperm.trans hRequests
    exact .single (.dropped hTail)

theorem nodeSteps_resumeHook {ok : Bool} (hO : ok = true → O) : NodeSteps A O s (s.resumeHook cfg env id ok) := by
  unfold resumeHook
  split
  · exact .refl
  · rename_i t hTask
    split
    · -- the push of an image
      rename_i g image hStage
      dsimp only
      split
      · exact nodeSteps_pushImage.trans nodeSteps_endTask
      · split
        · exact nodeSteps_endTask (s := { s with gatewaysAsked := s.gatewaysAsked.delete g })
        · exact nodeSteps_endTask
    · rename_i image port hStage
      have hHeld := requested_request hStage
      split
      · -- the request goes out, or the node has changed in the meantime
        rename_i hOk
        dsimp only
        generalize hFree : { s with awaitingDispatch := s.awaitingDispatch.erase t.ref } = s'
        have hCore : s.core = { s'.core with requests := s'.core.requests } := by
          rw [← hFree]
          rfl
        have hTask' : (s'.dispatch t.ref image port).1.task? id = some t := by
          rw [← hTask, ← hFree, task?_dispatch]
          rfl
        have hRequests : (s'.dispatch t.ref image port).1.core.requests = s'.core.requests :=
          requests_dispatch
        rw [NodeSteps, hCore]
        split
        · rename_i u stage hEq
          obtain rfl := stage_dispatch hEq
          rw [hEq] at hTask' hRequests
          have hMove := subperm_moveTask .ota hTask' fun _ => rfl
          rw [hHeld, hRequests] at hMove
          have hSteps := nodeSteps_dispatch (A := A) (hO hOk) (s := s') image port hMove
          rw [hEq] at hSteps
          exact hSteps.trans (nodeSteps_moveTask fun _ => rfl)
        · rename_i u hEq
          rw [hEq] at hTask' hRequests
          have hEnd := subperm_endTask cfg hTask'
          rw [hHeld, hRequests] at hEnd
          have hSteps := nodeSteps_dispatch (A := A) (hO hOk) (s := s') image port hEnd
          rw [hEq] at hSteps
          exact hSteps.trans nodeSteps_endTask_after
      · dsimp only
        generalize hFree : ({ s.requeue t.ref with
          awaitingDispatch := (s.requeue t.ref).awaitingDispatch.erase t.ref } : Rollouts) = s'
        have hTask' : s'.task? id = some t := by
          rw [← hFree]
          exact task?_requeue.trans hTask
        have hEnd := subperm_endTask cfg hTask'
        have hRequests : s'.core.requests = s.core.requests := by
          rw [← hFree]
          exact requests_requeue
        rw [hHeld, hRequests] at hEnd
        refine ReflTransGen.trans ?_ nodeSteps_endTask_after
        rw [← hFree]
        exact nodeSteps_requeue (hFree ▸ hEnd)
    · exact .refl

end tasks

/-! ## Events on the core -/

section events

variable {A O B : Prop} {cfg : Config} {env : Env} {t : Rollouts}

theorem nodeSteps_takeImageResult {gatewayId : String} {result : ImageResult}
    (h : s.takeImageResult env gatewayId result = some t) : NodeSteps A O s t := by
  unfold takeImageResult at h
  split at h
  · simp at h
  · split at h
    · simp at h
    · split at h
      · simp at h
      · split at h
        · obtain rfl := Option.some.inj h
          exact .refl
        · obtain rfl := Option.some.inj h
          refine (nodeSteps_foldl id (fun _ => True) (fun u _ ref _ => ⟨?_, trivial⟩) trivial).1
          change NodeSteps A O u (refuseNode _ _ _ u ref)
          unfold refuseNode
          split
          · exact .refl
          · rename_i n hn
            split
            · rename_i hRefused
              refine nodeSteps_set hn (fun hT => ?_) (by simp)
              simp [hT] at hRefused
            · exact .refl

theorem reported_new {status : OtaStatus} {state : NodeUpdateState} {error : Option String}
    {percent : Option Nat} (h : reported status = some (state, error, percent)) :
    state ≠ .queued ∧ state ≠ .sending := by
  unfold reported at h
  split at h <;> simp_all <;> simp [← h.1]

theorem nodeSteps_takeOtaStatus {uid : String} {status : OtaStatus}
    (h : s.takeOtaStatus env uid status = some t) : NodeSteps A O s t := by
  unfold takeOtaStatus at h
  split at h
  · simp at h
  · split at h
    · simp at h
    · rename_i r hView
      split at h
      · simp at h
      · split at h
        · simp at h
        · rename_i i _ node hNode
          split at h
          · simp at h
          · rename_i hOpen
            split at h
            · obtain rfl := Option.some.inj h
              exact .refl
            · rename_i hReported
              obtain rfl := Option.some.inj h
              refine nodeSteps_set (n := node) (by simp [node?, hView, hNode]) (fun hT => ?_)
                (reported_new hReported)
              simp [hT] at hOpen

theorem nodeSteps_takeOtaError {error : String} (h : s.takeOtaError env ref error = some t) :
    NodeSteps A O s t := by
  unfold takeOtaError at h
  split at h
  · rename_i hOpen
    obtain rfl := Option.some.inj h
    simp only [Bool.and_eq_true, Option.any_eq_true] at hOpen
    obtain ⟨_, n, hn, hT⟩ := hOpen
    exact nodeSteps_set hn (fun h => by simp [h] at hT) (by simp)
  · simp at h

/-- A node of the running rollout has ended while its request is still held back. -/
def EndedWhileHeld (s : Rollouts) : Prop :=
  ∃ ref n, ref ∈ s.awaitingDispatch ∧ s.core.Current ref.view ∧ s.node? ref = some n ∧
    n.state.terminal = true

theorem nodeSteps_cancelNodes {l : List NodeRef} (hl : l.Nodup)
    (hA : ∀ ref ∈ l, ref ∈ s.awaitingDispatch → ∀ n, s.node? ref = some n →
      n.state.terminal = true → A) :
    NodeSteps A O s (l.foldl (cancelNode env) s) := by
  induction l generalizing s with
  | nil => exact .refl
  | cons ref l ih =>
    obtain ⟨hRef, hl⟩ := nodup_cons.mp hl
    have hHead : NodeSteps A O s (cancelNode env s ref) := by
      unfold cancelNode
      split
      · exact .refl
      · rename_i n hn
        split
        · rename_i hOpen
          refine nodeSteps_set hn (fun hT => ?_) (by simp)
          rcases hOpen with hOpen | hOpen
          · simp [hOpen, NodeUpdateState.terminal] at hT
          · exact hA ref (by simp) hOpen n hn hT
        · exact .refl
    refine hHead.trans (ih hl fun r hr hAwait n hn => ?_)
    have hOther : (cancelNode env s ref).node? r = s.node? r ∧
        (cancelNode env s ref).awaitingDispatch = s.awaitingDispatch := by
      unfold cancelNode
      split
      · exact ⟨rfl, rfl⟩
      · split
        · exact ⟨node?_set fun h => hRef (h ▸ hr), rfl⟩
        · exact ⟨rfl, rfl⟩
    rw [hOther.1] at hn
    rw [hOther.2] at hAwait
    exact hA r (mem_cons_of_mem _ hr) hAwait n hn

theorem nodup_refs {view : Nat} : (s.refs view).Nodup := by
  refine List.Nodup.map (fun i j h => ?_) nodup_range
  simpa using h

theorem coreSteps_cancel {cancelledBy : String} (hA : s.EndedWhileHeld → A) :
    CoreSteps A O B s (s.cancel env cancelledBy) := by
  unfold cancel
  split
  · exact .refl
  · rename_i view hActive
    split
    · rename_i hOpen
      have hCurrent : s.core.Current view := by
        obtain ⟨g, hg, hEnded⟩ := (Option.any_eq_true _ _).mp hOpen
        exact ⟨hActive, g, hg, by simpa using hEnded⟩
      have hNodes : NodeSteps A O s ((s.refs view).foldl (cancelNode env) s) := by
        refine nodeSteps_cancelNodes nodup_refs fun ref hRef hAwait n hn hT => hA ?_
        obtain ⟨i, _, rfl⟩ := mem_map.mp hRef
        exact ⟨_, n, hAwait, hCurrent, hn, hT⟩
      refine (coreSteps_of_nodeSteps hNodes).trans ?_
      exact coreSteps_close ((sameRollouts_of_steps hNodes).current hCurrent) rfl
    · exact .refl

/-- What an accepted `start` adds. -/
theorem checkStart_ok {buildId startedBy : String} {target : RolloutTarget} {view : RolloutView}
    (h : s.checkStart env buildId target startedBy = .ok view) :
    (∀ v, s.active = some v → ∀ g, s.stage? v = some g → g.ended = true) ∧
    view.stage = .pilot ∧ view.finishedAt = none ∧
    ∀ n ∈ view.nodes, n.state = .queued ∧ n.startedAt = none := by
  unfold checkStart at h
  split at h
  · simp at h
  · split at h
    · simp at h
    · rename_i hRunning
      split at h
      · simp at h
      · split at h
        · simp at h
        · split at h
          · simp at h
          · split at h
            · simp at h
            · obtain rfl := Except.ok.inj h
              refine ⟨fun v hv g hg => ?_, rfl, rfl, fun n hn => ?_⟩
              · simpa [hv, hg] using hRunning
              · obtain ⟨c, _, rfl⟩ := mem_map.mp hn
                exact ⟨rfl, rfl⟩

/-- The state in which `start` calls `tick`. -/
def started (s : Rollouts) (view : RolloutView) : Rollouts :=
  { s with
    views := s.views ++ [view]
    active := some s.views.length
    gatewaysReady := .empty
    gatewaysAsked := .empty
    trace := s.trace ++ [.started s.views.length] }

theorem core_started {view : RolloutView} (hStage : view.stage = .pilot)
    (hFinished : view.finishedAt = none) (hNodes : ∀ n ∈ view.nodes, n.state = .queued) :
    (s.started view).core =
      { s.core with
        name := (s.started view).core.name
        state := fun ref =>
          if ref.view = s.core.size then (if ref.node < view.nodes.length then some .queued else none)
          else s.core.state ref
        stage := Function.update s.core.stage s.core.size (some .pilot)
        size := s.core.size + 1
        active := some s.core.size
        trace := s.core.trace ++ [.started s.core.size] } := by
  have hOld : ∀ v, v ≠ s.views.length → (s.views ++ [view])[v]? = s.views[v]? := by
    intro v hv
    rcases Nat.lt_or_gt_of_ne hv with h | h
    · rw [getElem?_append_left h]
    · rw [getElem?_eq_none (by simp; omega), getElem?_eq_none (by omega)]
  have hNew : (s.views ++ [view])[s.views.length]? = some view := by simp
  rw [Core.mk.injEq]
  refine ⟨?_, rfl, ?_, ?_, by simp [core, started], rfl, rfl, rfl, rfl, rfl, rfl⟩
  · funext ref
    by_cases hv : ref.view = s.core.size
    · rw [if_pos hv]
      change ((s.views ++ [view])[ref.view]?.bind fun v => v.nodes[ref.node]?).map _ = _
      rw [show ref.view = s.views.length from hv, hNew, Option.bind_some]
      by_cases hi : ref.node < view.nodes.length
      · have hState := hNodes _ (getElem_mem hi)
        simp [hi, hState]
      · simp [hi]
    · rw [if_neg hv]
      change ((s.views ++ [view])[ref.view]?.bind fun v => v.nodes[ref.node]?).map _ = _
      rw [hOld _ hv]
      rfl
  · funext v
    simp only [core, stage?, started, update_apply]
    by_cases hv : v = s.views.length
    · rw [if_pos hv, hv, hNew]
      simp [hStage]
    · rw [if_neg hv, hOld _ hv]
  · funext v
    simp only [core, Rollouts.finished, started]
    by_cases hv : v = s.views.length
    · rw [hv, hNew]
      simp [hFinished]
    · rw [hOld _ hv]

theorem name?_started {view : RolloutView} (h : ref.view ≠ s.views.length) :
    (s.started view).name? ref = s.name? ref := by
  have hOld : (s.views ++ [view])[ref.view]? = s.views[ref.view]? := by
    rcases Nat.lt_or_gt_of_ne h with h | h
    · rw [getElem?_append_left h]
    · rw [getElem?_eq_none (by simp; omega), getElem?_eq_none (by omega)]
  simp only [name?, started, hOld]

theorem coreSteps_start (hO : cfg.hook = false → O) {buildId startedBy : String} {target : RolloutTarget}
    {deferDispatch : Bool} :
    CoreSteps A O B s (s.start cfg env buildId target startedBy deferDispatch).1 := by
  unfold start
  split
  · exact .refl
  · rename_i view hView
    obtain ⟨hActive, hStage, hFinished, hNodes⟩ := checkStart_ok hView
    have hStart : CoreSteps A O B s (s.started view) := by
      rw [CoreSteps, core_started hStage hFinished fun n hn => (hNodes n hn).1]
      exact .single (.start (fun ref => name?_started) hActive)
    change CoreSteps A O B s (if deferDispatch then s.started view else (s.started view).tick cfg env)
    split
    · exact hStart
    · refine hStart.trans (coreSteps_tick hO fun hFails => ?_)
      -- a node that has not been told anything is neither failed nor overdue
      obtain ⟨v, r, pilot, hv, hr, _, hHead, hBad⟩ := hFails
      obtain rfl : s.views.length = v := Option.some.inj hv
      obtain rfl : view = r := by simpa [started] using hr
      obtain ⟨hQueued, hNotStarted⟩ := hNodes pilot (mem_of_mem_head? hHead)
      simp [hQueued, overdue, hNotStarted] at hBad

/-- The event makes `tick` find a failed or overdue pilot. -/
def TickFindsFailedPilot (cfg : Config) (s : Rollouts) : Event → Prop
  | .tick env => s.PilotFails cfg env
  | .onImageReady env gatewayId result =>
    ∃ t, s.takeImageResult env gatewayId result = some t ∧ t.PilotFails cfg env
  | .onOtaStatus env uid status =>
    ∃ t, s.takeOtaStatus env uid status = some t ∧ t.PilotFails cfg env
  | .otaSettled env id (some error) =>
    ∃ task t, s.task? id = some task ∧ task.stage = .ota ∧
      s.takeOtaError env task.ref error = some t ∧ t.PilotFails cfg env
  | _ => False

/-- The event may send an OTA: with `beforeDispatch` set, only its success does. -/
def MayDispatch (cfg : Config) : Event → Prop
  | .resumeHook _ _ true => True
  | _ => cfg.hook = false

/-- The event cancels a rollout while the request of an ended node is held back. -/
def CancelsEnded (s : Rollouts) : Event → Prop
  | .cancel _ _ => s.EndedWhileHeld
  | _ => False

end events

end Rollouts

/-- Every event is a sequence of steps of the core. -/
theorem coreSteps_step (cfg : Config) (s : Rollouts) (e : Event) :
    Rollouts.CoreSteps (s.CancelsEnded e) (Rollouts.MayDispatch cfg e) (s.TickFindsFailedPilot cfg e)
      s (step cfg s e) := by
  cases e with
  | start env buildId target startedBy deferDispatch => exact Rollouts.coreSteps_start id
  | tick env => exact Rollouts.coreSteps_tick id id
  | onImageReady env gatewayId result =>
    simp only [step, Rollouts.onImageReady]
    split
    · exact .refl
    · rename_i t hTake
      refine (coreSteps_of_nodeSteps (Rollouts.nodeSteps_takeImageResult hTake)).trans ?_
      exact Rollouts.coreSteps_tick id fun hFails => ⟨t, hTake, hFails⟩
  | onOtaStatus env uid status =>
    simp only [step, Rollouts.onOtaStatus]
    split
    · exact .refl
    · rename_i t hTake
      refine (coreSteps_of_nodeSteps (Rollouts.nodeSteps_takeOtaStatus hTake)).trans ?_
      exact Rollouts.coreSteps_tick id fun hFails => ⟨t, hTake, hFails⟩
  | cancel env cancelledBy => exact Rollouts.coreSteps_cancel id
  | resumeHook env task ok =>
    refine coreSteps_of_nodeSteps (Rollouts.nodeSteps_resumeHook ?_)
    rintro rfl
    trivial
  | otaSettled env id error =>
    simp only [step, Rollouts.otaSettled]
    split
    · exact .refl
    · rename_i task hTask
      split
      · rename_i hStage
        refine ReflTransGen.trans ?_ (coreSteps_of_nodeSteps Rollouts.nodeSteps_endTask)
        split
        · exact .refl
        · rename_i t hTake
          obtain ⟨error, rfl, hTake⟩ := Option.bind_eq_some_iff.mp hTake
          refine (coreSteps_of_nodeSteps (Rollouts.nodeSteps_takeOtaError hTake)).trans ?_
          exact Rollouts.coreSteps_tick (fun h => h) fun hFails => ⟨task, t, hTask, hStage, hTake, hFails⟩
      · exact .refl
  | unlaunch id =>
    simp only [step, Rollouts.unlaunch]
    split
    · exact .refl
    · split
      · rename_i task hTask _
        have hSub := (filter_sublist (p := fun t => t.id ≠ id) (l := s.tasks)).filterMap
          Task.requested
        have hSteps : Rollouts.NodeSteps (s.CancelsEnded (.unlaunch id))
            (Rollouts.MayDispatch cfg (.unlaunch id)) s
            { s with tasks := s.tasks.filter fun t => t.id ≠ id } :=
          ReflTransGen.trans (.single (.dropped hSub.subperm)) Rollouts.nodeSteps_removeTask
        exact coreSteps_of_nodeSteps hSteps
      · exact .refl

end TMEdge.Rollout
