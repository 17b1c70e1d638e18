import TMEdge.Rollout.Restart

/-!
# An OTA is sent only after its node was saved as `sending`

`WriteAhead` ties every call of `beforeDispatch` to what its write saves: while the request
it holds back can still be sent, the snapshot being saved shows the node as `sending`. It
is kept by every step but one: after a save that was reported as failed, `start` takes over
the text of the rollouts in memory as the text last saved, although these may have changed
since (`ConfirmsUnsaved`). `sent_after_commit` is the result for all other runs, and
`sent_before_commit` a run in which an OTA is sent that no committed snapshot shows.
-/

namespace TMEdge.Rollout

open Library Protocol Relation List

/-! ## What a snapshot shows -/

/-- The current rollout has not ended. -/
def Running (saved : Saved) : Prop := ∃ v ∈ saved.1, v.stage.ended = false

/-- The current rollout has not ended and shows the node of this name as `sending`. -/
def Shows (saved : Saved) (name : Option (String × String)) : Prop :=
  ∃ v ∈ saved.1, v.stage.ended = false ∧
    ∃ n ∈ v.nodes, n.state = .sending ∧ name = some (v.id, n.uid)

theorem Shows.running {saved : Saved} {name : Option (String × String)} (h : Shows saved name) :
    Running saved := by
  obtain ⟨v, hv, hEnded, _⟩ := h
  exact ⟨v, hv, hEnded⟩

namespace Rollouts

variable {s : Rollouts} {cfg : Config} {env : Env} {ref : NodeRef} {uid : String}

theorem name?_of_node? {n : NodeUpdate} (h : s.node? ref = some n) :
    ∃ v, s.views[ref.view]? = some v ∧ n ∈ v.nodes ∧ s.name? ref = some (v.id, n.uid) := by
  obtain ⟨v, hv, hn⟩ := Option.bind_eq_some_iff.mp h
  exact ⟨v, hv, mem_of_getElem? hn, by simp [name?, hv, hn]⟩

/-- A request that can be sent shows in the snapshot of the moment. -/
theorem shows_saved (h : s.core.Sendable ref) : Shows s.saved (s.name? ref) := by
  obtain ⟨⟨hActive, g, hStage, hEnded⟩, hState⟩ := h
  obtain ⟨n, hn, hSending⟩ := Option.map_eq_some_iff.mp hState
  obtain ⟨v, hv, hMem, hName⟩ := name?_of_node? hn
  obtain ⟨v', hv', rfl⟩ := Option.map_eq_some_iff.mp hStage
  obtain rfl := Option.some.inj (hv.symm.trans hv')
  have hCurrent : s.current = some v := by
    simp only [current, show s.active = some ref.view from hActive, Option.bind_some, hv]
  exact ⟨v, hCurrent, hEnded, n, hMem, hSending, hName⟩

theorem view_lt_of_name {p : String × String} (h : s.name? ref = some p) :
    ref.view < s.views.length := by
  by_contra hNot
  simp [name?, getElem?_eq_none (Nat.le_of_not_lt hNot)] at h

theorem trace_endTask (id : Nat) : (s.endTask cfg id).trace = s.trace := by
  unfold endTask moveTask
  split <;> rfl

theorem ota_pushImage {gatewayId : String} {ref' : NodeRef} {image : OtaImage}
    (h : .ota ref' uid image ∈ (s.pushImage env ref gatewayId).trace) :
    .ota ref' uid image ∈ s.trace :=
  ota_coreSteps id (coreSteps_of_nodeSteps (A := True) (O := False) (B := True) nodeSteps_pushImage) h

theorem ota_dispatch {ref' : NodeRef} {image : Image} {port : Nat} {ota : OtaImage}
    (h : .ota ref' uid ota ∈ (s.dispatch ref image port).1.trace) :
    .ota ref' uid ota ∈ s.trace ∨
      ref' = ref ∧ s.core.Sendable ref ∧ ∃ id, s.name? ref = some (id, uid) := by
  unfold dispatch at h
  split at h
  · rename_i hCan
    obtain ⟨hCurrent, n, hn, hState⟩ := canDispatch_iff.mp hCan
    rcases mem_append.mp h with h | h
    · exact Or.inl h
    · obtain ⟨rfl, rfl, -⟩ : ref' = ref ∧ uid = n.uid ∧ _ := by simpa [hn] using h
      obtain ⟨v, _, _, hName⟩ := name?_of_node? hn
      exact Or.inr ⟨rfl, ⟨hCurrent, by rw [core_state hn, hState]⟩, v.id, hName⟩
  · exact Or.inl h

/-- The only OTA that goes out when `beforeDispatch` succeeds is the one it held back. -/
theorem ota_resumeHook {id : Nat} {image : OtaImage}
    (h : .ota ref uid image ∈ (s.resumeHook cfg env id true).trace) :
    .ota ref uid image ∈ s.trace ∨
      s.core.request? id = some ref ∧ s.core.Sendable ref ∧ ∃ v, s.name? ref = some (v, uid) := by
  unfold resumeHook at h
  split at h
  · exact Or.inl h
  · rename_i t hTask
    split at h
    · simp only [if_true, trace_endTask] at h
      exact Or.inl (ota_pushImage h)
    · rename_i img port hStage
      have hRequest : s.core.request? id = some t.ref := by
        rw [Core.request?, show s.core.task? id = some t from hTask, Option.bind_some,
          Task.requested, hStage]
      have hSent : .ota ref uid image ∈ (dispatch { s with
          awaitingDispatch := s.awaitingDispatch.erase t.ref } t.ref img port).1.trace := by
        simp only [if_true] at h
        split at h
        · rename_i hEq
          rw [hEq]
          exact h
        · rename_i hEq
          rw [hEq]
          exact (trace_endTask id ▸ h :)
      rcases ota_dispatch hSent with hOld | ⟨rfl, hSendable, hName⟩
      · exact Or.inl hOld
      · exact Or.inr ⟨hRequest, hSendable, hName⟩
    · exact Or.inl h

/-- Without an active rollout and suspended calls, only `start` changes anything. -/
theorem step_of_rest (hActive : s.active = none) (hTasks : s.tasks = []) {e : Event}
    (he : ∀ env buildId target startedBy deferDispatch,
      e ≠ .start env buildId target startedBy deferDispatch) : step cfg s e = s := by
  cases e with
  | start env buildId target startedBy deferDispatch => exact absurd rfl (he _ _ _ _ _)
  | tick env => exact tick_of_none hActive
  | onImageReady env gatewayId result => exact onImageReady_of_none hActive
  | onOtaStatus env uid status => exact onOtaStatus_of_none hActive
  | cancel env cancelledBy => exact cancel_of_none hActive
  | resumeHook env task ok => exact resumeHook_of_nil hTasks
  | otaSettled env task error => exact otaSettled_of_nil hTasks
  | unlaunch task => exact unlaunch_of_nil hTasks

end Rollouts

/-! ## The invariant -/

/-- A process that is not initialized has nothing to do. -/
structure Booting (s : Service) : Prop where
  active : s.rollouts.active = none
  tasks : s.rollouts.tasks = []
  writes : s.writes = []
  calls : ∀ c ∈ s.calls, ∃ operation, c = ⟨operation, .queued, ⟨none, [], []⟩, 0⟩

structure WriteAhead (committed : List Saved) (s : Service) : Prop where
  held : Held s.rollouts.core
  booting : s.boot ≠ .ready → Booting s
  last : ∀ saved, s.lastPersisted = some saved → Running saved → saved ∈ committed
  executed : ∀ w ∈ s.writes, ∀ saved, w.saving = some saved → w.executed = some true →
    saved ∈ committed
  known : ∀ w ∈ s.writes, ∀ id, w.owner = .task id → id < s.rollouts.nextTask
  knownSettled : ∀ id ok, (.task id, ok) ∈ s.settled → id < s.rollouts.nextTask
  saving : ∀ w ∈ s.writes, ∀ id ref saved, w.owner = .task id → w.saving = some saved →
    s.rollouts.core.request? id = some ref → s.rollouts.core.Sendable ref →
    Shows saved (s.rollouts.name? ref)
  settled : ∀ id ref, (.task id, true) ∈ s.settled → s.rollouts.core.request? id = some ref →
    s.rollouts.core.Sendable ref → ∃ saved ∈ committed, Shows saved (s.rollouts.name? ref)
  sent : ∀ ref uid image, .ota ref uid image ∈ s.rollouts.trace →
    ∃ saved ∈ committed, ∃ id, s.rollouts.name? ref = some (id, uid) ∧ Shows saved (some (id, uid))

section service

variable {committed : List Saved} {s : Service} {cfg : ServiceConfig} {env : Env} {ok : Bool}

theorem writeAhead_new : WriteAhead committed .new where
  held := held_new
  booting := fun _ => ⟨rfl, rfl, rfl, by simp [Service.new]⟩
  last := by simp [Service.new]
  executed := by simp [Service.new]
  known := by simp [Service.new]
  knownSettled := by simp [Service.new]
  saving := by simp [Service.new]
  settled := by simp [Service.new]
  sent := by simp [Service.new, Rollouts.new]

theorem WriteAhead.mono (h : WriteAhead committed s) {committed' : List Saved}
    (hSub : committed ⊆ committed') : WriteAhead committed' s where
  held := h.held
  booting := h.booting
  last := fun saved hLast hRunning => hSub (h.last saved hLast hRunning)
  executed := fun w hw saved hSaving hDone => hSub (h.executed w hw saved hSaving hDone)
  known := h.known
  knownSettled := h.knownSettled
  saving := h.saving
  settled := by
    intro id ref hMem hRequest hSendable
    obtain ⟨saved, hSaved, hShows⟩ := h.settled id ref hMem hRequest hSendable
    exact ⟨saved, hSub hSaved, hShows⟩
  sent := by
    intro ref uid image hMem
    obtain ⟨saved, hSaved, hShows⟩ := h.sent ref uid image hMem
    exact ⟨saved, hSub hSaved, hShows⟩

theorem WriteAhead.ready (h : WriteAhead committed s) (hNot : ¬ Booting s) : s.boot = .ready := by
  by_contra hBoot
  exact hNot (h.booting hBoot)

/-- A call that is past its first piece runs in an initialized process. -/
theorem WriteAhead.ready_of_call (h : WriteAhead committed s) {c : Call} {rest : List Call}
    (hCalls : s.calls = c :: rest) (hStage : c.stage ≠ .queued) : s.boot = .ready := by
  refine h.ready fun hBooting => hStage ?_
  obtain ⟨operation, rfl⟩ := hBooting.calls c (by simp [hCalls])
  rfl

theorem WriteAhead.ready_of_write (h : WriteAhead committed s) {w : Write} {rest : List Write}
    (hWrites : s.writes = w :: rest) : s.boot = .ready := by
  refine h.ready fun hBooting => ?_
  simp [hBooting.writes] at hWrites

theorem task_lt {r : Rollouts} (h : Held r.core) {t : Task} (ht : t ∈ r.tasks) :
    t.id < r.nextTask := by
  by_contra hNot
  have hNone := find?_eq_none.mp (h.fresh t.id (Nat.le_of_not_lt hNot)) t ht
  simp at hNone

/-- The rollouts make a step that sends nothing uncovered. -/
theorem WriteAhead.withRollouts (h : WriteAhead committed s) {r : Rollouts}
    (hKeeps : s.rollouts.Keeps r)
    (hSent : ∀ ref uid image, .ota ref uid image ∈ r.trace → .ota ref uid image ∈ s.rollouts.trace ∨
      ∃ saved ∈ committed, ∃ id, r.name? ref = some (id, uid) ∧ Shows saved (some (id, uid)))
    (hBooting : s.boot ≠ .ready → r.active = none ∧ r.tasks = []) :
    WriteAhead committed (s.withRollouts r) := by
  have hNew : ∀ w ∈ (s.withRollouts r).writes, w ∈ s.writes ∨
      ∃ t ∈ r.tasks, w = ⟨.task t.id, none, none⟩ := by
    intro w hw
    rcases mem_append.mp hw with hw | hw
    · exact Or.inl hw
    · obtain ⟨t, ht, rfl⟩ := mem_map.mp hw
      exact Or.inr ⟨t, (mem_filter.mp ht).1, rfl⟩
  have hCovered : ∀ id ref, id < s.rollouts.nextTask → r.core.request? id = some ref →
      r.core.Sendable ref → s.rollouts.core.request? id = some ref ∧
        s.rollouts.core.Sendable ref ∧ r.name? ref = s.rollouts.name? ref := by
    intro id ref hId hRequest hSendable
    have hOld := hKeeps.request id ref hId hRequest
    have hMem := Rollouts.mem_requests hOld
    obtain ⟨g, hg, _⟩ := h.held.requests ref hMem
    exact ⟨hOld, hKeeps.sendable ref hMem hSendable, hKeeps.name ref (Rollouts.view_lt_of_state hg)⟩
  refine ⟨hKeeps.held, fun hBoot => ?_, h.last, ?_, ?_, ?_, ?_, ?_, ?_⟩
  · obtain ⟨hActive, hTasks⟩ := hBooting hBoot
    have hOld := h.booting hBoot
    exact ⟨hActive, hTasks, by simp [Service.withRollouts, hTasks, hOld.writes], hOld.calls⟩
  · intro w hw saved hSaving hDone
    rcases hNew w hw with hw | ⟨t, _, rfl⟩
    · exact h.executed w hw saved hSaving hDone
    · cases hSaving
  · intro w hw id hOwner
    rcases hNew w hw with hw | ⟨t, ht, rfl⟩
    · exact Nat.lt_of_lt_of_le (h.known w hw id hOwner) hKeeps.nextTask
    · obtain rfl : t.id = id := by simpa using hOwner
      exact task_lt hKeeps.held ht
  · exact fun id ok hMem => Nat.lt_of_lt_of_le (h.knownSettled id ok hMem) hKeeps.nextTask
  · intro w hw id ref saved hOwner hSaving hRequest hSendable
    rcases hNew w hw with hw | ⟨t, _, rfl⟩
    · obtain ⟨hOld, hSendable', hName⟩ :=
        hCovered id ref (h.known w hw id hOwner) hRequest hSendable
      exact hName ▸ h.saving w hw id ref saved hOwner hSaving hOld hSendable'
    · cases hSaving
  · intro id ref hMem hRequest hSendable
    obtain ⟨hOld, hSendable', hName⟩ :=
      hCovered id ref (h.knownSettled id true hMem) hRequest hSendable
    exact hName ▸ h.settled id ref hMem hOld hSendable'
  · intro ref uid image hMem
    rcases hSent ref uid image hMem with hOld | hCommitted
    · obtain ⟨saved, hSaved, id, hName, hShows⟩ := h.sent ref uid image hOld
      exact ⟨saved, hSaved, id, (hKeeps.name ref (Rollouts.view_lt_of_name hName)).trans hName, hShows⟩
    · exact hCommitted

/-- Every event of the rollouts but the success of `beforeDispatch`. -/
theorem WriteAhead.step (h : WriteAhead committed s) (cfg : ServiceConfig) (e : Event)
    (hQuiet : ¬ Rollouts.MayDispatch cfg.rollouts e)
    (hBooting : s.boot ≠ .ready → ∀ env buildId target startedBy deferDispatch,
      e ≠ .start env buildId target startedBy deferDispatch) :
    WriteAhead committed (s.withRollouts (step cfg.rollouts s.rollouts e)) := by
  have hSteps := coreSteps_step cfg.rollouts s.rollouts e
  refine h.withRollouts (Rollouts.keeps_coreSteps h.held hSteps)
    (fun ref uid image hMem => Or.inl (ota_coreSteps hQuiet hSteps hMem)) fun hBoot => ?_
  have hOld := h.booting hBoot
  rw [Rollouts.step_of_rest hOld.active hOld.tasks (hBooting hBoot)]
  exact ⟨hOld.active, hOld.tasks⟩

theorem WriteAhead.restoreSnapshot (h : WriteAhead committed s) (hReady : s.boot = .ready)
    (snapshot : Snapshot) :
    WriteAhead committed (s.withRollouts (restoreSnapshot s.rollouts snapshot)) :=
  h.withRollouts (Rollouts.keeps_restore h.held _ _) (fun _ _ _ => Or.inl)
    fun hBoot => absurd hReady hBoot

theorem WriteAhead.endCall (h : WriteAhead committed s) {operation : Operation}
    {result : Except String Unit} : WriteAhead committed (s.endCall operation result) := by
  refine ⟨h.held, fun hBoot => ?_, h.last, h.executed, h.known, h.knownSettled, h.saving,
    h.settled, h.sent⟩
  have hOld := h.booting hBoot
  exact ⟨hOld.active, hOld.tasks, hOld.writes, fun c hc => hOld.calls c (mem_of_mem_tail hc)⟩

theorem WriteAhead.setCall (h : WriteAhead committed s) (hReady : s.boot = .ready) {c : Call} :
    WriteAhead committed (s.setCall c) :=
  ⟨h.held, fun hBoot => absurd hReady hBoot, h.last, h.executed, h.known, h.knownSettled,
    h.saving, h.settled, h.sent⟩

theorem WriteAhead.persist (h : WriteAhead committed s) (hReady : s.boot = .ready) :
    WriteAhead committed s.persist := by
  have hNew : ∀ w ∈ s.persist.writes, w ∈ s.writes ∨ w = ⟨.call, none, none⟩ := by
    intro w hw
    simpa using mem_append.mp hw
  refine ⟨h.held, fun hBoot => absurd hReady hBoot, h.last, ?_, ?_, h.knownSettled, ?_,
    h.settled, h.sent⟩
  · intro w hw saved hSaving hDone
    rcases hNew w hw with hw | rfl
    · exact h.executed w hw saved hSaving hDone
    · cases hSaving
  · intro w hw id hOwner
    rcases hNew w hw with hw | rfl
    · exact h.known w hw id hOwner
    · cases hOwner
  · intro w hw id ref saved hOwner hSaving
    rcases hNew w hw with hw | rfl
    · exact h.saving w hw id ref saved hOwner hSaving
    · cases hOwner

/-! ## Calls -/

theorem WriteAhead.tickCall (h : WriteAhead committed s) {operation : Operation} :
    WriteAhead committed (s.tickCall cfg env operation) :=
  (h.step cfg (.tick env) (by simp [Rollouts.MayDispatch, ServiceConfig.rollouts])
    (by simp)).endCall

theorem WriteAhead.runCall (h : WriteAhead committed s) :
    WriteAhead committed (s.runCall cfg env) := by
  unfold Service.runCall
  split
  · rename_i operation previous created rest hCalls
    split
    · rename_i hBoot
      dsimp only
      split
      · rename_i buildId target actor
        split
        · exact (h.restoreSnapshot hBoot _).endCall
        · rename_i rollouts view hStart
          have hStep := h.step cfg (.start env buildId target actor true)
            (by simp [Rollouts.MayDispatch, ServiceConfig.rollouts])
            fun hNot => absurd hBoot hNot
          rw [TMEdge.Rollout.step, hStart] at hStep
          exact (hStep.setCall hBoot).persist hBoot
      · rename_i actor
        have hStep := h.step cfg (.cancel env actor)
          (by simp [Rollouts.MayDispatch, ServiceConfig.rollouts]) (by simp)
        exact (hStep.setCall hBoot).persist hBoot
      · exact (h.setCall hBoot).persist hBoot
    · exact h.endCall
  · exact h

theorem WriteAhead.resumeCall (h : WriteAhead committed s) :
    WriteAhead committed (s.resumeCall cfg env ok) := by
  unfold Service.resumeCall
  split
  · rename_i operation previous created rest hCalls
    have hReady := h.ready_of_call hCalls (by simp)
    split
    · exact h.tickCall
    · exact h.endCall
    · exact h.tickCall
    · exact h.endCall
    · exact h.setCall hReady
  · exact h

theorem WriteAhead.readBack (h : WriteAhead committed s) {t : Tables} :
    WriteAhead committed (s.readBack cfg t ok) := by
  unfold Service.readBack
  split
  · rename_i operation previous created rest hCalls
    exact h.setCall (h.ready_of_call hCalls (by simp))
  · exact h

/-- The running call takes its failed save for committed while a rollout runs whose present
state no save has committed. -/
def Service.ConfirmsUnsaved (s : Service) (committed : List Saved) : Prop :=
  ∃ c rest records, s.calls = c :: rest ∧ c.stage = .answered records ∧
    s.confirmed c records = true ∧ Running s.rollouts.saved ∧ s.rollouts.saved ∉ committed

theorem WriteAhead.answerCall (h : WriteAhead committed s)
    (hSaved : ¬ s.ConfirmsUnsaved committed) : WriteAhead committed (s.answerCall cfg env) := by
  unfold Service.answerCall
  split
  · rename_i operation records previous created rest hCalls
    have hReady := h.ready_of_call hCalls (by simp)
    dsimp only
    split
    · rename_i hConfirmed
      have hLast : WriteAhead committed { s with lastPersisted := some s.rollouts.saved } := by
        refine ⟨h.held, fun hBoot => absurd hReady hBoot, ?_, h.executed, h.known,
          h.knownSettled, h.saving, h.settled, h.sent⟩
        rintro saved hEq hRunning
        obtain rfl := Option.some.inj hEq
        by_contra hNot
        exact hSaved ⟨_, rest, records, hCalls, rfl, hConfirmed, hRunning, hNot⟩
      split
      · exact hLast.tickCall
      · exact hLast.endCall
    · split
      · exact (h.restoreSnapshot hReady _).endCall
      · exact (h.restoreSnapshot hReady _).endCall
  · exact h

/-! ## Writes -/

theorem WriteAhead.settle (h : WriteAhead committed s) {w : Write} {rest : List Write} {ok : Bool}
    (hWrites : s.writes = w :: rest)
    (hOk : ok = true → ∀ id ref, w.owner = .task id → s.rollouts.core.request? id = some ref →
      s.rollouts.core.Sendable ref → ∃ saved ∈ committed, Shows saved (s.rollouts.name? ref)) :
    WriteAhead committed (s.settle w.owner ok) := by
  have hReady := h.ready_of_write hWrites
  have hTail : ∀ w' ∈ s.writes.tail, w' ∈ s.writes := fun _ => mem_of_mem_tail
  refine ⟨h.held, fun hBoot => absurd hReady hBoot, h.last, fun w' hw => h.executed w' (hTail w' hw),
    fun w' hw => h.known w' (hTail w' hw), ?_, fun w' hw => h.saving w' (hTail w' hw), ?_, h.sent⟩
  · intro id ok' hMem
    rcases mem_append.mp hMem with hMem | hMem
    · exact h.knownSettled id ok' hMem
    · have hOwner : w.owner = .task id := (Prod.ext_iff.mp (mem_singleton.mp hMem)).1.symm
      exact h.known w (by simp [hWrites]) id hOwner
  · intro id ref hMem
    rcases mem_append.mp hMem with hMem | hMem
    · exact h.settled id ref hMem
    · obtain ⟨hOwner, rfl⟩ := Prod.ext_iff.mp (mem_singleton.mp hMem)
      exact hOk rfl id ref hOwner.symm

theorem WriteAhead.runWrite (h : WriteAhead committed s) : WriteAhead committed s.runWrite := by
  unfold Service.runWrite
  split
  · rename_i owner executed rest hWrites
    split
    · -- the text is the one last saved, which a save has committed
      rename_i hLast
      refine h.settle hWrites fun _ id ref _ _ hSendable => ?_
      have hShows := Rollouts.shows_saved hSendable
      exact ⟨_, h.last _ hLast hShows.running, hShows⟩
    · have hReady := h.ready_of_write hWrites
      refine ⟨h.held, fun hBoot => absurd hReady hBoot, h.last, ?_, ?_, h.knownSettled, ?_,
        h.settled, h.sent⟩
      · intro w hw saved hSaving hDone
        rcases mem_cons.mp hw with rfl | hw
        · cases hDone
        · exact h.executed w (hWrites ▸ mem_cons_of_mem _ hw) saved hSaving hDone
      · intro w hw id hOwner
        rcases mem_cons.mp hw with rfl | hw
        · exact h.known ⟨owner, none, executed⟩ (by simp [hWrites]) id hOwner
        · exact h.known w (hWrites ▸ mem_cons_of_mem _ hw) id hOwner
      · intro w hw id ref saved hOwner hSaving hRequest hSendable
        rcases mem_cons.mp hw with rfl | hw
        · obtain rfl := Option.some.inj hSaving
          exact Rollouts.shows_saved hSendable
        · exact h.saving w (hWrites ▸ mem_cons_of_mem _ hw) id ref saved hOwner hSaving
            hRequest hSendable
  · exact h

theorem WriteAhead.settleWrite (h : WriteAhead committed s) :
    WriteAhead committed (s.settleWrite ok) := by
  unfold Service.settleWrite
  split
  · rename_i owner saved executed rest hWrites
    have hHead : ⟨owner, some saved, executed⟩ ∈ s.writes := by simp [hWrites]
    split
    · rename_i hDone
      obtain ⟨_, hExecuted⟩ : ok = true ∧ executed = some true := by simpa using hDone
      have hCommitted := h.executed _ hHead saved rfl hExecuted
      have hLast : WriteAhead committed { s with lastPersisted := some saved } := by
        refine ⟨h.held, fun hBoot => absurd (h.ready_of_write hWrites) hBoot, ?_, h.executed,
          h.known, h.knownSettled, h.saving, h.settled, h.sent⟩
        rintro saved' hEq _
        obtain rfl := Option.some.inj hEq
        exact hCommitted
      refine hLast.settle hWrites fun _ id ref hOwner hRequest hSendable => ?_
      exact ⟨saved, hCommitted, h.saving _ hHead id ref saved hOwner rfl hRequest hSendable⟩
    · exact h.settle hWrites (by simp)
  · exact h

theorem WriteAhead.resume (h : WriteAhead committed s) {owner : Owner} :
    WriteAhead committed (s.resume cfg env owner) := by
  unfold Service.resume
  split
  · exact h
  · rename_i p hFind
    have hMem := mem_of_find?_eq_some hFind
    have hOwner : p.1 = owner := by simpa using find?_some hFind
    have hSub : ∀ q ∈ s.settled.eraseP fun p => p.1 = owner, q ∈ s.settled :=
      fun _ => mem_of_mem_eraseP
    have hErased : WriteAhead committed
        { s with settled := s.settled.eraseP fun p => p.1 = owner } :=
      ⟨h.held, fun hBoot => (fun hOld => ⟨hOld.active, hOld.tasks, hOld.writes, hOld.calls⟩)
        (h.booting hBoot), h.last, h.executed, h.known,
        fun id ok hq => h.knownSettled id ok (hSub _ hq), h.saving,
        fun id ref hq => h.settled id ref (hSub _ hq), h.sent⟩
    dsimp only
    split
    · exact hErased.resumeCall
    · rename_i id
      obtain ⟨owner, ok⟩ := p
      obtain rfl : owner = .task id := hOwner
      cases ok with
      | false =>
        exact hErased.step cfg (.resumeHook env id false)
          (by simp [Rollouts.MayDispatch, ServiceConfig.rollouts]) (by simp)
      | true =>
        have hSteps := coreSteps_step cfg.rollouts s.rollouts (.resumeHook env id true)
        have hKeeps := Rollouts.keeps_coreSteps h.held hSteps
        refine hErased.withRollouts hKeeps (fun ref uid image hSent => ?_) fun hBoot => ?_
        · rcases Rollouts.ota_resumeHook hSent with hOld | ⟨hRequest, hSendable, v, hName⟩
          · exact Or.inl hOld
          · obtain ⟨saved, hSaved, hShows⟩ := h.settled id ref hMem hRequest hSendable
            refine Or.inr ⟨saved, hSaved, v, ?_, hName ▸ hShows⟩
            rw [← hName]
            exact hKeeps.name ref (Rollouts.view_lt_of_name hName)
        · have hOld := h.booting hBoot
          have hSame : s.rollouts.resumeHook cfg.rollouts env id true = s.rollouts :=
            Rollouts.resumeHook_of_nil hOld.tasks
          rw [hSame]
          exact ⟨hOld.active, hOld.tasks⟩

end service

/-! ## Runs -/

/-- `restoreSaved` finds no rollout that runs. -/
structure System.WriteAhead (s : System) : Prop where
  service : TMEdge.Rollout.WriteAhead s.committed s.service
  recovered : ∀ interrupted, s.service.boot = .reading interrupted → s.tables.AllEnded

/-- `start` or `cancel` takes a failed save for committed while a rollout runs whose present
state no save has committed. -/
def System.ConfirmsUnsaved (s : System) : ServiceEvent → Prop
  | .answerCall _ => s.service.ConfirmsUnsaved s.committed
  | _ => False

section system

variable {s : System} {cfg : ServiceConfig}

theorem System.WriteAhead.setService (h : s.WriteAhead) {service : Service}
    (hService : TMEdge.Rollout.WriteAhead s.committed service)
    (hBoot : service.boot = s.service.boot) : WriteAhead { s with service := service } :=
  ⟨hService, fun interrupted hReading => h.recovered interrupted (hBoot ▸ hReading)⟩

theorem WriteAhead.setBoot {service : Service} {committed : List Saved}
    (h : WriteAhead committed service) (hNotReady : service.boot ≠ .ready) (boot : Boot) :
    WriteAhead committed { service with boot := boot } := by
  obtain ⟨hActive, hTasks, hWrites, hCalls⟩ := h.booting hNotReady
  exact ⟨h.held, fun _ => ⟨hActive, hTasks, hWrites, hCalls⟩, h.last, h.executed, h.known,
    h.knownSettled, h.saving, h.settled, h.sent⟩

theorem System.WriteAhead.interrupt (h : s.WriteAhead) {now : Nat} {ok : Bool} :
    (s.interrupt cfg now ok).WriteAhead := by
  unfold System.interrupt
  split
  · rename_i hBoot
    have hNotReady : s.service.boot ≠ .ready := by simp [hBoot]
    split
    · exact ⟨h.service.setBoot hNotReady .idle, by simp⟩
    · rename_i tables interrupted hInterrupt
      exact ⟨h.service.setBoot hNotReady _, fun _ _ => (Tables.interruptActive_ended hInterrupt).1⟩
  · exact h

theorem System.WriteAhead.restoreSaved (h : s.WriteAhead) {ok : Bool} :
    (s.restoreSaved cfg ok).WriteAhead := by
  unfold System.restoreSaved
  split
  · rename_i interrupted hBoot
    have hNotReady : s.service.boot ≠ .ready := by simp [hBoot]
    split
    · rw [Tables.current_eq_none (h.recovered interrupted hBoot)]
      have hRestored := h.service.withRollouts
        (Rollouts.keeps_restore h.service.held none
          (System.restoredRecords interrupted (s.tables.history cfg.collate)).reverse)
        (fun _ _ _ => Or.inl) fun hNot => ⟨rfl, (h.service.booting hNot).tasks⟩
      refine ⟨⟨hRestored.held, fun hNot => absurd rfl hNot, ?_, hRestored.executed,
        hRestored.known, hRestored.knownSettled, hRestored.saving, hRestored.settled,
        hRestored.sent⟩, by simp⟩
      rintro saved hEq ⟨v, hv, _⟩
      obtain rfl := Option.some.inj hEq
      cases hv
    · exact ⟨h.service.setBoot hNotReady .idle, by simp⟩
  · exact h

theorem System.WriteAhead.executeWrite (h : s.WriteAhead) : s.executeWrite.WriteAhead := by
  unfold System.executeWrite
  split
  · rename_i owner saved rest hWrites
    have hReady := h.service.ready_of_write hWrites
    have hHead : ⟨owner, some saved, none⟩ ∈ s.service.writes := by simp [hWrites]
    have hExecuted : ∀ committed executed, s.committed ⊆ committed →
        (executed = some true → saved ∈ committed) → TMEdge.Rollout.WriteAhead committed
          { s.service with writes := ⟨owner, some saved, executed⟩ :: rest } := by
      intro committed executed hSub hSaved
      have hOld := h.service.mono hSub
      refine ⟨hOld.held, fun hBoot => absurd hReady hBoot, hOld.last, ?_, ?_, hOld.knownSettled,
        ?_, hOld.settled, hOld.sent⟩
      · intro w hw saved' hSaving hDone
        rcases mem_cons.mp hw with rfl | hw
        · exact Option.some.inj hSaving ▸ hSaved hDone
        · exact hOld.executed w (hWrites ▸ mem_cons_of_mem _ hw) saved' hSaving hDone
      · intro w hw id hOwner
        rcases mem_cons.mp hw with rfl | hw
        · exact hOld.known _ hHead id hOwner
        · exact hOld.known w (hWrites ▸ mem_cons_of_mem _ hw) id hOwner
      · intro w hw id ref saved' hOwner hSaving
        rcases mem_cons.mp hw with rfl | hw
        · exact hOld.saving _ hHead id ref saved' hOwner hSaving
        · exact hOld.saving w (hWrites ▸ mem_cons_of_mem _ hw) id ref saved' hOwner hSaving
    split
    · exact ⟨hExecuted _ _ (subset_append_left _ _) (by simp), by simp [hReady]⟩
    · exact ⟨hExecuted _ _ (List.Subset.refl _) (by simp), by simp [hReady]⟩
  · exact h

theorem System.WriteAhead.withEvent (h : s.WriteAhead) (cfg : ServiceConfig) (e : Event)
    (hQuiet : ¬ Rollouts.MayDispatch cfg.rollouts e)
    (hStart : ∀ env buildId target startedBy deferDispatch,
      e ≠ .start env buildId target startedBy deferDispatch) :
    (s.withRollouts (TMEdge.Rollout.step cfg.rollouts s.service.rollouts e)).WriteAhead :=
  h.setService (h.service.step cfg e hQuiet fun _ => hStart) rfl

theorem System.WriteAhead.step (h : s.WriteAhead) {e : ServiceEvent}
    (he : ¬ s.ConfirmsUnsaved e) : (s.step cfg e).WriteAhead := by
  cases e with
  | init =>
    simp only [System.step]
    split
    · rename_i hBoot
      exact ⟨h.service.setBoot (by simp [hBoot]) .interrupting, by simp⟩
    · exact h
  | interrupt now ok => exact h.interrupt
  | restoreSaved ok => exact h.restoreSaved
  | call operation =>
    refine h.setService ⟨h.service.held, fun hBoot => ?_, h.service.last, h.service.executed,
      h.service.known, h.service.knownSettled, h.service.saving, h.service.settled,
      h.service.sent⟩ rfl
    obtain ⟨hActive, hTasks, hWrites, hCalls⟩ := h.service.booting hBoot
    refine ⟨hActive, hTasks, hWrites, fun c hc => ?_⟩
    rcases mem_append.mp hc with hc | hc
    · exact hCalls c hc
    · exact ⟨operation, mem_singleton.mp hc⟩
  | runCall env => exact h.setService h.service.runCall boot_runCall
  | runWrite => exact h.setService h.service.runWrite boot_runWrite
  | executeWrite => exact h.executeWrite
  | settleWrite ok => exact h.setService h.service.settleWrite boot_settleWrite
  | resume env owner => exact h.setService h.service.resume boot_resume
  | readBack ok => exact h.setService h.service.readBack boot_readBack
  | answerCall env => exact h.setService (h.service.answerCall he) boot_answerCall
  | onImageReady env gatewayId result =>
    exact h.withEvent cfg (.onImageReady env gatewayId result)
      (by simp [Rollouts.MayDispatch, ServiceConfig.rollouts]) (by simp)
  | onOtaStatus env uid status =>
    exact h.withEvent cfg (.onOtaStatus env uid status)
      (by simp [Rollouts.MayDispatch, ServiceConfig.rollouts]) (by simp)
  | otaSettled env task error =>
    exact h.withEvent cfg (.otaSettled env task error)
      (by simp [Rollouts.MayDispatch, ServiceConfig.rollouts]) (by simp)
  | unlaunch task =>
    exact h.withEvent cfg (.unlaunch task)
      (by simp [Rollouts.MayDispatch, ServiceConfig.rollouts]) (by simp)
  | crash => exact ⟨writeAhead_new, by simp [System.step, Service.new]⟩

end system

/-- Only the execution of a save commits, and it leaves the process alone. -/
theorem committed_or_rollouts (cfg : ServiceConfig) (s : System) (e : ServiceEvent) :
    (s.step cfg e).committed = s.committed ∨
      (s.step cfg e).service.rollouts = s.service.rollouts := by
  cases e with
  | executeWrite =>
    right
    simp only [System.step, System.executeWrite]
    split
    · split <;> rfl
    · rfl
  | init =>
    left
    simp only [System.step]
    split <;> rfl
  | interrupt now ok =>
    left
    simp only [System.step, System.interrupt]
    split
    · split <;> rfl
    · rfl
  | restoreSaved ok =>
    left
    simp only [System.step, System.restoreSaved]
    split
    · split <;> rfl
    · rfl
  | _ => exact Or.inl rfl

/-- A failed save of a running rollout whose present state was not committed is never taken
for committed. -/
def SavesConfirmed (cfg : ServiceConfig) : List ServiceEvent → Prop :=
  Guarded (System.step cfg) (fun s e => ¬ s.ConfirmsUnsaved e) .new

theorem writeAhead_of_run {cfg : ServiceConfig} {es : List ServiceEvent}
    (h : SavesConfirmed cfg es) : (run (System.step cfg) .new es).WriteAhead :=
  run_invariant_guarded System.WriteAhead (fun _ _ h he => h.step he)
    ⟨writeAhead_new, by simp [System.new, Service.new]⟩ h

/-- Every OTA is preceded by a committed snapshot whose current record is its rollout, not
ended, with its node in state `sending`. -/
theorem sent_after_commit (cfg : ServiceConfig) (es : List ServiceEvent) (e : ServiceEvent)
    (hes : SavesConfirmed cfg (es ++ [e])) (ref : NodeRef) (uid : String) (image : OtaImage)
    (hSent : .ota ref uid image ∈
      (run (System.step cfg) .new (es ++ [e])).service.rollouts.trace) :
    ∃ saved ∈ (run (System.step cfg) .new es).committed, ∃ id,
      (run (System.step cfg) .new (es ++ [e])).service.rollouts.name? ref = some (id, uid) ∧
        Shows saved (some (id, uid)) := by
  have hAfter := (writeAhead_of_run hes).service.sent ref uid image hSent
  have hBefore := (writeAhead_of_run (guarded_append.mp hes).1).service.sent ref uid image
  rw [run_concat] at hSent hAfter ⊢
  rcases committed_or_rollouts cfg (run (System.step cfg) .new es) e with hSame | hSame
  · rwa [hSame] at hAfter
  · rw [hSame] at hSent ⊢
    exact hBefore hSent

theorem sent_after_commit_started :
    ∃ saved ∈ (run (System.step exampleServiceConfig) .new crashedRun).committed, ∃ id,
      (run (System.step exampleServiceConfig) .new
        (crashedRun ++ [.unlaunch 0])).service.rollouts.name? ⟨0, 0⟩ = some (id, "a") ∧
          Shows saved (some (id, "a")) := by
  refine sent_after_commit exampleServiceConfig crashedRun (.unlaunch 0) ?_ ⟨0, 0⟩ "a"
    ⟨443, 0, "", "/fw/0123456789abcdef.bin"⟩ (by decide +kernel)
  refine guarded_of_forall_split fun pre e post hEq => ?_
  have hMem : e ∈ crashedRun ++ [.unlaunch 0] := by simp [hEq]
  fin_cases hMem <;> exact id

/-- A gateway that was sent the same build for an earlier rollout reports it. -/
def lateImage (gatewayId : String) : ServiceEvent :=
  .onImageReady (exampleEnv 1000) gatewayId ⟨"0123456789abcdef", true, none, 8080⟩

/-- The save of `start` is committed but reported as failed. While the repository is read,
a gateway's result makes the pilot `sending`; its own save fails after `start` has taken
over the text of that state, and a second result makes the pilot `sending` again. -/
def unsavedRun : List ServiceEvent :=
  [.init, .interrupt 500 true, .restoreSaved true,
    .call (.start "0123456789abcdef" .all "op"), .runCall (exampleEnv 1000),
    .runWrite, .executeWrite, .settleWrite false, .resume (exampleEnv 1000) .call,
    lateImage "g", .runWrite, .readBack true, .answerCall (exampleEnv 1000), .settleWrite false,
    .resume (exampleEnv 1000) (.task 0), .unlaunch 0, lateImage "h", .runWrite]

theorem sent_before_commit :
    ¬ ∀ (cfg : ServiceConfig) (es : List ServiceEvent) (e : ServiceEvent) (ref : NodeRef)
      (uid : String) (image : OtaImage),
      .ota ref uid image ∈ (run (System.step cfg) .new (es ++ [e])).service.rollouts.trace →
        ∃ saved ∈ (run (System.step cfg) .new es).committed, ∃ id,
          (run (System.step cfg) .new (es ++ [e])).service.rollouts.name? ref = some (id, uid) ∧
            Shows saved (some (id, uid)) := by
  intro h
  obtain ⟨saved, hSaved, id, _, v, hv, _, n, hn, hSending, _⟩ := h exampleServiceConfig unsavedRun
    (.resume (exampleEnv 1000) (.task 1)) ⟨0, 0⟩ "a" ⟨443, 0, "", "/fw/0123456789abcdef.bin"⟩
    (by decide +kernel)
  have hQueued : (run (System.step exampleServiceConfig) .new unsavedRun).committed.all fun saved =>
      saved.1.all fun v => v.nodes.all fun n => decide (n.state = .queued) := by decide +kernel
  have hNodes := List.all_eq_true.mp hQueued saved hSaved
  rw [Option.mem_def.mp hv, Option.all_some, List.all_eq_true] at hNodes
  have hState : n.state = .queued := by simpa using hNodes n hn
  rw [hState] at hSending
  cases hSending

end TMEdge.Rollout
