import TMEdge.Rollout.Safety
import TMEdge.Rollout.Durable

/-!
# A restart never resumes a rollout

`AtRest` holds of a new process from its creation to its first `start`: it has no active
rollout and no suspended call, it has dispatched nothing, and once `interruptActive` was
executed no row of the tables is in `pilot` or `rest`. `restart_never_resumes` states it
for every run, crash and restart; `initialize_resolves` says that `initialize` succeeds
when the database answers and the clock is not behind the start of the interrupted rollout.
-/

namespace TMEdge.Rollout

open Library Protocol List

/-! ## Rollouts without an active one -/

namespace Rollouts

variable {s : Rollouts} {cfg : Config} {env : Env} {id : Nat}

theorem tick_of_none (h : s.active = none) : s.tick cfg env = s := by
  simp [tick, h]

theorem cancel_of_none (h : s.active = none) {cancelledBy : String} :
    s.cancel env cancelledBy = s := by
  simp [cancel, h]

theorem onImageReady_of_none (h : s.active = none) {gatewayId : String} {result : ImageResult} :
    s.onImageReady cfg env gatewayId result = s := by
  simp [onImageReady, takeImageResult, h]

theorem onOtaStatus_of_none (h : s.active = none) {uid : String} {status : OtaStatus} :
    s.onOtaStatus cfg env uid status = s := by
  simp [onOtaStatus, takeOtaStatus, h]

theorem task?_of_nil (h : s.tasks = []) : s.task? id = none := by
  simp [task?, h]

theorem resumeHook_of_nil (h : s.tasks = []) {ok : Bool} : s.resumeHook cfg env id ok = s := by
  simp [resumeHook, task?_of_nil h]

theorem otaSettled_of_nil (h : s.tasks = []) {error : Option String} :
    s.otaSettled cfg env id error = s := by
  simp [otaSettled, task?_of_nil h]

theorem unlaunch_of_nil (h : s.tasks = []) : s.unlaunch id = s := by
  simp [unlaunch, task?_of_nil h]

theorem mem_history_restore {current : Option RolloutView} {history : List RolloutView}
    {r : RolloutView} (h : r ∈ (s.restore current history).history) : r ∈ history := by
  obtain ⟨v, hv, hr⟩ := mem_filterMap.mp h
  obtain ⟨i, hi, rfl⟩ := mem_map.mp (mem_reverse.mp hv)
  have hi' : i < (history.drop (history.length - 20)).length := mem_range.mp hi
  have hView : (s.restore current history).views[s.views.length + i]? =
      (history.drop (history.length - 20))[i]? := by
    simp only [restore]
    rw [append_assoc, getElem?_append_right (Nat.le_add_right _ _),
      Nat.add_sub_cancel_left, getElem?_append_left hi']
  rw [hView] at hr
  exact mem_of_mem_drop (mem_of_getElem? hr)

end Rollouts

/-! ## The process at rest -/

def Ended (rs : List RolloutView) : Prop := ∀ r ∈ rs, r.stage.ended = true

/-- A call that starts nothing and would restore nothing that runs. -/
structure Call.Harmless (c : Call) : Prop where
  operation : ∀ buildId target actor, c.operation ≠ .start buildId target actor
  current : c.previous.current = none
  history : Ended c.previous.history

/-- The rollouts of a process that has started nothing. -/
structure RolloutsAtRest (s : Rollouts) : Prop where
  active : s.active = none
  tasks : s.tasks = []
  trace : s.trace = []
  history : Ended s.history

structure ServiceAtRest (s : Service) : Prop where
  rollouts : RolloutsAtRest s.rollouts
  calls : ∀ c ∈ s.calls, c.Harmless
  saving : ∀ w ∈ s.writes, ∀ saved ∈ w.saving, saved.1 = none ∧ Ended saved.2
  writes : s.boot ≠ .ready → s.writes = []

/-- What has been recovered, by how far `initialize` has come. -/
def Recovered (t : Tables) : Boot → Prop
  | .reading interrupted => t.AllEnded ∧ ∀ r ∈ interrupted, r.stage.ended = true
  | .ready => t.AllEnded
  | _ => True

structure AtRest (s : System) : Prop where
  service : ServiceAtRest s.service
  recovered : Recovered s.tables s.service.boot

section service

variable {s : Service} {cfg : ServiceConfig} {env : Env} {r : Rollouts} {ok : Bool} {owner : Owner}

theorem RolloutsAtRest.restore (h : RolloutsAtRest r) {history : List RolloutView}
    (hHistory : Ended history) : RolloutsAtRest (r.restore none history) where
  active := rfl
  tasks := h.tasks
  trace := h.trace
  history := fun _ hr => hHistory _ (Rollouts.mem_history_restore hr)

theorem harmless_snapshot (h : RolloutsAtRest r) :
    (viewSnapshot r).current = none ∧ Ended (viewSnapshot r).history := by
  refine ⟨by simp [viewSnapshot, Rollouts.current, h.active], fun v hv => h.history v ?_⟩
  simpa [viewSnapshot] using hv

theorem saved_atRest (h : RolloutsAtRest r) : r.saved.1 = none ∧ Ended r.saved.2 :=
  ⟨by simp [Rollouts.saved, Rollouts.current, h.active], h.history⟩

theorem ServiceAtRest.withRollouts (h : ServiceAtRest s) (hr : RolloutsAtRest r) :
    ServiceAtRest (s.withRollouts r) := by
  have hWrites : (s.withRollouts r).writes = s.writes := by
    simp [Service.withRollouts, hr.tasks]
  refine ⟨hr, h.calls, ?_, ?_⟩
  · rw [hWrites]
    exact h.saving
  · rw [hWrites]
    exact h.writes

theorem ServiceAtRest.endCall (h : ServiceAtRest s) {operation : Operation}
    {result : Except String Unit} : ServiceAtRest (s.endCall operation result) :=
  ⟨h.rollouts, fun c hc => h.calls c (mem_of_mem_tail hc), h.saving, h.writes⟩

theorem ServiceAtRest.setCall (h : ServiceAtRest s) {c : Call} (hc : c.Harmless) :
    ServiceAtRest (s.setCall c) := by
  refine ⟨h.rollouts, fun c' hc' => ?_, h.saving, h.writes⟩
  rcases mem_cons.mp hc' with rfl | hc'
  · exact hc
  · exact h.calls c' (mem_of_mem_tail hc')

theorem ServiceAtRest.persist (h : ServiceAtRest s) (hBoot : s.boot = .ready) :
    ServiceAtRest s.persist := by
  refine ⟨h.rollouts, h.calls, fun w hw => ?_, fun hNot => absurd hBoot hNot⟩
  rcases mem_append.mp hw with hw | hw
  · exact h.saving w hw
  · rw [mem_singleton.mp hw]
    simp

theorem ServiceAtRest.tickCall (h : ServiceAtRest s) {operation : Operation} :
    ServiceAtRest (s.tickCall cfg env operation) := by
  unfold Service.tickCall
  rw [Rollouts.tick_of_none h.rollouts.active]
  exact (h.withRollouts h.rollouts).endCall

theorem ServiceAtRest.rollBack (h : ServiceAtRest s) {c : Call} (hc : c.Harmless)
    {error : String} : ServiceAtRest (s.rollBack c error) := by
  unfold Service.rollBack restoreSnapshot
  rw [hc.current]
  exact (h.withRollouts (h.rollouts.restore hc.history)).endCall

theorem boot_runCall : (s.runCall cfg env).boot = s.boot := by
  unfold Service.runCall
  split
  · split
    · dsimp only
      split
      · split <;> rfl
      · rfl
      · rfl
    · rfl
  · rfl

theorem boot_resumeCall : (s.resumeCall cfg env ok).boot = s.boot := by
  unfold Service.resumeCall
  split
  · split <;> rfl
  · rfl

theorem boot_readBack {t : Tables} : (s.readBack cfg t ok).boot = s.boot := by
  unfold Service.readBack
  split <;> rfl

theorem boot_answerCall : (s.answerCall cfg env).boot = s.boot := by
  unfold Service.answerCall
  split
  · dsimp only
    split
    · split <;> rfl
    · split <;> rfl
  · rfl

theorem boot_runWrite : s.runWrite.boot = s.boot := by
  unfold Service.runWrite
  split
  · split <;> rfl
  · rfl

theorem boot_settleWrite : (s.settleWrite ok).boot = s.boot := by
  unfold Service.settleWrite
  split
  · split <;> rfl
  · rfl

theorem boot_resume : (s.resume cfg env owner).boot = s.boot := by
  unfold Service.resume
  split
  · rfl
  · dsimp only
    split
    · exact boot_resumeCall
    · rfl

theorem ServiceAtRest.runCall (h : ServiceAtRest s) : ServiceAtRest (s.runCall cfg env) := by
  unfold Service.runCall
  split
  · rename_i operation previous created rest hCalls
    have hHead := h.calls _ (hCalls ▸ mem_cons_self)
    split
    · rename_i hBoot
      obtain ⟨hCurrent, hHistory⟩ := harmless_snapshot h.rollouts
      dsimp only
      split
      · exact absurd rfl (hHead.operation _ _ _)
      · rw [Rollouts.cancel_of_none h.rollouts.active]
        refine ServiceAtRest.persist ?_ hBoot
        exact (h.withRollouts h.rollouts).setCall ⟨by simp, hCurrent, hHistory⟩
      · have hCall : Call.Harmless ⟨.tick, .persisting, previous, created⟩ :=
          ⟨by simp, hHead.current, hHead.history⟩
        exact (h.setCall hCall).persist hBoot
    · exact h.endCall
  · exact h

theorem ServiceAtRest.resumeCall (h : ServiceAtRest s) :
    ServiceAtRest (s.resumeCall cfg env ok) := by
  unfold Service.resumeCall
  split
  · rename_i operation previous created rest hCalls
    have hHead := h.calls _ (hCalls ▸ mem_cons_self)
    split
    · exact h.tickCall
    · exact h.endCall
    · exact h.tickCall
    · exact h.endCall
    · exact h.setCall ⟨hHead.operation, hHead.current, hHead.history⟩
  · exact h

theorem ServiceAtRest.readBack (h : ServiceAtRest s) {t : Tables} :
    ServiceAtRest (s.readBack cfg t ok) := by
  unfold Service.readBack
  split
  · rename_i operation previous created rest hCalls
    have hHead := h.calls _ (hCalls ▸ mem_cons_self)
    exact h.setCall ⟨hHead.operation, hHead.current, hHead.history⟩
  · exact h

theorem ServiceAtRest.answerCall (h : ServiceAtRest s) : ServiceAtRest (s.answerCall cfg env) := by
  unfold Service.answerCall
  split
  · rename_i operation records previous created rest hCalls
    have hHead := h.calls _ (hCalls ▸ mem_cons_self)
    have hSaved : ServiceAtRest { s with lastPersisted := some s.rollouts.saved } :=
      ⟨h.rollouts, h.calls, h.saving, h.writes⟩
    dsimp only
    split
    · split
      · exact absurd rfl (hHead.operation _ _ _)
      · exact hSaved.endCall
    · split
      · exact absurd rfl (hHead.operation _ _ _)
      · exact h.rollBack hHead
  · exact h

theorem ServiceAtRest.settle (h : ServiceAtRest s) : ServiceAtRest (s.settle owner ok) := by
  refine ⟨h.rollouts, h.calls, fun w hw => h.saving w (mem_of_mem_tail hw), fun hBoot => ?_⟩
  change s.writes.tail = []
  rw [h.writes hBoot, tail_nil]

theorem ServiceAtRest.runWrite (h : ServiceAtRest s) : ServiceAtRest s.runWrite := by
  unfold Service.runWrite
  split
  · rename_i owner executed rest hWrites
    split
    · exact h.settle
    · refine ⟨h.rollouts, h.calls, fun w hw => ?_, fun hBoot => ?_⟩
      · rcases mem_cons.mp hw with rfl | hw
        · simpa using saved_atRest h.rollouts
        · exact h.saving w (hWrites ▸ mem_cons_of_mem _ hw)
      · exact absurd (h.writes hBoot) (by simp [hWrites])
  · exact h

theorem ServiceAtRest.settleWrite (h : ServiceAtRest s) : ServiceAtRest (s.settleWrite ok) := by
  unfold Service.settleWrite
  split
  · split
    · rename_i saved _ _ _ _
      have hSaved : ServiceAtRest { s with lastPersisted := some saved } :=
        ⟨h.rollouts, h.calls, h.saving, h.writes⟩
      exact hSaved.settle
    · exact h.settle
  · exact h

theorem ServiceAtRest.resume (h : ServiceAtRest s) : ServiceAtRest (s.resume cfg env owner) := by
  unfold Service.resume
  split
  · exact h
  · have hErased : ServiceAtRest { s with settled := s.settled.eraseP fun p => p.1 = owner } :=
      ⟨h.rollouts, h.calls, h.saving, h.writes⟩
    dsimp only
    split
    · exact hErased.resumeCall
    · rw [Rollouts.resumeHook_of_nil h.rollouts.tasks]
      exact hErased.withRollouts h.rollouts

end service

/-! ## Runs of the new process -/

/-- An event before the next `start`, in the same process. -/
def ServiceEvent.Resting : ServiceEvent → Prop
  | .call (.start _ _ _) => False
  | .crash => False
  | _ => True

theorem atRest_new (t : Tables) (committed : List Saved) : AtRest ⟨t, .new, committed⟩ := by
  refine ⟨⟨⟨rfl, rfl, rfl, ?_⟩, ?_, ?_, fun _ => rfl⟩, trivial⟩
  · intro r hr
    simp [Service.new, Rollouts.new, Rollouts.history] at hr
  · simp [Service.new]
  · simp [Service.new]

section system

variable {s : System} {cfg : ServiceConfig}

theorem AtRest.withRollouts (h : AtRest s) {r : Rollouts} (hr : RolloutsAtRest r) :
    AtRest (s.withRollouts r) :=
  ⟨h.service.withRollouts hr, h.recovered⟩

theorem AtRest.setBoot (h : AtRest s) {boot : Boot} {t : Tables} (hNotReady : s.service.boot ≠ .ready)
    (hRecovered : Recovered t boot) :
    AtRest { s with
      tables := t
      service := { s.service with boot := boot } } :=
  ⟨⟨h.service.rollouts, h.service.calls, h.service.saving, fun _ => h.service.writes hNotReady⟩,
    hRecovered⟩

theorem AtRest.interrupt (h : AtRest s) {now : Nat} {ok : Bool} :
    AtRest (s.interrupt cfg now ok) := by
  unfold System.interrupt
  split
  · rename_i hBoot
    have hNotReady : s.service.boot ≠ .ready := by simp [hBoot]
    split
    · exact h.setBoot (t := s.tables) hNotReady trivial
    · rename_i tables interrupted hInterrupt
      have hEnded := Tables.interruptActive_ended hInterrupt
      refine h.setBoot hNotReady ?_
      cases ok
      · trivial
      · exact hEnded
  · exact h

theorem restoredRecords_ended {interrupted : Option RolloutView} {history : List RolloutView}
    (hInterrupted : ∀ r ∈ interrupted, r.stage.ended = true) (hHistory : Ended history) :
    Ended (System.restoredRecords interrupted history) := by
  intro r hr
  unfold System.restoredRecords at hr
  split at hr
  · split at hr
    · exact hHistory r hr
    · rcases mem_cons.mp hr with rfl | hr
      · exact hInterrupted r rfl
      · exact hHistory r hr
  · exact hHistory r hr

theorem AtRest.restoreSaved (h : AtRest s) {ok : Bool} : AtRest (s.restoreSaved cfg ok) := by
  unfold System.restoreSaved
  split
  · rename_i interrupted hBoot
    have hNotReady : s.service.boot ≠ .ready := by simp [hBoot]
    obtain ⟨hTables, hInterrupted⟩ : s.tables.AllEnded ∧
        ∀ r ∈ interrupted, r.stage.ended = true := by
      simpa [hBoot, Recovered] using h.recovered
    split
    · rw [Tables.current_eq_none hTables]
      have hHistory : Ended (s.tables.history cfg.collate) := fun r hr =>
        Tables.history_ended hTables hr
      have hRecords := restoredRecords_ended hInterrupted hHistory
      have hRest := h.service.withRollouts (h.service.rollouts.restore
        fun r hr => hRecords r (mem_reverse.mp hr))
      exact ⟨⟨hRest.rollouts, hRest.calls, hRest.saving, fun hBoot => absurd rfl hBoot⟩, hTables⟩
    · exact h.setBoot (t := s.tables) hNotReady trivial
  · exact h

theorem AtRest.executeWrite (h : AtRest s) : AtRest s.executeWrite := by
  unfold System.executeWrite
  split
  · rename_i owner saved rest hWrites
    have hReady : s.service.boot = .ready := by
      by_contra hNot
      simp [h.service.writes hNot] at hWrites
    have hTables : s.tables.AllEnded := by simpa [hReady, Recovered] using h.recovered
    have hSaved := h.service.saving ⟨owner, some saved, none⟩ (by simp [hWrites]) saved rfl
    have hService : ∀ executed, ServiceAtRest
        { s.service with writes := ⟨owner, some saved, executed⟩ :: rest } := by
      refine fun executed => ⟨h.service.rollouts, h.service.calls, fun w hw => ?_,
        fun hNot => absurd hReady hNot⟩
      rcases mem_cons.mp hw with rfl | hw
      · simpa using hSaved
      · exact h.service.saving w (hWrites ▸ mem_cons_of_mem _ hw)
    split
    · rename_i tables hSave
      refine ⟨hService _, ?_⟩
      have hEnded : tables.AllEnded :=
        Tables.saveSnapshot_ended hTables (by simp [hSaved.1]) hSaved.2 hSave
      simpa [hReady, Recovered] using hEnded
    · exact ⟨hService _, h.recovered⟩
  · exact h

theorem AtRest.setService (h : AtRest s) {service : Service} (hService : ServiceAtRest service)
    (hBoot : service.boot = s.service.boot) : AtRest { s with service := service } :=
  ⟨hService, hBoot ▸ h.recovered⟩

theorem AtRest.step (h : AtRest s) {e : ServiceEvent} (he : e.Resting) :
    AtRest (s.step cfg e) := by
  have hRollouts := h.service.rollouts
  cases e with
  | init =>
    simp only [System.step]
    split
    · rename_i hBoot
      exact h.setBoot (t := s.tables) (by simp [hBoot]) trivial
    · exact h
  | interrupt now ok => exact h.interrupt
  | restoreSaved ok => exact h.restoreSaved
  | call operation =>
    refine h.setService ⟨hRollouts, fun c hc => ?_, h.service.saving, h.service.writes⟩ rfl
    rcases mem_append.mp hc with hc | hc
    · exact h.service.calls c hc
    · rw [mem_singleton.mp hc]
      refine ⟨?_, rfl, by simp [Ended]⟩
      rintro buildId target actor rfl
      exact he
  | runCall env => exact h.setService h.service.runCall boot_runCall
  | runWrite => exact h.setService h.service.runWrite boot_runWrite
  | executeWrite => exact h.executeWrite
  | settleWrite ok => exact h.setService h.service.settleWrite boot_settleWrite
  | resume env owner => exact h.setService h.service.resume boot_resume
  | readBack ok => exact h.setService h.service.readBack boot_readBack
  | answerCall env => exact h.setService h.service.answerCall boot_answerCall
  | onImageReady env gatewayId result =>
    refine h.withRollouts ?_
    rw [Rollouts.onImageReady_of_none hRollouts.active]
    exact hRollouts
  | onOtaStatus env uid status =>
    refine h.withRollouts ?_
    rw [Rollouts.onOtaStatus_of_none hRollouts.active]
    exact hRollouts
  | otaSettled env task error =>
    refine h.withRollouts ?_
    rw [Rollouts.otaSettled_of_nil hRollouts.tasks]
    exact hRollouts
  | unlaunch task =>
    refine h.withRollouts ?_
    rw [Rollouts.unlaunch_of_nil hRollouts.tasks]
    exact hRollouts
  | crash => exact he.elim

end system

/-- A restart never resumes a rollout: after any run and a crash at any point, the new
process has no active rollout and dispatches nothing until its first `start`, and once it
is initialized no stored rollout is in `pilot` or `rest`. -/
theorem restart_never_resumes (cfg : ServiceConfig) (es fs : List ServiceEvent)
    (hfs : ∀ e ∈ fs, e.Resting) :
    ((run (System.step cfg) .new (es ++ .crash :: fs)).service.boot = .ready →
      (run (System.step cfg) .new (es ++ .crash :: fs)).tables.AllEnded) ∧
    (run (System.step cfg) .new (es ++ .crash :: fs)).service.rollouts.current = none ∧
    (run (System.step cfg) .new (es ++ .crash :: fs)).service.rollouts.trace = [] := by
  have hRest : AtRest (run (System.step cfg) .new (es ++ .crash :: fs)) := by
    rw [run_append, run_cons]
    refine run_invariant_guarded AtRest (fun s e h he => h.step he) (atRest_new _ _)
      (guarded_of_forall_split fun pre e post hEq => hfs e (by simp [hEq]))
  refine ⟨fun hReady => ?_, ?_, hRest.service.rollouts.trace⟩
  · simpa [hReady, Recovered] using hRest.recovered
  · simp [Rollouts.current, hRest.service.rollouts.active]

/-- `initialize` of a new process resolves when the database answers. -/
theorem initialize_resolves (cfg : ServiceConfig) (s : System) (now : Nat)
    (hNow : ∀ r ∈ s.tables.rollouts, r.stage.ended = false → r.startedAt ≤ now) :
    (run (System.step cfg) s [.crash, .init, .interrupt now true, .restoreSaved true]).service.boot =
      .ready := by
  obtain ⟨t, r, hInterrupt⟩ := Tables.interruptActive_isSome cfg.collate hNow
  simp [System.step, System.interrupt, System.restoreSaved, Service.new, hInterrupt]

def exampleServiceConfig : ServiceConfig := ⟨{}, 8080, fun a b => decide (a ≤ b)⟩

/-- A rollout is started and saved, and its pilot told, when the process crashes. -/
def crashedRun : List ServiceEvent :=
  [.init, .interrupt 500 true, .restoreSaved true,
    .call (.start "0123456789abcdef" .all "op"), .runCall (exampleEnv 1000),
    .runWrite, .executeWrite, .settleWrite true, .resume (exampleEnv 1000) .call,
    .runWrite, .executeWrite, .settleWrite true, .resume (exampleEnv 1000) (.task 0)]

def restartedRun : List ServiceEvent := [.init, .interrupt 2000 true, .restoreSaved true]

theorem restart_interrupts :
    (run (System.step exampleServiceConfig) .new (crashedRun ++ .crash :: restartedRun)).tables.AllEnded ∧
    (run (System.step exampleServiceConfig) .new
      (crashedRun ++ .crash :: restartedRun)).tables.rollouts.map RolloutRow.stage = [.stopped] := by
  have hStages : (run (System.step exampleServiceConfig) .new
      (crashedRun ++ .crash :: restartedRun)).tables.rollouts.map RolloutRow.stage = [.stopped] := by
    decide +kernel
  have hOpen : (run (System.step exampleServiceConfig) .new crashedRun).tables.rollouts.all
      fun r => decide (r.startedAt ≤ 2000) := by decide +kernel
  have hReady : (run (System.step exampleServiceConfig) .new
      (crashedRun ++ .crash :: restartedRun)).service.boot = .ready := by
    rw [run_append]
    refine initialize_resolves exampleServiceConfig _ 2000 fun r hr _ => ?_
    simpa using List.all_eq_true.mp hOpen r hr
  refine ⟨(restart_never_resumes exampleServiceConfig crashedRun restartedRun ?_).1 hReady, hStages⟩
  intro e he
  fin_cases he <;> trivial

end TMEdge.Rollout
