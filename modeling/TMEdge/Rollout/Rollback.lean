import TMEdge.Rollout.Restart

/-!
# The rollback of a failed operator action

When persistence is unavailable, `start` and `cancel` put the clone back that they took
before they awaited the repository. `Waits` says that the call is under way and still has
its clone; `answerCall_rejects` is what its rejection leaves behind. What arrived while the
call waited is applied to the rollouts of the moment before it by `report`.
`progress_kept` is the result when these would have refused all of it, and `progress_lost`
a report that is lost.
-/

namespace TMEdge.Rollout

open Library Protocol Relation List

/-! ## What the service does to its rollouts -/

namespace Rollouts

inductive Follows (cfg : Config) (s : Rollouts) : Rollouts → Prop
  | same : Follows cfg s s
  | event (e : Event) : Follows cfg s (step cfg s e)
  | restored (current : Option RolloutView) (history : List RolloutView) :
      Follows cfg s (s.restore current history)
  | new : Follows cfg s .new

end Rollouts

section follows

variable {cfg : ServiceConfig} {env : Env} {s : Service} {ok : Bool}

theorem follows_runCall :
    Rollouts.Follows cfg.rollouts s.rollouts (s.runCall cfg env).rollouts := by
  unfold Service.runCall
  split
  · split
    · dsimp only
      split
      · rename_i buildId target actor _
        split
        · exact .restored _ _
        · rename_i rollouts view hStart
          have hStep : Rollouts.Follows cfg.rollouts s.rollouts (step cfg.rollouts s.rollouts
              (.start env buildId target actor true)) := .event _
          rw [step, hStart] at hStep
          exact hStep
      · rename_i actor _
        exact .event (.cancel env actor)
      · exact .same
    · exact .same
  · exact .same

theorem follows_resumeCall :
    Rollouts.Follows cfg.rollouts s.rollouts (s.resumeCall cfg env ok).rollouts := by
  unfold Service.resumeCall
  split
  · split
    · exact .event (.tick env)
    · exact .same
    · exact .event (.tick env)
    · exact .same
    · exact .same
  · exact .same

theorem follows_answerCall :
    Rollouts.Follows cfg.rollouts s.rollouts (s.answerCall cfg env).rollouts := by
  unfold Service.answerCall
  split
  · dsimp only
    split
    · split
      · exact .event (.tick env)
      · exact .same
    · split
      · exact .restored _ _
      · exact .restored _ _
  · exact .same

theorem follows_resume {owner : Owner} :
    Rollouts.Follows cfg.rollouts s.rollouts (s.resume cfg env owner).rollouts := by
  unfold Service.resume
  split
  · exact .same
  · rename_i p _
    dsimp only
    split
    · exact follows_resumeCall (s := { s with settled := s.settled.eraseP fun p => p.1 = .call })
    · rename_i id _
      exact .event (.resumeHook env id p.2)

theorem follows_readBack {t : Tables} : (s.readBack cfg t ok).rollouts = s.rollouts := by
  unfold Service.readBack
  split <;> rfl

theorem follows_runWrite : s.runWrite.rollouts = s.rollouts := by
  unfold Service.runWrite
  split
  · split <;> rfl
  · rfl

theorem follows_settleWrite : (s.settleWrite ok).rollouts = s.rollouts := by
  unfold Service.settleWrite
  split
  · split <;> rfl
  · rfl

end follows

/-- Every step of the system makes at most one step of the rollouts, restores them or
begins a new process. -/
theorem follows_step (cfg : ServiceConfig) (s : System) (e : ServiceEvent) :
    Rollouts.Follows cfg.rollouts s.service.rollouts (s.step cfg e).service.rollouts := by
  cases e with
  | init =>
    simp only [System.step]
    split <;> exact .same
  | interrupt now ok =>
    simp only [System.step, System.interrupt]
    split
    · split <;> exact .same
    · exact .same
  | restoreSaved ok =>
    simp only [System.step, System.restoreSaved]
    split
    · split
      · exact .restored _ _
      · exact .same
    · exact .same
  | call operation => exact .same
  | runCall env => exact follows_runCall
  | runWrite => exact follows_runWrite ▸ .same
  | executeWrite =>
    simp only [System.step, System.executeWrite]
    split
    · split <;> exact .same
    · exact .same
  | settleWrite ok => exact follows_settleWrite ▸ .same
  | resume env owner => exact follows_resume
  | readBack ok => exact follows_readBack ▸ .same
  | answerCall env => exact follows_answerCall
  | onImageReady env gatewayId result => exact .event (.onImageReady env gatewayId result)
  | onOtaStatus env uid status => exact .event (.onOtaStatus env uid status)
  | otaSettled env task error => exact .event (.otaSettled env task error)
  | unlaunch task => exact .event (.unlaunch task)
  | crash => exact .new

/-! ## The history keeps twenty rollouts -/

theorem past_coreStep {A O B : Prop} {c c' : Core} (hStep : CoreStep A O B c c')
    (h : c.past.length ≤ 20) : c'.past.length ≤ 20 := by
  cases hStep with
  | node hNode => rwa [hNode.same.past]
  | close _ _ =>
    simp only [pushPast]
    split
    · simpa using h
    · omega
  | _ => exact h

theorem past_step {cfg : Config} {s : Rollouts} (e : Event) (h : s.past.length ≤ 20) :
    (step cfg s e).past.length ≤ 20 := by
  have hSteps : ReflTransGen _ _ _ := coreSteps_step cfg s e
  change (step cfg s e).core.past.length ≤ 20
  generalize (step cfg s e).core = c at hSteps ⊢
  induction hSteps with
  | refl => exact h
  | tail _ hStep ih => exact past_coreStep hStep ih

theorem past_run (cfg : ServiceConfig) (es : List ServiceEvent) :
    (run (System.step cfg) .new es).service.rollouts.past.length ≤ 20 := by
  refine run_invariant (fun s : System => s.service.rollouts.past.length ≤ 20)
    (fun s e h => ?_) (Nat.zero_le _) es
  generalize hEq : (s.step cfg e).service.rollouts = r
  have hFollows := hEq ▸ follows_step cfg s e
  cases hFollows with
  | same => exact h
  | event e => exact past_step e h
  | restored current history =>
    simp only [Rollouts.restore, length_map, length_range, length_drop]
    omega
  | new => exact Nat.zero_le _

namespace Rollouts

variable {s : Rollouts}

theorem length_history (h : s.past.length ≤ 20) : s.history.length ≤ 20 := by
  refine Nat.le_trans (length_filterMap_le _ _) ?_
  simpa using h

theorem current_restore (current : Option RolloutView) (history : List RolloutView) :
    (s.restore current history).current = current := by
  cases current with
  | none => rfl
  | some r => simp [Rollouts.current, restore]

theorem filterMap_range_getElem? {α : Type} (l : List α) :
    ((List.range l.length).filterMap fun i => l[i]?) = l := by
  induction l with
  | nil => rfl
  | cons a l ih =>
    rw [length_cons, range_succ_eq_map, filterMap_cons, filterMap_map]
    exact congrArg (a :: ·) ih

theorem history_restore (current : Option RolloutView) {history : List RolloutView}
    (h : history.length ≤ 20) : (s.restore current history).history = history.reverse := by
  have hKept : history.drop (history.length - 20) = history := by
    rw [Nat.sub_eq_zero_of_le h, drop_zero]
  have hView : ∀ i (hi : i < history.length),
      (s.restore current history).views[s.views.length + i]? = some history[i] := by
    intro i hi
    simp only [restore, hKept]
    rw [append_assoc, getElem?_append_right (Nat.le_add_right _ _),
      Nat.add_sub_cancel_left, getElem?_append_left hi, getElem?_eq_getElem hi]
  have hPast : (s.restore current history).past =
      (List.range history.length).map (s.views.length + ·) := by
    simp only [restore, hKept]
  rw [Rollouts.history, hPast, filterMap_reverse, filterMap_map]
  refine congrArg List.reverse ?_
  calc (List.range history.length).filterMap
        ((fun v => (s.restore current history).views[v]?) ∘ (s.views.length + ·))
      = (List.range history.length).filterMap fun i => history[i]? := by
        refine filterMap_congr fun i hi => ?_
        have hi' := mem_range.mp hi
        rw [Function.comp_apply, hView i hi', getElem?_eq_getElem hi']
    _ = history := filterMap_range_getElem? history

theorem saved_restoreSnapshot {r : Rollouts} (h : r.past.length ≤ 20) :
    (restoreSnapshot s (viewSnapshot r)).current =
        r.current.map (requeueView r.pendingDispatchUids) ∧
      (restoreSnapshot s (viewSnapshot r)).history = r.history := by
  refine ⟨current_restore _ _, ?_⟩
  rw [restoreSnapshot, history_restore _ (by simpa [viewSnapshot] using length_history h)]
  simp [viewSnapshot]

end Rollouts

/-! ## A call under way -/

/-- The call at the head has run, and keeps the clone it took. -/
def Waits (operation : Operation) (previous : Snapshot) (s : Service) : Prop :=
  ∃ stage created rest, stage ≠ .queued ∧ s.calls = ⟨operation, stage, previous, created⟩ :: rest

/-- Either one more call has ended, or every call that is under way still is. -/
def Continues (s s' : Service) : Prop :=
  (s'.results = s.results ∧
    ∀ operation previous, Waits operation previous s → Waits operation previous s') ∨
    ∃ r, s'.results = s.results ++ [r]

section waits

variable {cfg : ServiceConfig} {env : Env} {s : Service} {operation : Operation}
  {previous : Snapshot} {ok : Bool}

theorem Continues.same {s' : Service} (hResults : s'.results = s.results)
    (hCalls : ∃ l, s'.calls = s.calls ++ l) : Continues s s' := by
  refine Or.inl ⟨hResults, ?_⟩
  rintro operation previous ⟨stage, created, rest, hStage, hHead⟩
  obtain ⟨l, hl⟩ := hCalls
  exact ⟨stage, created, rest ++ l, hStage, by rw [hl, hHead, cons_append]⟩

theorem Continues.refl : Continues s s := .same rfl ⟨[], (append_nil _).symm⟩

/-- The call at the head moves on with its clone. -/
theorem continues_setCall {stage stage' : CallStage} {created : Nat} {rest : List Call}
    (hCalls : s.calls = ⟨operation, stage, previous, created⟩ :: rest) (hStage' : stage' ≠ .queued) :
    Continues s (s.setCall ⟨operation, stage', previous, created⟩) := by
  refine Or.inl ⟨rfl, ?_⟩
  rintro operation₀ previous₀ ⟨stage₀, created₀, rest₀, _, hHead⟩
  rw [hCalls] at hHead
  obtain ⟨⟨rfl, -, rfl, -⟩, -⟩ : (operation = operation₀ ∧ stage = stage₀ ∧ previous = previous₀ ∧
      created = created₀) ∧ rest = rest₀ := by simpa using hHead
  exact ⟨stage', created, s.calls.tail, hStage', rfl⟩

theorem continues_runCall : Continues s (s.runCall cfg env) := by
  unfold Service.runCall
  split
  · rename_i operation previous created rest hCalls
    have hNone : ∀ operation previous, ¬ Waits operation previous s := by
      rintro operation₀ previous₀ ⟨stage, created₀, rest₀, hStage, hHead⟩
      rw [hCalls] at hHead
      simp only [List.cons.injEq, Call.mk.injEq] at hHead
      exact hStage hHead.1.2.1.symm
    split
    · dsimp only
      split
      · split
        · exact Or.inr ⟨_, rfl⟩
        · exact Or.inl ⟨rfl, fun _ _ h => absurd h (hNone _ _)⟩
      · exact Or.inl ⟨rfl, fun _ _ h => absurd h (hNone _ _)⟩
      · exact Or.inl ⟨rfl, fun _ _ h => absurd h (hNone _ _)⟩
    · exact Or.inr ⟨_, rfl⟩
  · exact .refl

theorem continues_resumeCall : Continues s (s.resumeCall cfg env ok) := by
  unfold Service.resumeCall
  split
  · rename_i operation previous created rest hCalls
    split
    · exact Or.inr ⟨_, rfl⟩
    · exact Or.inr ⟨_, rfl⟩
    · exact Or.inr ⟨_, rfl⟩
    · exact Or.inr ⟨_, rfl⟩
    · exact continues_setCall hCalls (by simp)
  · exact .refl

theorem continues_answerCall : Continues s (s.answerCall cfg env) := by
  unfold Service.answerCall
  split
  · dsimp only
    split
    · split
      · exact Or.inr ⟨_, rfl⟩
      · exact Or.inr ⟨_, rfl⟩
    · split
      · exact Or.inr ⟨_, rfl⟩
      · exact Or.inr ⟨_, rfl⟩
  · exact .refl

theorem continues_readBack {t : Tables} : Continues s (s.readBack cfg t ok) := by
  unfold Service.readBack
  split
  · rename_i operation previous created rest hCalls
    exact continues_setCall hCalls (by simp)
  · exact .refl

theorem continues_runWrite : Continues s s.runWrite := by
  unfold Service.runWrite
  split
  · split
    · exact .refl
    · exact .refl
  · exact .refl

theorem continues_settleWrite : Continues s (s.settleWrite ok) := by
  unfold Service.settleWrite
  split
  · split
    · exact .refl
    · exact .refl
  · exact .refl

theorem continues_resume {owner : Owner} : Continues s (s.resume cfg env owner) := by
  unfold Service.resume
  split
  · exact .refl
  · dsimp only
    split
    · exact continues_resumeCall (s := { s with settled := s.settled.eraseP fun p => p.1 = .call })
    · exact .refl

/-- `start` and `cancel` take their clone before they await anything. -/
theorem waits_runCall {rest : List Call} {created : Nat} (hOperation : operation ≠ .tick)
    (hHead : s.calls = ⟨operation, .queued, previous, created⟩ :: rest)
    (hResults : (s.runCall cfg env).results = s.results) :
    Waits operation (viewSnapshot s.rollouts) (s.runCall cfg env) := by
  revert hResults
  rw [Service.runCall, hHead]
  dsimp only
  split
  · split
    · split
      · intro hResults
        simp [Service.endCall, Service.withRollouts] at hResults
      · rename_i rollouts view hStart
        refine fun _ => ⟨.persisting, view, rest, by simp, ?_⟩
        simp [Service.persist, Service.setCall, Service.withRollouts, hHead]
    · refine fun _ => ⟨.persisting, created, rest, by simp, ?_⟩
      simp [Service.persist, Service.setCall, Service.withRollouts, hHead]
    · exact absurd rfl hOperation
  · intro hResults
    simp [Service.endCall] at hResults

/-- A rejection puts the clone back. -/
theorem answerCall_rejects (h : Waits operation previous s) {error : String}
    (hRejects : (s.answerCall cfg env).results = s.results ++ [(operation, .error error)]) :
    (s.answerCall cfg env).rollouts = restoreSnapshot s.rollouts previous := by
  revert hRejects
  obtain ⟨stage, created, rest, hStage, hHead⟩ := h
  unfold Service.answerCall
  split
  · rename_i hCalls
    obtain ⟨⟨rfl, rfl, rfl, rfl⟩, rfl⟩ : _ ∧ _ := by simpa [hHead] using hCalls
    dsimp only
    split
    · split
      · intro hRejects
        simp [Service.tickCall, Service.endCall, Service.withRollouts] at hRejects
      · intro hRejects
        simp [Service.endCall] at hRejects
    · split
      · exact fun _ => rfl
      · exact fun _ => rfl
  · intro hRejects
    simp at hRejects

end waits

/-! ## The window of a call -/

theorem continues_step (cfg : ServiceConfig) (s : System) {e : ServiceEvent} (he : e ≠ .crash) :
    Continues s.service (s.step cfg e).service := by
  cases e with
  | init =>
    simp only [System.step]
    split <;> exact .refl
  | interrupt now ok =>
    simp only [System.step, System.interrupt]
    split
    · split <;> exact .refl
    · exact .refl
  | restoreSaved ok =>
    simp only [System.step, System.restoreSaved]
    split
    · split <;> exact .refl
    · exact .refl
  | call operation => exact .same rfl ⟨_, rfl⟩
  | runCall env => exact continues_runCall
  | runWrite => exact continues_runWrite
  | executeWrite =>
    simp only [System.step, System.executeWrite]
    split
    · split <;> exact .refl
    · exact .refl
  | settleWrite ok => exact continues_settleWrite
  | resume env owner => exact continues_resume
  | readBack ok => exact continues_readBack
  | answerCall env => exact continues_answerCall
  | onImageReady env gatewayId result => exact .refl
  | onOtaStatus env uid status => exact .refl
  | otaSettled env task error => exact .refl
  | unlaunch task => exact .refl
  | crash => exact absurd rfl he

variable {es : List ServiceEvent}

theorem results_run (cfg : ServiceConfig) (hes : ∀ e ∈ es, e ≠ .crash) (s : System) :
    s.service.results.length ≤ (run (System.step cfg) s es).service.results.length := by
  induction es generalizing s with
  | nil => exact Nat.le_refl _
  | cons e es ih =>
    refine Nat.le_trans ?_ (ih (fun e' he' => hes e' (mem_cons_of_mem _ he')) _)
    rcases continues_step cfg s (hes e mem_cons_self) with ⟨hSame, _⟩ | ⟨r, hMore⟩
    · rw [hSame]
    · simp [hMore]

/-- A call that has not ended still has its clone. -/
theorem waits_run {cfg : ServiceConfig} {operation : Operation} {previous : Snapshot}
    (hes : ∀ e ∈ es, e ≠ .crash) {s : System} (h : Waits operation previous s.service)
    (hOpen : (run (System.step cfg) s es).service.results = s.service.results) :
    Waits operation previous (run (System.step cfg) s es).service := by
  induction es generalizing s with
  | nil => exact h
  | cons e es ih =>
    have hes' : ∀ e' ∈ es, e' ≠ .crash := fun e' he' => hes e' (mem_cons_of_mem _ he')
    rcases continues_step cfg s (hes e mem_cons_self) with ⟨hSame, hKept⟩ | ⟨r, hMore⟩
    · refine ih hes' (hKept operation previous h) ?_
      rw [hSame]
      exact hOpen
    · have hLength := results_run cfg hes' (s.step cfg e)
      rw [run_cons] at hOpen
      rw [hOpen, hMore, length_append, length_singleton] at hLength
      omega

/-- Between `es` and its rejection the call at the head of the operations awaits the
repository; `fs` is what happens meanwhile. -/
structure Rejects (cfg : ServiceConfig) (es : List ServiceEvent) (env : Env)
    (fs : List ServiceEvent) (env' : Env) (operation : Operation) : Prop where
  notTick : operation ≠ .tick
  head : ∃ previous created rest, (run (System.step cfg) .new es).service.calls =
    ⟨operation, .queued, previous, created⟩ :: rest
  noCrash : ∀ e ∈ fs, e ≠ .crash
  waiting : (run (System.step cfg) .new (es ++ .runCall env :: fs)).service.results =
    (run (System.step cfg) .new es).service.results
  rejected : ∃ error,
    (run (System.step cfg) .new (es ++ .runCall env :: (fs ++ [.answerCall env']))).service.results =
      (run (System.step cfg) .new es).service.results ++ [(operation, .error error)]

theorem rollouts_rejected {cfg : ServiceConfig} {fs : List ServiceEvent} {env env' : Env}
    {operation : Operation} (h : Rejects cfg es env fs env' operation) :
    ∃ r, (run (System.step cfg) .new
        (es ++ .runCall env :: (fs ++ [.answerCall env']))).service.rollouts =
      restoreSnapshot r (viewSnapshot (run (System.step cfg) .new es).service.rollouts) := by
  obtain ⟨error, hError⟩ := h.rejected
  obtain ⟨previous, created, rest, hHead⟩ := h.head
  have hWaiting := h.waiting
  rw [run_append, run_cons] at hWaiting hError ⊢
  rw [run_concat] at hError ⊢
  generalize run (System.step cfg) .new es = s at *
  have hRun : (s.step cfg (.runCall env)).service.results = s.service.results := by
    have hLength := results_run cfg h.noCrash (s.step cfg (.runCall env))
    rw [hWaiting] at hLength
    rcases continues_step cfg s (e := .runCall env) (by simp) with ⟨hSame, _⟩ | ⟨r, hMore⟩
    · exact hSame
    · rw [hMore, length_append, length_singleton] at hLength
      omega
  have hFirst := waits_runCall h.notTick hHead hRun
  have hLast := waits_run h.noCrash (s := s.step cfg (.runCall env)) hFirst
    (hWaiting.trans hRun.symm)
  exact ⟨_, answerCall_rejects hLast (hWaiting.symm ▸ hError)⟩

/-! ## Reports -/

namespace Rollouts

/-- Had the call not been made, this is what each event would have done to the rollouts. -/
def report (cfg : Config) (s : Rollouts) : ServiceEvent → Rollouts
  | .onImageReady env gatewayId result => s.onImageReady cfg env gatewayId result
  | .onOtaStatus env uid status => s.onOtaStatus cfg env uid status
  | .otaSettled env task error => s.otaSettled cfg env task error
  | _ => s

/-- The rollouts ignore the report. -/
def Refuses (s : Rollouts) : ServiceEvent → Prop
  | .onImageReady env gatewayId result => s.takeImageResult env gatewayId result = none
  | .onOtaStatus env uid status => s.takeOtaStatus env uid status = none
  | .otaSettled env task (some error) =>
    ∀ t, s.task? task = some t → s.takeOtaError env t.ref error = none
  | _ => True

variable {s : Rollouts}

theorem saved_endTask (cfg : Config) (id : Nat) : (s.endTask cfg id).saved = s.saved := by
  unfold endTask moveTask
  split <;> rfl

theorem saved_report (cfg : Config) {e : ServiceEvent} (h : s.Refuses e) :
    (s.report cfg e).saved = s.saved := by
  cases e with
  | onImageReady env gatewayId result =>
    have hNone : s.takeImageResult env gatewayId result = none := h
    simp only [report, onImageReady, hNone]
  | onOtaStatus env uid status =>
    have hNone : s.takeOtaStatus env uid status = none := h
    simp only [report, onOtaStatus, hNone]
  | otaSettled env id error =>
    simp only [report, otaSettled]
    split
    · rfl
    · rename_i t hTask
      split
      · have hNone : error.bind (s.takeOtaError env t.ref) = none := by
          cases error with
          | none => rfl
          | some error => exact h t hTask
        rw [hNone, saved_endTask]
      · rfl
  | _ => rfl

theorem saved_reports {cfg : Config} {es : List ServiceEvent}
    (h : Guarded (report cfg) Refuses s es) : (run (report cfg) s es).saved = s.saved := by
  induction es generalizing s with
  | nil => rfl
  | cons e es ih => exact (ih h.2).trans (saved_report cfg h.1)

end Rollouts

/-- After a failed `start` or `cancel`, the rollout that was active before it is as it would
be without the call, the requests held back then queued again, and so is the history;
provided that nothing arrived meanwhile which that rollout would have taken. -/
theorem progress_kept (cfg : ServiceConfig) (es fs : List ServiceEvent) (env env' : Env)
    (operation : Operation) (h : Rejects cfg es env fs env' operation)
    (hReports : Guarded (Rollouts.report cfg.rollouts) Rollouts.Refuses
      (run (System.step cfg) .new es).service.rollouts fs) :
    (run (System.step cfg) .new
        (es ++ .runCall env :: (fs ++ [.answerCall env']))).service.rollouts.current =
      (run (Rollouts.report cfg.rollouts)
        (run (System.step cfg) .new es).service.rollouts fs).current.map
          (requeueView (run (System.step cfg) .new es).service.rollouts.pendingDispatchUids) ∧
    (run (System.step cfg) .new
        (es ++ .runCall env :: (fs ++ [.answerCall env']))).service.rollouts.history =
      (run (Rollouts.report cfg.rollouts)
        (run (System.step cfg) .new es).service.rollouts fs).history := by
  obtain ⟨r, hr⟩ := rollouts_rejected h
  have hSaved := Prod.ext_iff.mp (Rollouts.saved_reports hReports)
  obtain ⟨hCurrent, hHistory⟩ :=
    Rollouts.saved_restoreSnapshot (s := r) (past_run cfg es)
  rw [hr]
  exact ⟨hCurrent.trans (congrArg _ hSaved.1.symm), hHistory.trans hSaved.2.symm⟩

/-! ## A report that is lost -/

/-- A rollout runs and its pilot has been told; then it is cancelled. -/
def cancelledRun : List ServiceEvent := crashedRun ++ [.call (.cancel "op")]

def lostStatus : ServiceEvent :=
  .onOtaStatus (exampleEnv 3000) "a" ⟨.downloading, 50, .none, "01234567"⟩

/-- The save of the cancellation fails. -/
def failedSave : List ServiceEvent :=
  [.runWrite, .settleWrite false, .resume (exampleEnv 3000) .call, .readBack true]

deriving instance DecidableEq for Operation

theorem rejects_cancelled (first : List ServiceEvent) (hFirst : first = [] ∨ first = [lostStatus]) :
    Rejects exampleServiceConfig cancelledRun (exampleEnv 3000) (first ++ failedSave)
      (exampleEnv 3000) (.cancel "op") := by
  refine ⟨by simp, ⟨⟨none, [], []⟩, 0, [], rfl⟩, ?_, ?_, ?_⟩
  · intro e he
    rcases hFirst with rfl | rfl <;> fin_cases he <;> simp [lostStatus]
  · rcases hFirst with rfl | rfl <;> decide +kernel
  · refine ⟨"rollout persistence is unavailable; cancellation was not committed", ?_⟩
    rcases hFirst with rfl | rfl <;> decide +kernel

theorem progress_kept_cancelled :
    (run (System.step exampleServiceConfig) .new (cancelledRun ++ .runCall (exampleEnv 3000) ::
        (failedSave ++ [.answerCall (exampleEnv 3000)]))).service.rollouts.history =
      (run (Rollouts.report exampleServiceConfig.rollouts)
        (run (System.step exampleServiceConfig) .new cancelledRun).service.rollouts
        failedSave).history :=
  (progress_kept exampleServiceConfig cancelledRun failedSave (exampleEnv 3000) (exampleEnv 3000)
    (.cancel "op") (rejects_cancelled [] (Or.inl rfl)) ⟨trivial, trivial, trivial, trivial, trivial⟩).2

/-- The pilot reports that it downloads while the cancellation is being saved; when that
fails, it is back in `sending`. -/
theorem progress_lost :
    ¬ ∀ (cfg : ServiceConfig) (es fs : List ServiceEvent) (env env' : Env) (operation : Operation),
      Rejects cfg es env fs env' operation →
        (run (System.step cfg) .new
            (es ++ .runCall env :: (fs ++ [.answerCall env']))).service.rollouts.current =
          (run (Rollouts.report cfg.rollouts)
            (run (System.step cfg) .new es).service.rollouts fs).current.map
              (requeueView (run (System.step cfg) .new es).service.rollouts.pendingDispatchUids) ∧
        (run (System.step cfg) .new
            (es ++ .runCall env :: (fs ++ [.answerCall env']))).service.rollouts.history =
          (run (Rollouts.report cfg.rollouts)
            (run (System.step cfg) .new es).service.rollouts fs).history := by
  intro h
  have hCurrent := (h exampleServiceConfig cancelledRun ([lostStatus] ++ failedSave)
    (exampleEnv 3000) (exampleEnv 3000) (.cancel "op")
    (rejects_cancelled [lostStatus] (Or.inr rfl))).1
  revert hCurrent
  decide +kernel

end TMEdge.Rollout
