import TMEdge.Library.Table
import TMEdge.Train.Jobs

/-!
# What a pass over a job writes

The model of `apply` and `refreshJobs` (`algo/train/hpc/service.ts`) for one job: passes of
`refresh`, `cancel` and `poll` ask SLURM and write its answer over the record. A query is answered
with the cluster's state at that moment, or not at all; the batch script's receipt is there only
when the job has ended, and a job does not leave a final state. `tick` counts the steps, and every
answer carries the tick of its query.

* `Answered`: what the answers on the way say about the cluster.
* `final_stays_iff`: a finished job stays finished exactly as long as no answer is overtaken.
* `finished_runs_again`: a poll that is overtaken by a refresh.
-/

namespace TMEdge.Train

open Library Option

/-! ## Records -/

/-- What a pass reads and writes of a job's record. -/
structure JobRecord where
  status : JobStatus
  slurmJobId : Option Nat
  slurmState : Option Text
  slurmReason : Option Text
  exitCode : Option Int
  elapsedSeconds : Option Int
  node : Option Text
  message : Option Text
  startedAt : Option Int
  endedAt : Option Int
  lastPolledAt : Option Int
  updatedAt : Int
  deriving DecidableEq

/-- `ACTIVE`: jobs SLURM might still change. -/
def JobStatus.isActive : JobStatus → Bool
  | .submitted | .pending | .running | .unknown => true
  | _ => false

/-- The states a job of the cluster ends in. -/
def JobStatus.isFinal : JobStatus → Bool
  | .completed | .failed | .cancelled | .timeout | .outOfMemory => true
  | _ => false

structure SlurmState where
  status : JobStatus
  raw : Text
  reason : Option Text
  exitCode : Option Int
  elapsedSeconds : Option Int
  node : Option Text
  /-- `mapState` names no other status. -/
  mapped : status.isActive = true ∨ status.isFinal = true
  deriving DecidableEq

/-- `apply` -/
def applyState (job : JobRecord) (st : SlurmState) (now : Int) : JobRecord :=
  let terminal := !st.status.isActive && st.status ≠ .submitted
  { job with
    status := st.status
    slurmState := some st.raw
    slurmReason := st.reason
    exitCode := st.exitCode
    elapsedSeconds := st.elapsedSeconds
    message := none
    node := st.node
    lastPolledAt := some now
    updatedAt := now
    startedAt := job.startedAt <|>
      if st.status = .running || terminal then some (now - st.elapsedSeconds.getD 0 * 1000)
      else none
    endedAt := if terminal then some (job.endedAt.getD now) else none }

def unconfirmed : Text :=
  js "Could not confirm this job's state from SLURM and no saved exit result was found. " ++
    js "Open Log and Stderr to inspect what happened, then refresh again."

/-- A vanished job is not still pending. -/
def vanished (job : JobRecord) (now : Int) : JobRecord :=
  { job with
    status := .unknown, slurmState := none, slurmReason := none, exitCode := none
    lastPolledAt := some now, updatedAt := now, message := some unconfirmed }

/-- A batch script's own result. -/
def exitReport (exitCode elapsedSeconds : Nat) : SlurmState :=
  { status := if exitCode = 0 then .completed else .failed
    raw := if exitCode = 0 then js "COMPLETED" else js "FAILED"
    reason := none
    exitCode := some exitCode
    elapsedSeconds := some elapsedSeconds
    node := none
    mapped := Or.inr (by split <;> rfl) }

/-! ## Passes -/

/-- An answer of SLURM, with the tick of its query. -/
structure Answer where
  state : SlurmState
  tick : Nat
  deriving DecidableEq

inductive PassStage
  | accounting
  | queue (fromSacct : Option Answer)
  | receipt
  | answered (answer : Option Answer)
  | done
  deriving DecidableEq

structure Refreshes where
  cluster : SlurmState
  job : JobRecord
  passes : List PassStage := []
  tick : Nat := 0
  /-- The query whose final answer was stored, the last of them. -/
  finalQuery : Option Nat := none

inductive RefreshEvent
  /-- The cluster moves the job on. -/
  | cluster (state : SlurmState)
  /-- `refresh`, or `cancel` behind `scancel`. -/
  | refresh
  | poll
  | sacct (pass : Nat) (listed : Bool)
  | squeue (pass : Nat) (listed : Bool)
  | receipt (pass : Nat) (report : Option (Nat × Nat))
  | write (pass : Nat) (now : Int)
  /-- A query or the store throws. -/
  | throws (pass : Nat)
  | restart

namespace Refreshes

variable (s : Refreshes)

def begin_ : Refreshes :=
  if s.job.slurmJobId.isSome then { s with passes := s.passes ++ [.accounting] } else s

def setPass (i : Nat) (stage : PassStage) : Refreshes :=
  { s with passes := s.passes.set i stage }

/-- What a query finds, if the job is listed. -/
def ask (listed : Bool) : Option Answer := if listed then some ⟨s.cluster, s.tick⟩ else none

/-- The answer is written over the record as it is now. -/
def write (answer : Option Answer) (now : Int) : Refreshes :=
  match answer with
  | some a =>
    { s with
      job := applyState s.job a.state now
      finalQuery := if a.state.status.isFinal then
          some (max a.tick (s.finalQuery.getD 0))
        else s.finalQuery }
  | none => if s.job.status.isActive then { s with job := vanished s.job now } else s

def step : RefreshEvent → Refreshes
  | .cluster state => if s.cluster.status.isFinal then s else { s with cluster := state }
  | .refresh => s.begin_
  | .poll => if s.job.status.isActive then s.begin_ else s
  | .sacct i listed =>
    if s.passes[i]? = some .accounting then s.setPass i (.queue (s.ask listed)) else s
  | .squeue i listed =>
    match s.passes[i]? with
    | some (.queue fromSacct) =>
      -- the live queue wins over lagging accounting
      match s.ask listed <|> fromSacct with
      | some answer => s.setPass i (.answered (some answer))
      | none => s.setPass i .receipt
    | _ => s
  | .receipt i report =>
    if s.passes[i]? = some .receipt then
      s.setPass i (.answered (if s.cluster.status.isFinal then
        report.map fun r => ⟨exitReport r.1 r.2, s.tick⟩ else none))
    else s
  | .write i now =>
    match s.passes[i]? with
    | some (.answered answer) => (s.setPass i .done).write answer now
    | _ => s
  | .throws i => s.setPass i .done
  | .restart => { s with passes := [] }

end Refreshes

def refreshStep (s : Refreshes) (e : RefreshEvent) : Refreshes :=
  let s' := s.step e
  { s' with tick := s.tick + 1 }

/-! ## A finished job stays finished -/

/-- A job as it is submitted, and no pass under way. -/
def Refreshes.start (cluster : SlurmState) (job : JobRecord) : Refreshes := { cluster, job }

/-- An answer that is not final is not written behind a final answer to a later query. -/
def InOrder (s : Refreshes) : RefreshEvent → Prop
  | .write i _ => ∀ a, s.passes[i]? = some (.answered (some a)) → a.state.status.isFinal = false →
      ∀ t, s.finalQuery = some t → t < a.tick
  | _ => True

/-- The answer a pass holds. -/
def PassStage.answer : PassStage → Option Answer
  | .queue a => a
  | .answered a => a
  | _ => none

def Refreshes.Holds (s : Refreshes) (a : Answer) : Prop := ∃ p ∈ s.passes, p.answer = some a

/-- What the answers on the way and the record say about the cluster. -/
structure Answered (s : Refreshes) : Prop where
  asked : ∀ a, s.Holds a → a.tick < s.tick
  ended : ∀ a, s.Holds a → a.state.status.isFinal = true → s.cluster.status.isFinal = true
  later : ∀ a b, s.Holds a → s.Holds b → a.state.status.isFinal = true →
    b.state.status.isFinal = false → b.tick < a.tick
  query_ended : s.finalQuery.isSome → s.cluster.status.isFinal = true
  query_later : ∀ t, s.finalQuery = some t → ∀ b, s.Holds b → b.state.status.isFinal = false →
    b.tick < t
  stored : s.job.status.isFinal = true → s.finalQuery.isSome ∧ s.job.endedAt.isSome

theorem JobStatus.isActive_of_isFinal {st : JobStatus} (h : st.isFinal = true) :
    st.isActive = false := by
  cases st <;> simp [JobStatus.isFinal] at h <;> rfl

theorem answered_start {cluster : SlurmState} {job : JobRecord}
    (hNew : job.status.isFinal = false) : Answered (.start cluster job) := by
  have hNone : ∀ a, ¬ (Refreshes.start cluster job).Holds a := by
    rintro a ⟨p, hp, -⟩
    simp [Refreshes.start] at hp
  exact ⟨fun a ha => absurd ha (hNone a), fun a ha => absurd ha (hNone a),
    fun a _ ha => absurd ha (hNone a), by simp [Refreshes.start],
    fun _ _ b hb => absurd hb (hNone b), fun h => absurd h (by simp [Refreshes.start, hNew])⟩

section steps

variable {s s' : Refreshes} {a : Answer} {i : Nat} {p : PassStage} {now : Int}

theorem Refreshes.holds_setPass (h : (s.setPass i p).Holds a) : s.Holds a ∨ p.answer = some a := by
  obtain ⟨q, hq, ha⟩ := h
  rcases List.mem_or_eq_of_mem_set hq with hq | rfl
  · exact Or.inl ⟨q, hq, ha⟩
  · exact Or.inr ha

theorem Refreshes.holds_of_getElem (hp : s.passes[i]? = some p) (ha : p.answer = some a) :
    s.Holds a :=
  ⟨p, List.mem_of_getElem? hp, ha⟩

theorem Refreshes.holds_begin (h : s.begin_.Holds a) : s.Holds a := by
  unfold Refreshes.begin_ at h
  split at h
  · obtain ⟨q, hq, ha⟩ := h
    rcases List.mem_append.mp hq with hq | hq
    · exact ⟨q, hq, ha⟩
    · simp [List.mem_singleton.mp hq, PassStage.answer] at ha
  · exact h

theorem isFinal_exitReport (r : Nat × Nat) : (exitReport r.1 r.2).status.isFinal = true := by
  unfold exitReport
  split <;> rfl

/-- A step may take up answers of its own tick, which are final if the cluster is. -/
theorem Answered.ask (h : Answered s)
    (hHolds : ∀ a, s'.Holds a → s.Holds a ∨
      (a.tick = s.tick ∧ a.state.status.isFinal = s.cluster.status.isFinal))
    (hTick : s'.tick = s.tick + 1) (hCluster : s'.cluster = s.cluster) (hJob : s'.job = s.job)
    (hQuery : s'.finalQuery = s.finalQuery) : Answered s' where
  asked a ha := by
    rcases hHolds a ha with ha | ⟨ha, -⟩
    · have := h.asked a ha
      omega
    · omega
  ended a ha hFinal := by
    rw [hCluster]
    rcases hHolds a ha with ha | ⟨-, ha⟩
    · exact h.ended a ha hFinal
    · rw [← ha, hFinal]
  later a b ha hb hFinal hNot := by
    rcases hHolds a ha with ha | ⟨haTick, ha⟩ <;> rcases hHolds b hb with hb | ⟨hbTick, hb⟩
    · exact h.later a b ha hb hFinal hNot
    · rw [hb, h.ended a ha hFinal] at hNot
      exact absurd hNot (by simp)
    · have := h.asked b hb
      omega
    · rw [hb, ← ha, hFinal] at hNot
      exact absurd hNot (by simp)
  query_ended hSome := by
    rw [hCluster]
    exact h.query_ended (hQuery ▸ hSome)
  query_later t ht b hb hNot := by
    rw [hQuery] at ht
    rcases hHolds b hb with hb | ⟨-, hb⟩
    · exact h.query_later t ht b hb hNot
    · rw [hb, h.query_ended (by simp [ht])] at hNot
      exact absurd hNot (by simp)
  stored hFinal := by
    rw [hQuery, hJob]
    exact h.stored (hJob ▸ hFinal)

/-- Only the answers of its own tick are new behind a step that asks. -/
structure Asks (s s' : Refreshes) : Prop where
  holds : ∀ a, s'.Holds a → s.Holds a ∨
    (a.tick = s.tick ∧ a.state.status.isFinal = s.cluster.status.isFinal)
  cluster : s'.cluster = s.cluster
  job : s'.job = s.job
  finalQuery : s'.finalQuery = s.finalQuery

theorem Asks.rfl : Asks s s := ⟨fun _ => Or.inl, Eq.refl _, Eq.refl _, Eq.refl _⟩

theorem Asks.begin_ : Asks s s.begin_ := by
  refine ⟨fun a ha => Or.inl (Refreshes.holds_begin ha), ?_, ?_, ?_⟩ <;>
  · unfold Refreshes.begin_
    split <;> rfl

theorem Asks.setPass {i : Nat} {p : PassStage}
    (hp : ∀ a, p.answer = some a → s.Holds a ∨
      (a.tick = s.tick ∧ a.state.status.isFinal = s.cluster.status.isFinal)) :
    Asks s (s.setPass i p) :=
  ⟨fun a ha => (Refreshes.holds_setPass ha).elim Or.inl (hp a), Eq.refl _, Eq.refl _, Eq.refl _⟩

theorem Refreshes.ask_eq_some {listed : Bool} (h : s.ask listed = some a) :
    a.tick = s.tick ∧ a.state.status.isFinal = s.cluster.status.isFinal := by
  unfold Refreshes.ask at h
  split at h
  · obtain rfl := some.inj h
    exact ⟨rfl, rfl⟩
  · cases h

/-- What a step does: it asks, the cluster moves on, or an answer is written. -/
theorem Refreshes.step_cases (s : Refreshes) (e : RefreshEvent) :
    Asks s (s.step e) ∨
    (∃ c, s.cluster.status.isFinal = false ∧ s.step e = { s with cluster := c }) ∨
    ∃ i now answer, e = .write i now ∧ s.passes[i]? = some (.answered answer) ∧
      s.step e = (s.setPass i .done).write answer now := by
  cases e with
  | cluster c =>
    by_cases hc : s.cluster.status.isFinal = true
    · exact Or.inl (by rw [Refreshes.step, if_pos hc]; exact Asks.rfl)
    · exact Or.inr (Or.inl ⟨c, by simpa using hc, by rw [Refreshes.step, if_neg hc]⟩)
  | refresh => exact Or.inl Asks.begin_
  | poll =>
    left
    simp only [Refreshes.step]
    split
    · exact Asks.begin_
    · exact Asks.rfl
  | sacct i listed =>
    left
    simp only [Refreshes.step]
    split
    · exact Asks.setPass fun a ha => Or.inr (Refreshes.ask_eq_some ha)
    · exact Asks.rfl
  | squeue i listed =>
    left
    simp only [Refreshes.step]
    split
    next fromSacct hp =>
      split
      next answer hAnswer =>
        refine Asks.setPass fun a ha => ?_
        obtain rfl : answer = a := some.inj ha
        rcases (orElse_eq_some _ _ _).mp hAnswer with hAnswer | ⟨-, hAnswer⟩
        · exact Or.inr (Refreshes.ask_eq_some hAnswer)
        · exact Or.inl (Refreshes.holds_of_getElem hp hAnswer)
      next => exact Asks.setPass (by simp [PassStage.answer])
    next => exact Asks.rfl
  | receipt i report =>
    left
    simp only [Refreshes.step]
    split
    · refine Asks.setPass fun a ha => Or.inr ?_
      simp only [PassStage.answer] at ha
      split at ha
      next hFinal =>
        obtain ⟨r, -, rfl⟩ := map_eq_some_iff.mp ha
        exact ⟨rfl, by rw [isFinal_exitReport, hFinal]⟩
      next => cases ha
    · exact Asks.rfl
  | write i now =>
    simp only [Refreshes.step]
    split
    next answer hp => exact Or.inr (Or.inr ⟨i, now, answer, rfl, hp, rfl⟩)
    next => exact Or.inl Asks.rfl
  | throws i => exact Or.inl (Asks.setPass (by simp [PassStage.answer]))
  | restart =>
    refine Or.inl ⟨fun a ha => ?_, rfl, rfl, rfl⟩
    obtain ⟨p, hp, -⟩ := ha
    cases hp

/-- Behind an unfinished cluster no final answer is known. -/
theorem Answered.clusterMoves (h : Answered s) (c : SlurmState)
    (hCluster : s.cluster.status.isFinal = false) :
    Answered { s with cluster := c, tick := s.tick + 1 } where
  asked a ha := Nat.lt_succ_of_lt (h.asked a ha)
  ended a ha hFinal := absurd (h.ended a ha hFinal) (by simp [hCluster])
  later := h.later
  query_ended hSome := absurd (h.query_ended hSome) (by simp [hCluster])
  query_later := h.query_later
  stored := h.stored

theorem Refreshes.write_none (now : Int) : s.write none now =
    if s.job.status.isActive then { s with job := vanished s.job now } else s := rfl

theorem Refreshes.write_cluster (answer : Option Answer) (now : Int) :
    (s.write answer now).cluster = s.cluster := by
  rcases answer with - | a
  · rw [Refreshes.write_none]
    split <;> rfl
  · rfl

theorem Refreshes.write_passes (answer : Option Answer) (now : Int) :
    (s.write answer now).passes = s.passes := by
  rcases answer with - | a
  · rw [Refreshes.write_none]
    split <;> rfl
  · rfl

theorem Refreshes.holds_done {i now : _} {answer : Option Answer}
    (h : ((s.setPass i .done).write answer now).Holds a) : s.Holds a := by
  rw [Refreshes.Holds, Refreshes.write_passes] at h
  exact (Refreshes.holds_setPass h).resolve_right (by simp [PassStage.answer])

theorem endedAt_applyState {job : JobRecord} {st : SlurmState} (h : st.status.isFinal = true) :
    (applyState job st now).endedAt = some (job.endedAt.getD now) := by
  have hActive := JobStatus.isActive_of_isFinal h
  have hSubmitted : st.status ≠ .submitted := by
    rintro hEq
    simp [hEq, JobStatus.isFinal] at h
  simp [applyState, hActive, hSubmitted]

/-- An answer that is in order is final, or no final answer has been written. -/
theorem Answered.final_or_none (h : Answered s) (hp : s.passes[i]? = some (.answered (some a)))
    (hOrder : InOrder s (.write i now)) : a.state.status.isFinal = true ∨ s.finalQuery = none := by
  rcases hNot : a.state.status.isFinal
  · refine Or.inr (eq_none_iff_forall_ne_some.mpr fun t ht => ?_)
    have hLate := hOrder a hp hNot t ht
    have hEarly := h.query_later t ht a (Refreshes.holds_of_getElem hp rfl) hNot
    omega
  · exact Or.inl rfl

/-- A written answer keeps the record in step with the queries. -/
theorem Answered.write (h : Answered s) {answer : Option Answer}
    (hp : s.passes[i]? = some (.answered answer)) :
    Answered { (s.setPass i .done).write answer now with tick := s.tick + 1 } := by
  have hHolds : ∀ a, Refreshes.Holds
      { (s.setPass i .done).write answer now with tick := s.tick + 1 } a → s.Holds a :=
    fun _ ha => (Refreshes.holds_done ha : s.Holds _)
  have hCluster := Refreshes.write_cluster (s := s.setPass i .done) answer now
  have hQuery : ∀ t, ((s.setPass i .done).write answer now).finalQuery = some t →
      s.finalQuery = some t ∨ ∃ a, s.Holds a ∧ a.state.status.isFinal = true ∧ a.tick ≤ t := by
    intro t ht
    rcases answer with - | a
    · left
      rw [Refreshes.write_none] at ht
      split at ht <;> exact ht
    · simp only [Refreshes.write] at ht
      split at ht
      next hFinal =>
        refine Or.inr ⟨a, Refreshes.holds_of_getElem hp rfl, hFinal, ?_⟩
        obtain rfl := some.inj ht
        exact Nat.le_max_left _ _
      next => exact Or.inl ht
  refine ⟨fun a ha => Nat.lt_succ_of_lt (h.asked a (hHolds a ha)), fun a ha hFinal => ?_,
    fun a b ha hb => h.later a b (hHolds a ha) (hHolds b hb), fun hSome => ?_,
    fun t ht b hb hNot => ?_, fun hFinal => ?_⟩
  · exact hCluster.trans rfl ▸ h.ended a (hHolds a ha) hFinal
  · obtain ⟨t, ht⟩ := isSome_iff_exists.mp hSome
    rw [show Refreshes.cluster _ = s.cluster from hCluster]
    rcases hQuery t ht with ht | ⟨a, ha, hFinal, -⟩
    · exact h.query_ended (by simp [ht])
    · exact h.ended a ha hFinal
  · rcases hQuery t ht with ht | ⟨a, ha, hFinal, hLe⟩
    · exact h.query_later t ht b (hHolds b hb) hNot
    · have := h.later a b ha (hHolds b hb) hFinal hNot
      omega
  · rcases answer with - | a
    · simp only [Refreshes.write_none] at hFinal ⊢
      split at hFinal
      next => cases hFinal
      next hActive =>
        rw [if_neg hActive]
        exact h.stored hFinal
    · have hFinal : a.state.status.isFinal = true := hFinal
      simp [Refreshes.write, hFinal, endedAt_applyState hFinal]

theorem Answered.step (h : Answered s) (e : RefreshEvent) : Answered (refreshStep s e) := by
  rcases s.step_cases e with hAsks | ⟨c, hc, hStep⟩ | ⟨i, now, answer, rfl, hp, hStep⟩
  · exact h.ask hAsks.holds rfl hAsks.cluster hAsks.job hAsks.finalQuery
  · rw [refreshStep, hStep]
    exact h.clusterMoves c hc
  · rw [refreshStep, hStep]
    exact h.write hp

/-- What a step leaves of a finished job. -/
theorem Answered.finished_step (h : Answered s) {e : RefreshEvent} (hOrder : InOrder s e)
    (hFinal : s.job.status.isFinal = true) : (refreshStep s e).job.status.isFinal = true := by
  rcases s.step_cases e with hAsks | ⟨c, -, hStep⟩ | ⟨i, now, answer, rfl, hp, hStep⟩
  · simpa only [refreshStep, hAsks.job] using hFinal
  · simpa only [refreshStep, hStep] using hFinal
  · simp only [refreshStep, hStep]
    rcases answer with - | a
    · have hActive : (s.setPass i .done).job.status.isActive = false :=
        JobStatus.isActive_of_isFinal hFinal
      simp only [Refreshes.write_none, hActive, Bool.false_eq_true, if_false]
      exact hFinal
    · rcases h.final_or_none hp hOrder with haFinal | hNone
      · exact haFinal
      · have hSome := (h.stored hFinal).1
        simp [hNone] at hSome

/-- An answer out of order takes the end of the job back. -/
theorem endedAt_of_not_inOrder {e : RefreshEvent} (h : ¬ InOrder s e) :
    (refreshStep s e).job.endedAt = none := by
  cases e with
  | write i now =>
    simp only [InOrder, not_forall] at h
    obtain ⟨a, hp, hNot, -⟩ := h
    have hActive := a.state.mapped.resolve_right (by simp [hNot])
    simp [refreshStep, Refreshes.step, hp, Refreshes.write, applyState, hActive]
  | _ => exact absurd trivial h

end steps

/-! ## Runs -/

theorem answered_run {cluster : SlurmState} {job : JobRecord} (hNew : job.status.isFinal = false)
    (es : List RefreshEvent) : Answered (run refreshStep (.start cluster job) es) :=
  run_invariant Answered (fun _ e h => h.step e) (answered_start hNew) es

/-- What must not be undone of a finished job. -/
structure StaysFinished (job : JobRecord) : Prop where
  not_pending : job.status ≠ .pending
  not_running : job.status ≠ .running
  ended : job.endedAt.isSome

theorem Answered.staysFinished {s : Refreshes} (h : Answered s)
    (hFinal : s.job.status.isFinal = true) : StaysFinished s.job where
  not_pending hEq := by simp [hEq, JobStatus.isFinal] at hFinal
  not_running hEq := by simp [hEq, JobStatus.isFinal] at hFinal
  ended := (h.stored hFinal).2

/-- A finished job stays finished exactly as long as no answer that is not final is written behind
a final answer to a later query. -/
theorem final_stays_iff {cluster : SlurmState} {job : JobRecord}
    (hNew : job.status.isFinal = false) {es : List RefreshEvent}
    (hFinal : (run refreshStep (.start cluster job) es).job.status.isFinal = true)
    (fs : List RefreshEvent) :
    (∀ gs, gs <+: fs → StaysFinished (run refreshStep (.start cluster job) (es ++ gs)).job) ↔
      Guarded refreshStep InOrder (run refreshStep (.start cluster job) es) fs := by
  constructor
  · intro h
    refine guarded_of_forall_split fun pre e post hSplit => ?_
    by_contra hNot
    have hEnded := (h (pre ++ [e]) ⟨post, by simp [hSplit]⟩).ended
    rw [← List.append_assoc, run_concat, run_append, endedAt_of_not_inOrder hNot] at hEnded
    cases hEnded
  · rintro h gs ⟨post, rfl⟩
    have hBefore := (guarded_append.mp h).1
    have hKept := run_invariant_guarded
      (fun s => Answered s ∧ s.job.status.isFinal = true)
      (fun s e hs hGuard => ⟨hs.1.step e, hs.1.finished_step hGuard hs.2⟩)
      ⟨answered_run hNew es, hFinal⟩ hBefore
    rw [run_append]
    exact hKept.1.staysFinished hKept.2

/-! ## An answer that is overtaken -/

def runningState : SlurmState :=
  { status := .running, raw := js "RUNNING", reason := none, exitCode := none
    elapsedSeconds := some 60, node := some (js "gpu1"), mapped := Or.inl rfl }

def completedState : SlurmState :=
  { status := .completed, raw := js "COMPLETED", reason := none, exitCode := some 0
    elapsedSeconds := some 61, node := some (js "gpu1"), mapped := Or.inr rfl }

def submittedJob : JobRecord :=
  { status := .submitted, slurmJobId := some 7, slurmState := none, slurmReason := none
    exitCode := none, elapsedSeconds := none, node := none, message := none, startedAt := none
    endedAt := none, lastPolledAt := none, updatedAt := 0 }

/-- A poll has its answer, the job completes, and a refresh stores that. -/
def overtaking : List RefreshEvent :=
  [.poll, .sacct 0 true, .squeue 0 true, .cluster completedState,
    .refresh, .sacct 1 true, .squeue 1 false, .write 1 61000]

/-- The poll's answer is stored behind it: the completed job is running again. -/
theorem finished_runs_again :
    let finished := (run refreshStep (.start runningState submittedJob) overtaking).job
    let later :=
      (run refreshStep (.start runningState submittedJob) (overtaking ++ [.write 0 61002])).job
    finished.status = .completed ∧ finished.endedAt = some 61000 ∧
      later.status = .running ∧ later.endedAt = none := by
  decide +kernel

/-- Two passes ask of the completed job, and the first stores its answer. -/
def askedTwice : List RefreshEvent :=
  [.refresh, .cluster completedState, .refresh, .sacct 0 true, .squeue 0 false,
    .sacct 1 true, .squeue 1 false, .write 0 61000]

theorem final_stays_poll :
    StaysFinished (run refreshStep (.start runningState submittedJob)
      (askedTwice ++ [.write 1 61001, .poll])).job :=
  (final_stays_iff rfl (by decide +kernel) [.write 1 61001, .poll]).mpr (by
    refine ⟨fun a ha hNot => ?_, trivial, trivial⟩
    have hHeld : (run refreshStep (.start runningState submittedJob) askedTwice).passes[1]? =
        some (.answered (some ⟨completedState, 5⟩)) := by decide +kernel
    obtain rfl : (⟨completedState, 5⟩ : Answer) = a := by simpa [hHeld] using ha
    cases hNot) _ List.prefix_rfl

end TMEdge.Train
