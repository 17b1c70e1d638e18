import TMEdge.Build.Model
import TMEdge.Library.Trace

/-!
# One build at a time, in order

* `Sound`: the slot belongs to the one computation that runs, and what a stage has behind
  it was stored.
* `sound_run`: it holds after every run.
* `Sound.alone`: at most one build is executing.
-/

namespace TMEdge.Build

open Library List Function

/-! ## Definitions -/

/-- A record of this build was stored in this lifecycle. -/
def Stored (deeds : List Deed) (lifecycle : Lifecycle) (id : BuildId) : Prop :=
  ∃ r, .stored r ∈ deeds ∧ r.id = id ∧ r.lifecycle = lifecycle

/-- What a stage of the computation for `id` relies on. -/
def Stage.Good (deeds : List Deed) (id : BuildId) : Stage → Prop
  | .idle => True
  | .accepting r | .readingAccepted r => r.id = id ∧ r.lifecycle = .accepted
  | .starting r | .readingStarted r | .executing r | .flushing r _ _ | .savingArtifact r _
  | .rereading r | .draining r _ _ => r.id = id ∧ Stored deeds .accepted id
  | .succeeding r r' | .readingSucceeded r r' =>
    r.id = id ∧ r'.id = id ∧ r'.lifecycle = .succeeded ∧ Stored deeds .accepted id
  | .failing r | .readingFailed r =>
    r.id = id ∧ r.lifecycle = .failed ∧ Stored deeds .accepted id

/-- The record a stage waits to be written. -/
def Stage.writing (stage : Stage) : Option JobRecord :=
  match stage.query with
  | some (.create r) | some (.save r) => some r
  | _ => none

structure Job.Good (deeds : List Deed) (id : BuildId) (job : Job) : Prop where
  stage : job.stage.Good deeds id
  done : job.done = true → ∀ r, job.stage.writing = some r → .stored (normalizeJob r) ∈ deeds
  read : ∀ r, job.row = some r → .stored r ∈ deeds

/-- A build is executed when it is stored as accepted and as running. -/
def Prepared (before : List Deed) : Deed → Prop
  | .executes id => Stored before .accepted id ∧ Stored before .running id
  | .stored _ => True

structure Sound (s : State) : Prop where
  slot : ∀ id, (s.jobs id).stage ≠ .idle → s.activeId = some id
  jobs : ∀ id, (s.jobs id).Good s.deeds id
  rows : ∀ id r, s.rows id = some r → .stored r ∈ s.deeds
  latest : ∀ r, s.latest = some r → Stored s.deeds .accepted r.id
  writes : ∀ w ∈ s.writes, Stored s.deeds .accepted w.record.id ∧ w.record.lifecycle = .running
  deeds : ∀ r, .stored r ∈ s.deeds → Stored s.deeds .accepted r.id
  prepared : Justified Prepared s.deeds

variable {s : State} {id : BuildId} {deeds deeds' : List Deed} {stage : Stage} {r : JobRecord}

/-! ## Growing histories -/

theorem Stored.mono {l : Lifecycle} (h : Stored deeds l id) (hSub : deeds ⊆ deeds') :
    Stored deeds' l id := by
  obtain ⟨r, hMem, hr⟩ := h
  exact ⟨r, hSub hMem, hr⟩

theorem Stage.Good.mono (h : stage.Good deeds id) (hSub : deeds ⊆ deeds') :
    stage.Good deeds' id := by
  cases stage with
  | idle => trivial
  | accepting r => exact h
  | readingAccepted r => exact h
  | starting r => exact ⟨h.1, h.2.mono hSub⟩
  | readingStarted r => exact ⟨h.1, h.2.mono hSub⟩
  | executing r => exact ⟨h.1, h.2.mono hSub⟩
  | flushing r _ _ => exact ⟨h.1, h.2.mono hSub⟩
  | savingArtifact r _ => exact ⟨h.1, h.2.mono hSub⟩
  | rereading r => exact ⟨h.1, h.2.mono hSub⟩
  | draining r _ _ => exact ⟨h.1, h.2.mono hSub⟩
  | succeeding r r' => exact ⟨h.1, h.2.1, h.2.2.1, h.2.2.2.mono hSub⟩
  | readingSucceeded r r' => exact ⟨h.1, h.2.1, h.2.2.1, h.2.2.2.mono hSub⟩
  | failing r => exact ⟨h.1, h.2.1, h.2.2.mono hSub⟩
  | readingFailed r => exact ⟨h.1, h.2.1, h.2.2.mono hSub⟩

theorem Job.Good.mono {job : Job} (h : job.Good deeds id) (hSub : deeds ⊆ deeds') :
    job.Good deeds' id where
  stage := h.stage.mono hSub
  done hDone r hr := hSub (h.done hDone r hr)
  read r hr := hSub (h.read r hr)

/-- A stage that was just entered. -/
theorem Stage.Good.entered (h : stage.Good deeds id) :
    ({ stage } : Job).Good deeds id where
  stage := h
  done hDone := nomatch hDone
  read _ hr := nomatch hr

theorem Job.Good.idle : ({ stage := .idle } : Job).Good deeds id :=
  Stage.Good.entered (show Stage.idle.Good deeds id from trivial)

/-! ## The steps a computation is made of -/

theorem Sound.keep (h : Sound s) (hr : Stored s.deeds .accepted r.id) :
    Sound (s.keep r) where
  slot := h.slot
  jobs := h.jobs
  rows := h.rows
  latest r' hr' := by
    obtain rfl : r = r' := Option.some.inj hr'
    exact hr
  writes := h.writes
  deeds := h.deeds
  prepared := h.prepared

theorem put_stage (s : State) (id i : BuildId) (stage : Stage) :
    ((s.put id stage).jobs i).stage = if i = id then stage else (s.jobs i).stage := by
  unfold State.put
  by_cases hi : i = id
  · subst hi
    simp
  · simp [hi]

/-- The computation that holds the slot goes on. -/
theorem Sound.put (h : Sound s) (hSlot : s.activeId = some id) (hStage : stage.Good s.deeds id) :
    Sound (s.put id stage) where
  slot i hi := by
    by_cases hId : i = id
    · exact hId ▸ hSlot
    · rw [put_stage, if_neg hId] at hi
      exact h.slot i hi
  jobs i := by
    by_cases hId : i = id
    · subst hId
      simpa [State.put] using hStage.entered
    · simpa [State.put, update_of_ne hId] using h.jobs i
  rows := h.rows
  latest := h.latest
  writes := h.writes
  deeds := h.deeds
  prepared := h.prepared

/-- The computation that holds the slot ends, and gives the slot back or not. -/
theorem Sound.end_ (h : Sound s) {active : Option BuildId}
    (hSlot : ∀ i, (s.jobs i).stage ≠ .idle → i = id) :
    Sound { s.put id .idle with activeId := active } where
  slot i hi := by
    have hi' : (if i = id then Stage.idle else (s.jobs i).stage) ≠ .idle := by
      rw [← put_stage]
      exact hi
    by_cases hId : i = id
    · rw [if_pos hId] at hi'
      exact absurd rfl hi'
    · rw [if_neg hId] at hi'
      exact absurd (hSlot i hi') hId
  jobs i := by
    by_cases hId : i = id
    · subst hId
      simpa [State.put] using (Job.Good.idle : Job.Good s.deeds i _)
    · simpa [State.put, update_of_ne hId] using h.jobs i
  rows := h.rows
  latest := h.latest
  writes := h.writes
  deeds := h.deeds
  prepared := h.prepared

theorem Sound.only (h : Sound s) (hSlot : s.activeId = some id) {i : BuildId}
    (hi : (s.jobs i).stage ≠ .idle) : i = id := by
  have := h.slot i hi
  rw [hSlot] at this
  exact (Option.some.inj this).symm

theorem Sound.release (h : Sound s) (hSlot : s.activeId = some id) : Sound (s.release id) :=
  h.end_ fun _ hi => h.only hSlot hi

theorem Sound.flushProgress (h : Sound s) : Sound s.flushProgress := by
  unfold State.flushProgress
  split
  · exact ⟨h.slot, h.jobs, h.rows, h.latest, h.writes, h.deeds, h.prepared⟩
  · rename_i record hFlush
    refine ⟨h.slot, h.jobs, h.rows, h.latest, fun w hw => ?_, h.deeds, h.prepared⟩
    rcases mem_append.mp hw with hw | hw
    · exact h.writes w hw
    · obtain rfl := mem_singleton.mp hw
      unfold State.flushable at hFlush
      split at hFlush
      · obtain ⟨hLatest, hTest⟩ := Option.filter_eq_some_iff.mp hFlush
        have hTest' := of_decide_eq_true hTest
        exact ⟨h.latest record hLatest, hTest'.2⟩
      · cases hFlush

theorem Sound.setWrite (h : Sound s) {i : Nat} {w : Write} (hw : s.writes[i]? = some w)
    (status : WriteStatus) : Sound (s.setWrite i w status) where
  slot := h.slot
  jobs := h.jobs
  rows := h.rows
  latest := h.latest
  writes v hv := by
    rcases mem_or_eq_of_mem_set hv with hv | rfl
    · exact h.writes v hv
    · exact h.writes w (mem_of_getElem? hw)
  deeds := h.deeds
  prepared := h.prepared

theorem deeds_subset_store (s : State) (r : JobRecord) : s.deeds ⊆ (s.store r).deeds :=
  subset_append_left _ _

theorem mem_deeds_store (s : State) (r : JobRecord) :
    .stored (normalizeJob r) ∈ (s.store r).deeds :=
  mem_append_right _ (mem_singleton_self _)

/-- A record is stored whose build was accepted, or is just being accepted. -/
theorem Sound.store (h : Sound s) (hr : r.lifecycle = .accepted ∨ Stored s.deeds .accepted r.id) :
    Sound (s.store r) where
  slot := h.slot
  jobs i := (h.jobs i).mono (deeds_subset_store s r)
  rows i r' hr' := by
    by_cases hId : i = r.id
    · subst hId
      obtain rfl : normalizeJob r = r' := by simpa [State.store] using hr'
      exact mem_deeds_store s r
    · have hr'' : s.rows i = some r' := by
        simpa [State.store, update_of_ne hId] using hr'
      exact deeds_subset_store s r (h.rows i r' hr'')
  latest r' hr' := (h.latest r' hr').mono (deeds_subset_store s r)
  writes w hw := ⟨(h.writes w hw).1.mono (deeds_subset_store s r), (h.writes w hw).2⟩
  deeds r' hr' := by
    rcases mem_append.mp hr' with hr' | hr'
    · exact (h.deeds r' hr').mono (deeds_subset_store s r)
    · obtain rfl : r' = normalizeJob r := by simpa using hr'
      rw [normalizeJob_id]
      rcases hr with hr | hr
      · exact ⟨normalizeJob r, mem_deeds_store s r, normalizeJob_id r, by simpa using hr⟩
      · exact hr.mono (deeds_subset_store s r)
  prepared := by
    refine justified_concat h.prepared ?_
    trivial

theorem Sound.settle (h : Sound s) {row : Option JobRecord}
    (hDone : ∀ r, (s.jobs id).stage.writing = some r → .stored (normalizeJob r) ∈ s.deeds)
    (hRow : ∀ r, row = some r → .stored r ∈ s.deeds) : Sound (s.settle id row) where
  slot i hi := by
    refine h.slot i ?_
    by_cases hId : i = id
    · subst hId
      simpa [State.settle] using hi
    · simpa [State.settle, update_of_ne hId] using hi
  jobs i := by
    by_cases hId : i = id
    · subst hId
      simpa [State.settle] using
        (⟨(h.jobs i).stage, fun _ => hDone, hRow⟩ :
          Job.Good s.deeds i { s.jobs i with done := true, row })
    · simpa [State.settle, update_of_ne hId] using h.jobs i
  rows := h.rows
  latest := h.latest
  writes := h.writes
  deeds := h.deeds
  prepared := h.prepared

/-- A build that was stored as accepted and as running is executed. -/
theorem Sound.executes (h : Sound s) (hAccepted : Stored s.deeds .accepted id)
    (hRunning : Stored s.deeds .running id) :
    Sound { s with deeds := s.deeds ++ [.executes id] } := by
  have hSub : s.deeds ⊆ s.deeds ++ [.executes id] := subset_append_left _ _
  refine ⟨h.slot, fun i => (h.jobs i).mono hSub, fun i r hr => hSub (h.rows i r hr),
    fun r hr => (h.latest r hr).mono hSub,
    fun w hw => ⟨(h.writes w hw).1.mono hSub, (h.writes w hw).2⟩, fun r hr => ?_,
    justified_concat h.prepared ⟨hAccepted, hRunning⟩⟩
  have hr' : .stored r ∈ s.deeds := by simpa using hr
  exact (h.deeds r hr').mono hSub

/-! ## Steps -/

theorem filter_some {α : Type} {o : Option α} {p : α → Bool} {a : α} (h : o.filter p = some a) :
    o = some a ∧ p a = true :=
  Option.filter_eq_some_iff.mp h

theorem current_id (h : s.current id = some r) : r.id = id :=
  of_decide_eq_true (filter_some h).2

theorem sameIntent_id {a b : JobRecord} (h : sameIntent a b = true) : a.id = b.id := by
  simp only [sameIntent, Bool.and_eq_true, beq_iff_eq] at h
  exact h.1.1.1

theorem Sound.active (h : Sound s) (hStage : (s.jobs id).stage = stage) (hIdle : stage ≠ .idle) :
    s.activeId = some id :=
  h.slot id fun hNone => hIdle (hStage.symm.trans hNone)

theorem Sound.start (h : Sound s) (uploadId : Text) (actor : Actor) (now : Int) :
    Sound (s.start uploadId actor now) := by
  unfold State.start
  split
  · exact h
  · rename_i hFree
    have hNone : s.activeId = none := by
      cases hActive : s.activeId with
      | none => rfl
      | some i => simp [hActive] at hFree
    have hIdle : ∀ i, (s.jobs i).stage = .idle := by
      intro i
      by_contra hi
      exact nomatch hNone.symm.trans (h.slot i hi)
    dsimp only
    set id : BuildId := ⟨now, s.sequence + 1⟩
    have hTaken : Sound { s with
        sequence := s.sequence + 1
        activeId := some id
        progressWrite := none
        hasPendingProgress := false } :=
      ⟨fun i hi => absurd (hIdle i) hi, h.jobs, h.rows, h.latest, h.writes, h.deeds, h.prepared⟩
    exact hTaken.put rfl ⟨rfl, rfl⟩

theorem Sound.afterAccept (h : Sound s) (hSlot : s.activeId = some id) (hId : r.id = id)
    (hStored : Stored s.deeds .accepted id) : Sound (s.afterAccept id r) := by
  have hKeep : Sound (s.keep r) := h.keep (hId ▸ hStored)
  unfold State.afterAccept
  dsimp only
  split
  · exact hKeep.put hSlot trivial
  · exact hKeep.put hSlot ⟨hId, hStored⟩

theorem Sound.afterRunning (h : Sound s) (hSlot : s.activeId = some id) {latest : JobRecord}
    (hLatest : latest.id = id) (hId : r.id = id) (hStored : Stored s.deeds .accepted id)
    (hRunning : Stored s.deeds .running id) : Sound (s.afterRunning id latest r) := by
  have hKeep : Sound (s.keep latest) := h.keep (hLatest ▸ hStored)
  unfold State.afterRunning
  dsimp only
  split
  · exact hKeep.put hSlot trivial
  · have hPut : Sound ((s.keep latest).put id (.executing r.running)) :=
      hKeep.put hSlot ⟨hId, hStored⟩
    exact hPut.executes hStored hRunning

theorem Sound.afterSuccess (h : Sound s) (hSlot : s.activeId = some id) {r' : JobRecord}
    (hId : r.id = id) (hId' : r'.id = id) (hStored : Stored s.deeds .accepted id)
    (activated : Bool) : Sound (s.afterSuccess id r r' activated) := by
  have hKeep : Sound (s.keep r') := h.keep (hId' ▸ hStored)
  unfold State.afterSuccess
  dsimp only
  split
  · exact hKeep.release hSlot
  · exact hKeep.put hSlot ⟨hId, hStored⟩

/-- What a `get` resolved to was stored. -/
theorem Job.Good.committed {job : Job} (h : job.Good deeds id) {ok : Bool}
    (hRow : job.committed ok = some r) : .stored r ∈ deeds := by
  cases ok with
  | false => cases hRow
  | true => exact h.read r hRow

theorem Sound.answer (h : Sound s) (id : BuildId) (ok activated : Bool) :
    Sound (s.answer id ok activated) := by
  have hGood := h.jobs id
  have hStage := hGood.stage
  have hSlot := h.slot id
  have hWriting := hGood.done
  unfold State.answer
  dsimp only
  split
  · exact h
  rename_i hSettled
  have hDone : ok = true → (s.jobs id).done = true := by
    intro hOk
    by_contra hDone
    exact hSettled ⟨hOk, by simpa using hDone⟩
  generalize (s.jobs id).stage = stage at hStage hSlot hWriting ⊢
  cases stage with
  | accepting r =>
    have hSlot := hSlot (by simp)
    dsimp only
    split
    · rename_i hOk
      have hMem := hWriting (hDone hOk) r rfl
      exact h.afterAccept hSlot hStage.1
        ⟨_, hMem, by simpa using hStage.1, by simpa using hStage.2⟩
    · exact h.put hSlot hStage
  | readingAccepted r =>
    have hSlot := hSlot (by simp)
    dsimp only
    split
    · rename_i hAny
      obtain ⟨row, hRow, hSame⟩ := (Option.any_eq_true _ _).mp hAny
      have hMem := hGood.committed hRow
      have hId : row.id = id := (sameIntent_id hSame).trans hStage.1
      exact h.afterAccept hSlot hStage.1 (hId ▸ h.deeds row hMem)
    · exact h.end_ fun _ hi => h.only hSlot hi
  | starting r =>
    have hSlot := hSlot (by simp)
    dsimp only
    split
    · rename_i hOk
      have hMem := hWriting (hDone hOk) r.running rfl
      refine h.afterRunning hSlot hStage.1 hStage.1 hStage.2 ⟨_, hMem, ?_, ?_⟩
      · simpa [JobRecord.running] using hStage.1
      · simp [JobRecord.running]
    · exact h.put hSlot hStage
  | readingStarted r =>
    have hSlot := hSlot (by simp)
    dsimp only
    split
    · rename_i row hRow
      split
      · rename_i hSame
        have hId : row.id = id := (sameIntent_id hSame.2).trans hStage.1
        exact h.afterRunning hSlot hId hStage.1 hStage.2
          ⟨row, hGood.committed hRow, hId, hSame.1⟩
      · exact h.put hSlot trivial
    · exact h.put hSlot trivial
  | succeeding r r' =>
    have hSlot := hSlot (by simp)
    dsimp only
    split
    · exact h.afterSuccess hSlot hStage.1 hStage.2.1 hStage.2.2.2 activated
    · exact h.put hSlot hStage
  | readingSucceeded r r' =>
    have hSlot := hSlot (by simp)
    dsimp only
    split
    · exact h.afterSuccess hSlot hStage.1 hStage.2.1 hStage.2.2.2 activated
    · exact h.put hSlot ⟨hStage.1, hStage.2.2.2⟩
  | rereading r =>
    have hSlot := hSlot (by simp)
    dsimp only
    split
    · rename_i row hRow
      split
      · rename_i hSame
        have hId : row.id = id := (sameIntent_id hSame.2).trans hStage.1
        exact (h.keep (hId ▸ hStage.2)).release hSlot
      · exact h.release hSlot
    · exact h.release hSlot
  | failing r =>
    have hSlot := hSlot (by simp)
    dsimp only
    split
    · exact (h.keep (hStage.1 ▸ hStage.2.2)).release hSlot
    · exact h.put hSlot hStage
  | readingFailed r =>
    have hSlot := hSlot (by simp)
    dsimp only
    split
    · exact (h.keep (hStage.1 ▸ hStage.2.2)).release hSlot
    · exact h.release hSlot
  | idle => exact h
  | executing r => exact h
  | flushing r result tail => exact h
  | savingArtifact r result => exact h
  | draining r error tail => exact h

theorem Sound.carryOut (h : Sound s) (id : BuildId) : Sound (s.carryOut id) := by
  have hStage := (h.jobs id).stage
  have hNoRow : ∀ {P : JobRecord → Prop} r, none = some r → P r := fun _ hr => nomatch hr
  unfold State.carryOut
  dsimp only
  split
  · exact h
  split
  · exact h
  · rename_i r hQuery
    have hr : r.lifecycle = .accepted := by
      cases hAt : (s.jobs id).stage <;> rw [hAt] at hQuery hStage <;> cases hQuery
      exact hStage.2
    split
    · exact h
    · refine (h.store (.inl hr)).settle (fun r' hr' => ?_) hNoRow
      have hWriting : (s.jobs id).stage.writing = some r := by
        unfold Stage.writing
        rw [hQuery]
      obtain rfl : r = r' := Option.some.inj (hWriting.symm.trans hr')
      exact mem_deeds_store s r
  · rename_i r hQuery
    have hr : Stored s.deeds .accepted r.id := by
      cases hAt : (s.jobs id).stage <;> rw [hAt] at hQuery hStage <;> cases hQuery
      · exact hStage.1 ▸ hStage.2
      · exact hStage.2.1 ▸ hStage.2.2.2
      · exact hStage.1 ▸ hStage.2.2
    refine (h.store (.inr hr)).settle (fun r' hr' => ?_) hNoRow
    have hWriting : (s.jobs id).stage.writing = some r := by
      unfold Stage.writing
      rw [hQuery]
    obtain rfl : r = r' := Option.some.inj (hWriting.symm.trans hr')
    exact mem_deeds_store s r
  · rename_i jobId hQuery
    refine h.settle (fun r hr => ?_) fun r hr => h.rows jobId r hr
    unfold Stage.writing at hr
    rw [hQuery] at hr
    cases hr

theorem Sound.issue (h : Sound s) (i : Nat) : Sound (s.issue i) := by
  unfold State.issue
  split
  · rename_i w hw
    split
    · exact h.setWrite hw _
    · exact h
  · exact h

theorem Sound.carryOutWrite (h : Sound s) (i : Nat) : Sound (s.carryOutWrite i) := by
  unfold State.carryOutWrite
  split
  · rename_i w hw
    split
    · exact (h.store (.inr (h.writes w (mem_of_getElem? hw)).1)).setWrite hw _
    · exact h
  · exact h

theorem Sound.answerWrite (h : Sound s) (i : Nat) (ok : Bool) : Sound (s.answerWrite i ok) := by
  unfold State.answerWrite
  split
  · rename_i w hw
    split
    · exact h.setWrite hw _
    · exact h
  · exact h

theorem Sound.caught (h : Sound s) (hSlot : s.activeId = some id) (hId : r.id = id)
    (hStored : Stored s.deeds .accepted id) (error : Failure) : Sound (s.caught r error) := by
  subst hId
  exact h.put hSlot ⟨rfl, hStored⟩

theorem flushProgress_activeId (s : State) : s.flushProgress.activeId = s.activeId := by
  unfold State.flushProgress
  split <;> rfl

theorem flushProgress_deeds (s : State) : s.flushProgress.deeds = s.deeds := by
  unfold State.flushProgress
  split <;> rfl

theorem Sound.executed (h : Sound s) (id : BuildId) (result : Except Failure BuildResult) :
    Sound (s.executed id result) := by
  have hStage := (h.jobs id).stage
  unfold State.executed
  split
  · rename_i hAt
    rw [hAt] at hStage
    refine h.flushProgress.put ?_ ?_
    · exact (flushProgress_activeId s).trans (h.active hAt (by simp))
    · rw [flushProgress_deeds]
      exact hStage
  · rename_i hAt
    rw [hAt] at hStage
    exact h.caught (h.active hAt (by simp)) hStage.1 hStage.2 _
  · exact h

theorem Sound.drained (h : Sound s) (id : BuildId) (error : Failure) (now : Int) :
    Sound (s.drained id error now) := by
  have hStage := (h.jobs id).stage
  unfold State.drained
  split
  · rename_i hAt
    rw [hAt] at hStage
    have hSlot := h.active hAt (by simp)
    split
    · exact h
    · exact h.put hSlot hStage
    · exact h.caught hSlot hStage.1 hStage.2 _
  · rename_i hAt
    rw [hAt] at hStage
    have hSlot := h.active hAt (by simp)
    split
    · exact h
    split
    · exact h.release hSlot
    · rename_i current hCurrent
      have hId : current.id = id := current_id hCurrent
      exact h.put hSlot ⟨hId, rfl, hStage.2⟩
  · exact h

theorem Sound.artifactSaved (h : Sound s) (id : BuildId) (outcome : Except Failure Int) :
    Sound (s.artifactSaved id outcome) := by
  have hStage := (h.jobs id).stage
  unfold State.artifactSaved
  split
  · rename_i hAt
    rw [hAt] at hStage
    have hSlot := h.active hAt (by simp)
    split
    · exact h.caught hSlot hStage.1 hStage.2 _
    · rename_i current hCurrent
      have hId : current.id = id := current_id hCurrent
      exact h.put hSlot ⟨hStage.1, hId, rfl, hStage.2⟩
  · rename_i hAt
    rw [hAt] at hStage
    exact h.caught (h.active hAt (by simp)) hStage.1 hStage.2 _
  · exact h

theorem Sound.recordProgress (h : Sound s) (id : BuildId) (line : Text) :
    Sound (s.recordProgress id line) := by
  unfold State.recordProgress
  split
  · exact h
  split
  · exact h
  · rename_i base hBase
    refine ⟨h.slot, h.jobs, h.rows, fun r hr => ?_, h.writes, h.deeds, h.prepared⟩
    obtain rfl := Option.some.inj hr
    exact h.latest base (filter_some hBase).1

/-- Every step keeps the one computation and its history in order. -/
theorem Sound.step (h : Sound s) (e : Event) : Sound (step s e) := by
  cases e with
  | start uploadId actor now => exact h.start uploadId actor now
  | carryOut id => exact h.carryOut id
  | answer id ok activated => exact h.answer id ok activated
  | line id text =>
    unfold Build.step
    dsimp only
    split
    · exact h.recordProgress id text
    · exact h
  | timer =>
    unfold Build.step
    dsimp only
    split
    · exact h.flushProgress
    · exact h
  | issue i => exact h.issue i
  | carryOutWrite i => exact h.carryOutWrite i
  | answerWrite i ok => exact h.answerWrite i ok
  | executed id result => exact h.executed id result
  | drained id error now => exact h.drained id error now
  | artifactSaved id outcome => exact h.artifactSaved id outcome
  | dispose => exact ⟨h.slot, h.jobs, h.rows, h.latest, h.writes, h.deeds, h.prepared⟩

theorem sound_init : Sound {} where
  slot _ hId := absurd rfl hId
  jobs _ := Job.Good.idle
  rows _ _ hr := nomatch hr
  latest _ hr := nomatch hr
  writes _ hw := nomatch hw
  deeds _ hr := nomatch hr
  prepared := justified_nil

theorem sound_run (es : List Event) : Sound (run step {} es) :=
  run_invariant Sound (fun _ e hs => hs.step e) sound_init es

/-! ## What it says -/

/-- `executor.execute` is running for this build. -/
def State.Executing (s : State) (id : BuildId) : Prop :=
  ∃ started, (s.jobs id).stage = .executing started

/-- At most one build is executing. -/
theorem Sound.alone (h : Sound s) {i j : BuildId} (hi : s.Executing i) (hj : s.Executing j) :
    i = j := by
  obtain ⟨_, hi⟩ := hi
  obtain ⟨_, hj⟩ := hj
  have hSlot := h.active hi (by simp)
  rw [h.active hj (by simp)] at hSlot
  exact (Option.some.inj hSlot).symm

end TMEdge.Build
