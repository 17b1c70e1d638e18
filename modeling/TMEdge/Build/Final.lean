import TMEdge.Build.Order

/-!
# A terminal record is the last one

* `Final`: no record is stored as accepted or running behind a terminal one of its build.
* `Timely`: the timer saves progress only while the executor of the build runs.
* `Chain`: the chain of progress saves settles from its first link to its last.
* `Closed.step`: timely steps keep `Final`, because a terminal record is saved only behind
  a chain that has settled and that nothing is added to.
* `terminal_final`: every run executes one build at a time, accepted and running before, and
  a timely run is final.
* `failed_then_running`: a line reported less than a second before the executor fails.
-/

namespace TMEdge.Build

open Library List

/-! ## Definitions -/

def Lifecycle.terminal : Lifecycle → Bool
  | .succeeded | .failed => true
  | _ => false

def Lifecycle.active : Lifecycle → Bool
  | .accepted | .running => true
  | _ => false

/-- The second deed stores a build as accepted or running that the first one ended. -/
def Deed.reopens : Deed → Deed → Bool
  | .stored r, .stored r' => r.id == r'.id && r.lifecycle.terminal && r'.lifecycle.active
  | _, _ => false

/-- Behind a terminal record of a build no active one is stored. -/
def Final (deeds : List Deed) : Prop := deeds.Pairwise fun a b => a.reopens b = false

def Stage.isExecuting : Stage → Bool
  | .executing _ => true
  | _ => false

/-- When the timer has progress to save, the executor of the build has not settled yet. -/
def Timely (s : State) : Event → Prop
  | .timer => s.progressTimer = true → s.flushable.isSome = true →
      s.activeId.any (fun id => (s.jobs id).stage.isExecuting) = true
  | _ => True

instance (s : State) (e : Event) : Decidable (Timely s e) :=
  match e with
  | .timer => inferInstanceAs (Decidable (_ → _ → _))
  | .start _ _ _ | .carryOut _ | .answer _ _ _ | .line _ _ | .issue _ | .carryOutWrite _
  | .answerWrite _ _ | .executed _ _ | .drained _ _ _ | .artifactSaved _ _ | .dispose =>
    isTrue trivial

/-- The computation has issued its terminal write or is not running. -/
def Stage.closing : Stage → Bool
  | .idle | .succeeding _ _ | .readingSucceeded _ _ | .rereading _ | .failing _
  | .readingFailed _ => true
  | _ => false

/-- The computation still waits for the chain or will come to it. -/
def Stage.unsettled : Stage → Bool
  | .executing _ | .flushing _ _ _ | .draining _ _ _ => true
  | _ => false

/-- The link a computation waits for. -/
def Stage.tail : Stage → Option Tail
  | .flushing _ _ tail | .draining _ _ tail => some tail
  | _ => none

def Write.Settled (w : Write) : Prop := w.status = .resolved ∨ w.status = .rejected

/-- The links before the `n`-th have settled. -/
def SettledBelow (ws : List Write) (n : Nat) : Prop :=
  ∀ (i : Nat) (w : Write), i < n → ws[i]? = some w → w.Settled

structure Chain (ws : List Write) (tail : Tail) : Prop where
  issued : ∀ (j : Nat) v, ws[j]? = some v → v.status ≠ .queued → SettledBelow ws j
  queued : ∀ (j : Nat) v, ws[j]? = some v →
    (v.previous = none ∧ SettledBelow ws j) ∨ ∃ p, v.previous = some p ∧ p + 1 = j
  last : (tail = none ∧ SettledBelow ws ws.length) ∨ ∃ t, tail = some t ∧ t + 1 = ws.length

structure Closed (s : State) : Prop where
  fresh : ∀ id, s.activeId = some id → id.sequence ≤ s.sequence
  known : ∀ r, .stored r ∈ s.deeds → r.id.sequence ≤ s.sequence
  final : Final s.deeds
  closing : ∀ r, .stored r ∈ s.deeds → r.lifecycle.terminal = true →
    (s.jobs r.id).stage.closing = true
  writes : ∀ w ∈ s.writes, w.Settled ∨ (s.jobs w.record.id).stage.unsettled = true
  waits : ∀ id tail, (s.jobs id).stage.tail = some tail → tail = s.progressWrite
  chain : Chain s.writes s.progressWrite

/-! ## The chain -/

section Chain

variable {ws : List Write} {tail : Tail} {v : Write} {j : Nat}

theorem SettledBelow.mem (h : SettledBelow ws ws.length) {w : Write} (hw : w ∈ ws) : w.Settled := by
  obtain ⟨i, hi⟩ := getElem?_of_mem hw
  exact h i w (List.getElem?_eq_some_iff.mp hi).1 hi

theorem concat_last {u : Write} (hj : ws.length ≤ j) (h : (ws ++ [v])[j]? = some u) :
    j = ws.length ∧ u = v := by
  rw [getElem?_append_right hj, getElem?_singleton] at h
  split at h
  · rename_i hZero
    exact ⟨by omega, (Option.some.inj h).symm⟩
  · cases h

theorem SettledBelow.concat {n : Nat} (hn : n ≤ ws.length) (h : SettledBelow ws n) (v : Write) :
    SettledBelow (ws ++ [v]) n := by
  intro i w hi hw
  rw [getElem?_append_left (by omega)] at hw
  exact h i w hi hw

/-- What is below a link that has not settled is not that link. -/
theorem SettledBelow.set {n : Nat} (h : SettledBelow ws n) (hv : ws[j]? = some v)
    (hOpen : ¬ v.Settled) (u : Write) : SettledBelow (ws.set j u) n := by
  intro i w hi hw
  have hne : j ≠ i := by
    rintro rfl
    exact hOpen (h j v hi hv)
  rw [getElem?_set_ne hne] at hw
  exact h i w hi hw

theorem Chain.below (h : Chain ws tail) (hv : ws[j]? = some v) (hSettled : v.Settled) :
    SettledBelow ws (j + 1) := by
  have hIssued : v.status ≠ .queued := by
    rcases hSettled with hs | hs <;> simp [hs]
  intro i w hi hw
  rcases Nat.lt_succ_iff_lt_or_eq.mp hi with hi | rfl
  · exact h.issued j v hv hIssued i w hi hw
  · rw [hv] at hw
    cases hw
    exact hSettled

theorem outcome_settled {s : State} {i : Nat} (h : (s.outcome (some i)).isSome = true) :
    ∃ w, s.writes[i]? = some w ∧ w.Settled := by
  unfold State.outcome at h
  dsimp only at h
  cases hw : s.writes[i]? with
  | none => simp [hw] at h
  | some w =>
    refine ⟨w, rfl, ?_⟩
    rw [hw, Option.bind_some] at h
    split at h
    · rename_i hs
      exact Or.inl hs
    · rename_i hs
      exact Or.inr hs
    · cases h

/-- When the last link has settled, all have. -/
theorem Chain.all_settled {s : State} (h : Chain s.writes s.progressWrite)
    (hOutcome : (s.outcome s.progressWrite).isSome = true) : ∀ w ∈ s.writes, w.Settled := by
  rcases h.last with ⟨_, hAll⟩ | ⟨t, hTail, hLast⟩
  · exact fun w hw => hAll.mem hw
  · rw [hTail] at hOutcome
    obtain ⟨v, hv, hSettled⟩ := outcome_settled hOutcome
    have hAll := h.below hv hSettled
    rw [hLast] at hAll
    exact fun w hw => hAll.mem hw

theorem Chain.concat (h : Chain ws tail) (r : JobRecord) :
    Chain (ws ++ [⟨r, tail, .queued⟩]) (some ws.length) where
  issued j v hv hStatus := by
    rcases Nat.lt_or_ge j ws.length with hj | hj
    · rw [getElem?_append_left hj] at hv
      exact (h.issued j v hv hStatus).concat hj.le _
    · obtain ⟨rfl, rfl⟩ := concat_last hj hv
      exact absurd rfl hStatus
  queued j v hv := by
    rcases Nat.lt_or_ge j ws.length with hj | hj
    · rw [getElem?_append_left hj] at hv
      rcases h.queued j v hv with ⟨hNone, hBelow⟩ | hSome
      · exact Or.inl ⟨hNone, hBelow.concat hj.le _⟩
      · exact Or.inr hSome
    · obtain ⟨rfl, rfl⟩ := concat_last hj hv
      rcases h.last with ⟨hNone, hBelow⟩ | hSome
      · exact Or.inl ⟨hNone, hBelow.concat le_rfl _⟩
      · exact Or.inr hSome
  last := Or.inr ⟨ws.length, rfl, by simp⟩

/-- A link behind settled ones goes on. -/
theorem Chain.set (h : Chain ws tail) (hv : ws[j]? = some v) (hOpen : ¬ v.Settled)
    (hBelow : SettledBelow ws j) (status : WriteStatus) :
    Chain (ws.set j { v with status }) tail where
  issued i w hw hStatus := by
    by_cases hi : j = i
    · subst hi
      exact hBelow.set hv hOpen _
    · rw [getElem?_set_ne hi] at hw
      exact (h.issued i w hw hStatus).set hv hOpen _
  queued i w hw := by
    by_cases hi : j = i
    · subst hi
      obtain rfl : { v with status } = w := by
        have hj := (List.getElem?_eq_some_iff.mp hv).1
        rw [getElem?_set_self hj] at hw
        exact Option.some.inj hw
      rcases h.queued j v hv with ⟨hNone, _⟩ | hSome
      · exact Or.inl ⟨hNone, hBelow.set hv hOpen _⟩
      · exact Or.inr hSome
    · rw [getElem?_set_ne hi] at hw
      rcases h.queued i w hw with ⟨hNone, hi'⟩ | hSome
      · exact Or.inl ⟨hNone, hi'.set hv hOpen _⟩
      · exact Or.inr hSome
  last := by
    rw [length_set]
    rcases h.last with ⟨hNone, hAll⟩ | hSome
    · exact Or.inl ⟨hNone, hAll.set hv hOpen _⟩
    · exact Or.inr hSome

end Chain

/-! ## What keeps it -/

variable {s : State} {id : BuildId} {old : Stage} {r : JobRecord}

theorem Closed.keep (h : Closed s) (r : JobRecord) : Closed (s.keep r) :=
  ⟨h.fresh, h.known, h.final, h.closing, h.writes, h.waits, h.chain⟩

/-- A computation goes on: it stays closing, and leaves the chain when that has settled. -/
theorem Closed.put (h : Closed s) {stage : Stage}
    (hClosing : (∃ r, .stored r ∈ s.deeds ∧ r.lifecycle.terminal = true ∧ r.id = id) →
      stage.closing = true)
    (hUnsettled : (s.jobs id).stage.unsettled = true →
      stage.unsettled = true ∨ ∀ w ∈ s.writes, w.Settled)
    (hTail : ∀ tail, stage.tail = some tail → tail = s.progressWrite) :
    Closed (s.put id stage) where
  fresh := h.fresh
  known := h.known
  final := h.final
  closing r hr hTerminal := by
    rw [put_stage]
    split
    · rename_i hId
      exact hClosing ⟨r, hr, hTerminal, hId⟩
    · exact h.closing r hr hTerminal
  writes w hw := by
    rcases h.writes w hw with hSettled | hOld
    · exact Or.inl hSettled
    · rw [put_stage]
      split
      · rename_i hId
        rcases hUnsettled (hId ▸ hOld) with hNew | hAll
        · exact Or.inr hNew
        · exact Or.inl (hAll w hw)
      · exact Or.inr hOld
  waits i tail hWaits := by
    rw [put_stage] at hWaits
    split at hWaits
    · exact hTail tail hWaits
    · exact h.waits i tail hWaits
  chain := h.chain

/-- A computation that is not closing has no terminal record. -/
theorem Closed.not_ended (h : Closed s) (hNot : (s.jobs id).stage.closing = false) {P : Prop} :
    (∃ r, .stored r ∈ s.deeds ∧ r.lifecycle.terminal = true ∧ r.id = id) → P := by
  rintro ⟨r, hr, hTerminal, rfl⟩
  have hClosing := h.closing r hr hTerminal
  rw [hNot] at hClosing
  cases hClosing

/-- What a stage that does not wait for the chain is followed by. -/
def Stage.follows (old new : Stage) : Bool :=
  (!old.closing || new.closing) && !old.unsettled && new.tail.isNone

theorem Closed.follow (h : Closed s) {stage : Stage} (hAt : (s.jobs id).stage = old)
    (hFollows : old.follows stage = true) : Closed (s.put id stage) := by
  simp only [Stage.follows, Bool.and_eq_true, Bool.or_eq_true, Bool.not_eq_true',
    Option.isNone_iff_eq_none] at hFollows
  obtain ⟨⟨hClosing, hUnsettled⟩, hTail⟩ := hFollows
  refine h.put ?_ (fun hOld => ?_) (fun tail hNew => ?_)
  · rcases hClosing with hOld | hNew
    · exact h.not_ended (hAt ▸ hOld)
    · exact fun _ => hNew
  · rw [hAt, hUnsettled] at hOld
    cases hOld
  · rw [hTail] at hNew
    cases hNew

theorem Closed.free (h : Closed s) : Closed { s with activeId := none } :=
  ⟨(fun _ hActive => nomatch hActive), h.known, h.final, h.closing, h.writes, h.waits, h.chain⟩

theorem Closed.release (h : Closed s) (hAt : (s.jobs id).stage = old)
    (hFollows : old.follows .idle = true) : Closed (s.release id) :=
  (h.follow hAt hFollows).free

theorem Final.concat {deeds : List Deed} {d : Deed} (h : Final deeds)
    (hLast : ∀ a ∈ deeds, a.reopens d = false) : Final (deeds ++ [d]) := by
  refine pairwise_append.mpr ⟨h, pairwise_singleton _ _, fun a ha b hb => ?_⟩
  obtain rfl := mem_singleton.mp hb
  exact hLast a ha

/-- A record is stored while its build may be in that lifecycle. -/
theorem Closed.store (h : Closed s) (hKnown : r.id.sequence ≤ s.sequence)
    (hActive : r.lifecycle.active = true → (s.jobs r.id).stage.closing = false)
    (hTerminal : r.lifecycle.terminal = true → (s.jobs r.id).stage.closing = true) :
    Closed (s.store r) where
  fresh := h.fresh
  known r' hr' := by
    rcases mem_append.mp hr' with hr' | hr'
    · exact h.known r' hr'
    · obtain rfl : r' = normalizeJob r := by simpa using hr'
      rw [normalizeJob_id]
      exact hKnown
  final := by
    refine h.final.concat fun a ha => ?_
    cases a with
    | executes i => rfl
    | stored r' =>
      by_contra hReopens
      simp only [Deed.reopens, normalizeJob_id, normalizeJob_lifecycle, Bool.not_eq_false,
        Bool.and_eq_true, beq_iff_eq] at hReopens
      obtain ⟨⟨hId, hEnded⟩, hAgain⟩ := hReopens
      have hClosing := h.closing r' ha hEnded
      rw [hId, hActive hAgain] at hClosing
      cases hClosing
  closing r' hr' hEnded := by
    rcases mem_append.mp hr' with hr' | hr'
    · exact h.closing r' hr' hEnded
    · obtain rfl : r' = normalizeJob r := by simpa using hr'
      rw [normalizeJob_id]
      exact hTerminal (by simpa using hEnded)
  writes := h.writes
  waits := h.waits
  chain := h.chain

theorem settle_stage (s : State) (id i : BuildId) (row : Option JobRecord) :
    ((s.settle id row).jobs i).stage = (s.jobs i).stage := by
  unfold State.settle
  by_cases hi : i = id
  · subst hi
    simp
  · simp [hi]

theorem Closed.settle (h : Closed s) (id : BuildId) (row : Option JobRecord) :
    Closed (s.settle id row) where
  fresh := h.fresh
  known := h.known
  final := h.final
  closing r hr hEnded := by
    rw [settle_stage]
    exact h.closing r hr hEnded
  writes w hw := by
    rw [settle_stage]
    exact h.writes w hw
  waits i tail hTail := by
    rw [settle_stage] at hTail
    exact h.waits i tail hTail
  chain := h.chain

theorem Closed.executes (h : Closed s) (id : BuildId) :
    Closed { s with deeds := s.deeds ++ [.executes id] } where
  fresh := h.fresh
  known r hr := h.known r (by simpa using hr)
  final := by
    refine h.final.concat fun a _ => ?_
    cases a <;> rfl
  closing r hr := h.closing r (by simpa using hr)
  writes := h.writes
  waits := h.waits
  chain := h.chain

theorem Closed.setWrite (h : Closed s) {i : Nat} {w : Write} (hw : s.writes[i]? = some w)
    (hOpen : ¬ w.Settled) (hBelow : SettledBelow s.writes i) (status : WriteStatus) :
    Closed (s.setWrite i w status) where
  fresh := h.fresh
  known := h.known
  final := h.final
  closing := h.closing
  writes v hv := by
    rcases mem_or_eq_of_mem_set hv with hv | rfl
    · exact h.writes v hv
    · exact Or.inr ((h.writes w (mem_of_getElem? hw)).resolve_left hOpen)
  waits := h.waits
  chain := h.chain.set hw hOpen hBelow status

/-! ## Steps -/

/-- Progress is saved while the executor of the build runs. -/
theorem Closed.flushProgress (h : Closed s) (hs : Sound s)
    (hTimely : s.flushable.isSome = true →
      s.activeId.any (fun id => (s.jobs id).stage.isExecuting) = true) :
    Closed s.flushProgress := by
  unfold State.flushProgress
  split
  · exact ⟨h.fresh, h.known, h.final, h.closing, h.writes, h.waits, h.chain⟩
  · rename_i record hFlush
    obtain ⟨id, hSlot, hExecuting⟩ := (Option.any_eq_true _ _).mp (hTimely (by simp [hFlush]))
    obtain ⟨started, hAt⟩ : ∃ started, (s.jobs id).stage = .executing started := by
      unfold Stage.isExecuting at hExecuting
      split at hExecuting
      · rename_i started hAt
        exact ⟨started, hAt⟩
      · cases hExecuting
    have hRecord : record.id = id := by
      unfold State.flushable at hFlush
      split at hFlush
      · have hTest := of_decide_eq_true (filter_some hFlush).2
        exact Option.some.inj (hTest.1.trans hSlot)
      · cases hFlush
    refine ⟨h.fresh, h.known, h.final, h.closing, fun w hw => ?_, fun i tail hTail => ?_,
      h.chain.concat record⟩
    · rcases mem_append.mp hw with hw | hw
      · exact h.writes w hw
      · obtain rfl := mem_singleton.mp hw
        right
        rw [hRecord, hAt]
        rfl
    · -- The computation that holds the slot is executing, so none waits.
      have hIdle : (s.jobs i).stage ≠ .idle := by
        intro hIdle
        rw [hIdle] at hTail
        cases hTail
      obtain rfl := hs.only hSlot hIdle
      rw [hAt] at hTail
      cases hTail

theorem Closed.start (h : Closed s) (hs : Sound s) (uploadId : Text) (actor : Actor)
    (now : Int) : Closed (s.start uploadId actor now) := by
  unfold State.start
  split
  · exact h
  · rename_i hFree
    have hIdle : ∀ i, (s.jobs i).stage = .idle := by
      intro i
      by_contra hi
      have hSlot := hs.slot i hi
      simp [hSlot] at hFree
    have hSettled : ∀ w ∈ s.writes, w.Settled := by
      intro w hw
      refine (h.writes w hw).resolve_right ?_
      rw [hIdle]
      exact nofun
    dsimp only
    set id : BuildId := ⟨now, s.sequence + 1⟩
    have hTaken : Closed { s with
        sequence := s.sequence + 1
        activeId := some id
        progressWrite := none
        hasPendingProgress := false } := by
      refine ⟨fun i hi => ?_, fun r hr => (h.known r hr).trans (Nat.le_succ _), h.final, h.closing,
        h.writes, fun i tail hTail => ?_, h.chain.issued, h.chain.queued, ?_⟩
      · obtain rfl := Option.some.inj hi
        exact le_rfl
      · have hTail' : (s.jobs i).stage.tail = some tail := hTail
        rw [hIdle] at hTail'
        cases hTail'
      · exact Or.inl ⟨rfl, fun i w _ hw => hSettled w (mem_of_getElem? hw)⟩
    refine hTaken.put ?_ (fun _ => Or.inr hSettled) (fun tail hTail => nomatch hTail)
    rintro ⟨r, hr, _, hId⟩
    have hKnown : r.id.sequence ≤ s.sequence := h.known r hr
    rw [hId] at hKnown
    exact absurd hKnown (Nat.not_succ_le_self _)

theorem Closed.afterAccept (h : Closed s) (hAt : (s.jobs id).stage = old)
    (hStop : old.follows .idle = true) (hGo : old.follows (.starting r) = true) :
    Closed (s.afterAccept id r) := by
  unfold State.afterAccept
  dsimp only
  split
  · exact (h.keep r).follow hAt hStop
  · exact (h.keep r).follow hAt hGo

theorem Closed.afterRunning (h : Closed s) (hAt : (s.jobs id).stage = old)
    (hStop : old.follows .idle = true) (hGo : old.follows (.executing r.running) = true)
    (latest : JobRecord) : Closed (s.afterRunning id latest r) := by
  unfold State.afterRunning
  dsimp only
  split
  · exact (h.keep latest).follow hAt hStop
  · exact Closed.executes ((h.keep latest).follow hAt hGo) id

theorem Closed.afterSuccess (h : Closed s) (hAt : (s.jobs id).stage = old)
    (hStop : old.follows .idle = true) (hGo : old.follows (.rereading r) = true) (r' : JobRecord)
    (activated : Bool) : Closed (s.afterSuccess id r r' activated) := by
  unfold State.afterSuccess
  dsimp only
  split
  · exact (h.keep r').release hAt hStop
  · exact (h.keep r').follow hAt hGo

theorem Closed.answer (h : Closed s) (id : BuildId) (ok activated : Bool) :
    Closed (s.answer id ok activated) := by
  unfold State.answer
  dsimp only
  split
  · exact h
  cases hAt : (s.jobs id).stage with
  | accepting r =>
    dsimp only
    split
    · exact h.afterAccept hAt rfl rfl
    · exact h.follow hAt rfl
  | readingAccepted r =>
    dsimp only
    split
    · exact h.afterAccept hAt rfl rfl
    · exact (h.follow hAt rfl).free
  | starting r =>
    dsimp only
    split
    · exact h.afterRunning hAt rfl rfl _
    · exact h.follow hAt rfl
  | readingStarted r =>
    dsimp only
    split
    · split
      · exact h.afterRunning hAt rfl rfl _
      · exact h.follow hAt rfl
    · exact h.follow hAt rfl
  | succeeding r r' =>
    dsimp only
    split
    · exact h.afterSuccess hAt rfl rfl r' activated
    · exact h.follow hAt rfl
  | readingSucceeded r r' =>
    dsimp only
    split
    · exact h.afterSuccess hAt rfl rfl r' activated
    · exact h.follow hAt rfl
  | rereading r =>
    dsimp only
    split
    · split
      · exact (h.keep _).release hAt rfl
      · exact h.release hAt rfl
    · exact h.release hAt rfl
  | failing r =>
    dsimp only
    split
    · exact (h.keep r).release hAt rfl
    · exact h.follow hAt rfl
  | readingFailed r =>
    dsimp only
    split
    · exact (h.keep r).release hAt rfl
    · exact h.release hAt rfl
  | idle => exact h
  | executing r => exact h
  | flushing r result tail => exact h
  | savingArtifact r result => exact h
  | draining r error tail => exact h

theorem Closed.carryOut (h : Closed s) (hs : Sound s) (id : BuildId) : Closed (s.carryOut id) := by
  have hGood := (hs.jobs id).stage
  have hKnown : (s.jobs id).stage ≠ .idle → id.sequence ≤ s.sequence :=
    fun hIdle => h.fresh id (hs.slot id hIdle)
  unfold State.carryOut
  dsimp only
  split
  · exact h
  split
  · exact h
  · rename_i r hQuery
    split
    · exact h
    · refine Closed.settle (h.store ?_ ?_ ?_) id none
      all_goals
        cases hAt : (s.jobs id).stage <;> rw [hAt] at hQuery hGood hKnown <;> cases hQuery
        obtain ⟨rfl, hAccepted⟩ := hGood
      · exact hKnown nofun
      · rw [hAt]
        exact fun _ => rfl
      · rw [hAccepted]
        exact nofun
  · rename_i r hQuery
    refine Closed.settle (h.store ?_ ?_ ?_) id none
    all_goals
      cases hAt : (s.jobs id).stage <;> rw [hAt] at hQuery hGood hKnown <;> cases hQuery
    · exact hGood.1 ▸ hKnown nofun
    · exact hGood.2.1 ▸ hKnown nofun
    · exact hGood.1 ▸ hKnown nofun
    · rename_i accepted
      have hId : accepted.running.id = id := hGood.1
      rw [hId, hAt]
      exact fun _ => rfl
    · rw [hGood.2.2.1]
      exact nofun
    · rw [hGood.2.1]
      exact nofun
    · exact nofun
    · rw [hGood.2.1, hAt]
      exact fun _ => rfl
    · rw [hGood.1, hAt]
      exact fun _ => rfl
  · exact h.settle id _

theorem Closed.issue (h : Closed s) (i : Nat) : Closed (s.issue i) := by
  unfold State.issue
  split
  · rename_i w hw
    split
    · rename_i hReady
      have hOpen : ¬ w.Settled := by simp [Write.Settled, hReady.1]
      refine h.setWrite hw hOpen ?_ _
      rcases h.chain.queued i w hw with ⟨_, hBelow⟩ | ⟨p, hPrevious, hLast⟩
      · exact hBelow
      · rw [hPrevious] at hReady
        obtain ⟨v, hv, hSettled⟩ := outcome_settled hReady.2
        exact hLast ▸ h.chain.below hv hSettled
    · exact h
  · exact h

theorem Closed.carryOutWrite (h : Closed s) (hs : Sound s) (i : Nat) :
    Closed (s.carryOutWrite i) := by
  unfold State.carryOutWrite
  split
  · rename_i w hw
    split
    · rename_i hSaving
      have hMem := mem_of_getElem? hw
      have hOpen : ¬ w.Settled := by simp [Write.Settled, hSaving]
      obtain ⟨⟨a, ha, hId, _⟩, hRunning⟩ := hs.writes w hMem
      have hUnsettled := (h.writes w hMem).resolve_left hOpen
      have hStore : Closed (s.store w.record) := by
        refine h.store (hId ▸ h.known a ha) (fun _ => ?_) (fun hEnded => ?_)
        · cases hAt : (s.jobs w.record.id).stage <;> rw [hAt] at hUnsettled <;>
            first | rfl | cases hUnsettled
        · rw [hRunning] at hEnded
          cases hEnded
      exact hStore.setWrite hw hOpen (h.chain.issued i w hw (by simp [hSaving])) _
    · exact h
  · exact h

theorem Closed.answerWrite (h : Closed s) (i : Nat) (ok : Bool) : Closed (s.answerWrite i ok) := by
  unfold State.answerWrite
  split
  · rename_i w hw
    split
    · rename_i hSaving
      have hStatus : w.status = .saving true ∨ w.status = .saving false := by tauto
      have hOpen : ¬ w.Settled := by
        rcases hStatus with hStatus | hStatus <;> simp [Write.Settled, hStatus]
      have hIssued : w.status ≠ .queued := by
        rcases hStatus with hStatus | hStatus <;> simp [hStatus]
      exact h.setWrite hw hOpen (h.chain.issued i w hw hIssued) _
    · exact h
  · exact h

/-- An error before the terminal write: the computation waits for the chain. -/
theorem Closed.caught (h : Closed s) {started : JobRecord}
    (hNot : (s.jobs started.id).stage.closing = false) (error : Failure) :
    Closed (s.caught started error) :=
  h.put (h.not_ended hNot) (fun _ => Or.inl rfl) fun _ hTail => (Option.some.inj hTail).symm

theorem flushProgress_jobs (s : State) : s.flushProgress.jobs = s.jobs := by
  unfold State.flushProgress
  split <;> rfl

theorem Closed.executed (h : Closed s) (hs : Sound s) (id : BuildId)
    (result : Except Failure BuildResult) : Closed (s.executed id result) := by
  have hGood := (hs.jobs id).stage
  unfold State.executed
  split
  · rename_i started _ hAt
    have hSlot := hs.active hAt (by simp)
    have hFlush : Closed s.flushProgress := by
      refine h.flushProgress hs fun _ => ?_
      rw [hSlot, Option.any_some, hAt]
      rfl
    have hAt' : (s.flushProgress.jobs id).stage = .executing started := by
      rw [flushProgress_jobs, hAt]
    refine hFlush.put (hFlush.not_ended (by rw [hAt']; rfl)) (fun _ => Or.inl rfl) ?_
    exact fun _ hTail => (Option.some.inj hTail).symm
  · rename_i started _ hAt
    rw [hAt] at hGood
    obtain ⟨rfl, _⟩ := hGood
    exact h.caught (by rw [hAt]; rfl) _
  · exact h

theorem Closed.drained (h : Closed s) (hs : Sound s) (id : BuildId) (error : Failure)
    (now : Int) : Closed (s.drained id error now) := by
  have hGood := (hs.jobs id).stage
  unfold State.drained
  split
  · rename_i started result tail hAt
    rw [hAt] at hGood
    obtain ⟨rfl, _⟩ := hGood
    have hNot : (s.jobs started.id).stage.closing = false := by rw [hAt]; rfl
    have hTail : tail = s.progressWrite := h.waits started.id tail (by rw [hAt]; rfl)
    split
    · exact h
    · rename_i hOutcome
      have hSettled := h.chain.all_settled (by rw [← hTail, hOutcome]; rfl)
      exact h.put (h.not_ended hNot) (fun _ => Or.inr hSettled) fun _ hTail => nomatch hTail
    · exact h.caught hNot _
  · rename_i started thrown tail hAt
    have hNot : (s.jobs id).stage.closing = false := by rw [hAt]; rfl
    have hTail : tail = s.progressWrite := h.waits id tail (by rw [hAt]; rfl)
    split
    · exact h
    rename_i hOutcome
    have hSettled : ∀ w ∈ s.writes, w.Settled := by
      refine h.chain.all_settled ?_
      rw [← hTail]
      cases hSome : s.outcome tail with
      | none => simp [hSome] at hOutcome
      | some _ => rfl
    split
    · refine Closed.free ?_
      exact h.put (fun _ => rfl) (fun _ => Or.inr hSettled) fun _ hTail => nomatch hTail
    · exact h.put (h.not_ended hNot) (fun _ => Or.inr hSettled) fun _ hTail => nomatch hTail
  · exact h

theorem Closed.artifactSaved (h : Closed s) (hs : Sound s) (id : BuildId)
    (outcome : Except Failure Int) : Closed (s.artifactSaved id outcome) := by
  have hGood := (hs.jobs id).stage
  unfold State.artifactSaved
  split
  · rename_i hAt
    rw [hAt] at hGood
    obtain ⟨rfl, _⟩ := hGood
    split
    · exact h.caught (by rw [hAt]; rfl) _
    · exact h.follow hAt rfl
  · rename_i hAt
    rw [hAt] at hGood
    obtain ⟨rfl, _⟩ := hGood
    exact h.caught (by rw [hAt]; rfl) _
  · exact h

theorem Closed.recordProgress (h : Closed s) (id : BuildId) (line : Text) :
    Closed (s.recordProgress id line) := by
  unfold State.recordProgress
  split
  · exact h
  split
  · exact h
  · exact ⟨h.fresh, h.known, h.final, h.closing, h.writes, h.waits, h.chain⟩

/-- A timely step stores nothing behind a terminal record that reopens it. -/
theorem Closed.step (h : Closed s) (hs : Sound s) {e : Event} (hTimely : Timely s e) :
    Closed (step s e) := by
  cases e with
  | start uploadId actor now => exact h.start hs uploadId actor now
  | carryOut id => exact h.carryOut hs id
  | answer id ok activated => exact h.answer id ok activated
  | line id text =>
    unfold Build.step
    dsimp only
    split
    · exact h.recordProgress id text
    · exact h
  | timer =>
    unfold Build.step
    dsimp only
    split
    · rename_i hArmed
      exact h.flushProgress hs (hTimely hArmed)
    · exact h
  | issue i => exact h.issue i
  | carryOutWrite i => exact h.carryOutWrite hs i
  | answerWrite i ok => exact h.answerWrite i ok
  | executed id result => exact h.executed hs id result
  | drained id error now => exact h.drained hs id error now
  | artifactSaved id outcome => exact h.artifactSaved hs id outcome
  | dispose => exact ⟨h.fresh, h.known, h.final, h.closing, h.writes, h.waits, h.chain⟩

theorem closed_init : Closed {} where
  fresh _ hActive := nomatch hActive
  known _ hr := nomatch hr
  final := List.Pairwise.nil
  closing _ hr := nomatch hr
  writes _ hw := nomatch hw
  waits _ _ hTail := nomatch hTail
  chain :=
    ⟨(fun _ _ hv => nomatch hv), (fun _ _ hv => nomatch hv),
      Or.inl ⟨rfl, fun _ _ hi _ => absurd hi (Nat.not_lt_zero _)⟩⟩

theorem closed_run (es : List Event) (hTimely : Guarded step Timely {} es) :
    Closed (run step {} es) := by
  have hBoth : Sound (run step {} es) ∧ Closed (run step {} es) := by
    refine run_invariant_guarded (fun s => Sound s ∧ Closed s) (fun s e hs hG => ?_)
      ⟨sound_init, closed_init⟩ hTimely
    exact ⟨hs.1.step e, hs.2.step hs.1 hG⟩
  exact hBoth.2

/-! ## The guarantee -/

/-- In every run at most one build is executing, and each call of the executor stands behind
a stored accepted and a stored running record of its build. When the timer does not save
progress between the moment the executor settles and the release of the slot, no build is
stored as accepted or running behind its terminal record. -/
theorem terminal_final (es : List Event) :
    (∀ i j, (run step {} es).Executing i → (run step {} es).Executing j → i = j) ∧
      Justified Prepared (run step {} es).deeds ∧
      (Guarded step Timely {} es → Final (run step {} es).deeds) :=
  ⟨fun _ _ hi hj => (sound_run es).alone hi hj, (sound_run es).prepared,
    fun hTimely => (closed_run es hTimely).final⟩

def sampleId : BuildId := ⟨0, 1⟩

def sampleActor : Actor := ⟨js "operator", .console⟩

/-- A build accepted, started and reporting its first line. -/
def launched : List Event :=
  [.start (js "upload") sampleActor 0, .carryOut sampleId, .answer sampleId true true,
    .carryOut sampleId, .answer sampleId true true, .line sampleId (js "compiling")]

/-- The timer saves the line, and the executor returns an image. -/
def savedBuild : List Event :=
  launched ++
    [.timer, .issue 0, .carryOutWrite 0, .answerWrite 0 true,
      .executed sampleId (.ok ⟨⟨js "image", js "digest", 1, js "1.0.0"⟩, []⟩),
      .drained sampleId ⟨[], []⟩ 1500, .artifactSaved sampleId (.ok 1600), .carryOut sampleId,
      .answer sampleId true true]

theorem terminal_final_saved :
    Guarded step Timely {} savedBuild ∧
      (run step {} savedBuild).latest.map JobRecord.lifecycle = some .succeeded ∧
      Final (run step {} savedBuild).deeds := by
  have hTimely : Guarded step Timely {} savedBuild := by decide +kernel
  exact ⟨hTimely, by decide +kernel, (terminal_final savedBuild).2.2 hTimely⟩

/-- The executor fails within a second of the line. The timer fires while the failure is
being saved, and its save of the running record is carried out last. -/
def lateTimer : List Event :=
  launched ++
    [.executed sampleId (.error ⟨js "compiler failed", []⟩), .drained sampleId ⟨[], []⟩ 900,
      .timer, .issue 0, .carryOut sampleId, .carryOutWrite 0, .answerWrite 0 true,
      .answer sampleId true true]

/-- The failed build is running in the database, while the service has it as failed. -/
theorem failed_then_running :
    ¬ Final (run step {} lateTimer).deeds ∧
      ((run step {} lateTimer).rows sampleId).map JobRecord.lifecycle = some .running ∧
      (run step {} lateTimer).latest.map JobRecord.lifecycle = some .failed ∧
      (run step {} lateTimer).activeId = none := by
  unfold Final
  decide +kernel

end TMEdge.Build
