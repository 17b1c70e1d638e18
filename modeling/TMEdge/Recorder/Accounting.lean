import TMEdge.Recorder.DailyLog

/-!
# Where the records of a daily log are

* `records_accounted`: in every run each record is queued, reported written or counted as dropped,
  and is handed to the stream of its day at most once, in order.
-/

namespace TMEdge.Recorder

open Library List

/-! ## What a pump does -/

section pump

variable {env : Env} {log : DailyLog}

/-- What is left of a log that was not processing, and what was done with streams. -/
inductive Pumped (env : Env) (log : DailyLog) : DailyLog × List Call → Prop
  | rest (closed : Bool) : log.queue = [] → Pumped env log ({ log with closed }, [])
  | ending {s : Nat} : log.stream = some s →
      Pumped env log ({ log with processing := true }, [.ended s])
  | writing {s : Nat} {r : QueuedRecord} : log.stream = some s → log.queue.head? = some r →
      log.streamDay = r.day → Pumped env log ({ log with processing := true }, [.wrote s r])
  | opening {r : QueuedRecord} : log.stream = none → log.queue.head? = some r →
      Pumped env log
        ({ log with
          bytesToday := env.size
          stream := some env.fresh
          streamDay := r.day
          processing := true }, [.opened (fileOf r.day), .wrote env.fresh r])
  | failing (message : Text) (closed : Bool) : log.stream = none →
      Pumped env log
        ({ { log with bytesToday := env.size }.cleared message with closed }, [])

theorem pumpEmpty_none (hIdle : log.processing = false) (hStream : log.stream = none) :
    ∃ closed, log.pumpEmpty = ({ log with closed }, []) := by
  by_cases hClosing : log.closing = true
  · exact ⟨true, by simp [DailyLog.pumpEmpty, hIdle, hStream, hClosing]⟩
  · have hSame : log.pumpEmpty = (log, []) := by simp [DailyLog.pumpEmpty, hIdle, hClosing]
    exact ⟨log.closed, hSame⟩

theorem pumpEmpty_pumped (hIdle : log.processing = false) (hEmpty : log.queue = []) :
    Pumped env log log.pumpEmpty := by
  rcases hStream : log.stream with - | s
  · obtain ⟨closed, hPump⟩ := pumpEmpty_none hIdle hStream
    rw [hPump]
    exact .rest closed hEmpty
  · have hFinish : log.finishStream = ({ log with processing := true }, [.ended s]) := by
      simp [DailyLog.finishStream, hStream, hIdle]
    by_cases hClosing : log.closing = true
    · have hPump : log.pumpEmpty = log.finishStream := by
        simp [DailyLog.pumpEmpty, hIdle, hClosing, hStream]
      rw [hPump, hFinish]
      exact .ending hStream
    · have hPump : log.pumpEmpty = (log, []) := by
        simp [DailyLog.pumpEmpty, hIdle, hClosing]
      rw [hPump]
      exact .rest log.closed hEmpty

theorem writeNext_refused {record : QueuedRecord} {message : Text} (hStream : log.stream = none)
    (hRefused : env.refused = some message) : log.writeNext env record =
      { log with bytesToday := env.size }.failQueued message := by
  simp only [DailyLog.writeNext, DailyLog.openDay, hStream, hRefused]

theorem pump_pumped (hIdle : log.processing = false) : Pumped env log (log.pump env) := by
  rcases hQueue : log.queue with - | ⟨next, rest⟩
  · have hPump : log.pump env = log.pumpEmpty := by rw [DailyLog.pump, hQueue]
    rw [hPump]
    exact pumpEmpty_pumped hIdle hQueue
  have hHead : log.queue.head? = some next := by rw [hQueue, head?_cons]
  have hPump : log.pump env = if log.stream.isSome ∧ log.streamDay ≠ next.day then log.finishStream
      else log.writeNext env next := by
    rw [DailyLog.pump, hQueue]
    simp only [hIdle, Bool.false_eq_true, if_false]
  rw [hPump]
  rcases hStream : log.stream with - | s
  · rw [if_neg (by simp)]
    rcases hRefused : env.refused with - | message
    · have hNext : log.writeNext env next = ({ log with
          bytesToday := env.size
          stream := some env.fresh
          streamDay := next.day
          processing := true }, [.opened (fileOf next.day), .wrote env.fresh next]) := by
        simp [DailyLog.writeNext, DailyLog.openDay, hStream, hRefused]
      rw [hNext]
      exact .opening hStream hHead
    · obtain ⟨closed, hClosed⟩ := @pumpEmpty_none
        ({ log with bytesToday := env.size }.cleared message) hIdle hStream
      rw [writeNext_refused hStream hRefused, DailyLog.failQueued, hClosed]
      exact .failing message closed hStream
  · by_cases hDay : log.streamDay = next.day
    · rw [if_neg (by simp [hDay])]
      have hNext : log.writeNext env next = ({ log with processing := true }, [.wrote s next]) := by
        simp [DailyLog.writeNext, hStream]
      rw [hNext]
      exact .writing hStream hHead hDay
    · have hFinish : log.finishStream = ({ log with processing := true }, [.ended s]) := by
        simp [DailyLog.finishStream, hStream, hIdle]
      rw [if_pos ⟨rfl, hDay⟩, hFinish]
      exact .ending hStream

theorem pump_processing (hBusy : log.processing = true) : log.pump env = (log, []) := by
  unfold DailyLog.pump
  split
  · rw [DailyLog.pumpEmpty, if_pos hBusy]
  · rw [if_pos hBusy]

end pump

/-! ## What a run keeps -/

section kept

variable {w : World} {env : Env} {r : QueuedRecord} {result : DailyLog × List Call} {log : DailyLog}
  {offered : List Nat} {s : Nat}

/-- The records that no stream was handed. -/
def World.waiting (w : World) : List QueuedRecord :=
  match w.callbacks with
  | [.written _ _] => w.log.queue.tail
  | _ => w.log.queue

/-- What the current stream was last asked for. -/
inductive Phase (w : World) : Prop
  | idle : w.log.processing = false → w.callbacks = [] → Phase w
  | writing {s : Nat} {r : QueuedRecord} {rest : List QueuedRecord} : w.log.processing = true →
      w.callbacks = [.written s r] → w.log.stream = some s → w.log.queue = r :: rest → Phase w
  | ending {s : Nat} : w.log.processing = true → w.callbacks = [.ended s] →
      w.log.stream = some s → Phase w

structure Kept (w : World) : Prop where
  account : (w.queued ++ w.reported ++ w.dropped).Perm (List.range w.writes.length)
  counted : w.log.droppedRecords = w.dropped.length
  size : w.log.queuedBytes = ((w.log.queue.map QueuedRecord.bytes).sum : Nat)
  bounded : w.log.queuedBytes ≤ w.log.maxQueuedBytes
  order : (w.handed.map (fun h => h.2.serial) ++ w.waiting.map QueuedRecord.serial).Pairwise (· < ·)
  below : ∀ h ∈ w.handed, h.2.serial < w.writes.length
  genuine : ∀ r, r ∈ w.log.queue ∨ (∃ s, (s, r) ∈ w.handed) → ∃ time line,
    w.writes[r.serial]? = some (time, line) ∧ r = QueuedRecord.of r.serial time line
  files : ∀ h ∈ w.handed, w.files[h.1]? = some (fileOf h.2.day)
  current : ∀ s, w.log.stream = some s → w.files[s]? = some (fileOf w.log.streamDay)

theorem waiting_of_nil (h : w.callbacks = []) : w.waiting = w.log.queue := by
  rw [World.waiting, h]

theorem waiting_subset : w.waiting ⊆ w.log.queue := by
  unfold World.waiting
  split
  · exact tail_subset _
  · exact List.Subset.refl _

theorem queued_lt (h : Kept w) (hMem : r ∈ w.log.queue) : r.serial < w.writes.length := by
  refine mem_range.mp (h.account.mem_iff.mp ?_)
  exact mem_append_left _ (mem_append_left _ (mem_map_of_mem hMem))

/-- What is gone of a list is what is in it besides what is left and what was reported. -/
theorem gone_perm {all left reported gone : List Nat} (hNodup : all.Nodup)
    (hPerm : all.Perm (left ++ reported ++ gone)) :
    (all.filter fun n => n ∉ left ∧ n ∉ reported).Perm gone := by
  have hDisjoint := nodup_append.mp (hPerm.nodup_iff.mp hNodup)
  have hLeft : (left ++ reported).filter (fun n => n ∉ left ∧ n ∉ reported) = [] := by
    rw [filter_eq_nil_iff]
    intro n hn
    rcases mem_append.mp hn with hn | hn
    · simp [hn]
    · simp [hn]
  have hGone : gone.filter (fun n => n ∉ left ∧ n ∉ reported) = gone := by
    rw [filter_eq_self]
    intro n hn
    have hNot : n ∉ left ++ reported := fun hMem => hDisjoint.2.2 n hMem n hn rfl
    rw [mem_append, not_or] at hNot
    exact decide_eq_true hNot
  have hFilter := hPerm.filter fun n => n ∉ left ∧ n ∉ reported
  rwa [filter_append, hLeft, hGone, nil_append] at hFilter

def World.dropping (w : World) (dropped : List Nat) : World := { w with dropped }

theorem foldl_dropping (calls : List Call) (w : World) (d : List Nat) :
    calls.foldl World.apply (w.dropping d) = (calls.foldl World.apply w).dropping d := by
  induction calls generalizing w with
  | nil => rfl
  | cons call calls ih =>
    rw [foldl_cons, foldl_cons, ← ih]
    cases call <;> rfl

def World.gone (w : World) (offered reported : List Nat) (result : DailyLog × List Call) :
    List Nat :=
  (w.queued ++ offered).filter fun n =>
    n ∉ result.1.queue.map QueuedRecord.serial ∧ n ∉ reported

theorem after_dropping {offered reported : List Nat} {result : DailyLog × List Call} :
    w.after offered reported result =
      (result.2.foldl World.apply
        { w with log := result.1, reported := w.reported ++ reported, dropped := [] }).dropping
          (w.dropped ++ w.gone offered reported result) :=
  foldl_dropping result.2
    { w with log := result.1, reported := w.reported ++ reported, dropped := [] } _

/-- A step in two parts: a change of the log, then a method. -/
theorem after_eq (log : DailyLog) (offered reported gone : List Nat)
    (result : DailyLog × List Call) : w.after offered reported result =
      (World.after { w with
        log := log
        reported := w.reported ++ reported
        dropped := w.dropped ++ gone } [] [] result).dropping
          (w.dropped ++ w.gone offered reported result) := by
  have hMethod := @after_dropping { w with
    log := log
    reported := w.reported ++ reported
    dropped := w.dropped ++ gone } [] [] result
  rw [append_nil (w.reported ++ reported)] at hMethod
  rw [hMethod]
  exact after_dropping

theorem after_same (hQueue : result.1.queue = w.log.queue) :
    w.after [] [] result = result.2.foldl World.apply { w with log := result.1 } := by
  have hNone : (w.queued ++ []).filter (fun n =>
      n ∉ result.1.queue.map QueuedRecord.serial ∧ n ∉ ([] : List Nat)) = [] := by
    rw [filter_eq_nil_iff, hQueue, append_nil]
    intro n hn
    exact fun hGone => (of_decide_eq_true hGone).1 hn
  rw [World.after, hNone, append_nil, append_nil]

/-- The states between events. -/
structure Inv (w : World) : Prop where
  kept : Kept w
  phase : Phase w

theorem Inv.congr {d : List Nat} (h : Inv w) (hPerm : d.Perm w.dropped) :
    Inv (w.dropping d) where
  kept := { h.kept with
    account := (hPerm.append_left _).trans h.kept.account
    counted := h.kept.counted.trans hPerm.length_eq.symm }
  phase := by
    rcases h.phase with ⟨hIdle, hNil⟩ | ⟨hBusy, hOne, hStream, hQueue⟩ | ⟨hBusy, hOne, hStream⟩
    · exact .idle hIdle hNil
    · exact .writing hBusy hOne hStream hQueue
    · exact .ending hBusy hOne hStream

/-- The first record of the queue is handed to a stream. -/
theorem handed_order {s : Nat} {r : QueuedRecord} {rest : List QueuedRecord} (h : Kept w)
    (hNil : w.callbacks = []) (hRest : w.log.queue = r :: rest) :
    ((w.handed ++ [(s, r)]).map (fun h => h.2.serial) ++
      w.log.queue.tail.map QueuedRecord.serial).Pairwise (· < ·) := by
  have hOrder := h.order
  rw [waiting_of_nil hNil, hRest, map_cons, append_cons] at hOrder
  rw [hRest, map_append]
  exact hOrder

theorem handed_below {s : Nat} {r : QueuedRecord} (h : Kept w) (hMem : r ∈ w.log.queue) :
    ∀ p ∈ w.handed ++ [(s, r)], p.2.serial < w.writes.length := by
  intro p hp
  rcases mem_append.mp hp with hp | hp
  · exact h.below p hp
  · rw [mem_singleton.mp hp]
    exact queued_lt h hMem

theorem handed_genuine {s : Nat} {r : QueuedRecord} (h : Kept w) (hMem : r ∈ w.log.queue) :
    ∀ r', r' ∈ w.log.queue ∨ (∃ s', (s', r') ∈ w.handed ++ [(s, r)]) → ∃ time line,
      w.writes[r'.serial]? = some (time, line) ∧ r' = QueuedRecord.of r'.serial time line := by
  rintro r' (hQueued | ⟨s', hp⟩)
  · exact h.genuine r' (.inl hQueued)
  · rcases mem_append.mp hp with hp | hp
    · exact h.genuine r' (.inr ⟨s', hp⟩)
    · rw [(Prod.mk.inj (mem_singleton.mp hp)).2]
      exact h.genuine r (.inl hMem)

/-- The queue is given up, with no callback left to run. -/
theorem kept_cleared {log : DailyLog} {callbacks : List Callback} {message : Text} (h : Kept w)
    (hQueue : log.queue = w.log.queue)
    (hDropped : log.droppedRecords = w.log.droppedRecords)
    (hCurrent : ∀ s, log.stream = some s → w.files[s]? = some (fileOf log.streamDay))
    (hNil : callbacks = []) : Kept { w with
      log := log.cleared message
      callbacks := callbacks
      dropped := w.dropped ++ w.queued } where
  account := by
    refine List.Perm.trans ?_ h.account
    rw [perm_iff_count]
    intro a
    simp only [World.queued, DailyLog.cleared, map_nil, nil_append, count_append]
    omega
  counted := by
    rw [length_append, ← h.counted, World.queued, length_map, ← hQueue, ← hDropped]
    rfl
  size := rfl
  bounded := Int.natCast_nonneg _
  order := by
    have hWaiting : World.waiting { w with
        log := log.cleared message
        callbacks := callbacks
        dropped := w.dropped ++ w.queued } = [] := waiting_of_nil hNil
    rw [hWaiting, map_nil, append_nil]
    exact (pairwise_append.mp h.order).1
  below := h.below
  genuine r hr := by
    rcases hr with hr | hr
    · cases hr
    · exact h.genuine r (.inr hr)
  files := h.files
  current := hCurrent

/-- A pump keeps what holds between the callbacks. -/
theorem inv_pump (h : Kept w) (hIdle : w.log.processing = false) (hNil : w.callbacks = [])
    (hFresh : env.fresh = w.files.length) : Inv (w.after [] [] (w.log.pump env)) := by
  have hPumped := @pump_pumped env w.log hIdle
  generalize hLog : w.log.pump env = result at hPumped ⊢
  cases hPumped with
  | rest closed hQueue =>
    rw [after_same rfl]
    exact ⟨{ h with order := h.order }, .idle hIdle hNil⟩
  | @ending s hStream =>
    rw [after_same rfl]
    have hOne : w.callbacks ++ [.ended s] = [.ended s] := by rw [hNil, nil_append]
    refine ⟨{ h with order := ?_ }, .ending rfl hOne hStream⟩
    have hOrder := h.order
    rw [waiting_of_nil hNil] at hOrder
    simp only [foldl_cons, foldl_nil, World.apply, World.waiting, hOne]
    exact hOrder
  | @writing s r hStream hHead hDay =>
    obtain ⟨rest, hRest⟩ := head?_eq_some_iff.mp hHead
    have hMem : r ∈ w.log.queue := hRest ▸ mem_cons_self
    have hOne : w.callbacks ++ [.written s r] = [.written s r] := by rw [hNil, nil_append]
    have hBelow := @handed_below w s r h hMem
    have hGenuine := @handed_genuine w s r h hMem
    rw [after_same rfl]
    refine ⟨{ h with
      order := ?_
      below := hBelow
      genuine := hGenuine
      files := ?_ }, .writing rfl hOne hStream hRest⟩
    · simp only [foldl_cons, foldl_nil, World.apply, World.waiting, hOne]
      exact handed_order h hNil hRest
    · intro p hp
      rcases mem_append.mp hp with hp | hp
      · exact h.files p hp
      · rw [mem_singleton.mp hp, ← hDay]
        exact h.current s hStream
  | @opening r hStream hHead =>
    obtain ⟨rest, hRest⟩ := head?_eq_some_iff.mp hHead
    have hMem : r ∈ w.log.queue := hRest ▸ mem_cons_self
    have hOne : w.callbacks ++ [.written env.fresh r] = [.written env.fresh r] := by
      rw [hNil, nil_append]
    have hBelow := @handed_below w env.fresh r h hMem
    have hGenuine := @handed_genuine w env.fresh r h hMem
    have hFile : (w.files ++ [fileOf r.day])[env.fresh]? = some (fileOf r.day) := by
      rw [hFresh, getElem?_concat_length]
    rw [after_same rfl]
    refine ⟨{ h with
      order := ?_
      below := hBelow
      genuine := hGenuine
      files := ?_
      current := ?_ }, .writing rfl hOne rfl hRest⟩
    · simp only [foldl_cons, foldl_nil, World.apply, World.waiting, hOne]
      exact handed_order h hNil hRest
    · intro p hp
      rcases mem_append.mp hp with hp | hp
      · have hOld := h.files p hp
        have hLt := (List.getElem?_eq_some_iff.mp hOld).1
        exact (getElem?_append_left hLt).trans hOld
      · rw [mem_singleton.mp hp]
        exact hFile
    · intro s hs
      cases hs
      exact hFile
  | failing message closed hStream =>
    have hCleared := @kept_cleared w { w.log with bytesToday := env.size } _ message h rfl rfl
      (fun s hs => by rw [hStream] at hs; cases hs) hNil
    have hAll : w.queued.filter (fun n => n ∉ ([] : List Nat) ∧ n ∉ ([] : List Nat)) =
        w.queued := by
      rw [filter_eq_self]
      exact fun n _ => by simp
    have hAfter : w.after [] []
        ({ { w.log with bytesToday := env.size }.cleared message with closed }, []) =
        { w with
          log := { { w.log with bytesToday := env.size }.cleared message with closed }
          dropped := w.dropped ++ w.queued } := by
      simp only [World.after, DailyLog.cleared, map_nil, hAll, foldl_nil, append_nil]
    rw [hAfter]
    exact ⟨{ hCleared with order := hCleared.order }, .idle hIdle hNil⟩

theorem Inv.pump (h : Inv w) (hFresh : env.fresh = w.files.length) :
    Inv (w.after [] [] (w.log.pump env)) := by
  have hSame : w.log.processing = true → Inv (w.after [] [] (w.log.pump env)) := by
    intro hBusy
    rw [pump_processing hBusy, after_same rfl]
    exact h
  rcases h.phase with ⟨hIdle, hNil⟩ | ⟨hBusy, -, -, -⟩ | ⟨hBusy, -, -⟩
  · exact inv_pump h.kept hIdle hNil hFresh
  · exact hSame hBusy
  · exact hSame hBusy

theorem pump_left (log : DailyLog) : ∃ lost, (log.queue.map QueuedRecord.serial).Perm
    ((log.pump env).1.queue.map QueuedRecord.serial ++ lost) := by
  have hSame : (log.pump env).1.queue = log.queue → ∃ lost,
      (log.queue.map QueuedRecord.serial).Perm
        ((log.pump env).1.queue.map QueuedRecord.serial ++ lost) := by
    intro hQueue
    exact ⟨[], by rw [hQueue, append_nil]⟩
  by_cases hIdle : log.processing = false
  · have hPumped := @pump_pumped env log hIdle
    generalize log.pump env = result at hPumped hSame ⊢
    cases hPumped with
    | failing => exact ⟨log.queue.map QueuedRecord.serial, List.Perm.refl _⟩
    | _ => exact hSame rfl
  · rw [Bool.not_eq_false] at hIdle
    exact hSame (by rw [pump_processing hIdle])

/-- A step in two parts: what came in and what was queued is still queued, or was reported, or is
gone; then comes a method. -/
theorem inv_after_of {offered reported gone : List Nat} {log : DailyLog}
    {result : DailyLog × List Call}
    (hPerm : (w.queued ++ offered).Perm (log.queue.map QueuedRecord.serial ++ reported ++ gone))
    (hAccount : (log.queue.map QueuedRecord.serial ++ (w.reported ++ reported) ++
      (w.dropped ++ gone)).Nodup)
    (hLeft : ∃ lost, (log.queue.map QueuedRecord.serial).Perm
      (result.1.queue.map QueuedRecord.serial ++ lost))
    (h : Inv (World.after { w with
      log := log
      reported := w.reported ++ reported
      dropped := w.dropped ++ gone } [] [] result)) : Inv (w.after offered reported result) := by
  obtain ⟨lost, hLost⟩ := hLeft
  have hNodup : (w.queued ++ offered).Nodup := by
    refine hPerm.nodup_iff.mpr (hAccount.sublist ?_)
    exact ((sublist_append_right _ _).append_left _).append (sublist_append_right _ _)
  have hAll : (w.queued ++ offered).Perm
      (result.1.queue.map QueuedRecord.serial ++ reported ++ (gone ++ lost)) := by
    refine (hPerm.trans ((hLost.append_right _).append_right _)).trans ?_
    rw [perm_iff_count]
    intro a
    simp only [count_append]
    omega
  have hGone := gone_perm hNodup hAll
  have hSerials : (log.queue.map QueuedRecord.serial ++ ([] : List Nat)).Perm
      (result.1.queue.map QueuedRecord.serial ++ [] ++ lost) := by
    rw [append_nil, append_nil]
    exact hLost
  have hRest := gone_perm (by
    rw [append_nil]
    exact hAccount.sublist ((sublist_append_left _ _).trans (sublist_append_left _ _)))
    hSerials
  rw [after_eq log offered reported gone]
  refine h.congr ?_
  rw [after_dropping]
  refine List.Perm.trans ?_ (List.Perm.of_eq (append_assoc ..)).symm
  rw [World.gone, World.gone]
  exact (hGone.trans (hRest.symm.append_left _)).append_left _

/-- A method that changes the log and pumps. -/
theorem inv_after (gone : List Nat) {offered reported : List Nat} {log : DailyLog}
    (hPerm : (w.queued ++ offered).Perm (log.queue.map QueuedRecord.serial ++ reported ++ gone))
    (h : Inv { w with
      log := log
      reported := w.reported ++ reported
      dropped := w.dropped ++ gone })
    (hFresh : env.fresh = w.files.length) : Inv (w.after offered reported (log.pump env)) :=
  inv_after_of hPerm (h.kept.account.nodup_iff.mpr nodup_range) (pump_left log) (h.pump hFresh)

/-- A method that changes the log and nothing else. -/
theorem inv_after_only {gone : List Nat}
    (hPerm : (w.queued ++ offered).Perm (log.queue.map QueuedRecord.serial ++ [] ++ gone))
    (h : Inv { w with log := log, reported := w.reported ++ [], dropped := w.dropped ++ gone }) :
    Inv (w.after offered [] (log, [])) := by
  refine inv_after_of hPerm (h.kept.account.nodup_iff.mpr nodup_range) ⟨[], ?_⟩ ?_
  · rw [append_nil]
  · rw [after_same rfl]
    exact h

/-! ## Steps -/

/-- A phase depends on the callbacks, and on the stream and the head of the queue. -/
theorem Phase.congr {v : World} (h : Phase w) (hCallbacks : v.callbacks = w.callbacks)
    (hStream : v.log.stream = w.log.stream) (hBusy : v.log.processing = w.log.processing)
    (hQueue : w.log.queue <+: v.log.queue) : Phase v := by
  rcases h with ⟨hIdle, hNil⟩ | ⟨hTrue, hOne, hSome, hHead⟩ | ⟨hTrue, hOne, hSome⟩
  · exact .idle (hBusy.trans hIdle) (hCallbacks.trans hNil)
  · obtain ⟨more, hMore⟩ := hQueue
    rw [hHead, cons_append] at hMore
    exact .writing (hBusy.trans hTrue) (hCallbacks.trans hOne) (hStream.trans hSome) hMore.symm
  · exact .ending (hBusy.trans hTrue) (hCallbacks.trans hOne) (hStream.trans hSome)

/-- A call of `write` was returned from. -/
theorem Kept.wrote (h : Kept w) (time : Int) (line : Text) (r : QueuedRecord)
    (hr : r ∈ w.log.queue ∨ ∃ s, (s, r) ∈ w.handed) : ∃ time' line',
      (w.writes ++ [(time, line)])[r.serial]? = some (time', line') ∧
        r = QueuedRecord.of r.serial time' line' := by
  obtain ⟨time', line', hGet, hOf⟩ := h.genuine r hr
  have hLt := (List.getElem?_eq_some_iff.mp hGet).1
  exact ⟨time', line', (getElem?_append_left hLt).trans hGet, hOf⟩

/-- A record was refused. -/
theorem kept_refused (h : Inv w) (time : Int) (line : Text) : Inv { w with
    writes := w.writes ++ [(time, line)]
    log := { w.log with droppedRecords := w.log.droppedRecords + 1 }
    reported := w.reported ++ []
    dropped := w.dropped ++ [w.writes.length] } where
  kept := { h.kept with
    account := by
      rw [append_nil w.reported, ← append_assoc, length_append, length_singleton,
        range_succ]
      exact h.kept.account.append_right _
    counted := by
      rw [length_append, length_singleton, ← h.kept.counted]
    below := fun p hp => by
      rw [length_append]
      exact (h.kept.below p hp).trans_le (Nat.le_add_right _ _)
    genuine := h.kept.wrote time line
    order := h.kept.order }
  phase := h.phase.congr rfl rfl rfl (prefix_refl _)

theorem waiting_concat {v : World} (h : Phase w) (hCallbacks : v.callbacks = w.callbacks)
    (hQueue : v.log.queue = w.log.queue ++ [r]) : v.waiting = w.waiting ++ [r] := by
  unfold World.waiting
  rw [hCallbacks]
  rcases h with ⟨-, hNil⟩ | ⟨-, hOne, -, hHead⟩ | ⟨-, hOne, -⟩
  · rw [hNil]
    exact hQueue
  · rw [hOne, hQueue, hHead]
    rfl
  · rw [hOne]
    exact hQueue

theorem order_concat (h : Kept w) (r : QueuedRecord) (hSerial : r.serial = w.writes.length) :
    (w.handed.map (fun h => h.2.serial) ++
      (w.waiting ++ [r]).map QueuedRecord.serial).Pairwise (· < ·) := by
  rw [map_append, ← append_assoc, pairwise_append]
  refine ⟨h.order, pairwise_singleton _ _, fun a ha b hb => ?_⟩
  rw [map_singleton, mem_singleton] at hb
  rw [hb, hSerial]
  rcases mem_append.mp ha with ha | ha
  · obtain ⟨p, hp, rfl⟩ := mem_map.mp ha
    exact h.below p hp
  · obtain ⟨r, hr, rfl⟩ := mem_map.mp ha
    exact queued_lt h (waiting_subset hr)

/-- A record was queued. -/
theorem kept_queued (h : Inv w) (time : Int) (line : Text)
    (hFits : w.log.queuedBytes + (QueuedRecord.of w.writes.length time line).bytes ≤
      w.log.maxQueuedBytes) : Inv { w with
    writes := w.writes ++ [(time, line)]
    log := { w.log with
      queue := w.log.queue ++ [QueuedRecord.of w.writes.length time line]
      queuedBytes := w.log.queuedBytes + (QueuedRecord.of w.writes.length time line).bytes }
    reported := w.reported ++ []
    dropped := w.dropped ++ [] } where
  kept := { h.kept with
    account := by
      rw [append_nil, append_nil, length_append, length_singleton,
        range_succ]
      refine List.Perm.trans ?_ (h.kept.account.append_right _)
      rw [perm_iff_count]
      intro a
      have hSerial : (QueuedRecord.of w.writes.length time line).serial = w.writes.length := rfl
      simp only [World.queued, map_append, count_append, map_cons, map_nil,
        hSerial]
      omega
    counted := h.kept.counted.trans (congrArg List.length (append_nil _)).symm
    size := by
      rw [map_append, sum_append, map_singleton, sum_singleton, Nat.cast_add,
        ← h.kept.size]
    bounded := hFits
    order := by
      convert order_concat h.kept (QueuedRecord.of w.writes.length time line) rfl using 3
      exact waiting_concat h.phase rfl rfl
    below := fun p hp => by
      rw [length_append]
      exact (h.kept.below p hp).trans_le (Nat.le_add_right _ _)
    genuine := by
      rintro r (hr | hr)
      · rcases mem_append.mp hr with hr | hr
        · exact h.kept.wrote time line r (.inl hr)
        · rw [mem_singleton.mp hr]
          exact ⟨time, line, getElem?_concat_length, rfl⟩
      · exact h.kept.wrote time line r (.inr hr) }
  phase := h.phase.congr rfl rfl rfl (prefix_append _ _)

theorem inv_write (h : Inv w) {time : Int} {line : Text}
    (hWrite : w.log.write env w.writes.length (some time) line = some result)
    (hFresh : env.fresh = w.files.length) :
    Inv (World.after { w with writes := w.writes ++ [(time, line)] } [w.writes.length] [] result) := by
  rw [DailyLog.write, Option.map_some, Option.some_inj] at hWrite
  subst hWrite
  dsimp only
  split
  · refine inv_after_only ?_ (kept_refused h time line)
    rw [append_nil]
    exact List.Perm.refl _
  next hFits =>
    have hBounded : w.log.queuedBytes + (QueuedRecord.of w.writes.length time line).bytes ≤
        w.log.maxQueuedBytes := by
      rw [not_or, not_or, not_lt, not_lt] at hFits
      exact hFits.2.2
    refine inv_after _ ?_ (kept_queued h time line hBounded) hFresh
    rw [append_nil, append_nil, map_append]
    exact List.Perm.refl _

/-- A method that keeps the queue and pumps. -/
theorem inv_after_kept (hQueue : log.queue = w.log.queue) (h : Inv { w with log := log })
    (hFresh : env.fresh = w.files.length) : Inv (w.after [] [] (log.pump env)) := by
  refine inv_after [] ?_ ?_ hFresh
  · rw [hQueue, append_nil, append_nil, append_nil]
    exact List.Perm.refl _
  · rw [append_nil, append_nil]
    exact h

theorem inv_close (h : Inv w) (hFresh : env.fresh = w.files.length) :
    Inv (w.after [] [] (w.log.close env)) := by
  unfold DailyLog.close
  split
  · rw [after_same rfl]
    exact h
  · exact inv_after_kept rfl ⟨{ h.kept with order := h.kept.order },
      h.phase.congr rfl rfl rfl (prefix_refl _)⟩ hFresh

/-- An error of the current stream, once no callback is left to run. -/
theorem inv_fail (h : Kept w) {callbacks : List Callback} (message : Text)
    (hStream : w.log.stream = some s) (hNil : callbacks = [])
    (hFresh : env.fresh = w.files.length) :
    Inv (World.after { w with callbacks := callbacks } [] [] (w.log.failStream env s message)) := by
  have hFail : World.after { w with callbacks := callbacks } [] []
      (w.log.failStream env s message) = World.after { w with callbacks := callbacks } [] []
      ((DailyLog.cleared { w.log with stream := none, streamDay := [], processing := false }
        message).pump env) := by
    rw [DailyLog.failStream, if_neg (not_not.mpr hStream)]
    rfl
  rw [hFail]
  have hCleared := @kept_cleared w
    { w.log with stream := none, streamDay := [], processing := false } callbacks message h rfl rfl
    (fun s hs => by cases hs) hNil
  refine inv_after w.queued ?_ ?_ hFresh
  · rw [append_nil]
    exact List.Perm.refl _
  · rw [append_nil]
    exact ⟨hCleared, .idle rfl hNil⟩

/-- A write succeeded. -/
theorem inv_reported (h : Inv w) (hOne : w.callbacks = [.written s r]) (now : Int)
    (hFresh : env.fresh = w.files.length) :
    Inv (World.after { w with callbacks := [] } [] [r.serial] (w.log.written env s r none now)) := by
  rcases h.phase with ⟨-, hNil⟩ | ⟨hBusy, hCallbacks, hStream, hHead⟩ | ⟨-, hCallbacks, -⟩
  · rw [hOne] at hNil
    cases hNil
  · rw [hOne, List.cons.injEq, Callback.written.injEq] at hCallbacks
    obtain ⟨⟨rfl, rfl⟩, -⟩ := hCallbacks
    have hTail : w.waiting = w.log.queue.tail := by rw [World.waiting, hOne]
    rw [DailyLog.written, if_neg (not_not.mpr hStream)]
    refine inv_after [] ?_ ?_ hFresh
    · rw [World.queued, hHead, append_nil, append_nil]
      exact (perm_append_singleton _ _).symm
    · refine ⟨{ h.kept with
        account := ?_
        counted := ?_
        size := ?_
        bounded := ?_
        order := ?_
        genuine := ?_ }, .idle rfl rfl⟩
      · refine List.Perm.trans ?_ h.kept.account
        rw [perm_iff_count]
        intro a
        simp only [World.queued, hHead, tail_cons, map_cons, count_append,
          count_cons, count_nil]
        omega
      · exact h.kept.counted.trans (congrArg List.length (append_nil _)).symm
      · have hSize := h.kept.size
        simp only [hHead, map_cons, sum_cons, Nat.cast_add] at hSize
        simp only [hHead, tail_cons]
        omega
      · have hBounded := h.kept.bounded
        dsimp only
        omega
      · have hOrder := h.kept.order
        rw [hTail] at hOrder
        exact hOrder
      · rintro r' (hr | hr)
        · exact h.kept.genuine r' (.inl (mem_of_mem_tail hr))
        · exact h.kept.genuine r' (.inr hr)
  · rw [hOne] at hCallbacks
    cases hCallbacks

theorem inv_ended (h : Inv w) (hOne : w.callbacks = [.ended s])
    (hFresh : env.fresh = w.files.length) :
    Inv (World.after { w with callbacks := [] } [] [] (w.log.ended env s)) := by
  rcases h.phase with ⟨-, hNil⟩ | ⟨-, hCallbacks, -, -⟩ | ⟨hBusy, hCallbacks, hStream⟩
  · rw [hOne] at hNil
    cases hNil
  · rw [hOne] at hCallbacks
    cases hCallbacks
  · rw [hOne, List.cons.injEq, Callback.ended.injEq] at hCallbacks
    obtain ⟨rfl, -⟩ := hCallbacks
    have hQueue : w.waiting = w.log.queue := by rw [World.waiting, hOne]
    rw [DailyLog.ended, if_pos hStream]
    refine inv_after_kept rfl ⟨{ h.kept with
      order := ?_
      current := fun s hs => by cases hs }, .idle rfl rfl⟩ hFresh
    have hOrder := h.kept.order
    rw [hQueue] at hOrder
    exact hOrder

theorem erase_callback {c : Callback} (h : Inv w) (hMem : c ∈ w.callbacks) :
    w.callbacks = [c] ∧ w.callbacks.erase c = [] ∧ w.log.stream = some c.stream := by
  rcases h.phase with ⟨-, hNil⟩ | ⟨-, hOne, hStream, -⟩ | ⟨-, hOne, hStream⟩
  · rw [hNil] at hMem
    cases hMem
  · rw [hOne] at hMem ⊢
    rw [mem_singleton.mp hMem]
    exact ⟨rfl, erase_cons_head _ _, hStream⟩
  · rw [hOne] at hMem ⊢
    rw [mem_singleton.mp hMem]
    exact ⟨rfl, erase_cons_head _ _, hStream⟩

/-- The callbacks that are left after an error are those of another stream. -/
theorem filter_callbacks (h : Inv w) {s : Nat} :
    w.log.stream = some s ∧ w.callbacks.filter (fun c => c.stream ≠ s) = [] ∨
    w.log.stream ≠ some s ∧ w.callbacks.filter (fun c => c.stream ≠ s) = w.callbacks := by
  have hOf : ∀ c : Callback, w.callbacks = [c] → w.log.stream = some c.stream →
      w.log.stream = some s ∧ w.callbacks.filter (fun c => c.stream ≠ s) = [] ∨
      w.log.stream ≠ some s ∧ w.callbacks.filter (fun c => c.stream ≠ s) = w.callbacks := by
    intro c hOne hStream
    by_cases hEq : c.stream = s
    · exact .inl ⟨hStream.trans (congrArg some hEq), by rw [hOne]; simp [hEq]⟩
    · refine .inr ⟨fun hSome => hEq (Option.some.inj (hStream.symm.trans hSome)), ?_⟩
      rw [hOne]
      simp [hEq]
  rcases h.phase with ⟨-, hNil⟩ | ⟨-, hOne, hStream, -⟩ | ⟨-, hOne, hStream⟩
  · rw [hNil]
    by_cases hSome : w.log.stream = some s
    · exact .inl ⟨hSome, rfl⟩
    · exact .inr ⟨hSome, rfl⟩
  · exact hOf _ hOne hStream
  · exact hOf _ hOne hStream

theorem inv_step (h : Inv w) (e : World.Event × Nat × Option Text) : Inv (w.step e) := by
  obtain ⟨event, size, refused⟩ := e
  cases event with
  | write time line =>
    dsimp only [World.step]
    split
    next time result hWrite => exact inv_write h hWrite rfl
    next => exact h
  | close => exact inv_close h rfl
  | callback c error now =>
    dsimp only [World.step]
    split
    next => exact h
    next hMem =>
      obtain ⟨hOne, hErase, hStream⟩ := erase_callback h (not_not.mp hMem)
      rw [hErase]
      cases c with
      | written stream record =>
        cases error with
        | none => exact inv_reported h hOne now rfl
        | some message =>
          have hCurrent : w.log.stream = some stream := hStream
          dsimp only
          rw [DailyLog.written, if_neg (not_not.mpr hCurrent)]
          exact inv_fail h.kept message hStream rfl rfl
      | ended stream => exact inv_ended h hOne rfl
  | error stream message =>
    dsimp only [World.step]
    split
    next => exact h
    next =>
      rcases @filter_callbacks w h stream with ⟨hStream, hFilter⟩ | ⟨hOther, hFilter⟩
      · rw [hFilter]
        exact inv_fail h.kept message hStream rfl rfl
      · rw [hFilter, DailyLog.failStream, if_pos hOther, after_same rfl]
        exact h

theorem inv_start (maxQueuedBytes : Nat) : Inv (World.start maxQueuedBytes) where
  kept := {
    account := List.Perm.refl _
    counted := rfl
    size := rfl
    bounded := Int.natCast_nonneg _
    order := List.Pairwise.nil
    below := fun _ hp => by cases hp
    genuine := fun _ hr => by
      rcases hr with hr | ⟨_, hr⟩
      · cases hr
      · cases hr
    files := fun _ hp => by cases hp
    current := fun _ hs => by cases hs }
  phase := .idle rfl rfl

end kept

/-! ## The accounting -/

theorem fileOf_injective : Function.Injective fileOf :=
  fun _ _ h => append_cancel_right h

/-- Where the records of a run are, and which stream they were handed to. -/
structure Accounted (w : World) : Prop where
  once : (w.queued ++ w.reported ++ w.dropped).Perm (List.range w.writes.length)
  counted : w.log.droppedRecords = w.dropped.length
  size : w.log.queuedBytes = ((w.log.queue.map QueuedRecord.bytes).sum : Nat)
  bounded : w.log.queuedBytes ≤ w.log.maxQueuedBytes
  order : (w.handed.map fun h => h.2.serial).Pairwise (· < ·)
  day : ∀ s r, (s, r) ∈ w.handed → ∃ time line,
    w.writes[r.serial]? = some (time, line) ∧ r.line = line ∧
      w.files[s]? = some (fileOf (dayText (dayOf time)))
  ownDay : ∀ s r time line day, (s, r) ∈ w.handed → w.writes[r.serial]? = some (time, line) →
    w.files[s]? = some (fileOf (dayText day)) →
    (0 ≤ (dateOf day).year ∧ (dateOf day).year ≤ 9999) →
    (0 ≤ (dateOf (dayOf time)).year ∧ (dateOf (dayOf time)).year ≤ 9999) → dayOf time = day

theorem records_accounted (maxQueuedBytes : Nat)
    (events : List (World.Event × Nat × Option Text)) :
    Accounted (run World.step (World.start maxQueuedBytes) events) := by
  have hInv := run_invariant Inv (fun w e h => inv_step h e) (inv_start maxQueuedBytes) events
  generalize run World.step (World.start maxQueuedBytes) events = w at hInv
  have h := hInv.kept
  have hDay : ∀ s r, (s, r) ∈ w.handed → ∃ time line, w.writes[r.serial]? = some (time, line) ∧
      r.line = line ∧ w.files[s]? = some (fileOf (dayText (dayOf time))) := by
    intro s r hMem
    obtain ⟨time, line, hGet, hOf⟩ := h.genuine r (.inr ⟨s, hMem⟩)
    have hFile := h.files (s, r) hMem
    have hDay : r.day = dayText (dayOf time) := congrArg QueuedRecord.day hOf
    refine ⟨time, line, hGet, congrArg QueuedRecord.line hOf, ?_⟩
    rw [← hDay]
    exact hFile
  refine ⟨h.account, h.counted, h.size, h.bounded, (List.pairwise_append.mp h.order).1, hDay, ?_⟩
  intro s r time line day hMem hGet hFile hYear hYear'
  obtain ⟨time', line', hGet', -, hFile'⟩ := hDay s r hMem
  obtain ⟨rfl, -⟩ := (Prod.mk.injEq ..).mp (Option.some.inj (hGet.symm.trans hGet'))
  have hText := fileOf_injective (Option.some.inj (hFile'.symm.trans hFile))
  exact dayText_injective hYear' hYear hText

end TMEdge.Recorder
