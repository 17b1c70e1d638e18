import TMEdge.Replay.Agreement

/-!
# What each method of the store does to its memory and its queue

One lemma per method, for its callers: how the memory (`mem`) and the admitted writes
(`queue`) after the call follow from those before it and from the answer of the call.
-/

namespace TMEdge.Replay

open Library List

namespace ReplayStore

theorem queue_appended (s : ReplayStore) (r : Record) (m : JsMap String Cursor) (n : Nat) :
    ({ s.appended r with cursors := m, commandSeq := n } : ReplayStore).queue = s.queue := by
  simp only [queue, inflight, appended, Option.map_map]
  rfl

variable {e uid : String} {io : Io} {r : Record} {s s' : ReplayStore} {c : Cursor} {p : Pending}

theorem mem_append_error (hs : s.append r io = (s', some e)) :
    s'.mem = s.mem ∧ s'.queue = s.queue := by
  rcases s.append_cases r io with ⟨t, e', ht, hf⟩ | ⟨t, e', ht, hf⟩ | ⟨t, e', ht, hf⟩ |
      ⟨t, ht, hf, _, _⟩
  · rw [hs] at ht
    cases ht
    exact ⟨hf.fields.1, hf.fields.2.1⟩
  · rw [hs] at ht
    cases ht
    exact ⟨hf.fields.1, hf.fields.2.1⟩
  · rw [hs] at ht
    cases ht
    exact ⟨hf.fields.1, hf.fields.2.1⟩
  · rw [hs] at ht
    cases ht

theorem mem_append_ok (hs : s.append r io = (s', none)) :
    ∃ t, Fresh s t ∧ s.failed = none ∧ s' = t.appended r := by
  rcases s.append_cases r io with ⟨t, e', ht, hf⟩ | ⟨t, e', ht, hf⟩ | ⟨t, e', ht, hf⟩ |
      ⟨t, ht, hf, hFailed, _⟩
  · rw [hs] at ht
    cases ht
  · rw [hs] at ht
    cases ht
  · rw [hs] at ht
    cases ht
  · rw [hs] at ht
    cases ht
    exact ⟨t, hf, hFailed, rfl⟩

theorem accept_error (h : s.accept uid c io = (s', some e)) :
    s'.mem = s.mem ∧ s'.queue = s.queue := by
  unfold accept at h
  split at h
  · cases h
    exact ⟨rfl, rfl⟩
  · split at h
    · cases h
      exact ⟨rfl, rfl⟩
    · split at h
      · rename_i t e' ht
        cases h
        exact mem_append_error ht
      · cases h

/-- An accepted cursor is in memory, was written and synced, and nothing was queued. -/
theorem accept_ok (h : s.accept uid c io = (s', none)) :
    s.queued = 0 ∧ s.failed = none ∧ validate uid c = true ∧
      s'.mem = s.mem.apply (.cursor uid c) ∧ s'.queue = s.queue := by
  unfold accept at h
  split at h
  · cases h
  · rename_i hq
    rw [not_not] at hq
    split at h
    · cases h
    · rename_i hv
      split at h
      · cases h
      · rename_i t ht
        cases h
        obtain ⟨t', hf, hFailed, rfl⟩ := mem_append_ok ht
        obtain ⟨hMem, hQueue, _⟩ := hf.fields
        have hCur : t'.cursors = s.cursors := congrArg ReplaySnapshot.cursors hMem
        have hCmd : t'.commandSeq = s.commandSeq := congrArg ReplaySnapshot.commandSeq hMem
        refine ⟨hq, hFailed, by simpa using hv, ?_, ?_⟩
        · simp only [mem, appended, ReplaySnapshot.apply, hCur, hCmd]
        · rw [← hQueue]
          exact queue_appended t' (.cursor uid c) _ _

theorem reset_error (h : s.reset uid io = (s', .error e)) :
    s'.mem = s.mem ∧ s'.queue = s.queue := by
  unfold reset at h
  split at h
  · cases h
    exact ⟨rfl, rfl⟩
  · split at h
    · cases h
      exact ⟨rfl, rfl⟩
    · dsimp only at h
      split at h
      · rename_i t e' ht
        cases h
        exact mem_append_error ht
      · cases h

theorem reset_ok {b : Bool} (h : s.reset uid io = (s', .ok b)) :
    s.queued = 0 ∧ s'.mem = s.mem.apply (.tombstone uid) ∧ s'.queue = s.queue := by
  unfold reset at h
  split at h
  · cases h
  · split at h
    · cases h
    · rename_i hq
      rw [not_not] at hq
      dsimp only at h
      split at h
      · cases h
      · rename_i t ht
        cases h
        obtain ⟨t', hf, hFailed, rfl⟩ := mem_append_ok ht
        obtain ⟨hMem, hQueue, _⟩ := hf.fields
        have hCur : t'.cursors = s.cursors := congrArg ReplaySnapshot.cursors hMem
        have hCmd : t'.commandSeq = s.commandSeq := congrArg ReplaySnapshot.commandSeq hMem
        refine ⟨hq, ?_, ?_⟩
        · simp only [mem, appended, ReplaySnapshot.apply, hCur, hCmd]
        · rw [← hQueue]
          exact queue_appended t' (.tombstone uid) _ _

theorem command_error {seq : Nat} (h : s.command seq io = (s', some e)) :
    s'.mem = s.mem ∧ s'.queue = s.queue := by
  unfold command at h
  split at h
  · cases h
    exact ⟨rfl, rfl⟩
  · split at h
    · cases h
      exact ⟨rfl, rfl⟩
    · split at h
      · cases h
      · split at h
        · rename_i t e' ht
          cases h
          exact mem_append_error ht
        · cases h

/-- A command that returned is at most the number in memory; one above the number before
the call was written and synced last. -/
theorem command_ok {seq : Nat} (h : s.command seq io = (s', none)) :
    seq ≤ u32Max ∧ s.failed = none ∧ s'.mem = s.mem.apply (.cmd seq) ∧ s'.queue = s.queue ∧
      (s.commandSeq < seq → Record.cmd seq ∈ s'.durable) := by
  unfold command at h
  split at h
  · cases h
  · rename_i hSeq
    split at h
    · cases h
    · rename_i hFailed
      split at h
      · rename_i hOld
        cases h
        refine ⟨by omega, hFailed, ?_, rfl, fun hlt => by omega⟩
        simp only [mem, ReplaySnapshot.apply, max_eq_left hOld]
      · rename_i hNew
        split at h
        · cases h
        · rename_i t ht
          cases h
          obtain ⟨t', hf, _, rfl⟩ := mem_append_ok ht
          obtain ⟨hMem, hQueue, _⟩ := hf.fields
          have hCur : t'.cursors = s.cursors := congrArg ReplaySnapshot.cursors hMem
          refine ⟨by omega, hFailed, ?_, ?_, fun _ => ?_⟩
          · simp only [mem, appended, ReplaySnapshot.apply, hCur]
            rw [max_eq_right (by omega)]
          · rw [← hQueue]
            exact queue_appended t' (.cmd seq) t'.cursors seq
          · simp [appended]

theorem mem_schedule (s : ReplayStore) : s.schedule.mem = s.mem := by
  unfold schedule
  split <;> rfl

theorem failed_schedule (s : ReplayStore) : s.schedule.failed = s.failed := by
  unfold schedule
  split <;> rfl

theorem durable_schedule (s : ReplayStore) : s.schedule.durable = s.durable := by
  unfold schedule
  split <;> rfl

theorem acceptAsync_error (h : s.acceptAsync p = (s', some e)) : s' = s := by
  unfold acceptAsync at h
  split at h
  · cases h; rfl
  · split at h
    · cases h; rfl
    · split at h
      · cases h; rfl
      · split at h
        · cases h; rfl
        · cases h

theorem acceptAsync_ok (h : s.acceptAsync p = (s', none)) :
    s.failed = none ∧ s'.mem = s.mem ∧ s'.queue = s.queue ++ [p] ∧
      s'.durable = s.durable := by
  unfold acceptAsync at h
  split at h
  · cases h
  · rename_i hFailed
    split at h
    · cases h
    · split at h
      · cases h
      · split at h
        · cases h
        · cases h
          refine ⟨hFailed, by rw [mem_schedule]; rfl, ?_, by rw [durable_schedule]⟩
          rw [queue_schedule]
          simp only [queue, inflight, append_assoc]

theorem flushFails_spec (s : ReplayStore) (batch : List Pending) (e : String) :
    (s.flushFails batch e).1.mem = s.mem ∧ (s.flushFails batch e).1.queue = [] ∧
      (s.flushFails batch e).2 = (batch ++ s.pending).map fun p => ⟨p, some e⟩ := by
  refine ⟨rfl, ?_, rfl⟩
  simp [flushFails, queue, inflight]

/-- A batch timer settles nothing, or rejects the whole queue. -/
theorem timerFires_spec (s : ReplayStore) (io : Io) :
    (s.timerFires io).1.mem = s.mem ∧
      (((s.timerFires io).2 = [] ∧ (s.timerFires io).1.queue = s.queue) ∨
        ∃ e, (s.timerFires io).1.queue = [] ∧ (s.timerFires io).1.failed = some e ∧
          (s.timerFires io).2 = s.queue.map fun p => ⟨p, some e⟩) := by
  unfold timerFires
  split
  · unfold flush
    split
    · exact ⟨rfl, Or.inl ⟨rfl, rfl⟩⟩
    · rename_i hc
      simp only [Bool.or_eq_true, not_or, Bool.not_eq_true, Option.isSome_eq_false_iff,
        Option.isNone_iff_eq_none] at hc
      have hFlush : s.flushing = none := hc.1
      have hQueue : s.queue = s.pending := by simp [queue, inflight, hFlush]
      rcases flushBatch_cases { s with timer := false, pending := [] } s.pending io hFlush with
        ⟨t, e, n, b, hf, hEq⟩ | ⟨t, hf, hFailed, _, hEq⟩
      · rw [hEq]
        obtain ⟨hMem, _, _, _, _, hPending⟩ := hf.fields
        refine ⟨hMem, Or.inr ⟨e, (flushFails_spec _ _ _).2.1, rfl, ?_⟩⟩
        rw [(flushFails_spec _ _ _).2.2, hPending, hQueue, append_nil]
      · rw [hEq]
        obtain ⟨hMem, _, _, _, _, hPending⟩ := hf.fields
        refine ⟨hMem, Or.inl ⟨rfl, ?_⟩⟩
        simp only [queue, inflight, hPending, Option.map_some, Option.getD_some, hFlush,
          Option.map_none, Option.getD_none, append_nil, nil_append]
  · exact ⟨rfl, Or.inl ⟨rfl, rfl⟩⟩

/-- The end of a batch: it is settled as a whole on a healthy store, or the whole queue is
rejected. -/
theorem syncDone_spec (s : ReplayStore) (ok : Bool) :
    (s.flushing = none ∧ s.syncDone ok = (s, [])) ∨
      (s.failed = none ∧ (s.syncDone ok).1.failed = none ∧
        (s.syncDone ok).1.mem = replayFrom s.mem (batchRecords s.inflight) ∧
        (s.syncDone ok).1.queue = s.pending ∧
        (s.syncDone ok).2 = s.inflight.map fun p => ⟨p, none⟩) ∨
      ∃ e, (s.syncDone ok).1.mem = s.mem ∧ (s.syncDone ok).1.queue = [] ∧
        (s.syncDone ok).1.failed = some e ∧
        (s.syncDone ok).2 = s.queue.map fun p => ⟨p, some e⟩ := by
  unfold syncDone
  split
  · rename_i hf
    exact Or.inl ⟨hf, rfl⟩
  · rename_i f hf
    have hInflight : s.inflight = f.batch := by simp [inflight, hf]
    have hQueue : s.queue = f.batch ++ s.pending := by simp [queue, hInflight]
    refine Or.inr ?_
    split
    · dsimp only
      split
      · rename_i e he
        refine Or.inr ⟨e, rfl, (flushFails_spec _ _ _).2.1, rfl, ?_⟩
        rw [(flushFails_spec _ _ _).2.2, hQueue]
      · rename_i hFailed
        refine Or.inl ⟨hFailed, ?_, ?_, ?_, ?_⟩
        · rw [failed_schedule, foldl_settle_fields]
          exact hFailed
        · rw [mem_schedule, foldl_settle_fields, hInflight]
          rfl
        · rw [queue_schedule, foldl_settle_fields]
          simp [queue, inflight]
        · rw [hInflight]
    · refine Or.inr ⟨ioError, rfl, (flushFails_spec _ _ _).2.1, rfl, ?_⟩
      rw [(flushFails_spec _ _ _).2.2, hQueue]

/-! ## A latched failure stays -/

theorem append_failed (h : s.failed = some e) (r : Record) (io : Io) :
    s.append r io = (s, some e) := by
  simp [append, h]

theorem failed_accept (h : (s.accept uid c io).1.failed = none) : s.failed = none := by
  cases hFailed : s.failed with
  | none => rfl
  | some e =>
    have hSame : (s.accept uid c io).1 = s := by
      unfold accept
      split
      · rfl
      · split
        · rfl
        · rw [append_failed hFailed]
    rw [hSame, hFailed] at h
    cases h

theorem failed_command {n : Nat} (h : (s.command n io).1.failed = none) : s.failed = none := by
  cases hFailed : s.failed with
  | none => rfl
  | some e =>
    have hSame : (s.command n io).1 = s := by
      unfold command
      split
      · rfl
      · rw [hFailed]
    rw [hSame, hFailed] at h
    cases h

theorem failed_reset (h : (s.reset uid io).1.failed = none) : s.failed = none := by
  cases hFailed : s.failed with
  | none => rfl
  | some e =>
    have hSame : (s.reset uid io).1 = s := by
      unfold reset
      split
      · rfl
      · split
        · rfl
        · rw [append_failed hFailed]
    rw [hSame, hFailed] at h
    cases h

theorem failed_timerFires (h : (s.timerFires io).1.failed = none) : s.failed = none := by
  cases hFailed : s.failed with
  | none => rfl
  | some e =>
    have hStays : (s.timerFires io).1.failed = some e := by
      unfold timerFires
      split
      · unfold flush
        split
        · exact hFailed
        · simp [flushBatch, hFailed, flushFails]
      · exact hFailed
    rw [hStays] at h
    cases h

/-- A healthy store with room takes every valid write. -/
theorem acceptAsync_healthy (hFailed : s.failed = none) (hValid : validate p.uid p.cursor = true)
    (hCmd : ∀ n, p.commandSeq = some n → n ≤ u32Max) (hRoom : s.queued < maxQueued) :
    (s.acceptAsync p).2 = none := by
  have hAny : (p.commandSeq.any fun n => decide (u32Max < n)) = false := by
    cases hc : p.commandSeq with
    | none => rfl
    | some n => simpa using hCmd n hc
  simp [acceptAsync, hFailed, hValid, hAny, not_le.mpr hRoom]

/-! ## Opening -/

theorem readRecord_valid {line : Option Json} (h : readRecord line = .ok r) : r.valid = true := by
  have hu32 : ∀ j n, u32 j = some n → n ≤ u32Max := by
    intro j n hn
    unfold u32 at hn
    split at hn
    · rename_i q
      split at hn
      · rename_i hq
        cases hn
        obtain ⟨hInt, h0, hMax⟩ := hq
        have hden : q.den = 1 := by simpa [Rat.isInt] using hInt
        have hqn : (q.num : ℚ) = q := by
          conv_rhs => rw [← Rat.num_div_den q, hden]
          simp
        rw [← hqn] at hMax
        have : q.num ≤ u32Max := by exact_mod_cast hMax
        omega
      · cases hn
    · cases hn
  unfold readRecord at h
  split at h
  · cases h
  · split at h
    · rename_i hs
      cases h
      simpa [Record.valid] using hu32 _ _ hs
    · split at h
      · rename_i hu
        cases h
        exact hu
      · cases h
    · cases h
  · split at h
    · rename_i boot seq hb hs
      split at h
      · rename_i hu
        cases h
        simp only [Record.valid, hu, Bool.true_and, Bool.and_eq_true, decide_eq_true_eq]
        exact ⟨hu32 _ _ hb, hu32 _ _ hs⟩
      · cases h
    · cases h
  · cases h
  · cases h

theorem readLines_ok {lines : List (Option Json)} {s s' : ReplaySnapshot}
    (h : readLines s lines = .ok s')
    (hs : ∀ r ∈ snapshotRecords s, r.Ok fun _ => True) :
    ∀ r ∈ snapshotRecords s', r.Ok fun _ => True := by
  induction lines generalizing s with
  | nil =>
    cases h
    exact hs
  | cons line lines ih =>
    unfold readLines at h
    cases hr : readRecord line with
    | error e => simp [hr, bind, Except.bind] at h
    | ok r =>
      simp only [hr, bind, Except.bind] at h
      exact ih h (snapshotRecords_apply ⟨readRecord_valid hr, fun _ _ _ => trivial⟩ hs)

theorem readReplaySnapshot_ok {f : JournalFile} {s : ReplaySnapshot}
    (h : readReplaySnapshot f = .ok s) : readLines .initial f.lines = .ok s := by
  unfold readReplaySnapshot at h
  simp only [bind, Except.bind, pure, Except.pure, throw, throwThe, MonadExceptOf.throw] at h
  split at h
  · cases h
  · split at h
    · cases h
    · split at h
      · cases h
      · rename_i s' hs'
        split at h
        · cases h
        · rw [hs', ← h]

theorem openStore_ok {file : Option JournalFile} {io : CheckpointIo} {s : ReplayStore}
    (h : openStore file io = .ok s) :
    ∃ snapshot, (∀ f, file = some f → readReplaySnapshot f = .ok snapshot) ∧
      (∀ r ∈ snapshotRecords snapshot, r.Ok fun _ => True) ∧
      s = { cursors := snapshot.cursors, commandSeq := snapshot.commandSeq, records := 0,
            pending := [], flushing := none, timer := false, failed := none, queued := 0,
            journal := snapshotRecords snapshot, torn := false,
            durable := snapshotRecords snapshot } := by
  have hInitial := snapshotRecords_initial fun _ => True
  obtain ⟨snapshot, hFile, hOk, hRest⟩ : ∃ snapshot,
      (∀ f, file = some f → readReplaySnapshot f = .ok snapshot) ∧
      (∀ r ∈ snapshotRecords snapshot, r.Ok fun _ => True) ∧
      checkpoint
        { cursors := snapshot.cursors, commandSeq := snapshot.commandSeq, records := 0,
          pending := [], flushing := none, timer := false, failed := none, queued := 0,
          journal := [], torn := false, durable := [] } io = (s, none) := by
    unfold openStore at h
    cases file with
    | none =>
      refine ⟨.initial, by simp, hInitial, ?_⟩
      dsimp only [bind, Except.bind, pure, Except.pure] at h
      split at h
      · cases h
        assumption
      · cases h
    | some f =>
      cases hf : readReplaySnapshot f with
      | error e => simp [hf, bind, Except.bind] at h
      | ok snapshot =>
        simp only [hf, bind, Except.bind] at h
        refine ⟨snapshot, ?_, readLines_ok (readReplaySnapshot_ok hf) hInitial, ?_⟩
        · rintro g ⟨⟩
          exact hf
        · split at h
          · cases h
            assumption
          · cases h
  refine ⟨snapshot, hFile, hOk, ?_⟩
  cases io with
  | ok =>
    cases hRest
    rfl
  | failsBefore => cases hRest
  | failsAfter kept => cases hRest

/-- A store that has just been opened: the journal is a checkpoint of the memory. -/
theorem inv_openStore {U : String → Prop} {file : Option JournalFile} {io : CheckpointIo}
    (h : openStore file io = .ok s) (hU : ∀ k ∈ s.cursors.keys, U k) : s.Inv U := by
  obtain ⟨snapshot, _, hOk, rfl⟩ := openStore_ok h
  have hRecords : ∀ r ∈ snapshotRecords snapshot, r.Ok U := by
    intro r hr
    refine ⟨(hOk r hr).1, ?_⟩
    rintro uid c rfl
    rcases mem_cons.mp hr with hr | hr
    · cases hr
    · obtain ⟨e, he, heq⟩ := mem_map.mp hr
      cases heq
      exact hU e.1 (mem_map.mpr ⟨e, he, rfl⟩)
  have hReplay := replay_snapshotRecords snapshot
  refine ⟨hRecords, hRecords, hRecords, ?_, ?_, newer_nil _, rfl, fun _ => hReplay, ?_, ?_, ?_,
    ?_, fun _ => rfl⟩
  · simp [queue, inflight]
  · simp
  · simp
  · simp
  · rw [hReplay]
    exact Covers.refl snapshot
  · simp

end ReplayStore

end TMEdge.Replay
