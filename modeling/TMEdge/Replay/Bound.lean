import TMEdge.Replay.Agreement

/-!
# How large the journal grows

`readReplaySnapshot` refuses a file of more than 8 MiB. The store checkpoints every 10,000
records, except while a batch is in flight, when a command is appended without one.
`Bounded` is the invariant behind the limit: between batches the file is within it, and
during a batch it grows only by the commands appended meanwhile, 19 bytes each. It is
kept by every method as long as a command that arrives during a batch finds fewer than
`flightLimit` records since the last checkpoint.
-/

namespace TMEdge.Replay

open Library List Option

theorem journalBytes_append (rs rs' : List Record) :
    journalBytes (rs ++ rs') = journalBytes rs + journalBytes rs' := by
  simp [journalBytes]

theorem journalBytes_concat (rs : List Record) (r : Record) :
    journalBytes (rs ++ [r]) = journalBytes rs + r.bytes := by
  simp [journalBytes]

variable {U : String → Prop}

theorem journalBytes_le {rs : List Record} (h : ∀ r ∈ rs, r.Ok U) :
    journalBytes rs ≤ 44 * rs.length := by
  induction rs with
  | nil => simp [journalBytes]
  | cons r rs ih =>
    have hr := Record.bytes_le (h r mem_cons_self).1
    have ih' := ih fun r' hr' => h r' (mem_cons_of_mem _ hr')
    simp only [journalBytes, map_cons, sum_cons, length_cons] at ih' ⊢
    omega

theorem bytes_records_le {p : Pending} (h : ∀ r ∈ p.records, r.Ok U) :
    journalBytes p.records ≤ 63 ∧ p.records.length ≤ 2 := by
  have hCursor := Record.bytes_le (h _ mem_cons_self).1
  unfold Pending.records at h ⊢
  cases hc : p.commandSeq with
  | none =>
    simp only [journalBytes, map_none, toList_none, map_cons, map_nil,
      sum_cons, sum_nil, length_cons, length_nil]
    omega
  | some n =>
    have hn : n ≤ u32Max := by
      have := (h (.cmd n) (by simp [hc])).1
      simpa [Record.valid] using this
    have hCmd := Record.bytes_cmd_le hn
    simp only [journalBytes, map_some, toList_some, map_cons, map_nil,
      sum_cons, sum_nil, length_cons, length_nil]
    omega

theorem bytes_batch_le {batch : List Pending} (h : ∀ p ∈ batch, ∀ r ∈ p.records, r.Ok U) :
    journalBytes (batchRecords batch) ≤ 63 * batch.length := by
  induction batch with
  | nil => simp [batchRecords, journalBytes]
  | cons p batch ih =>
    have hp := (bytes_records_le (h p mem_cons_self)).1
    have ih' := ih fun p' hp' => h p' (mem_cons_of_mem _ hp')
    rw [batchRecords_cons, journalBytes_append, length_cons]
    omega

namespace ReplayStore

/-- Bytes of a checkpoint of 5000 nodes. -/
def checkpointBytes : Nat := 19 + 44 * nodeLimit

/-- Records since the last checkpoint beyond which a command that arrives during a batch
may take the file over the reader's limit. -/
def flightLimit : Nat := 373612

variable {U : String → Prop} {s : ReplayStore}

theorem bytes_checkpointRecords (h : s.Inv U) (hSize : s.cursors.size ≤ nodeLimit) :
    journalBytes s.checkpointRecords ≤ checkpointBytes := by
  have hCmd : s.commandSeq ≤ u32Max := by
    have := (h.memOk _ mem_cons_self).1
    simpa [Record.valid] using this
  have hBytes := Record.bytes_cmd_le hCmd
  have hTail := journalBytes_le fun r hr => h.memOk r (mem_cons_of_mem _ hr)
  have hLen : (s.cursors.entries.map fun e => Record.cursor e.1 e.2).length ≤ nodeLimit := by
    simpa [JsMap.size] using hSize
  unfold checkpointRecords checkpointBytes
  simp only [journalBytes, map_cons, sum_cons] at hTail ⊢
  omega

structure Bounded (s : ReplayStore) : Prop where
  queue : s.queue.length ≤ maxQueued
  batch : ∀ f, s.flushing = some f → f.batch ≠ []
  /-- Since the last checkpoint the file has grown by the counted records and the batch. -/
  records : s.failed = none → journalBytes s.journal ≤
    checkpointBytes + 44 * (s.records + (batchRecords s.inflight).length)
  idle : s.failed = none → s.flushing = none → journalBytes s.journal ≤ journalLimit
  flight : s.failed = none → s.flushing ≠ none → s.records ≤ flightLimit ∧
    journalBytes s.journal ≤
      checkpointBytes + 44 * (checkpointEvery - 1) + 63 * maxQueued + 19 * s.records
  durable : journalBytes s.durable ≤ journalLimit
  image : ∀ f, s.flushing = some f → journalBytes f.image ≤ journalLimit

theorem Bounded.journal_le (h : s.Bounded) (hFailed : s.failed = none) :
    journalBytes s.journal ≤ journalLimit := by
  by_cases hFlush : s.flushing = none
  · exact h.idle hFailed hFlush
  · obtain ⟨hRecords, hBytes⟩ := h.flight hFailed hFlush
    have : checkpointBytes + 44 * (checkpointEvery - 1) + 63 * maxQueued + 19 * flightLimit ≤
      journalLimit := by decide
    omega

theorem Bounded.checkpoint (h : s.Inv U) (hb : s.Bounded) (hSize : s.cursors.size ≤ nodeLimit)
    (hFlush : s.flushing = none) (io : CheckpointIo) : (s.checkpoint io).1.Bounded := by
  have hBytes := bytes_checkpointRecords h hSize
  have hLimit : checkpointBytes ≤ journalLimit := by decide
  refine ⟨by simpa using hb.queue, by simp [hFlush], ?_, ?_, by simp [hFlush], ?_,
    by simp [hFlush]⟩
  · intro hFailed
    rw [failed_checkpoint] at hFailed
    have hOld := hb.records hFailed
    rw [show (s.checkpoint io).1.inflight = s.inflight by simp [inflight]]
    cases io with
    | ok => exact hBytes.trans (Nat.le_add_right _ _)
    | failsBefore => exact hOld
    | failsAfter kept => exact hBytes.trans (Nat.le_add_right _ _)
  · intro hFailed _
    rw [failed_checkpoint] at hFailed
    rcases s.journal_checkpoint io with hj | hj
    · rw [hj]; exact hb.idle hFailed hFlush
    · rw [hj]; exact hBytes.trans hLimit
  · rcases s.durable_checkpoint io with hd | hd
    · rw [hd]; exact hb.durable
    · rw [hd]; exact hBytes.trans hLimit

theorem Bounded.fresh {t : ReplayStore} (h : s.Inv U) (hb : s.Bounded)
    (hSize : s.cursors.size ≤ nodeLimit) (hf : Fresh s t) : t.Bounded := by
  cases hf with
  | same => exact hb
  | checkpointed hFlush io => exact hb.checkpoint h hSize hFlush io

/-- A latched failure ends the growth of the journal. -/
theorem Bounded.latch (h : s.Bounded) (e : String) (b : Bool) (rs : List Record) :
    ({ s with journal := rs, torn := b, failed := some e } : ReplayStore).Bounded :=
  ⟨h.queue, h.batch, by simp, by simp, by simp, h.durable, h.image⟩

theorem Bounded.append_error {s' : ReplayStore} {r : Record} {io : Io} {e : String} (h : s.Inv U)
    (hb : s.Bounded) (hSize : s.cursors.size ≤ nodeLimit) (hs : s.append r io = (s', some e)) :
    s'.Bounded := by
  rcases s.append_cases r io with ⟨t, e', ht, hf⟩ | ⟨t, e', ht, hf⟩ | ⟨t, e', ht, hf⟩ |
      ⟨t, ht, hf, _, _⟩
  · rw [hs] at ht
    cases ht
    exact hb.fresh h hSize hf
  · rw [hs] at ht
    cases ht
    exact (hb.fresh h hSize hf).latch e true t.journal
  · rw [hs] at ht
    cases ht
    exact (hb.fresh h hSize hf).latch e t.torn (t.journal ++ [r])
  · rw [hs] at ht
    cases ht

/-- One more record: any record between batches, a command during one. -/
theorem Bounded.appended {r : Record} (hb : s.Bounded) (hFailed : s.failed = none) (hr : r.Ok U)
    (hIdle : s.flushing = none → s.records < checkpointEvery)
    (hFlight : s.flushing ≠ none → r.bytes ≤ 19 ∧ s.records < flightLimit) (m : ReplaySnapshot) :
    ({ s.appended r with cursors := m.cursors, commandSeq := m.commandSeq } :
      ReplayStore).Bounded := by
  have hInflight : ({ s.appended r with cursors := m.cursors, commandSeq := m.commandSeq } :
      ReplayStore).inflight = s.inflight := by
    simp only [inflight, ReplayStore.appended, Option.map_map]
    rfl
  have hBytes := Record.bytes_le hr.1
  have hGrow := journalBytes_concat s.journal r
  have hRecords := hb.records hFailed
  have hNewIdle : s.flushing = none → journalBytes (s.journal ++ [r]) ≤ journalLimit := by
    intro hFlush
    have hNil : s.inflight = [] := by simp [inflight, hFlush]
    have hCount := hIdle hFlush
    rw [hNil] at hRecords
    simp only [batchRecords, flatMap_nil, length_nil, Nat.add_zero] at hRecords
    have : checkpointBytes + 44 * checkpointEvery ≤ journalLimit := by decide
    omega
  have hNewFlight : s.flushing ≠ none → s.records + 1 ≤ flightLimit ∧
      journalBytes (s.journal ++ [r]) ≤ checkpointBytes + 44 * (checkpointEvery - 1) +
        63 * maxQueued + 19 * (s.records + 1) := by
    intro hFlush
    obtain ⟨hLe, hCount⟩ := hFlight hFlush
    obtain ⟨_, hOld⟩ := hb.flight hFailed hFlush
    omega
  have hLimit : checkpointBytes + 44 * (checkpointEvery - 1) + 63 * maxQueued +
      19 * flightLimit ≤ journalLimit := by decide
  refine ⟨?_, ?_, ?_, ?_, ?_, ?_, ?_⟩
  · have hQueue : ({ s.appended r with cursors := m.cursors, commandSeq := m.commandSeq } :
        ReplayStore).queue = s.queue := by
      unfold ReplayStore.queue
      rw [hInflight]
      rfl
    rw [hQueue]
    exact hb.queue
  · intro f hf
    obtain ⟨g, hg, rfl⟩ := map_eq_some_iff.mp hf
    exact hb.batch g hg
  · intro _
    rw [hInflight]
    change journalBytes (s.journal ++ [r]) ≤
      checkpointBytes + 44 * (s.records + 1 + (batchRecords s.inflight).length)
    omega
  · intro _ hFlush
    exact hNewIdle (by simpa [ReplayStore.appended] using hFlush)
  · intro _ hFlush
    exact hNewFlight (by simpa [ReplayStore.appended] using hFlush)
  · change journalBytes (s.journal ++ [r]) ≤ journalLimit
    by_cases hFlush : s.flushing = none
    · exact hNewIdle hFlush
    · obtain ⟨h1, h2⟩ := hNewFlight hFlush
      omega
  · intro f hf
    obtain ⟨g, hg, rfl⟩ := map_eq_some_iff.mp hf
    exact hb.image g hg

theorem Bounded.flushing_none (h : s.Inv U) (hb : s.Bounded) (hq : s.queued = 0) :
    s.flushing = none := by
  have hNil := (h.inflight_nil hq).2
  cases hf : s.flushing with
  | none => rfl
  | some f =>
    simp only [inflight, hf, map_some, getD_some] at hNil
    exact absurd hNil (hb.batch f hf)

theorem bounded_accept (h : s.Inv U) (hb : s.Bounded) (hSize : s.cursors.size ≤ nodeLimit)
    {uid : String} {c : Cursor} (hU : U uid) (io : Io) : (s.accept uid c io).1.Bounded := by
  unfold accept
  split
  · exact hb
  · rename_i hq
    rw [not_not] at hq
    split
    · exact hb
    · rename_i hv
      have hr : (Record.cursor uid c).Ok U := ok_cursor (by simpa using hv) hU
      have hFlush := hb.flushing_none h hq
      rcases s.append_cases (.cursor uid c) io with ⟨t, e, ht, hf⟩ | ⟨t, e, ht, hf⟩ |
          ⟨t, e, ht, hf⟩ | ⟨t, ht, hf, hFailed, hCount⟩
      · rw [ht]; exact hb.append_error h hSize ht
      · rw [ht]; exact hb.append_error h hSize ht
      · rw [ht]; exact hb.append_error h hSize ht
      · rw [ht]
        obtain ⟨_, _, _, hFailed', hFlush', _⟩ := hf.fields
        exact (hb.fresh h hSize hf).appended (hFailed'.trans hFailed) hr (fun _ => hCount hFlush)
          (fun hne => absurd (hFlush'.trans hFlush) hne) ⟨t.cursors.set uid c, t.commandSeq⟩

theorem bounded_reset (h : s.Inv U) (hb : s.Bounded) (hSize : s.cursors.size ≤ nodeLimit)
    (uid : String) (io : Io) : (s.reset uid io).1.Bounded := by
  unfold reset
  split
  · exact hb
  · rename_i hUid
    split
    · exact hb
    · rename_i hq
      rw [not_not] at hq
      have hr : (Record.tombstone uid).Ok U := ok_tombstone (by simpa using hUid)
      have hFlush := hb.flushing_none h hq
      dsimp only
      rcases s.append_cases (.tombstone uid) io with ⟨t, e, ht, hf⟩ | ⟨t, e, ht, hf⟩ |
          ⟨t, e, ht, hf⟩ | ⟨t, ht, hf, hFailed, hCount⟩
      · rw [ht]; exact hb.append_error h hSize ht
      · rw [ht]; exact hb.append_error h hSize ht
      · rw [ht]; exact hb.append_error h hSize ht
      · rw [ht]
        obtain ⟨_, _, _, hFailed', hFlush', _⟩ := hf.fields
        exact (hb.fresh h hSize hf).appended (hFailed'.trans hFailed) hr (fun _ => hCount hFlush)
          (fun hne => absurd (hFlush'.trans hFlush) hne) ⟨t.cursors.delete uid, t.commandSeq⟩

/-- A command during a batch is appended whatever the count, so the count must be low. -/
theorem bounded_command (h : s.Inv U) (hb : s.Bounded) (hSize : s.cursors.size ≤ nodeLimit)
    {seq : Nat} (hFlight : s.flushing ≠ none → s.records < flightLimit) (io : Io) :
    (s.command seq io).1.Bounded := by
  unfold command
  split
  · exact hb
  · rename_i hSeq
    split
    · exact hb
    · split
      · exact hb
      · have hr : (Record.cmd seq).Ok U := ok_cmd (by omega)
        rcases s.append_cases (.cmd seq) io with ⟨t, e, ht, hf⟩ | ⟨t, e, ht, hf⟩ |
            ⟨t, e, ht, hf⟩ | ⟨t, ht, hf, hFailed, hCount⟩
        · rw [ht]; exact hb.append_error h hSize ht
        · rw [ht]; exact hb.append_error h hSize ht
        · rw [ht]; exact hb.append_error h hSize ht
        · rw [ht]
          obtain ⟨_, _, _, hFailed', hFlush', _⟩ := hf.fields
          refine (hb.fresh h hSize hf).appended (hFailed'.trans hFailed) hr ?_ ?_ ⟨t.cursors, seq⟩
          · exact fun hn => hCount (hFlush' ▸ hn)
          · intro hne
            refine ⟨Record.bytes_cmd_le (by omega), ?_⟩
            rw [hFlush'] at hne
            cases hf with
            | same => exact hFlight hne
            | checkpointed hNone _ => exact absurd hNone hne

theorem Bounded.schedule (hb : s.Bounded) : s.schedule.Bounded := by
  unfold ReplayStore.schedule
  split
  · exact hb
  · exact ⟨hb.queue, hb.batch, hb.records, hb.idle, hb.flight, hb.durable, hb.image⟩

theorem bounded_acceptAsync (h : s.Inv U) (hb : s.Bounded) (p : Pending) :
    (s.acceptAsync p).1.Bounded := by
  unfold acceptAsync
  split
  · exact hb
  · split
    · exact hb
    · split
      · exact hb
      · split
        · exact hb
        · rename_i hFull
          refine Bounded.schedule
            ⟨?_, hb.batch, hb.records, hb.idle, hb.flight, hb.durable, hb.image⟩
          have hLen := h.queued
          simp only [ReplayStore.queue, inflight, length_append, length_singleton]
            at hLen ⊢
          omega

theorem Bounded.flushFails {batch : List Pending} {e : String}
    (hDurable : journalBytes s.durable ≤ journalLimit) : (s.flushFails batch e).1.Bounded := by
  refine ⟨?_, ?_, ?_, ?_, ?_, hDurable, ?_⟩
  · simp [ReplayStore.flushFails, ReplayStore.queue, inflight]
  · simp [ReplayStore.flushFails]
  · simp [ReplayStore.flushFails]
  · simp [ReplayStore.flushFails]
  · simp [ReplayStore.flushFails]
  · simp [ReplayStore.flushFails]

theorem length_batchRecords {batch : List Pending} (h : ∀ p ∈ batch, ∀ r ∈ p.records, r.Ok U) :
    journalBytes (batchRecords batch) ≤ 44 * (batchRecords batch).length :=
  journalBytes_le fun r hr => by
    obtain ⟨p, hp, hr⟩ := mem_flatMap.mp hr
    exact h p hp r hr

theorem bounded_flush (h : s.Inv U) (hb : s.Bounded) (hSize : s.cursors.size ≤ nodeLimit)
    (io : Io) : (s.flush io).1.Bounded := by
  unfold ReplayStore.flush
  split
  · exact hb
  · rename_i hc
    simp only [Bool.or_eq_true, not_or, Bool.not_eq_true, isSome_eq_false_iff,
      isNone_iff_eq_none, isEmpty_eq_false_iff] at hc
    obtain ⟨hFlush, hPending⟩ := hc
    have hQueue : s.queue = s.pending := by simp [ReplayStore.queue, inflight, hFlush]
    have hOk : ∀ p ∈ s.pending, ∀ r ∈ p.records, r.Ok U := fun p hp =>
      h.queueOk p (hQueue ▸ hp)
    have hBatch := bytes_batch_le hOk
    have hBatch' := length_batchRecords hOk
    have hLen : s.pending.length ≤ maxQueued := hQueue ▸ hb.queue
    have hFresh : ∀ t, Fresh { s with pending := [] } t → ∃ t', Fresh s t' ∧
        t.durable = t'.durable ∧ t.journal = t'.journal ∧ t.records = t'.records ∧
        t.failed = t'.failed ∧ t'.flushing = none := by
      intro t hf
      cases hf with
      | same => exact ⟨s, .same, rfl, rfl, rfl, rfl, hFlush⟩
      | checkpointed hf' io' =>
        refine ⟨_, .checkpointed hFlush io', ?_, ?_, ?_, ?_, by simpa using hFlush⟩
        all_goals cases io' <;> rfl
    rcases flushBatch_cases { s with pending := [] } s.pending io hFlush with
      ⟨t, e, n, b, hf, hEq⟩ | ⟨t, hf, hFailed, hCount, hEq⟩
    · rw [hEq]
      obtain ⟨t', hf', hDurable, _⟩ := hFresh t hf
      refine Bounded.flushFails ?_
      change journalBytes t.durable ≤ journalLimit
      rw [hDurable]
      exact (hb.fresh h hSize hf').durable
    · rw [hEq]
      obtain ⟨t', hf', hDurable, hJournal, hRecords, hFailed', hNone⟩ := hFresh t hf
      have hb' := hb.fresh h hSize hf'
      have hFailedT : t'.failed = none := by
        rw [← hFailed', hf.fields.2.2.2.1]
        exact hFailed
      have hOld : journalBytes t.journal ≤ checkpointBytes + 44 * t.records := by
        have := hb'.records hFailedT
        rw [show t'.inflight = [] by simp [inflight, hNone]] at this
        rw [hJournal, hRecords]
        simpa [batchRecords] using this
      have hGrow := journalBytes_append t.journal (batchRecords s.pending)
      have hEmpty : t.pending = [] := hf.fields.2.2.2.2.2
      have hImage : journalBytes (t.journal ++ batchRecords s.pending) ≤
          checkpointBytes + 44 * (checkpointEvery - 1) + 63 * maxQueued := by
        have : t.records ≤ checkpointEvery - 1 := by omega
        omega
      have hLimit : checkpointBytes + 44 * (checkpointEvery - 1) + 63 * maxQueued ≤
          journalLimit := by decide
      have hSmall : checkpointEvery ≤ flightLimit := by decide
      refine ⟨?_, ?_, ?_, by simp, ?_, ?_, ?_⟩
      · simpa [ReplayStore.queue, inflight, hEmpty] using hLen
      · rintro f ⟨⟩
        exact hPending
      · intro _
        change journalBytes (t.journal ++ batchRecords s.pending) ≤
          checkpointBytes + 44 * (t.records + (batchRecords s.pending).length)
        omega
      · intro _ _
        change t.records ≤ flightLimit ∧ journalBytes (t.journal ++ batchRecords s.pending) ≤ _
        exact ⟨by omega, by omega⟩
      · change journalBytes t.durable ≤ journalLimit
        rw [hDurable]
        exact hb'.durable
      · rintro f ⟨⟩
        exact hImage.trans hLimit

theorem bounded_timerFires (h : s.Inv U) (hb : s.Bounded) (hSize : s.cursors.size ≤ nodeLimit)
    (io : Io) : (s.timerFires io).1.Bounded := by
  unfold timerFires
  split
  · have hBounded : ({ s with timer := false } : ReplayStore).Bounded :=
      ⟨hb.queue, hb.batch, hb.records, hb.idle, hb.flight, hb.durable, hb.image⟩
    exact bounded_flush h.timer hBounded hSize io
  · exact hb

theorem bounded_syncDone (hb : s.Bounded) (ok : Bool) : (s.syncDone ok).1.Bounded := by
  unfold syncDone
  split
  · exact hb
  · rename_i f hf
    have hDurable : journalBytes (if f.covered then s.durable else f.image) ≤ journalLimit := by
      split
      · exact hb.durable
      · exact hb.image f hf
    split
    · dsimp only
      split
      · exact Bounded.flushFails hDurable
      · rename_i hFailed
        rw [foldl_settle_fields]
        have hLen : s.pending.length ≤ maxQueued := by
          have := hb.queue
          rw [ReplayStore.queue, length_append] at this
          omega
        refine Bounded.schedule ⟨?_, by simp, ?_, ?_, by simp, hDurable, by simp⟩
        · simpa [ReplayStore.queue, inflight] using hLen
        · intro _
          have := hb.records hFailed
          simpa [inflight, hf, batchRecords] using this
        · intro _ _
          exact hb.journal_le hFailed
    · exact Bounded.flushFails hb.durable

end ReplayStore

end TMEdge.Replay
