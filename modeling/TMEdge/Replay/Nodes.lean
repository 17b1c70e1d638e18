import TMEdge.Replay.Recovery

/-!
# How many nodes a journal names

The reader refuses a file that names more than `nodeLimit` nodes. A node's records stay in
the journal until the next checkpoint, tombstones included, so what counts is the number of
nodes left when the whole file has been read.

* `Fits s`: the file, what is durable of it and the image of the batch in flight leave at
  most `nodeLimit` nodes.
* `Within s K`: the memory and the queue of the store are about nodes of `K`. Every method
  that is told about nodes of a small enough `K` keeps `Fits` (`Fits.accept`, `Fits.reset`,
  `Fits.command`, `Fits.timerFires`, `Fits.syncDone`); a failed store writes nothing more.
* `readable_file`: the reader does not refuse such a file for its nodes.
-/

namespace TMEdge.Replay

open Library List JsMap

/-- The nodes left by some records. -/
def nodesOf (rs : List Record) : Nat := (replay rs).cursors.size

def tooManyNodes : String := "replay journal node limit exceeded"

theorem keys_replayFrom_batch {batch : List Pending} {m : ReplaySnapshot} {K : Finset String}
    (hm : ∀ k ∈ m.cursors.keys, k ∈ K) (hBatch : ∀ p ∈ batch, p.uid ∈ K) :
    ∀ k ∈ (replayFrom m (batchRecords batch)).cursors.keys, k ∈ K := by
  induction batch generalizing m with
  | nil => exact hm
  | cons p batch ih =>
    rw [batchRecords_cons, replayFrom_append]
    refine ih ?_ fun p' hp' => hBatch p' (mem_cons_of_mem _ hp')
    rw [cursors_records]
    intro k hk
    rcases mem_keys_set.mp hk with rfl | hk
    · exact hBatch p mem_cons_self
    · exact hm k hk

/-- A part of a batch is about the nodes of the batch. -/
theorem keys_replayFrom_take {batch : List Pending} {m : ReplaySnapshot} {K : Finset String}
    (hm : ∀ k ∈ m.cursors.keys, k ∈ K) (hBatch : ∀ p ∈ batch, p.uid ∈ K) (n : Nat) :
    ∀ k ∈ (replayFrom m ((batchRecords batch).take n)).cursors.keys, k ∈ K := by
  have hRecords : ∀ r ∈ (batchRecords batch).take n, ∀ uid c, r = .cursor uid c → uid ∈ K := by
    rintro r hr uid c rfl
    obtain ⟨p, hp, hr⟩ := mem_flatMap.mp (mem_of_mem_take hr)
    rcases mem_cons.mp hr with hr | hr
    · cases hr
      exact hBatch p hp
    · simp at hr
  generalize (batchRecords batch).take n = rs at hRecords ⊢
  induction rs generalizing m with
  | nil => exact hm
  | cons r rs ih =>
    refine ih (m := m.apply r) ?_ fun r' hr' => hRecords r' (mem_cons_of_mem _ hr')
    intro k hk
    cases r with
    | cmd n => exact hm k hk
    | cursor uid c =>
      rcases mem_keys_set.mp hk with rfl | hk
      · exact hRecords _ mem_cons_self k c rfl
      · exact hm k hk
    | tombstone uid => exact hm k (mem_keys_delete hk)

namespace ReplayStore

structure Fits (s : ReplayStore) : Prop where
  journal : nodesOf s.journal ≤ nodeLimit
  durable : nodesOf s.durable ≤ nodeLimit
  image : ∀ f, s.flushing = some f → nodesOf f.image ≤ nodeLimit

structure Within (s : ReplayStore) (K : Finset String) : Prop where
  cursors : ∀ k ∈ s.cursors.keys, k ∈ K
  queue : ∀ p ∈ s.queue, p.uid ∈ K

variable {K : Finset String} {s : ReplayStore}

theorem Within.inflight (h : s.Within K) : ∀ p ∈ s.inflight, p.uid ∈ K :=
  fun p hp => h.queue p (mem_append_left _ hp)

theorem Within.mono {K' : Finset String} (h : s.Within K) (hK : K ⊆ K') : s.Within K' :=
  ⟨fun k hk => hK (h.cursors k hk), fun p hp => hK (h.queue p hp)⟩

theorem Within.of_eq {t : ReplayStore} (h : s.Within K) (hMem : t.mem = s.mem)
    (hQueue : t.queue = s.queue) : t.Within K := by
  have hCursors : t.cursors = s.cursors := congrArg ReplaySnapshot.cursors hMem
  exact ⟨hCursors ▸ h.cursors, hQueue ▸ h.queue⟩

theorem nodesOf_checkpointRecords (h : s.Within K) (hK : K.card ≤ nodeLimit) :
    nodesOf s.checkpointRecords ≤ nodeLimit := by
  unfold nodesOf
  rw [replay_checkpointRecords]
  exact (size_le_card h.cursors).trans hK

/-- A record of a node of `K` that a healthy store appends. -/
theorem nodesOf_concat {U : String → Prop} {r : Record} (hInv : s.Inv U) (h : s.Within K)
    (hK : K.card ≤ nodeLimit) (hFailed : s.failed = none)
    (hr : ∀ uid c, r = .cursor uid c → uid ∈ K) : nodesOf (s.journal ++ [r]) ≤ nodeLimit := by
  have hKeys := keys_replayFrom_batch (m := s.mem) h.cursors h.inflight
  unfold nodesOf
  rw [replay_concat, hInv.journal hFailed]
  refine (size_le_card fun k hk => ?_).trans hK
  cases r with
  | cmd n => exact hKeys k hk
  | cursor uid c =>
    rcases mem_keys_set.mp hk with rfl | hk
    · exact hr k c rfl
    · exact hKeys k hk
  | tombstone uid => exact hKeys k (mem_keys_delete hk)

section steps

variable {s t : ReplayStore} {U : String → Prop} {K : Finset String}

theorem Fits.checkpoint (h : s.Fits) (hWithin : s.Within K) (hK : K.card ≤ nodeLimit)
    (io : CheckpointIo) : (s.checkpoint io).1.Fits := by
  have hRecords := nodesOf_checkpointRecords hWithin hK
  refine ⟨?_, ?_, by simpa using h.image⟩
  · rcases s.journal_checkpoint io with hj | hj
    · rw [hj]; exact h.journal
    · rw [hj]; exact hRecords
  · rcases s.durable_checkpoint io with hd | hd
    · rw [hd]; exact h.durable
    · rw [hd]; exact hRecords

theorem Fits.fresh (h : s.Fits) (hWithin : s.Within K) (hK : K.card ≤ nodeLimit)
    (hf : Fresh s t) : t.Fits ∧ t.Within K := by
  refine ⟨?_, hWithin.of_eq hf.fields.1 hf.fields.2.1⟩
  cases hf with
  | same => exact h
  | checkpointed hFlush io => exact h.checkpoint hWithin hK io

theorem Fits.append (h : s.Fits) (hInv : s.Inv U) (hWithin : s.Within K)
    (hK : K.card ≤ nodeLimit) {r : Record} (hr : ∀ uid c, r = .cursor uid c → uid ∈ K)
    (io : Io) : (s.append r io).1.Fits := by
  cases hFailed : s.failed with
  | some e =>
    rw [append_failed hFailed]
    exact h
  | none =>
    -- The store the record is appended to is as healthy as `s`.
    have hConcat : ∀ t, Fresh s t → nodesOf (t.journal ++ [r]) ≤ nodeLimit := fun t hf =>
      nodesOf_concat (hf.inv hInv) (h.fresh hWithin hK hf).2 hK
        (hf.fields.2.2.2.1.trans hFailed) hr
    rcases s.append_cases r io with ⟨t, e, ht, hf⟩ | ⟨t, e, ht, hf⟩ | ⟨t, e, ht, hf⟩ |
        ⟨t, ht, hf, _, _⟩
    · rw [ht]
      exact (h.fresh hWithin hK hf).1
    · rw [ht]
      have hFits := (h.fresh hWithin hK hf).1
      exact ⟨hFits.journal, hFits.durable, hFits.image⟩
    · rw [ht]
      have hFits := (h.fresh hWithin hK hf).1
      exact ⟨hConcat t hf, hFits.durable, hFits.image⟩
    · rw [ht]
      have hFits := (h.fresh hWithin hK hf).1
      refine ⟨hConcat t hf, hConcat t hf, fun f hf' => ?_⟩
      obtain ⟨g, hg, rfl⟩ := Option.map_eq_some_iff.mp hf'
      exact hFits.image g hg

/-- `Fits` is about the files only. -/
theorem Fits.of_eq (h : s.Fits) (hJournal : t.journal = s.journal)
    (hDurable : t.durable = s.durable) (hFlush : t.flushing = s.flushing) : t.Fits :=
  ⟨hJournal ▸ h.journal, hDurable ▸ h.durable, hFlush ▸ h.image⟩

theorem Fits.accept (h : s.Fits) (hInv : s.Inv U) (hWithin : s.Within K) (hK : K.card ≤ nodeLimit)
    {uid : String} (hUid : uid ∈ K) (c : Cursor) (io : Io) : (s.accept uid c io).1.Fits := by
  have hAppend := h.append hInv hWithin hK (r := .cursor uid c)
    (by rintro uid' c' ⟨⟩; exact hUid) io
  unfold ReplayStore.accept
  split
  · exact h
  · split
    · exact h
    · split
      · rename_i t e hEq
        rwa [hEq] at hAppend
      · rename_i t hEq
        rw [hEq] at hAppend
        exact hAppend.of_eq rfl rfl rfl

theorem Fits.reset (h : s.Fits) (hInv : s.Inv U) (hWithin : s.Within K)
    (hK : K.card ≤ nodeLimit) (uid : String) (io : Io) : (s.reset uid io).1.Fits := by
  have hAppend := h.append hInv hWithin hK (r := .tombstone uid) (by rintro uid' c' ⟨⟩) io
  unfold ReplayStore.reset
  split
  · exact h
  · split
    · exact h
    · dsimp only
      split
      · rename_i t e hEq
        rwa [hEq] at hAppend
      · rename_i t hEq
        rw [hEq] at hAppend
        exact hAppend.of_eq rfl rfl rfl

theorem Fits.command (h : s.Fits) (hInv : s.Inv U) (hWithin : s.Within K)
    (hK : K.card ≤ nodeLimit) (seq : Nat) (io : Io) : (s.command seq io).1.Fits := by
  have hAppend := h.append hInv hWithin hK (r := .cmd seq) (by rintro uid' c' ⟨⟩) io
  unfold ReplayStore.command
  split
  · exact h
  · split
    · exact h
    · split
      · exact h
      · split
        · rename_i t e hEq
          rwa [hEq] at hAppend
        · rename_i t hEq
          rw [hEq] at hAppend
          exact hAppend.of_eq rfl rfl rfl

theorem Fits.schedule (h : s.Fits) : s.schedule.Fits := by
  unfold ReplayStore.schedule
  split
  · exact h
  · exact h.of_eq rfl rfl rfl

theorem Fits.acceptAsync (h : s.Fits) (p : Pending) : (s.acceptAsync p).1.Fits := by
  unfold ReplayStore.acceptAsync
  split
  · exact h
  · split
    · exact h
    · split
      · exact h
      · split
        · exact h
        · exact Fits.schedule (h.of_eq rfl rfl rfl)

theorem Fits.flushFails (h : s.Fits) (batch : List Pending) (e : String) :
    (s.flushFails batch e).1.Fits :=
  ⟨h.journal, h.durable, by simp [ReplayStore.flushFails]⟩

/-- Between batches the journal stands for the memory. -/
theorem Fits.flushBatch (h : s.Fits) (hWithin : s.Within K) (hK : K.card ≤ nodeLimit)
    (hJournal : s.failed = none → replay s.journal = s.mem) {batch : List Pending}
    (hBatch : ∀ p ∈ batch, p.uid ∈ K) (io : Io) : (s.flushBatch batch io).1.Fits := by
  unfold ReplayStore.flushBatch
  cases hFailed : s.failed with
  | some e => exact h.flushFails batch e
  | none =>
    dsimp only
    obtain ⟨t, e', hFits, hReplay, hCursors, hEq⟩ : ∃ t e', Fits t ∧
        replay t.journal = t.mem ∧ t.cursors = s.cursors ∧
        (if s.records ≥ checkpointEvery then s.checkpoint io.checkpoint else (s, none)) =
          (t, e') := by
      split
      · refine ⟨_, _, h.checkpoint hWithin hK io.checkpoint, ?_, cursors_checkpoint _ _, rfl⟩
        rcases s.journal_checkpoint io.checkpoint with hj | hj
        · rw [hj, mem_checkpoint, hJournal hFailed]
        · rw [hj, mem_checkpoint, replay_checkpointRecords]
      · exact ⟨s, none, h, hJournal hFailed, rfl, rfl⟩
    have hTake : ∀ n, nodesOf (t.journal ++ (batchRecords batch).take n) ≤ nodeLimit := by
      intro n
      unfold nodesOf
      rw [replay_append, hReplay]
      refine (size_le_card (keys_replayFrom_take ?_ hBatch n)).trans hK
      exact fun k hk => hWithin.cursors k (hCursors ▸ hk)
    have hAll : nodesOf (t.journal ++ batchRecords batch) ≤ nodeLimit := by
      simpa using hTake (batchRecords batch).length
    rw [hEq]
    cases e' with
    | some e => exact hFits.flushFails batch e
    | none =>
      dsimp only
      split
      · exact hFits.flushFails batch _
      · rename_i n _
        exact Fits.flushFails (s := { t with journal := _, torn := true })
          ⟨hTake n, hFits.durable, hFits.image⟩ batch _
      · refine ⟨hAll, hFits.durable, ?_⟩
        rintro f ⟨⟩
        exact hAll

theorem Fits.timerFires (h : s.Fits) (hInv : s.Inv U) (hWithin : s.Within K)
    (hK : K.card ≤ nodeLimit) (io : Io) : (s.timerFires io).1.Fits := by
  unfold ReplayStore.timerFires
  split
  · unfold ReplayStore.flush
    split
    · exact h.of_eq rfl rfl rfl
    · rename_i hc
      simp only [Bool.or_eq_true, not_or, Bool.not_eq_true, Option.isSome_eq_false_iff,
        Option.isNone_iff_eq_none] at hc
      have hFlush : s.flushing = none := hc.1
      refine Fits.flushBatch (s := { s with timer := false, pending := [] }) (K := K)
        (h.of_eq rfl rfl rfl) ⟨hWithin.cursors, ?_⟩ hK ?_ ?_ io
      · simp [queue, ReplayStore.inflight, hFlush]
      · intro hFailed
        have hJournal := hInv.journal hFailed
        rw [show s.inflight = [] by simp [ReplayStore.inflight, hFlush]] at hJournal
        exact hJournal
      · exact fun p hp => hWithin.queue p (mem_append_right _ hp)
  · exact h

theorem Fits.syncDone (h : s.Fits) (ok : Bool) : (s.syncDone ok).1.Fits := by
  unfold ReplayStore.syncDone
  split
  · exact h
  · rename_i f hf
    have hDurable : nodesOf (if f.covered then s.durable else f.image) ≤ nodeLimit := by
      split
      · exact h.durable
      · exact h.image f hf
    split
    · dsimp only
      split
      · exact Fits.flushFails (s := { s with durable := if f.covered then s.durable else f.image })
          ⟨h.journal, hDurable, h.image⟩ _ _
      · refine Fits.schedule ⟨?_, ?_, by simp⟩
        · rw [foldl_settle_fields]
          exact h.journal
        · rw [foldl_settle_fields]
          exact hDurable
    · exact h.flushFails _ _

end steps

theorem failed_acceptAsync (s : ReplayStore) (p : Pending) :
    (s.acceptAsync p).1.failed = s.failed := by
  unfold acceptAsync
  split
  · rfl
  · split
    · rfl
    · split
      · rfl
      · split
        · rfl
        · rw [failed_schedule]

theorem size_readReplaySnapshot {f : JournalFile} {m : ReplaySnapshot}
    (h : readReplaySnapshot f = .ok m) : m.cursors.size ≤ nodeLimit := by
  unfold readReplaySnapshot at h
  simp only [bind, Except.bind, pure, Except.pure, throw, throwThe, MonadExceptOf.throw] at h
  split at h
  · cases h
  · split at h
    · cases h
    · split at h
      · cases h
      · split at h
        · cases h
        · rename_i hSize
          cases h
          exact not_lt.mp hSize

/-- A store that has just been opened. -/
theorem fits_openStore {file : Option JournalFile} {io : CheckpointIo}
    (h : openStore file io = .ok s) : s.Fits ∧ s.cursors.size ≤ nodeLimit := by
  have hOpen := h
  obtain ⟨snapshot, hFile, _, rfl⟩ := openStore_ok h
  have hSize : snapshot.cursors.size ≤ nodeLimit := by
    cases file with
    | none =>
      have hNone : snapshot.cursors = JsMap.empty := by
        cases io with
        | ok => exact (congrArg cursors (Except.ok.inj hOpen)).symm
        | failsBefore => cases hOpen
        | failsAfter kept => cases hOpen
      rw [hNone]
      exact Nat.zero_le _
    | some f => exact size_readReplaySnapshot (hFile f rfl)
  have hNodes : nodesOf (snapshotRecords snapshot) ≤ nodeLimit := by
    unfold nodesOf
    rw [replay_snapshotRecords]
    exact hSize
  exact ⟨⟨hNodes, hNodes, by simp⟩, hSize⟩

/-- The reader does not refuse these records for their nodes. -/
theorem readable_records {rs : List Record} {b : Bool} (hValid : ∀ r ∈ rs, r.valid = true)
    (h : nodesOf rs ≤ nodeLimit) :
    readReplaySnapshot { journalFile rs with terminated := b } ≠ .error tooManyNodes := by
  cases b with
  | true =>
    change readReplaySnapshot (journalFile rs) ≠ _
    rw [readReplaySnapshot_journalFile hValid h]
    split
    · exact fun hEq => absurd (Except.error.inj hEq) (by decide)
    · exact fun hEq => by cases hEq
  | false =>
    unfold readReplaySnapshot
    simp only [bind, Except.bind, throw, throwThe, MonadExceptOf.throw]
    split
    · exact fun hEq => absurd (Except.error.inj hEq) (by decide)
    · exact fun hEq => absurd (Except.error.inj hEq) (by decide)

end ReplayStore

end TMEdge.Replay
