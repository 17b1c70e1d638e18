import TMEdge.Replay.Snapshot
import TMEdge.Library.Run

/-!
# The journal and the memory agree

The invariant of `ReplayStore` (`Inv`): reading the journal gives the memory with the
batch in flight settled on top, what is durable covers the memory, and the outstanding
fsync will make the whole batch durable. Every method keeps it (`inv_accept`,
`inv_acceptAsync`, `inv_command`, `inv_reset`, `inv_timerFires`, `inv_syncDone`), whatever
the file system answers, provided every cursor passed for a node is newer than those
passed before it.

`U` bounds the nodes the store is told about; it plays no part in the agreement and is
what keeps the journal within the reader's node limit.
-/

namespace TMEdge.Replay

open Library List JsMap

/-- A record the store may write about the nodes in `U`. -/
def Record.Ok (U : String → Prop) (r : Record) : Prop :=
  r.valid = true ∧ ∀ uid c, r = .cursor uid c → U uid

theorem keys_apply {U : String → Prop} {s : ReplaySnapshot} {r : Record} (hr : r.Ok U)
    (h : ∀ k ∈ s.cursors.keys, U k) : ∀ k ∈ (s.apply r).cursors.keys, U k := by
  intro k hk
  cases r with
  | cmd n => exact h k hk
  | cursor uid c =>
    rcases mem_keys_set.mp hk with rfl | hk
    · exact hr.2 k c rfl
    · exact h k hk
  | tombstone uid => exact h k (mem_keys_delete hk)

theorem keys_replay {U : String → Prop} {rs : List Record} (h : ∀ r ∈ rs, r.Ok U) :
    ∀ k ∈ (replay rs).cursors.keys, U k := by
  suffices ∀ s : ReplaySnapshot, (∀ k ∈ s.cursors.keys, U k) →
      ∀ k ∈ (replayFrom s rs).cursors.keys, U k from
    this _ (by simp [ReplaySnapshot.initial, JsMap.keys, JsMap.empty])
  intro s hs
  induction rs generalizing s with
  | nil => exact hs
  | cons r rs ih =>
    exact ih (fun r' hr' => h r' (mem_cons_of_mem _ hr')) _
      (keys_apply (h r mem_cons_self) hs)

namespace ReplayStore

structure Inv (U : String → Prop) (s : ReplayStore) : Prop where
  journalOk : ∀ r ∈ s.journal, r.Ok U
  durableOk : ∀ r ∈ s.durable, r.Ok U
  memOk : ∀ r ∈ s.checkpointRecords, r.Ok U
  queueOk : ∀ p ∈ s.queue, ∀ r ∈ p.records, r.Ok U
  imageOk : ∀ f, s.flushing = some f → ∀ r ∈ f.image, r.Ok U
  newer : Newer s.cursors s.queue
  queued : s.queued = s.queue.length
  /-- Reading the journal settles the batch in flight on top of the memory. -/
  journal : s.failed = none → replay s.journal = replayFrom s.mem (batchRecords s.inflight)
  /-- An fsync that nothing has overtaken makes the batch durable on top of the memory. -/
  image : s.failed = none → ∀ f, s.flushing = some f → f.covered = false →
    replay f.image = replayFrom s.mem (batchRecords f.batch)
  /-- A batch that a command's fsync has overtaken is durable already. -/
  covered : s.failed = none → ∀ f, s.flushing = some f → f.covered = true →
    replay s.durable = replayFrom s.mem (batchRecords f.batch)
  durable : Covers (replay s.durable) s.mem
  imageCovers : ∀ f, s.flushing = some f → f.covered = false → Covers (replay f.image) s.mem
  torn : s.failed = none → s.torn = false

/-! ## Checkpoints -/

@[simp] theorem mem_checkpoint (s : ReplayStore) (io : CheckpointIo) :
    (s.checkpoint io).1.mem = s.mem := by
  cases io <;> rfl

@[simp] theorem checkpointRecords_checkpoint (s : ReplayStore) (io : CheckpointIo) :
    (s.checkpoint io).1.checkpointRecords = s.checkpointRecords := by
  cases io <;> rfl

@[simp] theorem cursors_checkpoint (s : ReplayStore) (io : CheckpointIo) :
    (s.checkpoint io).1.cursors = s.cursors := by
  cases io <;> rfl

@[simp] theorem flushing_checkpoint (s : ReplayStore) (io : CheckpointIo) :
    (s.checkpoint io).1.flushing = s.flushing := by
  cases io <;> rfl

@[simp] theorem pending_checkpoint (s : ReplayStore) (io : CheckpointIo) :
    (s.checkpoint io).1.pending = s.pending := by
  cases io <;> rfl

@[simp] theorem queued_checkpoint (s : ReplayStore) (io : CheckpointIo) :
    (s.checkpoint io).1.queued = s.queued := by
  cases io <;> rfl

@[simp] theorem failed_checkpoint (s : ReplayStore) (io : CheckpointIo) :
    (s.checkpoint io).1.failed = s.failed := by
  cases io <;> rfl

@[simp] theorem queue_checkpoint (s : ReplayStore) (io : CheckpointIo) :
    (s.checkpoint io).1.queue = s.queue := by
  cases io <;> rfl

variable {s s' : ReplayStore} {U : String → Prop} {rs : List Record} {r : Record}
  {m : ReplaySnapshot} {uid : String}

/-- A checkpoint that succeeds starts the count of records again. -/
theorem records_checkpoint {io : CheckpointIo} (h : s.checkpoint io = (s', none)) :
    s'.records = 0 := by
  cases io with
  | ok => cases h; rfl
  | failsBefore => cases h
  | failsAfter kept => cases h

/-- A checkpoint leaves the journal alone or rewrites it from memory. -/
theorem journal_checkpoint (s : ReplayStore) (io : CheckpointIo) :
    (s.checkpoint io).1.journal = s.journal ∨
      (s.checkpoint io).1.journal = s.checkpointRecords := by
  cases io with
  | ok => exact Or.inr rfl
  | failsBefore => exact Or.inl rfl
  | failsAfter kept => exact Or.inr rfl

theorem durable_checkpoint (s : ReplayStore) (io : CheckpointIo) :
    (s.checkpoint io).1.durable = s.durable ∨
      (s.checkpoint io).1.durable = s.checkpointRecords := by
  cases io with
  | ok => exact Or.inr rfl
  | failsBefore => exact Or.inl rfl
  | failsAfter kept =>
    cases kept with
    | true => exact Or.inr rfl
    | false => exact Or.inl rfl

theorem Inv.checkpoint (h : s.Inv U) (hFlush : s.flushing = none) (io : CheckpointIo) :
    (s.checkpoint io).1.Inv U := by
  have hInflight : s.inflight = [] := by simp [inflight, hFlush]
  refine ⟨?_, ?_, by simpa using h.memOk, by simpa using h.queueOk, by simp [hFlush],
    by simpa using h.newer, by simpa using h.queued, ?_, by simp [hFlush], by simp [hFlush], ?_,
    by simp [hFlush], ?_⟩
  · rcases s.journal_checkpoint io with hj | hj
    · rw [hj]; exact h.journalOk
    · rw [hj]; exact h.memOk
  · rcases s.durable_checkpoint io with hd | hd
    · rw [hd]; exact h.durableOk
    · rw [hd]; exact h.memOk
  · intro hFailed
    rw [failed_checkpoint] at hFailed
    rw [mem_checkpoint, show (s.checkpoint io).1.inflight = [] by simp [inflight, hFlush]]
    rcases s.journal_checkpoint io with hj | hj
    · rw [hj, h.journal hFailed, hInflight]
    · rw [hj, replay_checkpointRecords]
      rfl
  · rw [mem_checkpoint]
    rcases s.durable_checkpoint io with hd | hd
    · rw [hd]; exact h.durable
    · rw [hd, replay_checkpointRecords]
      exact Covers.refl _
  · intro hFailed
    rw [failed_checkpoint] at hFailed
    cases io with
    | ok => rfl
    | failsBefore => exact h.torn hFailed
    | failsAfter kept => rfl

/-! ## Appending one record -/

/-- The store an append starts from: unchanged, or after the checkpoint that an append
outside a batch may make. -/
inductive Fresh (s : ReplayStore) : ReplayStore → Prop
  | same : Fresh s s
  | checkpointed (h : s.flushing = none) (io : CheckpointIo) : Fresh s (s.checkpoint io).1

theorem Fresh.inv (hf : Fresh s s') (h : s.Inv U) : s'.Inv U := by
  cases hf with
  | same => exact h
  | checkpointed hFlush io => exact h.checkpoint hFlush io

theorem Fresh.fields (hf : Fresh s s') :
    s'.mem = s.mem ∧ s'.queue = s.queue ∧ s'.queued = s.queued ∧ s'.failed = s.failed ∧
      s'.flushing = s.flushing ∧ s'.pending = s.pending := by
  cases hf with
  | same => exact ⟨rfl, rfl, rfl, rfl, rfl, rfl⟩
  | checkpointed hFlush io => simp

/-- The store after a record was written and synced, before the memory follows. -/
def appended (s : ReplayStore) (r : Record) : ReplayStore :=
  { s with
    journal := s.journal ++ [r]
    durable := s.journal ++ [r]
    flushing := s.flushing.map fun f => { f with covered := true }
    records := s.records + 1 }

/-- Everything `append` can do. -/
theorem append_cases (s : ReplayStore) (r : Record) (io : Io) :
    (∃ s' e, s.append r io = (s', some e) ∧ Fresh s s') ∨
      (∃ s' e, s.append r io = ({ s' with torn := true, failed := some e }, some e) ∧
        Fresh s s') ∨
      (∃ s' e, s.append r io =
        ({ s' with journal := s'.journal ++ [r], failed := some e }, some e) ∧ Fresh s s') ∨
      (∃ s', s.append r io = (s'.appended r, none) ∧ Fresh s s' ∧ s.failed = none ∧
        (s.flushing = none → s'.records < checkpointEvery)) := by
  unfold append
  cases hFailed : s.failed with
  | some e => exact Or.inl ⟨s, e, rfl, .same⟩
  | none =>
    dsimp only
    obtain ⟨s', e', hFresh, hEq, hRecords⟩ : ∃ s' e', Fresh s s' ∧
        (if s.flushing.isNone ∧ s.records ≥ checkpointEvery then s.checkpoint io.checkpoint
          else (s, none)) = (s', e') ∧
        (e' = none → s.flushing = none → s'.records < checkpointEvery) := by
      split
      · rename_i hc
        refine ⟨_, _, .checkpointed (by simpa using hc.1) io.checkpoint, rfl, fun he _ => ?_⟩
        rw [records_checkpoint (Prod.ext rfl he)]
        decide
      · rename_i hc
        refine ⟨s, none, .same, rfl, fun _ hFlush => ?_⟩
        simp only [hFlush, Option.isNone_none, true_and] at hc
        omega
    rw [hEq]
    cases e' with
    | some e => exact Or.inl ⟨s', e, rfl, hFresh⟩
    | none =>
      dsimp only
      split
      · exact Or.inl ⟨s', _, rfl, hFresh⟩
      · exact Or.inr (Or.inl ⟨s', _, rfl, hFresh⟩)
      · exact Or.inr (Or.inr (Or.inl ⟨s', _, rfl, hFresh⟩))
      · exact Or.inr (Or.inr (Or.inr ⟨s', rfl, hFresh, rfl, hRecords rfl⟩))

theorem Inv.latch (h : s.Inv U) (e : String) (b : Bool) :
    ({ s with torn := b, failed := some e } : ReplayStore).Inv U :=
  ⟨h.journalOk, h.durableOk, h.memOk, h.queueOk, h.imageOk, h.newer, h.queued,
    by simp, by simp, by simp, h.durable, h.imageCovers, by simp⟩

theorem Inv.latch_journal (h : s.Inv U) (hrs : ∀ r ∈ rs, r.Ok U) (e : String) :
    ({ s with journal := s.journal ++ rs, failed := some e } : ReplayStore).Inv U := by
  refine ⟨?_, h.durableOk, h.memOk, h.queueOk, h.imageOk, h.newer, h.queued,
    by simp, by simp, by simp, h.durable, h.imageCovers, by simp⟩
  intro r hr
  rcases mem_append.mp hr with hr | hr
  · exact h.journalOk r hr
  · exact hrs r hr

/-- A failed append leaves the memory and the queue alone and keeps the invariant. -/
theorem Inv.append_error {io : Io} {e : String} (h : s.Inv U) (hr : r.Ok U)
    (hs : s.append r io = (s', some e)) : s'.Inv U ∧ s'.mem = s.mem ∧ s'.queue = s.queue := by
  rcases s.append_cases r io with ⟨t, e', ht, hf⟩ | ⟨t, e', ht, hf⟩ | ⟨t, e', ht, hf⟩ |
      ⟨t, ht, hf, _, _⟩
  · rw [hs] at ht
    cases ht
    exact ⟨hf.inv h, hf.fields.1, hf.fields.2.1⟩
  · rw [hs] at ht
    cases ht
    exact ⟨(hf.inv h).latch _ _, hf.fields.1, hf.fields.2.1⟩
  · rw [hs] at ht
    cases ht
    exact ⟨(hf.inv h).latch_journal (by simpa using hr) _, hf.fields.1, hf.fields.2.1⟩
  · rw [hs] at ht
    cases ht

/-- After a record was appended, a memory that stands for it keeps the invariant. -/
theorem Inv.appended {U : String → Prop} {s : ReplayStore} {r : Record} {m : ReplaySnapshot}
    (h : s.Inv U) (hFailed : s.failed = none) (hr : r.Ok U)
    (hm : (replayFrom s.mem (batchRecords s.inflight)).apply r =
      replayFrom m (batchRecords s.inflight))
    (hNewer : Newer m.cursors s.queue)
    (hmOk : ∀ r' ∈ Record.cmd m.commandSeq :: m.cursors.entries.map fun e => .cursor e.1 e.2,
      r'.Ok U) :
    ({ s.appended r with cursors := m.cursors, commandSeq := m.commandSeq } :
      ReplayStore).Inv U := by
  have hJournal : ∀ r' ∈ s.journal ++ [r], r'.Ok U := by
    intro r' hr'
    rcases mem_append.mp hr' with hr' | hr'
    · exact h.journalOk r' hr'
    · rw [mem_singleton] at hr'
      exact hr' ▸ hr
  have hReplay : replay (s.journal ++ [r]) = replayFrom m (batchRecords s.inflight) := by
    rw [replay_concat, h.journal hFailed, hm]
  have hInflight : ({ s.appended r with cursors := m.cursors, commandSeq := m.commandSeq } :
      ReplayStore).inflight = s.inflight := by
    simp only [inflight, ReplayStore.appended, Option.map_map]
    rfl
  have hQueue : ({ s.appended r with cursors := m.cursors, commandSeq := m.commandSeq } :
      ReplayStore).queue = s.queue := by
    unfold queue
    rw [hInflight]
    rfl
  have hBatch : ∀ f, (s.appended r).flushing = some f → f.batch = s.inflight ∧
      f.covered = true ∧ ∀ r' ∈ f.image, r'.Ok U := by
    intro f hf
    obtain ⟨g, hg, rfl⟩ := Option.map_eq_some_iff.mp hf
    exact ⟨by simp [inflight, hg], rfl, h.imageOk g hg⟩
  refine ⟨hJournal, hJournal, hmOk, by rw [hQueue]; exact h.queueOk, fun f hf => (hBatch f hf).2.2,
    by rw [hQueue]; exact hNewer, by rw [hQueue]; exact h.queued, ?_, ?_, ?_, ?_, ?_, h.torn⟩
  · intro _
    rw [hInflight]
    exact hReplay
  · intro _ f hf hc
    rw [(hBatch f hf).2.1] at hc
    cases hc
  · intro _ f hf _
    rw [(hBatch f hf).1]
    exact hReplay
  · change Covers (replay (s.journal ++ [r])) m
    rw [hReplay]
    exact (covers_batch hNewer).1
  · intro f hf hc
    rw [(hBatch f hf).2.1] at hc
    cases hc

/-! ## The methods -/

theorem ok_cursor {c : Cursor} (h : validate uid c = true) (hU : U uid) :
    (Record.cursor uid c).Ok U :=
  ⟨h, by rintro uid' c' ⟨⟩; exact hU⟩

theorem ok_cmd {n : Nat} (h : n ≤ u32Max) : (Record.cmd n).Ok U :=
  ⟨by simpa [Record.valid] using h, by rintro uid c ⟨⟩⟩

theorem ok_tombstone (h : isUid uid = true) : (Record.tombstone uid).Ok U :=
  ⟨h, by rintro uid c ⟨⟩⟩

/-- The records of a memory. -/
def snapshotRecords (m : ReplaySnapshot) : List Record :=
  .cmd m.commandSeq :: m.cursors.entries.map fun e => .cursor e.1 e.2

theorem snapshotRecords_apply (hr : r.Ok U) (h : ∀ r' ∈ snapshotRecords m, r'.Ok U) :
    ∀ r' ∈ snapshotRecords (m.apply r), r'.Ok U := by
  have hCmd : m.commandSeq ≤ u32Max := by
    simpa [Record.valid] using (h _ mem_cons_self).1
  have hCursor : ∀ uid c, m.cursors.get uid = some c → (Record.cursor uid c).Ok U := by
    intro uid c hc
    refine h _ (mem_cons_of_mem _ (mem_map.mpr ⟨(uid, c), ?_, rfl⟩))
    exact get_eq_some_iff.mp hc
  intro r' hr'
  rcases mem_cons.mp hr' with rfl | hr'
  · refine ok_cmd ?_
    cases r with
    | cmd n =>
      have hn : n ≤ u32Max := by simpa [Record.valid] using hr.1
      exact max_le hCmd hn
    | cursor uid c => exact hCmd
    | tombstone uid => exact hCmd
  · obtain ⟨⟨uid, c⟩, hMem, rfl⟩ := mem_map.mp hr'
    have hGet := get_eq_some_iff.mpr hMem
    cases r with
    | cmd n => exact hCursor uid c hGet
    | cursor uid' c' =>
      simp only [ReplaySnapshot.apply, get_set] at hGet
      split at hGet
      · rename_i he
        cases hGet
        rw [he]
        exact hr
      · exact hCursor uid c hGet
    | tombstone uid' =>
      simp only [ReplaySnapshot.apply, get_delete] at hGet
      split at hGet
      · cases hGet
      · exact hCursor uid c hGet

theorem snapshotRecords_replayFrom (hrs : ∀ r ∈ rs, r.Ok U)
    (h : ∀ r' ∈ snapshotRecords m, r'.Ok U) :
    ∀ r' ∈ snapshotRecords (replayFrom m rs), r'.Ok U := by
  induction rs generalizing m with
  | nil => exact h
  | cons r rs ih =>
    exact ih (fun r' hr' => hrs r' (mem_cons_of_mem _ hr'))
      (snapshotRecords_apply (hrs r mem_cons_self) h)

theorem snapshotRecords_initial (U : String → Prop) : ∀ r ∈ snapshotRecords .initial, r.Ok U := by
  intro r hr
  simp only [snapshotRecords, ReplaySnapshot.initial, JsMap.empty, map_nil,
    mem_singleton] at hr
  rw [hr]
  exact ok_cmd (by decide)

theorem snapshotRecords_replay (hrs : ∀ r ∈ rs, r.Ok U) :
    ∀ r ∈ snapshotRecords (replay rs), r.Ok U :=
  snapshotRecords_replayFrom hrs (snapshotRecords_initial U)

theorem replay_snapshotRecords (m : ReplaySnapshot) : replay (snapshotRecords m) = m :=
  replay_checkpointRecords
    { cursors := m.cursors, commandSeq := m.commandSeq, records := 0, pending := [],
      flushing := none, timer := false, failed := none, queued := 0, journal := [],
      torn := false, durable := [] }

theorem Inv.inflight_nil (h : s.Inv U) (hq : s.queued = 0) : s.queue = [] ∧ s.inflight = [] := by
  have hQueue : s.queue = [] := length_eq_zero_iff.mp (h.queued ▸ hq)
  exact ⟨hQueue, (append_eq_nil_iff.mp hQueue).1⟩

/-- A record appended while nothing is queued, with the memory following it. -/
theorem Inv.append_idle {t : ReplayStore} (h : s.Inv U) (hq : s.queued = 0) (hf : Fresh s t)
    (hFailed : s.failed = none) (hr : r.Ok U) :
    ({ t.appended r with
      cursors := (s.mem.apply r).cursors
      commandSeq := (s.mem.apply r).commandSeq } : ReplayStore).Inv U := by
  obtain ⟨hMem, hQueue, hQueued, hFailed', _⟩ := hf.fields
  have ht := hf.inv h
  obtain ⟨hNil, hIn⟩ := ht.inflight_nil (hQueued.trans hq)
  refine ht.appended (hFailed'.trans hFailed) hr ?_ (hNil ▸ newer_nil _) ?_
  · rw [hMem, hIn]
    rfl
  · exact snapshotRecords_apply hr h.memOk

theorem inv_accept (h : s.Inv U) {c : Cursor} (hU : U uid) (io : Io) :
    (s.accept uid c io).1.Inv U := by
  unfold accept
  split
  · exact h
  · rename_i hq
    rw [not_not] at hq
    split
    · exact h
    · rename_i hv
      have hr : (Record.cursor uid c).Ok U := ok_cursor (by simpa using hv) hU
      rcases s.append_cases (.cursor uid c) io with ⟨t, e, ht, hf⟩ | ⟨t, e, ht, hf⟩ |
          ⟨t, e, ht, hf⟩ | ⟨t, ht, hf, hFailed, _⟩
      · rw [ht]; exact (h.append_error hr ht).1
      · rw [ht]; exact (h.append_error hr ht).1
      · rw [ht]; exact (h.append_error hr ht).1
      · rw [ht]
        have hInv := h.append_idle hq hf hFailed hr
        have hMem := hf.fields.1
        have hCmd : t.commandSeq = s.commandSeq := congrArg ReplaySnapshot.commandSeq hMem
        have hCur : t.cursors = s.cursors := congrArg ReplaySnapshot.cursors hMem
        simp only [ReplaySnapshot.apply, mem, ← hCmd, ← hCur] at hInv
        exact hInv

theorem inv_reset (h : s.Inv U) (uid : String) (io : Io) : (s.reset uid io).1.Inv U := by
  unfold reset
  split
  · exact h
  · rename_i hUid
    split
    · exact h
    · rename_i hq
      rw [not_not] at hq
      have hr : (Record.tombstone uid).Ok U := ok_tombstone (by simpa using hUid)
      dsimp only
      rcases s.append_cases (.tombstone uid) io with ⟨t, e, ht, hf⟩ | ⟨t, e, ht, hf⟩ |
          ⟨t, e, ht, hf⟩ | ⟨t, ht, hf, hFailed, _⟩
      · rw [ht]; exact (h.append_error hr ht).1
      · rw [ht]; exact (h.append_error hr ht).1
      · rw [ht]; exact (h.append_error hr ht).1
      · rw [ht]
        have hInv := h.append_idle hq hf hFailed hr
        have hMem := hf.fields.1
        have hCmd : t.commandSeq = s.commandSeq := congrArg ReplaySnapshot.commandSeq hMem
        have hCur : t.cursors = s.cursors := congrArg ReplaySnapshot.cursors hMem
        simp only [ReplaySnapshot.apply, mem, ← hCmd, ← hCur] at hInv
        exact hInv

theorem inv_command (h : s.Inv U) (seq : Nat) (io : Io) : (s.command seq io).1.Inv U := by
  unfold command
  split
  · exact h
  · rename_i hSeq
    split
    · exact h
    · split
      · exact h
      · rename_i hNew
        have hr : (Record.cmd seq).Ok U := ok_cmd (by omega)
        rcases s.append_cases (.cmd seq) io with ⟨t, e, ht, hf⟩ | ⟨t, e, ht, hf⟩ |
            ⟨t, e, ht, hf⟩ | ⟨t, ht, hf, hFailed, _⟩
        · rw [ht]; exact (h.append_error hr ht).1
        · rw [ht]; exact (h.append_error hr ht).1
        · rw [ht]; exact (h.append_error hr ht).1
        · rw [ht]
          obtain ⟨hMem, hQueue, _, hFailed', _⟩ := hf.fields
          have hInv := hf.inv h
          -- The number is above the one in memory, so reading it is reading the new memory.
          have hApply : t.mem.apply (.cmd seq) = ⟨t.cursors, seq⟩ := by
            have hCmd : t.commandSeq = s.commandSeq := congrArg ReplaySnapshot.commandSeq hMem
            simp only [ReplaySnapshot.apply, mem, hCmd, ReplaySnapshot.mk.injEq, true_and]
            omega
          refine hInv.appended (m := ⟨t.cursors, seq⟩) (hFailed'.trans hFailed) hr ?_ hInv.newer ?_
          · rw [replayFrom_cmd, hApply]
          · have := snapshotRecords_apply (m := t.mem) hr hInv.memOk
            rw [hApply] at this
            exact this

theorem queue_schedule (s : ReplayStore) : s.schedule.queue = s.queue := by
  unfold schedule
  split <;> rfl

theorem Inv.schedule (h : s.Inv U) : s.schedule.Inv U := by
  unfold ReplayStore.schedule
  split
  · exact h
  · exact ⟨h.journalOk, h.durableOk, h.memOk, h.queueOk, h.imageOk, h.newer, h.queued, h.journal,
      h.image, h.covered, h.durable, h.imageCovers, h.torn⟩

theorem inv_acceptAsync (h : s.Inv U) {p : Pending} (hU : U p.uid)
    (hm : ∀ d, s.cursors.get p.uid = some d → d < p.cursor)
    (hq : ∀ p' ∈ s.queue, p'.uid = p.uid → p'.cursor < p.cursor) : (s.acceptAsync p).1.Inv U := by
  unfold acceptAsync
  split
  · exact h
  · split
    · exact h
    · rename_i hv
      split
      · exact h
      · rename_i hc
        split
        · exact h
        · have hQueue : ({ s with queued := s.queued + 1, pending := s.pending ++ [p] } :
              ReplayStore).queue = s.queue ++ [p] := by
            simp only [queue, inflight, append_assoc]
          have hOk : ∀ r ∈ p.records, r.Ok U := by
            intro r hr
            rcases mem_cons.mp hr with rfl | hr
            · exact ok_cursor (by simpa using hv) hU
            · obtain ⟨n, hn, rfl⟩ : ∃ n, p.commandSeq = some n ∧ Record.cmd n = r := by
                simpa using hr
              exact ok_cmd (by simpa [hn] using hc)
          refine Inv.schedule ⟨h.journalOk, h.durableOk, h.memOk, ?_, h.imageOk, ?_, ?_, h.journal,
            h.image, h.covered, h.durable, h.imageCovers, h.torn⟩
          · rw [hQueue]
            intro p' hp'
            rcases mem_append.mp hp' with hp' | hp'
            · exact h.queueOk p' hp'
            · rw [mem_singleton] at hp'
              exact hp' ▸ hOk
          · rw [hQueue]
            exact h.newer.append hm hq
          · rw [hQueue, length_append, ← h.queued]
            rfl

/-- Rejecting the whole queue: the memory and what is durable stay as they are. -/
theorem Inv.flushFails {batch : List Pending} {e : String} (hJournal : ∀ r ∈ s.journal, r.Ok U)
    (hDurable : ∀ r ∈ s.durable, r.Ok U) (hMem : ∀ r ∈ s.checkpointRecords, r.Ok U)
    (hCovers : Covers (replay s.durable) s.mem)
    (hQueued : s.queued = batch.length + s.pending.length) : (s.flushFails batch e).1.Inv U := by
  refine ⟨hJournal, hDurable, hMem, ?_, ?_, newer_nil _, ?_, ?_, ?_, ?_, hCovers, ?_, ?_⟩
  · simp [ReplayStore.flushFails, queue, inflight]
  · simp [ReplayStore.flushFails]
  · simp only [ReplayStore.flushFails, queue, inflight, hQueued]
    simp
  · simp [ReplayStore.flushFails]
  · simp [ReplayStore.flushFails]
  · simp [ReplayStore.flushFails]
  · simp [ReplayStore.flushFails]
  · simp [ReplayStore.flushFails]

theorem Inv.pendingOk (h : s.Inv U) : ∀ r ∈ batchRecords s.pending, r.Ok U := by
  intro r hr
  obtain ⟨p, hp, hr⟩ := mem_flatMap.mp hr
  exact h.queueOk p (mem_append_right _ hp) r hr

/-- Everything the first half of `flush` can do: reject the batch, with part of it written
or not, or write it and leave its fsync outstanding. -/
theorem flushBatch_cases (s : ReplayStore) (batch : List Pending) (io : Io)
    (hFlush : s.flushing = none) :
    (∃ t e n b, Fresh s t ∧ s.flushBatch batch io =
      flushFails { t with journal := t.journal ++ (batchRecords batch).take n, torn := b }
        batch e) ∨
      (∃ t, Fresh s t ∧ s.failed = none ∧ t.records < checkpointEvery ∧ s.flushBatch batch io =
        ({ t with
            journal := t.journal ++ batchRecords batch
            flushing := some ⟨batch, t.journal ++ batchRecords batch, false⟩ }, [])) := by
  have hReject : ∀ t e, Fresh s t → ∃ t' e' n b, Fresh s t' ∧ flushFails t batch e =
      flushFails { t' with journal := t'.journal ++ (batchRecords batch).take n, torn := b }
        batch e' :=
    fun t e hf => ⟨t, e, 0, t.torn, hf, by simp⟩
  unfold flushBatch
  cases hFailed : s.failed with
  | some e => exact Or.inl (hReject s e .same)
  | none =>
    dsimp only
    obtain ⟨t, e', hFresh, hEq, hRecords⟩ : ∃ t e', Fresh s t ∧
        (if s.records ≥ checkpointEvery then s.checkpoint io.checkpoint else (s, none)) =
          (t, e') ∧ (e' = none → t.records < checkpointEvery) := by
      split
      · refine ⟨_, _, .checkpointed hFlush io.checkpoint, rfl, fun he => ?_⟩
        rw [records_checkpoint (Prod.ext rfl he)]
        decide
      · exact ⟨s, none, .same, rfl, fun _ => by omega⟩
    rw [hEq]
    cases e' with
    | some e => exact Or.inl (hReject t e hFresh)
    | none =>
      dsimp only
      split
      · exact Or.inl (hReject t _ hFresh)
      · exact Or.inl ⟨t, _, _, _, hFresh, rfl⟩
      · exact Or.inr ⟨t, hFresh, rfl, hRecords rfl, rfl⟩

theorem Inv.flush (h : s.Inv U) (io : Io) : (s.flush io).1.Inv U := by
  unfold ReplayStore.flush
  split
  · exact h
  · rename_i hc
    simp only [Bool.or_eq_true, not_or, Bool.not_eq_true, Option.isSome_eq_false_iff,
      Option.isNone_iff_eq_none] at hc
    have hFlush : s.flushing = none := hc.1
    have hQueue : s.queue = s.pending := by simp [queue, inflight, hFlush]
    -- Between batches the journal is the memory, whatever waits in `pending`.
    have hEmpty : ({ s with pending := [], queued := 0 } : ReplayStore).Inv U :=
      ⟨h.journalOk, h.durableOk, h.memOk, by simp [queue, inflight, hFlush], h.imageOk,
        by simpa [queue, inflight, hFlush] using newer_nil _, by simp [queue, inflight, hFlush],
        h.journal, h.image, h.covered, h.durable, h.imageCovers, h.torn⟩
    have hFresh : ∀ t, Fresh { s with pending := [] } t →
        ({ t with queued := 0 } : ReplayStore).Inv U := by
      intro t hf
      cases hf with
      | same => exact hEmpty
      | checkpointed hFlush' io' =>
        have := hEmpty.checkpoint hFlush' io'
        cases io' <;> exact this
    rcases flushBatch_cases { s with pending := [] } s.pending io hFlush with
      ⟨t, e, n, b, hf, hEq⟩ | ⟨t, hf, hFailed, _, hEq⟩
    · rw [hEq]
      have hInv := hFresh t hf
      obtain ⟨_, _, hQueued, _, _, hPending⟩ := hf.fields
      refine Inv.flushFails ?_ hInv.durableOk hInv.memOk hInv.durable ?_
      · intro r hr
        rcases mem_append.mp hr with hr | hr
        · exact hInv.journalOk r hr
        · exact h.pendingOk r (mem_of_mem_take hr)
      · change t.queued = s.pending.length + t.pending.length
        rw [hQueued, hPending, h.queued, hQueue]
        rfl
    · rw [hEq]
      have hInv := hFresh t hf
      obtain ⟨hMem, _, hQueued, hFailed', hFlush', hPending⟩ := hf.fields
      have hCursors : t.cursors = s.cursors := congrArg ReplaySnapshot.cursors hMem
      have hReplay : replay (t.journal ++ batchRecords s.pending) =
          replayFrom t.mem (batchRecords s.pending) := by
        rw [replay_append]
        congr 1
        have := hInv.journal (hFailed'.trans hFailed)
        rwa [show ({ t with queued := 0 } : ReplayStore).inflight = [] by
          simp [inflight, hFlush', hFlush]] at this
      have hNewer : Newer t.cursors s.pending := by
        rw [hCursors, ← hQueue]
        exact h.newer
      have hJournal : ∀ r ∈ t.journal ++ batchRecords s.pending, r.Ok U := by
        intro r hr
        rcases mem_append.mp hr with hr | hr
        · exact hInv.journalOk r hr
        · exact h.pendingOk r hr
      have hPending' : t.pending = [] := hPending
      refine ⟨hJournal, hInv.durableOk, hInv.memOk, ?_, ?_, ?_, ?_, ?_, ?_, ?_, hInv.durable, ?_,
        hInv.torn⟩
      · simp only [queue, inflight, hPending', Option.map_some, Option.getD_some, append_nil]
        exact fun p hp => h.queueOk p (hQueue ▸ hp)
      · rintro f ⟨⟩
        exact hJournal
      · simpa [queue, inflight, hPending'] using hNewer
      · change t.queued = _
        rw [hQueued]
        simp only [queue, inflight, hPending', Option.map_some, Option.getD_some, append_nil]
        rw [← hQueue]
        exact h.queued
      · intro _
        exact hReplay
      · rintro _ f ⟨⟩ _
        exact hReplay
      · rintro _ f ⟨⟩ ⟨⟩
      · rintro f ⟨⟩ _
        rw [hReplay]
        exact (covers_batch (s.pending.append_nil.symm ▸ hNewer)).1

theorem Inv.timer (h : s.Inv U) : ({ s with timer := false } : ReplayStore).Inv U :=
  ⟨h.journalOk, h.durableOk, h.memOk, h.queueOk, h.imageOk, h.newer, h.queued, h.journal,
    h.image, h.covered, h.durable, h.imageCovers, h.torn⟩

theorem inv_timerFires (h : s.Inv U) (io : Io) : (s.timerFires io).1.Inv U := by
  unfold timerFires
  split
  · exact h.timer.flush io
  · exact h

theorem inv_syncDone (h : s.Inv U) (ok : Bool) : (s.syncDone ok).1.Inv U := by
  unfold syncDone
  split
  · exact h
  · rename_i f hf
    have hQueue : s.queue = f.batch ++ s.pending := by simp [queue, inflight, hf]
    have hQueued : s.queued = f.batch.length + s.pending.length := by
      rw [h.queued, hQueue, length_append]
    have hDurable : ∀ r ∈ (if f.covered then s.durable else f.image), r.Ok U := by
      split
      · exact h.durableOk
      · exact h.imageOk f hf
    split
    · dsimp only
      split
      · refine Inv.flushFails h.journalOk hDurable h.memOk ?_ hQueued
        change Covers (replay (if f.covered then s.durable else f.image)) s.mem
        split
        · exact h.durable
        · rename_i hc
          exact h.imageCovers f hf (by simpa using hc)
      · rename_i hFailed
        have hNewer := (covers_batch (s := s.mem) (hQueue ▸ h.newer)).2
        have hReplay : replay (if f.covered then s.durable else f.image) =
            replayFrom s.mem (batchRecords f.batch) := by
          split
          · rename_i hc
            exact h.covered hFailed f hf (by simpa using hc)
          · rename_i hc
            exact h.image hFailed f hf (by simpa using hc)
        have hBatchOk : ∀ r ∈ batchRecords f.batch, r.Ok U := by
          intro r hr
          obtain ⟨p, hp, hr⟩ := mem_flatMap.mp hr
          exact h.queueOk p (hQueue ▸ mem_append_left _ hp) r hr
        rw [foldl_settle_fields]
        refine Inv.schedule ⟨h.journalOk, hDurable, ?_, ?_, by simp, ?_, ?_, ?_, by simp, by simp,
          ?_, by simp, h.torn⟩
        · exact snapshotRecords_replayFrom (m := s.mem) hBatchOk h.memOk
        · simp only [queue, inflight, Option.map_none, Option.getD_none, nil_append]
          exact fun p hp => h.queueOk p (hQueue ▸ mem_append_right _ hp)
        · simp only [queue, inflight, Option.map_none, Option.getD_none, nil_append]
          exact hNewer
        · simp only [queue, inflight, Option.map_none, Option.getD_none, nil_append, hQueued]
          omega
        · intro _
          change replay s.journal = _
          rw [h.journal hFailed, inflight, hf]
          rfl
        · change Covers (replay (if f.covered then s.durable else f.image)) _
          rw [hReplay]
          exact Covers.refl _
    · exact Inv.flushFails h.journalOk h.durableOk h.memOk h.durable hQueued

end ReplayStore

end TMEdge.Replay
