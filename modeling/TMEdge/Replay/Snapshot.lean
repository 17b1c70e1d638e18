import TMEdge.Replay.Store

/-!
# Snapshots, batches and coverage

Lemmas about the fold `replay` that the agreement of memory and journal rests on.

* `replayFrom_cmd`: a command record may be read before or after any other records.
* `replay_checkpointRecords`: a checkpoint stands for exactly the memory it was taken
  from, order of the nodes included.
* `Covers a b`: `a` knows at least what `b` knows. A queue of cursors that are newer than
  the memory (`Newer`) covers it (`covers_batch`).
-/

namespace TMEdge.Replay

open Library List JsMap

/-! ## The fold -/

@[simp] theorem replayFrom_nil (s : ReplaySnapshot) : replayFrom s [] = s := rfl

@[simp] theorem replayFrom_cons (s : ReplaySnapshot) (r : Record) (rs : List Record) :
    replayFrom s (r :: rs) = replayFrom (s.apply r) rs := rfl

theorem replayFrom_append (s : ReplaySnapshot) (rs rs' : List Record) :
    replayFrom s (rs ++ rs') = replayFrom (replayFrom s rs) rs' := by
  simp [replayFrom]

theorem apply_cmd_comm (s : ReplaySnapshot) (n : Nat) (r : Record) :
    (s.apply r).apply (.cmd n) = (s.apply (.cmd n)).apply r := by
  cases r with
  | cmd k => simp only [ReplaySnapshot.apply, max_assoc, max_comm n k]
  | cursor uid c => rfl
  | tombstone uid => rfl

theorem replayFrom_cmd (s : ReplaySnapshot) (n : Nat) (rs : List Record) :
    (replayFrom s rs).apply (.cmd n) = replayFrom (s.apply (.cmd n)) rs := by
  induction rs generalizing s with
  | nil => rfl
  | cons r rs ih => rw [replayFrom_cons, ih, replayFrom_cons, apply_cmd_comm]

theorem replayFrom_cursors (es : List (String × Cursor)) (s : ReplaySnapshot) :
    replayFrom s (es.map fun e => .cursor e.1 e.2) =
      { s with cursors := es.foldl (fun m e => m.set e.1 e.2) s.cursors } := by
  induction es generalizing s with
  | nil => rfl
  | cons e es ih =>
    rw [map_cons, replayFrom_cons, ih]
    rfl

/-! ## The memory of a store -/

namespace ReplayStore

/-- What the store holds in memory. -/
def mem (s : ReplayStore) : ReplaySnapshot := ⟨s.cursors, s.commandSeq⟩

/-- The batch whose fsync is outstanding. -/
def inflight (s : ReplayStore) : List Pending := (s.flushing.map Flush.batch).getD []

/-- Every write that was admitted and has not been settled, oldest first. -/
def queue (s : ReplayStore) : List Pending := s.inflight ++ s.pending

theorem replay_checkpointRecords (s : ReplayStore) : replay s.checkpointRecords = s.mem := by
  unfold replay checkpointRecords
  rw [replayFrom_cons, replayFrom_cursors]
  simp only [ReplaySnapshot.apply, ReplaySnapshot.initial, foldl_set_entries, mem,
    Nat.zero_max]

theorem mem_settle (s : ReplayStore) (p : Pending) :
    (s.settle p).mem = replayFrom s.mem p.records := by
  unfold settle Pending.records mem
  cases p.commandSeq <;> rfl

theorem foldl_settle_fields (batch : List Pending) (s : ReplayStore) :
    batch.foldl settle s =
      { s with
        cursors := (replayFrom s.mem (batchRecords batch)).cursors
        commandSeq := (replayFrom s.mem (batchRecords batch)).commandSeq } := by
  induction batch generalizing s with
  | nil => rfl
  | cons p batch ih =>
    rw [foldl_cons, ih, mem_settle]
    simp only [batchRecords, flatMap_cons, replayFrom_append]
    rfl

end ReplayStore

/-! ## Coverage -/

/-- `a` has a cursor at least as new for every node `b` has one for, and a command number
at least as high. -/
def Covers (a b : ReplaySnapshot) : Prop :=
  b.commandSeq ≤ a.commandSeq ∧
    ∀ uid d, b.cursors.get uid = some d → ∃ d', a.cursors.get uid = some d' ∧ d ≤ d'

theorem Covers.refl (a : ReplaySnapshot) : Covers a a :=
  ⟨le_rfl, fun _ d h => ⟨d, h, le_rfl⟩⟩

theorem Covers.trans {a b c : ReplaySnapshot} (h : Covers a b) (h' : Covers b c) : Covers a c := by
  refine ⟨h'.1.trans h.1, fun uid d hd => ?_⟩
  obtain ⟨d', hd', hle⟩ := h'.2 uid d hd
  obtain ⟨d'', hd'', hle'⟩ := h.2 uid d' hd'
  exact ⟨d'', hd'', hle.trans hle'⟩

theorem covers_apply_cmd (a : ReplaySnapshot) (n : Nat) : Covers (a.apply (.cmd n)) a :=
  ⟨le_max_left _ _, fun _ d h => ⟨d, h, le_rfl⟩⟩

theorem covers_apply_cursor {a : ReplaySnapshot} {uid : String} {c : Cursor}
    (h : ∀ d, a.cursors.get uid = some d → d ≤ c) : Covers (a.apply (.cursor uid c)) a := by
  refine ⟨le_rfl, fun uid' d hd => ?_⟩
  simp only [ReplaySnapshot.apply, get_set]
  split
  · rename_i he
    subst he
    exact ⟨c, rfl, h d hd⟩
  · exact ⟨d, hd, le_rfl⟩

/-- Every queued cursor is newer than the memory and than the ones queued before it for
the same node. -/
structure Newer (m : JsMap String Cursor) (q : List Pending) : Prop where
  mem : ∀ p ∈ q, ∀ d, m.get p.uid = some d → d < p.cursor
  queue : q.Pairwise fun p p' => p.uid = p'.uid → p.cursor < p'.cursor

theorem newer_nil (m : JsMap String Cursor) : Newer m [] := ⟨by simp, by simp⟩

variable {p : Pending} {s : ReplaySnapshot} {batch : List Pending}

theorem Newer.append {m : JsMap String Cursor} {q : List Pending} (h : Newer m q)
    (hm : ∀ d, m.get p.uid = some d → d < p.cursor)
    (hq : ∀ p' ∈ q, p'.uid = p.uid → p'.cursor < p.cursor) : Newer m (q ++ [p]) := by
  refine ⟨?_, ?_⟩
  · intro p' hp' d hd
    rcases mem_append.mp hp' with hp' | hp'
    · exact h.mem p' hp' d hd
    · rw [mem_singleton] at hp'
      subst hp'
      exact hm d hd
  · rw [pairwise_append]
    refine ⟨h.queue, by simp, ?_⟩
    intro p' hp' p'' hp''
    rw [mem_singleton] at hp''
    subst hp''
    exact hq p' hp'

/-- Settling the head of the queue keeps the rest newer. -/
theorem Newer.tail {m : JsMap String Cursor} {p : Pending} {q : List Pending}
    (h : Newer m (p :: q)) : Newer (m.set p.uid p.cursor) q := by
  rw [← singleton_append] at h
  obtain ⟨hm, hq⟩ := h
  refine ⟨?_, (pairwise_append.mp hq).2.1⟩
  intro p' hp' d hd
  rw [get_set] at hd
  split at hd
  · rename_i he
    cases hd
    exact (pairwise_append.mp hq).2.2 p (by simp) p' hp' he.symm
  · exact hm p' (by simp [hp']) d hd

theorem cursors_records (s : ReplaySnapshot) (p : Pending) :
    (replayFrom s p.records).cursors = s.cursors.set p.uid p.cursor := by
  unfold Pending.records
  cases p.commandSeq <;> rfl

theorem covers_records (h : ∀ d, s.cursors.get p.uid = some d → d < p.cursor) :
    Covers (replayFrom s p.records) s := by
  have hCursor : Covers (s.apply (.cursor p.uid p.cursor)) s :=
    covers_apply_cursor fun d hd => (h d hd).le
  unfold Pending.records
  cases p.commandSeq with
  | none => exact hCursor
  | some n => exact (covers_apply_cmd _ n).trans hCursor

theorem batchRecords_cons (p : Pending) (q : List Pending) :
    batchRecords (p :: q) = p.records ++ batchRecords q := rfl

/-- A queue of newer cursors, once read, covers the memory it started from and leaves the
rest of the queue newer. -/
theorem covers_batch {rest : List Pending} (h : Newer s.cursors (batch ++ rest)) :
    Covers (replayFrom s (batchRecords batch)) s ∧
      Newer (replayFrom s (batchRecords batch)).cursors rest := by
  induction batch generalizing s with
  | nil => exact ⟨Covers.refl s, h⟩
  | cons p batch ih =>
    rw [batchRecords_cons, replayFrom_append]
    have hTail : Newer (replayFrom s p.records).cursors (batch ++ rest) := by
      rw [cursors_records]
      exact h.tail
    obtain ⟨hCover, hNewer⟩ := ih hTail
    exact ⟨hCover.trans (covers_records (h.mem p (by simp))), hNewer⟩

/-- A cursor found after a batch was read was there before or is in the batch. -/
theorem get_replayFrom_batch {uid : String} {d : Cursor}
    (h : (replayFrom s (batchRecords batch)).cursors.get uid = some d) :
    s.cursors.get uid = some d ∨ ∃ p ∈ batch, p.uid = uid ∧ p.cursor = d := by
  induction batch generalizing s with
  | nil => exact Or.inl h
  | cons p batch ih =>
    rw [batchRecords_cons, replayFrom_append] at h
    rcases ih h with h' | ⟨p', hp', he⟩
    · rw [cursors_records, get_set] at h'
      split at h'
      · rename_i he
        cases h'
        exact Or.inr ⟨p, mem_cons_self, he.symm, rfl⟩
      · exact Or.inl h'
    · exact Or.inr ⟨p', mem_cons_of_mem _ hp', he⟩

/-- The command number after a batch was read is an old one or one of the batch. -/
theorem commandSeq_replayFrom_batch {b : Nat} (hs : s.commandSeq ≤ b)
    (hb : ∀ p ∈ batch, ∀ n, p.commandSeq = some n → n ≤ b) :
    (replayFrom s (batchRecords batch)).commandSeq ≤ b := by
  induction batch generalizing s with
  | nil => exact hs
  | cons p batch ih =>
    rw [batchRecords_cons, replayFrom_append]
    refine ih ?_ fun p' hp' => hb p' (mem_cons_of_mem _ hp')
    unfold Pending.records
    cases hc : p.commandSeq with
    | none => exact hs
    | some n => exact max_le hs (hb p mem_cons_self n hc)

/-- Every entry of a batch is covered once the batch is read. -/
theorem covers_batch_entry (h : Newer s.cursors batch) (hp : p ∈ batch) :
    (∃ d, (replayFrom s (batchRecords batch)).cursors.get p.uid = some d ∧ p.cursor ≤ d) ∧
      ∀ n, p.commandSeq = some n → n ≤ (replayFrom s (batchRecords batch)).commandSeq := by
  induction batch generalizing s with
  | nil => simp at hp
  | cons p' batch ih =>
    rw [batchRecords_cons, replayFrom_append]
    have hTail : Newer (replayFrom s p'.records).cursors batch := by
      rw [cursors_records]
      exact h.tail
    rcases mem_cons.mp hp with rfl | hp
    · have hCover := (covers_batch (batch.append_nil.symm ▸ hTail)).1
      refine ⟨?_, ?_⟩
      · exact hCover.2 p.uid p.cursor (by simp [cursors_records])
      · intro n hn
        refine le_trans ?_ hCover.1
        simp [Pending.records, hn, ReplaySnapshot.apply]
    · exact ih hTail hp

end TMEdge.Replay
