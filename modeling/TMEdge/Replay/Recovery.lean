import TMEdge.Replay.Effects
import TMEdge.Replay.Bound
import TMEdge.Library.Trace

/-!
# Recovering a `ReplayStore` from its journal

Runs of the store: any sequence of `accept`, `acceptAsync`, `command` and `reset` calls,
batch timers and fsync completions, with the file system failing as it likes. Beside the
store a run records the last cursor passed for each node and what the caller has been
told (`Ack`): a synchronous call that returned, a promise that was resolved.

* `recovered_of_run`: between batches, with no failure latched, reading the journal back
  gives exactly the memory, or fails because the file is over the reader's limit; at
  every moment what is durable covers everything acknowledged. In a run whose commands
  respect `flightLimit` the file is never over the limit.
* `overlong_unreadable`: the limit is needed. A run of 441,506 commands during one batch
  ends with a journal that the reader refuses.
-/

namespace TMEdge.Replay

open Library List JsMap

inductive StoreEvent
  | accept (uid : String) (c : Cursor) (io : Io)
  | acceptAsync (p : Pending)
  | command (seq : Nat) (io : Io)
  | reset (uid : String) (io : Io)
  | timerFires (io : Io)
  | syncDone (ok : Bool)

inductive Ack
  | cursor (uid : String) (c : Cursor)
  | command (seq : Nat)
  | reset (uid : String)
deriving DecidableEq

/-- A reset of the node ends what a cursor of it acknowledged. -/
def Ack.cut : Ack → Ack → Prop
  | .cursor uid _, .reset uid' => uid = uid'
  | _, _ => False

/-- What the resolution of a promise tells its caller. -/
def Settled.acks (t : Settled) : List Ack :=
  match t.error with
  | some _ => []
  | none => .cursor t.pending.uid t.pending.cursor :: (t.pending.commandSeq.map Ack.command).toList

/-! ## What was acknowledged -/

/-- What the caller was told is in the snapshot: every acknowledged command number, and
every cursor acknowledged since the last reset of its node. -/
structure Acknowledged (acks : List Ack) (m : ReplaySnapshot) : Prop where
  command : ∀ n, Ack.command n ∈ acks → n ≤ m.commandSeq
  cursor : ∀ uid c, Since Ack.cut acks (.cursor uid c) → ∃ d, m.cursors.get uid = some d ∧ c ≤ d

variable {acks : List Ack} {m : ReplaySnapshot} {n : Nat}

theorem Acknowledged.covers {m' : ReplaySnapshot} (h : Acknowledged acks m) (hc : Covers m' m) :
    Acknowledged acks m' := by
  refine ⟨fun n hn => (h.command n hn).trans hc.1, ?_⟩
  intro uid c hSince
  obtain ⟨d, hd, hle⟩ := h.cursor uid c hSince
  obtain ⟨d', hd', hle'⟩ := hc.2 uid d hd
  exact ⟨d', hd', hle.trans hle'⟩

/-- One more acknowledgement, of something the snapshot already holds. -/
theorem Acknowledged.concat {a : Ack} (h : Acknowledged acks m)
    (hCommand : ∀ n, a = .command n → n ≤ m.commandSeq)
    (hCursor : ∀ uid c, a = .cursor uid c → ∃ d, m.cursors.get uid = some d ∧ c ≤ d) :
    Acknowledged (acks ++ [a]) m := by
  refine ⟨?_, ?_⟩
  · intro n hn
    rcases mem_append.mp hn with hn | hn
    · exact h.command n hn
    · exact hCommand n (mem_singleton.mp hn).symm
  · intro uid c hSince
    rcases since_concat.mp hSince with rfl | ⟨hSince, _⟩
    · exact hCursor uid c rfl
    · exact h.cursor uid c hSince

/-- A reset takes back the cursors of its node only. -/
theorem Acknowledged.reset (h : Acknowledged acks m) (uid : String) :
    Acknowledged (acks ++ [.reset uid]) (m.apply (.tombstone uid)) := by
  refine ⟨?_, ?_⟩
  · intro n hn
    rcases mem_append.mp hn with hn | hn
    · exact h.command n hn
    · simp at hn
  · intro uid' c hSince
    rcases since_concat.mp hSince with he | ⟨hSince, hCut⟩
    · cases he
    · obtain ⟨d, hd, hle⟩ := h.cursor uid' c hSince
      refine ⟨d, ?_, hle⟩
      have hNe : uid' ≠ uid := hCut
      simpa [ReplaySnapshot.apply, hNe] using hd

theorem Acknowledged.append (as : List Ack) (h : Acknowledged acks m)
    (hCommand : ∀ n, Ack.command n ∈ as → n ≤ m.commandSeq)
    (hCursor : ∀ uid c, Ack.cursor uid c ∈ as → ∃ d, m.cursors.get uid = some d ∧ c ≤ d) :
    Acknowledged (acks ++ as) m := by
  induction as generalizing acks with
  | nil => simpa using h
  | cons a as ih =>
    rw [show acks ++ a :: as = (acks ++ [a]) ++ as by simp]
    refine ih (h.concat ?_ ?_) ?_ ?_
    · rintro n rfl
      exact hCommand n (by simp)
    · rintro uid c rfl
      exact hCursor uid c (by simp)
    · exact fun n hn => hCommand n (mem_cons_of_mem _ hn)
    · exact fun uid c hc => hCursor uid c (mem_cons_of_mem _ hc)

/-! ## Runs -/

structure StoreRun where
  store : ReplayStore
  /-- The last cursor passed for each node since its last reset. -/
  passed : JsMap String Cursor
  acks : List Ack

namespace StoreRun

def start (s : ReplayStore) : StoreRun := ⟨s, s.cursors, []⟩

def step (r : StoreRun) : StoreEvent → StoreRun
  | .accept uid c io =>
    match r.store.accept uid c io with
    | (s, none) => ⟨s, r.passed.set uid c, r.acks ++ [.cursor uid c]⟩
    | (s, some _) => ⟨s, r.passed.set uid c, r.acks⟩
  | .acceptAsync p => ⟨(r.store.acceptAsync p).1, r.passed.set p.uid p.cursor, r.acks⟩
  | .command seq io =>
    match r.store.command seq io with
    | (s, none) => { r with store := s, acks := r.acks ++ [.command seq] }
    | (s, some _) => { r with store := s }
  | .reset uid io =>
    match r.store.reset uid io with
    | (s, .ok _) => ⟨s, r.passed.delete uid, r.acks ++ [.reset uid]⟩
    | (s, .error _) => { r with store := s }
  | .timerFires io =>
    { r with
      store := (r.store.timerFires io).1
      acks := r.acks ++ (r.store.timerFires io).2.flatMap Settled.acks }
  | .syncDone ok =>
    { r with
      store := (r.store.syncDone ok).1
      acks := r.acks ++ (r.store.syncDone ok).2.flatMap Settled.acks }

@[simp] theorem store_step_accept (r : StoreRun) (uid : String) (c : Cursor) (io : Io) :
    (r.step (.accept uid c io)).store = (r.store.accept uid c io).1 := by
  simp only [step]
  split <;> simp_all

@[simp] theorem store_step_command (r : StoreRun) (seq : Nat) (io : Io) :
    (r.step (.command seq io)).store = (r.store.command seq io).1 := by
  simp only [step]
  split <;> simp_all

@[simp] theorem store_step_reset (r : StoreRun) (uid : String) (io : Io) :
    (r.step (.reset uid io)).store = (r.store.reset uid io).1 := by
  simp only [step]
  split <;> simp_all

/-- A cursor passed for a node is newer than the one passed before it, and the nodes are
those in `U`. -/
def Assumed (U : Finset String) (r : StoreRun) : StoreEvent → Prop
  | .accept uid c _ => uid ∈ U ∧ ∀ d, r.passed.get uid = some d → d < c
  | .acceptAsync p => p.uid ∈ U ∧ ∀ d, r.passed.get p.uid = some d → d < p.cursor
  | _ => True

/-- A command that arrives during a batch finds fewer than `flightLimit` records since the
last checkpoint. -/
def WithinFlight (r : StoreRun) : StoreEvent → Prop
  | .command _ _ => r.store.flushing ≠ none → r.store.records < ReplayStore.flightLimit
  | _ => True

/-- The invariant of a run. -/
structure RunInv (U : Finset String) (r : StoreRun) : Prop where
  store : r.store.Inv (· ∈ U)
  acks : Acknowledged r.acks r.store.mem
  passedMem : ∀ uid d, r.store.cursors.get uid = some d →
    ∃ d', r.passed.get uid = some d' ∧ d ≤ d'
  passedQueue : ∀ p ∈ r.store.queue, ∃ d', r.passed.get p.uid = some d' ∧ p.cursor ≤ d'

variable {U : Finset String} {r : StoreRun} {s : ReplayStore}

theorem RunInv.size_le (h : r.RunInv U) (hU : U.card ≤ nodeLimit) :
    r.store.cursors.size ≤ nodeLimit := by
  refine (size_le_card fun k hk => ?_).trans hU
  obtain ⟨e, he, rfl⟩ := mem_map.mp hk
  exact (h.store.memOk (.cursor e.1 e.2)
    (mem_cons_of_mem _ (mem_map.mpr ⟨e, he, rfl⟩))).2 e.1 e.2 rfl

/-- Passing a newer cursor keeps what was passed above what is held. -/
theorem le_passed_set {passed : JsMap String Cursor} {uid uid' : String} {c d : Cursor}
    (h : ∃ d', passed.get uid' = some d' ∧ d ≤ d')
    (hNew : ∀ d', passed.get uid = some d' → d' < c) :
    ∃ d', (passed.set uid c).get uid' = some d' ∧ d ≤ d' := by
  obtain ⟨d', hd', hle⟩ := h
  by_cases he : uid' = uid
  · subst he
    exact ⟨c, by simp, hle.trans (hNew d' hd').le⟩
  · exact ⟨d', by simpa [he] using hd', hle⟩

theorem runInv_step {e : StoreEvent} (h : r.RunInv U) (hA : r.Assumed U e) :
    (r.step e).RunInv U := by
  cases e with
  | accept uid c io =>
    obtain ⟨hUid, hNew⟩ := hA
    have hInv := ReplayStore.inv_accept h.store (c := c) hUid io
    cases hs : r.store.accept uid c io with
    | mk s err =>
      rw [hs] at hInv
      cases err with
      | some e =>
        rw [show r.step (.accept uid c io) = ⟨s, r.passed.set uid c, r.acks⟩ by simp [step, hs]]
        obtain ⟨hMem, hQueue⟩ := ReplayStore.accept_error hs
        have hCursors : s.cursors = r.store.cursors := congrArg ReplaySnapshot.cursors hMem
        refine ⟨hInv, hMem ▸ h.acks, ?_, ?_⟩
        · exact fun uid' d hd => le_passed_set (h.passedMem uid' d (hCursors ▸ hd)) hNew
        · intro p hp
          exact le_passed_set (h.passedQueue p (hQueue ▸ hp)) hNew
      | none =>
        rw [show r.step (.accept uid c io) =
          ⟨s, r.passed.set uid c, r.acks ++ [.cursor uid c]⟩ by simp [step, hs]]
        obtain ⟨hq, _, _, hMem, hQueue⟩ := ReplayStore.accept_ok hs
        have hCursors : s.cursors = r.store.cursors.set uid c :=
          congrArg ReplaySnapshot.cursors hMem
        have hCovers : Covers s.mem r.store.mem := by
          rw [hMem]
          refine covers_apply_cursor fun d hd => ?_
          obtain ⟨d', hd', hle⟩ := h.passedMem uid d hd
          exact (hle.trans_lt (hNew d' hd')).le
        refine ⟨hInv, (h.acks.covers hCovers).concat (by rintro n ⟨⟩) ?_, ?_, ?_⟩
        · rintro uid' c' ⟨⟩
          exact ⟨c, by simp [hMem, ReplaySnapshot.apply], le_rfl⟩
        · intro uid' d hd
          change s.cursors.get uid' = some d at hd
          rw [hCursors, get_set] at hd
          split at hd
          · rename_i he
            cases hd
            subst he
            exact ⟨_, by simp, le_rfl⟩
          · exact le_passed_set (h.passedMem uid' d hd) hNew
        · intro p hp
          exact le_passed_set (h.passedQueue p (hQueue ▸ hp)) hNew
  | acceptAsync p =>
    obtain ⟨hUid, hNew⟩ := hA
    have hInv : (r.store.acceptAsync p).1.Inv (· ∈ U) := by
      refine ReplayStore.inv_acceptAsync h.store hUid ?_ ?_
      · intro d hd
        obtain ⟨d', hd', hle⟩ := h.passedMem p.uid d hd
        exact hle.trans_lt (hNew d' hd')
      · intro p' hp' he
        obtain ⟨d', hd', hle⟩ := h.passedQueue p' hp'
        exact hle.trans_lt (hNew d' (he ▸ hd'))
    cases hs : r.store.acceptAsync p with
    | mk s err =>
      rw [hs] at hInv
      rw [show r.step (.acceptAsync p) = ⟨s, r.passed.set p.uid p.cursor, r.acks⟩ by
        simp [step, hs]]
      cases err with
      | some e =>
        have hSame := ReplayStore.acceptAsync_error hs
        subst hSame
        refine ⟨hInv, h.acks, ?_, ?_⟩
        · exact fun uid' d hd => le_passed_set (h.passedMem uid' d hd) hNew
        · exact fun p' hp' => le_passed_set (h.passedQueue p' hp') hNew
      | none =>
        obtain ⟨_, hMem, hQueue, _⟩ := ReplayStore.acceptAsync_ok hs
        have hCursors : s.cursors = r.store.cursors := congrArg ReplaySnapshot.cursors hMem
        refine ⟨hInv, hMem ▸ h.acks, ?_, ?_⟩
        · exact fun uid' d hd => le_passed_set (h.passedMem uid' d (hCursors ▸ hd)) hNew
        · intro p' hp'
          rcases mem_append.mp (hQueue ▸ hp') with hp' | hp'
          · exact le_passed_set (h.passedQueue p' hp') hNew
          · rw [mem_singleton] at hp'
            subst hp'
            exact ⟨_, by simp, le_rfl⟩
  | command seq io =>
    have hInv := ReplayStore.inv_command h.store seq io
    cases hs : r.store.command seq io with
    | mk s err =>
      rw [hs] at hInv
      cases err with
      | some e =>
        rw [show r.step (.command seq io) = { r with store := s } by simp [step, hs]]
        obtain ⟨hMem, hQueue⟩ := ReplayStore.command_error hs
        have hCursors : s.cursors = r.store.cursors := congrArg ReplaySnapshot.cursors hMem
        exact ⟨hInv, hMem ▸ h.acks, fun uid d hd => h.passedMem uid d (hCursors ▸ hd),
          fun p hp => h.passedQueue p (hQueue ▸ hp)⟩
      | none =>
        rw [show r.step (.command seq io) =
          { r with store := s, acks := r.acks ++ [.command seq] } by simp [step, hs]]
        obtain ⟨_, _, hMem, hQueue, _⟩ := ReplayStore.command_ok hs
        have hCursors : s.cursors = r.store.cursors := congrArg ReplaySnapshot.cursors hMem
        have hAcks : Acknowledged r.acks s.mem := by
          rw [hMem]
          exact h.acks.covers (covers_apply_cmd _ _)
        refine ⟨hInv, hAcks.concat ?_ (by rintro uid c ⟨⟩),
          fun uid d hd => h.passedMem uid d (hCursors ▸ hd),
          fun p hp => h.passedQueue p (hQueue ▸ hp)⟩
        rintro n ⟨⟩
        rw [hMem]
        exact le_max_right _ _
  | reset uid io =>
    have hInv := ReplayStore.inv_reset h.store uid io
    cases hs : r.store.reset uid io with
    | mk s res =>
      rw [hs] at hInv
      cases res with
      | error e =>
        rw [show r.step (.reset uid io) = { r with store := s } by simp [step, hs]]
        obtain ⟨hMem, hQueue⟩ := ReplayStore.reset_error hs
        have hCursors : s.cursors = r.store.cursors := congrArg ReplaySnapshot.cursors hMem
        exact ⟨hInv, hMem ▸ h.acks, fun uid d hd => h.passedMem uid d (hCursors ▸ hd),
          fun p hp => h.passedQueue p (hQueue ▸ hp)⟩
      | ok b =>
        rw [show r.step (.reset uid io) =
          ⟨s, r.passed.delete uid, r.acks ++ [.reset uid]⟩ by simp [step, hs]]
        obtain ⟨hq, hMem, hQueue⟩ := ReplayStore.reset_ok hs
        have hCursors : s.cursors = r.store.cursors.delete uid :=
          congrArg ReplaySnapshot.cursors hMem
        refine ⟨hInv, ?_, ?_, ?_⟩
        · rw [hMem]
          exact h.acks.reset uid
        · intro uid' d hd
          change s.cursors.get uid' = some d at hd
          rw [hCursors, get_delete] at hd
          split at hd
          · cases hd
          · rename_i hne
            obtain ⟨d', hd', hle⟩ := h.passedMem uid' d hd
            exact ⟨d', by simpa [hne] using hd', hle⟩
        · intro p hp
          have hNil := (h.store.inflight_nil hq).1
          rw [show s.queue = [] from hQueue.trans hNil] at hp
          simp at hp
  | timerFires io =>
    have hInv := ReplayStore.inv_timerFires h.store io
    obtain ⟨hMem, hCases⟩ := r.store.timerFires_spec io
    have hCursors : (r.store.timerFires io).1.cursors = r.store.cursors :=
      congrArg ReplaySnapshot.cursors hMem
    -- A batch timer resolves no promise.
    have hNone : (r.store.timerFires io).2.flatMap Settled.acks = [] := by
      rcases hCases with ⟨hEmpty, _⟩ | ⟨e, _, _, hAll⟩
      · simp [hEmpty]
      · simp [hAll, Settled.acks]
    have hQueue : ∀ p ∈ (r.store.timerFires io).1.queue, p ∈ r.store.queue := by
      rcases hCases with ⟨_, hQ⟩ | ⟨e, hQ, _, _⟩
      · simp [hQ]
      · simp [hQ]
    refine ⟨hInv, ?_, fun uid d hd => h.passedMem uid d (hCursors ▸ hd),
      fun p hp => h.passedQueue p (hQueue p hp)⟩
    change Acknowledged (r.acks ++ _) (r.store.timerFires io).1.mem
    rw [hNone, append_nil, hMem]
    exact h.acks
  | syncDone ok =>
    have hInv := ReplayStore.inv_syncDone h.store ok
    rcases r.store.syncDone_spec ok with ⟨hFlush, hSame⟩ | ⟨hFailed, _, hMem, hQueue, hAll⟩ |
        ⟨e, hMem, hQueue, _, hAll⟩
    · rw [show r.step (.syncDone ok) = r by simp [step, hSame]]
      exact h
    · have hNewer : Newer r.store.cursors r.store.queue := h.store.newer
      have hCovers := covers_batch (s := r.store.mem) hNewer
      have hBatch : Newer r.store.mem.cursors r.store.inflight :=
        ⟨fun p hp => hNewer.mem p (mem_append_left _ hp),
          (pairwise_append.mp hNewer.queue).1⟩
      refine ⟨hInv, ?_, ?_, ?_⟩
      · change Acknowledged (r.acks ++ (r.store.syncDone ok).2.flatMap Settled.acks)
          (r.store.syncDone ok).1.mem
        rw [hMem, hAll]
        refine (h.acks.covers hCovers.1).append _ ?_ ?_
        · intro n hn
          obtain ⟨t, ht, hn⟩ := mem_flatMap.mp hn
          obtain ⟨p, hp, rfl⟩ := mem_map.mp ht
          have hCmd : p.commandSeq = some n := by simpa [Settled.acks] using hn
          exact (covers_batch_entry hBatch hp).2 n hCmd
        · intro uid c hc
          obtain ⟨t, ht, hc⟩ := mem_flatMap.mp hc
          obtain ⟨p, hp, rfl⟩ := mem_map.mp ht
          have hEq : uid = p.uid ∧ c = p.cursor := by simpa [Settled.acks] using hc
          obtain ⟨rfl, rfl⟩ := hEq
          exact (covers_batch_entry hBatch hp).1
      · intro uid d hd
        change (r.store.syncDone ok).1.mem.cursors.get uid = some d at hd
        rw [hMem] at hd
        rcases get_replayFrom_batch hd with hOld | ⟨p, hp, rfl, rfl⟩
        · exact h.passedMem uid d hOld
        · exact h.passedQueue p (mem_append_left _ hp)
      · intro p hp
        exact h.passedQueue p (mem_append_right _ (hQueue ▸ hp))
    · have hCursors : (r.store.syncDone ok).1.cursors = r.store.cursors :=
        congrArg ReplaySnapshot.cursors hMem
      refine ⟨hInv, ?_, fun uid d hd => h.passedMem uid d (hCursors ▸ hd), ?_⟩
      · change Acknowledged (r.acks ++ (r.store.syncDone ok).2.flatMap Settled.acks)
          (r.store.syncDone ok).1.mem
        have hNone : (r.store.syncDone ok).2.flatMap Settled.acks = [] := by
          simp [hAll, Settled.acks]
        rw [hNone, append_nil, hMem]
        exact h.acks
      · intro p hp
        rw [show (r.step (.syncDone ok)).store.queue = [] from hQueue] at hp
        simp at hp

/-! ## Size of the file along a run -/

theorem bounded_step {e : StoreEvent} (h : r.RunInv U) (hb : r.store.Bounded)
    (hU : U.card ≤ nodeLimit) (hA : r.Assumed U e) (hFlight : r.WithinFlight e) :
    (r.step e).store.Bounded := by
  have hSize := h.size_le hU
  cases e with
  | accept uid c io =>
    have := ReplayStore.bounded_accept h.store hb hSize (c := c) hA.1 io
    rw [store_step_accept]
    exact this
  | acceptAsync p => exact ReplayStore.bounded_acceptAsync h.store hb p
  | command seq io =>
    rw [store_step_command]
    exact ReplayStore.bounded_command h.store hb hSize hFlight io
  | reset uid io =>
    rw [store_step_reset]
    exact ReplayStore.bounded_reset h.store hb hSize uid io
  | timerFires io => exact ReplayStore.bounded_timerFires h.store hb hSize io
  | syncDone ok => exact ReplayStore.bounded_syncDone hb ok

/-! ## Runs from an opened store -/

theorem runInv_start {file : Option JournalFile} {io : CheckpointIo}
    (hOpen : ReplayStore.openStore file io = .ok s) (hKeys : ∀ k ∈ s.cursors.keys, k ∈ U) :
    (start s).RunInv U := by
  have hQueue : s.queue = [] := by
    obtain ⟨_, _, _, rfl⟩ := ReplayStore.openStore_ok hOpen
    rfl
  refine ⟨ReplayStore.inv_openStore hOpen hKeys,
    ⟨by simp [start], fun _ _ h => absurd h since_nil⟩, ?_, ?_⟩
  · exact fun uid d hd => ⟨d, hd, le_rfl⟩
  · intro p hp
    rw [show (start s).store.queue = [] from hQueue] at hp
    simp at hp

theorem bounded_start {file : Option JournalFile} {io : CheckpointIo}
    (hOpen : ReplayStore.openStore file io = .ok s) (hKeys : ∀ k ∈ s.cursors.keys, k ∈ U)
    (hU : U.card ≤ nodeLimit) : s.Bounded := by
  have hInv := ReplayStore.inv_openStore (U := (· ∈ U)) hOpen hKeys
  have hBytes := ReplayStore.bytes_checkpointRecords hInv ((size_le_card hKeys).trans hU)
  have hLimit : ReplayStore.checkpointBytes ≤ journalLimit := by decide
  obtain ⟨snapshot, _, _, rfl⟩ := ReplayStore.openStore_ok hOpen
  change journalBytes (ReplayStore.snapshotRecords snapshot) ≤ _ at hBytes
  refine ⟨by simp [ReplayStore.queue, ReplayStore.inflight], by simp, fun _ => ?_, fun _ _ => ?_,
    by simp, ?_, by simp⟩
  · dsimp only
    omega
  · exact hBytes.trans hLimit
  · exact hBytes.trans hLimit

theorem runInv_run {es : List StoreEvent} (h : (start s).RunInv U)
    (hAssumed : Guarded step (Assumed U) (start s) es) : (run step (start s) es).RunInv U :=
  run_invariant_guarded (RunInv U) (fun _ _ h hA => runInv_step h hA) h hAssumed

theorem bounded_run {es : List StoreEvent} (h : (start s).RunInv U) (hb : s.Bounded)
    (hU : U.card ≤ nodeLimit) (hAssumed : Guarded step (Assumed U) (start s) es)
    (hFlight : Guarded step WithinFlight (start s) es) : (run step (start s) es).store.Bounded :=
  (run_invariant_guarded (fun r => r.RunInv U ∧ r.store.Bounded)
    (fun _ _ h hG => ⟨runInv_step h.1 hG.1, bounded_step h.1 h.2 hU hG.1 hG.2⟩) ⟨h, hb⟩
    (hAssumed.and hFlight)).2

end StoreRun

/-! ## Reading back -/

namespace ReplayStore

/-- The journal as it stands in the file system. -/
def file (s : ReplayStore) : JournalFile :=
  { journalFile s.journal with terminated := !s.torn }

/-- The journal a crash leaves. -/
def durableFile (s : ReplayStore) : JournalFile := journalFile s.durable

theorem read_records {U : Finset String} {rs : List Record} (h : ∀ r ∈ rs, r.Ok (· ∈ U))
    (hU : U.card ≤ nodeLimit) :
    readReplaySnapshot (journalFile rs) =
      if journalBytes rs > journalLimit then .error limitError else .ok (replay rs) :=
  readReplaySnapshot_journalFile (fun r hr => (h r hr).1)
    ((size_le_card (keys_replay h)).trans hU)

theorem read_file {U : Finset String} {s : ReplayStore} (h : s.Inv (· ∈ U))
    (hU : U.card ≤ nodeLimit) (hFlush : s.flushing = none) (hFailed : s.failed = none) :
    readReplaySnapshot s.file =
      if s.file.size > journalLimit then .error limitError else .ok s.mem := by
  have hFile : s.file = journalFile s.journal := by simp [file, h.torn hFailed, journalFile]
  have hReplay : replay s.journal = s.mem := by
    rw [h.journal hFailed]
    simp [inflight, hFlush, batchRecords, replayFrom]
  rw [hFile, read_records h.journalOk hU, hReplay]
  rfl

/-- A batch that ends well leaves the file as it is. -/
theorem syncDone_fields {s : ReplayStore} (hFlush : s.flushing.isSome = true)
    (hFailed : s.failed = none) :
    (s.syncDone true).1.flushing = none ∧ (s.syncDone true).1.failed = none ∧
      (s.syncDone true).1.journal = s.journal := by
  obtain ⟨f, hf⟩ := Option.isSome_iff_exists.mp hFlush
  have hSchedule : ∀ t : ReplayStore, t.schedule.flushing = t.flushing ∧
      t.schedule.failed = t.failed ∧ t.schedule.journal = t.journal := by
    intro t
    unfold schedule
    split <;> exact ⟨rfl, rfl, rfl⟩
  simp only [syncDone, hf, if_true, hFailed, foldl_settle_fields, hSchedule, and_self]

end ReplayStore

open StoreRun in
/-- Between batches, with no failure latched, reading the journal back gives exactly the
memory, unless the file is over the reader's limit; and at every moment what is durable
has every acknowledged command number and cursor. The file is never over the limit when
the commands that arrive during a batch find fewer than `flightLimit` records. -/
theorem recovered_of_run {U : Finset String} (hU : U.card ≤ nodeLimit)
    {file : Option JournalFile} {io : CheckpointIo} {s : ReplayStore}
    (hOpen : ReplayStore.openStore file io = .ok s) (hKeys : ∀ k ∈ s.cursors.keys, k ∈ U)
    {es : List StoreEvent} (hAssumed : Guarded step (Assumed U) (start s) es) :
    let r := run step (start s) es
    (r.store.flushing = none → r.store.failed = none →
      readReplaySnapshot r.store.file =
        if r.store.file.size > journalLimit then .error limitError else .ok r.store.mem) ∧
    Acknowledged r.acks (replay r.store.durable) ∧
    (Guarded step WithinFlight (start s) es →
      (r.store.flushing = none → r.store.failed = none →
        readReplaySnapshot r.store.file = .ok r.store.mem) ∧
      ∃ m, readReplaySnapshot r.store.durableFile = .ok m ∧ Acknowledged r.acks m) := by
  have hStart := runInv_start hOpen hKeys
  have hInv := runInv_run hStart hAssumed
  intro r
  have hAcks : Acknowledged r.acks (replay r.store.durable) := hInv.acks.covers hInv.store.durable
  refine ⟨ReplayStore.read_file hInv.store hU, hAcks, fun hFlight => ?_⟩
  have hBounded := bounded_run hStart (bounded_start hOpen hKeys hU) hU hAssumed hFlight
  refine ⟨fun hFlush hFailed => ?_, replay r.store.durable, ?_, hAcks⟩
  · rw [ReplayStore.read_file hInv.store hU hFlush hFailed, if_neg]
    exact not_lt.mpr (hBounded.idle hFailed hFlush)
  · rw [ReplayStore.durableFile, ReplayStore.read_records hInv.store.durableOk hU, if_neg]
    exact not_lt.mpr hBounded.durable

/-! ## A run within the limit -/

/-- The store opened where no journal exists. -/
def emptyStore : ReplayStore :=
  { cursors := .empty, commandSeq := 0, records := 0, pending := [], flushing := none,
    timer := false, failed := none, queued := 0, journal := [.cmd 0], torn := false,
    durable := [.cmd 0] }

theorem openStore_empty : ReplayStore.openStore none .ok = .ok emptyStore := rfl

def exampleUid : String := "01:23:45:67:89:ab"

theorem recovered_overtaken_batch :
    let es : List StoreEvent := [.acceptAsync ⟨0, exampleUid, ⟨1, 1⟩, some 7⟩, .timerFires {},
      .command 9 {}, .syncDone true, .accept exampleUid ⟨1, 2⟩ {}]
    let r := run StoreRun.step (.start emptyStore) es
    r.store.flushing = none ∧ r.store.failed = none ∧
      r.acks = [.command 9, .cursor exampleUid ⟨1, 1⟩, .command 7, .cursor exampleUid ⟨1, 2⟩] ∧
      readReplaySnapshot r.store.file = .ok r.store.mem ∧ Acknowledged r.acks r.store.mem := by
  intro es r
  have hAssumed : Guarded StoreRun.step (StoreRun.Assumed {exampleUid}) (.start emptyStore) es := by
    refine ⟨⟨by simp, ?_⟩, trivial, trivial, trivial, ⟨by simp, ?_⟩, trivial⟩
    · intro d hd
      cases hd
    · intro d hd
      cases hd
      decide
  have hFlight : Guarded StoreRun.step StoreRun.WithinFlight (.start emptyStore) es :=
    ⟨trivial, trivial, fun _ => by decide, trivial, trivial, trivial⟩
  obtain ⟨_, hAcks, hRead⟩ := recovered_of_run (U := {exampleUid}) (by decide)
    openStore_empty (by decide) hAssumed
  exact ⟨rfl, rfl, rfl, (hRead hFlight).1 rfl rfl, hAcks⟩

/-! ## A run over the limit -/

/-- Ten-digit command numbers, each above the last. -/
def longCommand (i : Nat) : StoreEvent := .command (10 ^ 9 + i) {}

def longCommands (n : Nat) : List StoreEvent := (List.range n).map longCommand

theorem bytes_longCommand {i : Nat} (h : 10 ^ 9 + i ≤ u32Max) :
    (Record.cmd (10 ^ 9 + i)).bytes = 19 := by
  have hLog : Nat.log 10 (10 ^ 9 + i) = 9 :=
    Nat.log_eq_of_pow_le_of_lt_pow (by omega) (by unfold u32Max at h; omega)
  rw [Record.bytes, decimalLength, hLog]

/-- What the commands leave of the store they find a batch in flight in. -/
structure Overtaken (n : Nat) (s : ReplayStore) : Prop where
  failed : s.failed = none
  flushing : s.flushing.isSome = true
  commandSeq : s.commandSeq < 10 ^ 9 + n
  bytes : 19 * n ≤ journalBytes s.journal

theorem overtaken_step {r : StoreRun} (h : Overtaken n r.store) (hn : 10 ^ 9 + n ≤ u32Max) :
    Overtaken (n + 1) (r.step (longCommand n)).store := by
  have hNone : r.store.flushing.isNone = false := by simpa using h.flushing
  have hStore : (r.step (longCommand n)).store =
      { r.store.appended (.cmd (10 ^ 9 + n)) with commandSeq := 10 ^ 9 + n } := by
    rw [longCommand, StoreRun.store_step_command, ReplayStore.command, if_neg (by omega)]
    simp only [h.failed, if_neg (not_le.mpr h.commandSeq), ReplayStore.append, hNone]
    rfl
  have hBytes := bytes_longCommand hn
  rw [hStore]
  refine ⟨h.failed, ?_, ?_, ?_⟩
  · simpa [ReplayStore.appended] using h.flushing
  · change 10 ^ 9 + n < 10 ^ 9 + (n + 1)
    omega
  · have := h.bytes
    simp only [ReplayStore.appended, journalBytes_concat, hBytes]
    omega

theorem overtaken_run {r : StoreRun} (h : Overtaken 0 r.store) :
    ∀ n, 10 ^ 9 + n ≤ u32Max → Overtaken n (run StoreRun.step r (longCommands n)).store
  | 0, _ => h
  | n + 1, hn => by
    rw [longCommands, range_succ, map_append, map_singleton, run_concat]
    exact overtaken_step (overtaken_run h n (by omega)) (by omega)

theorem guarded_longCommands (U : Finset String) (r : StoreRun) (n : Nat) :
    Guarded StoreRun.step (StoreRun.Assumed U) r (longCommands n) := by
  refine guarded_of_forall_split fun pre e post he => ?_
  have hMem : e ∈ longCommands n := by simp [he]
  obtain ⟨i, _, rfl⟩ := mem_map.mp hMem
  trivial

def overlongRun (n : Nat) : List StoreEvent :=
  [.acceptAsync ⟨0, exampleUid, ⟨1, 1⟩, none⟩, .timerFires {}] ++
    (longCommands n ++ [.syncDone true])

theorem guarded_overlongRun (n : Nat) :
    Guarded StoreRun.step (StoreRun.Assumed {exampleUid}) (.start emptyStore) (overlongRun n) := by
  refine guarded_append.mpr ⟨⟨⟨by simp, ?_⟩, trivial, trivial⟩, ?_⟩
  · intro d hd
    cases hd
  · exact guarded_append.mpr ⟨guarded_longCommands _ _ _, trivial, trivial⟩

theorem store_overlongRun (hn : 10 ^ 9 + n ≤ u32Max) :
    (run StoreRun.step (.start emptyStore) (overlongRun n)).store.flushing = none ∧
    (run StoreRun.step (.start emptyStore) (overlongRun n)).store.failed = none ∧
    19 * n ≤ journalBytes (run StoreRun.step (.start emptyStore) (overlongRun n)).store.journal := by
  rw [overlongRun, run_append, run_append]
  generalize hr : run StoreRun.step (.start emptyStore)
    [.acceptAsync ⟨0, exampleUid, ⟨1, 1⟩, none⟩, .timerFires {}] = r
  have hBase : Overtaken 0 r.store := by
    rw [← hr]
    exact ⟨rfl, rfl, by decide, Nat.zero_le _⟩
  have hOver := overtaken_run hBase n hn
  obtain ⟨hFlush, hFailed, hJournal⟩ := ReplayStore.syncDone_fields hOver.flushing hOver.failed
  refine ⟨hFlush, hFailed, ?_⟩
  change 19 * n ≤ journalBytes (ReplayStore.syncDone _ true).1.journal
  rw [hJournal]
  exact hOver.bytes

theorem read_overlongRun (hn : 10 ^ 9 + n ≤ u32Max) (hBig : journalLimit < 19 * n) :
    readReplaySnapshot (run StoreRun.step (.start emptyStore) (overlongRun n)).store.file =
      .error limitError := by
  obtain ⟨hFlush, hFailed, hBytes⟩ := store_overlongRun hn
  have hStart : (StoreRun.start emptyStore).RunInv {exampleUid} :=
    StoreRun.runInv_start openStore_empty (by decide)
  have hInv := StoreRun.runInv_run hStart (guarded_overlongRun n)
  rw [ReplayStore.read_file hInv.store (by decide) hFlush hFailed, if_pos]
  exact lt_of_lt_of_le hBig hBytes

/-- One batch whose fsync is outstanding while 441,506 commands return: when it is done
nothing is in flight and nothing has failed, and the reader refuses the journal. -/
theorem overlong_unreadable :
    ({exampleUid} : Finset String).card ≤ nodeLimit ∧
    ReplayStore.openStore none .ok = .ok emptyStore ∧
    Guarded StoreRun.step (StoreRun.Assumed {exampleUid}) (.start emptyStore)
      (overlongRun 441506) ∧
    (run StoreRun.step (.start emptyStore) (overlongRun 441506)).store.flushing = none ∧
    (run StoreRun.step (.start emptyStore) (overlongRun 441506)).store.failed = none ∧
    readReplaySnapshot (run StoreRun.step (.start emptyStore) (overlongRun 441506)).store.file =
      .error limitError := by
  have hn : 10 ^ 9 + 441506 ≤ u32Max := by unfold u32Max; omega
  obtain ⟨hFlush, hFailed, _⟩ := store_overlongRun hn
  exact ⟨by decide, openStore_empty, guarded_overlongRun _, hFlush, hFailed,
    read_overlongRun hn (by unfold journalLimit; omega)⟩

end TMEdge.Replay
