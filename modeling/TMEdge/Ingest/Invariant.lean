import TMEdge.Ingest.Core

/-!
# The invariant of `Ingest`

`Inv R c log` ties the core of a process to the log of its host. The cursor of a node lives
in the store's memory, in its queue of admitted writes and in the jobs whose write has
returned; `Inv` says how the three are related to what was committed, and that any two
packets of a node committed without a reset in between are related by `R`. It is proved
once, for every `R` that contains `<` and that the condition `P` on `handle` supports
(`Supports`), and used for `<` and for `≠`.

* `inv_coreStep`: every step of the core keeps `Inv`.
-/

namespace TMEdge.Ingest

open Library Replay Protocol List

/-! ## Logs -/

/-- A reset of the node ends what a committed packet stands for. -/
def Entry.cut : Entry → Entry → Prop
  | .committed _ p, .reset uid => p.uid = uid
  | _, _ => False

/-- Two committed packets of one node are related by `R`. -/
def Entry.Rel (R : Cursor → Cursor → Prop) : Entry → Entry → Prop
  | .committed _ p, .committed _ q => p.uid = q.uid → R p.cursor q.cursor
  | _, _ => True

def acksOf (log : List Entry) : List Ack := log.flatMap Entry.acks

theorem acksOf_concat (log : List Entry) (e : Entry) :
    acksOf (log ++ [e]) = acksOf log ++ e.acks := by
  simp [acksOf]

theorem since_acksOf {log : List Entry} {msg : Buffer} {p : Packet}
    (h : Since Entry.cut log (.committed msg p)) :
    Since Ack.cut (acksOf log) (.cursor p.uid p.cursor) := by
  obtain ⟨pre, post, rfl, hCut⟩ := h
  refine ⟨acksOf pre, (p.lastCmd.map Ack.command).toList ++ acksOf post, ?_, ?_⟩
  · simp [acksOf, Entry.acks]
  · intro b hb
    rcases mem_append.mp hb with hb | hb
    · cases hLast : p.lastCmd with
      | none => simp [hLast] at hb
      | some n =>
        simp only [hLast, Option.map_some, Option.toList_some, mem_singleton] at hb
        subst hb
        exact id
    · obtain ⟨e, he, hb⟩ := mem_flatMap.mp hb
      cases e with
      | committed msg' q =>
        simp only [Entry.acks, mem_cons, Option.mem_toList, Option.map_eq_some_iff] at hb
        rcases hb with rfl | ⟨n, _, rfl⟩
        · exact id
        · exact id
      | reset uid =>
        simp only [Entry.acks, mem_singleton] at hb
        subst hb
        exact hCut _ he
      | allocated n =>
        simp only [Entry.acks, mem_singleton] at hb
        subst hb
        exact id

/-! ## Jobs -/

/-- Only the oldest job of a node is past `waiting`. -/
structure Queue (jobs : List Job) (next : Nat) : Prop where
  ids : (jobs.map Job.id).Nodup
  bound : ∀ j ∈ jobs, j.id < next
  head : ∀ j ∈ jobs, j.stage ≠ .waiting → jobs.find? (fun k => k.uid == j.uid) = some j
  parsed : ∀ j ∈ jobs, Parsed j.msg j.prepared.packet

namespace Queue

variable {jobs : List Job} {next : Nat} {j k : Job} {stage : JobStage}

theorem eq_of_id (h : Queue jobs next) (hj : j ∈ jobs) (hk : k ∈ jobs) (he : j.id = k.id) : j = k :=
  inj_on_of_nodup_map h.ids hj hk he

theorem first (h : Queue jobs next) (hHead : Head jobs j stage) :
    jobs.find? (fun k => k.uid == j.uid) = some j := by
  obtain ⟨k, hk, hId⟩ := hHead.first
  rw [hk, h.eq_of_id (mem_of_find?_eq_some hk) hHead.mem hId]

/-- The oldest job of a node and one past `waiting` are the same. -/
theorem eq_head (h : Queue jobs next) (hHead : Head jobs j stage) (hk : k ∈ jobs)
    (hStage : k.stage ≠ .waiting) (hUid : k.uid = j.uid) : k = j := by
  have hk' := h.head k hk hStage
  rw [hUid, h.first hHead] at hk'
  exact (Option.some.inj hk').symm

theorem concat (h : Queue jobs next) {msg : Buffer} {p : PreparedPacket}
    (hp : Parsed msg p.packet) : Queue (jobs ++ [⟨next, msg, p, .waiting⟩]) (next + 1) := by
  have hBound : ∀ j ∈ jobs ++ [⟨next, msg, p, .waiting⟩], j ∈ jobs ∨ j = ⟨next, msg, p, .waiting⟩ := by
    intro j hj
    simpa using hj
  refine ⟨?_, ?_, ?_, ?_⟩
  · rw [map_append, nodup_append]
    refine ⟨h.ids, by simp, ?_⟩
    intro a ha b hb
    obtain ⟨j, hj, rfl⟩ := mem_map.mp ha
    have hLt := h.bound j hj
    simp only [map_cons, map_nil, mem_singleton] at hb
    omega
  · intro j hj
    rcases hBound j hj with hj | rfl
    · have := h.bound j hj
      omega
    · exact Nat.lt_succ_self next
  · intro j hj hStage
    rcases hBound j hj with hj | rfl
    · rw [find?_append, h.head j hj hStage]
      rfl
    · exact absurd rfl hStage
  · intro j hj
    rcases hBound j hj with hj | rfl
    · exact h.parsed j hj
    · exact hp

/-- Changing stages only: jobs that leave `waiting` must be the oldest of their node. -/
theorem map (h : Queue jobs next) {f : Job → JobStage}
    (hHead : ∀ j ∈ jobs, f j ≠ .waiting → jobs.find? (fun k => k.uid == j.uid) = some j) :
    Queue (jobs.map fun j => { j with stage := f j }) next := by
  have hUid : ∀ u : String, ((fun k : Job => k.uid == u) ∘ fun j : Job => { j with stage := f j }) =
      fun k => k.uid == u := fun u => rfl
  refine ⟨?_, ?_, ?_, ?_⟩
  · rw [map_map]
    exact h.ids
  · intro j hj
    obtain ⟨k, hk, rfl⟩ := mem_map.mp hj
    exact h.bound k hk
  · intro j hj hStage
    obtain ⟨k, hk, rfl⟩ := mem_map.mp hj
    rw [find?_map, hUid]
    change (jobs.find? fun k' => k'.uid == k.uid).map _ = _
    rw [hHead k hk hStage]
    rfl
  · intro j hj
    obtain ⟨k, hk, rfl⟩ := mem_map.mp hj
    exact h.parsed k hk

theorem filter (h : Queue jobs next) (id : Nat) :
    Queue (jobs.filter fun k => k.id ≠ id) next := by
  refine ⟨?_, ?_, ?_, ?_⟩
  · exact h.ids.sublist (List.Sublist.map _ filter_sublist)
  · exact fun j hj => h.bound j (mem_of_mem_filter hj)
  · intro j hj hStage
    obtain ⟨hj, hId⟩ := mem_filter.mp hj
    have hFind := h.head j hj hStage
    rw [List.find?_filter]
    obtain ⟨hp, as, bs, rfl, has⟩ := find?_eq_some_iff_append.mp hFind
    refine find?_eq_some_iff_append.mpr ⟨by simpa using hId, as, bs, rfl, ?_⟩
    intro a ha
    have := has a ha
    simp only [Bool.not_eq_true', beq_eq_false_iff_ne, ne_eq] at this
    simp [this]
  · exact fun j hj => h.parsed j (mem_of_mem_filter hj)

theorem length_filter (h : Queue jobs next) (hj : j ∈ jobs) :
    (jobs.filter fun k => k.id ≠ j.id).length = jobs.length - 1 := by
  have hErase : ((jobs.map Job.id).erase j.id).length = jobs.length - 1 := by
    rw [length_erase_of_mem (mem_map.mpr ⟨j, hj, rfl⟩), length_map]
  rw [h.ids.erase_eq_filter, filter_map, length_map] at hErase
  rw [← hErase]
  congr 1
  refine filter_congr fun k _ => ?_
  by_cases hId : k.id = j.id <;> simp [hId]

end Queue

/-- The stage a settled promise leaves a job in. -/
def settledStage (ts : List Settled) (j : Job) : JobStage :=
  match ts.find? fun t => t.pending.ticket == j.id with
  | some t => if t.error.isNone then .persisted else .rejected
  | none => j.stage

theorem settleJobs_eq (jobs : List Job) (ts : List Settled) :
    settleJobs jobs ts = jobs.map fun j => { j with stage := settledStage ts j } := by
  unfold settleJobs settledStage
  refine map_congr_left fun j _ => ?_
  cases ts.find? fun t => t.pending.ticket == j.id <;> rfl

theorem setStage_eq (jobs : List Job) (id : Nat) (stage : JobStage) :
    setStage jobs id stage =
      jobs.map fun j => { j with stage := if j.id = id then stage else j.stage } := by
  unfold setStage
  refine map_congr_left fun j _ => ?_
  by_cases hId : j.id = id <;> simp [hId]

/-! ## The invariant -/

/-- A job whose write has returned: what it wrote is in memory, and it may be committed
after everything committed so far. -/
structure Written (R : Cursor → Cursor → Prop) (m : ReplaySnapshot) (log : List Entry)
    (p : Packet) : Prop where
  cursor : ∃ d, m.cursors.get p.uid = some d ∧ p.cursor ≤ d
  lastCmd : ∀ n, p.lastCmd = some n → n ≤ m.commandSeq
  after : ∀ msg q, Since Entry.cut log (.committed msg q) → q.uid = p.uid → R q.cursor p.cursor

structure Inv (R : Cursor → Cursor → Prop) (c : Core) (log : List Entry) : Prop where
  store : c.replay.Inv fun _ => True
  queue : Queue c.jobs c.nextJob
  count : c.durablePackets = c.jobs.length
  room : c.jobs.length ≤ maxDurablePackets
  /-- Every write the store has admitted belongs to a job that waits for it. -/
  pending : ∀ p ∈ c.replay.queue, ∃ j ∈ c.jobs, j.stage = .awaiting ∧ p = j.pending
  tickets : (c.replay.queue.map Pending.ticket).Nodup
  seqLe : c.replay.commandSeq ≤ c.lastCommandSeq
  queueSeq : ∀ p ∈ c.replay.queue, ∀ n, p.commandSeq = some n → n ≤ c.lastCommandSeq
  /-- On a healthy store the reserved number is in memory or on its way there. -/
  seqHeld : c.replay.failed = none → c.lastCommandSeq ≤ c.replay.commandSeq ∨
    ∃ p ∈ c.replay.queue, p.commandSeq = some c.lastCommandSeq
  acks : Acknowledged (acksOf log) c.replay.mem
  written : ∀ j ∈ c.jobs, j.stage = .persisted → Written R c.replay.mem log j.prepared.packet
  ordered : Ordered Entry.cut (Entry.Rel R) log

section Steps

variable {R : Cursor → Cursor → Prop} {c : Core} {log : List Entry} {j : Job} {msg : Buffer}
  {replay : ReplayStore} {p : Packet} {io : Io}

theorem Inv.queued_lt (h : Inv R c log) : c.replay.queued < maxQueued := by
  have hSub : c.replay.queue.map Pending.ticket ⊆ c.jobs.map Job.id := by
    intro t ht
    obtain ⟨p, hp, rfl⟩ := mem_map.mp ht
    obtain ⟨k, hk, _, rfl⟩ := h.pending p hp
    exact mem_map.mpr ⟨k, hk, rfl⟩
  have hLen := (subperm_of_subset h.tickets hSub).length_le
  have hRoom := h.room
  rw [length_map, length_map] at hLen
  rw [h.store.queued]
  unfold maxQueued
  unfold maxDurablePackets at hRoom
  omega

/-- A committed packet is at most the saved cursor of its node. -/
theorem Inv.committed_le (h : Inv R c log) {q : Packet}
    (hq : Since Entry.cut log (.committed msg q)) :
    ∃ d, c.replay.cursors.get q.uid = some d ∧ q.cursor ≤ d :=
  h.acks.cursor q.uid q.cursor (since_acksOf hq)

/-- The store and the command number move on; nothing is admitted or settled. -/
theorem Inv.grow (h : Inv R c log) {replay : ReplayStore} {last : Nat}
    (hStore : replay.Inv fun _ => True) (hCovers : Covers replay.mem c.replay.mem)
    (hQueue : replay.queue = c.replay.queue) (hLast : c.lastCommandSeq ≤ last)
    (hSeq : replay.commandSeq ≤ last)
    (hHeld : replay.failed = none → last ≤ replay.commandSeq ∨
      ∃ p ∈ replay.queue, p.commandSeq = some last) :
    Inv R
      { c with
        replay := replay
        lastCommandSeq := last } log := by
  refine ⟨hStore, h.queue, h.count, h.room, ?_, ?_, hSeq, ?_, hHeld, h.acks.covers hCovers, ?_,
    h.ordered⟩
  · exact fun p hp => h.pending p (hQueue ▸ hp)
  · exact hQueue ▸ h.tickets
  · exact fun p hp n hn => (h.queueSeq p (hQueue ▸ hp) n hn).trans hLast
  · intro k hk hStage
    obtain ⟨⟨d, hd, hle⟩, hCmd, hAfter⟩ := h.written k hk hStage
    obtain ⟨d', hd', hle'⟩ := hCovers.2 _ d hd
    exact ⟨⟨d', hd', hle.trans hle'⟩, fun n hn => (hCmd n hn).trans hCovers.1, hAfter⟩

/-- The same, when the memory does not change. -/
theorem Inv.same (h : Inv R c log) (hStore : replay.Inv fun _ => True)
    (hMem : replay.mem = c.replay.mem) (hQueue : replay.queue = c.replay.queue)
    (hFailed : replay.failed = none → c.replay.failed = none) :
    Inv R { c with replay := replay } log := by
  have hCmd : replay.commandSeq = c.replay.commandSeq := congrArg ReplaySnapshot.commandSeq hMem
  refine h.grow hStore (hMem ▸ Covers.refl _) hQueue le_rfl (hCmd ▸ h.seqLe) fun hNone => ?_
  rw [hQueue, hCmd]
  exact h.seqHeld (hFailed hNone)

/-- One more entry of the log. -/
theorem Inv.logged (h : Inv R c log) {e : Entry}
    (hAcks : Acknowledged (acksOf (log ++ [e])) c.replay.mem)
    (hWritten : ∀ msg p, e = .committed msg p → ∀ k ∈ c.jobs, k.stage = .persisted →
      p.uid = k.uid → R p.cursor k.prepared.packet.cursor)
    (hAfter : ∀ msg p, e = .committed msg p → ∀ msg' q,
      Since Entry.cut log (.committed msg' q) → q.uid = p.uid → R q.cursor p.cursor) :
    Inv R c (log ++ [e]) := by
  refine ⟨h.store, h.queue, h.count, h.room, h.pending, h.tickets, h.seqLe, h.queueSeq, h.seqHeld,
    hAcks, ?_, ?_⟩
  · intro k hk hStage
    obtain ⟨hCursor, hCmd, hOld⟩ := h.written k hk hStage
    refine ⟨hCursor, hCmd, fun msg q hq hUid => ?_⟩
    rcases since_concat.mp hq with he | ⟨hq, _⟩
    · exact hWritten msg q he.symm k hk hStage hUid
    · exact hOld msg q hq hUid
  · refine ordered_concat h.ordered fun a ha => ?_
    cases e with
    | reset uid => cases a <;> trivial
    | allocated n => cases a <;> trivial
    | committed msg p =>
      cases a with
      | reset uid => trivial
      | allocated n => trivial
      | committed msg' q => exact fun hUid => hAfter msg p rfl msg' q ha hUid

theorem Inv.acks_committed (h : Inv R c log) (msg : Buffer)
    (hCursor : ∃ d, c.replay.cursors.get p.uid = some d ∧ p.cursor ≤ d)
    (hCmd : ∀ n, p.lastCmd = some n → n ≤ c.replay.commandSeq) :
    Acknowledged (acksOf (log ++ [.committed msg p])) c.replay.mem := by
  rw [acksOf_concat]
  refine h.acks.append _ ?_ ?_
  · intro n hn
    have hLast : p.lastCmd = some n := by simpa [Entry.acks] using hn
    exact hCmd n hLast
  · intro uid d hd
    have hEq : uid = p.uid ∧ d = p.cursor := by simpa [Entry.acks] using hd
    obtain ⟨rfl, rfl⟩ := hEq
    exact hCursor

/-! ### Jobs -/

/-- A job that no write waits for moves to a stage in which nothing is written. -/
theorem Inv.setStage (h : Inv R c log) {stage stage' : JobStage} (hHead : Head c.jobs j stage)
    (hAwaiting : stage ≠ .awaiting) (hPersisted : stage' ≠ .persisted) :
    Inv R { c with jobs := Ingest.setStage c.jobs j.id stage' } log := by
  rw [setStage_eq]
  refine ⟨h.store, ?_, ?_, ?_, ?_, h.tickets, h.seqLe, h.queueSeq, h.seqHeld, h.acks, ?_, h.ordered⟩
  · refine h.queue.map fun k hk hStage => ?_
    split at hStage
    · rename_i hId
      rw [h.queue.eq_of_id hk hHead.mem hId]
      exact h.queue.first hHead
    · exact h.queue.head k hk hStage
  · simpa using h.count
  · simpa using h.room
  · intro p hp
    obtain ⟨k, hk, hStage, rfl⟩ := h.pending p hp
    have hne : k.id ≠ j.id := by
      intro hId
      rw [h.queue.eq_of_id hk hHead.mem hId, hHead.stage] at hStage
      exact hAwaiting hStage
    refine ⟨_, mem_map.mpr ⟨k, hk, rfl⟩, ?_, rfl⟩
    simpa [hne] using hStage
  · intro k' hk' hStage
    obtain ⟨k, hk, rfl⟩ := mem_map.mp hk'
    dsimp only at hStage
    split at hStage
    · exact absurd hStage hPersisted
    · exact h.written k hk hStage

theorem Inv.settleJob (h : Inv R c log) (hHead : Head c.jobs j .finished) :
    Inv R
      { c with
        jobs := c.jobs.filter fun k => k.id ≠ j.id
        durablePackets := c.durablePackets - 1 } log := by
  have hLength := h.queue.length_filter hHead.mem
  have hCount := h.count
  have hRoom := h.room
  refine ⟨h.store, h.queue.filter j.id, ?_, ?_, ?_, h.tickets, h.seqLe, h.queueSeq, h.seqHeld,
    h.acks, fun k hk => h.written k (mem_of_mem_filter hk), h.ordered⟩
  · dsimp only
    omega
  · dsimp only
    omega
  · intro p hp
    obtain ⟨k, hk, hStage, rfl⟩ := h.pending p hp
    refine ⟨k, mem_filter.mpr ⟨hk, ?_⟩, hStage, rfl⟩
    have hne : k.id ≠ j.id := by
      intro hId
      rw [h.queue.eq_of_id hk hHead.mem hId, hHead.stage] at hStage
      cases hStage
    simpa using hne

theorem Inv.queueJob (h : Inv R c log) {p : PreparedPacket} (hParsed : Parsed msg p.packet)
    (hRoom : c.durablePackets < maxDurablePackets) :
    Inv R
      { c with
        jobs := c.jobs ++ [⟨c.nextJob, msg, p, .waiting⟩]
        durablePackets := c.durablePackets + 1
        nextJob := c.nextJob + 1 } log := by
  have hCount := h.count
  refine ⟨h.store, h.queue.concat hParsed, ?_, ?_, ?_, h.tickets, h.seqLe, h.queueSeq, h.seqHeld,
    h.acks, ?_, h.ordered⟩
  · simp only [length_append, length_singleton]
    omega
  · simp only [length_append, length_singleton]
    omega
  · intro q hq
    obtain ⟨k, hk, hStage, rfl⟩ := h.pending q hq
    exact ⟨k, mem_append_left _ hk, hStage, rfl⟩
  · intro k hk hStage
    rcases mem_append.mp hk with hk | hk
    · exact h.written k hk hStage
    · rw [mem_singleton] at hk
      subst hk
      cases hStage

/-- The oldest job of a node hands its packet to the store. -/
theorem Inv.admitJob (h : Inv R c log) (hHead : Head c.jobs j .waiting)
    (hNew : Newest c j.prepared.packet) {e : Option String}
    (hAccept : c.replay.acceptAsync j.pending = (replay, e)) :
    Inv R
      { c with
        replay := replay
        lastCommandSeq := observe c.lastCommandSeq j.prepared.packet.lastCmd
        jobs := Ingest.setStage c.jobs j.id (if e.isNone then .awaiting else .rejected) } log := by
  have hWf := (h.queue.parsed j hHead.mem).wf
  -- No write of this node is queued: it would belong to this job, which is still waiting.
  have hFree : ∀ p ∈ c.replay.queue, p.uid ≠ j.uid ∧ p.ticket ≠ j.id := by
    intro p hp
    obtain ⟨k, hk, hStage, rfl⟩ := h.pending p hp
    have hne : k ≠ j := by
      rintro rfl
      rw [hHead.stage] at hStage
      cases hStage
    refine ⟨fun hUid => hne (h.queue.eq_head hHead hk (by simp [hStage]) hUid), fun hId => ?_⟩
    exact hne (h.queue.eq_of_id hk hHead.mem hId)
  have hObserve : c.lastCommandSeq ≤ observe c.lastCommandSeq j.prepared.packet.lastCmd := by
    cases j.prepared.packet.lastCmd with
    | none => exact le_rfl
    | some n => exact le_max_left _ _
  have hStore : replay.Inv fun _ => True := by
    have := ReplayStore.inv_acceptAsync h.store (p := j.pending) trivial hNew
      fun p hp hUid => absurd hUid (hFree p hp).1
    rwa [hAccept] at this
  cases e with
  | some e =>
    have hSame : replay = c.replay := ReplayStore.acceptAsync_error hAccept
    subst hSame
    -- A healthy store would have taken the write.
    have hFailed : c.replay.failed ≠ none := by
      intro hNone
      have hOk := ReplayStore.acceptAsync_healthy (p := j.pending) hNone
        (by simp [ReplayStore.validate, Job.pending, Job.uid, hWf.uid, hWf.boot, hWf.seq])
        hWf.lastCmd h.queued_lt
      rw [hAccept] at hOk
      cases hOk
    have hGrow : Inv R
        { c with lastCommandSeq := observe c.lastCommandSeq j.prepared.packet.lastCmd } log :=
      h.grow h.store (Covers.refl _) rfl hObserve (h.seqLe.trans hObserve)
        fun hNone => absurd hNone hFailed
    exact hGrow.setStage hHead (by simp) (by simp)
  | none =>
    obtain ⟨hFailed, hMem, hQueue, _⟩ := ReplayStore.acceptAsync_ok hAccept
    have hCmd : replay.commandSeq = c.replay.commandSeq := congrArg ReplaySnapshot.commandSeq hMem
    have hMember : ∀ p ∈ replay.queue, p ∈ c.replay.queue ∨ p = j.pending := by
      intro p hp
      rw [hQueue] at hp
      simpa using hp
    rw [setStage_eq]
    refine ⟨hStore, ?_, ?_, ?_, ?_, ?_, ?_, ?_, ?_, ?_, ?_, h.ordered⟩
    · refine h.queue.map fun k hk hStage => ?_
      split at hStage
      · rename_i hId
        rw [h.queue.eq_of_id hk hHead.mem hId]
        exact h.queue.first hHead
      · exact h.queue.head k hk hStage
    · simpa using h.count
    · simpa using h.room
    · intro p hp
      rcases hMember p hp with hp | rfl
      · obtain ⟨k, hk, hStage, rfl⟩ := h.pending p hp
        have hne : k.id ≠ j.id := (hFree k.pending hp).2
        exact ⟨_, mem_map.mpr ⟨k, hk, rfl⟩, by simpa [hne] using hStage, rfl⟩
      · exact ⟨_, mem_map.mpr ⟨j, hHead.mem, rfl⟩, by simp, rfl⟩
    · rw [hQueue, map_append, nodup_append]
      refine ⟨h.tickets, by simp, ?_⟩
      intro a ha b hb
      obtain ⟨p, hp, rfl⟩ := mem_map.mp ha
      simp only [map_cons, map_nil, mem_singleton] at hb
      subst hb
      exact (hFree p hp).2
    · dsimp only
      rw [hCmd]
      exact h.seqLe.trans hObserve
    · intro p hp n hn
      rcases hMember p hp with hp | rfl
      · exact (h.queueSeq p hp n hn).trans hObserve
      · change j.prepared.packet.lastCmd = some n at hn
        simp [observe, hn]
    · intro _
      dsimp only
      rw [hCmd]
      -- The reserved number is the old one or the one this job has just queued.
      have hOld := h.seqHeld hFailed
      have hSplit : observe c.lastCommandSeq j.prepared.packet.lastCmd = c.lastCommandSeq ∨
          j.prepared.packet.lastCmd =
            some (observe c.lastCommandSeq j.prepared.packet.lastCmd) := by
        cases j.prepared.packet.lastCmd with
        | none => exact Or.inl rfl
        | some n =>
          simp only [observe, Option.some.injEq]
          omega
      rcases hSplit with hEq | hEq
      · rw [hEq]
        refine hOld.imp_right ?_
        rintro ⟨p, hp, hn⟩
        exact ⟨p, by simp [hQueue, hp], hn⟩
      · exact Or.inr ⟨j.pending, by simp [hQueue], hEq⟩
    · rw [hMem]
      exact h.acks
    · intro k' hk' hStage
      obtain ⟨k, hk, rfl⟩ := mem_map.mp hk'
      dsimp only at hStage
      split at hStage
      · cases hStage
      · rw [hMem]
        exact h.written k hk hStage

/-! ### Settled promises -/

theorem settledStage_map {ps : List Pending} {err : Option String} {j : Job} :
    settledStage (ps.map fun p => ⟨p, err⟩) j =
      if j.id ∈ ps.map Pending.ticket then
        (if err.isNone then .persisted else .rejected)
      else j.stage := by
  unfold settledStage
  rw [find?_map]
  by_cases hMem : j.id ∈ ps.map Pending.ticket
  · rw [if_pos hMem]
    obtain ⟨p, hp, hId⟩ := mem_map.mp hMem
    cases hFind : ps.find? ((fun t : Settled => t.pending.ticket == j.id) ∘ fun p => ⟨p, err⟩) with
    | none =>
      have := find?_eq_none.mp hFind p hp
      simp [hId] at this
    | some q => rfl
  · rw [if_neg hMem]
    have hNone : ps.find? ((fun t : Settled => t.pending.ticket == j.id) ∘ fun p => ⟨p, err⟩) =
        none := by
      refine find?_eq_none.mpr fun p hp => ?_
      have hne : p.ticket ≠ j.id := fun hId => hMem (mem_map.mpr ⟨p, hp, hId⟩)
      simpa using hne
    rw [hNone]
    rfl

/-- The jobs of some admitted writes are settled; the others keep waiting. -/
theorem Inv.queue_settled (h : Inv R c log) {ps : List Pending} (hps : ∀ p ∈ ps, p ∈ c.replay.queue)
    (err : Option String) :
    Queue (settleJobs c.jobs (ps.map fun p => ⟨p, err⟩)) c.nextJob := by
  rw [settleJobs_eq]
  refine h.queue.map fun k hk hStage => ?_
  rw [settledStage_map] at hStage
  split at hStage
  · rename_i hMem
    obtain ⟨p, hp, hId⟩ := mem_map.mp hMem
    obtain ⟨k', hk', hAwaiting, rfl⟩ := h.pending p (hps p hp)
    have hEq : k' = k := h.queue.eq_of_id hk' hk hId
    subst hEq
    exact h.queue.head k' hk (by simp [hAwaiting])
  · exact h.queue.head k hk hStage

/-- The store gives up: the whole queue is rejected. -/
theorem Inv.rejectAll (h : Inv R c log) {replay : ReplayStore} {e : String}
    (hStore : replay.Inv fun _ => True) (hMem : replay.mem = c.replay.mem)
    (hQueue : replay.queue = []) (hFailed : replay.failed = some e) :
    Inv R
      { c with
        replay := replay
        jobs := settleJobs c.jobs (c.replay.queue.map fun p => ⟨p, some e⟩) } log := by
  have hCmd : replay.commandSeq = c.replay.commandSeq := congrArg ReplaySnapshot.commandSeq hMem
  refine ⟨hStore, h.queue_settled (fun _ hp => hp) _, ?_, ?_, ?_, ?_, hCmd ▸ h.seqLe, ?_, ?_,
    hMem ▸ h.acks, ?_, h.ordered⟩
  · simpa [settleJobs] using h.count
  · simpa [settleJobs] using h.room
  · simp [hQueue]
  · simp [hQueue]
  · simp [hQueue]
  · simp [hFailed]
  · intro k' hk' hStage
    rw [settleJobs_eq] at hk'
    obtain ⟨k, hk, rfl⟩ := mem_map.mp hk'
    dsimp only at hStage
    rw [settledStage_map] at hStage
    split at hStage
    · cases hStage
    · rw [hMem]
      exact h.written k hk hStage

/-- A batch is durable: its jobs may be committed. -/
theorem Inv.settleBatch (h : Inv R c log) (hLt : ∀ a b, a < b → R a b) {replay : ReplayStore}
    (hStore : replay.Inv fun _ => True) (hHealthy : c.replay.failed = none)
    (hMem : replay.mem = replayFrom c.replay.mem (batchRecords c.replay.inflight))
    (hQueue : replay.queue = c.replay.pending) :
    Inv R
      { c with
        replay := replay
        jobs := settleJobs c.jobs (c.replay.inflight.map fun p => ⟨p, none⟩) } log := by
  have hNewer : Newer c.replay.mem.cursors (c.replay.inflight ++ c.replay.pending) := h.store.newer
  have hBatch : Newer c.replay.mem.cursors c.replay.inflight :=
    ⟨fun p hp => hNewer.mem p (mem_append_left _ hp),
      (pairwise_append.mp hNewer.queue).1⟩
  have hCovers : Covers replay.mem c.replay.mem := hMem ▸ (covers_batch hNewer).1
  have hEntry : ∀ p ∈ c.replay.inflight,
      (∃ d, replay.mem.cursors.get p.uid = some d ∧ p.cursor ≤ d) ∧
        ∀ n, p.commandSeq = some n → n ≤ replay.mem.commandSeq := by
    rw [hMem]
    exact fun p hp => covers_batch_entry hBatch hp
  have hInflight : ∀ p ∈ c.replay.inflight, p ∈ c.replay.queue :=
    fun p hp => mem_append_left _ hp
  have hPending : ∀ p ∈ c.replay.pending, p ∈ c.replay.queue :=
    fun p hp => mem_append_right _ hp
  have hTickets := h.tickets
  rw [show c.replay.queue = c.replay.inflight ++ c.replay.pending from rfl, map_append,
    nodup_append] at hTickets
  refine ⟨hStore, h.queue_settled hInflight _, ?_, ?_, ?_, ?_, ?_, ?_, ?_, h.acks.covers hCovers,
    ?_, h.ordered⟩
  · simpa [settleJobs] using h.count
  · simpa [settleJobs] using h.room
  · intro p hp
    rw [hQueue] at hp
    obtain ⟨k, hk, hStage, rfl⟩ := h.pending p (hPending p hp)
    rw [settleJobs_eq]
    refine ⟨_, mem_map.mpr ⟨k, hk, rfl⟩, ?_, rfl⟩
    dsimp only
    rw [settledStage_map, if_neg]
    · exact hStage
    · intro hMem'
      exact hTickets.2.2 _ hMem' _ (mem_map.mpr ⟨k.pending, hp, rfl⟩) rfl
  · rw [hQueue]
    exact hTickets.2.1
  · change replay.mem.commandSeq ≤ c.lastCommandSeq
    rw [hMem]
    exact commandSeq_replayFrom_batch h.seqLe fun p hp => h.queueSeq p (hInflight p hp)
  · intro p hp
    exact h.queueSeq p (hPending p (hQueue ▸ hp))
  · intro _
    rcases h.seqHeld hHealthy with hle | ⟨p, hp, hn⟩
    · exact Or.inl (hle.trans hCovers.1)
    · rcases mem_append.mp hp with hp | hp
      · exact Or.inl ((hEntry p hp).2 _ hn)
      · exact Or.inr ⟨p, hQueue ▸ hp, hn⟩
  · intro k' hk' hStage
    rw [settleJobs_eq] at hk'
    obtain ⟨k, hk, rfl⟩ := mem_map.mp hk'
    dsimp only at hStage
    rw [settledStage_map] at hStage
    split at hStage
    · rename_i hId
      obtain ⟨p, hp, hId⟩ := mem_map.mp hId
      obtain ⟨k', hk', _, rfl⟩ := h.pending p (hInflight p hp)
      obtain rfl : k' = k := h.queue.eq_of_id hk' hk hId
      refine ⟨(hEntry _ hp).1, (hEntry _ hp).2, fun msg q hq hUid => hLt _ _ ?_⟩
      -- Everything committed is at most the cursor this write is newer than.
      obtain ⟨d, hd, hle⟩ := h.committed_le hq
      rw [hUid] at hd
      exact hle.trans_lt (hNewer.mem _ (hInflight _ hp) d hd)
    · obtain ⟨⟨d, hd, hle⟩, hCmd, hAfter⟩ := h.written k hk hStage
      obtain ⟨d', hd', hle'⟩ := hCovers.2 _ d hd
      exact ⟨⟨d', hd', hle.trans hle'⟩, fun n hn => (hCmd n hn).trans hCovers.1, hAfter⟩

/-! ### Packets of `handle` -/

/-- `R` contains `<`, and a packet of `handle` persisted under `P` may be followed by the
older one that a job still has to commit. -/
structure Supports (P : Core → Packet → Prop) (R : Cursor → Cursor → Prop) : Prop where
  lt : ∀ a b, a < b → R a b
  direct : ∀ c p, P c p → ∀ k ∈ c.jobs, k.stage = .persisted → p.uid = k.uid →
    k.prepared.packet.cursor < p.cursor → R p.cursor k.prepared.packet.cursor

theorem inv_accept_any {s : ReplayStore} (h : s.Inv fun _ => True) (uid : String) (d : Cursor)
    (io : Io) : (s.accept uid d io).1.Inv fun _ => True :=
  ReplayStore.inv_accept h trivial io

theorem Inv.accept (h : Inv R c log) (hNew : Newest c p)
    (hAccept : c.replay.accept p.uid p.cursor io = (replay, none)) :
    Inv R { c with replay := replay } log ∧ c.replay.failed = none ∧
      c.lastCommandSeq ≤ c.replay.commandSeq ∧ replay.commandSeq = c.replay.commandSeq ∧
      replay.cursors.get p.uid = some p.cursor := by
  obtain ⟨hq, hFailed, _, hMem, hQueue⟩ := ReplayStore.accept_ok hAccept
  have hStore : replay.Inv fun _ => True := by
    have hAny := inv_accept_any h.store p.uid p.cursor io
    rwa [hAccept] at hAny
  have hCmd : replay.commandSeq = c.replay.commandSeq := congrArg ReplaySnapshot.commandSeq hMem
  have hCursors : replay.cursors = c.replay.cursors.set p.uid p.cursor :=
    congrArg ReplaySnapshot.cursors hMem
  have hCovers : Covers replay.mem c.replay.mem := by
    rw [hMem]
    exact covers_apply_cursor fun d hd => (hNew d hd).le
  -- Nothing is queued, so the reserved number is in memory.
  have hHeld : c.lastCommandSeq ≤ c.replay.commandSeq := by
    rcases h.seqHeld hFailed with hle | ⟨q, hq', _⟩
    · exact hle
    · rw [(h.store.inflight_nil hq).1] at hq'
      simp at hq'
  refine ⟨h.grow hStore hCovers hQueue le_rfl (hCmd ▸ h.seqLe) fun _ => Or.inl ?_, hFailed,
    hHeld, hCmd, ?_⟩
  · rw [hCmd]
    exact hHeld
  · rw [hCursors]
    simp

theorem Inv.command (h : Inv R c log) {n : Nat}
    (hCommand : c.replay.command n io = (replay, none)) (hSeq : c.lastCommandSeq < n) :
    Inv R
      { c with
        replay := replay
        lastCommandSeq := n } log ∧ replay.commandSeq = n ∧ replay.cursors = c.replay.cursors := by
  obtain ⟨_, _, hMem, hQueue, _⟩ := ReplayStore.command_ok hCommand
  have hStore : replay.Inv fun _ => True := by
    have := ReplayStore.inv_command h.store n io
    rwa [hCommand] at this
  have hLe := h.seqLe
  have hCmd : replay.commandSeq = n := by
    have hMax : replay.commandSeq = max c.replay.commandSeq n :=
      congrArg ReplaySnapshot.commandSeq hMem
    omega
  refine ⟨h.grow hStore (hMem ▸ covers_apply_cmd _ _) hQueue hSeq.le hCmd.le
    fun _ => Or.inl hCmd.ge, hCmd, congrArg ReplaySnapshot.cursors hMem⟩

theorem Inv.commandFails (h : Inv R c log) {n : Nat} {e : String}
    (hCommand : c.replay.command n io = (replay, some e)) :
    Inv R { c with replay := replay } log := by
  obtain ⟨hMem, hQueue⟩ := ReplayStore.command_error hCommand
  have hStore := ReplayStore.inv_command h.store n io
  rw [hCommand] at hStore
  refine h.same hStore hMem hQueue fun hNone => ?_
  have hNone' : (c.replay.command n io).1.failed = none := by rw [hCommand]; exact hNone
  exact ReplayStore.failed_command hNone'

theorem Inv.logCommitted {P : Core → Packet → Prop} {c₀ : Core} (h : Inv R c log)
    (hS : Supports P R) (h₀ : Inv R c₀ log) (hJobs : c.jobs = c₀.jobs) (hP : P c₀ p)
    (hNew : Newest c₀ p) (hCursor : c.replay.cursors.get p.uid = some p.cursor)
    (hCmd : ∀ n, p.lastCmd = some n → n ≤ c.replay.commandSeq) :
    Inv R c (log ++ [.committed msg p]) := by
  refine h.logged (h.acks_committed msg ⟨_, hCursor, le_rfl⟩ hCmd) ?_ ?_
  · rintro msg' p' ⟨⟩ k hk hStage hUid
    rw [hJobs] at hk
    refine hS.direct c₀ p hP k hk hStage hUid ?_
    obtain ⟨d, hd, hle⟩ := (h₀.written k hk hStage).cursor
    exact hle.trans_lt (hNew d (hUid ▸ hd))
  · rintro msg' p' ⟨⟩ msg'' q hq hUid
    obtain ⟨d, hd, hle⟩ := h₀.committed_le hq
    exact hS.lt _ _ (hle.trans_lt (hNew d (hUid ▸ hd)))

end Steps

/-! ## Every step keeps the invariant -/

theorem inv_coreStep {P : Core → Packet → Prop} {R : Cursor → Cursor → Prop} (hS : Supports P R)
    {c c' : Core} {log es : List Entry} (h : Inv R c log) (hStep : CoreStep P c es c') :
    Inv R c' (log ++ es) := by
  cases hStep with
  | idle => simpa using h
  | acceptFails hNew hWf hAccept =>
    rename_i p io replay e
    obtain ⟨hMem, hQueue⟩ := ReplayStore.accept_error hAccept
    have hStore := inv_accept_any h.store p.uid p.cursor io
    rw [hAccept] at hStore
    rw [append_nil]
    refine h.same hStore hMem hQueue fun hNone => ?_
    exact ReplayStore.failed_accept (by rw [hAccept]; exact hNone)
  | commandFails hP hNew hWf hAccept hCommand =>
    rw [append_nil]
    exact (h.accept hNew hAccept).1.commandFails hCommand
  | direct hP hNew hParsed hAccept hLast hLog =>
    obtain ⟨hInv, _, hHeld, hCmd, hCursor⟩ := h.accept hNew hAccept
    rcases hLog with rfl | rfl
    · simpa using hInv
    · refine hInv.logCommitted hS h rfl hP hNew hCursor fun n hn => ?_
      dsimp only
      rw [hCmd]
      exact (hLast n hn).trans hHeld
  | directCommand hP hNew hParsed hAccept hLast hSeq hCommand hLog =>
    rename_i msg p io io' replay replay' n
    obtain ⟨hInv, _, _, _, hCursor⟩ := h.accept hNew hAccept
    obtain ⟨hInv', hCmd, hCursors⟩ := hInv.command hCommand hSeq
    rcases hLog with rfl | rfl
    · simpa using hInv'
    · refine hInv'.logCommitted hS h rfl hP hNew (hCursors ▸ hCursor) fun m hm => ?_
      rw [hLast] at hm
      cases hm
      exact hCmd.ge
  | queue hParsed hRoom => simpa using h.queueJob hParsed hRoom
  | refuse hHead => simpa using h.setStage hHead (by simp) (by simp)
  | admitted hHead hNew hAccept => simpa using h.admitJob hHead hNew hAccept
  | commit hHead hLog =>
    rename_i j
    have hInv : Inv R { c with jobs := setStage c.jobs j.id .finished } log :=
      h.setStage hHead (by simp) (by simp)
    rcases hLog with rfl | rfl
    · simpa using hInv
    · obtain ⟨hCursor, hCmd, hAfter⟩ := h.written j hHead.mem hHead.stage
      refine hInv.logged (hInv.acks_committed j.msg hCursor hCmd) ?_ ?_
      · -- No other job of this node is past `waiting`.
        rintro msg p ⟨⟩ k' hk' hStage hUid
        rw [setStage_eq] at hk'
        obtain ⟨k, hk, rfl⟩ := mem_map.mp hk'
        dsimp only at hStage
        split at hStage
        · cases hStage
        · rename_i hne
          have hEq := h.queue.eq_head hHead hk (by simp [hStage]) hUid.symm
          exact absurd (congrArg Job.id hEq) hne
      · rintro msg p ⟨⟩ msg' q hq hUid
        exact hAfter msg' q hq hUid
  | drop hHead => simpa using h.setStage hHead (by simp) (by simp)
  | settle hHead => simpa using h.settleJob hHead
  | timer io =>
    rw [append_nil]
    have hStore := ReplayStore.inv_timerFires h.store io
    obtain ⟨hMem, ⟨hNone, hQueue⟩ | ⟨e, hQueue, hFailed, hAll⟩⟩ := c.replay.timerFires_spec io
    · rw [hNone, show settleJobs c.jobs [] = c.jobs by simp [settleJobs]]
      exact h.same hStore hMem hQueue ReplayStore.failed_timerFires
    · rw [hAll]
      exact h.rejectAll hStore hMem hQueue hFailed
  | sync ok =>
    rw [append_nil]
    have hStore := ReplayStore.inv_syncDone h.store ok
    rcases c.replay.syncDone_spec ok with ⟨_, hSame⟩ | ⟨hFailed, _, hMem, hQueue, hAll⟩ |
        ⟨e, hMem, hQueue, hFailed, hAll⟩
    · rw [hSame, show settleJobs c.jobs [] = c.jobs by simp [settleJobs]]
      exact h
    · rw [hAll]
      exact h.settleBatch hS.lt hStore hFailed hMem hQueue
    · rw [hAll]
      exact h.rejectAll hStore hMem hQueue hFailed
  | allocateFails hCommand => simpa using h.commandFails hCommand
  | allocate hSeq hCommand =>
    rename_i n io replay
    obtain ⟨hInv, hCmd, _⟩ := h.command hCommand hSeq
    refine hInv.logged ?_ (by rintro msg p ⟨⟩) (by rintro msg p ⟨⟩)
    rw [acksOf_concat]
    refine hInv.acks.append _ ?_ (by simp [Entry.acks])
    intro m hm
    have hEq : m = n := by simpa [Entry.acks] using hm
    rw [hEq]
    exact hCmd.ge
  | resetFails hReset =>
    rename_i uid io replay e
    obtain ⟨hMem, hQueue⟩ := ReplayStore.reset_error hReset
    have hStore := ReplayStore.inv_reset h.store uid io
    rw [hReset] at hStore
    rw [append_nil]
    refine h.same hStore hMem hQueue fun hNone => ?_
    exact ReplayStore.failed_reset (by rw [hReset]; exact hNone)
  | reset hIdle hReset =>
    rename_i uid io replay b
    obtain ⟨hq, hMem, hQueue⟩ := ReplayStore.reset_ok hReset
    have hStore := ReplayStore.inv_reset h.store uid io
    rw [hReset] at hStore
    have hCmd : replay.commandSeq = c.replay.commandSeq := congrArg ReplaySnapshot.commandSeq hMem
    have hJobs : c.jobs = [] := length_eq_zero_iff.mp (h.count ▸ hIdle)
    refine ⟨hStore, h.queue, h.count, h.room, hQueue ▸ h.pending, hQueue ▸ h.tickets,
      hCmd ▸ h.seqLe, hQueue ▸ h.queueSeq, ?_, ?_, ?_, ?_⟩
    · intro hNone
      have hOld := h.seqHeld (ReplayStore.failed_reset (by rw [hReset]; exact hNone))
      change c.lastCommandSeq ≤ replay.commandSeq ∨ ∃ p ∈ replay.queue, _
      rw [hCmd, hQueue]
      exact hOld
    · rw [acksOf_concat]
      change Acknowledged _ replay.mem
      rw [hMem]
      exact h.acks.reset uid
    · intro k hk
      rw [show c.jobs = [] from hJobs] at hk
      simp at hk
    · refine ordered_concat h.ordered fun a _ => ?_
      cases a <;> trivial

end TMEdge.Ingest
