import TMEdge.Ingest.Links
import TMEdge.Ingest.Safety
import TMEdge.Replay.Nodes

/-!
# The node table and the queue of durable packets

A node has a place in the table when the store has its cursor or when the first cursor is on
its way (`pendingNewNodes`). `Table` says that at most `maxNodes` nodes have a place and
how the jobs, the queue of the store and `pendingNewNodes` belong together; `Tails` is the
account of the queued packets.

* `table_run`: both hold in every state of every run, restarts included.
* `nodes_bounded`: what follows for the links, the cursors, the counters and the journal.
* `counted_twice`: while a job whose write has returned waits to be resumed, its node is in
  `cursors` and in `pendingNewNodes`, so that the two sizes may add up to more.
-/

namespace TMEdge.Ingest

open Library Replay Protocol State List JsMap

/-! ## The account of the queue -/

def queuedBytes (jobs : List Job) : Nat := (jobs.map fun j => j.msg.length).sum

/-- The newest job of a node. -/
def lastJob (jobs : List Job) (uid : String) : Option Nat :=
  (jobs.reverse.find? fun j => j.uid == uid).map Job.id

structure Tails (jobs : List Job) (bytes : Nat) (tails : JsMap String Nat) : Prop where
  total : bytes = queuedBytes jobs
  bound : bytes ≤ maxDurableBytes
  tails : ∀ uid, tails.get uid = lastJob jobs uid

section tails

variable {jobs : List Job} {bytes next : Nat} {tails : JsMap String Nat} {j : Job}
  {stage : JobStage}

theorem Tails.empty : Tails [] 0 .empty := ⟨rfl, Nat.zero_le _, fun _ => rfl⟩

/-- Stages play no part in the account. -/
theorem Tails.map (h : Tails jobs bytes tails) (f : Job → JobStage) :
    Tails (jobs.map fun j => { j with stage := f j }) bytes tails := by
  refine ⟨?_, h.bound, fun uid => ?_⟩
  · rw [h.total, queuedBytes, queuedBytes, map_map]
    rfl
  · rw [h.tails, lastJob, lastJob, ← map_reverse, find?_map, Option.map_map]
    rfl

theorem Tails.concat (h : Tails jobs bytes tails) (hRoom : bytes + j.msg.length ≤ maxDurableBytes) :
    Tails (jobs ++ [j]) (bytes + j.msg.length) (tails.set j.uid j.id) := by
  refine ⟨?_, hRoom, fun uid => ?_⟩
  · rw [h.total]
    simp [queuedBytes]
  · rw [get_set, h.tails, lastJob, lastJob, reverse_concat, find?_cons]
    by_cases hUid : uid = j.uid
    · simp [hUid]
    · have hne : (j.uid == uid) = false := by simpa using fun he => hUid he.symm
      simp [hUid, hne]

/-- A node whose oldest job is its newest has no other. -/
theorem eq_of_lastJob (hQueue : Queue jobs next) (hHead : Head jobs j stage)
    (hLast : lastJob jobs j.uid = some j.id) {k : Job} (hk : k ∈ jobs) (hUid : k.uid = j.uid) :
    k = j := by
  obtain ⟨hj, as, bs, rfl, has⟩ := find?_eq_some_iff_append.mp (hQueue.first hHead)
  obtain ⟨l, hFind, hId⟩ := Option.map_eq_some_iff.mp hLast
  have hAs : ∀ k ∈ as, k.uid ≠ j.uid := fun k hk => by simpa using has k hk
  rcases mem_append.mp hk with hk | hk
  · exact absurd hUid (hAs k hk)
  · rcases mem_cons.mp hk with hk | hk
    · exact hk
    · -- The newest job is among `bs`, and no job there has the id of `j`.
      exfalso
      have hNodup := hQueue.ids
      rw [map_append, map_cons, nodup_append] at hNodup
      have hne : ∀ b ∈ bs, b.id ≠ j.id := fun b hb he =>
        (nodup_cons.mp hNodup.2.1).1 (he ▸ mem_map_of_mem hb)
      rw [reverse_append, reverse_cons, append_assoc, find?_append] at hFind
      cases hBs : bs.reverse.find? fun k => k.uid == j.uid with
      | none =>
        have hNone := find?_eq_none.mp hBs k (mem_reverse.mpr hk)
        simp [hUid] at hNone
      | some b =>
        rw [hBs] at hFind
        obtain rfl := Option.some.inj hFind
        exact hne b (mem_reverse.mp (mem_of_find?_eq_some hBs)) hId

theorem queuedBytes_filter (hQueue : Queue jobs next) (hj : j ∈ jobs) :
    queuedBytes (jobs.filter fun k => k.id ≠ j.id) + j.msg.length = queuedBytes jobs := by
  obtain ⟨as, bs, rfl⟩ := append_of_mem hj
  have hNodup := hQueue.ids
  rw [map_append, map_cons, nodup_append] at hNodup
  have hAs : as.filter (fun k => k.id ≠ j.id) = as := by
    refine filter_eq_self.mpr fun a ha => ?_
    have hne := hNodup.2.2 a.id (mem_map_of_mem ha) j.id mem_cons_self
    simpa using hne
  have hBs : bs.filter (fun k => k.id ≠ j.id) = bs := by
    refine filter_eq_self.mpr fun b hb => ?_
    have hne : b.id ≠ j.id := fun he =>
      (nodup_cons.mp hNodup.2.1).1 (he ▸ mem_map_of_mem hb)
    simpa using hne
  rw [filter_append, filter_cons_of_neg (by simp), hAs, hBs]
  simp only [queuedBytes, map_append, map_cons, sum_append, sum_cons]
  omega

theorem Tails.settle (h : Tails jobs bytes tails) (hQueue : Queue jobs next)
    (hHead : Head jobs j stage) :
    Tails (jobs.filter fun k => k.id ≠ j.id) (bytes - j.msg.length)
      (if tails.get j.uid = some j.id then tails.delete j.uid else tails) := by
  have hBytes := queuedBytes_filter hQueue hHead.mem
  refine ⟨by rw [h.total]; omega, (Nat.sub_le _ _).trans h.bound, fun uid => ?_⟩
  have hFilter : lastJob (jobs.filter fun k => k.id ≠ j.id) uid =
      (jobs.reverse.find? fun k => decide (k.id ≠ j.id) && k.uid == uid).map Job.id := by
    rw [lastJob, ← filter_reverse, List.find?_filter]
    simp only [Bool.decide_and, Bool.decide_eq_true]
  have hKeeps : lastJob jobs uid ≠ some j.id ∨ uid ≠ j.uid →
      lastJob (jobs.filter fun k => k.id ≠ j.id) uid = lastJob jobs uid := by
    intro hne
    rw [hFilter, lastJob]
    cases hFind : jobs.reverse.find? fun k => k.uid == uid with
    | none =>
      rw [find?_eq_none.mpr]
      intro k hk
      have hNone := find?_eq_none.mp hFind k hk
      simp [hNone]
    | some k =>
      obtain ⟨hk, as, bs, hSplit, has⟩ := find?_eq_some_iff_append.mp hFind
      have hId : k.id ≠ j.id := by
        rcases hne with hLast | hUid
        · intro he
          exact hLast (by rw [lastJob, hFind, Option.map_some, he])
        · intro he
          have hMem : k ∈ jobs := mem_reverse.mp (mem_of_find?_eq_some hFind)
          obtain rfl := hQueue.eq_of_id hMem hHead.mem he
          exact hUid (show k.uid = uid by simpa using hk).symm
      have hSome : jobs.reverse.find? (fun k => decide (k.id ≠ j.id) && k.uid == uid) = some k := by
        refine find?_eq_some_iff_append.mpr ⟨by simpa [hId] using hk, as, bs, hSplit, ?_⟩
        intro a ha
        have hNot : (a.uid == uid) = false := by simpa using has a ha
        simp [hNot]
      rw [hSome]
  split
  · rename_i hTail
    rw [get_delete]
    split
    · rename_i hUid
      subst hUid
      rw [h.tails] at hTail
      rw [hFilter, find?_eq_none.mpr, Option.map_none]
      intro k hk
      by_cases hUid : k.uid = j.uid
      · obtain rfl := eq_of_lastJob hQueue hHead hTail (mem_reverse.mp hk) hUid
        simp
      · simp [hUid]
    · rename_i hUid
      rw [hKeeps (Or.inr hUid), h.tails]
  · rename_i hTail
    rw [h.tails] at hTail
    rw [h.tails]
    by_cases hUid : uid = j.uid
    · subst hUid
      exact (hKeeps (Or.inl hTail)).symm
    · exact (hKeeps (Or.inr hUid)).symm

/-- `durableTails` names exactly the nodes with a queued packet. -/
theorem Tails.has_iff (h : Tails jobs bytes tails) (uid : String) :
    tails.has uid = true ↔ ∃ j ∈ jobs, j.uid = uid := by
  rw [JsMap.has, h.tails, lastJob, Option.isSome_map, find?_isSome]
  simp

end tails

/-! ## Places in the table -/

namespace State

/-- The nodes with a cursor, or with one on its way. -/
def places (s : State) : Finset String := s.replay.cursors.keys.toFinset ∪ s.pendingNewNodes

structure Table (s : State) : Prop where
  fits : s.replay.Fits
  links : ∀ uid ∈ s.links.keys, uid ∈ s.replay.cursors.keys
  places : s.places.card ≤ maxNodes
  /-- A job that waits for the store is in its queue and has its place. -/
  awaiting : ∀ j ∈ s.jobs, j.stage = .awaiting → j.uid ∈ s.places ∧ j.pending ∈ s.replay.queue
  rejected : ∀ j ∈ s.jobs, j.stage = .rejected → s.replay.failed ≠ none
  reserved : ∀ uid ∈ s.pendingNewNodes, ∃ j ∈ s.jobs, j.uid = uid ∧
    (j.stage = .awaiting ∨ j.stage = .persisted ∨ j.stage = .rejected)
  /-- Only a job whose write has returned has its node in both. -/
  both : ∀ uid ∈ s.pendingNewNodes, uid ∈ s.replay.cursors.keys →
    ∃ j ∈ s.jobs, j.uid = uid ∧ j.stage = .persisted

section table

variable {s t : State} {crypto : Crypto} {verify : VerifyOptions} {env : Env} {log : List Entry}
  {R : Cursor → Cursor → Prop} {uid : String} {replay : ReplayStore} {p : PreparedPacket}
  {e : Option String}

theorem mem_places : uid ∈ s.places ↔ uid ∈ s.replay.cursors.keys ∨ uid ∈ s.pendingNewNodes := by
  simp [State.places]

theorem card_cursors (s : State) : s.replay.cursors.keys.toFinset.card = s.replay.cursors.size := by
  have hNodup : s.replay.cursors.keys.Nodup := s.replay.cursors.nodup
  rw [toFinset_card_of_nodup hNodup, length_keys]

theorem card_places_le (s : State) :
    s.places.card ≤ s.replay.cursors.size + s.pendingNewNodes.card := by
  rw [← card_cursors]
  exact Finset.card_union_le _ _

/-- What refused packets and statistics leave alone. -/
structure Same (s t : State) : Prop where
  replay : t.replay = s.replay
  links : ∀ uid ∈ t.links.keys, uid ∈ s.links.keys
  jobs : t.jobs = s.jobs
  reserved : t.pendingNewNodes = s.pendingNewNodes
  bytes : t.durableBytes = s.durableBytes
  tails : t.durableTails = s.durableTails

theorem Same.refl : Same s s := ⟨rfl, fun _ h => h, rfl, rfl, rfl, rfl⟩

theorem Same.trans {u : State} (h : Same s t) (h' : Same t u) : Same s u :=
  ⟨h'.replay.trans h.replay, fun uid hu => h.links uid (h'.links uid hu), h'.jobs.trans h.jobs,
    h'.reserved.trans h.reserved, h'.bytes.trans h.bytes, h'.tails.trans h.tails⟩

theorem Table.same (h : Table s) (hSame : Same s t) : Table t := by
  have hPlaces : t.places = s.places := by rw [State.places, hSame.replay, hSame.reserved]; rfl
  refine ⟨hSame.replay ▸ h.fits, fun uid hu => hSame.replay ▸ h.links uid (hSame.links uid hu),
    hPlaces ▸ h.places, ?_, ?_, ?_, ?_⟩
  · rw [hSame.jobs, hPlaces, hSame.replay]
    exact h.awaiting
  · rw [hSame.jobs, hSame.replay]
    exact h.rejected
  · rw [hSame.jobs, hSame.reserved]
    exact h.reserved
  · rw [hSame.jobs, hSame.reserved, hSame.replay]
    exact h.both

theorem Table.within (h : Table s) (hInv : Inv R s.core log) : s.replay.Within s.places := by
  refine ⟨fun k hk => mem_places.mpr (Or.inl hk), fun p hp => ?_⟩
  obtain ⟨j, hj, hStage, rfl⟩ := hInv.pending p hp
  exact (h.awaiting j hj hStage).1

/-- The store moves on; nodes, queue and jobs stay. -/
theorem Table.store (h : Table s) (hFits : replay.Fits) (hMem : replay.cursors = s.replay.cursors)
    (hQueue : replay.queue = s.replay.queue)
    (hFailed : replay.failed = none → s.replay.failed = none) :
    Table { s with replay := replay } := by
  have hPlaces : ({ s with replay := replay } : State).places = s.places := by
    simp only [State.places, hMem]
  refine ⟨hFits, ?_, hPlaces ▸ h.places, ?_, fun j hj hStage hNone =>
    h.rejected j hj hStage (hFailed hNone), h.reserved, ?_⟩
  · rw [hMem]
    exact h.links
  · rw [hPlaces, hQueue]
    exact h.awaiting
  · rw [hMem]
    exact h.both

/-! ## Bookkeeping -/

theorem same_reject (now : ℚ) (address : String) (uid : Option String) (reason : String) :
    Same s (s.reject now address uid reason).1 := ⟨rfl, fun _ h => h, rfl, rfl, rfl, rfl⟩

theorem same_countRejected (uid : String) : Same s (s.countRejected uid) := by
  unfold countRejected
  split
  · rename_i link hLink
    exact ⟨rfl, fun k hk => mem_keys_set_of_get hLink hk, rfl, rfl, rfl, rfl⟩
  · exact .refl

theorem same_prepare (s : State) (crypto : Crypto) (verify : VerifyOptions) (msg : Buffer)
    (source : Source) (env : Env) : Same s (s.prepare crypto verify msg source env).1 := by
  unfold prepare
  dsimp only
  split
  · exact ⟨rfl, fun _ h => h, rfl, rfl, rfl, rfl⟩
  · split
    · exact ⟨rfl, fun _ h => h, rfl, rfl, rfl, rfl⟩
    · split <;> exact ⟨rfl, fun _ h => h, rfl, rfl, rfl, rfl⟩

theorem same_admitPacket (s : State) (p : PreparedPacket) (env : Env) :
    Same s (s.admitPacket p env).1 := by
  unfold admitPacket
  dsimp only
  split
  · split
    · exact (same_countRejected _).trans (same_reject _ _ _ _)
    · split
      · exact (same_countRejected _).trans (same_reject _ _ _ _)
      · exact .refl
  · split
    · exact same_reject _ _ _ _
    · split
      · exact (same_countRejected _).trans (same_reject _ _ _ _)
      · exact .refl

theorem same_dropDirectRoute (uid sessionId : String) :
    Same s (s.dropDirectRoute uid sessionId).1 := by
  unfold dropDirectRoute
  split
  · rename_i link hLink
    split
    · split
      · exact .refl
      · exact ⟨rfl, fun k hk => mem_keys_set_of_get hLink hk, rfl, rfl, rfl, rfl⟩
    · exact .refl
  · exact .refl

/-- An admitted packet is of a node with a cursor or a link, or there is a free place. -/
theorem admitPacket_room (h : s.admitPacket p env = (t, none)) :
    p.packet.uid ∈ s.replay.cursors.keys ∨ p.packet.uid ∈ s.links.keys ∨
      s.replay.cursors.size + s.pendingNewNodes.card < maxNodes := by
  unfold admitPacket at h
  dsimp only at h
  split at h
  · rename_i cursor hCursor
    unfold cursorOf at hCursor
    split at hCursor
    · rename_i hGet hLink
      exact Or.inl (mem_keys_of_get hGet)
    · rename_i hGet hLink
      exact Or.inl (mem_keys_of_get hGet)
    · obtain ⟨link, hLink, -⟩ := Option.map_eq_some_iff.mp hCursor
      exact Or.inr (Or.inl (mem_keys_of_get hLink))
  · split at h
    · cases h
    · rename_i hFull
      rw [not_or, not_le, not_le] at hFull
      exact Or.inr (Or.inr hFull.2)

/-! ## `handle` -/

/-- One more place, for a node that has one or while one is free. -/
theorem card_insert_places (h : Table s) {uid : String}
    (hRoom : uid ∈ s.replay.cursors.keys ∨ uid ∈ s.links.keys ∨
      s.replay.cursors.size + s.pendingNewNodes.card < maxNodes) :
    (insert uid s.places).card ≤ maxNodes := by
  have hKnown : uid ∈ s.replay.cursors.keys → (insert uid s.places).card ≤ maxNodes := by
    intro hMem
    rw [Finset.insert_eq_self.mpr (mem_places.mpr (Or.inl hMem))]
    exact h.places
  rcases hRoom with hMem | hMem | hRoom
  · exact hKnown hMem
  · exact hKnown (h.links uid hMem)
  · have hCard := card_places_le s
    have hInsert := Finset.card_insert_le uid s.places
    omega

theorem Table.accept (h : Table s) (hInv : Inv R s.core log) {c : Cursor} {io : Io}
    (hCard : (insert uid s.places).card ≤ maxNodes)
    (hAccept : s.replay.accept uid c io = (replay, e)) :
    Table { s with replay := replay } ∧ (e = none → uid ∈ replay.cursors.keys) := by
  have hFits : replay.Fits := by
    have hFits := h.fits.accept hInv.store ((h.within hInv).mono (Finset.subset_insert uid _)) hCard
      (Finset.mem_insert_self uid _) c io
    rwa [hAccept] at hFits
  cases e with
  | some e =>
    obtain ⟨hMem, hQueue⟩ := ReplayStore.accept_error hAccept
    refine ⟨h.store hFits (congrArg ReplaySnapshot.cursors hMem) hQueue fun hNone => ?_, by simp⟩
    exact ReplayStore.failed_accept (by rw [hAccept]; exact hNone)
  | none =>
    obtain ⟨hQueued, hFailed, _, hMem, hQueue⟩ := ReplayStore.accept_ok hAccept
    have hCursors : replay.cursors = s.replay.cursors.set uid c :=
      congrArg ReplaySnapshot.cursors hMem
    have hEmpty : s.replay.queue = [] := (hInv.store.inflight_nil hQueued).1
    -- An idle, healthy store: every job past `waiting` has been persisted.
    have hAwaiting : ∀ j ∈ s.jobs, j.stage ≠ .awaiting := by
      intro j hj hStage
      have hMem := (h.awaiting j hj hStage).2
      rw [hEmpty] at hMem
      simp at hMem
    have hRejected : ∀ j ∈ s.jobs, j.stage ≠ .rejected :=
      fun j hj hStage => h.rejected j hj hStage hFailed
    have hKeys : ∀ k, k ∈ replay.cursors.keys ↔ k = uid ∨ k ∈ s.replay.cursors.keys := by
      intro k
      rw [hCursors, mem_keys_set]
    refine ⟨⟨hFits, fun k hk => (hKeys k).mpr (Or.inr (h.links k hk)), ?_, fun j hj hStage =>
      absurd hStage (hAwaiting j hj), fun j hj hStage => absurd hStage (hRejected j hj),
      h.reserved, ?_⟩, fun _ => (hKeys uid).mpr (Or.inl rfl)⟩
    · refine (Finset.card_le_card fun k hk => ?_).trans hCard
      rcases mem_places.mp hk with hk | hk
      · rcases (hKeys k).mp hk with rfl | hk
        · exact Finset.mem_insert_self _ _
        · exact Finset.mem_insert_of_mem (mem_places.mpr (Or.inl hk))
      · exact Finset.mem_insert_of_mem (mem_places.mpr (Or.inr hk))
    · intro k hk _
      obtain ⟨j, hj, hUid, hStage | hStage | hStage⟩ := h.reserved k hk
      · exact absurd hStage (hAwaiting j hj)
      · exact ⟨j, hj, hUid, hStage⟩
      · exact absurd hStage (hRejected j hj)

theorem Table.command (h : Table s) (hInv : s.replay.Inv fun _ => True)
    (hWithin : s.replay.Within s.places) {n : Nat} {io : Io}
    (hCommand : s.replay.command n io = (replay, e)) :
    Table { s with replay := replay } ∧ replay.cursors = s.replay.cursors := by
  have hFits : replay.Fits := by
    have hFits := h.fits.command hInv hWithin h.places n io
    rwa [hCommand] at hFits
  have hCursors : replay.cursors = s.replay.cursors ∧ replay.queue = s.replay.queue := by
    cases e with
    | some e =>
      obtain ⟨hMem, hQueue⟩ := ReplayStore.command_error hCommand
      exact ⟨congrArg ReplaySnapshot.cursors hMem, hQueue⟩
    | none =>
      obtain ⟨_, _, hMem, hQueue, _⟩ := ReplayStore.command_ok hCommand
      exact ⟨congrArg ReplaySnapshot.cursors hMem, hQueue⟩
  refine ⟨h.store hFits hCursors.1 hCursors.2 fun hNone => ?_, hCursors.1⟩
  exact ReplayStore.failed_command (by rw [hCommand]; exact hNone)

/-- A commit touches the link of a node that has a cursor. -/
theorem Table.commit (h : Table s) (hMem : p.packet.uid ∈ s.replay.cursors.keys) :
    Table (s.commitPacket p env).1 := by
  unfold commitPacket
  split
  · exact h.same (same_reject _ _ _ _)
  · refine ⟨h.fits, fun uid hu => ?_, h.places, h.awaiting, h.rejected, h.reserved, h.both⟩
    rcases mem_keys_set.mp hu with rfl | hu
    · exact hMem
    · exact h.links uid hu

theorem Table.persist (h : Table s) (hInv : Inv R s.core log)
    (hCard : (insert p.packet.uid s.places).card ≤ maxNodes) (env : Env) :
    Table (s.persist p env).1 ∧
      ((s.persist p env).2 = none → p.packet.uid ∈ (s.persist p env).1.replay.cursors.keys) := by
  rcases s.persist_cases p env with ⟨replay, e, hAccept, hEq⟩ | ⟨replay, hAccept, hRest⟩
  · rw [hEq]
    exact ⟨(h.accept hInv hCard hAccept).1, by simp⟩
  · obtain ⟨hTable, hMem⟩ := h.accept hInv hCard hAccept
    have hStore : replay.Inv fun _ => True := by
      have hOld : s.replay.Inv fun _ => True := hInv.store
      have hStore := inv_accept_any hOld p.packet.uid p.packet.cursor env.acceptIo
      rwa [hAccept] at hStore
    have hWithin : replay.Within ({ s with replay := replay } : State).places := by
      refine ⟨fun k hk => mem_places.mpr (Or.inl hk), ?_⟩
      obtain ⟨hQueued, _, _, _, hQueue⟩ := ReplayStore.accept_ok hAccept
      have hEmpty : s.replay.queue = [] := (hInv.store.inflight_nil hQueued).1
      rw [hQueue, hEmpty]
      simp
    rcases hRest with ⟨_, hEq⟩ | ⟨n, replay', e, hCommand, hEq⟩ | ⟨n, replay', _, _, hCommand, hEq⟩
    · rw [hEq]
      exact ⟨hTable, fun _ => hMem rfl⟩
    · rw [hEq]
      exact ⟨(hTable.command hStore hWithin hCommand).1, by simp⟩
    · rw [hEq]
      obtain ⟨hTable', hCursors⟩ := hTable.command hStore hWithin hCommand
      refine ⟨hTable'.same ⟨rfl, fun _ hk => hk, rfl, rfl, rfl, rfl⟩, fun _ => ?_⟩
      change p.packet.uid ∈ replay'.cursors.keys
      rw [hCursors]
      exact hMem rfl

/-- The fields of the account that `handle` leaves alone. -/
theorem tails_persist (s : State) (p : PreparedPacket) (env : Env) :
    (s.persist p env).1.jobs = s.jobs ∧ (s.persist p env).1.durableBytes = s.durableBytes ∧
      (s.persist p env).1.durableTails = s.durableTails := by
  rcases s.persist_cases p env with ⟨replay, e, _, hEq⟩ | ⟨replay, _, ⟨_, hEq⟩ |
      ⟨n, replay', e, _, hEq⟩ | ⟨n, replay', _, _, _, hEq⟩⟩ <;>
  · rw [hEq]
    exact ⟨rfl, rfl, rfl⟩

theorem tails_commitPacket (s : State) (p : PreparedPacket) (env : Env) :
    (s.commitPacket p env).1.jobs = s.jobs ∧
      (s.commitPacket p env).1.durableBytes = s.durableBytes ∧
      (s.commitPacket p env).1.durableTails = s.durableTails := by
  unfold commitPacket
  split <;> exact ⟨rfl, rfl, rfl⟩

/-- The whole account of a process. -/
structure Accounted (s : State) : Prop where
  table : Table s
  tails : Tails s.jobs s.durableBytes s.durableTails

theorem Accounted.same (h : Accounted s) (hSame : Same s t) : Accounted t :=
  ⟨h.table.same hSame, by rw [hSame.jobs, hSame.bytes, hSame.tails]; exact h.tails⟩

theorem Accounted.handle (h : Accounted s) (hInv : Inv R s.core log) (crypto : Crypto)
    (verify : VerifyOptions) (msg : Buffer) (source : Source) (env : Env) :
    Accounted (s.handle crypto verify msg source env).1 := by
  unfold State.handle
  have hPrepare := same_prepare s crypto verify msg source env
  have hCore : (s.prepare crypto verify msg source env).1.core = s.core := prepare_core
  split
  · rename_i s₁ r hEq
    rw [hEq] at hPrepare
    exact h.same hPrepare
  · rename_i s₁ p hEq
    rw [hEq] at hPrepare hCore
    have hAdmit := same_admitPacket s₁ p env
    have h₁ := h.same hPrepare
    have hInv₁ : Inv R s₁.core log := by rw [hCore]; exact hInv
    split
    · rename_i s₂ r hEq₂
      rw [hEq₂] at hAdmit
      exact h₁.same hAdmit
    · rename_i s₂ hEq₂
      obtain ⟨rfl, -⟩ := admitPacket_none hEq₂
      have hCard := card_insert_places h₁.table (admitPacket_room hEq₂)
      obtain ⟨hTable, hMem⟩ := h₁.table.persist hInv₁ hCard env
      obtain ⟨hJobs, hBytes, hTails⟩ := tails_persist s₂ p env
      have h₃ : Accounted (s₂.persist p env).1 :=
        ⟨hTable, by rw [hJobs, hBytes, hTails]; exact h₁.tails⟩
      split
      · rename_i s₃ e hEq₃
        rw [hEq₃] at h₃
        exact h₃.same (same_reject _ _ _ _)
      · rename_i s₃ hEq₃
        rw [hEq₃] at h₃ hMem
        obtain ⟨hJobs', hBytes', hTails'⟩ := tails_commitPacket s₃ p env
        exact ⟨h₃.table.commit (hMem rfl), by rw [hJobs', hBytes', hTails']; exact h₃.tails⟩

/-! ## Jobs -/

theorem Accounted.handleDurable (h : Accounted s) (msg : Buffer) (source : Source) :
    Accounted (s.handleDurable crypto verify msg source env).1 := by
  unfold State.handleDurable
  have hPrepare := same_prepare s crypto verify msg source env
  split
  · rename_i s₁ r hEq
    rw [hEq] at hPrepare
    exact h.same hPrepare
  · rename_i s₁ p hEq
    rw [hEq] at hPrepare
    have h₁ := h.same hPrepare
    split
    · exact h₁.same (same_reject _ _ _ _)
    · rename_i hFull
      rw [not_or, not_lt] at hFull
      have hNew : ∀ j ∈ s₁.jobs ++ [⟨s₁.nextJob, msg, p, .waiting⟩], j.stage ≠ .waiting →
          j ∈ s₁.jobs := by
        intro j hj hStage
        rcases mem_append.mp hj with hj | hj
        · exact hj
        · rw [mem_singleton] at hj
          exact absurd (by rw [hj]) hStage
      refine ⟨⟨h₁.table.fits, h₁.table.links, h₁.table.places, ?_, ?_, ?_, ?_⟩,
        h₁.tails.concat (j := ⟨s₁.nextJob, msg, p, .waiting⟩) hFull.2⟩
      · exact fun j hj hStage => h₁.table.awaiting j (hNew j hj (by simp [hStage])) hStage
      · exact fun j hj hStage => h₁.table.rejected j (hNew j hj (by simp [hStage])) hStage
      · intro uid hu
        obtain ⟨j, hj, hRest⟩ := h₁.table.reserved uid hu
        exact ⟨j, mem_append_left _ hj, hRest⟩
      · intro uid hu hMem
        obtain ⟨j, hj, hRest⟩ := h₁.table.both uid hu hMem
        exact ⟨j, mem_append_left _ hj, hRest⟩

/-- The job at the head of its node changes its stage, and the node's reservation goes with
it; what the other jobs have stays. -/
theorem Table.setStage (h : Table s) (hInv : Inv R s.core log) {j : Job} {stage : JobStage}
    (hHead : Head s.jobs j stage) {P : Finset String}
    (hP : ∀ uid, uid ∈ P ↔ uid ∈ s.pendingNewNodes ∧ (stage ≠ .waiting → uid ≠ j.uid)) :
    Table { s with
      pendingNewNodes := P
      jobs := Ingest.setStage s.jobs j.id .finished } := by
  have hQueue : Queue s.jobs s.nextJob := hInv.queue
  have hSub : P ⊆ s.pendingNewNodes := fun uid hu => ((hP uid).mp hu).1
  -- A job that still has a stage other than `finished` is not `j`.
  have hOther : ∀ k' ∈ Ingest.setStage s.jobs j.id .finished, k'.stage ≠ .finished →
      k' ∈ s.jobs ∧ k'.id ≠ j.id := by
    intro k' hk' hStage
    obtain ⟨k, hk, rfl⟩ := mem_map.mp hk'
    split at hStage
    · exact absurd rfl hStage
    · rename_i hId
      rw [if_neg hId]
      exact ⟨hk, hId⟩
  have hKeeps : ∀ k ∈ s.jobs, k.uid ∈ P → k.stage ≠ .waiting →
      k ∈ Ingest.setStage s.jobs j.id .finished := by
    intro k hk hUid hStage
    refine mem_map.mpr ⟨k, hk, if_neg fun hId => ?_⟩
    obtain rfl := hQueue.eq_of_id hk hHead.mem hId
    exact ((hP _).mp hUid).2 (hHead.stage ▸ hStage) rfl
  refine ⟨h.fits, h.links, (Finset.card_le_card ?_).trans h.places, ?_, ?_, ?_, ?_⟩
  · exact Finset.union_subset_union_right hSub
  · intro k hk hStage
    obtain ⟨hk, hId⟩ := hOther k hk (by simp [hStage])
    obtain ⟨hPlace, hQueued⟩ := h.awaiting k hk hStage
    refine ⟨mem_places.mpr ?_, hQueued⟩
    rcases mem_places.mp hPlace with hMem | hMem
    · exact Or.inl hMem
    · refine Or.inr ((hP _).mpr ⟨hMem, fun hNot hUid => hId ?_⟩)
      exact congrArg Job.id (hQueue.eq_head hHead hk (by simp [hStage]) hUid)
  · intro k hk hStage
    exact h.rejected k (hOther k hk (by simp [hStage])).1 hStage
  · intro uid hu
    obtain ⟨k, hk, rfl, hStage⟩ := h.reserved uid (hSub hu)
    refine ⟨k, hKeeps k hk hu ?_, rfl, hStage⟩
    rintro hWaiting
    rw [hWaiting] at hStage
    simp at hStage
  · intro uid hu hMem
    obtain ⟨k, hk, rfl, hStage⟩ := h.both uid (hSub hu) hMem
    exact ⟨k, hKeeps k hk hu (by simp [hStage]), rfl, hStage⟩

theorem tails_setStage (h : Tails s.jobs s.durableBytes s.durableTails) (id : Nat)
    (stage : JobStage) : Tails (Ingest.setStage s.jobs id stage) s.durableBytes s.durableTails := by
  rw [setStage_eq]
  exact h.map _

/-- A job is handed to the store, which takes its write or refuses it for good. -/
theorem Table.admitted (h : Table s) (hInv : Inv R s.core log) {j : Job}
    (hHead : Head s.jobs j .waiting) {P : Finset String} {replay : ReplayStore}
    {e : Option String} (hAccept : s.replay.acceptAsync j.pending = (replay, e))
    (hP : P = if j.uid ∈ s.replay.cursors.keys then s.pendingNewNodes
      else insert j.uid s.pendingNewNodes)
    (hCard : (insert j.uid s.places).card ≤ maxNodes) :
    Table { s with
      pendingNewNodes := P
      replay := replay
      jobs := Ingest.setStage s.jobs j.id (if e.isNone then .awaiting else .rejected) } := by
  have hQueue : Queue s.jobs s.nextJob := hInv.queue
  have hFits : replay.Fits := by
    have hFits := h.fits.acceptAsync j.pending
    rwa [hAccept] at hFits
  -- What the store answers: the write is queued, or the store has failed before.
  obtain ⟨hCursors, hOld, hNew, hFailed⟩ : replay.cursors = s.replay.cursors ∧
      (∀ p ∈ s.replay.queue, p ∈ replay.queue) ∧
      (e = none → j.pending ∈ replay.queue) ∧
      (replay.failed = s.replay.failed ∧ (e ≠ none → s.replay.failed ≠ none)) := by
    cases e with
    | some e =>
      obtain rfl := ReplayStore.acceptAsync_error hAccept
      refine ⟨rfl, fun _ hp => hp, by simp, rfl, fun _ hNone => ?_⟩
      have hWf := (hQueue.parsed j hHead.mem).wf
      have hValid : ReplayStore.validate j.pending.uid j.pending.cursor = true := by
        simp only [ReplayStore.validate, Bool.and_eq_true, decide_eq_true_eq]
        exact ⟨⟨hWf.uid, hWf.boot⟩, hWf.seq⟩
      have hHealthy := ReplayStore.acceptAsync_healthy hNone hValid hWf.lastCmd hInv.queued_lt
      rw [hAccept] at hHealthy
      cases hHealthy
    | none =>
      obtain ⟨hNone, hMem, hQueue', _⟩ := ReplayStore.acceptAsync_ok hAccept
      refine ⟨congrArg ReplaySnapshot.cursors hMem, ?_, fun _ => ?_, ?_, by simp⟩
      · intro p hp
        rw [hQueue']
        exact mem_append_left _ hp
      · rw [hQueue']
        simp
      · have hSame : (s.replay.acceptAsync j.pending).1.failed = s.replay.failed :=
          ReplayStore.failed_acceptAsync _ _
        rwa [hAccept] at hSame
  have hPSub : ∀ uid, uid ∈ P → uid = j.uid ∧ uid ∉ s.replay.cursors.keys ∨
      uid ∈ s.pendingNewNodes := by
    intro uid hu
    rw [hP] at hu
    split at hu
    · exact Or.inr hu
    · rename_i hNot
      rcases Finset.mem_insert.mp hu with rfl | hu
      · exact Or.inl ⟨rfl, hNot⟩
      · exact Or.inr hu
  have hPSup : ∀ uid ∈ s.pendingNewNodes, uid ∈ P := by
    intro uid hu
    rw [hP]
    split
    · exact hu
    · exact Finset.mem_insert_of_mem hu
  have hPlaces : ∀ uid, uid ∈ s.replay.cursors.keys ∨ uid ∈ P ↔ uid ∈ insert j.uid s.places := by
    intro uid
    rw [Finset.mem_insert, mem_places]
    constructor
    · rintro (hMem | hMem)
      · exact Or.inr (Or.inl hMem)
      · rcases hPSub uid hMem with ⟨rfl, -⟩ | hMem
        · exact Or.inl rfl
        · exact Or.inr (Or.inr hMem)
    · rintro (rfl | hMem | hMem)
      · rw [hP]
        split
        · exact Or.inl ‹_›
        · exact Or.inr (Finset.mem_insert_self _ _)
      · exact Or.inl hMem
      · exact Or.inr (hPSup uid hMem)
  have hKeeps : ∀ k ∈ s.jobs, k.stage ≠ .waiting → ∀ stage,
      k ∈ Ingest.setStage s.jobs j.id stage := by
    intro k hk hStage stage
    refine mem_map.mpr ⟨k, hk, if_neg fun hId => hStage ?_⟩
    rw [hQueue.eq_of_id hk hHead.mem hId]
    exact hHead.stage
  have hSelf : ∀ stage, { j with stage := stage } ∈ Ingest.setStage s.jobs j.id stage :=
    fun stage => mem_map.mpr ⟨j, hHead.mem, if_pos rfl⟩
  have hCases : ∀ stage, ∀ k ∈ Ingest.setStage s.jobs j.id stage,
      k ∈ s.jobs ∨ k = { j with stage := stage } := by
    intro stage k' hk'
    obtain ⟨k, hk, rfl⟩ := mem_map.mp hk'
    split
    · rename_i hId
      rw [hQueue.eq_of_id hk hHead.mem hId]
      exact Or.inr rfl
    · exact Or.inl hk
  refine ⟨hFits, ?_, ?_, ?_, ?_, ?_, ?_⟩
  · rw [hCursors]
    exact h.links
  · refine (Finset.card_le_card fun uid hu => ?_).trans hCard
    rw [mem_places, hCursors] at hu
    exact (hPlaces uid).mp hu
  · intro k hk hStage
    rw [mem_places, hCursors]
    rcases hCases _ k hk with hk | rfl
    · obtain ⟨hPlace, hQueued⟩ := h.awaiting k hk hStage
      exact ⟨(hPlaces _).mpr (Finset.mem_insert_of_mem hPlace), hOld _ hQueued⟩
    · refine ⟨(hPlaces _).mpr (Finset.mem_insert_self _ _), hNew ?_⟩
      cases e with
      | none => rfl
      | some e => cases hStage
  · intro k hk hStage
    change replay.failed ≠ none
    rw [hFailed.1]
    rcases hCases _ k hk with hk | rfl
    · exact h.rejected k hk hStage
    · cases e with
      | none => cases hStage
      | some e => exact hFailed.2 (by simp)
  · intro uid hu
    rcases hPSub uid hu with ⟨rfl, -⟩ | hu
    · refine ⟨_, hSelf _, rfl, ?_⟩
      cases e with
      | none => exact Or.inl rfl
      | some e => exact Or.inr (Or.inr rfl)
    · obtain ⟨k, hk, hUid, hStage⟩ := h.reserved uid hu
      refine ⟨k, hKeeps k hk ?_ _, hUid, hStage⟩
      rintro hWaiting
      rw [hWaiting] at hStage
      simp at hStage
  · intro uid hu hMem
    change uid ∈ replay.cursors.keys at hMem
    rw [hCursors] at hMem
    rcases hPSub uid hu with ⟨rfl, hNot⟩ | hu
    · exact absurd hMem hNot
    · obtain ⟨k, hk, hUid, hStage⟩ := h.both uid hu hMem
      exact ⟨k, hKeeps k hk (by simp [hStage]) _, hUid, hStage⟩

theorem Accounted.admitJob (h : Accounted s) (hInv : Inv R s.core log) (id : Nat) :
    Accounted (s.admitJob id env) := by
  unfold State.admitJob
  split
  · exact h
  · rename_i j hj
    obtain ⟨rfl, hHead⟩ := headJob_spec hj
    split
    · exact h
    · rename_i hStage
      rw [not_not] at hStage
      rw [hStage] at hHead
      have hAdmit := same_admitPacket s j.prepared env
      split
      · rename_i s₁ r hEq
        rw [hEq] at hAdmit
        have hCore : (s.admitPacket j.prepared env).1.core = s.core := admitPacket_core
        rw [hEq] at hCore
        have h₁ := h.same hAdmit
        have hJobs : s₁.jobs = s.jobs := hAdmit.jobs
        have hInv₁ : Inv R s₁.core log := by
          rw [hCore]
          exact hInv
        refine ⟨h₁.table.setStage hInv₁ (by rw [hJobs]; exact hHead)
          (P := s₁.pendingNewNodes) fun uid => ?_,
          tails_setStage h₁.tails _ _⟩
        exact ⟨fun hu => ⟨hu, fun hNot => absurd rfl hNot⟩, And.left⟩
      · rename_i s₁ hEq
        obtain ⟨rfl, -⟩ := admitPacket_none hEq
        have hCard := card_insert_places h.table (admitPacket_room hEq)
        have hNew : (!s₁.links.has j.uid && !s₁.replay.cursors.has j.uid) = true ↔
            j.uid ∉ s₁.replay.cursors.keys := by
          rw [Bool.and_eq_true, Bool.not_eq_true', Bool.not_eq_true', ← Bool.not_eq_true,
            ← Bool.not_eq_true, has_iff_mem_keys, has_iff_mem_keys]
          exact ⟨And.right, fun hNot => ⟨fun hMem => hNot (h.table.links _ hMem), hNot⟩⟩
        have hStep : ∀ P : Finset String, (P = if j.uid ∈ s₁.replay.cursors.keys
            then s₁.pendingNewNodes else insert j.uid s₁.pendingNewNodes) → ∀ replay e last,
            s₁.replay.acceptAsync j.pending = (replay, e) →
            Accounted { s₁ with
              pendingNewNodes := P
              replay := replay
              lastCommandSeq := last
              jobs := Ingest.setStage s₁.jobs j.id
                (if e.isNone then .awaiting else .rejected) } := by
          intro P hP replay e last hAccept
          refine ⟨(h.table.admitted hInv hHead hAccept hP hCard).same ?_,
            tails_setStage h.tails _ _⟩
          exact ⟨rfl, fun _ hk => hk, rfl, rfl, rfl, rfl⟩
        by_cases hUid : j.uid ∈ s₁.replay.cursors.keys
        · rw [if_neg (fun hc => hNew.mp hc hUid)]
          dsimp only
          split
          · rename_i replay e hAccept
            exact hStep _ (if_pos hUid).symm replay (some e) _ hAccept
          · rename_i replay hAccept
            exact hStep _ (if_pos hUid).symm replay none _ hAccept
        · rw [if_pos (hNew.mpr hUid)]
          dsimp only
          split
          · rename_i replay e hAccept
            exact hStep _ (if_neg hUid).symm replay (some e) _ hAccept
          · rename_i replay hAccept
            exact hStep _ (if_neg hUid).symm replay none _ hAccept

/-- A commit does not look at the jobs. -/
theorem commitPacket_jobs (jobs : List Job) (p : PreparedPacket) :
    ({ s with jobs := jobs } : State).commitPacket p env =
      ({ (s.commitPacket p env).1 with jobs := jobs }, (s.commitPacket p env).2) := by
  unfold commitPacket
  split <;> rfl

theorem Accounted.resumeJob (h : Accounted s) (hInv : Inv R s.core log) (id : Nat) (env : Env) :
    Accounted (s.resumeJob id env).1 := by
  unfold State.resumeJob
  split
  · exact h
  · rename_i j hj
    obtain ⟨rfl, hHead⟩ := headJob_spec hj
    -- The reservation ends and the job is finished, whatever becomes of its packet.
    have hDone : j.stage ≠ .waiting → Accounted { s with
        pendingNewNodes := s.pendingNewNodes.erase j.uid
        jobs := Ingest.setStage s.jobs j.id .finished } := by
      intro hStage
      refine ⟨h.table.setStage hInv hHead fun uid => ?_, tails_setStage h.tails _ _⟩
      rw [Finset.mem_erase, and_comm]
      exact and_congr_right fun _ => ⟨fun hne _ => hne, fun hne => hne hStage⟩
    dsimp only
    split
    · rename_i hStage
      have hWritten := (hInv.written j hHead.mem hStage).cursor
      have hMem : j.uid ∈ s.replay.cursors.keys := by
        obtain ⟨d, hd, -⟩ := hWritten
        exact mem_keys_of_get hd
      have hDone := hDone (by simp [hStage])
      have hCommit : Accounted (({ s with
          pendingNewNodes := s.pendingNewNodes.erase j.uid
          jobs := Ingest.setStage s.jobs j.id .finished } : State).commitPacket
            j.prepared env).1 := by
        obtain ⟨hJobs, hBytes, hTails⟩ := tails_commitPacket { s with
          pendingNewNodes := s.pendingNewNodes.erase j.uid
          jobs := Ingest.setStage s.jobs j.id .finished } j.prepared env
        exact ⟨hDone.table.commit hMem, by rw [hJobs, hBytes, hTails]; exact hDone.tails⟩
      have hJobs := jobs_commitPacket
        (s := { s with pendingNewNodes := s.pendingNewNodes.erase j.uid }) j.prepared env
      rw [commitPacket_jobs (s := { s with
        pendingNewNodes := s.pendingNewNodes.erase j.uid })] at hCommit
      split
      · rename_i t packet route hEq
        rw [hEq] at hCommit hJobs
        have hSame : (t.setStage j.id .finished) =
            { t with jobs := Ingest.setStage s.jobs j.id .finished } := by
          change { t with jobs := Ingest.setStage t.jobs j.id .finished } = _
          rw [hJobs]
        rw [hSame]
        exact hCommit
      · rename_i t uid reason hEq
        rw [hEq] at hCommit hJobs
        have hSame : (t.setStage j.id .finished) =
            { t with jobs := Ingest.setStage s.jobs j.id .finished } := by
          change { t with jobs := Ingest.setStage t.jobs j.id .finished } = _
          rw [hJobs]
        rw [hSame]
        exact hCommit
    · rename_i hStage
      exact (hDone (by simp [hStage])).same ⟨rfl, fun _ hk => hk, rfl, rfl, rfl, rfl⟩
    · exact h

theorem Accounted.settleJob (h : Accounted s) (hInv : Inv R s.core log) (id : Nat) :
    Accounted (s.settleJob id) := by
  unfold State.settleJob
  split
  · exact h
  · rename_i j hj
    obtain ⟨rfl, hHead⟩ := headJob_spec hj
    split
    · exact h
    · rename_i hStage
      rw [not_not] at hStage
      have hKeeps : ∀ k ∈ s.jobs, k.stage ≠ .finished →
          k ∈ s.jobs.filter fun k => k.id ≠ j.id := by
        intro k hk hStage'
        refine mem_filter.mpr ⟨hk, ?_⟩
        have hId : k.id ≠ j.id := fun hId => hStage' (by
          rw [Queue.eq_of_id hInv.queue hk hHead.mem hId]
          exact hStage)
        simpa using hId
      refine ⟨⟨h.table.fits, h.table.links, h.table.places, ?_, ?_, ?_, ?_⟩,
        h.tails.settle hInv.queue hHead⟩
      · exact fun k hk => h.table.awaiting k (mem_of_mem_filter hk)
      · exact fun k hk => h.table.rejected k (mem_of_mem_filter hk)
      · intro uid hu
        obtain ⟨k, hk, hUid, hStage⟩ := h.table.reserved uid hu
        refine ⟨k, hKeeps k hk ?_, hUid, hStage⟩
        rintro hFinished
        rw [hFinished] at hStage
        simp at hStage
      · intro uid hu hMem
        obtain ⟨k, hk, hUid, hStage⟩ := h.table.both uid hu hMem
        exact ⟨k, hKeeps k hk (by simp [hStage]), hUid, hStage⟩

/-! ## The store settles promises -/

/-- A settled promise is one of a job that waits for it. -/
theorem settledStage_queue (hInv : Inv R s.core log) {ps : List Pending}
    (hps : ∀ p ∈ ps, p ∈ s.replay.queue) (e : Option String) {k : Job} (hk : k ∈ s.jobs) :
    k.stage = .awaiting ∧ settledStage (ps.map fun p => ⟨p, e⟩) k =
        (if e.isNone then .persisted else .rejected) ∨
      settledStage (ps.map fun p => ⟨p, e⟩) k = k.stage ∧ k.pending ∉ ps := by
  rw [settledStage_map]
  split
  · rename_i hId
    obtain ⟨p, hp, hId⟩ := mem_map.mp hId
    obtain ⟨k', hk', hStage, rfl⟩ := hInv.pending p (hps p hp)
    obtain rfl := Queue.eq_of_id hInv.queue hk' hk hId
    exact Or.inl ⟨hStage, rfl⟩
  · rename_i hNot
    exact Or.inr ⟨rfl, fun hMem => hNot (mem_map.mpr ⟨_, hMem, rfl⟩)⟩

/-- The store gives up: no write is queued and no job waits for one. -/
theorem Table.rejectAll (h : Table s) (hInv : Inv R s.core log) {replay : ReplayStore}
    {e : String} (hFits : replay.Fits) (hMem : replay.cursors = s.replay.cursors)
    (hFailed : replay.failed = some e) :
    Table { s with
      replay := replay
      jobs := settleJobs s.jobs (s.replay.queue.map fun p => ⟨p, some e⟩) } := by
  have hPlaces : (s.replay.cursors.keys.toFinset ∪ s.pendingNewNodes).card ≤ maxNodes := h.places
  have hStage := fun k hk => settledStage_queue (k := k) hInv (fun _ hp => hp) (some e) hk
  rw [settleJobs_eq]
  refine ⟨hFits, by rw [hMem]; exact h.links, by rw [State.places, hMem]; exact hPlaces, ?_, ?_,
    ?_, ?_⟩
  · intro k' hk' hAwaiting
    obtain ⟨k, hk, rfl⟩ := mem_map.mp hk'
    rcases hStage k hk with ⟨_, hRejected⟩ | ⟨hSame, hNot⟩
    · exact absurd (hRejected.symm.trans hAwaiting) (by simp)
    · exact absurd (h.awaiting k hk (hSame.symm.trans hAwaiting)).2 hNot
  · intro k' _ _ hNone
    rw [show replay.failed = none from hNone] at hFailed
    cases hFailed
  · intro uid hu
    obtain ⟨k, hk, hUid, hOld⟩ := h.reserved uid hu
    refine ⟨_, mem_map.mpr ⟨k, hk, rfl⟩, hUid, ?_⟩
    rcases hStage k hk with ⟨_, hRejected⟩ | ⟨hSame, -⟩
    · exact Or.inr (Or.inr hRejected)
    · dsimp only
      rw [hSame]
      exact hOld
  · intro uid hu hIn
    obtain ⟨k, hk, hUid, hOld⟩ := h.both uid hu (by rw [← hMem]; exact hIn)
    refine ⟨_, mem_map.mpr ⟨k, hk, rfl⟩, hUid, ?_⟩
    rcases hStage k hk with ⟨hAwaiting, _⟩ | ⟨hSame, -⟩
    · rw [hAwaiting] at hOld
      cases hOld
    · exact hSame.trans hOld

/-- A batch is durable: its cursors are in memory and its jobs may be resumed. -/
theorem Table.settleBatch (h : Table s) (hInv : Inv R s.core log) {replay : ReplayStore}
    (hFits : replay.Fits) (hHealthy : s.replay.failed = none)
    (hMem : replay.mem = replayFrom s.replay.mem (batchRecords s.replay.inflight))
    (hQueue : replay.queue = s.replay.pending) :
    Table { s with
      replay := replay
      jobs := settleJobs s.jobs (s.replay.inflight.map fun p => ⟨p, none⟩) } := by
  have hInflight : ∀ p ∈ s.replay.inflight, p ∈ s.replay.queue :=
    fun p hp => mem_append_left _ hp
  have hStage := fun k hk => settledStage_queue (k := k) hInv hInflight none hk
  have hCursors : replay.cursors =
      (replayFrom s.replay.mem (batchRecords s.replay.inflight)).cursors :=
    congrArg ReplaySnapshot.cursors hMem
  have hWithin := h.within hInv
  have hKeys : ∀ k ∈ replay.cursors.keys, k ∈ s.places := by
    rw [hCursors]
    exact keys_replayFrom_batch hWithin.cursors hWithin.inflight
  -- A cursor stays, and a new one is of a job of the batch.
  have hOld : ∀ k, k ∈ s.replay.cursors.keys → k ∈ replay.cursors.keys := by
    intro k hk
    obtain ⟨d, hd⟩ := Option.isSome_iff_exists.mp (has_iff_mem_keys.mpr hk)
    have hNewer : Newer s.replay.mem.cursors (s.replay.inflight ++ s.replay.pending) :=
      hInv.store.newer
    obtain ⟨d', hd', -⟩ := (covers_batch hNewer).1.2 k d hd
    exact mem_keys_of_get (hCursors ▸ hd')
  have hNew : ∀ k, k ∈ replay.cursors.keys → k ∈ s.replay.cursors.keys ∨
      ∃ j ∈ s.jobs, j.uid = k ∧ j.stage = .awaiting ∧ j.pending ∈ s.replay.inflight := by
    intro k hk
    obtain ⟨d, hd⟩ := Option.isSome_iff_exists.mp (has_iff_mem_keys.mpr hk)
    rw [hCursors] at hd
    rcases get_replayFrom_batch hd with hd | ⟨p, hp, hUid, -⟩
    · exact Or.inl (mem_keys_of_get hd)
    · obtain ⟨j, hj, hAwaiting, rfl⟩ := hInv.pending p (hInflight p hp)
      exact Or.inr ⟨j, hj, hUid, hAwaiting, hp⟩
  have hPersisted : ∀ k ∈ s.jobs, k.pending ∈ s.replay.inflight →
      settledStage (s.replay.inflight.map fun p => ⟨p, none⟩) k = .persisted := by
    intro k _ hp
    have hId : k.id ∈ s.replay.inflight.map Pending.ticket := mem_map.mpr ⟨_, hp, rfl⟩
    rw [settledStage_map, if_pos hId]
    rfl
  rw [settleJobs_eq]
  refine ⟨hFits, fun k hk => hOld k (h.links k hk), ?_, ?_, ?_, ?_, ?_⟩
  · refine (Finset.card_le_card fun k hk => ?_).trans h.places
    rcases mem_places.mp hk with hk | hk
    · exact hKeys k hk
    · exact mem_places.mpr (Or.inr hk)
  · intro k' hk' hAwaiting
    obtain ⟨k, hk, rfl⟩ := mem_map.mp hk'
    rcases hStage k hk with ⟨_, hDone⟩ | ⟨hSame, hNot⟩
    · exact absurd (hDone.symm.trans hAwaiting) (by simp)
    · obtain ⟨hPlace, hQueued⟩ := h.awaiting k hk (hSame.symm.trans hAwaiting)
      refine ⟨?_, ?_⟩
      · rcases mem_places.mp hPlace with hPlace | hPlace
        · exact mem_places.mpr (Or.inl (hOld _ hPlace))
        · exact mem_places.mpr (Or.inr hPlace)
      · change k.pending ∈ replay.queue
        rw [hQueue]
        exact (mem_append.mp hQueued).resolve_left hNot
  · intro k' hk' hRejected
    obtain ⟨k, hk, rfl⟩ := mem_map.mp hk'
    rcases hStage k hk with ⟨_, hDone⟩ | ⟨hSame, -⟩
    · exact absurd (hDone.symm.trans hRejected) (by simp)
    · exact absurd hHealthy (h.rejected k hk (hSame.symm.trans hRejected))
  · intro uid hu
    obtain ⟨k, hk, hUid, hBefore⟩ := h.reserved uid hu
    refine ⟨_, mem_map.mpr ⟨k, hk, rfl⟩, hUid, ?_⟩
    rcases hStage k hk with ⟨_, hDone⟩ | ⟨hSame, -⟩
    · exact Or.inr (Or.inl hDone)
    · dsimp only
      rw [hSame]
      exact hBefore
  · intro uid hu hIn
    rcases hNew uid hIn with hIn | ⟨k, hk, hUid, _, hp⟩
    · obtain ⟨k, hk, hUid, hBefore⟩ := h.both uid hu hIn
      refine ⟨_, mem_map.mpr ⟨k, hk, rfl⟩, hUid, ?_⟩
      rcases hStage k hk with ⟨hAwaiting, _⟩ | ⟨hSame, -⟩
      · rw [hAwaiting] at hBefore
        cases hBefore
      · exact hSame.trans hBefore
    · exact ⟨_, mem_map.mpr ⟨k, hk, rfl⟩, hUid, hPersisted k hk hp⟩

theorem tails_settlePromises (h : Tails s.jobs s.durableBytes s.durableTails) (ts : List Settled) :
    Tails (settleJobs s.jobs ts) s.durableBytes s.durableTails := by
  rw [settleJobs_eq]
  exact h.map _

theorem Accounted.timerFires (h : Accounted s) (hInv : Inv R s.core log) (io : Io) :
    Accounted (s.timerFires io) := by
  have hFits := h.table.fits.timerFires hInv.store (h.table.within hInv) h.table.places io
  refine ⟨?_, tails_settlePromises h.tails _⟩
  change Table { s with
    replay := (s.replay.timerFires io).1
    jobs := settleJobs s.jobs (s.replay.timerFires io).2 }
  obtain ⟨hMem, ⟨hNone, hQueue⟩ | ⟨e, _, hFailed, hAll⟩⟩ := s.replay.timerFires_spec io
  · rw [hNone, show settleJobs s.jobs [] = s.jobs by simp [settleJobs]]
    exact h.table.store hFits (congrArg ReplaySnapshot.cursors hMem) hQueue
      ReplayStore.failed_timerFires
  · rw [hAll]
    exact h.table.rejectAll hInv hFits (congrArg ReplaySnapshot.cursors hMem) hFailed

theorem Accounted.syncDone (h : Accounted s) (hInv : Inv R s.core log) (ok : Bool) :
    Accounted (s.syncDone ok) := by
  have hFits := h.table.fits.syncDone ok
  refine ⟨?_, tails_settlePromises h.tails _⟩
  change Table { s with
    replay := (s.replay.syncDone ok).1
    jobs := settleJobs s.jobs (s.replay.syncDone ok).2 }
  rcases s.replay.syncDone_spec ok with ⟨_, hSame⟩ | ⟨hHealthy, _, hMem, hQueue, hAll⟩ |
      ⟨e, hMem, _, hFailed, hAll⟩
  · rw [hSame, show settleJobs s.jobs [] = s.jobs by simp [settleJobs]]
    exact h.table
  · rw [hAll]
    exact h.table.settleBatch hInv hFits hHealthy hMem hQueue
  · rw [hAll]
    exact h.table.rejectAll hInv hFits (congrArg ReplaySnapshot.cursors hMem) hFailed

/-! ## Commands and administration -/

theorem Accounted.allocateCommandSeq (h : Accounted s) (hInv : Inv R s.core log) (now : ℚ)
    (io : Io) : Accounted (s.allocateCommandSeq now io).1 := by
  unfold State.allocateCommandSeq
  dsimp only
  split
  · exact h
  · split
    · rename_i replay e hCommand
      exact ⟨(h.table.command hInv.store (h.table.within hInv) hCommand).1, h.tails⟩
    · rename_i replay hCommand
      have hTable := (h.table.command hInv.store (h.table.within hInv) hCommand).1
      exact ⟨hTable.same ⟨rfl, fun _ hk => hk, rfl, rfl, rfl, rfl⟩, h.tails⟩

/-- A reset happens while nothing is queued, so no place is reserved. -/
theorem Accounted.resetCursor (h : Accounted s) (hInv : Inv R s.core log) (uid : String)
    (io : Io) : Accounted (s.resetCursor uid io).1 := by
  unfold State.resetCursor
  split
  · exact h
  · rename_i hIdle
    rw [not_not] at hIdle
    split
    · exact h
    · have hFits := h.table.fits.reset hInv.store (h.table.within hInv) h.table.places uid io
      split
      · rename_i replay e hReset
        rw [hReset] at hFits
        obtain ⟨hMem, hQueue⟩ := ReplayStore.reset_error hReset
        refine ⟨h.table.store hFits (congrArg ReplaySnapshot.cursors hMem) hQueue fun hNone => ?_,
          h.tails⟩
        exact ReplayStore.failed_reset (by rw [hReset]; exact hNone)
      · rename_i replay saved hReset
        rw [hReset] at hFits
        have hCount : s.durablePackets = s.jobs.length := hInv.count
        have hJobs : s.jobs = [] := length_eq_zero_iff.mp (hCount ▸ hIdle)
        have hReserved : ∀ k, k ∉ s.pendingNewNodes := by
          intro k hk
          obtain ⟨j, hj, -⟩ := h.table.reserved k hk
          rw [hJobs] at hj
          simp at hj
        have hCursors : replay.cursors = s.replay.cursors.delete uid :=
          congrArg ReplaySnapshot.cursors (ReplayStore.reset_ok hReset).2.1
        refine ⟨⟨hFits, fun k hk => ?_, ?_, ?_, ?_, fun k hk => absurd hk (hReserved k),
          fun k hk => absurd hk (hReserved k)⟩, h.tails⟩
        · obtain ⟨hne, hk⟩ := mem_keys_delete_iff.mp hk
          change k ∈ replay.cursors.keys
          rw [hCursors]
          exact mem_keys_delete_iff.mpr ⟨hne, h.table.links k hk⟩
        · refine (Finset.card_le_card fun k hk => ?_).trans h.table.places
          rcases mem_places.mp hk with hk | hk
          · change k ∈ replay.cursors.keys at hk
            rw [hCursors] at hk
            exact mem_places.mpr (Or.inl (mem_keys_delete_iff.mp hk).2)
          · exact mem_places.mpr (Or.inr hk)
        · intro j hj
          rw [show ({ s with replay := replay, links := s.links.delete uid } : State).jobs = []
            from hJobs] at hj
          simp at hj
        · intro j hj
          rw [show ({ s with replay := replay, links := s.links.delete uid } : State).jobs = []
            from hJobs] at hj
          simp at hj

/-- Every event of a running process keeps the account. -/
theorem accounted_step (cfg : Config) (h : Accounted s) (hInv : Inv R s.core log)
    (e : HostEvent) : Accounted (s.step cfg e).1 := by
  cases e with
  | handle msg source env =>
    have hHandle := h.handle hInv cfg.crypto cfg.verify msg source env
    simp only [State.step]
    split <;> rename_i hEq <;> rw [hEq] at hHandle <;> exact hHandle
  | handleDurable msg source env => exact h.handleDurable msg source
  | admitJob id env => exact h.admitJob hInv id
  | resumeJob id env =>
    have hResume := h.resumeJob hInv id env
    simp only [State.step]
    split <;> rename_i hEq <;> rw [hEq] at hResume <;> exact hResume
  | settleJob id => exact h.settleJob hInv id
  | timerFires io => exact h.timerFires hInv io
  | syncDone ok => exact h.syncDone hInv ok
  | allocateCommandSeq now io =>
    have hAllocate := h.allocateCommandSeq hInv now io
    simp only [State.step]
    split <;> rename_i hEq <;> rw [hEq] at hAllocate <;> exact hAllocate
  | resetCursor uid io =>
    have hReset := h.resetCursor hInv uid io
    simp only [State.step]
    split <;> rename_i hEq <;> rw [hEq] at hReset <;> exact hReset
  | dropDirectRoute uid sessionId => exact h.same (same_dropDirectRoute uid sessionId)
  | stop => exact h.same ⟨rfl, fun _ hk => hk, rfl, rfl, rfl, rfl⟩
  | restart io => exact h

end table

end State

/-! ## Runs -/

theorem accounted_new {file : Option JournalFile} {io : CheckpointIo} {s : ReplayStore}
    (hOpen : ReplayStore.openStore file io = .ok s) : (State.new s).Accounted := by
  obtain ⟨hFits, hSize⟩ := ReplayStore.fits_openStore hOpen
  have hCard : (State.new s).places.card ≤ maxNodes :=
    (State.card_places_le _).trans (by simpa [State.new, maxNodes, nodeLimit] using hSize)
  refine ⟨⟨hFits, ?_, hCard, ?_, ?_, ?_, ?_⟩, .empty⟩ <;> simp [State.new, JsMap.keys, JsMap.empty]

def HostAccounted (h : Host) : Prop :=
  HostInv (· ≠ ·) h ∧
    match h.process with
    | .up s => s.Accounted
    | .down disk => nodesOf disk ≤ nodeLimit

theorem accounted_restart {disk : List Record}
    (hDisk : nodesOf disk ≤ nodeLimit) (io : CheckpointIo) :
    match Host.restart disk io with
    | .up s => s.Accounted
    | .down disk => nodesOf disk ≤ nodeLimit := by
  unfold Host.restart
  cases hOpen : ReplayStore.openStore (some (journalFile disk)) io with
  | ok s => exact accounted_new hOpen
  | error e =>
    change nodesOf (diskAfterFailedOpen disk io) ≤ nodeLimit
    unfold diskAfterFailedOpen
    split
    · rename_i m hRead
      unfold nodesOf
      rw [ReplayStore.replay_snapshotRecords]
      exact ReplayStore.size_readReplaySnapshot hRead
    · exact hDisk

theorem hostAccounted_step (cfg : Config) {h : Host} (hAcc : HostAccounted h) (e : HostEvent) :
    HostAccounted (h.step cfg e) := by
  refine ⟨hostInv_step cfg supports_ne hAcc.1 fun _ _ _ _ _ _ _ _ => trivial, ?_⟩
  obtain ⟨process, log⟩ := h
  obtain ⟨⟨_, hProcess⟩, hAcc⟩ := hAcc
  by_cases hRestart : ∃ io, e = .restart io
  · obtain ⟨io, rfl⟩ := hRestart
    cases process with
    | up s =>
      have hDisk : nodesOf s.replay.durable ≤ nodeLimit := hAcc.table.fits.durable
      exact accounted_restart hDisk io
    | down disk => exact accounted_restart hAcc io
  · cases process with
    | up s =>
      have hStep := State.accounted_step cfg hAcc hProcess e
      cases e with
      | restart io => exact absurd ⟨io, rfl⟩ hRestart
      | _ => exact hStep
    | down disk =>
      cases e with
      | restart io => exact absurd ⟨io, rfl⟩ hRestart
      | _ => exact hAcc

theorem table_run (cfg : Config) {file : Option JournalFile} {io : CheckpointIo}
    {s : ReplayStore} (hOpen : ReplayStore.openStore file io = .ok s) (es : List HostEvent) :
    HostAccounted (run (Host.step cfg) (.start s) es) :=
  run_invariant HostAccounted (fun _ e h => hostAccounted_step cfg h e)
    ⟨hostInv_start hOpen, accounted_new hOpen⟩ es

/-- At most 5000 nodes have a place in the table, in every run; cursors and reservations add
up to no more while no job waits to be resumed after its write. The journal is never refused
for its nodes, and the account of queued packets is that of the unfinished jobs. -/
theorem nodes_bounded (cfg : Config) {file : Option JournalFile} {io : CheckpointIo}
    {s : ReplayStore} (hOpen : ReplayStore.openStore file io = .ok s) (es : List HostEvent) :
    readReplaySnapshot (journalFile (run (Host.step cfg) (.start s) es).process.disk) ≠
        .error tooManyNodes ∧
      ∀ t, (run (Host.step cfg) (.start s) es).process = .up t →
        (∀ uid, t.links.has uid = true → t.replay.cursors.has uid = true) ∧
        (t.replay.cursors.keys.toFinset ∪ t.pendingNewNodes).card ≤ 5000 ∧
        ((∀ j ∈ t.jobs, j.stage ≠ .persisted) →
          t.replay.cursors.size + t.pendingNewNodes.card ≤ 5000) ∧
        readReplaySnapshot t.replay.file ≠ .error tooManyNodes ∧
        t.durablePackets = t.jobs.length ∧ t.durablePackets ≤ 4096 ∧
        t.durableBytes = queuedBytes t.jobs ∧ t.durableBytes ≤ 4 * 1024 * 1024 ∧
        ∀ uid, t.durableTails.has uid = true ↔ ∃ j ∈ t.jobs, j.uid = uid := by
  obtain ⟨⟨_, hProcess⟩, hAcc⟩ := table_run cfg hOpen es
  generalize hEq : (run (Host.step cfg) (.start s) es).process = process at hProcess hAcc
  cases process with
  | down disk =>
    refine ⟨?_, by simp⟩
    exact ReplayStore.readable_records (b := true) (fun r hr => (hProcess.1 r hr).1) hAcc
  | up t =>
    obtain ⟨hTable, hTails⟩ := hAcc
    have hStore : t.replay.Inv fun _ => True := hProcess.store
    have hCount : t.durablePackets = t.jobs.length := hProcess.count
    refine ⟨ReplayStore.readable_records (b := true) (fun r hr => (hStore.durableOk r hr).1)
      hTable.fits.durable, ?_⟩
    rintro _ ⟨⟩
    refine ⟨fun uid hu => JsMap.has_iff_mem_keys.mpr (hTable.links uid
      (JsMap.has_iff_mem_keys.mp hu)), hTable.places, fun hIdle => ?_,
      ReplayStore.readable_records (fun r hr => (hStore.journalOk r hr).1) hTable.fits.journal,
      hCount, hCount ▸ hProcess.room, hTails.total, hTails.bound, hTails.has_iff⟩
    have hDisjoint : Disjoint t.replay.cursors.keys.toFinset t.pendingNewNodes := by
      refine Finset.disjoint_left.mpr fun uid hMem hNew => ?_
      obtain ⟨j, hj, _, hStage⟩ := hTable.both uid hNew (List.mem_toFinset.mp hMem)
      exact hIdle j hj hStage
    rw [← State.card_cursors, ← Finset.card_union_of_disjoint hDisjoint]
    exact hTable.places

theorem nodes_bounded_held :
    readReplaySnapshot (journalFile
      (run (Host.step exampleConfig) (.start emptyStore) undisturbedRun).process.disk) ≠
        .error tooManyNodes :=
  (nodes_bounded exampleConfig openStore_empty undisturbedRun).1

/-! ## A table that is full but for one place -/

theorem hexDigit_injective {a b : Nat} (ha : a < 16) (hb : b < 16) (h : hexDigit a = hexDigit b) :
    a = b := by
  have hAll : ∀ a b : Fin 16, hexDigit a = hexDigit b → a = b := by decide +kernel
  have := hAll ⟨a, ha⟩ ⟨b, hb⟩ h
  simpa using this

theorem hexByte_injective {a b : UInt8} (h : hexByte a = hexByte b) : a = b := by
  have ha := a.toNat_lt
  have hb := b.toNat_lt
  simp only [hexByte, List.cons.injEq, and_true] at h
  have hHigh := hexDigit_injective (by omega) (by omega) h.1
  have hLow := hexDigit_injective (by omega) (by omega) h.2
  exact UInt8.toNat_inj.mp (by omega)

/-- One of 65536 nodes. -/
def numberedUid (i : Nat) : String := uidToString [1, 0, 0, 0, UInt8.ofNat (i / 256), UInt8.ofNat i]

theorem numberedUid_injective {i j : Nat} (hi : i < 65536) (hj : j < 65536)
    (h : numberedUid i = numberedUid j) : i = j := by
  have hChars := String.ofList_injective h
  simp only [hexByte, map_cons, map_nil, List.intercalate, List.intersperse,
    flatten_cons, cons_append, nil_append, flatten_nil, List.cons.injEq, true_and, and_true, append_nil] at hChars
  obtain ⟨h₁, h₂, h₃, h₄⟩ := hChars
  have hHigh : UInt8.ofNat (i / 256) = UInt8.ofNat (j / 256) := hexByte_injective (by
    simp only [hexByte, h₁, h₂])
  have hLow : UInt8.ofNat i = UInt8.ofNat j := hexByte_injective (by
    simp only [hexByte, h₃, h₄])
  have hHigh' := congrArg UInt8.toNat hHigh
  have hLow' := congrArg UInt8.toNat hLow
  simp only [UInt8.toNat_ofNat'] at hHigh' hLow'
  omega

/-- A table of `n` nodes. -/
def crowd (n : Nat) (h : n ≤ 4999) : JsMap String Cursor where
  entries := (List.range n).map fun i => (numberedUid i, ⟨1, 1⟩)
  nodup := by
    rw [List.map_map]
    refine (List.nodup_map_iff_inj_on List.nodup_range).mpr fun i hi j hj hEq => ?_
    rw [List.mem_range] at hi hj
    exact numberedUid_injective (by omega) (by omega) hEq

variable {n : Nat}

theorem size_crowd (h : n ≤ 4999) : (crowd n h).size = n := by
  simp [crowd, JsMap.size]

def openedStore (m : JsMap String Cursor) : ReplayStore :=
  { cursors := m, commandSeq := 0, records := 0, pending := [], flushing := none,
    timer := false, failed := none, queued := 0,
    journal := ReplayStore.snapshotRecords ⟨m, 0⟩, torn := false,
    durable := ReplayStore.snapshotRecords ⟨m, 0⟩ }

theorem openStore_crowd (h : n ≤ 4999) :
    ReplayStore.openStore (some (journalFile (ReplayStore.snapshotRecords ⟨crowd n h, 0⟩))) .ok =
      .ok (openedStore (crowd n h)) := by
  have hOk : ∀ r ∈ ReplayStore.snapshotRecords ⟨crowd n h, 0⟩, r.Ok fun _ => True := by
    intro r hr
    rcases mem_cons.mp hr with rfl | hr
    · exact ReplayStore.ok_cmd (Nat.zero_le _)
    · obtain ⟨e, he, rfl⟩ := mem_map.mp hr
      obtain ⟨i, _, rfl⟩ := mem_map.mp he
      refine ReplayStore.ok_cursor ?_ trivial
      simp [ReplayStore.validate, numberedUid, isUid_uidToString, u32Max]
  have hRead := readReplaySnapshot_journalFile (fun r hr => (hOk r hr).1) (by
    rw [ReplayStore.replay_snapshotRecords, size_crowd]
    unfold nodeLimit
    omega)
  have hBytes := journalBytes_le hOk
  have hLength : (ReplayStore.snapshotRecords ⟨crowd n h, 0⟩).length = n + 1 := by
    simp [ReplayStore.snapshotRecords, crowd]
  rw [hLength] at hBytes
  rw [if_neg (by unfold journalLimit; omega), ReplayStore.replay_snapshotRecords] at hRead
  unfold ReplayStore.openStore
  simp only [hRead, bind, Except.bind]
  rfl

theorem get_crowd (h : n ≤ 4999) : (crowd n h).get (otaPacket 1 1).uid = none := by
  cases hGet : (crowd n h).get (otaPacket 1 1).uid with
  | none => rfl
  | some c =>
    exfalso
    obtain ⟨i, _, hEq⟩ := mem_map.mp (get_eq_some_iff.mp hGet)
    have hChars := String.ofList_injective (Prod.ext_iff.mp hEq).1
    simp only [hexByte, map_cons, map_nil, List.intercalate, List.intersperse,
      flatten_cons, cons_append, List.cons.injEq] at hChars
    exact absurd hChars.2.1 (by decide)

/-- A new node's packet is queued, admitted, written and synced, and not yet resumed. -/
def newcomerRun : List HostEvent :=
  [.handleDurable (otaDatagram 1 1) exampleSource exampleEnv, .admitJob 0 exampleEnv,
    .timerFires {}, .syncDone true]

def newcomer (stage : JobStage) : Job :=
  ⟨0, otaDatagram 1 1, ⟨otaPacket 1 1, .udp "10.0.0.7", 0⟩, stage⟩

theorem handleDurable_newcomer (s : ReplayStore) :
    ∃ t, (Host.start s).step exampleConfig
        (.handleDurable (otaDatagram 1 1) exampleSource exampleEnv) = ⟨.up t, []⟩ ∧
      t.replay = s ∧ t.links = .empty ∧ t.pendingNewNodes = ∅ ∧ t.jobs = [newcomer .waiting] := by
  have hParse : parsePacket exampleConfig.crypto (otaDatagram 1 1)
      (verifyFor exampleConfig.verify exampleSource.toRoute) exampleEnv.keysNow =
        .ok (otaPacket 1 1) := by decide +kernel
  have hPrepare : (State.new s).prepare exampleConfig.crypto exampleConfig.verify
      (otaDatagram 1 1) exampleSource exampleEnv =
      ({ State.new s with
        packetTimes := [0]
        bytesInWindow := [(0, 38)] }, .ok (newcomer .waiting).prepared) := by
    unfold prepare
    dsimp only
    rw [hParse]
    simp [exampleSource, Source.toRoute, sessionMismatch, trimWindow, dropOld, windowMs, capped,
      maxSamples, exampleEnv, State.new, otaDatagram, newcomer]
  simp only [Host.step, Host.start, State.step, State.handleDurable, hPrepare]
  exact ⟨_, rfl, rfl, rfl, rfl, rfl⟩

theorem admitJob_newcomer {t : State} {m : JsMap String Cursor}
    (hReplay : t.replay = openedStore m) (hLinks : t.links = .empty)
    (hPending : t.pendingNewNodes = ∅) (hJobs : t.jobs = [newcomer .waiting])
    (hGet : m.get (otaPacket 1 1).uid = none) (hRoom : m.size < 5000) :
    (t.admitJob 0 exampleEnv).pendingNewNodes = {(otaPacket 1 1).uid} ∧
      (t.admitJob 0 exampleEnv).replay =
        { openedStore m with
          queued := 1
          pending := [(newcomer .waiting).pending]
          timer := true } := by
  have hHead : t.headJob 0 = some (newcomer .waiting) := by
    simp [headJob, hJobs, newcomer]
  have hNone : t.cursorOf (otaPacket 1 1).uid = none := by
    simp [cursorOf, hReplay, hLinks, openedStore, hGet]
  have hFree : ¬ (t.links.size + t.pendingNewNodes.card ≥ maxNodes ∨
      t.replay.cursors.size + t.pendingNewNodes.card ≥ maxNodes) := by
    have hEmpty : (JsMap.empty : JsMap String NodeLink).size = 0 := rfl
    have hCursors : (openedStore m).cursors.size = m.size := rfl
    rw [hReplay, hLinks, hPending, hEmpty, hCursors, Finset.card_empty]
    unfold maxNodes
    omega
  have hAdmit : t.admitPacket (newcomer .waiting).prepared exampleEnv = (t, none) := by
    unfold admitPacket
    dsimp only
    rw [show t.cursorOf (newcomer .waiting).prepared.packet.uid = none from hNone]
    dsimp only
    rw [if_neg hFree]
    rfl
  have hNew : (!t.links.has (newcomer .waiting).uid &&
      !t.replay.cursors.has (newcomer .waiting).uid) = true := by
    have hHas : m.has (otaPacket 1 1).uid = false := by rw [JsMap.has, hGet]; rfl
    rw [hReplay, hLinks]
    exact congrArg (fun b => true && !b) hHas
  have hAccept : (openedStore m).acceptAsync (newcomer .waiting).pending =
      ({ openedStore m with
        queued := 1
        pending := [(newcomer .waiting).pending]
        timer := true }, none) := rfl
  unfold admitJob
  rw [hHead]
  dsimp only
  rw [if_neg (by simp [newcomer]), hAdmit]
  dsimp only
  rw [if_pos hNew]
  dsimp only
  rw [hReplay, hAccept]
  refine ⟨?_, rfl⟩
  change insert (otaPacket 1 1).uid t.pendingNewNodes = _
  rw [hPending]
  rfl

theorem newcomer_run {m : JsMap String Cursor} (hGet : m.get (otaPacket 1 1).uid = none)
    (hRoom : m.size < 5000) :
    ∃ t, (run (Host.step exampleConfig) (.start (openedStore m)) newcomerRun).process = .up t ∧
      t.replay.cursors = m.set (otaPacket 1 1).uid ⟨1, 1⟩ ∧
      t.pendingNewNodes = {(otaPacket 1 1).uid} := by
  obtain ⟨t, hStep, hReplay, hLinks, hPending, hJobs⟩ := handleDurable_newcomer (openedStore m)
  obtain ⟨hNodes, hStore⟩ := admitJob_newcomer hReplay hLinks hPending hJobs hGet hRoom
  refine ⟨((t.admitJob 0 exampleEnv).timerFires {}).syncDone true, ?_, ?_, hNodes⟩
  · unfold newcomerRun run
    rw [foldl_cons, hStep]
    rfl
  · simp only [State.syncDone, State.timerFires, State.settlePromises, hStore]
    rfl

/-- The two sizes add up to 5001 when 4999 nodes are known. -/
theorem counted_twice :
    ∃ (file : JournalFile) (s : ReplayStore) (t : State),
      ReplayStore.openStore (some file) .ok = .ok s ∧
      (run (Host.step exampleConfig) (.start s) newcomerRun).process = .up t ∧
      5000 < t.replay.cursors.size + t.pendingNewNodes.card := by
  have hSize := size_crowd (n := 4999) le_rfl
  have hGet := get_crowd (n := 4999) le_rfl
  obtain ⟨t, hRun, hCursors, hNodes⟩ := newcomer_run hGet (by omega)
  refine ⟨_, _, t, openStore_crowd le_rfl, hRun, ?_⟩
  rw [hCursors, hNodes, Finset.card_singleton, JsMap.size_set_new hGet, hSize]
  decide
end TMEdge.Ingest
