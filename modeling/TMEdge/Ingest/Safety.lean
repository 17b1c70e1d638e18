import TMEdge.Ingest.Invariant

/-!
# Replay safety and command numbers over whole runs

Runs of a host: datagrams through `handle` and `handleDurable` in any interleaving of the
jobs and of the store's batches, resets, command numbers, I/O failures and restarts.

* `committed_increasing`: between two resets of a node the packets committed for it have
  increasing cursors, as long as `handle` is not called for a node one of whose queued
  packets has been persisted and not yet committed; and no datagram is committed twice, in
  any run.
* `overtaken_by_handle`: the condition is needed.
* `allocated_increasing`: a command number returned is above every number returned or
  observed before, at most `0xffffffff`, and durable.
* `one_write_at_a_time`: the store never has two packets of one node to write, in any run.
-/

namespace TMEdge.Ingest

open Library Replay Protocol List

/-! ## Entries of one step -/

variable {P : Core → Packet → Prop} {R : Cursor → Cursor → Prop} {c c' : Core} {es log : List Entry}
  {file : Option JournalFile} {io : CheckpointIo} {s : ReplayStore}

theorem CoreStep.parsed (hStep : CoreStep P c es c') (h : Inv R c log) :
    ∀ msg p, Entry.committed msg p ∈ es → Parsed msg p := by
  intro msg p hMem
  cases hStep with
  | direct hP hNew hParsed hAccept hLast hLog =>
    rcases hLog with rfl | rfl
    · simp at hMem
    · simp only [mem_singleton, Entry.committed.injEq] at hMem
      obtain ⟨rfl, rfl⟩ := hMem
      exact hParsed
  | directCommand hP hNew hParsed hAccept hLast hSeq hCommand hLog =>
    rcases hLog with rfl | rfl
    · simp at hMem
    · simp only [mem_singleton, Entry.committed.injEq] at hMem
      obtain ⟨rfl, rfl⟩ := hMem
      exact hParsed
  | commit hHead hLog =>
    rcases hLog with rfl | rfl
    · simp at hMem
    · simp only [mem_singleton, Entry.committed.injEq] at hMem
      obtain ⟨rfl, rfl⟩ := hMem
      exact h.queue.parsed _ hHead.mem
  | _ => simp at hMem

/-- A command number that is returned is above everything acknowledged, and durable. -/
theorem CoreStep.allocated (hStep : CoreStep P c es c') (h : Inv R c log) {n : Nat}
    (hMem : Entry.allocated n ∈ es) :
    es = [.allocated n] ∧ (∀ m, Ack.command m ∈ acksOf log → m < n) ∧ n ≤ u32Max ∧
      Record.cmd n ∈ c'.replay.durable := by
  cases hStep with
  | allocate hSeq hCommand =>
    simp only [mem_singleton, Entry.allocated.injEq] at hMem
    subst hMem
    obtain ⟨hMax, _, _, _, hDurable⟩ := ReplayStore.command_ok hCommand
    have hLe := h.seqLe
    refine ⟨rfl, fun m hm => ?_, hMax, hDurable (by omega)⟩
    have hAck : m ≤ c.replay.commandSeq := h.acks.command m hm
    omega
  | direct hP hNew hParsed hAccept hLast hLog =>
    rcases hLog with rfl | rfl
    · simp at hMem
    · simp at hMem
  | directCommand hP hNew hParsed hAccept hLast hSeq hCommand hLog =>
    rcases hLog with rfl | rfl
    · simp at hMem
    · simp at hMem
  | commit hHead hLog =>
    rcases hLog with rfl | rfl
    · simp at hMem
    · simp at hMem
  | _ => simp at hMem

theorem CoreStep.length_le (hStep : CoreStep P c es c') : es = [] ∨ ∃ e, es = [e] := by
  cases hStep with
  | direct hP hNew hParsed hAccept hLast hLog =>
    exact hLog.imp id fun h => ⟨_, h⟩
  | directCommand hP hNew hParsed hAccept hLast hSeq hCommand hLog =>
    exact hLog.imp id fun h => ⟨_, h⟩
  | commit hHead hLog => exact hLog.imp id fun h => ⟨_, h⟩
  | allocate _ _ => exact Or.inr ⟨_, rfl⟩
  | reset _ _ => exact Or.inr ⟨_, rfl⟩
  | _ => exact Or.inl rfl

/-! ## Restarts -/

theorem read_journalFile {rs : List Record} {m : ReplaySnapshot}
    (h : readReplaySnapshot (journalFile rs) = .ok m) (hValid : ∀ r ∈ rs, r.valid = true) :
    m = replay rs := by
  have hRead := ReplayStore.readReplaySnapshot_ok h
  rw [show (journalFile rs).lines = rs.map fun r => some r.toJson from rfl,
    readLines_toJson hValid] at hRead
  exact (Except.ok.inj hRead).symm

/-- An entry acknowledges only numbers below a number returned later. -/
def Entry.Below : Entry → Entry → Prop
  | e, .allocated n => ∀ m, Ack.command m ∈ e.acks → m < n
  | _, _ => True

/-- What holds of the log of every run. -/
structure LogInv (R : Cursor → Cursor → Prop) (log : List Entry) : Prop where
  parsed : ∀ msg p, Entry.committed msg p ∈ log → Parsed msg p
  ordered : Ordered Entry.cut (Entry.Rel R) log
  below : Ordered (fun _ _ => False) Entry.Below log
  bound : ∀ n, Entry.allocated n ∈ log → n ≤ u32Max

def HostInv (R : Cursor → Cursor → Prop) (h : Host) : Prop :=
  LogInv R h.log ∧
    match h.process with
    | .up s => Inv R s.core h.log
    | .down disk => (∀ r ∈ disk, r.Ok fun _ => True) ∧ Acknowledged (acksOf h.log) (replay disk)

theorem inv_new (hOpen : ReplayStore.openStore file io = .ok s)
    (hAcks : Acknowledged (acksOf log) s.mem) (hOrdered : Ordered Entry.cut (Entry.Rel R) log) :
    Inv R (State.new s).core log := by
  have hStore : s.Inv fun _ => True := ReplayStore.inv_openStore hOpen fun _ _ => trivial
  have hQueue : s.queue = [] := by
    obtain ⟨_, _, _, rfl⟩ := ReplayStore.openStore_ok hOpen
    rfl
  have hEmpty : ∀ p, p ∉ (State.new s).core.replay.queue := by
    intro p hp
    rw [show (State.new s).core.replay.queue = [] from hQueue] at hp
    simp at hp
  refine ⟨hStore, ⟨by simp [State.core, State.new], by simp [State.core, State.new],
    by simp [State.core, State.new], by simp [State.core, State.new]⟩, rfl, Nat.zero_le _,
    fun p hp => absurd hp (hEmpty p), ?_, le_rfl, fun p hp => absurd hp (hEmpty p),
    fun _ => Or.inl le_rfl, hAcks, by simp [State.core, State.new], hOrdered⟩
  rw [show (State.new s).core.replay.queue = [] from hQueue]
  simp

/-- A restart on what is durable recovers everything the log acknowledges. -/
theorem hostInv_restart {disk : List Record} (hLog : LogInv R log)
    (hDisk : ∀ r ∈ disk, r.Ok fun _ => True) (hAcks : Acknowledged (acksOf log) (replay disk))
    (io : CheckpointIo) : HostInv R ⟨Host.restart disk io, log⟩ := by
  have hValid : ∀ r ∈ disk, r.valid = true := fun r hr => (hDisk r hr).1
  unfold Host.restart
  cases hOpen : ReplayStore.openStore (some (journalFile disk)) io with
  | ok s =>
    obtain ⟨m, hRead, _, rfl⟩ := ReplayStore.openStore_ok hOpen
    have hm := read_journalFile (hRead _ rfl) hValid
    refine ⟨hLog, inv_new hOpen ?_ hLog.ordered⟩
    rw [← hm] at hAcks
    exact hAcks
  | error e =>
    refine ⟨hLog, ?_⟩
    change (∀ r ∈ diskAfterFailedOpen disk io, r.Ok fun _ => True) ∧
      Acknowledged (acksOf log) (replay (diskAfterFailedOpen disk io))
    unfold diskAfterFailedOpen
    split
    · rename_i m hRead
      have hm := read_journalFile hRead hValid
      subst hm
      refine ⟨?_, ?_⟩
      · exact ReplayStore.snapshotRecords_replay hDisk
      · rw [ReplayStore.replay_snapshotRecords]
        exact hAcks
    · exact ⟨hDisk, hAcks⟩

/-! ## Runs -/

theorem logInv_coreStep (hS : Supports P R) (hLog : LogInv R log) (h : Inv R c log)
    (hStep : CoreStep P c es c') : LogInv R (log ++ es) := by
  refine ⟨?_, (inv_coreStep hS h hStep).ordered, ?_, ?_⟩
  · intro msg p hMem
    rcases mem_append.mp hMem with hMem | hMem
    · exact hLog.parsed msg p hMem
    · exact hStep.parsed h msg p hMem
  · rcases hStep.length_le with rfl | ⟨e, rfl⟩
    · rw [append_nil]
      exact hLog.below
    · refine ordered_concat hLog.below fun a ha => ?_
      cases e with
      | committed msg p => trivial
      | reset uid => trivial
      | allocated n =>
        intro m hm
        have hAll := (hStep.allocated h (n := n) (by simp)).2.1
        exact hAll m (mem_flatMap.mpr ⟨a, ha.mem, hm⟩)
  · intro n hMem
    rcases mem_append.mp hMem with hMem | hMem
    · exact hLog.bound n hMem
    · exact (hStep.allocated h hMem).2.2.1

theorem hostInv_step (cfg : Config) {P : Core → Packet → Prop} {R : Cursor → Cursor → Prop}
    (hS : Supports P R) {h : Host} {e : HostEvent} (hInv : HostInv R h)
    (hP : ∀ s msg source env, h.process = .up s → e = .handle msg source env →
      ∀ p, Parsed msg p → P s.core p) :
    HostInv R (h.step cfg e) := by
  obtain ⟨process, log⟩ := h
  obtain ⟨hLog, hProcess⟩ := hInv
  by_cases hRestart : ∃ io, e = .restart io
  · obtain ⟨io, rfl⟩ := hRestart
    cases process with
    | up s =>
      exact hostInv_restart hLog hProcess.store.durableOk
        (hProcess.acks.covers hProcess.store.durable) io
    | down disk => exact hostInv_restart hLog hProcess.1 hProcess.2 io
  · cases process with
    | down disk =>
      have hSame : Host.step cfg ⟨.down disk, log⟩ e = ⟨.down disk, log⟩ := by
        cases e with
        | restart io => exact absurd ⟨io, rfl⟩ hRestart
        | _ => rfl
      rw [hSame]
      exact ⟨hLog, hProcess⟩
    | up s =>
      have hStep := coreStep_step cfg (P := P) (s := s) (e := e)
        fun msg source env he => hP s msg source env rfl he
      have hEq : Host.step cfg ⟨.up s, log⟩ e = ⟨.up (s.step cfg e).1, log ++ (s.step cfg e).2⟩ := by
        cases e with
        | restart io => exact absurd ⟨io, rfl⟩ hRestart
        | _ => rfl
      rw [hEq]
      exact ⟨logInv_coreStep hS hLog hProcess hStep, inv_coreStep hS hProcess hStep⟩

theorem hostInv_start (hOpen : ReplayStore.openStore file io = .ok s) : HostInv R (.start s) := by
  refine ⟨⟨by simp [Host.start], ordered_nil, ordered_nil, by simp [Host.start]⟩, ?_⟩
  exact inv_new hOpen ⟨by simp [acksOf, Host.start], fun _ _ h => absurd h since_nil⟩ ordered_nil

theorem supports_ne : Supports (fun _ _ => True) (· ≠ ·) :=
  ⟨fun _ _ h => h.ne, fun _ _ _ _ _ _ _ h => h.ne'⟩

theorem hostInv_run (cfg : Config) (hOpen : ReplayStore.openStore file io = .ok s)
    (es : List HostEvent) : HostInv (· ≠ ·) (run (Host.step cfg) (.start s) es) :=
  run_invariant (HostInv (· ≠ ·))
    (fun _ _ h => hostInv_step cfg supports_ne h fun _ _ _ _ _ _ _ _ => trivial)
    (hostInv_start hOpen) es

/-! ## Replay safety -/

/-- No job of the node the datagram names has been persisted and not yet committed. -/
def Undisturbed (h : Host) : HostEvent → Prop
  | .handle msg _ _ => ∀ j ∈ h.jobs, j.stage = .persisted → j.uid ≠ datagramUid msg
  | _ => True

theorem supports_lt :
    Supports (fun c p => ∀ j ∈ c.jobs, j.stage = .persisted → j.uid ≠ p.uid) (· < ·) :=
  ⟨fun _ _ h => h, fun _ _ hP k hk hStage hUid => absurd hUid.symm (hP k hk hStage)⟩

theorem hostInv_undisturbed (cfg : Config) (hOpen : ReplayStore.openStore file io = .ok s)
    {es : List HostEvent} (hG : Guarded (Host.step cfg) Undisturbed (.start s) es) :
    HostInv (· < ·) (run (Host.step cfg) (.start s) es) := by
  refine run_invariant_guarded (HostInv (· < ·)) (fun h e hInv hU => ?_) (hostInv_start hOpen) hG
  refine hostInv_step cfg supports_lt hInv ?_
  rintro s msg source env hUp rfl p hParsed j hj hStage
  rw [hParsed.uid]
  refine hU j ?_ hStage
  simp only [Host.jobs, hUp]
  exact hj

/-- Between two resets of a node the packets committed for it have increasing `(boot, seq)`
in every run that meets `Undisturbed`; no datagram is committed twice in any run. -/
theorem committed_increasing (cfg : Config) {file : Option JournalFile} {io : CheckpointIo}
    {s : ReplayStore} (hOpen : ReplayStore.openStore file io = .ok s) (es : List HostEvent) :
    (Guarded (Host.step cfg) Undisturbed (.start s) es →
      ∀ pre msg p mid msg' q post, (run (Host.step cfg) (.start s) es).log =
          pre ++ .committed msg p :: (mid ++ .committed msg' q :: post) →
        p.uid = q.uid → Entry.reset p.uid ∉ mid → p.cursor < q.cursor) ∧
    ∀ pre msg p mid msg' q post, (run (Host.step cfg) (.start s) es).log =
        pre ++ .committed msg p :: (mid ++ .committed msg' q :: post) →
      Entry.reset p.uid ∉ mid → msg ≠ msg' := by
  have hCut : ∀ {msg : Buffer} {p : Packet} {mid : List Entry}, Entry.reset p.uid ∉ mid →
      ∀ x ∈ mid, ¬ Entry.cut (.committed msg p) x := by
    intro msg p mid hReset x hx
    cases x with
    | committed _ _ => exact id
    | allocated _ => exact id
    | reset uid =>
      rintro rfl
      exact hReset hx
  refine ⟨?_, ?_⟩
  · intro hG pre msg p mid msg' q post hEq hUid hReset
    exact (hostInv_undisturbed cfg hOpen hG).1.ordered pre _ mid _ post hEq (hCut hReset) hUid
  · rintro pre msg p mid _ q post hEq hReset rfl
    have hInv := (hostInv_run cfg hOpen es).1
    have hp := hInv.parsed msg p (by simp [hEq])
    have hq := hInv.parsed msg q (by simp [hEq])
    refine hInv.ordered pre _ mid _ post hEq (hCut hReset) ?_ ?_
    · rw [hp.uid, hq.uid]
    · rw [hp.cursor, hq.cursor]

/-! ## A packet overtaken by `handle` -/

/-- Plain datagrams without a signature are accepted; no cryptography is involved. -/
def exampleConfig : Config where
  crypto := ⟨fun _ _ => [], fun _ _ _ _ => [], fun _ _ _ _ _ => none⟩
  verify := ⟨[], true, none⟩

/-- An unsigned `OTA_STATUS` of the node `0a:00:00:00:00:<node>`. -/
def otaDatagram (node seq : UInt8) : Buffer :=
  [84, 77, 1, 4, 10, 0, 0, 0, 0, node, 1, 0, seq, 0, 0, 0, 0, 0, 0, 0, 8, 0] ++
    [0, 0, 0, 0, 0, 0, 0, 0] ++ [0, 0, 0, 0, 0, 0, 0, 0]

def exampleEnv : Env := ⟨0, 0, 0, none, true, {}, {}⟩

def exampleSource : Source := .route (.udp "10.0.0.7")

/-- Two nodes share a batch. When the first packet is committed, a listener of its event
passes the next packet of the second node to `handle`; then the second job resumes. -/
def overtakenRun : List HostEvent :=
  [.handleDurable (otaDatagram 1 1) exampleSource exampleEnv,
    .handleDurable (otaDatagram 2 1) exampleSource exampleEnv,
    .admitJob 0 exampleEnv, .admitJob 1 exampleEnv, .timerFires {}, .syncDone true,
    .resumeJob 0 exampleEnv, .handle (otaDatagram 2 2) exampleSource exampleEnv,
    .resumeJob 1 exampleEnv]

def otaPacket (node seq : UInt8) : Packet where
  header := ⟨4, uidToString [10, 0, 0, 0, 0, node], 1, seq.toNat, 0, false, none⟩
  body := .ota ⟨.idle, 0, .none, "00000000"⟩

/-- The second node's packets are committed in the order 2, 1. -/
theorem overtaken_by_handle :
    (run (Host.step exampleConfig) (.start emptyStore) overtakenRun).log =
      [.committed (otaDatagram 1 1) (otaPacket 1 1)] ++
        .committed (otaDatagram 2 2) (otaPacket 2 2) ::
          ([] ++ .committed (otaDatagram 2 1) (otaPacket 2 1) :: []) ∧
    (otaPacket 2 2).uid = (otaPacket 2 1).uid ∧ Entry.reset (otaPacket 2 2).uid ∉ ([] : List Entry) ∧
    ¬ (otaPacket 2 2).cursor < (otaPacket 2 1).cursor := by
  refine ⟨by decide +kernel, rfl, by simp, by decide⟩

/-- A packet through the queue, one through `handle` and, after a restart, a third; the
second is offered again and refused. -/
def undisturbedRun : List HostEvent :=
  [.handleDurable (otaDatagram 2 1) exampleSource exampleEnv, .admitJob 0 exampleEnv,
    .timerFires {}, .syncDone true, .resumeJob 0 exampleEnv, .settleJob 0,
    .handle (otaDatagram 2 2) exampleSource exampleEnv, .restart .ok,
    .handle (otaDatagram 2 2) exampleSource exampleEnv,
    .handle (otaDatagram 2 3) exampleSource exampleEnv]

theorem undisturbedRun_increasing :
    (run (Host.step exampleConfig) (.start emptyStore) undisturbedRun).log =
      [] ++ .committed (otaDatagram 2 1) (otaPacket 2 1) ::
        ([.committed (otaDatagram 2 2) (otaPacket 2 2)] ++
          .committed (otaDatagram 2 3) (otaPacket 2 3) :: []) ∧
    (otaPacket 2 1).cursor < (otaPacket 2 3).cursor ∧ otaDatagram 2 1 ≠ otaDatagram 2 3 := by
  have hLog : (run (Host.step exampleConfig) (.start emptyStore) undisturbedRun).log =
      [] ++ .committed (otaDatagram 2 1) (otaPacket 2 1) ::
        ([.committed (otaDatagram 2 2) (otaPacket 2 2)] ++
          .committed (otaDatagram 2 3) (otaPacket 2 3) :: []) := by decide +kernel
  have hG : Guarded (Host.step exampleConfig) Undisturbed (.start emptyStore) undisturbedRun := by
    refine ⟨trivial, trivial, trivial, trivial, trivial, trivial, ?_, trivial, ?_, ?_, trivial⟩
    · change ∀ j ∈ Host.jobs _, _
      decide +kernel
    · change ∀ j ∈ Host.jobs _, _
      decide +kernel
    · change ∀ j ∈ Host.jobs _, _
      decide +kernel
  have hSafe := committed_increasing exampleConfig openStore_empty undisturbedRun
  exact ⟨hLog, hSafe.1 hG _ _ _ _ _ _ _ hLog rfl (by simp), hSafe.2 _ _ _ _ _ _ _ hLog (by simp)⟩

/-! ## Command numbers -/

/-- Every command number returned is above each number returned before it and each `lastCmd`
committed before it, is at most `0xffffffff`, and its record is durable when it is
returned. -/
theorem allocated_increasing (cfg : Config) {file : Option JournalFile} {io : CheckpointIo}
    {s : ReplayStore} (hOpen : ReplayStore.openStore file io = .ok s) (es : List HostEvent) :
    (∀ pre seq post, (run (Host.step cfg) (.start s) es).log = pre ++ .allocated seq :: post →
      (∀ n, Entry.allocated n ∈ pre → n < seq) ∧
      (∀ msg p n, Entry.committed msg p ∈ pre → p.lastCmd = some n → n < seq) ∧
      seq ≤ 0xffffffff) ∧
    ∀ e seq, ((run (Host.step cfg) (.start s) es).step cfg e).log =
        (run (Host.step cfg) (.start s) es).log ++ [.allocated seq] →
      Record.cmd seq ∈ ((run (Host.step cfg) (.start s) es).step cfg e).process.disk := by
  have hInv := hostInv_run cfg hOpen es
  generalize run (Host.step cfg) (.start s) es = h at hInv
  refine ⟨?_, ?_⟩
  · intro pre seq post hEq
    -- What stands before the number in the log acknowledges only smaller ones.
    have hBelow : ∀ e ∈ pre, ∀ m, Ack.command m ∈ e.acks → m < seq := by
      intro e he m hm
      obtain ⟨a, b, rfl⟩ := List.append_of_mem he
      exact hInv.1.below a e b (.allocated seq) post (by simp [hEq]) (by simp) m hm
    refine ⟨?_, ?_, hInv.1.bound seq (by simp [hEq])⟩
    · exact fun n hn => hBelow _ hn n (by simp [Entry.acks])
    · exact fun msg p n hp hn => hBelow _ hp n (by simp [Entry.acks, hn])
  · intro e seq hEq
    obtain ⟨process, log⟩ := h
    have hLogOf : ∀ {p : Process}, Host.step cfg ⟨process, log⟩ e = ⟨p, log⟩ → False := by
      intro p hp
      rw [hp] at hEq
      simp at hEq
    cases process with
    | down disk =>
      exfalso
      cases e with
      | restart io => exact hLogOf rfl
      | _ => exact hLogOf rfl
    | up t =>
      have hStep := coreStep_step cfg (P := fun _ _ => True) (s := t) (e := e)
        fun _ _ _ _ _ _ => trivial
      have hUp : Host.step cfg ⟨.up t, log⟩ e = ⟨.up (t.step cfg e).1, log ++ (t.step cfg e).2⟩ := by
        cases e with
        | restart io => exact (hLogOf rfl).elim
        | _ => rfl
      rw [hUp] at hEq ⊢
      have hEntry : (t.step cfg e).2 = [.allocated seq] := List.append_cancel_left hEq
      rw [hEntry] at hStep
      exact (hStep.allocated hInv.2 (by simp)).2.2.2

/-- Two numbers, a crash between them, and a clock that moved back. -/
theorem allocated_after_restart :
    (run (Host.step exampleConfig) (.start emptyStore)
      [.allocateCommandSeq 5000 {}, .restart .ok, .allocateCommandSeq 0 {}]).log =
      [.allocated 5] ++ .allocated 6 :: [] ∧ 5 < 6 := by
  have hLog : (run (Host.step exampleConfig) (.start emptyStore)
      [.allocateCommandSeq 5000 {}, .restart .ok, .allocateCommandSeq 0 {}]).log =
      [.allocated 5] ++ .allocated 6 :: [] := by decide +kernel
  have hSeq := (allocated_increasing exampleConfig openStore_empty
    [.allocateCommandSeq 5000 {}, .restart .ok, .allocateCommandSeq 0 {}]).1 _ _ _ hLog
  exact ⟨hLog, hSeq.1 5 (by simp)⟩

/-! ## One write of a node at a time -/

/-- What the store has yet to write, of which a part may be on its way to the disk. -/
def Host.writes (h : Host) : List Pending :=
  match h.process with
  | .up s => s.replay.queue
  | .down _ => []

/-- In every run only the oldest job of a node is past `waiting`, what the store has yet to write
are the packets of such jobs, and no two of them are of one node. -/
theorem one_write_at_a_time (cfg : Config) {file : Option JournalFile} {io : CheckpointIo}
    {s : ReplayStore} (hOpen : ReplayStore.openStore file io = .ok s) (es : List HostEvent) :
    let h := run (Host.step cfg) (.start s) es
    (∀ pre j post, h.jobs = pre ++ j :: post → j.stage ≠ .waiting → ∀ k ∈ pre, k.uid ≠ j.uid) ∧
    (∀ p ∈ h.writes, ∃ j ∈ h.jobs, j.stage = .awaiting ∧ p = j.pending) ∧
    h.writes.Pairwise fun p q => p.uid ≠ q.uid := by
  intro h
  have hInv : HostInv (· ≠ ·) h := hostInv_run cfg hOpen es
  generalize h = h at hInv
  obtain ⟨t | disk, log⟩ := h
  · have hQueue := hInv.2.queue
    have hPending := hInv.2.pending
    refine ⟨fun pre j post hJobs hStage k hk hUid => ?_, hPending, ?_⟩
    · change t.jobs = _ at hJobs
      have hFirst := hQueue.head j (by change j ∈ t.jobs; rw [hJobs]; simp) hStage
      have hFound : (pre.find? fun k => k.uid == j.uid).isSome = true :=
        find?_isSome.mpr ⟨k, hk, by simpa using hUid⟩
      obtain ⟨k', hk'⟩ := Option.isSome_iff_exists.mp hFound
      change t.jobs.find? _ = _ at hFirst
      rw [hJobs, find?_append, hk', Option.some_or] at hFirst
      obtain rfl := Option.some.inj hFirst
      have hIds := hQueue.ids
      change (t.jobs.map Job.id).Nodup at hIds
      rw [hJobs] at hIds
      exact (nodup_append.mp (Nodup.of_map _ hIds)).2.2 _ (mem_of_find?_eq_some hk') _
        mem_cons_self rfl
    · refine (pairwise_map.mp hInv.2.tickets).imp_of_mem fun hp hq hTicket hUid => hTicket ?_
      obtain ⟨j, hj, hStage, rfl⟩ := hPending _ hp
      obtain ⟨k, hk, hStage', rfl⟩ := hPending _ hq
      have hFirst := hQueue.head j hj (by rw [hStage]; decide)
      have hFirst' := hQueue.head k hk (by rw [hStage']; decide)
      rw [show j.uid = k.uid from hUid, hFirst'] at hFirst
      rw [Option.some.inj hFirst]
  · exact ⟨fun pre j post hJobs => absurd hJobs (by simp [Host.jobs]), by rintro _ ⟨⟩, .nil⟩

/-- Two nodes, of which the second has sent two packets. -/
theorem one_write_of_three :
    (run (Host.step exampleConfig) (.start emptyStore)
      [.handleDurable (otaDatagram 1 1) exampleSource exampleEnv,
        .handleDurable (otaDatagram 2 1) exampleSource exampleEnv,
        .handleDurable (otaDatagram 2 2) exampleSource exampleEnv, .admitJob 0 exampleEnv,
        .admitJob 1 exampleEnv, .admitJob 2 exampleEnv]).writes.Pairwise
      fun p q => p.uid ≠ q.uid :=
  (one_write_at_a_time exampleConfig openStore_empty _).2.2

end TMEdge.Ingest
