import TMEdge.Ingest.Host

/-!
# What a step of `Ingest` does to the replay state

Most of `Ingest` is bookkeeping: links, counters, rejected sources. `Core` is the rest, the
store, the command number and the queued jobs, and `CoreStep` says once everything one
event can do to it. The properties of whole runs are proved from `CoreStep` alone;
`coreStep_step` connects it to the functions of the model.

`CoreStep` has a parameter `P`, a condition under which a packet of `handle` may be
persisted; it is `True` for arbitrary runs.
-/

namespace TMEdge.Ingest

open Library Replay Protocol

structure Core where
  replay : ReplayStore
  lastCommandSeq : Nat
  jobs : List Job
  durablePackets : Nat
  nextJob : Nat

def State.core (s : State) : Core :=
  ⟨s.replay, s.lastCommandSeq, s.jobs, s.durablePackets, s.nextJob⟩

def setStage (jobs : List Job) (id : Nat) (stage : JobStage) : List Job :=
  jobs.map fun j => if j.id = id then { j with stage := stage } else j

def settleJobs (jobs : List Job) (ts : List Settled) : List Job :=
  jobs.map fun j =>
    match ts.find? fun t => t.pending.ticket == j.id with
    | some t => { j with stage := if t.error.isNone then .persisted else .rejected }
    | none => j

/-- `j` is in the queue, at `stage`, and the oldest job of its node. -/
structure Head (jobs : List Job) (j : Job) (stage : JobStage) : Prop where
  mem : j ∈ jobs
  stage : j.stage = stage
  first : ∃ k, jobs.find? (fun k => k.uid == j.uid) = some k ∧ k.id = j.id

/-- A packet read from a datagram. -/
structure Parsed (msg : Buffer) (p : Packet) : Prop where
  wf : p.Wf
  uid : p.uid = datagramUid msg
  cursor : p.cursor = datagramCursor msg

/-- The packet is newer than the saved cursor of its node. -/
def Newest (c : Core) (p : Packet) : Prop :=
  ∀ d, c.replay.cursors.get p.uid = some d → d < p.cursor

/-- The command number after a packet has been observed. -/
def observe (last : Nat) : Option Nat → Nat
  | some n => max last n
  | none => last

inductive CoreStep (P : Core → Packet → Prop) : Core → List Entry → Core → Prop
  | idle (c : Core) : CoreStep P c [] c
  | acceptFails {c : Core} {p : Packet} {io : Io} {replay : ReplayStore} {e : String}
      (hNew : Newest c p) (hWf : p.Wf)
      (hAccept : c.replay.accept p.uid p.cursor io = (replay, some e)) :
      CoreStep P c [] { c with replay := replay }
  | commandFails {c : Core} {p : Packet} {io io' : Io} {replay replay' : ReplayStore} {n : Nat}
      {e : String} (hP : P c p) (hNew : Newest c p) (hWf : p.Wf)
      (hAccept : c.replay.accept p.uid p.cursor io = (replay, none))
      (hCommand : replay.command n io' = (replay', some e)) :
      CoreStep P c [] { c with replay := replay' }
  | direct {c : Core} {msg : Buffer} {p : Packet} {io : Io} {replay : ReplayStore}
      {es : List Entry} (hP : P c p) (hNew : Newest c p) (hParsed : Parsed msg p)
      (hAccept : c.replay.accept p.uid p.cursor io = (replay, none))
      (hLast : ∀ n, p.lastCmd = some n → n ≤ c.lastCommandSeq)
      (hLog : es = [] ∨ es = [.committed msg p]) :
      CoreStep P c es { c with replay := replay }
  | directCommand {c : Core} {msg : Buffer} {p : Packet} {io io' : Io}
      {replay replay' : ReplayStore} {n : Nat} {es : List Entry} (hP : P c p)
      (hNew : Newest c p) (hParsed : Parsed msg p)
      (hAccept : c.replay.accept p.uid p.cursor io = (replay, none))
      (hLast : p.lastCmd = some n) (hSeq : c.lastCommandSeq < n)
      (hCommand : replay.command n io' = (replay', none))
      (hLog : es = [] ∨ es = [.committed msg p]) :
      CoreStep P c es
        { c with
          replay := replay'
          lastCommandSeq := n }
  | queue {c : Core} {msg : Buffer} {p : PreparedPacket} (hParsed : Parsed msg p.packet)
      (hRoom : c.durablePackets < maxDurablePackets) :
      CoreStep P c []
        { c with
          jobs := c.jobs ++ [⟨c.nextJob, msg, p, .waiting⟩]
          durablePackets := c.durablePackets + 1
          nextJob := c.nextJob + 1 }
  | refuse {c : Core} {j : Job} (hHead : Head c.jobs j .waiting) :
      CoreStep P c [] { c with jobs := setStage c.jobs j.id .finished }
  | admitted {c : Core} {j : Job} {replay : ReplayStore} {e : Option String}
      (hHead : Head c.jobs j .waiting) (hNew : Newest c j.prepared.packet)
      (hAccept : c.replay.acceptAsync j.pending = (replay, e)) :
      CoreStep P c []
        { c with
          replay := replay
          lastCommandSeq := observe c.lastCommandSeq j.prepared.packet.lastCmd
          jobs := setStage c.jobs j.id (if e.isNone then .awaiting else .rejected) }
  | commit {c : Core} {j : Job} {es : List Entry} (hHead : Head c.jobs j .persisted)
      (hLog : es = [] ∨ es = [.committed j.msg j.prepared.packet]) :
      CoreStep P c es { c with jobs := setStage c.jobs j.id .finished }
  | drop {c : Core} {j : Job} (hHead : Head c.jobs j .rejected) :
      CoreStep P c [] { c with jobs := setStage c.jobs j.id .finished }
  | settle {c : Core} {j : Job} (hHead : Head c.jobs j .finished) :
      CoreStep P c []
        { c with
          jobs := c.jobs.filter fun k => k.id ≠ j.id
          durablePackets := c.durablePackets - 1 }
  | timer {c : Core} (io : Io) :
      CoreStep P c []
        { c with
          replay := (c.replay.timerFires io).1
          jobs := settleJobs c.jobs (c.replay.timerFires io).2 }
  | sync {c : Core} (ok : Bool) :
      CoreStep P c []
        { c with
          replay := (c.replay.syncDone ok).1
          jobs := settleJobs c.jobs (c.replay.syncDone ok).2 }
  | allocateFails {c : Core} {n : Nat} {io : Io} {replay : ReplayStore} {e : String}
      (hCommand : c.replay.command n io = (replay, some e)) :
      CoreStep P c [] { c with replay := replay }
  | allocate {c : Core} {n : Nat} {io : Io} {replay : ReplayStore} (hSeq : c.lastCommandSeq < n)
      (hCommand : c.replay.command n io = (replay, none)) :
      CoreStep P c [.allocated n]
        { c with
          replay := replay
          lastCommandSeq := n }
  | resetFails {c : Core} {uid : String} {io : Io} {replay : ReplayStore} {e : String}
      (hReset : c.replay.reset uid io = (replay, .error e)) :
      CoreStep P c [] { c with replay := replay }
  | reset {c : Core} {uid : String} {io : Io} {replay : ReplayStore} {b : Bool}
      (hIdle : c.durablePackets = 0) (hReset : c.replay.reset uid io = (replay, .ok b)) :
      CoreStep P c [.reset uid] { c with replay := replay }

/-! ## The bookkeeping leaves the core alone -/

namespace State

@[simp] theorem core_reject (s : State) (now : ℚ) (address : String) (uid : Option String)
    (reason : String) : (s.reject now address uid reason).1.core = s.core := rfl

@[simp] theorem core_countRejected (s : State) (uid : String) :
    (s.countRejected uid).core = s.core := by
  unfold countRejected
  split <;> rfl

@[simp] theorem core_setStage (s : State) (id : Nat) (stage : JobStage) :
    (s.setStage id stage).core = { s.core with jobs := Ingest.setStage s.jobs id stage } := rfl

variable {crypto : Crypto} {verify : VerifyOptions} {s t : State} {msg : Buffer} {source : Source}
  {env : Env} {p : PreparedPacket} {P : Core → Packet → Prop}

theorem prepare_core : (s.prepare crypto verify msg source env).1.core = s.core := by
  unfold prepare
  dsimp only
  split
  · rfl
  · split
    · rfl
    · split <;> rfl

theorem prepare_ok (h : s.prepare crypto verify msg source env = (t, .ok p)) :
    t.core = s.core ∧ Parsed msg p.packet := by
  have hCore : (s.prepare crypto verify msg source env).1.core = s.core := prepare_core
  rw [h] at hCore
  refine ⟨hCore, ?_⟩
  unfold prepare at h
  dsimp only at h
  split at h
  · cases h
  · rename_i packet hParse
    split at h
    · cases h
    · split at h
      · cases h
      · cases h
        obtain ⟨hUid, hCursor⟩ := parsePacket_cursor hParse
        exact ⟨parsePacket_wf hParse, hUid, hCursor⟩

/-- The cursor a packet is checked against is at least the saved one. -/
theorem le_cursorOf {uid : String} {d : Cursor} (h : s.replay.cursors.get uid = some d) :
    ∃ c, s.cursorOf uid = some c ∧ d ≤ c := by
  unfold cursorOf
  rw [h]
  cases s.links.get uid with
  | none => exact ⟨d, rfl, le_rfl⟩
  | some link =>
    by_cases hLt : link.cursor < d
    · exact ⟨d, by simp [hLt], le_rfl⟩
    · exact ⟨link.cursor, by simp [hLt], not_lt.mp hLt⟩

theorem admitPacket_core : (s.admitPacket p env).1.core = s.core := by
  unfold admitPacket
  dsimp only
  split
  · split
    · simp
    · split <;> simp
  · split
    · simp
    · split <;> simp

theorem admitPacket_none (h : s.admitPacket p env = (t, none)) :
    t = s ∧ Newest s.core p.packet := by
  unfold admitPacket at h
  dsimp only at h
  split at h
  · rename_i cursor hCursor
    split at h
    · cases h
    · rename_i hNew
      split at h
      · cases h
      · cases h
        refine ⟨rfl, fun d hd => ?_⟩
        obtain ⟨c, hc, hle⟩ := le_cursorOf hd
        rw [hCursor] at hc
        cases hc
        exact hle.trans_lt (not_le.mp hNew)
  · rename_i hCursor
    have hNone : Newest s.core p.packet := by
      intro d hd
      obtain ⟨c, hc, _⟩ := le_cursorOf hd
      rw [hCursor] at hc
      cases hc
    split at h
    · cases h
    · split at h
      · cases h
      · cases h
        exact ⟨rfl, hNone⟩

theorem commitPacket_core : (s.commitPacket p env).1.core = s.core := by
  unfold commitPacket
  dsimp only
  split <;> rfl

theorem commitPacket_ok {packet : Packet} {route : Route}
    (h : s.commitPacket p env = (t, .ok packet route)) : packet = p.packet := by
  unfold commitPacket at h
  dsimp only at h
  split at h
  · cases h
  · cases h
    rfl

/-! ## One lemma per event -/

/-- `persist` on a packet that was admitted. -/
theorem persist_cases (s : State) (p : PreparedPacket) (env : Env) :
    (∃ replay e, s.replay.accept p.packet.uid p.packet.cursor env.acceptIo = (replay, some e) ∧
      s.persist p env = ({ s with replay := replay }, some e)) ∨
    (∃ replay, s.replay.accept p.packet.uid p.packet.cursor env.acceptIo = (replay, none) ∧
      (((∀ n, p.packet.lastCmd = some n → n ≤ s.lastCommandSeq) ∧
          s.persist p env = ({ s with replay := replay }, none)) ∨
        (∃ n replay' e, replay.command n env.commandIo = (replay', some e) ∧
          s.persist p env = ({ s with replay := replay' }, some e)) ∨
        (∃ n replay', p.packet.lastCmd = some n ∧ s.lastCommandSeq < n ∧
          replay.command n env.commandIo = (replay', none) ∧
          s.persist p env =
            ({ s with
                replay := replay'
                lastCommandSeq := n }, none)))) := by
  unfold persist
  cases hAccept : s.replay.accept p.packet.uid p.packet.cursor env.acceptIo with
  | mk replay err =>
    cases err with
    | some e => exact Or.inl ⟨replay, e, rfl, rfl⟩
    | none =>
      refine Or.inr ⟨replay, rfl, ?_⟩
      cases hLast : p.packet.lastCmd with
      | none => exact Or.inl ⟨by simp, rfl⟩
      | some n =>
        by_cases hn : n ≤ s.lastCommandSeq
        · exact Or.inl ⟨by simpa using hn, by simp [hn]⟩
        · refine Or.inr ?_
          simp only [hn, if_false]
          cases hCommand : replay.command n env.commandIo with
          | mk replay' err =>
            cases err with
            | some e => exact Or.inl ⟨n, replay', e, hCommand, rfl⟩
            | none => exact Or.inr ⟨n, replay', rfl, not_le.mp hn, hCommand, rfl⟩

/-- A committed or refused packet, as a log. -/
def logOf (msg : Buffer) : IngestResult → List Entry
  | .ok packet _ => [.committed msg packet]
  | .refused _ _ => []

theorem commitPacket_log (s : State) (msg : Buffer) (p : PreparedPacket) (env : Env) :
    logOf msg (s.commitPacket p env).2 = [] ∨
      logOf msg (s.commitPacket p env).2 = [.committed msg p.packet] := by
  cases hc : s.commitPacket p env with
  | mk t r =>
    cases r with
    | refused uid reason => exact Or.inl rfl
    | ok packet route =>
      rw [commitPacket_ok hc]
      exact Or.inr rfl

theorem coreStep_handle (hP : ∀ p, Parsed msg p → P s.core p) :
    CoreStep P s.core (logOf msg (s.handle crypto verify msg source env).2)
      (s.handle crypto verify msg source env).1.core := by
  unfold handle
  split
  · rename_i t r hPrep
    have hCore : (s.prepare crypto verify msg source env).1.core = s.core := prepare_core
    rw [hPrep] at hCore
    have hRefused : logOf msg r = [] := by
      unfold prepare at hPrep
      dsimp only at hPrep
      split at hPrep
      · cases hPrep
        rfl
      · split at hPrep
        · cases hPrep
          rfl
        · split at hPrep
          · cases hPrep
            rfl
          · cases hPrep
    rw [hRefused]
    dsimp only at hCore ⊢
    rw [hCore]
    exact .idle _
  · rename_i t p hPrep
    obtain ⟨hCore, hParsed⟩ := prepare_ok hPrep
    split
    · rename_i t' r hAdmit
      have hCore' : (t.admitPacket p env).1.core = t.core := admitPacket_core
      rw [hAdmit] at hCore'
      have hRefused : logOf msg r = [] := by
        unfold admitPacket at hAdmit
        dsimp only at hAdmit
        split at hAdmit
        · split at hAdmit
          · cases hAdmit
            rfl
          · split at hAdmit
            · cases hAdmit
              rfl
            · cases hAdmit
        · split at hAdmit
          · cases hAdmit
            rfl
          · split at hAdmit
            · cases hAdmit
              rfl
            · cases hAdmit
      rw [hRefused]
      dsimp only at hCore' ⊢
      rw [hCore', hCore]
      exact .idle _
    · rename_i t' hAdmit
      obtain ⟨rfl, hNew⟩ := admitPacket_none hAdmit
      rw [hCore] at hNew
      have hReplay : t'.replay = s.replay := congrArg Core.replay hCore
      have hSeq : t'.lastCommandSeq = s.lastCommandSeq := congrArg Core.lastCommandSeq hCore
      have hWith : ∀ replay last, Core.mk replay last t'.jobs t'.durablePackets t'.nextJob =
          { s.core with
            replay := replay
            lastCommandSeq := last } := by
        intro replay last
        rw [← hCore]
        rfl
      rcases t'.persist_cases p env with ⟨replay, e, hAccept, hEq⟩ | ⟨replay, hAccept,
          ⟨hLast, hEq⟩ | ⟨n, replay', e, hCommand, hEq⟩ | ⟨n, replay', hLast, hn, hCommand, hEq⟩⟩
      · rw [hEq]
        rw [hReplay] at hAccept
        change CoreStep P s.core [] (Core.mk replay t'.lastCommandSeq t'.jobs t'.durablePackets
          t'.nextJob)
        rw [hWith, hSeq]
        exact .acceptFails hNew hParsed.wf hAccept
      · rw [hEq]
        rw [hReplay] at hAccept
        rw [hSeq] at hLast
        dsimp only
        rw [commitPacket_core]
        change CoreStep P s.core _ (Core.mk replay t'.lastCommandSeq t'.jobs t'.durablePackets
          t'.nextJob)
        rw [hWith, hSeq]
        exact .direct (hP _ hParsed) hNew hParsed hAccept hLast (commitPacket_log _ _ _ _)
      · rw [hEq]
        rw [hReplay] at hAccept
        change CoreStep P s.core [] (Core.mk replay' t'.lastCommandSeq t'.jobs t'.durablePackets
          t'.nextJob)
        rw [hWith, hSeq]
        exact .commandFails (hP _ hParsed) hNew hParsed.wf hAccept hCommand
      · rw [hEq]
        rw [hReplay] at hAccept
        rw [hSeq] at hn
        dsimp only
        rw [commitPacket_core]
        change CoreStep P s.core _ (Core.mk replay' n t'.jobs t'.durablePackets t'.nextJob)
        rw [hWith]
        exact .directCommand (hP _ hParsed) hNew hParsed hAccept hLast hn hCommand
          (commitPacket_log _ _ _ _)

theorem coreStep_handleDurable :
    CoreStep P s.core [] (s.handleDurable crypto verify msg source env).1.core := by
  unfold handleDurable
  split
  · rename_i t r hPrep
    have hCore : (s.prepare crypto verify msg source env).1.core = s.core := prepare_core
    rw [hPrep] at hCore
    dsimp only at hCore ⊢
    rw [hCore]
    exact .idle _
  · rename_i t p hPrep
    obtain ⟨hCore, hParsed⟩ := prepare_ok hPrep
    split
    · dsimp only
      rw [core_reject, hCore]
      exact .idle _
    · rename_i hFull
      rw [not_or, not_le] at hFull
      have hRoom : s.core.durablePackets < maxDurablePackets := by
        rw [← hCore]
        exact hFull.1
      have hEq := CoreStep.queue (P := P) (c := s.core) hParsed hRoom
      rw [← hCore] at hEq ⊢
      exact hEq

theorem headJob_spec {id : Nat} {j : Job} (h : s.headJob id = some j) :
    j.id = id ∧ Head s.jobs j j.stage := by
  simp only [headJob, Option.bind_eq_bind, Option.bind_eq_some_iff] at h
  obtain ⟨k, hFind, first, hFirst, hIf⟩ := h
  split at hIf
  · rename_i hId
    cases hIf
    have hj : j.id = id := by simpa using List.find?_some hFind
    exact ⟨hj, List.mem_of_find?_eq_some hFind, rfl, first, hFirst, by omega⟩
  · cases hIf

theorem coreStep_admitJob (id : Nat) : CoreStep P s.core [] (s.admitJob id env).core := by
  unfold admitJob
  split
  · exact .idle _
  · rename_i j hj
    obtain ⟨rfl, hHead⟩ := headJob_spec hj
    split
    · exact .idle _
    · rename_i hStage
      rw [not_not] at hStage
      rw [hStage] at hHead
      split
      · rename_i t r hAdmit
        have hCore : (s.admitPacket j.prepared env).1.core = s.core := admitPacket_core
        rw [hAdmit] at hCore
        have hJobs : t.jobs = s.jobs := congrArg Core.jobs hCore
        dsimp only at hCore
        rw [core_setStage, hCore, hJobs]
        exact .refuse hHead
      · rename_i t hAdmit
        obtain ⟨rfl, hNew⟩ := admitPacket_none hAdmit
        -- Reserving a place for a new node is not part of the core.
        have hReserve : ∀ b : Bool,
            (if b then { t with pendingNewNodes := insert j.uid t.pendingNewNodes } else t).replay =
              t.replay ∧
            (if b then { t with pendingNewNodes := insert j.uid t.pendingNewNodes } else t).core =
              t.core := by
          intro b
          cases b <;> exact ⟨rfl, rfl⟩
        dsimp only
        generalize hu : (if (!t.links.has j.uid && !t.replay.cursors.has j.uid) = true then
          { t with pendingNewNodes := insert j.uid t.pendingNewNodes } else t) = u
        have hu' := hReserve (!t.links.has j.uid && !t.replay.cursors.has j.uid)
        rw [hu] at hu'
        obtain ⟨hReplay, hCore⟩ := hu'
        have hSeq : u.lastCommandSeq = t.lastCommandSeq := congrArg Core.lastCommandSeq hCore
        cases hAccept : u.replay.acceptAsync j.pending with
        | mk replay e =>
          rw [hReplay] at hAccept
          have hStep := CoreStep.admitted (P := P) (c := t.core) hHead hNew hAccept
          rw [← hCore] at hStep ⊢
          cases e with
          | none => exact hStep
          | some e => exact hStep

theorem coreStep_resumeJob {P : Core → Packet → Prop} (id : Nat) :
    CoreStep P s.core
      ((s.resumeJob id env).2.toList.map fun r => Entry.committed r.1 r.2)
      (s.resumeJob id env).1.core := by
  unfold resumeJob
  split
  · exact .idle _
  · rename_i j hj
    obtain ⟨rfl, hHead⟩ := headJob_spec hj
    dsimp only
    split
    · rename_i hStage
      rw [hStage] at hHead
      generalize hu : ({ s with pendingNewNodes := s.pendingNewNodes.erase j.uid } : State) = u
      have hCore : u.core = s.core := by rw [← hu]; rfl
      have hCommit : (u.commitPacket j.prepared env).1.core = s.core :=
        commitPacket_core.trans hCore
      split
      · rename_i t packet route hc
        rw [hc] at hCommit
        have hJobs : t.jobs = s.jobs := congrArg Core.jobs hCommit
        dsimp only at hCommit ⊢
        rw [core_setStage, hCommit, hJobs, commitPacket_ok hc]
        exact .commit hHead (Or.inr rfl)
      · rename_i t uid reason hc
        rw [hc] at hCommit
        have hJobs : t.jobs = s.jobs := congrArg Core.jobs hCommit
        dsimp only at hCommit ⊢
        rw [core_setStage, hCommit, hJobs]
        exact .commit hHead (Or.inl rfl)
    · rename_i hStage
      rw [hStage] at hHead
      exact .drop hHead
    · exact .idle _

theorem coreStep_settleJob (id : Nat) : CoreStep P s.core [] (s.settleJob id).core := by
  unfold settleJob
  split
  · exact .idle _
  · rename_i j hj
    obtain ⟨rfl, hHead⟩ := headJob_spec hj
    split
    · exact .idle _
    · rename_i hStage
      rw [not_not] at hStage
      rw [hStage] at hHead
      exact .settle hHead

theorem coreStep_allocate {now : ℚ} {io : Io} {r : Except String Nat}
    (h : s.allocateCommandSeq now io = (t, r)) :
    CoreStep P s.core (r.toOption.toList.map Entry.allocated) t.core := by
  unfold allocateCommandSeq at h
  dsimp only at h
  split at h
  · cases h
    exact .idle _
  · split at h
    · rename_i hCommand
      cases h
      exact .allocateFails hCommand
    · rename_i hCommand
      cases h
      refine .allocate ?_ hCommand
      change s.lastCommandSeq < _
      omega

theorem coreStep_resetCursor {P : Core → Packet → Prop} {uid : String} {io : Io}
    {r : Except String Bool} (h : s.resetCursor uid io = (t, r)) :
    CoreStep P s.core (r.toOption.toList.map fun _ => Entry.reset uid) t.core := by
  unfold resetCursor at h
  split at h
  · cases h
    exact .idle _
  · rename_i hIdle
    rw [not_not] at hIdle
    split at h
    · cases h
      exact .idle _
    · split at h
      · rename_i hReset
        cases h
        exact .resetFails hReset
      · rename_i hReset
        cases h
        exact .reset hIdle hReset

theorem core_dropDirectRoute (uid sessionId : String) :
    (s.dropDirectRoute uid sessionId).1.core = s.core := by
  unfold dropDirectRoute
  split
  · split
    · split <;> rfl
    · rfl
  · rfl

end State

/-- Every event of a running process is a step of its core. -/
theorem coreStep_step (cfg : Config) {P : Core → Packet → Prop} {s : State} {e : HostEvent}
    (hP : ∀ msg source env, e = .handle msg source env → ∀ p, Parsed msg p → P s.core p) :
    CoreStep P s.core (s.step cfg e).2 (s.step cfg e).1.core := by
  cases e with
  | handle msg source env =>
    have h : CoreStep P s.core
        (State.logOf msg (s.handle cfg.crypto cfg.verify msg source env).2)
        (s.handle cfg.crypto cfg.verify msg source env).1.core :=
      State.coreStep_handle (hP msg source env rfl)
    cases hs : s.handle cfg.crypto cfg.verify msg source env with
    | mk t r =>
      rw [hs] at h
      cases r with
      | ok packet route =>
        simp only [State.step, hs]
        exact h
      | refused uid reason =>
        simp only [State.step, hs]
        exact h
  | handleDurable msg source env => exact State.coreStep_handleDurable
  | admitJob id env => exact State.coreStep_admitJob id
  | resumeJob id env =>
    have h : CoreStep P s.core
        ((s.resumeJob id env).2.toList.map fun r => Entry.committed r.1 r.2)
        (s.resumeJob id env).1.core := State.coreStep_resumeJob id
    cases hs : s.resumeJob id env with
    | mk t r =>
      rw [hs] at h
      cases r with
      | some r =>
        simp only [State.step, hs]
        exact h
      | none =>
        simp only [State.step, hs]
        exact h
  | settleJob id => exact State.coreStep_settleJob id
  | timerFires io => exact .timer io
  | syncDone ok => exact .sync ok
  | allocateCommandSeq now io =>
    cases hs : s.allocateCommandSeq now io with
    | mk t r =>
      have h := State.coreStep_allocate (P := P) hs
      cases r with
      | ok seq =>
        simp only [State.step, hs]
        exact h
      | error e =>
        simp only [State.step, hs]
        exact h
  | resetCursor uid io =>
    cases hs : s.resetCursor uid io with
    | mk t r =>
      have h := State.coreStep_resetCursor (P := P) hs
      cases r with
      | ok b =>
        simp only [State.step, hs]
        exact h
      | error e =>
        simp only [State.step, hs]
        exact h
  | dropDirectRoute uid sessionId =>
    change CoreStep P s.core [] (s.dropDirectRoute uid sessionId).1.core
    rw [State.core_dropDirectRoute]
    exact .idle _
  | stop => exact .idle _
  | restart io => exact .idle _

end TMEdge.Ingest
