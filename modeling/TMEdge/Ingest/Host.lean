import TMEdge.Ingest.Model
import TMEdge.Replay.Recovery

/-!
# A host that runs `Ingest`

The process with its `Ingest` and its `ReplayStore`, the disk it leaves behind, and a log
of what left the process: packets committed, cursors reset, command numbers returned.
A restart may come at any moment. It loses every record whose fsync had not returned and
opens a new store on what is durable; when that fails, the host stays down until a later
restart succeeds.
-/

namespace TMEdge.Ingest

open Library Replay Protocol

structure Config where
  crypto : Crypto
  verify : VerifyOptions

inductive Entry
  | committed (msg : Buffer) (packet : Packet)
  | reset (uid : String)
  | allocated (seq : Nat)
deriving DecidableEq

/-- What a log entry tells the outside about the replay state. -/
def Entry.acks : Entry → List Ack
  | .committed _ p => .cursor p.uid p.cursor :: (p.lastCmd.map Ack.command).toList
  | .reset uid => [.reset uid]
  | .allocated seq => [.command seq]

inductive Process
  | up (ingest : State)
  /-- The records a crash left. -/
  | down (disk : List Record)

def Process.disk : Process → List Record
  | .up s => s.replay.durable
  | .down disk => disk

structure Host where
  process : Process
  log : List Entry

def Host.jobs (h : Host) : List Job :=
  match h.process with
  | .up s => s.jobs
  | .down _ => []

inductive HostEvent
  | handle (msg : Buffer) (source : Source) (env : Env)
  | handleDurable (msg : Buffer) (source : Source) (env : Env)
  | admitJob (id : Nat) (env : Env)
  | resumeJob (id : Nat) (env : Env)
  | settleJob (id : Nat)
  | timerFires (io : Io)
  | syncDone (ok : Bool)
  | allocateCommandSeq (now : ℚ) (io : Io)
  | resetCursor (uid : String) (io : Io)
  | dropDirectRoute (uid sessionId : String)
  | stop
  | restart (io : CheckpointIo)

namespace State

/-- One event of a running process, and what it adds to the log. -/
def step (cfg : Config) (s : State) : HostEvent → State × List Entry
  | .handle msg source env =>
    match s.handle cfg.crypto cfg.verify msg source env with
    | (s, .ok packet _) => (s, [.committed msg packet])
    | (s, .refused _ _) => (s, [])
  | .handleDurable msg source env =>
    ((s.handleDurable cfg.crypto cfg.verify msg source env).1, [])
  | .admitJob id env => (s.admitJob id env, [])
  | .resumeJob id env =>
    match s.resumeJob id env with
    | (s, some (msg, packet)) => (s, [.committed msg packet])
    | (s, none) => (s, [])
  | .settleJob id => (s.settleJob id, [])
  | .timerFires io => (s.timerFires io, [])
  | .syncDone ok => (s.syncDone ok, [])
  | .allocateCommandSeq now io =>
    match s.allocateCommandSeq now io with
    | (s, .ok seq) => (s, [.allocated seq])
    | (s, .error _) => (s, [])
  | .resetCursor uid io =>
    match s.resetCursor uid io with
    | (s, .ok _) => (s, [.reset uid])
    | (s, .error _) => (s, [])
  | .dropDirectRoute uid sessionId => ((s.dropDirectRoute uid sessionId).1, [])
  | .stop => (s.stop, [])
  | .restart _ => (s, [])

end State

/-- The journal after a constructor that failed: its checkpoint may have replaced the file
before the fsync of the directory failed. -/
def diskAfterFailedOpen (disk : List Record) (io : CheckpointIo) : List Record :=
  match readReplaySnapshot (journalFile disk), io with
  | .ok m, .failsAfter true => ReplayStore.snapshotRecords m
  | _, _ => disk

namespace Host

def start (s : ReplayStore) : Host := ⟨.up (.new s), []⟩

def restart (disk : List Record) (io : CheckpointIo) : Process :=
  match ReplayStore.openStore (some (journalFile disk)) io with
  | .ok s => .up (.new s)
  | .error _ => .down (diskAfterFailedOpen disk io)

def step (cfg : Config) (h : Host) (e : HostEvent) : Host :=
  match e, h.process with
  | .restart io, p => { h with process := restart p.disk io }
  | _, .down _ => h
  | e, .up s => ⟨.up (s.step cfg e).1, h.log ++ (s.step cfg e).2⟩

end Host

end TMEdge.Ingest
