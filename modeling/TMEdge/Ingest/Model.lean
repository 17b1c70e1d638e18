import TMEdge.Protocol.Packet
import TMEdge.Replay.Store

/-!
# `Ingest`

`src/edge/ingest.ts`: authenticate each datagram, reject replays, keep the link of each
node and allocate command numbers. `handle` is the synchronous path. `handleDurable`
queues a job per datagram; a job runs in three pieces, cut where the source awaits:
`admitJob` (up to `acceptAsync`), `resumeJob` (after its promise has settled) and
`settleJob` (the `finally` of the result). A job starts when its predecessor of the same
node has been settled.

What the environment answers during one call is its `Env`. Listeners of the emitted
events, and the ACK sent to an encrypted node, are outside the model.
-/

namespace TMEdge.Ingest

open Library Replay Protocol

/-! ## Routes -/

structure DirectSession where
  uid : String
  sessionId : String
  key : Buffer
  secureId : Option Nat
  /-- The session of the listener whose `send`, `admit` and `isOpen` these are. -/
  ref : Nat
deriving DecidableEq

inductive Route
  | udp (address : String)
  | gateway (address : String)
  | direct (address : String) (session : DirectSession)
deriving DecidableEq

def Route.address : Route → String
  | .udp a => a
  | .gateway a => a
  | .direct a _ => a

/-- The argument `source: string | Route`. -/
inductive Source
  | address (a : String)
  | route (r : Route)

def Source.toRoute : Source → Route
  | .address a => if a.startsWith "gw:" then .gateway a else .udp a
  | .route r => r

/-! ## State -/

structure NodeLink where
  uid : String
  address : String
  route : Option Route
  firstSeen : ℚ
  lastSeen : ℚ
  boot : Nat
  seq : Nat
  signed : Bool
  secureId : Option Nat
  reports : Nat
  raws : Nat
  statuses : Nat
  rejected : Nat
  recvTimes : List ℚ
  reportTimes : List ℚ
  gapEvents : List (ℚ × Nat)

def NodeLink.cursor (l : NodeLink) : Cursor := ⟨l.boot, l.seq⟩

structure RejectedSource where
  address : String
  uid : Option String
  count : Nat
  lastSeen : ℚ
  reason : String

inductive IngestResult
  | ok (packet : Packet) (route : Route)
  | refused (uid : Option String) (reason : String)

structure PreparedPacket where
  packet : Packet
  route : Route
  receivedAt : ℚ

/-- Where a queued datagram stands. `persisted` and `rejected`: its promise has settled
and its continuation has not run; `finished`: only the `finally` is left. -/
inductive JobStage
  | waiting
  | awaiting
  | persisted
  | rejected
  | finished
deriving DecidableEq

structure Job where
  id : Nat
  msg : Buffer
  prepared : PreparedPacket
  stage : JobStage

def Job.uid (j : Job) : String := j.prepared.packet.uid

/-- What the job hands to `acceptAsync`. -/
def Job.pending (j : Job) : Pending :=
  ⟨j.id, j.uid, j.prepared.packet.cursor, j.prepared.packet.lastCmd⟩

structure State where
  links : JsMap String NodeLink
  rejectedSources : JsMap String RejectedSource
  rejectReasons : JsMap String Nat
  packetTimes : List ℚ
  bytesInWindow : List (ℚ × Nat)
  rejectTimes : List ℚ
  lastCommandSeq : Nat
  closing : Bool
  replay : ReplayStore
  /-- The last job queued for each node. -/
  durableTails : JsMap String Nat
  pendingNewNodes : Finset String
  durablePackets : Nat
  durableBytes : Nat
  /-- Jobs in the order of their `handleDurable` calls. -/
  jobs : List Job
  nextJob : Nat

def windowMs : ℚ := 60000
def maxNodes : Nat := 5000
def maxUnknownSources : Nat := 200
def maxDurablePackets : Nat := 4096
def maxDurableBytes : Nat := 4 * 1024 * 1024
def maxSamples : Nat := 10000

/-- The constructor, on a store it has opened. -/
def State.new (replay : ReplayStore) : State where
  links := .empty
  rejectedSources := .empty
  rejectReasons := .empty
  packetTimes := []
  bytesInWindow := []
  rejectTimes := []
  lastCommandSeq := replay.commandSeq
  closing := false
  replay := replay
  durableTails := .empty
  pendingNewNodes := ∅
  durablePackets := 0
  durableBytes := 0
  jobs := []
  nextJob := 0

/-- What the environment answers during one call: the clock of `prepare`, of `reject` and
of the device keys, the session's `admit` and `isOpen`, and the file system. -/
structure Env where
  now : ℚ
  rejectNow : ℚ
  keysNow : ℚ
  admitDirect : Option String
  isOpen : Bool
  acceptIo : Io
  commandIo : Io

/-! ## Samples and rejections -/

/-- Bound a list of samples from its old end. -/
def capped {α : Type} (l : List α) : List α := if maxSamples < l.length then l.tail else l

def dropOld (cut : ℚ) (l : List ℚ) : List ℚ := l.dropWhile (· < cut)

def NodeLink.trim (l : NodeLink) (now : ℚ) : NodeLink :=
  { l with
    reportTimes := dropOld (now - windowMs) l.reportTimes
    recvTimes := dropOld (now - windowMs) l.recvTimes
    gapEvents := l.gapEvents.dropWhile fun g => g.1 < now - windowMs }

namespace State

/-- `trim` of the lists that belong to no node. -/
def trimWindow (s : State) (now : ℚ) : State :=
  { s with
    packetTimes := dropOld (now - windowMs) s.packetTimes
    rejectTimes := dropOld (now - windowMs) s.rejectTimes
    bytesInWindow := s.bytesInWindow.dropWhile fun b => b.1 < now - windowMs }

def reject (s : State) (now : ℚ) (address : String) (uid : Option String) (reason : String) :
    State × IngestResult :=
  let reasonKey := if s.rejectReasons.has reason || s.rejectReasons.size < 128 then reason
    else "other"
  let key := address ++ "|" ++ uid.getD "-"
  ({ s with
      rejectTimes := capped (s.rejectTimes ++ [now])
      rejectReasons := s.rejectReasons.set reasonKey ((s.rejectReasons.get reasonKey).getD 0 + 1)
      rejectedSources := match s.rejectedSources.get key with
        | some src => s.rejectedSources.set key
            { src with
              count := src.count + 1
              lastSeen := now
              reason := reason }
        | none =>
          if s.rejectedSources.size < maxUnknownSources then
            s.rejectedSources.set key ⟨address, uid, 1, now, reason⟩
          else s.rejectedSources },
    .refused uid reason)

/-! ## The stages of one packet -/

section Packets

variable (crypto : Crypto) (verify : VerifyOptions)

/-- The node a datagram that was not accepted claims to come from. -/
def uidOf (msg : Buffer) : Option String :=
  if 10 ≤ msg.length ∧ msg[0]? = some 0x54 ∧ msg[1]? = some 0x4d then
    some (uidToString (subarray msg 4 10))
  else none

def errorText : PacketError → String
  | .protocol reason => reason
  | .range => "RangeError"

/-- A direct session is bound to one key. -/
def verifyFor : Route → VerifyOptions
  | .direct _ session => ⟨[session.key], false, verify.devices⟩
  | _ => verify

/-- A direct session is bound to one node. -/
def sessionMismatch (route : Route) (packet : Packet) : Option String :=
  match route with
  | .direct _ session =>
    if packet.header.secureId ≠ session.secureId then some "key does not match the session"
    else if packet.uid ≠ session.uid then some "uid does not match the session"
    else none
  | _ => none

def prepare (s : State) (msg : Buffer) (source : Source) (env : Env) :
    State × Except IngestResult PreparedPacket :=
  let route := source.toRoute
  let s := trimWindow
    { s with
      packetTimes := s.packetTimes ++ [env.now]
      bytesInWindow := s.bytesInWindow ++ [(env.now, msg.length)] } env.now
  let s := { s with
    packetTimes := capped s.packetTimes
    bytesInWindow := capped s.bytesInWindow }
  let refuse (uid : Option String) (reason : String) :=
    let r := s.reject env.rejectNow route.address uid reason
    (r.1, Except.error r.2)
  match parsePacket crypto msg (verifyFor verify route) env.keysNow with
  | .error e => refuse (uidOf msg) (errorText e)
  | .ok packet =>
    match sessionMismatch route packet with
    | some reason => refuse (some packet.uid) reason
    | none =>
      if s.closing then refuse (some packet.uid) "ingest is shutting down"
      else (s, .ok ⟨packet, route, env.now⟩)

/-- The newer of the saved cursor and the link's. -/
def cursorOf (s : State) (uid : String) : Option Cursor :=
  match s.replay.cursors.get uid, s.links.get uid with
  | some saved, none => some saved
  | some saved, some link => if link.cursor < saved then some saved else some link.cursor
  | none, link => link.map NodeLink.cursor

def countRejected (s : State) (uid : String) : State :=
  match s.links.get uid with
  | some link => { s with links := s.links.set uid { link with rejected := link.rejected + 1 } }
  | none => s

def admitPacket (s : State) (p : PreparedPacket) (env : Env) : State × Option IngestResult :=
  let address := p.route.address
  let uid := p.packet.uid
  let refuse (s : State) (reason : String) :=
    let r := s.reject env.rejectNow address (some uid) reason
    (r.1, some r.2)
  let admitDirect (s : State) :=
    match p.route, env.admitDirect with
    | .direct _ _, some reason => refuse (s.countRejected uid) reason
    | _, _ => (s, none)
  match s.cursorOf uid with
  | some cursor =>
    if p.packet.cursor ≤ cursor then
      refuse (s.countRejected uid) (if p.packet.cursor.boot < cursor.boot
        then "boot counter went backwards (replay, or node flash erased)"
        else "replayed or duplicate sequence")
    else admitDirect s
  | none =>
    if s.links.size + s.pendingNewNodes.card ≥ maxNodes ∨
        s.replay.cursors.size + s.pendingNewNodes.card ≥ maxNodes then
      refuse s "node table full"
    else admitDirect s

/-- The link of an accepted packet. -/
def newLink (s : State) (p : PreparedPacket) : NodeLink :=
  match s.links.get p.packet.uid with
  | some link =>
    if p.packet.header.boot = link.boot ∧ link.seq + 1 < p.packet.header.seq then
      { link with
        gapEvents := link.gapEvents ++ [(p.receivedAt, p.packet.header.seq - link.seq - 1)] }
    else link
  | none =>
    { uid := p.packet.uid, address := p.route.address, route := some p.route,
      firstSeen := p.receivedAt, lastSeen := p.receivedAt, boot := p.packet.header.boot,
      seq := p.packet.header.seq, signed := p.packet.header.signed, secureId := none,
      reports := 0, raws := 0, statuses := 0, rejected := 0, recvTimes := [],
      reportTimes := [], gapEvents := [] }

def countKind (link : NodeLink) (p : PreparedPacket) : NodeLink :=
  match p.packet.body with
  | .report _ =>
    { link with
      reports := link.reports + 1
      reportTimes := capped (link.reportTimes ++ [p.receivedAt]) }
  | .raw _ => { link with raws := link.raws + 1 }
  | .status _ => { link with statuses := link.statuses + 1 }
  | .ota _ => link

def sessionClosed (route : Route) (env : Env) : Bool :=
  match route with
  | .direct _ _ => !env.isOpen
  | _ => false

def commitPacket (s : State) (p : PreparedPacket) (env : Env) : State × IngestResult :=
  -- A closed or replaced direct session earns no route, occupancy or ACK.
  if sessionClosed p.route env then s.reject env.rejectNow p.route.address (some p.packet.uid) "session closed"
  else
    let link := s.newLink p
    let link := countKind
      { link with
        address := p.route.address
        route := some p.route
        lastSeen := p.receivedAt
        boot := p.packet.header.boot
        seq := p.packet.header.seq
        signed := p.packet.header.signed
        secureId := p.packet.header.secureId
        recvTimes := capped (link.recvTimes ++ [p.receivedAt]) } p
    let s := trimWindow
      { s with links := s.links.set p.packet.uid (link.trim p.receivedAt) } p.receivedAt
    (s, .ok p.packet p.route)

/-- `handle`'s `try`: persist the cursor, then the observed command number. -/
def persist (s : State) (p : PreparedPacket) (env : Env) : State × Option String :=
  match s.replay.accept p.packet.uid p.packet.cursor env.acceptIo with
  | (replay, some e) => ({ s with replay := replay }, some e)
  | (replay, none) =>
    let s := { s with replay := replay }
    match p.packet.lastCmd with
    | none => (s, none)
    | some lastCmd =>
      if lastCmd ≤ s.lastCommandSeq then (s, none)
      else match s.replay.command lastCmd env.commandIo with
        | (replay, some e) => ({ s with replay := replay }, some e)
        | (replay, none) =>
          ({ s with
              replay := replay
              lastCommandSeq := lastCmd }, none)

def handle (s : State) (msg : Buffer) (source : Source) (env : Env) : State × IngestResult :=
  match s.prepare crypto verify msg source env with
  | (s, .error r) => (s, r)
  | (s, .ok p) =>
    match s.admitPacket p env with
    | (s, some r) => (s, r)
    | (s, none) =>
      match s.persist p env with
      | (s, some _) =>
        s.reject env.rejectNow p.route.address (some p.packet.uid) "replay journal unavailable"
      | (s, none) => s.commitPacket p env

/-- `handleDurable`, up to the queueing of its job; `some r` is a promise already
resolved. -/
def handleDurable (s : State) (msg : Buffer) (source : Source) (env : Env) :
    State × Option IngestResult :=
  match s.prepare crypto verify msg source env with
  | (s, .error r) => (s, some r)
  | (s, .ok p) =>
    if s.durablePackets ≥ maxDurablePackets ∨ s.durableBytes + msg.length > maxDurableBytes then
      let r := s.reject env.rejectNow p.route.address (some p.packet.uid)
        "durable ingest queue full"
      (r.1, some r.2)
    else
      ({ s with
          durablePackets := s.durablePackets + 1
          durableBytes := s.durableBytes + msg.length
          durableTails := s.durableTails.set p.packet.uid s.nextJob
          jobs := s.jobs ++ [⟨s.nextJob, msg, p, .waiting⟩]
          nextJob := s.nextJob + 1 }, none)

end Packets

/-! ## Jobs -/

def setStage (s : State) (id : Nat) (stage : JobStage) : State :=
  { s with jobs := s.jobs.map fun j => if j.id = id then { j with stage := stage } else j }

/-- The job `id`, when it is the oldest of its node. -/
def headJob (s : State) (id : Nat) : Option Job := do
  let j ← s.jobs.find? fun j => j.id == id
  let first ← s.jobs.find? fun k => k.uid == j.uid
  if first.id = id then some j else none

/-- `previous.then(async () => ...)` up to its `await`. -/
def admitJob (s : State) (id : Nat) (env : Env) : State :=
  match s.headJob id with
  | none => s
  | some j =>
    if j.stage ≠ .waiting then s
    else match s.admitPacket j.prepared env with
      | (s, some _) => s.setStage id .finished
      | (s, none) =>
        let s := if !s.links.has j.uid && !s.replay.cursors.has j.uid then
            { s with pendingNewNodes := insert j.uid s.pendingNewNodes }
          else s
        -- Reserve the observed command number before the next command is allocated.
        let s := { s with
          lastCommandSeq := match j.prepared.packet.lastCmd with
            | some n => max s.lastCommandSeq n
            | none => s.lastCommandSeq }
        match s.replay.acceptAsync j.pending with
        | (replay, some _) => ({ s with replay := replay }).setStage id .rejected
        | (replay, none) => ({ s with replay := replay }).setStage id .awaiting

/-- The rest of the job's function, once its promise has settled. `some` packet when it
was committed. -/
def resumeJob (s : State) (id : Nat) (env : Env) : State × Option (Buffer × Packet) :=
  match s.headJob id with
  | none => (s, none)
  | some j =>
    let s' := { s with pendingNewNodes := s.pendingNewNodes.erase j.uid }
    match j.stage with
    | .persisted =>
      match s'.commitPacket j.prepared env with
      | (s', .ok packet _) => (s'.setStage id .finished, some (j.msg, packet))
      | (s', .refused _ _) => (s'.setStage id .finished, none)
    | .rejected =>
      let r := s'.reject env.rejectNow j.prepared.route.address (some j.uid)
        "replay journal unavailable"
      (r.1.setStage id .finished, none)
    | _ => (s, none)

/-- The `finally` of the result. -/
def settleJob (s : State) (id : Nat) : State :=
  match s.headJob id with
  | none => s
  | some j =>
    if j.stage ≠ .finished then s
    else
      { s with
        durablePackets := s.durablePackets - 1
        durableBytes := s.durableBytes - j.msg.length
        durableTails := if s.durableTails.get j.uid = some id then s.durableTails.delete j.uid
          else s.durableTails
        jobs := s.jobs.filter fun k => k.id ≠ id }

/-- The promises the store has settled. -/
def settlePromises (s : State) (ts : List Settled) : State :=
  { s with
    jobs := s.jobs.map fun j =>
      match ts.find? fun t => t.pending.ticket == j.id with
      | some t => { j with stage := if t.error.isNone then .persisted else .rejected }
      | none => j }

def timerFires (s : State) (io : Io) : State :=
  let r := s.replay.timerFires io
  settlePromises { s with replay := r.1 } r.2

def syncDone (s : State) (ok : Bool) : State :=
  let r := s.replay.syncDone ok
  settlePromises { s with replay := r.1 } r.2

/-! ## Commands and administration -/

/-- Unix seconds, but strictly increasing: a node ignores anything not newer than the last
command it applied. -/
def allocateCommandSeq (s : State) (now : ℚ) (io : Io) : State × Except String Nat :=
  let seq : Int := max ⌊now / 1000⌋ (s.lastCommandSeq + 1)
  if (u32Max : Int) < seq then (s, .error "command sequence exhausted")
  else match s.replay.command seq.toNat io with
    | (replay, some e) => ({ s with replay := replay }, .error e)
    | (replay, none) =>
      ({ s with
          replay := replay
          lastCommandSeq := seq.toNat }, .ok seq.toNat)

/-- Forget a node's replay cursor: for a node whose flash was erased on purpose. -/
def resetCursor (s : State) (uid : String) (io : Io) : State × Except String Bool :=
  if s.durablePackets ≠ 0 then
    (s, .error "durable packet writes are pending; retry cursor reset")
  else if !isUid uid then (s, .error "invalid node uid")
  else match s.replay.reset uid io with
    | (replay, .error e) => ({ s with replay := replay }, .error e)
    | (replay, .ok saved) =>
      ({ s with
          replay := replay
          links := s.links.delete uid }, .ok (s.links.has uid || saved))

def dropDirectRoute (s : State) (uid sessionId : String) : State × Bool :=
  match s.links.get uid with
  | some link =>
    match link.route with
    | some (.direct _ session) =>
      if session.sessionId ≠ sessionId then (s, false)
      else ({ s with links := s.links.set uid { link with route := none } }, true)
    | _ => (s, false)
  | none => (s, false)

def stop (s : State) : State := { s with closing := true }

end State

end TMEdge.Ingest
