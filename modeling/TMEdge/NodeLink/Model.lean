import TMEdge.Ingest.Host
import TMEdge.Protocol.DeviceKeys

/-!
# `NodeServer`

`src/edge/nodelink.ts`, the listener for direct nodes, together with the `Ingest` it hands
packets to: `opts.ingest` is `handleDurable` (or `handle`), `opts.dropRoute` is
`dropDirectRoute`, and the `isOpen` of a route is the state of its session. Sessions are
mutable objects that the sets, the routes and suspended calls share, so `sessions` keeps
all of them and everything else refers to them by position.

What is decided outside is the `Env` of an event: the clocks, the registry, the socket and
the answer of `admit` (`TMEdge.NodeLink.Baseline`). The limits on upgrades before `open`
and the counters that are only reported are left out.
-/

namespace TMEdge.NodeLink

open Library Protocol

/-! ## Data -/

inductive SessionState
  | challenged
  | authenticated
  | closed
deriving DecidableEq

structure Tokens where
  msgs : ℚ
  bytes : ℚ
  time : ℚ

structure Session where
  state : SessionState
  nonce : String
  controlSeq : Nat
  device : Option DeviceKey
  uid : Option String
  sessionId : String
  /-- Set on the first accepted packet: only then is this the node's route. -/
  active : Bool
  accepted : Nat
  lastHeard : ℚ
  tokens : Tokens
  drops : List ℚ
  timer : Bool
  route : Option Ingest.DirectSession

structure Grant where
  uid : String
  build : String
  seq : Nat
  expires : ℚ

structure Limits where
  maxSessions : Nat
  messagesPerSec : ℚ
  bytesPerSec : ℚ
  grantMs : ℚ

structure Config where
  limits : Limits
  keys : List Buffer
  devices : Option DeviceKeys
  crypto : Crypto
  /-- What `Ingest` verifies datagrams with. -/
  verify : VerifyOptions
  /-- Whether `opts.ingest` is `handleDurable`. -/
  durable : Bool
  heartbeatMs : Nat
  deadMs : ℚ
  /-- The hash of a token, in hex. -/
  tokenId : String → String

structure NodeServer where
  sessions : List Session
  pending : List Nat
  authed : List Nat
  /-- The session each node's downlinks go to. -/
  active : JsMap String Nat
  /-- By the hash of the token. -/
  grants : JsMap String Grant
  downloads : Nat

def NodeServer.new : NodeServer := ⟨[], [], [], .empty, .empty, 0⟩

structure Edge where
  server : NodeServer
  ingest : Ingest.State

structure Env where
  mono : ℚ
  /-- The clock of the device keys. -/
  keysNow : ℚ
  isRegistered : String → Bool
  /-- `ws.readyState === OPEN` -/
  socketOpen : Bool
  bufferedAmount : Nat

def directVersion : Nat := 1
def controlMax : Nat := 512
def maxBuffered : Nat := 64 * 1024
def maxDownloads : Nat := 4

/-! ## Control messages -/

inductive Control
  | challenge (nonce : String)
  | ready (uid session : String) (heartbeatMs : Nat)
  | ack (session : String) (boot seq : Nat)
  | otaGrant (seq : Nat) (build token : String) (expiresInMs : ℚ)

def quoted (s : String) : String := "\"" ++ s ++ "\""

def Control.fields : Control → List (String × String)
  | .challenge nonce => [("type", quoted "challenge"), ("v", toString directVersion),
      ("nonce", quoted nonce)]
  | .ready uid session heartbeatMs => [("type", quoted "ready"), ("v", toString directVersion),
      ("uid", quoted uid), ("session", quoted session), ("heartbeatMs", toString heartbeatMs)]
  | .ack session boot seq => [("type", quoted "ack"), ("v", toString directVersion),
      ("session", quoted session), ("boot", toString boot), ("seq", toString seq)]
  | .otaGrant seq build token expiresInMs => [("type", quoted "ota_grant"),
      ("v", toString directVersion), ("seq", toString seq), ("build", quoted build),
      ("token", quoted token), ("expiresInMs", toString expiresInMs)]

/-- `JSON.stringify` of a message. -/
def Control.text (m : Control) : String :=
  "\x7b" ++ ",".intercalate (m.fields.map fun f => quoted f.1 ++ ":" ++ f.2) ++ "\x7d"

/-! ## Authentication -/

/-- HMAC-SHA256(key, "tmnode1|<uid>|<nonce>"), lowercase hex. -/
def authMac (crypto : Crypto) (key : Buffer) (uid nonce : String) : String :=
  toHex (crypto.hmacSha256 key (ascii ("tmnode1|" ++ uid ++ "|" ++ nonce)))

/-- What `JSON.parse` makes of an auth message: the fields of an object that have the type
they need, and how many fields it has. -/
inductive AuthText
  | notAnObject
  | object (type : Option String) (v : Option ℚ) (uid nonce mac : Option String) (size : Nat)

/-- The uid, nonce and mac of a well-formed auth message. -/
def AuthText.fields : AuthText → Option (String × String × String)
  | .object (some type) (some v) (some uid) (some nonce) (some mac) size =>
    if type = "auth" ∧ v = directVersion ∧ Replay.isUid uid ∧ isHex64 nonce ∧ isHex64 mac ∧ size = 5
    then some (uid, nonce, mac)
    else none
  | _ => none

/-- The keys a node may authenticate with, each with its device. -/
def authKeys (cfg : Config) (keysNow : ℚ) (uid : String) :
    Except PacketError (List (Buffer × Option DeviceKey)) :=
  let devices := (cfg.devices.map fun d => d.keys keysNow uid).getD []
  if devices ≠ [] then
    devices.mapM fun d => do
      let key ← deriveKey cfg.crypto d.master (uidBytes uid) d.id "auth" (List.replicate 32 0)
      return (key, some d)
  else if cfg.devices.all fun d => d.allowsLegacy uid then .ok (cfg.keys.map fun k => (k, none))
  else .ok []

inductive Incoming
  | text (length : Nat) (auth : AuthText)
  | binary (data : Buffer)

def Incoming.length : Incoming → Nat
  | .text length _ => length
  | .binary data => data.length

namespace Edge

variable (cfg : Config)

def session? (e : Edge) (ref : Nat) : Option Session := e.server.sessions[ref]?

def updateSession (e : Edge) (ref : Nat) (f : Session → Session) : Edge :=
  { e with server := { e.server with sessions := e.server.sessions.modify ref f } }

/-! ## The end of a session -/

def closed (e : Edge) (ref : Nat) : Edge :=
  match e.session? ref with
  | none => e
  | some s =>
    if s.state = .closed then e
    else
      let e := e.updateSession ref fun s =>
        { s with
          state := .closed
          timer := false }
      let e := { e with
        server := { e.server with
          pending := e.server.pending.erase ref
          authed := e.server.authed.erase ref } }
      match s.uid with
      | none => e
      | some uid =>
        -- Only if it is still the node's session: a replacement must survive the late
        -- close of the connection it replaced.
        if e.server.active.get uid = some ref then
          { server := { e.server with active := e.server.active.delete uid }
            ingest := (e.ingest.dropDirectRoute uid s.sessionId).1 }
        else e

/-- `fail`: the close code and the reason leave the edge, the rest is `closed`. -/
def fail (e : Edge) (ref : Nat) : Edge := e.closed ref

def control (e : Edge) (env : Env) (ref : Nat) (message : Control) : Edge × Bool :=
  match e.session? ref with
  | none => (e, false)
  | some s =>
    let length := message.text.length
    if controlMax < length ∨ !env.socketOpen then (e, false)
    else if maxBuffered < env.bufferedAmount + length then (e.fail ref, false)
    else match s.device, s.uid with
      | some device, some uid =>
        if 0xffffffff ≤ s.controlSeq ∨
            (cfg.devices.bind fun d => d.find env.keysNow uid device.id).isNone then (e, false)
        else
          let e := e.updateSession ref fun s => { s with controlSeq := s.controlSeq + 1 }
          if maxBuffered < env.bufferedAmount + (secureHeaderSize + length + secureTagSize) then
            (e.fail ref, false)
          else (e, true)
      | _, _ => (e, true)

/-! ## Messages -/

def «open» (e : Edge) (env : Env) (nonce sessionId : String) : Edge :=
  let ref := e.server.sessions.length
  let s : Session :=
    { state := .challenged, nonce := nonce, controlSeq := 0, device := none, uid := none,
      sessionId := sessionId, active := false, accepted := 0, lastHeard := env.mono,
      tokens := ⟨cfg.limits.messagesPerSec * 2, cfg.limits.bytesPerSec * 2, env.mono⟩, drops := [],
      timer := true, route := none }
  let e := { e with
    server := { e.server with
      sessions := e.server.sessions ++ [s]
      pending := e.server.pending ++ [ref] } }
  (e.control cfg env ref (.challenge nonce)).1

def routeFor (s : Session) (ref : Nat) (key : Buffer) : Ingest.DirectSession where
  uid := s.uid.getD ""
  sessionId := s.sessionId
  key := key
  secureId := s.device.map DeviceKey.id
  ref := ref

def authenticate (e : Edge) (env : Env) (ref : Nat) (auth : AuthText) : Edge :=
  match e.session? ref, auth.fields with
  | none, _ => e
  | some _, none => e.fail ref
  | some s, some (uid, nonce, mac) =>
    -- One nonce, one answer: whatever happens next, this one is spent.
    let expected := s.nonce
    let e := e.updateSession ref fun s => { s with nonce := "" }
    match authKeys cfg env.keysNow uid with
    | .error _ => e
    | .ok keys =>
      match keys.find? fun k => mac == authMac cfg.crypto k.1 uid expected with
      | none => e.fail ref
      | some (key, device) =>
        if nonce ≠ expected ∨ !env.isRegistered uid then e.fail ref
        else if cfg.limits.maxSessions ≤ e.server.authed.length then
          (e.updateSession ref fun s => { s with device := device }).fail ref
        else
          let e := e.updateSession ref fun s =>
            let s := { s with
              device := device
              timer := false
              uid := some uid
              state := .authenticated }
            { s with route := some (routeFor s ref key) }
          let e := { e with
            server := { e.server with
              pending := e.server.pending.erase ref
              authed := e.server.authed ++ [ref] } }
          (e.control cfg env ref (.ready uid s.sessionId cfg.heartbeatMs)).1

/-- Token buckets, two seconds deep. -/
def withinRate (e : Edge) (env : Env) (ref : Nat) (bytes : Nat) : Edge × Bool :=
  match e.session? ref with
  | none => (e, false)
  | some s =>
    let t := env.mono
    let dt := max 0 (t - s.tokens.time) / 1000
    let msgs := min (cfg.limits.messagesPerSec * 2)
      (s.tokens.msgs + dt * cfg.limits.messagesPerSec)
    let allowed := min (cfg.limits.bytesPerSec * 2)
      (s.tokens.bytes + dt * cfg.limits.bytesPerSec)
    if 1 ≤ msgs ∧ bytes ≤ allowed then
      (e.updateSession ref fun s => { s with tokens := ⟨msgs - 1, allowed - bytes, t⟩ }, true)
    else
      let drops := s.drops.filter (fun x => t - x < 10000) ++ [t]
      let e := e.updateSession ref fun s =>
        { s with
          tokens := ⟨msgs, allowed, t⟩
          drops := drops }
      (if 100 < drops.length then e.fail ref else e, false)

/-- The first accepted packet makes this session the node's route; an older one is closed. -/
def activate (e : Edge) (ref : Nat) : Edge :=
  match e.session? ref with
  | none => e
  | some s =>
    let uid := s.uid.getD ""
    let old := e.server.active.get uid
    let e := e.updateSession ref fun s => { s with active := true }
    let e := { e with server := { e.server with active := e.server.active.set uid ref } }
    match old with
    | some old => if old ≠ ref then e.fail old else e
    | none => e

/-- An accepted packet of this session. -/
def packetAccepted (e : Edge) (env : Env) (ref : Nat) (packet : Packet) : Edge :=
  match e.session? ref with
  | none => e
  | some s =>
    if s.state ≠ .authenticated then e
    else
      let e := e.updateSession ref fun s => { s with accepted := s.accepted + 1 }
      let e := if s.active then e else e.activate ref
      match packet.body with
      | .report _ | .status _ =>
        (e.control cfg env ref (.ack s.sessionId packet.header.boot packet.header.seq)).1
      | _ => e

def packetResult (e : Edge) (env : Env) (ref : Nat) : Ingest.IngestResult → Edge
  | .ok packet _ => e.packetAccepted cfg env ref packet
  | .refused _ _ => e

def isOpen (e : Edge) (ref : Nat) : Bool :=
  (e.session? ref).any fun s => s.state = .authenticated

/-- `isOpen` of a session is what the listener says. -/
def ingestEnv (e : Edge) (ref : Nat) (env : Ingest.Env) : Ingest.Env :=
  { env with isOpen := e.isOpen ref }

def packet (e : Edge) (env : Env) (ienv : Ingest.Env) (ref : Nat) (data : Buffer) : Edge :=
  match (e.session? ref).bind Session.route with
  | none => e
  | some session =>
    let source := Ingest.Source.route (.direct ("ws:" ++ session.uid ++ ":" ++ session.sessionId) session)
    if cfg.durable then
      match e.ingest.handleDurable cfg.crypto cfg.verify data source (e.ingestEnv ref ienv) with
      | (ingest, some result) => ({ e with ingest := ingest }).packetResult cfg env ref result
      | (ingest, none) => { e with ingest := ingest }
    else
      let r := e.ingest.handle cfg.crypto cfg.verify data source (e.ingestEnv ref ienv)
      ({ e with ingest := r.1 }).packetResult cfg env ref r.2

def message (e : Edge) (env : Env) (ienv : Ingest.Env) (ref : Nat) (data : Incoming) : Edge :=
  match e.session? ref with
  | none => e
  | some s =>
    match s.state with
    | .closed => e
    | .challenged =>
      let e := e.updateSession ref fun s => { s with lastHeard := env.mono }
      match data with
      | .text length auth => if controlMax < length then e.fail ref else e.authenticate cfg env ref auth
      | .binary _ => e.fail ref
    | .authenticated =>
      let e := e.updateSession ref fun s => { s with lastHeard := env.mono }
      match data with
      | .text _ _ => e.fail ref
      | .binary data =>
        match e.withinRate cfg env ref data.length with
        | (e, true) => e.packet cfg env ienv ref data
        | (e, false) => e

/-- The rest of a durable packet: its commit, and the `packetResult` of a direct session. -/
def resumeJob (e : Edge) (env : Env) (ienv : Ingest.Env) (id : Nat) : Edge :=
  match e.ingest.headJob id with
  | none => e
  | some job =>
    match job.prepared.route with
    | .direct _ session =>
      match e.ingest.resumeJob id (e.ingestEnv session.ref ienv) with
      | (ingest, some (_, packet)) =>
        ({ e with ingest := ingest }).packetAccepted cfg env session.ref packet
      | (ingest, none) => { e with ingest := ingest }
    | _ => { e with ingest := (e.ingest.resumeJob id ienv).1 }

def downlink (e : Edge) (env : Env) (ref : Nat) (length : Nat) : Edge × Bool :=
  match e.session? ref with
  | none => (e, false)
  | some s =>
    if s.state ≠ .authenticated ∨ !env.socketOpen then (e, false)
    else if maxBuffered < env.bufferedAmount + length then (e.fail ref, false)
    else (e, true)

/-- A session from which nothing was heard for too long is failed. -/
def beatSession (env : Env) (e : Edge) (ref : Nat) : Edge :=
  match e.session? ref with
  | none => e
  | some s => if cfg.deadMs < env.mono - s.lastHeard then e.fail ref else e

def beat (e : Edge) (env : Env) : Edge :=
  let e := { e with
    server := { e.server with grants := e.server.grants.filter fun g => env.mono < g.expires } }
  e.server.authed.foldl (beatSession cfg env) e

/-! ## Grants and downloads -/

/-- Revoke a node's grant: its rollout step finished, failed or was cancelled. -/
def revokeGrants (e : Edge) (uid : String) : Edge :=
  { e with server := { e.server with grants := e.server.grants.filter fun g => g.uid ≠ uid } }

/-- The node that `grant` issues a grant to. -/
def grantee (e : Edge) (otaApproved : String → String → Bool) (ref : Nat) (build : String) :
    Option String :=
  ((e.session? ref).bind Session.uid).filter fun uid => uid ≠ "" && otaApproved uid build

def newGrant (env : Env) (uid build : String) (seq : Nat) : Grant :=
  ⟨uid, build, seq, env.mono + cfg.limits.grantMs⟩

def grant (e : Edge) (env : Env) (otaApproved : String → String → Bool) (ref seq : Nat)
    (build token : String) : Edge × Bool :=
  match e.grantee otaApproved ref build with
  | none => (e, false)
  | some uid =>
    let e := e.revokeGrants uid
    let e := { e with
      server := { e.server with
        grants := e.server.grants.set (cfg.tokenId token) (newGrant cfg env uid build seq) } }
    e.control cfg env ref (.otaGrant seq build token cfg.limits.grantMs)

inductive Response
  | unauthorized
  | forbidden
  | notFound
  | busy
  | image (bytes : Buffer)
deriving DecidableEq

/-- `/^Bearer ([0-9a-f]{64})$/` -/
def bearer (authorization : String) : Option String :=
  match authorization.toList with
  | 'B' :: 'e' :: 'a' :: 'r' :: 'e' :: 'r' :: ' ' :: token =>
    if isHex64 (String.ofList token) then some (String.ofList token) else none
  | _ => none

def download (e : Edge) (env : Env) (otaApproved : String → String → Bool)
    (image : String → Option Buffer) (build : String) (authorization : Option String) :
    Edge × Response :=
  match (authorization.bind bearer).bind fun token => e.server.grants.get (cfg.tokenId token) with
  | none => (e, .unauthorized)
  | some grant =>
    if grant.expires ≤ env.mono ∨ grant.build ≠ build then (e, .unauthorized)
    else if !otaApproved grant.uid build then (e, .forbidden)
    else match image build with
      | none => (e, .notFound)
      | some bytes =>
        if maxDownloads ≤ e.server.downloads then (e, .busy)
        else
          ({ e with server := { e.server with downloads := e.server.downloads + 1 } }, .image bytes)

def downloadClosed (e : Edge) : Edge :=
  { e with server := { e.server with downloads := e.server.downloads - 1 } }

end Edge

/-! ## Events -/

inductive EdgeEvent
  | open (env : Env) (nonce sessionId : String)
  | message (env : Env) (ienv : Ingest.Env) (ref : Nat) (data : Incoming)
  | pong (env : Env) (ref : Nat)
  | handshakeTimeout (ref : Nat)
  /-- The socket's `close` event. -/
  | closed (ref : Nat)
  | beat (env : Env)
  | downlink (env : Env) (ref length : Nat)
  | grant (env : Env) (ref seq : Nat) (build token : String)
  | revokeGrants (uid : String)
  | download (env : Env) (image : String → Option Buffer) (build : String)
      (authorization : Option String)
  | downloadClosed
  | resumeJob (env : Env) (ienv : Ingest.Env) (id : Nat)
  /-- Datagrams from other transports, and what else happens to `Ingest`. -/
  | ingest (e : Ingest.HostEvent)

namespace Edge

/-- Events of `Ingest` that do not come from a direct session. -/
def stepIngest (cfg : Config) (e : Edge) (event : Ingest.HostEvent) : Edge :=
  match event with
  | .handle _ (.route (.direct _ _)) _ | .handleDurable _ (.route (.direct _ _)) _
  | .resumeJob _ _ | .dropDirectRoute _ _ | .restart _ => e
  | _ => { e with ingest := (e.ingest.step ⟨cfg.crypto, cfg.verify⟩ event).1 }

def step (cfg : Config) (otaApproved : String → String → Bool) (e : Edge) : EdgeEvent → Edge
  | .open env nonce sessionId => e.open cfg env nonce sessionId
  | .message env ienv ref data => e.message cfg env ienv ref data
  | .pong env ref => e.updateSession ref fun s => { s with lastHeard := env.mono }
  | .handshakeTimeout ref => if (e.session? ref).any Session.timer then e.fail ref else e
  | .closed ref => e.closed ref
  | .beat env => e.beat cfg env
  | .downlink env ref length => (e.downlink env ref length).1
  | .grant env ref seq build token => (e.grant cfg env otaApproved ref seq build token).1
  | .revokeGrants uid => e.revokeGrants uid
  | .download env image build authorization =>
    (e.download cfg env otaApproved image build authorization).1
  | .downloadClosed => e.downloadClosed
  | .resumeJob env ienv id => e.resumeJob cfg env ienv id
  | .ingest event => e.stepIngest cfg event

end Edge

end TMEdge.NodeLink
