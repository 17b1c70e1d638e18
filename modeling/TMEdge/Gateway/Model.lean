import TMEdge.Gateway.HelloReplay
import TMEdge.Gateway.Wire
import TMEdge.Library.Run

/-!
# The gateway server

`GatewayServer` of `src/edge/gwlink.ts`: the sessions of the gateways, the HELLO that
authenticates one, the table of the gateways connected and the datagrams that pass.

The server is a step function over frames, completions of the HELLO journal, closed
connections, commands for a node and restarts of the process. A session that waits for the
journal holds its HELLO as `pending`. What an operation does to the outside is appended to
`trace`. The HMAC, `JSON.parse` and `net.isIP` are parameters.
-/

namespace TMEdge.Gateway

open Library Protocol HelloReplayStore

def tmgwVersion : Int := 1
def tHello : UInt8 := 0x01
def tUplink : UInt8 := 0x10
def tDownlink : UInt8 := 0x20
def helloWindowMs : Int := 60000
def maxHellos : Nat := 4096
def maxHelloBytes : Nat := 4096

/-! ## HELLO -/

structure Hello where
  id : String
  ts : Int
  nonce : String
deriving DecidableEq

namespace Hello

def key (h : Hello) : String := journalKey h.id h.nonce

def expires (h : Hello) : Int := h.ts + helloWindowMs

end Hello

/-- `Number.isSafeInteger` of a number of a JSON text. -/
def safeInteger? (v : Protocol.Json) : Option Int :=
  v.integer?.filter fun n => decide (|n| ≤ DeviceKeys.maxSafeInteger)

/-- A well-formed HELLO, with its mac. -/
def parseHello (json : Option Protocol.Json) : Option (Hello × String) := do
  let es ← json.bind fun v => v.entries.toOption
  let v ← (Protocol.Json.field? es "v").bind Protocol.Json.integer?
  let id ← (Protocol.Json.field? es "gatewayId").bind Protocol.Json.string?
  let ts ← (Protocol.Json.field? es "ts").bind safeInteger?
  let nonce ← (Protocol.Json.field? es "nonce").bind Protocol.Json.string?
  let mac ← (Protocol.Json.field? es "mac").bind Protocol.Json.string?
  if v = tmgwVersion ∧ isName 64 id.toList ∧ isName 128 nonce.toList ∧ isHex64 mac then
    some (⟨id, ts, nonce⟩, mac)
  else none

/-- `hex HMAC-SHA256(token, "tmgw1|<gatewayId>|<ts>|<nonce>")` -/
def helloMac (crypto : Crypto) (token : Buffer) (h : Hello) : String :=
  toHex (crypto.hmacSha256 token
    (ascii ("tmgw1|" ++ h.id ++ "|" ++ toString h.ts ++ "|" ++ h.nonce)))

/-! ## Sessions -/

/-- A gateway that has been let in; `session` is its link. -/
structure Conn where
  id : String
  token : Buffer
  session : Nat
deriving DecidableEq

/-- A HELLO with a valid mac that waits for `helloStore.accept`. The journal on disk has
its answer at once, that of a service comes with the completion. -/
structure Pending where
  hello : Hello
  token : Buffer
  answer : Option Bool
deriving DecidableEq

/-- The variables of `session`. -/
structure Session where
  conn : Option Conn
  denied : Bool
  authenticating : Bool
  closed : Bool
  pending : Option Pending

inductive Effect
  /-- A session has shown the mac of this HELLO. -/
  | authenticated (session : Nat) (hello : Hello) (mac : String) (token : Buffer)
  /-- The journal has accepted this HELLO. -/
  | journaled (hello : Hello)
  /-- `conns.set` -/
  | installed (session : Nat) (hello : Hello)
  | deny (session : Nat) (reason : String)
  | destroy (session : Nat)
  /-- `onUplink` -/
  | uplink (session : Nat) (datagram : Buffer) (source : String)
  | write (session : Nat) (type : UInt8) (payload : Buffer)
deriving DecidableEq

/-- Where `helloStore.accept` writes. -/
inductive HelloStore
  | none
  | file
  | service

structure Config where
  crypto : Crypto
  isIP : String → Bool
  parseJson : Buffer → Option Protocol.Json
  token : Buffer
  /-- `opts.tokens` is given. -/
  perGateway : Bool
  helloStore : HelloStore

/-- What the code reads while it handles one event. -/
structure Env where
  /-- The clock at the window check. -/
  now : Int
  /-- The clock after the mac has been checked. -/
  journalNow : Int
  tokens : String → List Buffer
  io : FileIo

/-- A session of an earlier process is `none`. -/
structure GatewayServer where
  sessions : List (Option Session)
  conns : JsMap String Conn
  hellos : JsMap String Int
  file : HelloFile
  /-- The constructor of this process has not thrown. -/
  up : Bool
  trace : List Effect

namespace GatewayServer

def session? (s : GatewayServer) (ref : Nat) : Option Session := s.sessions[ref]?.join

def updateSession (s : GatewayServer) (ref : Nat) (f : Session → Session) : GatewayServer :=
  { s with sessions := s.sessions.modify ref (Option.map f) }

def emit (s : GatewayServer) (e : Effect) : GatewayServer := { s with trace := s.trace ++ [e] }

def new (cfg : Config) (file : HelloFile) : GatewayServer where
  sessions := []
  conns := .empty
  hellos := .empty
  file := file
  up :=
    match cfg.helloStore with
    | .file => opens file
    | _ => true
  trace := []

/-! ## A session -/

/-- A refused session is told why, once. -/
def deny (s : GatewayServer) (ref : Nat) (reason : String) : GatewayServer :=
  match s.session? ref with
  | none => s
  | some x =>
    if x.denied then s
    else (s.updateSession ref fun x => { x with denied := true }).emit (.deny ref reason)

def candidates (cfg : Config) (env : Env) (id : String) : List Buffer :=
  if cfg.perGateway then env.tokens id else [cfg.token]

def credentialValid (cfg : Config) (env : Env) (c : Conn) : Bool :=
  !cfg.perGateway || (env.tokens c.id).contains c.token

/-- A gateway that reconnects replaces its old session. -/
def install (s : GatewayServer) (ref : Nat) (h : Hello) (token : Buffer) : GatewayServer :=
  match s.session? ref with
  | none => s
  | some x =>
    if x.denied ∨ x.closed then s
    else
      let c : Conn := ⟨h.id, token, ref⟩
      let replaced := ((s.conns.get h.id).map fun old => Effect.destroy old.session).toList
      { s.updateSession ref (fun x => { x with conn := some c }) with
        hellos := s.hellos.set h.key h.expires
        conns := s.conns.set h.id c
        trace := s.trace ++ replaced ++ [.installed ref h] }

/-- A HELLO with a valid mac: the nonces of this process, then the journal. -/
def journal (cfg : Config) (env : Env) (s : GatewayServer) (ref : Nat) (h : Hello)
    (token : Buffer) : GatewayServer :=
  let s := { s with hellos := s.hellos.filter fun expires => decide (env.journalNow ≤ expires) }
  if s.hellos.has h.key then s.deny ref "replayed HELLO"
  else if maxHellos ≤ s.hellos.size then s.deny ref "HELLO capacity exceeded"
  else
    let s := s.updateSession ref fun x => { x with authenticating := true }
    match cfg.helloStore with
    | .none => s.install ref h token
    | .service => s.updateSession ref fun x => { x with pending := some ⟨h, token, none⟩ }
    | .file =>
      let r := accept s.file h.id h.nonce h.expires env.journalNow env.io
      let s := { s with file := r.1 }
      match r.2 with
      | .failed => s.deny ref "HELLO journal unavailable"
      | .refused => s.updateSession ref fun x => { x with pending := some ⟨h, token, some false⟩ }
      | .accepted =>
        (s.updateSession ref fun x => { x with pending := some ⟨h, token, some true⟩ }).emit
          (.journaled h)

/-- The first frame of a session. -/
def hello (cfg : Config) (env : Env) (s : GatewayServer) (ref : Nat) (payload : Buffer) :
    GatewayServer :=
  if maxHelloBytes < payload.length then s.deny ref "bad HELLO"
  else
    match parseHello (cfg.parseJson payload) with
    | none => s.deny ref "bad HELLO"
    | some (h, mac) =>
      if helloWindowMs < |env.now - h.ts| then s.deny ref "clock skew or replayed HELLO"
      else
        match (candidates cfg env h.id).find? fun token => helloMac cfg.crypto token h = mac with
        | none => s.deny ref "bad token"
        | some token => (s.emit (.authenticated ref h mac token)).journal cfg env ref h token

def uplinkSource (c : Conn) (u : Addressed) : String :=
  "gw:" ++ c.id ++ "|" ++ u.addr ++ ":" ++ toString u.port

/-- A frame of a session that has been let in. Pings, image results and counters touch
neither the table nor the datagrams. -/
def accepted (cfg : Config) (env : Env) (s : GatewayServer) (ref : Nat) (c : Conn) (type : UInt8)
    (payload : Buffer) : GatewayServer :=
  if !credentialValid cfg env c then s.deny ref "gateway credential expired or revoked"
  else if type = tUplink then
    match parseAddressed cfg.isIP payload with
    | none => s
    | some u => s.emit (.uplink ref u.datagram (uplinkSource c u))
  else s

/-- A frame, also of a session whose close has been processed. -/
def onFrame (cfg : Config) (env : Env) (s : GatewayServer) (ref : Nat) (type : UInt8)
    (payload : Buffer) : GatewayServer :=
  match s.session? ref with
  | none => s
  | some x =>
    if x.denied then s
    else
      match x.conn with
      | some c => s.accepted cfg env ref c type payload
      | none =>
        if x.authenticating then s.deny ref "HELLO authentication pending"
        else if type ≠ tHello then s.deny ref "HELLO expected"
        else s.hello cfg env ref payload

/-- `await this.helloStore.accept(...)` has come back; `answer` is what a service says,
`none` that it failed. -/
def resume (s : GatewayServer) (ref : Nat) (answer : Option Bool) : GatewayServer :=
  match (s.session? ref).bind Session.pending with
  | none => s
  | some p =>
    let s := s.updateSession ref fun x => { x with pending := none }
    match p.answer.orElse fun _ => answer with
    | some true => s.install ref p.hello p.token
    | some false => s.deny ref "replayed HELLO or clock rollback"
    | none => s.deny ref "HELLO journal unavailable"

/-- `link.onClose`. The connection is known by its object, here by its session. -/
def onClose (s : GatewayServer) (ref : Nat) : GatewayServer :=
  match s.session? ref with
  | none => s
  | some x =>
    let s := s.updateSession ref fun x => { x with closed := true }
    match x.conn with
    | none => s
    | some c => if s.conns.get c.id = some c then { s with conns := s.conns.delete c.id } else s

/-! ## Commands for a node -/

/-- `/^gw:([^|]+)\|(.+):(\d+)$/`: the id, the address and the digits of the port. -/
def matchSource (source : String) : Option (String × String × List Char) :=
  match source.toList with
  | 'g' :: 'w' :: ':' :: rest =>
    let id := rest.takeWhile (· ≠ '|')
    match rest.dropWhile (· ≠ '|') with
    | [] => none
    | _ :: target =>
      let port := target.rtakeWhile (· ≠ ':')
      -- What is before the last colon, without it.
      let addr := (target.rdropWhile (· ≠ ':')).dropLast
      if id = [] ∨ addr = [] ∨ port = [] ∨ !port.all Char.isDigit ∨ target.length = port.length ∨
          addr.any fun c => c = '\n' || c = '\r' || c = '\u2028' || c = '\u2029' then
        none
      else some (String.ofList id, String.ofList addr, port)
  | _ => none

/-- `Number` of decimal digits. -/
def decimal (digits : List Char) : Nat := Nat.ofDigitChars 10 digits 0

/-- `/^gw:([^|]+)\|/` -/
def gatewayOf (source : String) : Option String :=
  match source.toList with
  | 'g' :: 'w' :: ':' :: rest =>
    let id := rest.takeWhile (· ≠ '|')
    if id ≠ [] ∧ id.length < rest.length then some (String.ofList id) else none
  | _ => none

/-- Whether the command has gone out; a datagram too long for a frame throws. -/
def sendDownlink (cfg : Config) (env : Env) (s : GatewayServer) (source : String)
    (datagram : Buffer) : GatewayServer × Except String Bool :=
  match matchSource source with
  | none => (s, .ok false)
  | some (id, addr, digits) =>
    match s.conns.get id with
    | none => (s, .ok false)
    | some c =>
      if !credentialValid cfg env c then (s.emit (.destroy c.session), .ok false)
      else if !cfg.isIP addr ∨ decimal digits < 1 ∨ 65535 < decimal digits then (s, .ok false)
      else
        match addressed cfg.isIP addr (decimal digits) datagram with
        | .error e => (s, .error e)
        | .ok payload =>
          match frame tDownlink.toNat payload with
          | .error e => (s, .error e)
          | .ok _ => (s.emit (.write c.session tDownlink payload), .ok true)

/-! ## Steps -/

inductive Event
  | connect
  | frame (env : Env) (session : Nat) (type : UInt8) (payload : Buffer)
  | resume (session : Nat) (answer : Option Bool)
  | closed (session : Nat)
  | sendDownlink (env : Env) (source : String) (datagram : Buffer)
  /-- The process ends, at any point, and a new one starts over the same journal. -/
  | restart

def step (cfg : Config) (s : GatewayServer) : Event → GatewayServer
  | .connect =>
    if s.up then { s with sessions := s.sessions ++ [some ⟨none, false, false, false, none⟩] }
    else s
  | .frame env ref type payload => s.onFrame cfg env ref type payload
  | .resume ref answer => s.resume ref answer
  | .closed ref => s.onClose ref
  | .sendDownlink env source datagram => (s.sendDownlink cfg env source datagram).1
  | .restart =>
    { new cfg s.file with sessions := s.sessions.map fun _ => none, trace := s.trace }

end GatewayServer

end TMEdge.Gateway
