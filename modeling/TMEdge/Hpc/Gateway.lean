import TMEdge.Library.JsMap
import TMEdge.Library.JsText
import TMEdge.Library.Run
import TMEdge.Library.Table

/-!
# Sessions at HKU

The model of `Gateway` (`algo/train/hpc/gateway.ts`). Every call of `open` and the session
object it makes are one record (`Login`); the call waits for the close of an old session, for
a port, for the login, the tunnel, the host key and SSH (`OpenStage`), and what it does without
waiting is one step. A call of `close` that has begun is a `Closer`.

Given from outside: the answers of the awaited calls, whether the caller's authority lasts,
whether a host key is pinned and an SSH link alive, and the clock. `close` of a tunnel and of
a link resolves. `log` keeps what the logins came to and `clock` the last reading of the
clock, for the statements. Credentials, progress steps and the arguments of the tools are left
out.
-/

namespace TMEdge.Hpc

open Library

/-! ## Definitions -/

inductive SessionState
  | opening
  | up
  | closing
  deriving DecidableEq

/-- A tunnel or an SSH link of a session. -/
inductive Link
  | absent
  | live
  | closed
  deriving DecidableEq

def Link.close : Link → Link
  | .live => .closed
  | link => link

/-- Where a call of `open` waits, and how it ended. -/
inductive OpenStage
  | waiting (closer : Option Nat)
  | picking (used : List Nat) (p : Nat)
  | picked (p : Nat)
  | authenticating
  | connecting
  | scanning
  | confirming
  | linking
  | cleaning (closer : Option Nat)
  | closingSsh
  | closingTunnel
  | returned
  | threw
  deriving DecidableEq

namespace OpenStage

/-- The call goes on; it can still fail at HKU. -/
def underWay : OpenStage → Bool
  | .waiting _ | .picking _ _ | .picked _ | .authenticating | .connecting | .scanning
  | .confirming | .linking => true
  | _ => false

def isWaiting : OpenStage → Bool
  | .waiting _ => true
  | _ => false

/-- `pickPort` has not come back. -/
def choosing : OpenStage → Bool
  | .picking _ _ | .picked _ => true
  | _ => false

/-- The call is in its `catch`. -/
def ending : OpenStage → Bool
  | .cleaning _ | .closingSsh | .closingTunnel => true
  | _ => false

end OpenStage

structure Login where
  user : Text
  uid : Text
  port : Nat
  state : SessionState
  openedAt : Int
  lastUsed : Int
  tunnel : Link
  ssh : Link
  busy : Nat
  stage : OpenStage
  deriving DecidableEq

/-- What a call of `close` waits for; it closes a link that was there when it came to it. -/
inductive ClosePhase
  | ssh (held : Bool)
  | tunnel (held : Bool)
  | done
  deriving DecidableEq

structure Closer where
  session : Nat
  phase : ClosePhase
  deriving DecidableEq

/-- A key of `failures`. -/
inductive FailureKey
  | user (name : Text)
  | uid (uid : Text)
  deriving DecidableEq

def keysOf (user uid : Text) : List FailureKey := [.user user, .uid uid]

/-- What a login came to: a credential failure, or a success. -/
structure LoginResult where
  user : Text
  uid : Text
  at_ : Int
  ok : Bool
  deriving DecidableEq

def LoginResult.keyed (r : LoginResult) (key : FailureKey) : Bool := key ∈ keysOf r.user r.uid

structure GatewayConfig where
  idleTtlMs : Int
  maxSessions : Nat
  ports : Nat × Nat

structure Gateway where
  logins : List Login := []
  sessions : JsMap Text Nat := .empty
  failures : JsMap FailureKey (List Int) := .empty
  closers : List Closer := []
  log : List LoginResult := []
  clock : Int := 0

def lockoutWindowMs : Int := 15 * 60000

def lockoutFailures : Nat := 3

namespace Gateway

variable (cfg : GatewayConfig) (s : Gateway)

def setLogin (n : Nat) (c : Login) : Gateway := { s with logins := s.logins.set n c }

/-- The record of the session in the map. -/
def entry (user : Text) : Option (Nat × Login) :=
  (s.sessions.get user).bind fun n => (s.logins[n]?).map fun c => (n, c)

/-! ## The lockout -/

def recent (now : Int) (times : List Int) : List Int :=
  times.filter fun t => now - t < lockoutWindowMs

/-- How long the failures of one key bar a login. -/
def waitFor (now : Int) (recent : List Int) : Int :=
  match recent[recent.length - lockoutFailures]? with
  | some t => if lockoutFailures ≤ recent.length then max 0 (t + lockoutWindowMs - now) else 0
  | none => 0

def prune (now : Int) (failures : JsMap FailureKey (List Int)) (key : FailureKey) :
    JsMap FailureKey (List Int) :=
  failures.set key (recent now ((failures.get key).getD []))

/-- `lockedFor`: the failures that are left, and how long to wait. -/
def lockedFor (user uid : Text) (now : Int) : Gateway × Int :=
  let failures := (keysOf user uid).foldl (prune now) s.failures
  let waits := (keysOf user uid).map fun key => waitFor now ((failures.get key).getD [])
  ({ s with failures, clock := now }, waits.foldl max 0)

/-- `fail`: HKU refused the credentials. -/
def recordFailure (user uid : Text) (now : Int) : Gateway :=
  { s with
    failures := (keysOf user uid).foldl (fun failures key =>
      failures.set key ((failures.get key).getD [] ++ [now])) s.failures
    log := s.log ++ [⟨user, uid, now, false⟩]
    clock := now }

/-! ## Closing -/

/-- `close` up to what it waits for; it resolves at once where it has nothing to do. -/
def close (user : Text) (expected : Option Nat) : Gateway × Option Nat :=
  match s.entry user with
  | none => (s, none)
  | some (n, c) =>
    if expected.any (· ≠ n) ∨ c.state = .closing then (s, none)
    else
      ({ s.setLogin n { c with state := .closing } with
          closers := s.closers ++ [⟨n, .ssh (c.ssh ≠ .absent)⟩] }, some s.closers.length)

/-- What a `close` waits for has happened. -/
def closing (i : Nat) : Gateway :=
  match s.closers[i]? with
  | none => s
  | some closer =>
    match s.logins[closer.session]?, closer.phase with
    | some c, .ssh held =>
      { s.setLogin closer.session { c with ssh := if held then c.ssh.close else c.ssh } with
        closers := s.closers.set i { closer with phase := .tunnel (c.tunnel ≠ .absent) } }
    | some c, .tunnel held =>
      { s.setLogin closer.session
          { c with tunnel := if held then c.tunnel.close else c.tunnel } with
        closers := s.closers.set i { closer with phase := .done }
        sessions :=
          if s.sessions.get c.user = some closer.session then s.sessions.delete c.user
          else s.sessions }
    | _, _ => s

/-! ## Opening -/

/-- The first port of the range from `p` on that no session had. -/
def nextPort (used : List Nat) (p : Nat) : Option Nat :=
  (List.range' p (cfg.ports.2 + 1 - p)).find? fun p => p ∉ used

/-- The `catch` of `open`. -/
def catch_ (n : Nat) (c : Login) : Gateway :=
  if s.sessions.get c.user = some n then
    let (s', closer) := s.close c.user none
    match s'.logins[n]? with
    | some c => s'.setLogin n { c with stage := .cleaning closer }
    | none => s'
  else s.setLogin n { c with stage := .closingSsh }

/-- `pickPort` goes on from `p`, or finds none. -/
def pick (n : Nat) (c : Login) (used : List Nat) (p : Nat) : Gateway :=
  match nextPort cfg used p with
  | some p => s.setLogin n { c with stage := .picking used p }
  | none => s.catch_ n c

/-- The ports of the sessions in the map. -/
def usedPorts : List Nat := s.sessions.values.filterMap fun n => (s.logins[n]?).map Login.port

/-- `open` behind the close of an old session: the new one goes into the map. -/
def enter (n : Nat) (c : Login) (now : Int) : Gateway :=
  if cfg.maxSessions ≤ s.sessions.size then s.setLogin n { c with stage := .threw }
  else
    let c := { c with openedAt := now, lastUsed := now, stage := .authenticating }
    let s := { s.setLogin n c with sessions := s.sessions.set c.user n }
    s.pick cfg n c s.usedPorts cfg.ports.1

/-- `open` up to its first wait. -/
def open_ (user uid : Text) (now : Int) : Gateway :=
  let (s, wait) := s.lockedFor user uid now
  if 0 < wait then s
  else
    let call (stage : OpenStage) : Login :=
      { user, uid, port := 0, state := .opening, openedAt := now, lastUsed := now
        tunnel := .absent, ssh := .absent, busy := 0, stage }
    match s.entry user with
    | none => { s with logins := s.logins ++ [call (.waiting none)] }.enter cfg s.logins.length
        (call (.waiting none)) now
    | some (_, existing) =>
      if existing.state = .opening then s
      else
        let (s', closer) := s.close user none
        { s' with logins := s'.logins ++ [call (.waiting closer)] }

/-- `checkAuthority`. -/
def inCharge (n : Nat) (c : Login) (authorized : Bool) : Bool :=
  s.sessions.get c.user = some n && c.state = .opening && authorized

/-- The SSH link is made and opened. -/
def link (n : Nat) (c : Login) : Gateway := s.setLogin n { c with ssh := .live, stage := .linking }

/-- A call that has gone through. -/
def succeed (n : Nat) (c : Login) (now : Int) : Gateway :=
  { s.setLogin n { c with state := .up, lastUsed := now, stage := .returned } with
    failures := (keysOf c.user c.uid).foldl JsMap.delete s.failures
    log := s.log ++ [⟨c.user, c.uid, now, true⟩]
    clock := now }

/-- The end of a call, whose links are closed. -/
def end_ (n : Nat) (c : Login) : Gateway := s.setLogin n { c with stage := .threw }

end Gateway

/-- What a call waits for has come. -/
inductive Arrival
  | closed
  | port (free : Bool)
  | picked
  | authenticated
  | connected (pinned : Bool)
  | scanned (keys : Nat)
  | confirmed (trusted : Bool)
  | linked
  | cleaned
  | refused
  | failed

namespace Gateway

variable (cfg : GatewayConfig) (s : Gateway)

def closedBy (closer : Option Nat) : Bool :=
  match closer with
  | none => true
  | some i => (s.closers[i]?).any (·.phase = .done)

/-- A call goes on; `authorized` is what its caller says then. -/
def resume (n : Nat) (arrival : Arrival) (authorized : Bool) (now : Int) : Gateway :=
  match s.logins[n]? with
  | none => s
  | some c =>
    match c.stage, arrival with
    | .waiting closer, .closed => if s.closedBy closer then s.enter cfg n c now else s
    | .picking used p, .port free =>
      if free then s.setLogin n { c with stage := .picked p } else s.pick cfg n c used (p + 1)
    | .picking _ _, .failed => s.catch_ n c
    | .picked p, .picked =>
      let c := { c with port := p }
      let s := s.setLogin n c
      if s.inCharge n c authorized then s.setLogin n { c with stage := .authenticating }
      else s.catch_ n c
    | .authenticating, .authenticated =>
      if s.inCharge n c authorized then s.setLogin n { c with stage := .connecting }
      else s.catch_ n c
    | .authenticating, .refused => (s.recordFailure c.user c.uid now).catch_ n c
    | .authenticating, .failed => s.catch_ n c
    | .connecting, .connected pinned =>
      let c := { c with tunnel := .live }
      let s := s.setLogin n c
      if s.inCharge n c authorized then
        if pinned then s.link n c else s.setLogin n { c with stage := .scanning }
      else s.catch_ n c
    | .connecting, .failed => s.catch_ n c
    | .scanning, .scanned keys =>
      if s.inCharge n c authorized ∧ keys ≠ 0 then s.setLogin n { c with stage := .confirming }
      else s.catch_ n c
    | .scanning, .failed => s.catch_ n c
    | .confirming, .confirmed trusted =>
      if trusted ∧ s.inCharge n c authorized then s.link n c else s.catch_ n c
    | .confirming, .failed => s.catch_ n c
    | .linking, .linked =>
      if s.inCharge n c authorized then s.succeed n c now else s.catch_ n c
    | .linking, .refused => (s.recordFailure c.user c.uid now).catch_ n c
    | .linking, .failed => s.catch_ n c
    | .cleaning closer, .cleaned => if s.closedBy closer then s.end_ n c else s
    | .closingSsh, .cleaned =>
      s.setLogin n { c with ssh := c.ssh.close, stage := .closingTunnel }
    | .closingTunnel, .cleaned =>
      s.setLogin n { c with tunnel := c.tunnel.close, stage := .threw }
    | _, _ => s

/-! ## Using and reaping -/

/-- `live`: a session whose link has died is closed. -/
def live (user : Text) (alive : Bool) : Gateway × Option Nat :=
  match s.entry user with
  | none => (s, none)
  | some (n, c) =>
    if c.state ≠ .up then (s, none)
    else if alive then (s, some n)
    else ((s.close user none).1, none)

/-- `use` before and behind the operation. -/
def use (user : Text) (alive touch : Bool) (now : Int) : Gateway :=
  match s.live user alive with
  | (s, some n) =>
    match s.logins[n]? with
    | some c =>
      s.setLogin n { c with busy := c.busy + 1, lastUsed := if touch then now else c.lastUsed }
    | none => s
  | (s, none) => s

def used (n : Nat) (touch : Bool) (now : Int) : Gateway :=
  match s.logins[n]? with
  | some c =>
    s.setLogin n { c with busy := c.busy - 1, lastUsed := if touch then now else c.lastUsed }
  | none => s

/-- `reap` comes to a session. -/
def reap (user : Text) (alive : Bool) (now : Int) : Gateway :=
  match s.entry user with
  | none => s
  | some (_, c) =>
    if c.state ≠ .up ∨ 0 < c.busy then s
    else if cfg.idleTtlMs < now - c.lastUsed ∨ !alive then (s.close user none).1
    else s

/-- A tunnel has closed by itself. -/
def tunnelClosed (n : Nat) : Gateway :=
  match s.logins[n]? with
  | none => s
  | some c =>
    if c.tunnel = .absent then s
    else if s.sessions.get c.user = some n then (s.close c.user none).1
    else s

/-! ## What the operations do -/

section

variable {s : Gateway} {n : Nat} {c c' : Login} {user : Text}

@[simp] theorem setLogin_sessions : (s.setLogin n c).sessions = s.sessions := rfl

@[simp] theorem setLogin_closers : (s.setLogin n c).closers = s.closers := rfl

theorem setLogin_get (hc : s.logins[n]? = some c) (c' : Login) (i : Nat) :
    (s.setLogin n c').logins[i]? = if i = n then some c' else s.logins[i]? :=
  getElem?_set_of_some hc c' i

theorem setLogin_get_self (hc : s.logins[n]? = some c) (c' : Login) :
    (s.setLogin n c').logins[n]? = some c' := by
  rw [setLogin_get hc, if_pos rfl]

theorem setLogin_twice : (s.setLogin n c).setLogin n c' = s.setLogin n c' := by
  simp [setLogin]

theorem entry_spec (h : s.entry user = some (n, c)) :
    s.sessions.get user = some n ∧ s.logins[n]? = some c := by
  obtain ⟨m, hGet, h⟩ := Option.bind_eq_some_iff.mp h
  obtain ⟨d, hd, h⟩ := Option.map_eq_some_iff.mp h
  obtain ⟨rfl, rfl⟩ := Prod.mk.inj h
  exact ⟨hGet, hd⟩

theorem entry_of (hGet : s.sessions.get user = some n) (hc : s.logins[n]? = some c) :
    s.entry user = some (n, c) := by
  simp [entry, hGet, hc]

theorem close_cases (s : Gateway) (user : Text) (expected : Option Nat) :
    s.close user expected = (s, none) ∨
    ∃ n c, s.sessions.get user = some n ∧ s.logins[n]? = some c ∧ c.state ≠ .closing ∧
      s.close user expected =
        ({ s.setLogin n { c with state := .closing } with
            closers := s.closers ++ [⟨n, .ssh (c.ssh ≠ .absent)⟩] }, some s.closers.length) := by
  unfold close
  rcases h : s.entry user with - | ⟨n, c⟩
  · exact .inl rfl
  · obtain ⟨hGet, hc⟩ := entry_spec h
    dsimp only
    split
    · exact .inl rfl
    · rename_i hNot
      exact .inr ⟨n, c, hGet, hc, fun h => hNot (.inr h), rfl⟩

theorem close_of_closing {expected : Option Nat} (hGet : s.sessions.get user = some n)
    (hc : s.logins[n]? = some c) (hState : c.state = .closing) :
    s.close user expected = (s, none) := by
  simp [close, entry_of hGet hc, hState]

theorem close_get (hc : s.logins[n]? = some c) (user : Text) (expected : Option Nat) :
    ∃ state, (s.close user expected).1.logins[n]? = some { c with state } := by
  rcases s.close_cases user expected with hClose | ⟨m, d, -, hd, -, hClose⟩
  · exact ⟨c.state, by rw [hClose, hc]⟩
  · rw [hClose]
    change ∃ state, (s.setLogin m _).logins[n]? = some { c with state }
    rw [setLogin_get hd]
    split
    · rename_i hn
      subst hn
      obtain rfl := Option.some.inj (hd.symm.trans hc)
      exact ⟨.closing, rfl⟩
    · exact ⟨c.state, hc⟩

theorem close_of_open (hGet : s.sessions.get user = some n) (hc : s.logins[n]? = some c)
    (hState : c.state ≠ .closing) :
    s.close user none =
      ({ s.setLogin n { c with state := .closing } with
          closers := s.closers ++ [⟨n, .ssh (c.ssh ≠ .absent)⟩] }, some s.closers.length) := by
  simp [close, entry_of hGet hc, hState]

theorem setLogin_self (hc : s.logins[n]? = some c) : s.setLogin n c = s := by
  obtain ⟨hLt, hGet⟩ := List.getElem?_eq_some_iff.mp hc
  unfold setLogin
  rw [← hGet, List.set_getElem_self]

/-- What the `catch` of `open` does, to the record that has just been written too. -/
theorem catch_cases (hc : s.logins[n]? = some c) (hUser : c'.user = c.user) :
    s.sessions.get c.user = some n ∧ c'.state ≠ .closing ∧
      (s.setLogin n c').catch_ n c' =
        { s.setLogin n
            { c' with state := .closing, stage := .cleaning (some s.closers.length) } with
          closers := s.closers ++ [⟨n, .ssh (c'.ssh ≠ .absent)⟩] } ∨
    s.sessions.get c.user = some n ∧ c'.state = .closing ∧
      (s.setLogin n c').catch_ n c' = s.setLogin n { c' with stage := .cleaning none } ∨
    s.sessions.get c.user ≠ some n ∧
      (s.setLogin n c').catch_ n c' = s.setLogin n { c' with stage := .closingSsh } := by
  have hGet' := setLogin_get_self hc c'
  unfold catch_
  rw [setLogin_sessions, ← hUser]
  by_cases hGet : s.sessions.get c'.user = some n
  · rw [if_pos hGet]
    by_cases hState : c'.state = .closing
    · refine .inr (.inl ⟨hGet, hState, ?_⟩)
      rw [close_of_closing (s := s.setLogin n c') hGet hGet' hState]
      simp only [hGet', setLogin_twice]
    · refine .inl ⟨hGet, hState, ?_⟩
      rw [close_of_open (s := s.setLogin n c') hGet hGet' hState]
      have hClosed := setLogin_get_self hGet' { c' with state := .closing }
      simp only [hClosed, setLogin_closers]
      simp [setLogin]
  · rw [if_neg hGet]
    exact .inr (.inr ⟨hGet, setLogin_twice⟩)

theorem inCharge_iff {authorized : Bool} : s.inCharge n c authorized = true ↔
    s.sessions.get c.user = some n ∧ c.state = .opening ∧ authorized = true := by
  simp [inCharge, and_assoc]

end

end Gateway

/-! ## Runs -/

inductive GatewayEvent
  | open_ (user uid : Text) (now : Int)
  | resume (n : Nat) (arrival : Arrival) (authorized : Bool) (now : Int)
  | close (user : Text) (expected : Option Nat)
  | closing (i : Nat)
  | live (user : Text) (alive : Bool)
  | use (user : Text) (alive touch : Bool) (now : Int)
  | used (n : Nat) (touch : Bool) (now : Int)
  | reap (user : Text) (alive : Bool) (now : Int)
  | tunnelClosed (n : Nat)
  | lockedFor (user uid : Text) (now : Int)

def gatewayStep (cfg : GatewayConfig) (s : Gateway) : GatewayEvent → Gateway
  | .open_ user uid now => s.open_ cfg user uid now
  | .resume n arrival authorized now => s.resume cfg n arrival authorized now
  | .close user expected => (s.close user expected).1
  | .closing i => s.closing i
  | .live user alive => (s.live user alive).1
  | .use user alive touch now => s.use user alive touch now
  | .used n touch now => s.used n touch now
  | .reap user alive now => s.reap cfg user alive now
  | .tunnelClosed n => s.tunnelClosed n
  | .lockedFor user uid now => (s.lockedFor user uid now).1

/-! ## A pilot -/

def pilotGateway : GatewayConfig where
  idleTtlMs := 600000
  maxSessions := 8
  ports := (4000, 4009)

def person (n : Nat) : Text := [n.toUInt16]

def account : Text := js "u3500001"

/-- The `n`-th call of `open` comes to the login. -/
def comesToLogin (n : Nat) : List GatewayEvent :=
  [.resume n (.port true) true 0, .resume n .picked true 0]

end TMEdge.Hpc
