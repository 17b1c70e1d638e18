import TMEdge.Auth.Users

/-!
# Session cookies and their revocation

The model of the two classes `Sessions`, that of the web tier (`web/auth.ts`) and that of
the student module (`student-session-service.ts`). A cookie is a signed body; it is revoked
by its signature in a file all instances share. Each instance keeps the contents of the
file version it read last and reloads when the stamp of the file differs. The set is
bounded: when it is full it is thrown away, and every cookie issued up to that moment is
refused from then on.

`Tier` says which of the two classes runs. The signature, the base64url text of a body, the
stamps of replaced files and the way a write ends are parameters; times are whole
milliseconds.
-/

namespace TMEdge.Auth

open Library

/-! ## Cookies -/

/-- What the body of a cookie says: the e-mail, the expiry, a nonce, an account version. -/
structure Payload where
  e : Text
  x : Int
  n : Text
  v : Option Text
  deriving DecidableEq

/-- What the instances share: the signature under the secret, the text of a body (base64url
of its JSON) and how it is read, the lifetime. -/
structure Keyring where
  mac : Text → Text
  encode : Payload → Text
  decode : Text → Option Payload
  ttl : Int

/-- The class that runs, with the `accountVersion` given to the constructor of the first. -/
inductive Tier
  | web (accountVersion : Option (Text → Option Text))
  | student

def Keyring.token (k : Keyring) (p : Payload) : Text :=
  k.encode p ++ dot :: k.mac (k.encode p)

/-- A version that is not empty. -/
def truthy (v : Option Text) : Option Text := v.filter fun t => !t.isEmpty

/-- What `issue` signs; `none` where it throws. -/
def Keyring.payload (k : Keyring) (tier : Tier) (email : Text) (now : Int) (nonce : Text)
    (version : Option Text) : Option Payload :=
  match tier with
  | .web none => some ⟨email, now + k.ttl, nonce, none⟩
  | .web (some accountVersion) =>
    match truthy (accountVersion email) with
    | none => none
    | some v => some ⟨email, now + k.ttl, nonce, some v⟩
  | .student => some ⟨email, now + k.ttl, nonce, truthy version⟩

def Keyring.issue (k : Keyring) (tier : Tier) (email : Text) (now : Int) (nonce : Text)
    (version : Option Text) : Option Text :=
  (k.payload tier email now nonce version).map k.token

/-- The body of a token whose signature matches: two parts, both present. -/
def Keyring.signedBody (k : Keyring) (token : Text) : Option Text :=
  match token.splitOn dot with
  | [body, mac] =>
    if body.isEmpty || mac.isEmpty then none
    else if k.mac body = mac then some body
    else none
  | _ => none

/-! ## The revocations and their file -/

/-- `validAfter`, with `none` for `-Infinity`, and the signatures of the revoked cookies with
their expiries. -/
structure Revocations where
  validAfter : Option Int
  revoked : JsMap Text Int

namespace Revocations

def empty : Revocations := ⟨none, .empty⟩

/-- `t <= validAfter`. -/
def cuts (r : Revocations) (t : Int) : Bool := r.validAfter.any fun v => t ≤ v

/-- The entries that have not expired. -/
def unexpired (r : Revocations) (now : Int) : Revocations :=
  ⟨r.validAfter, r.revoked.filter fun expiry => now < expiry⟩

def full (r : Revocations) : Bool := 10000 ≤ r.revoked.size

/-- Drop the expired entries; when the set is full even so, drop all of them and cut. -/
def makeRoom (r : Revocations) (now : Int) : Revocations :=
  let r := r.unexpired now
  if r.full then ⟨some now, .empty⟩ else r

def add (r : Revocations) (key : Text) (expiry : Int) : Revocations :=
  ⟨r.validAfter, r.revoked.set key expiry⟩

/-- The length of `{"validAfter":null,"revoked":[["key",0],["key",0]]}`. -/
def bytes (r : Revocations) : Nat :=
  28 + (r.validAfter.map Text.integerBytes).getD 4 +
    (r.revoked.entries.map fun e => 5 + e.1.length + Text.integerBytes e.2).sum +
      (r.revoked.size - 1)

def isBase64url (c : UInt16) : Bool :=
  (65 ≤ c && c ≤ 90) || (97 ≤ c && c ≤ 122) || (48 ≤ c && c ≤ 57) || c = 45 || c = 95

/-- `/^[A-Za-z0-9_-]{43}$/`. -/
def isMac (key : Text) : Bool := key.length == 43 && key.all isBase64url

end Revocations

structure Disk where
  content : Revocations
  stamp : Nat

/-- What an instance knows of the file: nothing yet (`null` in the web tier), an older
version than its own last write (`''`), or the version with a stamp. -/
inductive Seen
  | never
  | stale
  | at (stamp : Nat)
  deriving DecidableEq

structure Sessions where
  mem : Revocations
  seen : Seen

/-- `new Sessions`, before the web tier's first reload. -/
def Tier.fresh : Tier → Sessions
  | .web _ => ⟨.empty, .never⟩
  | .student => ⟨.empty, .stale⟩

/-- `reloadRevocations` of the web tier; `none` where it throws. -/
def reloadWeb (file : Option Disk) (s : Sessions) (now : Int) : Option Sessions :=
  match file with
  | none => if s.seen = .never then some s else none
  | some f =>
    if f.content.bytes > 2000000 then none
    else if s.seen = .at f.stamp then some s
    else if f.content.revoked.size > 10000 || f.content.revoked.keys.any (!Revocations.isMac ·)
    then none
    else some ⟨f.content.unexpired now, .at f.stamp⟩

/-- `reloadRevocations` of the student module. -/
def reloadStudent (file : Option Disk) (s : Sessions) (now : Int) : Option Sessions :=
  match file with
  | none =>
    match s.seen with
    | .at _ => none
    | _ => some s
  | some f =>
    if f.content.bytes > 2000000 then none
    else if s.seen = .at f.stamp then some s
    else if f.content.revoked.size > 10000 then none
    else some ⟨f.content.unexpired now, .at f.stamp⟩

def Tier.reload : Tier → Option Disk → Sessions → Int → Option Sessions
  | .web _ => reloadWeb
  | .student => reloadStudent

/-! ## Checking a cookie -/

/-- The account version of a cookie is not the one the account has. -/
def versionRefused (accountVersion : Option (Text → Option Text)) (p : Payload) : Bool :=
  match accountVersion with
  | none => false
  | some version => p.v.isNone || p.v != version p.e

/-- `detail` of the web tier. -/
def detailWeb (k : Keyring) (accountVersion : Option (Text → Option Text)) (file : Option Disk)
    (s : Sessions) (token : Text) (now : Int) : Sessions × Option (Text × Int) :=
  if token.isEmpty || token.length > 2048 then (s, none)
  else match reloadWeb file s now with
    | none => (s, none)
    | some s =>
      match k.signedBody token with
      | none => (s, none)
      | some body =>
        match k.decode body with
        | none => (s, none)
        | some p =>
          if p.x ≤ now || p.x > now + k.ttl || p.e.isEmpty || p.e.length > 254 ||
              s.mem.cuts (p.x - k.ttl) || s.mem.revoked.has (k.mac token) then (s, none)
          else if versionRefused accountVersion p then (s, none)
          else (s, some (p.e, p.x))

/-- `detail` of the student module. -/
def detailStudent (k : Keyring) (file : Option Disk) (s : Sessions) (token : Text) (now : Int) :
    Sessions × Option (Text × Int) :=
  if token.isEmpty || token.length > 2048 then (s, none)
  else match reloadStudent file s now with
    | none => (s, none)
    | some s =>
      match k.signedBody token with
      | none => (s, none)
      | some body =>
        if s.mem.revoked.has (k.mac token) then (s, none)
        else match k.decode body with
          | none => (s, none)
          | some p =>
            if p.x ≤ now || p.x > now + k.ttl || s.mem.cuts (p.x - k.ttl) ||
                s.mem.revoked.has (k.mac token) then (s, none)
            else (s, some (p.e, p.x))

/-- `detailWithoutReload` of the student module, on a token that `detail` has accepted. -/
def detailWithoutReload (k : Keyring) (token : Text) (now : Int) : Option Int :=
  match k.signedBody token with
  | none => none
  | some body =>
    match k.decode body with
    | none => none
    | some p => if !p.e.isEmpty && p.x > now then some p.x else none

def Tier.detail (tier : Tier) (k : Keyring) :
    Option Disk → Sessions → Text → Int → Sessions × Option (Text × Int) :=
  match tier with
  | .web accountVersion => detailWeb k accountVersion
  | .student => detailStudent k

/-! ## The instances and their file -/

/-- The file, the stamp the next version gets and the instances. The last three fields are
kept for the statements: the time of the last overflow, the tokens `revoke` was called
with, the time of the last call. -/
structure SessionState where
  file : Option Disk
  stamps : Nat
  insts : Nat → Sessions
  overflow : Option Int
  asked : List Text
  clock : Int

/-- How a call that writes ends: the file is replaced, the write fails before that or the
directory cannot be flushed after it, or the lock is taken. -/
inductive RevokeIo
  | done
  | failed
  | unsynced
  | busy
  deriving DecidableEq

inductive SessionEvent
  | start (i : Nat) (now : Int)
  | issue (i : Nat) (email : Text) (now : Int) (nonce : Text) (version : Option Text)
  | detail (i : Nat) (token : Text) (now : Int)
  | revoke (i : Nat) (token : Text) (now : Int) (io : RevokeIo)

def SessionEvent.now : SessionEvent → Int
  | .start _ now | .issue _ _ now _ _ | .detail _ _ now | .revoke _ _ now _ => now

inductive SessionOutcome
  | issued (token : Text)
  | accepted (email : Text) (expiresAt : Int)
  | refused
  | returned
  | threw
  deriving DecidableEq

namespace SessionState

variable (st : SessionState)

def setInst (i : Nat) (s : Sessions) : SessionState :=
  { st with insts := Function.update st.insts i s }

/-- `saveRevocations` of instance `i`, whose memory is `s`. -/
def save (i : Nat) (s : Sessions) : RevokeIo → SessionState × SessionOutcome
  | .done =>
    ({ st with file := some ⟨s.mem, st.stamps⟩, stamps := st.stamps + 1 }.setInst i
      ⟨s.mem, .stale⟩, .returned)
  | .unsynced =>
    ({ st with file := some ⟨s.mem, st.stamps⟩, stamps := st.stamps + 1 }.setInst i s, .threw)
  | _ => (st.setInst i s, .threw)

/-- Drop what has expired, make room, add an entry and save. -/
def commit (i : Nat) (s : Sessions) (now : Int) (entry : Option (Text × Int)) (io : RevokeIo) :
    SessionState × SessionOutcome :=
  let overflow := if (s.mem.unexpired now).full then some now else st.overflow
  let mem := s.mem.makeRoom now
  let mem := match entry with
    | none => mem
    | some (key, expiry) => mem.add key expiry
  { st with overflow := overflow }.save i ⟨mem, s.seen⟩ io

/-- `revoke` of the web tier: the whole check is made under the lock, after a forced reload
unless the instance has not read any file. -/
def revokeWeb (k : Keyring) (accountVersion : Option (Text → Option Text)) (i : Nat)
    (token : Text) (now : Int) (io : RevokeIo) : SessionState × SessionOutcome :=
  if io = .busy then (st, .threw)
  else
    let s := st.insts i
    let s := if s.seen = .never then s else ⟨s.mem, .stale⟩
    match detailWeb k accountVersion st.file s token now with
    | (s, none) => (st.setInst i s, .returned)
    | (s, some (_, expiresAt)) => st.commit i s now (some (k.mac token, expiresAt)) io

/-- `revoke` of the student module: a check on the instance's own memory, then the lock, a
forced reload and the change. -/
def revokeStudent (k : Keyring) (i : Nat) (token : Text) (now : Int) (io : RevokeIo) :
    SessionState × SessionOutcome :=
  match detailStudent k st.file (st.insts i) token now with
  | (s, none) => (st.setInst i s, .returned)
  | (s, some _) =>
    if io = .busy then (st.setInst i s, .threw)
    else match reloadStudent st.file ⟨s.mem, .stale⟩ now with
      | none => (st.setInst i ⟨s.mem, .stale⟩, .threw)
      | some s =>
        st.commit i s now ((detailWithoutReload k token now).map fun x => (k.mac token, x)) io

def revoke (k : Keyring) : Tier → Nat → Text → Int → RevokeIo → SessionState × SessionOutcome
  | .web accountVersion => st.revokeWeb k accountVersion
  | .student => st.revokeStudent k

/-- The constructor. -/
def start (tier : Tier) (i : Nat) (now : Int) : SessionState × SessionOutcome :=
  match tier with
  | .student => (st.setInst i tier.fresh, .returned)
  | .web _ =>
    match reloadWeb st.file tier.fresh now with
    | none => (st, .threw)
    | some s => (st.setInst i s, .returned)

def step (k : Keyring) (tier : Tier) (e : SessionEvent) : SessionState × SessionOutcome :=
  let st := { st with clock := e.now }
  match e with
  | .start i now => st.start tier i now
  | .issue _ email now nonce version =>
    match k.issue tier email now nonce version with
    | none => (st, .threw)
    | some token => (st, .issued token)
  | .detail i token now =>
    match tier.detail k st.file (st.insts i) token now with
    | (s, none) => (st.setInst i s, .refused)
    | (s, some (email, expiresAt)) => (st.setInst i s, .accepted email expiresAt)
  | .revoke i token now io =>
    { st with asked := st.asked ++ [token] }.revoke k tier i token now io

end SessionState

/-- Any number of instances and no revocations file yet. -/
def Tier.init (tier : Tier) (clock : Int) : SessionState :=
  ⟨none, 0, fun _ => tier.fresh, none, [], clock⟩

/-- The state after a list of calls. -/
def sessionsAfter (k : Keyring) (tier : Tier) (st : SessionState) (es : List SessionEvent) :
    SessionState :=
  run (fun st e => (st.step k tier e).1) st es

end TMEdge.Auth
