import TMEdge.Library.JsMap
import TMEdge.Library.JsText
import TMEdge.Library.Run

/-!
# The student accounts

The model of `UserStore` (`web/auth.ts`) over one account file that any number of stores
share. A store holds the accounts of the file version it read last (`refresh`); every
change is made under the file's lock, after a forced reload, by an atomic replacement of
the file (`shared/private-file.ts`). The password hash is a point where other calls come
in between, so `create` and `verify` are two events each.

What the model does not decide is part of the event or of `Env`: the clock, the random
salt, the stamp a replaced file gets, whether the write fails before or after the
replacement, scrypt, the Unicode tables and the size of the written file.
-/

namespace TMEdge.Auth

open Library

/-! ## Accounts -/

structure User where
  email : Text
  name : Text
  salt : Text
  hash : Text
  createdAt : Nat
  google : Option Text
  deriving DecidableEq

/-- What `create`, `verify` and `google` throw; `io` is an error of the file system. -/
inductive AuthError
  | auth (message : Text)
  | busy (message : Text)
  | store (message : Text)
  | io
  deriving DecidableEq

/-- The platform a store runs on: scrypt with a 32-byte result, the length of the file
that holds a list of accounts, the domains that may sign up. -/
structure Env where
  unicode : Unicode
  scrypt : Text → List UInt8 → Vector UInt8 32
  fileBytes : List User → Nat
  allowedDomains : List Text

def atSign : UInt16 := 64

def dot : UInt16 := 46

/-- `/^[^@\s]+@[^@\s]+\.[^@\s]+$/`: one `@` with something on both sides, no white space,
and a dot inside the part behind the `@`. -/
def emailPattern (email : Text) : Bool :=
  match email.splitOn atSign with
  | [local_, domain] =>
    !local_.isEmpty && domain.tail.dropLast.contains dot && !email.any Text.isSpace
  | _ => false

def validEmail (email : Text) : Bool := email.length ≤ 254 && emailPattern email

def Env.normalise (env : Env) (email : Text) : Text := env.unicode.toLowerCase (Text.trim email)

/-- `email.split('@')[n]`. -/
def emailPart (email : Text) (n : Nat) : Option Text := (email.splitOn atSign)[n]?

def Env.domainAllowed (env : Env) (email : Text) : Bool :=
  let domain := (emailPart email 1).getD []
  env.allowedDomains.isEmpty || env.allowedDomains.contains domain

/-- `a || b` of two strings. -/
def orText (a b : Text) : Text := if a.isEmpty then b else a

/-- `name.trim().slice(0, 60) || email.split('@')[0] || email`. -/
def accountName (name email : Text) : Text :=
  orText (orText ((Text.trim name).take 60) ((emailPart email 0).getD [])) email

def Env.validUser (env : Env) (u : User) : Bool :=
  validEmail u.email && u.email == env.normalise u.email && u.name.length ≤ 60 &&
    (u.google.all fun g => 0 < g.length && g.length ≤ 255) &&
    ((u.salt.length == 32 && u.salt.all Text.isHexDigit && u.hash.length == 64 &&
        u.hash.all Text.isHexDigit) ||
      (u.google.isSome && u.salt.isEmpty && u.hash.isEmpty))

/-! ## The file and the stores -/

abbrev Stamp := Nat

structure File where
  users : List User
  stamp : Stamp

/-- A store: the accounts it read, and the stamp of the file they come from. -/
structure UserStore where
  users : JsMap Text User
  seen : Option Stamp

/-- The loop of `refresh` over the parsed list, with the addresses and the subjects read
so far. -/
def Env.loadUsers (env : Env) : JsMap Text User → List Text → List User →
    Option (JsMap Text User)
  | fresh, _, [] => some fresh
  | fresh, subjects, u :: list =>
    if !env.validUser u || fresh.has u.email || u.google.any (subjects.contains ·) then none
    else env.loadUsers (fresh.set u.email u) (subjects ++ u.google.toList) list

def Env.refresh (env : Env) (file : Option File) (store : UserStore) :
    Except AuthError UserStore :=
  match file with
  | none => .ok ⟨.empty, none⟩
  | some f =>
    if env.fileBytes f.users > 2000000 then .error (.store (js "user store too large"))
    else if store.seen = some f.stamp then .ok store
    else match env.loadUsers .empty [] f.users with
      | none => .error (.store (js "invalid or duplicate user in user store"))
      | some users => .ok ⟨users, some f.stamp⟩

/-- How `writePrivateJson` ends: the file is replaced, the write fails before the
replacement, or the directory cannot be flushed after it. -/
inductive Write
  | done (stamp : Stamp)
  | failed
  | unsynced (stamp : Stamp)

/-- `save`: the file that results, and the store unless the write threw. -/
def save (file : Option File) (users : JsMap Text User) : Write →
    Option File × Except AuthError UserStore
  | .done stamp => (some ⟨users.values, stamp⟩, .ok ⟨users, none⟩)
  | .failed => (file, .error .io)
  | .unsynced stamp => (some ⟨users.values, stamp⟩, .error .io)

/-! ## Passwords -/

/-- A symbol is neither a letter nor a digit, in any script. -/
def isSymbol (U : Unicode) (p : Nat) : Bool := !U.letter p && !U.number p

/-- `PASSWORD_REQUIREMENTS`: label and test. -/
def passwordRequirements (U : Unicode) : List (Text × (Text → Bool)) :=
  [(js "At least 8 characters (max. 64)", fun p => 8 ≤ p.length && p.length ≤ 64),
    (js "A lowercase letter", fun p => p.codePoints.any U.lowercase),
    (js "An uppercase letter", fun p => p.codePoints.any U.uppercase),
    (js "A number", fun p => p.codePoints.any U.number),
    (js "One or more symbols", fun p => p.codePoints.any (isSymbol U))]

/-- The labels of `unmetPasswordRequirements`. -/
def unmetPasswordRequirements (U : Unicode) (password : Text) : List Text :=
  ((passwordRequirements U).filter fun r => !r.2 password).map Prod.fst

/-! ## Calls -/

/-- A call whose password is being hashed. -/
inductive Call
  | create (store : Nat) (email name salt : Text) (hash : Vector UInt8 32)
  | verify (store : Nat) (emailRaw : Text) (user : Option User) (hash : Vector UInt8 32)

structure State where
  file : Option File
  stores : Nat → UserStore
  calls : Nat → Option Call

namespace State

variable (s : State)

def users : List User := (s.file.map File.users).getD []

def setStore (i : Nat) (store : UserStore) : State :=
  { s with stores := Function.update s.stores i store }

def setCall (c : Nat) (call : Option Call) : State :=
  { s with calls := Function.update s.calls c call }

variable {s}

theorem setStore_stores (i k : Nat) (store : UserStore) :
    (s.setStore i store).stores k = if k = i then store else s.stores k :=
  Function.update_apply ..

theorem setCall_calls (c d : Nat) (call : Option Call) :
    (s.setCall c call).calls d = if d = c then call else s.calls d :=
  Function.update_apply ..

end State

structure Identity where
  sub : Text
  email : Text
  name : Text

inductive Event
  | refresh (i : Nat)
  | createBegin (i c : Nat) (emailRaw name password : Text) (salt : Vector UInt8 16)
  | createCommit (c now : Nat) (io : Write)
  | google (i : Nat) (id : Identity) (signupOpen : Bool) (now : Nat) (io : Write)
  | verifyBegin (i c : Nat) (emailRaw password : Text) (salt : Vector UInt8 16)
  | verifyEnd (c : Nat)
  | abandon (c : Nat)

inductive Outcome
  | done
  | hashing
  | account (user : User)
  | noMatch
  | threw (error : AuthError)

def alreadyExists : AuthError :=
  .auth (js "An account with that email already exists. Sign in instead.")

def domainRefused (domains : List Text) : AuthError :=
  .auth (js "Use your university email (" ++
    (js " or ").intercalate (domains.map (atSign :: ·)) ++ js ").")

def Env.passwordRefused (env : Env) (unmet : List Text) : AuthError :=
  .auth (js "Your password still needs: " ++
    (js ", ").intercalate (unmet.map env.unicode.toLowerCase) ++ js ".")

/-- `create` up to the hash. -/
def Env.createBegin (env : Env) (s : State) (i c : Nat) (emailRaw name password : Text)
    (salt : Vector UInt8 16) : State × Outcome :=
  let email := env.normalise emailRaw
  let unmet := unmetPasswordRequirements env.unicode password
  if !validEmail email then (s, .threw (.auth (js "Enter a valid email address.")))
  else if !env.domainAllowed email then (s, .threw (domainRefused env.allowedDomains))
  else if password.length > 64 then
    (s, .threw (.auth (js "Use at most 64 characters for your password.")))
  else if !unmet.isEmpty then (s, .threw (env.passwordRefused unmet))
  else match env.refresh s.file (s.stores i) with
    | .error e => (s, .threw e)
    | .ok store =>
      if store.users.has email then (s.setStore i store, .threw alreadyExists)
      else ((s.setStore i store).setCall c (some (.create i email name
        (Text.toHex salt.toList) (env.scrypt password salt.toList))), .hashing)

/-- The forced reload at the start of a locked section: `seen = ''` and `refresh`. -/
def Env.reload (env : Env) (s : State) (i : Nat) : State × Option AuthError :=
  let stale : UserStore := ⟨(s.stores i).users, none⟩
  match env.refresh s.file stale with
  | .error e => (s.setStore i stale, some e)
  | .ok store => (s.setStore i store, none)

/-- `save(new Map(this.users).set(email, user))` by store `i`. -/
def addUser (s : State) (i : Nat) (user : User) (io : Write) : State × Outcome :=
  match save s.file ((s.stores i).users.set user.email user) io with
  | (file, .ok store) => ({ s with file := file }.setStore i store, .account user)
  | (file, .error e) => ({ s with file := file }, .threw e)

/-- `create` from the hash on. -/
def Env.createCommit (env : Env) (s : State) (c now : Nat) (io : Write) : State × Outcome :=
  match s.calls c with
  | some (.create i email name salt hash) =>
    match env.reload (s.setCall c none) i with
    | (s, some e) => (s, .threw e)
    | (s, none) =>
      if (s.stores i).users.has email then (s, .threw alreadyExists)
      else addUser s i
        ⟨email, accountName name email, salt, Text.toHex hash.toList, now, none⟩ io
  | _ => (s, .done)

def Env.google (env : Env) (s : State) (i : Nat) (id : Identity) (signupOpen : Bool)
    (now : Nat) (io : Write) : State × Outcome :=
  match env.reload s i with
  | (s, some e) => (s, .threw e)
  | (s, none) =>
    match (s.stores i).users.values.find? fun u => u.google == some id.sub with
    | some u => (s, .account u)
    | none =>
      let email := env.normalise id.email
      if !validEmail email || id.sub.isEmpty || id.sub.length > 255 then
        (s, .threw (.auth (js "Invalid Google identity.")))
      else if (s.stores i).users.has email then
        (s, .threw (.auth (js
          "That email already belongs to an account. Sign in with its original method.")))
      else if !signupOpen then (s, .threw (.auth (js "Sign-up is closed.")))
      else addUser s i ⟨email, accountName id.name email, [], [], now, some id.sub⟩ io

/-- The salt `verify` hashes with: the account's, or a random one. -/
def verifySalt (user : Option User) (random : Vector UInt8 16) : List UInt8 :=
  match user with
  | some u => if u.salt.isEmpty then random.toList else Text.fromHex u.salt
  | none => random.toList

/-- `verify` up to the hash. -/
def Env.verifyBegin (env : Env) (s : State) (i c : Nat) (emailRaw password : Text)
    (salt : Vector UInt8 16) : State × Outcome :=
  if emailRaw.length > 254 || password.length > 1024 then (s, .noMatch)
  else match env.refresh s.file (s.stores i) with
    | .error _ => (s, .noMatch)
    | .ok store =>
      let user := store.users.get (env.normalise emailRaw)
      ((s.setStore i store).setCall c
        (some (.verify i emailRaw user (env.scrypt password (verifySalt user salt)))), .hashing)

/-- `verify` from the hash on. -/
def Env.verifyEnd (env : Env) (s : State) (c : Nat) : State × Outcome :=
  match s.calls c with
  | some (.verify i _ user hash) =>
    let s := s.setCall c none
    match env.refresh s.file (s.stores i) with
    | .error _ => (s, .noMatch)
    | .ok store =>
      let s := s.setStore i store
      match user with
      | none => (s, .noMatch)
      | some u =>
        if u.google.isSome || u.hash.isEmpty ||
            (store.users.get u.email).map User.hash != some u.hash then (s, .noMatch)
        else if hash.toList = Text.fromHex u.hash then (s, .account u)
        else (s, .noMatch)
  | _ => (s, .done)

/-- One event: a refresh on its own is the constructor, `size` or `get`; a call is
abandoned when the hash is refused or fails or the lock is taken. -/
def Env.step (env : Env) (s : State) : Event → State × Outcome
  | .refresh i =>
    match env.refresh s.file (s.stores i) with
    | .error e => (s, .threw e)
    | .ok store => (s.setStore i store, .done)
  | .createBegin i c emailRaw name password salt =>
    env.createBegin s i c emailRaw name password salt
  | .createCommit c now io => env.createCommit s c now io
  | .google i id signupOpen now io => env.google s i id signupOpen now io
  | .verifyBegin i c emailRaw password salt => env.verifyBegin s i c emailRaw password salt
  | .verifyEnd c => env.verifyEnd s c
  | .abandon c =>
    (s.setCall c none, .threw (.busy (js "Sign-in is busy. Try again shortly.")))

/-- The state after a list of events. -/
def Env.after (env : Env) (s : State) (es : List Event) : State :=
  run (fun s e => (env.step s e).1) s es

/-- Any number of stores over a file, none of which has read it yet. -/
def start (file : Option File) : State :=
  ⟨file, fun _ => ⟨.empty, none⟩, fun _ => none⟩

end TMEdge.Auth
