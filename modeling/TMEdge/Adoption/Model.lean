import TMEdge.Library.JsMap
import TMEdge.Library.JsText
import TMEdge.Library.Run

/-!
# Adoption requests

The model of `Provisioning` (`edge/provisioning.ts`): a flasher asks for a node to be
admitted, a person approves or denies. Pending requests live in a map and in
`nodes.json.pending.json`, which is replaced as a whole; an approval appends the node to
`nodes.json` first and enters it in the running registry then. Of the registry and of
`nodes.json` the model keeps the uids.

The registry is built from `nodes.json` with the uids in lower case. Clock readings, fresh
request ids and whether a file could be replaced are part of the event. The audit log is
left out: no call reads it and its failures are swallowed.
-/

namespace TMEdge.Adoption

open Library

/-! ## Requests -/

def maxPending : Nat := 32

def requestTtlMs : Int := 30 * 60 * 1000

structure JoinRequest where
  id : Text
  uid : Text
  label : Text
  firmware : Option Text
  from_ : Text
  at_ : Int
  expiresAt : Int
  deriving DecidableEq

inductive ErrorCode
  | validation
  | conflict
  | notFound
  | unavailable
  deriving DecidableEq

/-- An `ApplicationError`, or another error by its message. -/
inductive Refusal
  | application (code : ErrorCode) (message : Text)
  | error (message : Text)
  deriving DecidableEq

def colon : UInt16 := 58

/-- `n` groups of two hexadecimal digits behind the first, with colons between. -/
def hexPairs : Nat → Text → Bool
  | 0, [a, b] => Text.isHexDigit a && Text.isHexDigit b
  | n + 1, a :: b :: c :: t => Text.isHexDigit a && Text.isHexDigit b && c == colon && hexPairs n t
  | _, _ => false

/-- `UID_RE`. -/
def uidPattern (uid : Text) : Bool := hexPairs 5 uid

/-- A letter, a digit, an underscore, a blank or one of `. , ' ( ) / -`. -/
def isLabelUnit (c : UInt16) : Bool :=
  (48 ≤ c && c ≤ 57) || (65 ≤ c && c ≤ 90) || (97 ≤ c && c ≤ 122) || c == 95 ||
    (js " .,'()" ++ [47, 45]).contains c

/-- `LABEL_RE`: 1 to 60 such characters. -/
def labelPattern (label : Text) : Bool :=
  1 ≤ label.length && label.length ≤ 60 && label.all isLabelUnit

/-- 36 hexadecimal digits and dashes. -/
def idPattern (id : Text) : Bool :=
  id.length == 36 && id.all fun c => Text.isHexDigit c || c == 45

def isSafeInteger (x : Int) : Bool := x.natAbs ≤ 2 ^ 53 - 1

/-- What the constructor asks of a stored row. -/
def validRow (r : JoinRequest) : Bool :=
  idPattern r.id && uidPattern r.uid && labelPattern r.label &&
    (r.firmware.all fun f => f.length ≤ 40) && r.from_.length ≤ 100 && isSafeInteger r.at_ &&
      isSafeInteger r.expiresAt && r.expiresAt - r.at_ == requestTtlMs

/-- The length of a row in JSON. -/
def rowBytes (r : JoinRequest) : Nat :=
  62 + r.id.jsonBytes + r.uid.jsonBytes + r.label.jsonBytes +
    (r.firmware.map Text.jsonBytes).getD 4 + r.from_.jsonBytes + Text.integerBytes r.at_ +
      Text.integerBytes r.expiresAt

/-- The length of the rows in JSON, with the line feed behind them. -/
def fileBytes (rows : List JoinRequest) : Nat :=
  3 + (rows.map rowBytes).sum + (rows.length - 1)

/-! ## The service -/

/-- `reg.nodes` by uid, and the pending requests by id. -/
structure Provisioning where
  nodes : List Text
  pending : JsMap Text JoinRequest

/-- The loop of the constructor over the stored rows. -/
def loadRows (nodes : List Text) (now : Int) : JsMap Text JoinRequest → List JoinRequest →
    Except Refusal (JsMap Text JoinRequest)
  | pending, [] => .ok pending
  | pending, r :: rows =>
    if !validRow r then .error (.error (js "invalid pending adoption request"))
    else if r.expiresAt > now && !nodes.contains r.uid then
      loadRows nodes now (pending.set r.id r) rows
    else loadRows nodes now pending rows

/-- The constructor, over a registry that was built from `nodes.json`. -/
def openStore (U : Unicode) (nodesFile : List Text) (pendingFile : Option (List JoinRequest))
    (now : Int) : Except Refusal Provisioning :=
  match pendingFile with
  | none => .ok ⟨nodesFile.map U.toLowerCase, .empty⟩
  | some rows =>
    if fileBytes rows > 128 * 1024 then .error (.error (js "unsafe pending adoption storage"))
    else if rows.length > maxPending then
      .error (.error (js "invalid pending adoption storage"))
    else match loadRows (nodesFile.map U.toLowerCase) now .empty rows with
      | .error e => .error e
      | .ok pending => .ok ⟨nodesFile.map U.toLowerCase, pending⟩

namespace Provisioning

variable (p : Provisioning)

def expire (now : Int) : Provisioning :=
  { p with pending := p.pending.filter fun r => !(r.expiresAt ≤ now) }

@[simp] theorem expire_nodes (p : Provisioning) (now : Int) : (p.expire now).nodes = p.nodes := rfl

def requests (now : Int) : List JoinRequest :=
  (p.expire now).pending.values.mergeSort fun a b => a.at_ ≤ b.at_

end Provisioning

inductive Status
  | registered
  | pending
  | unknown
  deriving DecidableEq

/-- The service, `nodes.json` by uid and the pending file. `clock` is the time of the last
call, kept for the statements. -/
structure World where
  service : Provisioning
  nodesFile : List Text
  pendingFile : Option (List JoinRequest)
  clock : Int

inductive Event
  | request (uid label firmware caller : Text) (now : Int) (id : Text) (io : Bool)
  | approve (id : Text) (now : Int) (nodesIo pendingIo : Bool)
  | deny (id : Text) (now : Int) (io : Bool)
  | requests (now : Int)
  | statusOf (uid : Text) (now : Int)
  | restart (now : Int)

def Event.now : Event → Int
  | .request _ _ _ _ now _ _ | .approve _ now _ _ | .deny _ now _ | .requests now
  | .statusOf _ now | .restart now => now

inductive Outcome
  | pending (request : JoinRequest)
  | alreadyRegistered (uid : Text)
  | approved (uid label : Text)
  | denied (request : JoinRequest)
  | listed (requests : List JoinRequest)
  | status (status : Status)
  | opened
  | threw (error : Refusal)
  deriving DecidableEq

def storageUnavailable : Refusal :=
  .application .unavailable (js "provisioning storage is unavailable")

def noSuchRequest : Refusal :=
  .application .notFound (js "no such request (it may have expired)")

def isRegistered (uid : Text) : Refusal :=
  .application .conflict (uid ++ js " is already registered")

namespace World

variable (w : World)

def expire (now : Int) : World := { w with service := w.service.expire now }

@[simp] theorem expire_nodesFile (w : World) (now : Int) :
    (w.expire now).nodesFile = w.nodesFile := rfl

@[simp] theorem expire_service (w : World) (now : Int) :
    (w.expire now).service = w.service.expire now := rfl

def setPending (pending : JsMap Text JoinRequest) : World :=
  { w with service := { w.service with pending := pending } }

def request (U : Unicode) (uidRaw labelRaw firmwareRaw caller : Text) (now : Int) (id : Text)
    (io : Bool) : World × Outcome :=
  let w := w.expire now
  let uid := (U.toLowerCase uidRaw).trim
  if !uidPattern uid then
    (w, .threw (.application .validation (js "uid must be a MAC like 30:ed:a0:cb:f5:f8")))
  else
    let rawLabel := labelRaw.trim
    if !rawLabel.isEmpty && !labelPattern rawLabel then
      (w, .threw (.application .validation
        (js "label may only contain letters, digits and . , ' ( ) / -")))
    else
      let cut := firmwareRaw.trim.take 40
      let firmware := if cut.isEmpty then none else some cut
      if w.service.nodes.contains uid then (w, .alreadyRegistered uid)
      else match w.service.pending.values.find? fun r => r.uid == uid with
        | some existing => (w, .pending existing)
        | none =>
          if maxPending ≤ w.service.pending.size then
            (w, .threw (.application .conflict
              (js "too many requests are already waiting for an answer")))
          else
            let req : JoinRequest :=
              ⟨id, uid, if rawLabel.isEmpty then uid else rawLabel, firmware, caller, now,
                now + requestTtlMs⟩
            if io then
              ({ w with pendingFile := some (w.service.pending.values ++ [req]) }.setPending
                (w.service.pending.set req.id req), .pending req)
            else (w, .threw storageUnavailable)

def approve (id : Text) (now : Int) (nodesIo pendingIo : Bool) : World × Outcome :=
  let w := w.expire now
  match w.service.pending.get id with
  | none => (w, .threw noSuchRequest)
  | some req =>
    if w.service.nodes.contains req.uid then
      (w.setPending (w.service.pending.delete id), .threw (isRegistered req.uid))
    else if w.nodesFile.contains req.uid then (w, .threw (isRegistered req.uid))
    else if !nodesIo then (w, .threw (.error (js "nodes.json")))
    else
      let pending := w.service.pending.delete id
      ({ w with
        nodesFile := w.nodesFile ++ [req.uid]
        service := ⟨w.service.nodes ++ [req.uid], pending⟩
        pendingFile := if pendingIo then some pending.values else w.pendingFile },
        .approved req.uid req.label)

def deny (id : Text) (now : Int) (io : Bool) : World × Outcome :=
  let w := w.expire now
  match w.service.pending.get id with
  | none => (w, .threw noSuchRequest)
  | some req =>
    if io then
      ({ w with
        pendingFile := some (w.service.pending.values.filter fun r => r.id != id) }.setPending
          (w.service.pending.delete id), .denied req)
    else (w, .threw storageUnavailable)

def statusOf (U : Unicode) (uid : Text) (now : Int) : World × Outcome :=
  let w := w.expire now
  let u := U.toLowerCase uid
  (w, .status (if w.service.nodes.contains u then .registered
    else if w.service.pending.values.any fun r => r.uid == u then .pending else .unknown))

def step (U : Unicode) (e : Event) : World × Outcome :=
  let w := { w with clock := e.now }
  match e with
  | .request uid label firmware caller now id io => w.request U uid label firmware caller now id io
  | .approve id now nodesIo pendingIo => w.approve id now nodesIo pendingIo
  | .deny id now io => w.deny id now io
  | .requests now => (w.expire now, .listed (w.service.requests now))
  | .statusOf uid now => w.statusOf U uid now
  | .restart now =>
    match openStore U w.nodesFile w.pendingFile now with
    | .error e => (w, .threw e)
    | .ok service => ({ w with service := service }, .opened)

end World

/-- The state after a list of calls. -/
def worldAfter (U : Unicode) (w : World) (es : List Event) : World :=
  run (fun w e => (w.step U e).1) w es

/-- A service over a registry built from `nodes.json`, with no pending file yet. -/
def startWorld (U : Unicode) (nodes : List Text) (clock : Int) : World :=
  ⟨⟨nodes.map U.toLowerCase, .empty⟩, nodes, none, clock⟩

end TMEdge.Adoption
