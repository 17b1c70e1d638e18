import TMEdge.Library.JsMap
import TMEdge.Library.JsText
import TMEdge.Library.Run

/-!
# Live command receipts

The model of `LiveCommandReceipts` (`modules/nodes/application/live-command-receipts.ts`).
A call of `send` issues a receipt, suspends in `dispatchBounded` while the dispatch and its
timer race (`Race`), and goes on when the race is decided (`resume`). The dispatch may still
settle after its timer. A timer cannot fire between the settling of the dispatch and the
end of `dispatchBounded`, because only microtasks run in between.

The receipt of the `n`-th call that got one has the id `n`: the random ids the service draws
are different ones. What the dispatch resolves to, what `authorized` and `boot` return and
the moments are part of the event; one event reads the clock once. `heard` keeps the STATUS
packets observed so far, for the statements.
-/

namespace TMEdge.Commands

open Library

/-! ## Receipts -/

inductive ReceiptState
  | requested
  | sent
  | acknowledged
  | timedOut
  | uncertain
  | failed
  deriving DecidableEq

/-- The set `TERMINAL`. -/
def ReceiptState.terminal : ReceiptState → Bool
  | .requested | .sent => false
  | _ => true

structure NodeCommand where
  uid : Text
  opcode : Int
  argument : Int
  value : Int
  deriving DecidableEq

structure CommandReceipt where
  id : Nat
  uid : Text
  operation : Text
  sequence : Option Nat
  boot : Option Nat
  state : ReceiptState
  requestedAt : Int
  updatedAt : Int
  message : Text
  deriving DecidableEq

/-- The race of `dispatchBounded`: under way, or what it was decided for. -/
inductive Race
  | waiting
  | resolved (sequence : Nat)
  | rejected (unavailable : Bool)
  | timedOut
  | over
  deriving DecidableEq

/-- A `StoredReceipt`, and how far its call of `send` is. -/
structure StoredReceipt where
  receipt : CommandReceipt
  issuer : Text
  generation : Nat
  race : Race
  deriving DecidableEq

structure Observation where
  sequence : Nat
  boot : Option Nat
  generation : Nat
  at_ : Int
  deriving DecidableEq

/-- A STATUS packet, and how many receipts had been issued when it was observed. -/
structure Heard where
  uid : Text
  sequence : Nat
  boot : Option Nat
  at_ : Int
  sends : Nat
  deriving DecidableEq

def maxReceipts : Nat := 512

def receiptTtlMs : Int := 15 * 60000

def ackTimeoutMs : Int := 60000

def operation (opcode : Int) : Text :=
  if opcode = 1 then js "Set parameter"
  else if opcode = 2 then js "Relearn background"
  else if opcode = 3 then js "Identify"
  else if opcode = 4 then js "Reboot"
  else if opcode = 5 then js "Save parameters"
  else js "Device command"

inductive ErrorKind
  | conflict
  | unavailable
  deriving DecidableEq

/-- How a call of `send` ends: with a receipt, with a `ReceiptDispatchError`, or with an
`ApplicationError` before there is a receipt. -/
inductive Reply
  | receipt (receipt : CommandReceipt)
  | dispatchError (receipt : CommandReceipt) (kind : ErrorKind)
  | unavailable (message : Text)
  deriving DecidableEq

/-- The receipts by call, the keys of the map `receipts` in its order, and the rest. -/
structure State where
  stored : List StoredReceipt := []
  receipts : List Nat := []
  observations : JsMap Text Observation := .empty
  generation : Nat := 0
  dispatching : List Nat := []
  stopped : Bool := false
  heard : List Heard := []

namespace State

/-! ## Updating and sweeping -/

def modify (s : State) (n : Nat) (f : StoredReceipt → StoredReceipt) : State :=
  { s with stored := s.stored.modify n f }

def update (s : State) (n : Nat) (state : ReceiptState) (message : Text) (now : Int) : State :=
  s.modify n fun stored =>
    { stored with receipt := { stored.receipt with state, message, updatedAt := now } }

def isTerminal (s : State) (n : Nat) : Bool :=
  (s.stored[n]?).any (·.receipt.state.terminal)

def dispatchTimedOut : Text :=
  js "Dispatch status timed out. Check device state before sending again."

/-- The body of the loop of `sweep`. -/
def sweepOne (now : Int) (s : State) (n : Nat) : State :=
  match s.stored[n]? with
  | none => s
  | some stored =>
    if stored.receipt.state.terminal ∧ receiptTtlMs ≤ now - stored.receipt.updatedAt then
      { s with receipts := s.receipts.filter (· ≠ n) }
    else if stored.receipt.state = .requested ∧
        ackTimeoutMs ≤ now - stored.receipt.requestedAt then
      s.update n .uncertain dispatchTimedOut now
    else if stored.receipt.state = .sent ∧ ackTimeoutMs ≤ now - stored.receipt.updatedAt then
      s.update n .timedOut
        (js "Outcome uncertain: device acknowledgement timed out. Check device state before sending again.")
        now
    else s

def sweep (s : State) (now : Int) : State := s.receipts.foldl (sweepOne now) s

/-- `reserve`; the oldest terminal receipt makes room. -/
def reserve (s : State) : Except Text State :=
  if s.stopped then .error (js "Command status service is stopping.")
  else if maxReceipts ≤ s.dispatching.length then
    .error (js "Too many outstanding dispatches; wait before sending again.")
  else if s.receipts.length < maxReceipts then .ok s
  else match s.receipts.find? s.isTerminal with
    | some n => .ok { s with receipts := s.receipts.filter (· ≠ n) }
    | none => .error (js "Too many pending commands; wait for their status before sending again.")

/-! ## Correlating STATUS packets -/

def correlate (s : State) (n : Nat) (observation : Observation) (now : Int) : State :=
  match s.stored[n]? with
  | none => s
  | some stored =>
    let receipt := stored.receipt
    if receipt.state ≠ .sent ∨ observation.generation ≤ stored.generation ∨
        observation.at_ < receipt.requestedAt then s
    else if receipt.boot ≠ none ∧ observation.boot ≠ receipt.boot then
      s.update n .uncertain
        (js "Device restarted; check device state before sending again.") now
    else if receipt.sequence = some observation.sequence then
      s.update n .acknowledged
        (js "Device acknowledged. Acknowledgement does not confirm execution or persistence.") now
    else s

def correlateUid (uid : Text) (observation : Observation) (now : Int) (s : State) (n : Nat) :
    State :=
  if (s.stored[n]?).any (·.receipt.uid = uid) then s.correlate n observation now else s

/-- The room a new observation finds: at 512 the oldest one is dropped, also where the uid
has one already. -/
def roomForObservation (s : State) : JsMap Text Observation :=
  if maxReceipts ≤ s.observations.size then
    s.observations.delete (s.observations.keys.head?.getD [])
  else s.observations

def observeStatus (s : State) (uid : Text) (sequence : Nat) (boot : Option Nat) (at_ now : Int) :
    State :=
  let s := s.sweep now
  let observation : Observation := ⟨sequence, boot, s.generation + 1, at_⟩
  let heard : Heard := ⟨uid, sequence, boot, at_, s.stored.length⟩
  let s := { s with
    observations := s.roomForObservation.set uid observation
    generation := s.generation + 1
    heard := s.heard ++ [heard] }
  s.receipts.foldl (correlateUid uid observation now) s

/-! ## Sending -/

def receiptOf (s : State) (n : Nat) (reply : CommandReceipt → Reply) : Option Reply :=
  (s.stored[n]?).map fun stored => reply stored.receipt

/-- A receipt is issued. -/
def issue (s : State) (command : NodeCommand) (issuer : Text) (boot : Option Nat) (now : Int) :
    State :=
  let n := s.stored.length
  let receipt : CommandReceipt :=
    { id := n, uid := command.uid, operation := operation command.opcode, sequence := none, boot
      state := .requested, requestedAt := now, updatedAt := now, message := js "Requested." }
  { s with
    stored := s.stored ++ [⟨receipt, issuer, s.generation, .over⟩]
    receipts := s.receipts ++ [n] }

def deliveryUnconfirmed : Text :=
  js "Delivery could not be confirmed. Check device state before sending again."

/-- `send` up to its dispatch. `authorized` is `none` where it throws. -/
def send (s : State) (command : NodeCommand) (issuer : Text) (boot : Option Nat)
    (authorized : Option Bool) (now : Int) : State × Option Reply :=
  match (s.sweep now).reserve with
  | .error message => (s.sweep now, some (.unavailable message))
  | .ok s =>
    let n := s.stored.length
    let s := s.issue command issuer boot now
    match authorized with
    | some true =>
      ({ s.modify n ({ · with race := .waiting }) with dispatching := s.dispatching ++ [n] },
        none)
    | some false =>
      let s := s.update n .failed (js "Access changed; no command was sent.") now
      (s, s.receiptOf n (.dispatchError · .conflict))
    | none =>
      let s := s.update n .uncertain deliveryUnconfirmed now
      (s, s.receiptOf n (.dispatchError · .conflict))

/-- The dispatch settles: with a sequence, or with an error that is unavailable or not. -/
def settle (s : State) (n : Nat) (outcome : Except Bool Nat) : State :=
  let s := { s with dispatching := s.dispatching.filter (· ≠ n) }
  s.modify n fun stored =>
    if stored.race = .waiting then
      match outcome with
      | .ok sequence => { stored with race := .resolved sequence }
      | .error unavailable => { stored with race := .rejected unavailable }
    else stored

/-- The timer of a dispatch fires. -/
def dispatchTimer (s : State) (n : Nat) (now : Int) : State :=
  if (s.stored[n]?).any (·.race = .waiting) then
    (s.update n .uncertain dispatchTimedOut now).modify n ({ · with race := .timedOut })
  else s

def serviceStopped : Text := js "Service stopped; command outcome is uncertain."

/-- The rest of `send` behind a dispatch that resolved. -/
def dispatched (s : State) (n : Nat) (sequence : Nat) (now : Int) : State :=
  let s := s.modify n fun stored =>
    { stored with receipt := { stored.receipt with sequence := some sequence }, race := .over }
  if s.isTerminal n then s
  else if s.stopped then s.update n .uncertain serviceStopped now
  else
    let s := s.update n .sent (js "Sent — waiting for device.") now
    match (s.stored[n]?).bind fun stored => s.observations.get stored.receipt.uid with
    | some observed => s.correlate n observed now
    | none => s

/-- The race of a call is decided and the call goes on. -/
def resume (s : State) (n : Nat) (now : Int) : State × Option Reply :=
  match (s.stored[n]?).map StoredReceipt.race with
  | some (.resolved sequence) =>
    let s := s.dispatched n sequence now
    (s, s.receiptOf n .receipt)
  | some (.rejected unavailable) =>
    let s := (s.update n .uncertain deliveryUnconfirmed now).modify n ({ · with race := .over })
    (s, s.receiptOf n (.dispatchError · (if unavailable then .unavailable else .conflict)))
  | some .timedOut =>
    let s := s.modify n ({ · with race := .over })
    (s, s.receiptOf n .receipt)
  | _ => (s, none)

/-! ## Reading and stopping -/

def get (s : State) (issuer uid : Text) (id : Nat) (now : Int) : State × Option CommandReceipt :=
  let s := s.sweep now
  (s, if id ∈ s.receipts then
      ((s.stored[id]?).filter fun stored => stored.issuer = issuer ∧ stored.receipt.uid = uid).map
        (·.receipt)
    else none)

def stopOne (now : Int) (s : State) (n : Nat) : State :=
  if s.isTerminal n then s else s.update n .uncertain serviceStopped now

def dispose (s : State) (now : Int) : State :=
  let s := { s with stopped := true }
  { s.receipts.foldl (stopOne now) s with observations := .empty }

end State

/-! ## Runs -/

inductive Event
  | send (command : NodeCommand) (issuer : Text) (boot : Option Nat) (authorized : Option Bool)
      (now : Int)
  | settle (n : Nat) (outcome : Except Bool Nat)
  | dispatchTimer (n : Nat) (now : Int)
  | resume (n : Nat) (now : Int)
  | get (issuer uid : Text) (id : Nat) (now : Int)
  | observeStatus (uid : Text) (sequence : Nat) (boot : Option Nat) (at_ now : Int)
  | dispose (now : Int)

def step (s : State) : Event → State
  | .send command issuer boot authorized now => (s.send command issuer boot authorized now).1
  | .settle n outcome => s.settle n outcome
  | .dispatchTimer n now => s.dispatchTimer n now
  | .resume n now => (s.resume n now).1
  | .get issuer uid id now => (s.get issuer uid id now).1
  | .observeStatus uid sequence boot at_ now => s.observeStatus uid sequence boot at_ now
  | .dispose now => s.dispose now

end TMEdge.Commands
