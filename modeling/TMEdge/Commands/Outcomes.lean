import TMEdge.Commands.Receipts

/-!
# Durable command outcomes

The model of `DurableCommandOutcomes`
(`modules/nodes/application/durable-command-outcomes.ts`) over
`PostgresCommandOutcomeRepository`. A call of `send` waits for the record of its intent, for
its dispatch and for the record that it was sent (`Stage`), and then for the record of an
outcome or for a STATUS. Outcomes that `observeStatus` and the acknowledgement timers find
are written on their own (`Deferred`).

A statement is carried out once, after it was issued; it may report an error although it
was carried out, or be answered with an error and never be. The `n`-th command has the id
`n`: the random ids the service draws are different ones. The key `uid:sequence` is the pair.
The description of a command is the command. `heard` keeps the STATUS packets, for the
statements; the operational log is left out.
-/

namespace TMEdge.Commands

open Library

/-! ## Rows -/

inductive CommandOutcome
  | requested
  | sent
  | acknowledged
  | timedOut
  | uncertain
  | failed
  deriving DecidableEq

/-- The outcomes that `markInFlightUncertain` takes for terminal. -/
def CommandOutcome.terminal : CommandOutcome → Bool
  | .requested | .sent => false
  | _ => true

inductive ActorKind
  | console
  | system
  | student
  deriving DecidableEq

structure Actor where
  id : Text
  kind : ActorKind
  deriving DecidableEq

structure OutcomeRow where
  id : Nat
  nodeId : Text
  command : NodeCommand
  actor : Actor
  outcome : CommandOutcome
  at_ : Int
  deriving DecidableEq

/-- The insertion of `record`: a row of that command and outcome is left as it is. -/
def insertOutcome (rows : List OutcomeRow) (row : OutcomeRow) : List OutcomeRow :=
  if rows.any fun r => r.id = row.id ∧ r.outcome = row.outcome then rows else rows ++ [row]

/-- `DISTINCT ON (command_id)`: a row of each command. -/
def latestRows (rows : List OutcomeRow) : List OutcomeRow :=
  rows.foldr (fun r kept => r :: kept.filter (·.id ≠ r.id)) []

/-- `markInFlightUncertain`. -/
def markInFlightUncertain (rows : List OutcomeRow) (at_ : Int) : List OutcomeRow :=
  rows ++ ((latestRows rows).filter fun r =>
      !rows.any fun t => t.id = r.id ∧ t.outcome.terminal).map
    fun r => { r with outcome := .uncertain, at_ }

/-! ## The service -/

/-- Where a call of `send` waits. -/
inductive Stage
  | requesting
  | dispatching
  | recordingSent (sequence : Nat) (at_ : Int)
  | closing (outcome : CommandOutcome) (at_ : Int)
  | finished
  deriving DecidableEq

/-- A call of `send`; `done` says that the record it waits for was carried out. -/
structure Call where
  command : NodeCommand
  actor : Actor
  boot : Option Nat
  requestedAt : Int
  generation : Nat
  sequence : Option Nat
  stage : Stage
  done : Bool
  deriving DecidableEq

def Call.ended (c : Call) : Call := { c with stage := .finished, done := false }

abbrev Key := Text × Nat

structure PendingCommand where
  id : Nat
  command : NodeCommand
  actor : Actor
  boot : Option Nat
  requestedAt : Int
  deriving DecidableEq

/-- An entry of `recentStatus`. -/
structure RecentStatus where
  sequence : Nat
  at_ : Int
  generation : Nat
  boot : Option Nat
  deriving DecidableEq

/-- A write behind `setImmediate` or a timer: not begun, issued, or over. -/
inductive DeferredStatus
  | queued
  | writing (at_ : Int)
  | over
  deriving DecidableEq

structure Deferred where
  item : PendingCommand
  outcome : CommandOutcome
  status : DeferredStatus
  deriving DecidableEq

/-- A call of `markInFlightUncertain`, and whether it was carried out. -/
structure Mark where
  at_ : Int
  carried : Bool
  deriving DecidableEq

structure Outcomes where
  calls : List Call := []
  pending : JsMap Key PendingCommand := .empty
  recentStatus : JsMap Text RecentStatus := .empty
  armed : List (Nat × Key) := []
  generation : Nat := 0
  disposed : Bool := false
  deferred : List Deferred := []
  marks : List Mark := []
  rows : List OutcomeRow := []
  heard : List Heard := []

def maxPending : Nat := 512

def defaultAckTimeoutMs : Int := 60000

namespace Outcomes

variable (s : Outcomes)

/-! ## Sending -/

def setCall (n : Nat) (c : Call) : Outcomes := { s with calls := s.calls.set n c }

/-- `send` up to the record of its intent. -/
def send (command : NodeCommand) (actor : Actor) (boot : Option Nat) (now : Int) : Outcomes :=
  if s.disposed then s
  else if maxPending ≤ s.pending.size then s
  else
    let call : Call :=
      { command, actor, boot, requestedAt := now, generation := s.generation, sequence := none
        stage := .requesting, done := false }
    { s with calls := s.calls ++ [call] }

/-- The row a call waits to be recorded. -/
def Call.row (c : Call) (id : Nat) : Option OutcomeRow :=
  let row (outcome : CommandOutcome) (at_ : Int) : OutcomeRow :=
    ⟨id, c.command.uid, c.command, c.actor, outcome, at_⟩
  match c.stage with
  | .requesting => some (row .requested c.requestedAt)
  | .recordingSent _ at_ => some (row .sent at_)
  | .closing outcome at_ => some (row outcome at_)
  | _ => none

/-- The database carries out the record a call waits for. It cannot succeed where the row
there is differs. -/
def carryOut (n : Nat) : Outcomes :=
  match s.calls[n]? with
  | none => s
  | some c =>
    if c.done then s
    else match Call.row c n with
      | none => s
      | some row =>
        let rows := insertOutcome s.rows row
        { s.setCall n { c with done := row ∈ rows } with rows }

/-- `recordOutcome` is called for a call, which ends with its answer. -/
def close (n : Nat) (c : Call) (outcome : CommandOutcome) (now : Int) : Outcomes :=
  s.setCall n { c with stage := .closing outcome now, done := false }

def finish (n : Nat) (c : Call) : Outcomes :=
  s.setCall n { c with stage := .finished, done := false }

/-- A STATUS observed since the request and stamped no earlier. -/
def RecentStatus.isFresh (earlyAck : RecentStatus) (c : Call) : Bool :=
  earlyAck.generation > c.generation && earlyAck.at_ ≥ c.requestedAt

def rebooted (earlyAck : RecentStatus) (c : Call) : Bool :=
  c.boot ≠ none && RecentStatus.isFresh earlyAck c && earlyAck.boot ≠ c.boot

def acknowledges (earlyAck : RecentStatus) (c : Call) (sequence : Nat) (now : Int) : Bool :=
  earlyAck.sequence = sequence && RecentStatus.isFresh earlyAck c &&
    (c.boot = none || earlyAck.boot = c.boot) && now - earlyAck.at_ ≤ defaultAckTimeoutMs

/-- The command waits for a STATUS or its timer. -/
def await (n : Nat) (c : Call) (sequence : Nat) : Outcomes :=
  let key : Key := (c.command.uid, sequence)
  { s.finish n c with
    pending := s.pending.set key ⟨n, c.command, c.actor, c.boot, c.requestedAt⟩
    armed := s.armed ++ [(n, key)] }

/-- The rest of `send` behind the record that the command was sent. -/
def afterSent (n : Nat) (c : Call) (sequence : Nat) (now : Int) : Outcomes :=
  match s.recentStatus.get c.command.uid with
  | none => s.await n c sequence
  | some earlyAck =>
    if rebooted earlyAck c then s.close n c .uncertain now
    else if acknowledges earlyAck c sequence now then
      { s with recentStatus := s.recentStatus.delete c.command.uid }.close n c .acknowledged now
    else s.await n c sequence

/-- The record a call waits for is answered. `authorized` is asked behind the first. -/
def answer (n : Nat) (ok authorized : Bool) (now : Int) : Outcomes :=
  match s.calls[n]? with
  | none => s
  | some c =>
    if ok ∧ c.done = false then s
    else match c.stage with
      | .requesting =>
        if ok then
          if authorized then s.setCall n { c with stage := .dispatching, done := false }
          else s.close n c .uncertain now
        else s.finish n c
      | .recordingSent sequence _ =>
        if ok then s.afterSent n c sequence now else s.close n c .uncertain now
      | .closing _ _ => s.finish n c
      | _ => s

/-- The dispatch of a call resolves to a sequence, or rejects. -/
def dispatched (n : Nat) (outcome : Option Nat) (now : Int) : Outcomes :=
  match s.calls[n]? with
  | none => s
  | some c =>
    match c.stage, outcome with
    | .dispatching, some sequence =>
      s.setCall n
        { c with stage := .recordingSent sequence now, sequence := some sequence, done := false }
    | .dispatching, none => s.close n c .uncertain now
    | _, _ => s

/-! ## Observing -/

def defer (item : PendingCommand) (outcome : CommandOutcome) (status : DeferredStatus) :
    Outcomes :=
  { s with deferred := s.deferred ++ [⟨item, outcome, status⟩] }

/-- An item leaves the map and its timer is cleared. -/
def release (key : Key) (item : PendingCommand) : Outcomes :=
  { s with
    pending := s.pending.delete key
    armed := s.armed.filter fun timer => timer.1 ≠ item.id }

/-- The loop of `observeStatus`: what waits for another boot of the node is uncertain. -/
def rebootOne (uid : Text) (observation : Option (Nat × Int)) (s : Outcomes)
    (entry : Key × PendingCommand) : Outcomes :=
  match observation with
  | some (boot, at_) =>
    if entry.2.command.uid = uid ∧ entry.2.boot ≠ none ∧ at_ ≥ entry.2.requestedAt ∧
        some boot ≠ entry.2.boot then
      (s.release entry.1 entry.2).defer entry.2 .uncertain .queued
    else s
  | none => s

def roomForStatus : JsMap Text RecentStatus :=
  if maxPending ≤ s.recentStatus.size then
    s.recentStatus.delete (s.recentStatus.keys.head?.getD [])
  else s.recentStatus

/-- The item that waits for exactly this STATUS. -/
def acknowledge (uid : Text) (lastCommand : Nat) (observation : Option (Nat × Int)) (now : Int) :
    Outcomes :=
  match s.pending.get (uid, lastCommand) with
  | none => s
  | some item =>
    if (observation.map Prod.snd).getD now < item.requestedAt then s
    else
      let outcome : CommandOutcome :=
        if item.boot ≠ none ∧ observation.map Prod.fst ≠ item.boot then .uncertain
        else .acknowledged
      (s.release (uid, lastCommand) item).defer item outcome .queued

/-- `observeStatus`; the observation is the node's boot and the moment of the packet. -/
def observeStatus (uid : Text) (lastCommand : Nat) (observation : Option (Nat × Int))
    (now : Int) : Outcomes :=
  let boot := observation.map Prod.fst
  let at_ := (observation.map Prod.snd).getD now
  let status : RecentStatus := ⟨lastCommand, at_, s.generation + 1, boot⟩
  let heard : Heard := ⟨uid, lastCommand, boot, at_, s.calls.length⟩
  let s := { s with
    recentStatus := s.roomForStatus.set uid status
    generation := s.generation + 1
    heard := s.heard ++ [heard] }
  let s := s.pending.entries.foldl (rebootOne uid observation) s
  s.acknowledge uid lastCommand observation now

/-- The timer of the `n`-th command fires: it ends what waits under its key. -/
def ackTimer (n : Nat) (now : Int) : Outcomes :=
  match s.armed.find? fun timer => timer.1 = n with
  | none => s
  | some timer =>
    let s := { s with armed := s.armed.filter fun timer => timer.1 ≠ n }
    match s.pending.get timer.2 with
    | none => s
    | some item =>
      { s with pending := s.pending.delete timer.2 }.defer item .timedOut (.writing now)

/-! ## Deferred writes and the shutdown -/

def setDeferred (i : Nat) (d : Deferred) (status : DeferredStatus) : Outcomes :=
  { s with deferred := s.deferred.set i { d with status } }

/-- The callback of `setImmediate` calls `recordOutcome`. -/
def runDeferred (i : Nat) (now : Int) : Outcomes :=
  match s.deferred[i]? with
  | some d => if d.status = .queued then s.setDeferred i d (.writing now) else s
  | none => s

def Deferred.row (d : Deferred) (at_ : Int) : OutcomeRow :=
  ⟨d.item.id, d.item.command.uid, d.item.command, d.item.actor, d.outcome, at_⟩

/-- The database carries out a deferred write. -/
def carryOutDeferred (i : Nat) : Outcomes :=
  match s.deferred[i]? with
  | some d =>
    match d.status with
    | .writing at_ => { s with rows := insertOutcome s.rows (Deferred.row d at_) }
    | _ => s
  | none => s

/-- A deferred write is answered; its errors are swallowed. -/
def finishDeferred (i : Nat) : Outcomes :=
  match s.deferred[i]? with
  | some d => if d.status = .queued then s else s.setDeferred i d .over
  | none => s

def dispose (now : Int) : Outcomes :=
  { s with
    disposed := true
    pending := .empty
    armed := s.armed.filter fun timer => !s.pending.values.any (·.id = timer.1)
    marks := if 0 < s.pending.size then s.marks ++ [⟨now, false⟩] else s.marks }

def initialize_ (now : Int) : Outcomes := { s with marks := s.marks ++ [⟨now, false⟩] }

def carryOutMark (i : Nat) : Outcomes :=
  match s.marks[i]? with
  | some m =>
    if m.carried then s
    else { s with
      rows := markInFlightUncertain s.rows m.at_
      marks := s.marks.set i { m with carried := true } }
  | none => s

/-- The process ends and another starts: what was in memory is gone, and no statement that it
had issued is carried out any more. -/
def restart : Outcomes :=
  { s with
    calls := s.calls.map Call.ended
    pending := .empty
    recentStatus := .empty
    armed := []
    generation := 0
    disposed := false
    deferred := s.deferred.map fun d => { d with status := .over }
    marks := s.marks.map fun m => { m with carried := true } }

end Outcomes

/-! ## Runs -/

inductive OutcomeEvent
  | send (command : NodeCommand) (actor : Actor) (boot : Option Nat) (now : Int)
  | carryOut (n : Nat)
  | answer (n : Nat) (ok authorized : Bool) (now : Int)
  | dispatched (n : Nat) (outcome : Option Nat) (now : Int)
  | observeStatus (uid : Text) (lastCommand : Nat) (observation : Option (Nat × Int)) (now : Int)
  | ackTimer (n : Nat) (now : Int)
  | runDeferred (i : Nat) (now : Int)
  | carryOutDeferred (i : Nat)
  | finishDeferred (i : Nat)
  | dispose (now : Int)
  | initialize_ (now : Int)
  | carryOutMark (i : Nat)
  | restart

def outcomeStep (s : Outcomes) : OutcomeEvent → Outcomes
  | .send command actor boot now => s.send command actor boot now
  | .carryOut n => s.carryOut n
  | .answer n ok authorized now => s.answer n ok authorized now
  | .dispatched n outcome now => s.dispatched n outcome now
  | .observeStatus uid lastCommand observation now =>
    s.observeStatus uid lastCommand observation now
  | .ackTimer n now => s.ackTimer n now
  | .runDeferred i now => s.runDeferred i now
  | .carryOutDeferred i => s.carryOutDeferred i
  | .finishDeferred i => s.finishDeferred i
  | .dispose now => s.dispose now
  | .initialize_ now => s.initialize_ now
  | .carryOutMark i => s.carryOutMark i
  | .restart => s.restart

end TMEdge.Commands
