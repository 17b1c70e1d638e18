import TMEdge.Library.Run
import TMEdge.Rollout.Repository

/-!
# `DurableRolloutService`

`src/modules/rollouts/application/durable-rollout-service.ts` over `Rollouts` and the
repository. The service has two promise chains: `operations`, in which the calls of
`start`, `cancel` and `tick` wait for each other, and `writes`, in which the calls of
`persist` do, those of `beforeDispatch` among them. Each event is one piece of the code
between two awaits, or what the database does in between, and any order of events is a
run. The database executes a save (`executeWrite`) before its outcome is reported
(`settleWrite`), so that a save may be committed and reported as failed; a crash may fall
in between.
-/

namespace TMEdge.Rollout

open Library Protocol

/-- What `saveSnapshot` is given; `fingerprint` is its text. -/
abbrev Saved := Option RolloutView × List RolloutView

namespace Rollouts

def current (s : Rollouts) : Option RolloutView := s.active.bind fun v => s.views[v]?

/-- The snapshot of the state; two states have the same fingerprint when these are equal. -/
def saved (s : Rollouts) : Saved := (s.current, s.history)

end Rollouts

structure Snapshot where
  current : Option RolloutView
  history : List RolloutView
  pendingDispatchUids : List String

def viewSnapshot (s : Rollouts) : Snapshot where
  current := s.current
  history := s.history.reverse
  pendingDispatchUids := s.pendingDispatchUids

/-- A request that did not leave the edge is queued again. -/
def requeueNode (pending : List String) (n : NodeUpdate) : NodeUpdate :=
  if n.state = .sending ∧ n.uid ∈ pending then
    { n with
      state := .queued
      startedAt := none }
  else n

def requeueView (pending : List String) (r : RolloutView) : RolloutView :=
  { r with nodes := r.nodes.map (requeueNode pending) }

/-- `restore` of the service. -/
def restoreSnapshot (s : Rollouts) (snapshot : Snapshot) : Rollouts :=
  s.restore (snapshot.current.map (requeueView snapshot.pendingDispatchUids)) snapshot.history

/-! ## State -/

inductive Operation
  | start (buildId : String) (target : RolloutTarget) (actor : String)
  | cancel (actor : String)
  | tick

inductive CallStage
  | queued
  | persisting
  | reading
  | answered (records : List RolloutView)

/-- A call of `start`, `cancel` or `tick`. -/
structure Call where
  operation : Operation
  stage : CallStage
  previous : Snapshot
  /-- The rollout `start` has made. -/
  created : Nat

inductive Owner
  | call
  | task (id : Nat)
deriving DecidableEq

structure Write where
  owner : Owner
  /-- What is being saved, once the write has begun. -/
  saving : Option Saved
  /-- Whether the transaction was committed, once it was executed. -/
  executed : Option Bool

inductive Boot
  | idle
  | interrupting
  | reading (interrupted : Option RolloutView)
  | ready

structure Service where
  rollouts : Rollouts
  boot : Boot
  calls : List Call
  writes : List Write
  settled : List (Owner × Bool)
  lastPersisted : Option Saved
  /-- How the calls ended, in order. -/
  results : List (Operation × Except String Unit)

def Service.new : Service where
  rollouts := .new
  boot := .idle
  calls := []
  writes := []
  settled := []
  lastPersisted := none
  results := []

structure ServiceConfig where
  timings : RolloutTimings
  directPort : Nat
  collate : String → String → Bool

/-- The service sets `beforeDispatch`. -/
def ServiceConfig.rollouts (cfg : ServiceConfig) : Config := ⟨cfg.timings, cfg.directPort, true⟩

namespace Service

def waitsForHook (t : Task) : Bool :=
  match t.stage with
  | .push _ _ | .request _ _ => true
  | _ => false

/-- A step of the rollouts; every new call of `beforeDispatch` joins the chain of writes. -/
def withRollouts (s : Service) (rollouts : Rollouts) : Service :=
  { s with
    rollouts := rollouts
    writes := s.writes ++ (rollouts.tasks.filter fun t =>
      decide (s.rollouts.nextTask ≤ t.id) && waitsForHook t).map fun t => ⟨.task t.id, none, none⟩ }

/-- `persist`, called by the running operation. -/
def persist (s : Service) : Service := { s with writes := s.writes ++ [⟨.call, none, none⟩] }

def call (s : Service) (operation : Operation) : Service :=
  { s with calls := s.calls ++ [⟨operation, .queued, ⟨none, [], []⟩, 0⟩] }

def setCall (s : Service) (c : Call) : Service := { s with calls := c :: s.calls.tail }

/-- The end of the running operation. -/
def endCall (s : Service) (operation : Operation) (result : Except String Unit) : Service :=
  { s with
    calls := s.calls.tail
    results := s.results ++ [(operation, result)] }

/-- The running operation up to its first `await`. -/
def runCall (cfg : ServiceConfig) (env : Env) (s : Service) : Service :=
  match s.calls with
  | ⟨operation, .queued, previous, created⟩ :: _ =>
    match s.boot with
    | .ready =>
      let previous := match operation with
        | .tick => previous
        | _ => viewSnapshot s.rollouts
      match operation with
      | .start buildId target actor =>
        match s.rollouts.start cfg.rollouts env buildId target actor true with
        | (_, .error e) =>
          (s.withRollouts (restoreSnapshot s.rollouts previous)).endCall operation (.error e)
        | (rollouts, .ok view) =>
          ((s.withRollouts rollouts).setCall ⟨operation, .persisting, previous, view⟩).persist
      | .cancel actor =>
        ((s.withRollouts (s.rollouts.cancel env actor)).setCall
          ⟨operation, .persisting, previous, created⟩).persist
      | .tick => (s.setCall ⟨operation, .persisting, previous, created⟩).persist
    | _ => s.endCall operation (.error "rollout recovery has not completed")
  | _ => s

/-- The end of `start` and of `tick` when everything is saved. -/
def tickCall (cfg : ServiceConfig) (env : Env) (s : Service) (operation : Operation) : Service :=
  (s.withRollouts (s.rollouts.tick cfg.rollouts env)).endCall operation (.ok ())

/-- The running operation, after `persist`. -/
def resumeCall (cfg : ServiceConfig) (env : Env) (s : Service) (ok : Bool) : Service :=
  match s.calls with
  | ⟨operation, .persisting, previous, created⟩ :: _ =>
    match operation, ok with
    | .start _ _ _, true => s.tickCall cfg env operation
    | .cancel _, true => s.endCall operation (.ok ())
    | .tick, true => s.tickCall cfg env operation
    | .tick, false => s.endCall operation (.error "the snapshot was not saved")
    | _, false => s.setCall ⟨operation, .reading, previous, created⟩
  | _ => s

/-- What the repository says after a failed save. -/
def readBack (cfg : ServiceConfig) (t : Tables) (s : Service) (ok : Bool) : Service :=
  match s.calls with
  | ⟨operation, .reading, previous, created⟩ :: _ =>
    let records := match operation with
      | .start _ _ _ => (t.current cfg.collate).toList
      | _ => t.history cfg.collate
    s.setCall ⟨operation, .answered (if ok then records else []), previous, created⟩
  | _ => s

/-- Whether the repository shows what the failed save was to write. -/
def confirmed (s : Service) (c : Call) (records : List RolloutView) : Bool :=
  match c.operation with
  | .start _ _ _ =>
    records.any fun r => (s.rollouts.views[c.created]?).any fun v =>
      r.id = v.id && r.stage = v.stage
  | _ => records.any fun r => c.previous.current.any fun v => r.id = v.id && r.stage = .stopped

def rollBack (s : Service) (c : Call) (error : String) : Service :=
  (s.withRollouts (restoreSnapshot s.rollouts c.previous)).endCall c.operation (.error error)

/-- The running operation, after the repository was read. -/
def answerCall (cfg : ServiceConfig) (env : Env) (s : Service) : Service :=
  match s.calls with
  | ⟨operation, .answered records, previous, created⟩ :: _ =>
    let c : Call := ⟨operation, .answered records, previous, created⟩
    if s.confirmed c records then
      let s := { s with lastPersisted := some s.rollouts.saved }
      match operation with
      | .start _ _ _ => s.tickCall cfg env operation
      | _ => s.endCall operation (.ok ())
    else match operation with
      | .start _ _ _ =>
        s.rollBack c "rollout persistence is unavailable; no rollout was started"
      | _ => s.rollBack c "rollout persistence is unavailable; cancellation was not committed"
  | _ => s

/-! ## Writes -/

def settle (s : Service) (owner : Owner) (ok : Bool) : Service :=
  { s with
    writes := s.writes.tail
    settled := s.settled ++ [(owner, ok)] }

/-- The next write of the chain begins. -/
def runWrite (s : Service) : Service :=
  match s.writes with
  | ⟨owner, none, _⟩ :: rest =>
    if s.lastPersisted = some s.rollouts.saved then s.settle owner true
    else { s with writes := ⟨owner, some s.rollouts.saved, none⟩ :: rest }
  | _ => s

/-- The outcome of a save reaches the process. -/
def settleWrite (s : Service) (ok : Bool) : Service :=
  match s.writes with
  | ⟨owner, some saved, executed⟩ :: _ =>
    if ok && executed = some true then
      { s with lastPersisted := some saved }.settle owner true
    else s.settle owner false
  | _ => s

/-- The call that awaited a write goes on. -/
def resume (cfg : ServiceConfig) (env : Env) (s : Service) (owner : Owner) : Service :=
  match s.settled.find? fun p => p.1 = owner with
  | none => s
  | some p =>
    let s := { s with settled := s.settled.eraseP fun p => p.1 = owner }
    match owner with
    | .call => s.resumeCall cfg env p.2
    | .task id => s.withRollouts (s.rollouts.resumeHook cfg.rollouts env id p.2)

end Service

/-! ## Runs -/

structure System where
  tables : Tables
  service : Service
  /-- Every snapshot that was committed, in order. -/
  committed : List Saved

def System.new : System := ⟨.empty, .new, []⟩

inductive ServiceEvent
  | init
  | interrupt (now : Nat) (ok : Bool)
  | restoreSaved (ok : Bool)
  | call (operation : Operation)
  | runCall (env : Env)
  | runWrite
  | executeWrite
  | settleWrite (ok : Bool)
  | resume (env : Env) (owner : Owner)
  | readBack (ok : Bool)
  | answerCall (env : Env)
  | onImageReady (env : Env) (gatewayId : String) (result : Rollouts.ImageResult)
  | onOtaStatus (env : Env) (uid : String) (status : OtaStatus)
  | otaSettled (env : Env) (task : Nat) (error : Option String)
  | unlaunch (task : Nat)
  | crash

namespace System

/-- `interruptActive` is executed; when `ok` is false its outcome is lost. -/
def interrupt (cfg : ServiceConfig) (s : System) (now : Nat) (ok : Bool) : System :=
  match s.service.boot with
  | .interrupting =>
    match s.tables.interruptActive cfg.collate now with
    | none => { s with service := { s.service with boot := .idle } }
    | some (tables, interrupted) =>
      { s with
        tables := tables
        service := { s.service with boot := if ok then .reading interrupted else .idle } }
  | _ => s

/-- The restored history: the latest rollout first, the interrupted one in front when the
query did not return it. -/
def restoredRecords (interrupted : Option RolloutView) (history : List RolloutView) :
    List RolloutView :=
  match interrupted with
  | some r => if history.any fun row => row.id = r.id then history else r :: history
  | none => history

/-- The rest of `initialize`. -/
def restoreSaved (cfg : ServiceConfig) (s : System) (ok : Bool) : System :=
  match s.service.boot with
  | .reading interrupted =>
    if ok then
      let records := restoredRecords interrupted (s.tables.history cfg.collate)
      let rollouts := s.service.rollouts.restore (s.tables.current cfg.collate) records.reverse
      let service := s.service.withRollouts rollouts
      { s with
        service := { service with
          boot := .ready
          lastPersisted := some rollouts.saved } }
    else { s with service := { s.service with boot := .idle } }
  | _ => s

/-- The database executes the save of the running write. -/
def executeWrite (s : System) : System :=
  match s.service.writes with
  | ⟨owner, some saved, none⟩ :: rest =>
    match s.tables.saveSnapshot saved.1 saved.2 with
    | some tables =>
      { tables := tables
        service := { s.service with writes := ⟨owner, some saved, some true⟩ :: rest }
        committed := s.committed ++ [saved] }
    | none => { s with service := { s.service with writes := ⟨owner, some saved, some false⟩ :: rest } }
  | _ => s

def withRollouts (s : System) (rollouts : Rollouts) : System :=
  { s with service := s.service.withRollouts rollouts }

def step (cfg : ServiceConfig) (s : System) : ServiceEvent → System
  | .init =>
    match s.service.boot with
    | .idle => { s with service := { s.service with boot := .interrupting } }
    | _ => s
  | .interrupt now ok => s.interrupt cfg now ok
  | .restoreSaved ok => s.restoreSaved cfg ok
  | .call operation => { s with service := s.service.call operation }
  | .runCall env => { s with service := s.service.runCall cfg env }
  | .runWrite => { s with service := s.service.runWrite }
  | .executeWrite => s.executeWrite
  | .settleWrite ok => { s with service := s.service.settleWrite ok }
  | .resume env owner => { s with service := s.service.resume cfg env owner }
  | .readBack ok => { s with service := s.service.readBack cfg s.tables ok }
  | .answerCall env => { s with service := s.service.answerCall cfg env }
  | .onImageReady env gatewayId result =>
    s.withRollouts (s.service.rollouts.onImageReady cfg.rollouts env gatewayId result)
  | .onOtaStatus env uid status =>
    s.withRollouts (s.service.rollouts.onOtaStatus cfg.rollouts env uid status)
  | .otaSettled env task error =>
    s.withRollouts (s.service.rollouts.otaSettled cfg.rollouts env task error)
  | .unlaunch task => s.withRollouts (s.service.rollouts.unlaunch task)
  | .crash => { s with service := .new }

end System

end TMEdge.Rollout
