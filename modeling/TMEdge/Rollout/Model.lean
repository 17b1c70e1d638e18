import TMEdge.Protocol.Packet

/-!
# `Rollouts`

`src/edge/rollout.ts`: an image goes to one pilot node first and to the rest only after the
pilot has confirmed it. Rollouts and their nodes are mutable objects that the active slot,
the history and suspended calls share, so the state keeps all rollouts ever made in
`views` and everything else refers to them by position (`NodeRef`).

A call of the source that awaits is cut into its pieces: `Task` is a call of `beginOnce`
suspended at an `await` (`push`, `request`, `ota`) or at the `finally` of `begin`
(`unlaunch`), and `resumeHook`, `otaSettled` and `unlaunch` run its next piece. The clock
is read once in each piece. What leaves the process or ends a rollout is recorded in
`trace`.
-/

namespace TMEdge.Rollout

open Library Protocol

/-! ## Data -/

inductive NodeUpdateState
  | queued
  | sending
  | downloading
  | verifying
  | applying
  | rebooting
  | confirmed
  | failed
  | skipped
deriving DecidableEq

namespace NodeUpdateState

def terminal : NodeUpdateState → Bool
  | .confirmed | .failed | .skipped => true
  | _ => false

def name : NodeUpdateState → String
  | .queued => "queued"
  | .sending => "sending"
  | .downloading => "downloading"
  | .verifying => "verifying"
  | .applying => "applying"
  | .rebooting => "rebooting"
  | .confirmed => "confirmed"
  | .failed => "failed"
  | .skipped => "skipped"

end NodeUpdateState

inductive Transport
  | udp
  | gateway
  | direct
deriving DecidableEq

structure NodeUpdate where
  uid : String
  label : String
  floorId : Option String
  gatewayId : Option String
  transport : Option Transport
  state : NodeUpdateState
  percent : Nat
  error : Option String
  startedAt : Option Nat
  updatedAt : Nat
  outcomeUncertain : Bool
deriving DecidableEq

inductive RolloutTarget
  | all
  | node (uid : String)
  | floor (floorId : String)
deriving DecidableEq

inductive Stage
  | pilot
  | rest
  | done
  | stopped
deriving DecidableEq

def Stage.ended : Stage → Bool
  | .done | .stopped => true
  | _ => false

structure RolloutView where
  id : String
  buildId : String
  version : String
  target : RolloutTarget
  startedBy : String
  startedAt : Nat
  finishedAt : Option Nat
  stage : Stage
  /-- `recoveryState === 'interrupted'` -/
  interrupted : Bool
  note : String
  nodes : List NodeUpdate
deriving DecidableEq

/-- What the edge knows of a node that may be updated. -/
structure RolloutNode where
  uid : String
  label : String
  floorId : Option String
  address : Option String
  transport : Option Transport
  online : Bool
  encryptionRequired : Bool

structure Image where
  bytes : Buffer
  sha256 : String
  size : Nat
  version : String

structure NodeRef where
  view : Nat
  node : Nat
deriving DecidableEq

structure OtaImage where
  port : Nat
  size : Nat
  sha256 : String
  path : String
deriving DecidableEq

inductive Effect
  | started (view : Nat)
  | set (ref : NodeRef) (state : NodeUpdateState)
  /-- `beforeDispatch` failed: back to `queued`. -/
  | requeued (ref : NodeRef)
  | nodeDone (uid : String)
  | staged (view : Nat) (stage : Stage)
  | pushed (ref : NodeRef) (gatewayId : String)
  | ota (ref : NodeRef) (uid : String) (image : OtaImage)
  | finished (view : Nat)
deriving DecidableEq

inductive TaskStage
  | push (gatewayId : String) (image : Image)
  | request (image : Image) (port : Nat)
  | ota
  | unlaunch

structure Task where
  id : Nat
  ref : NodeRef
  stage : TaskStage

structure RolloutTimings where
  imageMs : Nat := 120000
  flashMs : Nat := 180000
  confirmMs : Nat := 300000
  batch : Nat := 3

structure Config where
  timings : RolloutTimings
  directPort : Nat
  /-- Whether `beforeDispatch` is set. -/
  hook : Bool

structure Rollouts where
  views : List RolloutView
  active : Option Nat
  past : List Nat
  gatewaysReady : JsMap String Nat
  gatewaysAsked : JsMap String Nat
  launching : Finset NodeRef
  awaitingDispatch : Finset NodeRef
  tasks : List Task
  nextTask : Nat
  trace : List Effect

def Rollouts.new : Rollouts where
  views := []
  active := none
  past := []
  gatewaysReady := .empty
  gatewaysAsked := .empty
  launching := ∅
  awaitingDispatch := ∅
  tasks := []
  nextTask := 0
  trace := []

/-- What the other components answer during one piece: the clock, the firmware store, the
known nodes, and whether a gateway is connected. -/
structure Env where
  now : Nat
  image : String → Option Image
  nodes : List RolloutNode
  sendImage : String → Bool

/-! ## Reading and writing nodes -/

namespace Rollouts

def node? (s : Rollouts) (ref : NodeRef) : Option NodeUpdate :=
  s.views[ref.view]?.bind fun v => v.nodes[ref.node]?

def stage? (s : Rollouts) (view : Nat) : Option Stage := s.views[view]?.map RolloutView.stage

def updateNode (s : Rollouts) (ref : NodeRef) (f : NodeUpdate → NodeUpdate) : Rollouts :=
  { s with
    views := s.views.modify ref.view fun v => { v with nodes := v.nodes.modify ref.node f } }

/-- Change the stage and the note of a rollout. -/
def setStage (s : Rollouts) (view : Nat) (stage : Stage) (note : String) : Rollouts :=
  { s with
    views := s.views.modify view fun v =>
      { v with
        stage := stage
        note := note }
    trace := s.trace ++ [.staged view stage] }

def set (s : Rollouts) (ref : NodeRef) (state : NodeUpdateState) (now : Nat)
    (error : Option String) (percent : Option Nat) : Rollouts :=
  let s := s.updateNode ref fun n =>
    { n with
      state := state
      updatedAt := now
      percent := if state = .confirmed then 100 else percent.getD n.percent
      error := match error with
        | some e => if e = "" then n.error else some e
        | none => n.error }
  let done := if state = .sending ∨ state = .downloading then []
    else ((s.node? ref).map fun n => Effect.nodeDone n.uid).toList
  { s with trace := s.trace ++ .set ref state :: done }

def isCurrentNode (s : Rollouts) (ref : NodeRef) : Bool :=
  s.active = some ref.view && (s.stage? ref.view).any (fun g => !g.ended) && (s.node? ref).isSome

def canDispatch (s : Rollouts) (ref : NodeRef) (state : NodeUpdateState) : Bool :=
  s.isCurrentNode ref && (s.node? ref).any fun n => n.state = state

/-! ## Dispatch -/

def otaPath (buildId : String) : String := "/fw/" ++ buildId ++ ".bin"

/-- `request` from its second `canDispatch` on: `sendOta`, then suspended. -/
def dispatch (s : Rollouts) (ref : NodeRef) (image : Image) (port : Nat) :
    Rollouts × Option TaskStage :=
  if s.canDispatch ref .sending then
    let uid := ((s.node? ref).map NodeUpdate.uid).getD ""
    let buildId := (s.views[ref.view]?.map RolloutView.buildId).getD ""
    ({ s with
        trace := s.trace ++ [.ota ref uid ⟨port, image.size, image.sha256, otaPath buildId⟩] },
      some .ota)
  else (s, none)

def request (cfg : Config) (env : Env) (s : Rollouts) (ref : NodeRef) (image : Image)
    (port : Nat) : Rollouts × Option TaskStage :=
  if s.canDispatch ref .queued then
    let s := s.set ref .sending env.now none none
    let s := s.updateNode ref fun n => { n with startedAt := some env.now }
    if cfg.hook then
      ({ s with awaitingDispatch := insert ref s.awaitingDispatch }, some (.request image port))
    else s.dispatch ref image port
  else (s, none)

/-- The push of an image to a gateway, after `beforeDispatch`. -/
def pushImage (env : Env) (s : Rollouts) (ref : NodeRef) (gatewayId : String) : Rollouts :=
  if s.canDispatch ref .queued then
    let s := { s with trace := s.trace ++ [.pushed ref gatewayId] }
    if env.sendImage gatewayId then s
    else s.set ref .failed env.now (some ("gateway " ++ gatewayId ++ " is not connected")) none
  else s

/-- `beginOnce` up to its first `await`, and where it is suspended. -/
def beginOnce (cfg : Config) (env : Env) (s : Rollouts) (ref : NodeRef) :
    Rollouts × Option TaskStage :=
  match s.views[ref.view]?, s.node? ref with
  | some r, some node =>
    match env.image r.buildId with
    | none => (s.set ref .failed env.now (some "the image is gone from this edge") none, none)
    | some image =>
      if node.transport = some .direct then s.request cfg env ref image 443
      else match node.gatewayId.filter (· ≠ "") with
        | none => s.request cfg env ref image cfg.directPort
        | some g =>
          match s.gatewaysReady.get g with
          | some port => s.request cfg env ref image port
          | none =>
            match s.gatewaysAsked.get g with
            | none =>
              let s := { s with gatewaysAsked := s.gatewaysAsked.set g env.now }
              if cfg.hook then (s, some (.push g image)) else (s.pushImage env ref g, none)
            | some asked =>
              if asked + cfg.timings.imageMs < env.now then
                (s.set ref .failed env.now (some ("gateway " ++ g ++ " never took the image")) none,
                  none)
              else (s, none)
  | _, _ => (s, none)

/-- A call of `beginOnce` that is suspended, or whose `finally` is still to come. -/
def addTask (cfg : Config) (s : Rollouts) (ref : NodeRef) : Option TaskStage → Rollouts
  | some stage =>
    { s with
      tasks := s.tasks ++ [⟨s.nextTask, ref, stage⟩]
      nextTask := s.nextTask + 1 }
  | none =>
    if cfg.hook then
      { s with
        tasks := s.tasks ++ [⟨s.nextTask, ref, .unlaunch⟩]
        nextTask := s.nextTask + 1 }
    else s

/-- `begin`, for a node of the active rollout. -/
def begin (cfg : Config) (env : Env) (s : Rollouts) (ref : NodeRef) : Rollouts :=
  if !s.canDispatch ref .queued || decide (ref ∈ s.launching) then s
  else
    let r := beginOnce cfg env { s with launching := insert ref s.launching } ref
    let s := addTask cfg r.1 ref r.2
    if cfg.hook then s else { s with launching := s.launching.erase ref }

/-! ## `tick` -/

def finish (env : Env) (s : Rollouts) : Rollouts :=
  match s.active with
  | none => s
  | some r =>
    let past := s.past ++ [r]
    { s with
      views := s.views.modify r fun v => { v with finishedAt := some env.now }
      past := if 20 < past.length then past.tail else past
      trace := s.trace ++ [.finished r] }

/-- How long a node may go without a sign of life. -/
def limit (cfg : Config) (n : NodeUpdate) : Nat :=
  if n.state = .rebooting then cfg.timings.confirmMs else cfg.timings.flashMs

def overdue (cfg : Config) (now : Nat) (n : NodeUpdate) : Bool :=
  match n.startedAt with
  | none => false
  | some started =>
    !n.state.terminal &&
      decide ((if n.updatedAt = 0 then started else n.updatedAt) + limit cfg n < now)

def stuckError (n : NodeUpdate) : String :=
  if n.state = .rebooting then "the node did not come back and confirm the new image"
  else "stuck in \"" ++ n.state.name ++ "\""

def timeOutNode (cfg : Config) (env : Env) (s : Rollouts) (ref : NodeRef) : Rollouts :=
  match s.node? ref with
  | none => s
  | some n =>
    if overdue cfg env.now n then s.set ref .failed env.now (some (stuckError n)) none else s

/-- The nodes of a rollout, in order. -/
def refs (s : Rollouts) (view : Nat) : List NodeRef :=
  (List.range ((s.views[view]?.map fun v => v.nodes.length).getD 0)).map fun i => ⟨view, i⟩

def timeOut (cfg : Config) (env : Env) (s : Rollouts) (view : Nat) : Rollouts :=
  (s.refs view).foldl (timeOutNode cfg env) s

def skipNode (env : Env) (s : Rollouts) (ref : NodeRef) : Rollouts :=
  match s.node? ref with
  | none => s
  | some n => if n.state.terminal then s else s.set ref .skipped env.now (some "pilot failed") none

def pilotStage (cfg : Config) (env : Env) (s : Rollouts) (view : Nat) : Rollouts :=
  match s.views[view]? with
  | none => s
  | some r =>
    match r.stage, r.nodes with
    | .pilot, pilot :: others =>
      match pilot.state with
      | .queued => s.begin cfg env ⟨view, 0⟩
      | .confirmed =>
        if others = [] then s.setStage view .done "done"
        else s.setStage view .rest "pilot confirmed; updating the rest"
      | .failed =>
        let s := (s.refs view).tail.foldl (skipNode env) s
        s.setStage view .stopped ("stopped: the pilot node failed (" ++
          pilot.error.getD "unknown" ++ "). Every other node kept its firmware.")
      | _ => s
    | _, _ => s

def inFlight (s : Rollouts) (view : Nat) : Nat :=
  ((s.views[view]?.map RolloutView.nodes).getD []).countP fun n =>
    !n.state.terminal && n.startedAt.isSome

/-- One turn of the loop over the rest; the count is of nodes in flight. -/
def beginNext (cfg : Config) (env : Env) (p : Rollouts × Nat) (ref : NodeRef) : Rollouts × Nat :=
  if cfg.timings.batch ≤ p.2 then p
  else match p.1.node? ref with
    | none => p
    | some n =>
      if n.state ≠ .queued then p
      else
        let s := p.1.begin cfg env ref
        (s, if (s.node? ref).any fun n => n.startedAt.isSome then p.2 + 1 else p.2)

def restStage (cfg : Config) (env : Env) (s : Rollouts) (view : Nat) : Rollouts :=
  if s.stage? view = some .rest then
    ((s.refs view).tail.foldl (beginNext cfg env) (s, s.inFlight view)).1
  else s

def finishStage (env : Env) (s : Rollouts) (view : Nat) : Rollouts :=
  match s.views[view]? with
  | none => s
  | some r =>
    if r.stage ≠ .stopped ∧ r.nodes.all fun n => n.state.terminal then
      let ok := r.nodes.countP fun n => n.state = .confirmed
      (s.setStage view .done (toString ok ++ " of " ++ toString r.nodes.length ++
        " node(s) now run " ++ r.version)).finish env
    else s

/-- Call about once a second: starts what is due and times out what is stuck. -/
def tick (cfg : Config) (env : Env) (s : Rollouts) : Rollouts :=
  match s.active with
  | none => s
  | some view =>
    match s.views[view]? with
    | none => s
    | some r =>
      if r.stage.ended then s
      else
        let s := s.timeOut cfg env view
        if r.nodes = [] then s
        else ((s.pilotStage cfg env view).restStage cfg env view).finishStage env view

/-! ## Events -/

/-- `/^gw:([^|]+)\|/` -/
def gatewayOf (address : Option String) : Option String :=
  match address.map String.toList with
  | some ('g' :: 'w' :: ':' :: rest) =>
    let id := rest.takeWhile (· ≠ '|')
    if id ≠ [] ∧ id.length < rest.length then some (String.ofList id) else none
  | _ => none

def select (env : Env) (target : RolloutTarget) : Except String (List RolloutNode) :=
  let reachable := env.nodes.filter fun n => n.online && n.address.isSome && n.transport.isSome
  match target with
  | .all => .ok reachable
  | .node uid =>
    if uid = "" then .error "target must be all, a node uid, or a floorId"
    else .ok (reachable.filter fun n => n.uid = uid)
  | .floor floorId =>
    if floorId = "" then .error "target must be all, a node uid, or a floorId"
    else .ok (reachable.filter fun n => n.floorId = some floorId)

def isBuildId (s : String) : Bool := s.toList.length = 16 && s.toList.all Replay.isHex

/-- The digits at the start of a text, and the rest; `none` when there are none. -/
def takeNumber (cs : List Char) : Option (Nat × List Char) :=
  let ds := cs.takeWhile Char.isDigit
  if ds = [] then none
  else some (ds.foldl (fun n c => 10 * n + (c.toNat - 48)) 0, cs.drop ds.length)

/-- `/^tmsense-(\d+)\.(\d+)(?:\.\d+)?$/`: major and minor. -/
def parseVersion (s : String) : Option (Nat × Nat) :=
  match s.toList with
  | 't' :: 'm' :: 's' :: 'e' :: 'n' :: 's' :: 'e' :: '-' :: rest =>
    match takeNumber rest with
    | some (major, '.' :: rest) =>
      match takeNumber rest with
      | some (minor, []) => some (major, minor)
      | some (minor, '.' :: rest) =>
        match takeNumber rest with
        | some (_, []) => some (major, minor)
        | _ => none
      | _ => none
    | _ => none
  | _ => none

def supportsEncryption (version : String) : Bool :=
  match parseVersion version with
  | some (major, minor) => decide (1 < major ∨ (major = 1 ∧ 7 ≤ minor))
  | none => false

/-- `roll-${at.toString(36)}` -/
def rolloutId (now : Nat) : String := "roll-" ++ String.ofList (Nat.toDigits 36 now)

def newNode (now : Nat) (n : RolloutNode) : NodeUpdate where
  uid := n.uid
  label := n.label
  floorId := n.floorId
  gatewayId := if n.transport = some .gateway then gatewayOf n.address else none
  transport := n.transport
  state := .queued
  percent := 0
  error := none
  startedAt := none
  updatedAt := now
  outcomeUncertain := false

def newView (now : Nat) (buildId : String) (image : Image) (target : RolloutTarget)
    (startedBy : String) (chosen : List RolloutNode) : RolloutView where
  id := rolloutId now
  buildId := buildId
  version := image.version
  target := target
  startedBy := startedBy
  startedAt := now
  finishedAt := none
  stage := .pilot
  interrupted := false
  note := match chosen with
    | [_] => "one node"
    | n :: _ => n.label ++ " goes first; the rest follow if it comes back healthy"
    | [] => "first node goes first; the rest follow if it comes back healthy"
  nodes := chosen.map (newNode now)

/-- What `start` refuses, and the rollout it makes otherwise. -/
def checkStart (env : Env) (s : Rollouts) (buildId : String) (target : RolloutTarget)
    (startedBy : String) : Except String RolloutView :=
  if !isBuildId buildId then .error "invalid build id"
  else if (s.active.bind s.stage?).any fun g => !g.ended then
    .error "an update is already running"
  else match env.image buildId with
    | none => .error ("build " ++ buildId ++ " has no image")
    | some image =>
      match select env target with
      | .error e => .error e
      | .ok chosen =>
        if chosen = [] then .error "no node matches that target, or none is online"
        else if !supportsEncryption image.version && chosen.any RolloutNode.encryptionRequired then
          .error ("encrypted nodes require reviewed tmsense-1.7 or newer firmware; " ++
            "plaintext downgrade refused")
        else .ok (newView env.now buildId image target startedBy chosen)

def start (cfg : Config) (env : Env) (s : Rollouts) (buildId : String) (target : RolloutTarget)
    (startedBy : String) (deferDispatch : Bool) : Rollouts × Except String Nat :=
  match s.checkStart env buildId target startedBy with
  | .error e => (s, .error e)
  | .ok view =>
    let r := s.views.length
    let s := { s with
      views := s.views ++ [view]
      active := some r
      gatewaysReady := .empty
      gatewaysAsked := .empty
      trace := s.trace ++ [.started r] }
    (if deferDispatch then s else s.tick cfg env, .ok r)

/-- A node that has not been told anything yet is skipped, also while its request is held
back. -/
def cancelNode (env : Env) (s : Rollouts) (ref : NodeRef) : Rollouts :=
  match s.node? ref with
  | none => s
  | some n =>
    if n.state = .queued ∨ ref ∈ s.awaitingDispatch then
      s.set ref .skipped env.now (some "cancelled") none
    else s

def cancel (env : Env) (s : Rollouts) (cancelledBy : String) : Rollouts :=
  match s.active with
  | none => s
  | some view =>
    if (s.stage? view).any fun g => !g.ended then
      let s := (s.refs view).foldl (cancelNode env) s
      (s.setStage view .stopped ("cancelled by " ++ cancelledBy)).finish env
    else s

structure ImageResult where
  id : String
  ok : Bool
  error : Option String
  port : Nat

def refuseNode (env : Env) (gatewayId : String) (error : String) (s : Rollouts) (ref : NodeRef) :
    Rollouts :=
  match s.node? ref with
  | none => s
  | some n =>
    if n.gatewayId = some gatewayId ∧ !n.state.terminal then
      s.set ref .failed env.now (some ("gateway: " ++ error)) none
    else s

/-- What `onImageReady` records before its `tick`; `none` when it ignores the result. -/
def takeImageResult (env : Env) (s : Rollouts) (gatewayId : String) (result : ImageResult) :
    Option Rollouts :=
  match s.active with
  | none => none
  | some view =>
    match s.views[view]? with
    | none => none
    | some r =>
      if r.stage.ended ∨ result.id ≠ r.buildId then none
      else if result.ok then
        some { s with gatewaysReady := s.gatewaysReady.set gatewayId result.port }
      else some ((s.refs view).foldl
        (refuseNode env gatewayId (result.error.getD "refused the image")) s)

def onImageReady (cfg : Config) (env : Env) (s : Rollouts) (gatewayId : String)
    (result : ImageResult) : Rollouts :=
  match s.takeImageResult env gatewayId result with
  | none => s
  | some t => t.tick cfg env

def otaErrorName : OtaError → String
  | .none => "none"
  | .http => "http"
  | .size => "size"
  | .sha => "sha"
  | .flash => "flash"
  | .noWifi => "no-wifi"
  | .busy => "busy"

/-- What a node's report makes of its state: state, error and percent. -/
def reported (status : OtaStatus) : Option (NodeUpdateState × Option String × Option Nat) :=
  match status.state with
  | .downloading => some (.downloading, none, some status.percent)
  | .verifying => some (.verifying, none, some 100)
  | .applying => some (.applying, none, some 100)
  | .rebooting => some (.rebooting, none, some 100)
  | .confirmed => some (.confirmed, none, some 100)
  | .reverted =>
    some (.failed, some "the new image did not come up; the node went back to the old one", none)
  | .failed => some (.failed, some ("node reported " ++ otaErrorName status.error), none)
  | .idle => none

/-- What `onOtaStatus` records before its `tick`; `none` when it ignores the report. -/
def takeOtaStatus (env : Env) (s : Rollouts) (uid : String) (status : OtaStatus) :
    Option Rollouts :=
  match s.active with
  | none => none
  | some view =>
    match s.views[view]? with
    | none => none
    | some r =>
      match r.nodes.findIdx? fun n => n.uid = uid with
      | none => none
      | some i =>
        match r.nodes[i]? with
        | none => none
        | some node =>
          if r.stage = .done ∨ node.startedAt = none ∨ node.state.terminal ∨
              status.image ≠ String.ofList (r.buildId.toList.take 8) then none
          else match reported status with
            | none => some s
            | some (state, error, percent) => some (s.set ⟨view, i⟩ state env.now error percent)

def onOtaStatus (cfg : Config) (env : Env) (s : Rollouts) (uid : String) (status : OtaStatus) :
    Rollouts :=
  match s.takeOtaStatus env uid status with
  | none => s
  | some t => t.tick cfg env

/-! ## Suspended calls -/

def task? (s : Rollouts) (id : Nat) : Option Task := s.tasks.find? fun t => t.id == id

def moveTask (s : Rollouts) (id : Nat) (stage : TaskStage) : Rollouts :=
  { s with tasks := s.tasks.map fun t => if t.id = id then { t with stage := stage } else t }

/-- The end of `beginOnce`. -/
def endTask (cfg : Config) (s : Rollouts) (id : Nat) : Rollouts :=
  if cfg.hook then s.moveTask id .unlaunch
  else { s with tasks := s.tasks.filter fun t => t.id ≠ id }

/-- `beforeDispatch` failed in `request`. -/
def requeue (s : Rollouts) (ref : NodeRef) : Rollouts :=
  if s.canDispatch ref .sending then
    let s := s.updateNode ref fun n =>
      { n with
        state := .queued
        startedAt := none }
    { s with trace := s.trace ++ [.requeued ref] }
  else s

/-- The promise of `beforeDispatch` has settled; `ok` when it is resolved. -/
def resumeHook (cfg : Config) (env : Env) (s : Rollouts) (id : Nat) (ok : Bool) : Rollouts :=
  match s.task? id with
  | none => s
  | some t =>
    match t.stage with
    | .push g _ =>
      let s := if ok then s.pushImage env t.ref g
        else if s.canDispatch t.ref .queued then
          { s with gatewaysAsked := s.gatewaysAsked.delete g }
        else s
      s.endTask cfg id
    | .request image port =>
      if ok then
        let s := { s with awaitingDispatch := s.awaitingDispatch.erase t.ref }
        match s.dispatch t.ref image port with
        | (s, some stage) => s.moveTask id stage
        | (s, none) => s.endTask cfg id
      else
        let s := s.requeue t.ref
        endTask cfg { s with awaitingDispatch := s.awaitingDispatch.erase t.ref } id
    | _ => s

/-- What a failed `sendOta` records before its `tick`. -/
def takeOtaError (env : Env) (s : Rollouts) (ref : NodeRef) (error : String) : Option Rollouts :=
  if s.isCurrentNode ref && (s.node? ref).any fun n => !n.state.terminal then
    some (s.set ref .failed env.now (some error) none)
  else none

/-- The promise of `sendOta` has settled. -/
def otaSettled (cfg : Config) (env : Env) (s : Rollouts) (id : Nat) (error : Option String) :
    Rollouts :=
  match s.task? id with
  | none => s
  | some t =>
    match t.stage with
    | .ota =>
      let s := match error.bind (s.takeOtaError env t.ref) with
        | none => s
        | some t => t.tick cfg env
      s.endTask cfg id
    | _ => s

/-- The `finally` of `begin`. -/
def unlaunch (s : Rollouts) (id : Nat) : Rollouts :=
  match s.task? id with
  | none => s
  | some t =>
    match t.stage with
    | .unlaunch =>
      { s with
        launching := s.launching.erase t.ref
        tasks := s.tasks.filter fun t => t.id ≠ id }
    | _ => s

/-! ## Reading and restoring -/

/-- Whether `uid` may fetch `buildId` right now: an active rollout of that build is waiting
on this node's download. -/
def wantsDownload (s : Rollouts) (uid buildId : String) : Bool :=
  match s.active.bind fun view => s.views[view]? with
  | none => false
  | some r =>
    if r.buildId ≠ buildId ∨ r.stage.ended then false
    else (r.nodes.find? fun n => n.uid = uid).any fun n =>
      n.state = .sending || n.state = .downloading

/-- `history()`: the latest rollout first. -/
def history (s : Rollouts) : List RolloutView := s.past.reverse.filterMap fun v => s.views[v]?

/-- Nodes whose OTA has not been dispatched yet. -/
def pendingDispatchUids (s : Rollouts) : List String :=
  match s.active with
  | none => []
  | some view => ((s.refs view).filter (· ∈ s.awaitingDispatch)).filterMap fun ref =>
      (s.node? ref).map NodeUpdate.uid

/-- Take over saved rollouts without dispatching anything. -/
def restore (s : Rollouts) (current : Option RolloutView) (history : List RolloutView) :
    Rollouts :=
  let kept := history.drop (history.length - 20)
  let n := s.views.length
  { s with
    views := s.views ++ kept ++ current.toList
    active := current.map fun _ => n + kept.length
    past := (List.range kept.length).map (n + ·)
    gatewaysReady := .empty
    gatewaysAsked := .empty
    launching := ∅
    awaitingDispatch := ∅ }

end Rollouts

end TMEdge.Rollout
