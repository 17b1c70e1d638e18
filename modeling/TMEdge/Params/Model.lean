import TMEdge.Occupancy.Options
import TMEdge.Protocol.Packet
import TMEdge.Library.Run

/-!
# Parameter changes and the way back

`ParamBroker` of `src/algo/params.ts`: temporary changes of device and edge parameters, their
deadlines, and the journal of device changes that survives the process.

A call runs up to its `await`; `answered` and `saved` bring the result of `sendCommand` back.
The key an operation holds in `reverting` says which operation waits, so that a result finds
it. What the node says (`status`, `heard`) and a crash of the process are steps of the same
system. What reaches a device, and what an operation has achieved, is appended to `trace`.
-/

namespace TMEdge.Params

open Library Protocol Occupancy

def revertMs : Int := 15 * 60000

/-! ## Parameters -/

inductive Param
  | device (name : ParamName)
  | edge (path : EdgeParam)
deriving DecidableEq

/-- What a request binds to. -/
inductive ParamBinding
  | device (name : ParamName)
  | edge (path : EdgeParam)
  /-- A device parameter outside `PARAM_NAMES`. -/
  | noDevice (name : String)
  /-- A path outside `EDGE_PARAMS`. -/
  | noEdge (path : String)
  /-- Local to the debugger. -/
  | own

structure Limits where
  lo : ℚ
  hi : ℚ

/-- `PARAM_LIMITS` -/
def paramLimits : ParamName → Limits
  | .minContrast => ⟨10, 2000⟩
  | .minPeak => ⟨10, 3000⟩
  | .noiseK => ⟨10, 200⟩
  | .minArea => ⟨1, 200⟩
  | .maxArea => ⟨1, 768⟩
  | .bgTau => ⟨5, 20000⟩
  | .bgFrames => ⟨3, 600⟩
  | .rawEvery => ⟨0, 3600⟩
  | .refresh => ⟨1, 5⟩
  | .splitSep => ⟨5, 100⟩

/-- `EDGE_PARAMS` -/
def edgeLimits : EdgeParam → Limits
  | .seatRadiusCm => ⟨20, 300⟩
  | .mergeCm => ⟨0, 200⟩
  | .enterWindow => ⟨1, 60⟩
  | .enterMin => ⟨1, 60⟩
  | .releaseMs => ⟨2000, 300000⟩
  | .staleMs => ⟨2000, 120000⟩

/-- `Number.isInteger` -/
def isInteger (v : ℚ) : Bool := v.den = 1

/-- An edge parameter belongs to the site, whoever changes it. -/
structure Key where
  uid : Option String
  param : Param
deriving DecidableEq

def key (uid : String) (param : Param) : Key :=
  match param with
  | .device _ => ⟨some uid, param⟩
  | .edge _ => ⟨none, param⟩

/-! ## Changes -/

/-- `from` is never null: a parameter whose value is not known is not changed. -/
structure PendingChange where
  uid : String
  nodeId : String
  param : Param
  from_ : ℚ
  to_ : ℚ
  at_ : Int
  revertAt : Int
  confirmedAt : Option Int
  cmdSeq : Option Nat
  commandAt : Int
  commandBoot : Option Nat
  commandGeneration : Option Nat
  restoring : Bool
deriving DecidableEq

namespace PendingChange

def key (c : PendingChange) : Key := Params.key c.uid c.param

def isDevice (c : PendingChange) : Bool :=
  match c.param with
  | .device _ => true
  | .edge _ => false

/-- The device parameter of the change, and the value it was given. -/
def target (c : PendingChange) : Option (ParamName × ℚ) :=
  match c.param with
  | .device name => some (name, c.to_)
  | .edge _ => none

end PendingChange

/-! ## The journal -/

def jsonChar (c : Char) : List Char :=
  if c = '"' ∨ c = '\\' then ['\\', c]
  else
    match c.toNat with
    | 8 => ['\\', 'b']
    | 9 => ['\\', 't']
    | 10 => ['\\', 'n']
    | 12 => ['\\', 'f']
    | 13 => ['\\', 'r']
    | n => if n < 32 then ['\\', 'u', '0', '0', hexDigit (n / 16), hexDigit (n % 16)] else [c]

/-- `JSON.stringify` of a string. -/
def jsonString (s : String) : String := "\"" ++ String.ofList (s.toList.flatMap jsonChar) ++ "\""

def jsonOption (v : Option String) : String := v.getD "null"

def paramText : ParamName → String
  | .minContrast => "min_contrast"
  | .minPeak => "min_peak"
  | .noiseK => "noise_k"
  | .minArea => "min_area"
  | .maxArea => "max_area"
  | .bgTau => "bg_tau"
  | .bgFrames => "bg_frames"
  | .rawEvery => "raw_every"
  | .refresh => "refresh"
  | .splitSep => "split_sep"

/-- A device change in the journal; its values are integers. -/
def PendingChange.fields (c : PendingChange) : List (String × String) :=
  [("uid", jsonString c.uid), ("nodeId", jsonString c.nodeId),
    ("param", jsonString (match c.param with
      | .device name => paramText name
      | .edge _ => "")),
    ("binding", jsonString "device"), ("from", toString c.from_.num), ("to", toString c.to_.num),
    ("at", toString c.at_), ("revertAt", toString c.revertAt),
    ("confirmedAt", jsonOption (c.confirmedAt.map toString)),
    ("cmdSeq", jsonOption (c.cmdSeq.map toString)), ("commandAt", toString c.commandAt),
    ("commandGeneration", jsonOption (c.commandGeneration.map toString)),
    ("commandBoot", jsonOption (c.commandBoot.map toString))] ++
  if c.restoring then [("restoring", "true")] else []

def PendingChange.text (c : PendingChange) : String :=
  "\x7b" ++ ",".intercalate (c.fields.map fun f => jsonString f.1 ++ ":" ++ f.2) ++ "\x7d"

def journalText (cs : List PendingChange) : String :=
  "[" ++ ",".intercalate (cs.map PendingChange.text) ++ "]"

def maxJournalBytes : Nat := 8 * 1024 * 1024
def maxJournalEntries : Nat := 50000

/-- An entry the constructor takes. -/
def validEntry (c : PendingChange) : Bool :=
  match c.param with
  | .device name => Replay.isUid c.uid && isInteger c.from_ &&
      decide ((paramLimits name).lo ≤ c.from_) && decide (c.from_ ≤ (paramLimits name).hi)
  | .edge _ => false

/-- The entries of the journal. Device settings outlive the process, so their deadline is
now. -/
def load (now : Int) (file : Option (List PendingChange)) :
    Except String (JsMap Key PendingChange) :=
  match file with
  | none => .ok .empty
  | some cs =>
    if maxJournalBytes < (journalText cs).utf8ByteSize then
      .error "pending parameter journal exceeds its limit"
    else if maxJournalEntries < cs.length then .error "invalid pending parameter journal"
    else if cs.all validEntry then
      .ok (cs.foldl (fun m c => m.set c.key { c with revertAt := now }) .empty)
    else .error "invalid pending parameter journal entry"

/-! ## What the broker sees -/

/-- The last STATUS of a node. -/
structure NodeStatus where
  params : List (ParamName × Int)
  lastCmd : Nat
  receivedAt : Int
  generation : Nat

structure NodeView where
  status : Option NodeStatus
  boot : Option Nat

/-- How `savePending` ends. -/
inductive SaveIo
  | ok
  /-- The file is as it was. -/
  | unwritten
  /-- The file has been replaced, and its directory could not be flushed. -/
  | unsynced
deriving DecidableEq

/-- What a call reads: the clock, and how each save of it ends. -/
structure Env where
  now : Int
  io : SaveIo
  /-- The save after a change has been taken out again. -/
  retry : SaveIo
  /-- The save of `confirm`. -/
  confirm : SaveIo

/-- The operation that holds a key of `reverting`. -/
inductive Operation
  | apply
  | revert
deriving DecidableEq

inductive Effect
  /-- A STATUS of the node has arrived. -/
  | reported (uid : String) (params : List (ParamName × Int))
  /-- SET_PARAM is handed to `sendCommand`. -/
  | setParam (uid : String) (name : ParamName) (value : ℚ) (by_ : Operation)
  | saveParams (uid : String)
  /-- `commit` has returned true. -/
  | committed (uid : String) (param : Param) (value : ℚ)
  /-- `persist` has resolved; these changes are in the flash of the node. -/
  | persisted (uid : String) (kept : List (ParamName × ℚ))
  /-- A STATUS shows the baseline again, and the journal says so. -/
  | restored (uid : String) (param : Param)
  /-- `revert` has resolved to true. -/
  | reverted (uid : String) (param : Param)
deriving DecidableEq

structure ParamBroker where
  pending : JsMap Key PendingChange
  reverting : JsMap Key Operation
  persisting : List String

/-- The process, its engine and the nodes as it knows them, and the disk. -/
structure System where
  broker : ParamBroker
  /-- The constructor of this process has not thrown. -/
  up : Bool
  file : Option (List PendingChange)
  nodes : JsMap String NodeView
  options : OccupancyOptions
  trace : List Effect

structure Config where
  /-- There is a data directory. -/
  dataDir : Bool
  occupancy : OccupancyOptions

namespace System

def pending (s : System) : JsMap Key PendingChange := s.broker.pending

def setPending (s : System) (m : JsMap Key PendingChange) : System :=
  { s with broker := { s.broker with pending := m } }

/-- The object under a key is changed where it stands. -/
def update (s : System) (k : Key) (f : PendingChange → PendingChange) : System :=
  match s.pending.get k with
  | none => s
  | some c => s.setPending (s.pending.set k (f c))

def hold (s : System) (k : Key) (op : Operation) : System :=
  { s with broker := { s.broker with reverting := s.broker.reverting.set k op } }

def release (s : System) (k : Key) : System :=
  { s with broker := { s.broker with reverting := s.broker.reverting.delete k } }

def emit (s : System) (e : Effect) : System := { s with trace := s.trace ++ [e] }

def node (s : System) (uid : String) : NodeView := (s.nodes.get uid).getD ⟨none, none⟩

def deviceChanges (m : JsMap Key PendingChange) : List PendingChange :=
  m.values.filter PendingChange.isDevice

/-- `savePending`, and whether it has come back without throwing. -/
def savePending (cfg : Config) (s : System) (io : SaveIo) : System × Bool :=
  if !cfg.dataDir then (s, true)
  else
    match io with
    | .ok => ({ s with file := some (deviceChanges s.pending) }, true)
    | .unwritten => (s, false)
    | .unsynced => ({ s with file := some (deviceChanges s.pending) }, false)

/-- `this.deviceParams(uid)[param]` -/
def deviceParam (s : System) (uid : String) (name : ParamName) : Option Int :=
  (s.node uid).status.bind fun st => (st.params.find? fun e => e.1 = name).map Prod.snd

def setEdge (s : System) (path : EdgeParam) (v : ℚ) : Except String System := do
  let options ← setOptions s.options path v
  return { s with options }

/-! ## `confirm` -/

/-- The node's STATUS shows that it took the command of this change. -/
def seen (s : System) (c : PendingChange) : Bool :=
  match c.confirmedAt, c.param, (s.node c.uid).status with
  | none, .device name, some st =>
    c.commandGeneration.all (fun g => decide (g < st.generation)) &&
      decide (c.commandAt ≤ st.receivedAt) &&
      c.commandBoot.all (fun b => decide ((s.node c.uid).boot = some b)) &&
      c.cmdSeq.any (fun seq => decide (seq ≤ st.lastCmd)) &&
      decide (((st.params.find? fun e => e.1 = name).map fun e => (e.2 : ℚ)) = some c.to_)
  | _, _, _ => false

/-- The changes whose recovery a STATUS shows. -/
def restored (s : System) : List PendingChange :=
  s.pending.values.filter fun c => s.seen c && c.restoring

/-- What is still pending when these are taken out, the others confirmed. -/
def confirmed (s : System) (now : Int) : System :=
  s.setPending ((s.pending.filter fun c => !(s.seen c && c.restoring)).mapValues fun _ c =>
    if s.seen c then { c with confirmedAt := some now } else c)

def confirm (cfg : Config) (s : System) (now : Int) (io : SaveIo) : System :=
  let gone := s.restored
  let t := s.confirmed now
  if gone = [] then t
  else
    match savePending cfg t io with
    | (t, true) => gone.foldl (fun t c => t.emit (.restored c.uid c.param)) t
    -- Recovery is kept until its removal is durable.
    | (t, false) => t.setPending (gone.foldl (fun m c => m.set c.key c) t.pending)

/-! ## `apply` -/

/-- The value before the change. -/
def baseline (s : System) (uid : String) (binding : ParamBinding) (value : ℚ) :
    Except String (Param × ℚ) :=
  match binding with
  | .noDevice name => .error (name ++ " is not a node parameter")
  | .device name =>
    if !isInteger value then .error "a node parameter is an integer on the wire"
    else if value < (paramLimits name).lo ∨ (paramLimits name).hi < value then
      .error ("the node only accepts " ++ paramText name ++ " between its limits")
    else
      match s.deviceParam uid name with
      | none => .error "wait for a STATUS with the current parameter before changing it"
      | some v => .ok (.device name, v)
  | .noEdge path => .error (path ++ " is not a tunable edge parameter")
  | .edge path =>
    if value < (edgeLimits path).lo ∨ (edgeLimits path).hi < value then
      .error "an edge parameter must be between its limits"
    else .ok (.edge path, s.options.get path)
  | .own => .error "that parameter is local to the debugger and needs no write"

/-- The change put on the timer. The first value is the one worth keeping. -/
def newChange (s : System) (env : Env) (uid nodeId : String) (param : Param) (first value : ℚ) :
    PendingChange where
  uid := uid
  nodeId := nodeId
  param := param
  from_ := ((s.pending.get (key uid param)).map PendingChange.from_).getD first
  to_ := value
  at_ := env.now
  revertAt := env.now + revertMs
  confirmedAt :=
    match param with
    | .device _ => none
    | .edge _ => some env.now
  cmdSeq := none
  commandAt := env.now
  commandBoot :=
    match param with
    | .device _ => (s.node uid).boot
    | .edge _ => none
  commandGeneration :=
    match param with
    | .device _ => (s.node uid).status.map NodeStatus.generation
    | .edge _ => none
  restoring := false

/-- The map before the change under `k`. -/
def withExisting (m : JsMap Key PendingChange) (k : Key) :
    Option PendingChange → JsMap Key PendingChange
  | some c => m.set k c
  | none => m.delete k

/-- The change is taken out again; the second save may throw in its turn. -/
def undo (cfg : Config) (s : System) (env : Env) (k : Key) (existing : Option PendingChange) :
    System :=
  let s := s.setPending (withExisting s.pending k existing)
  (savePending cfg s env.retry).1.release k

/-- Up to the `await`; an error is the rejection of the call. -/
def apply (cfg : Config) (s : System) (env : Env) (uid nodeId : String) (binding : ParamBinding)
    (value : ℚ) : System × Except String Unit :=
  if uid ∈ s.broker.persisting then (s, .error "wait for the parameter save to finish")
  else
    match s.baseline uid binding value with
    | .error e => (s, .error e)
    | .ok (param, first) =>
      let k := key uid param
      if s.broker.reverting.has k then
        (s, .error "wait for the current parameter command to finish")
      else
        let existing := s.pending.get k
        let s := (s.setPending (s.pending.set k (s.newChange env uid nodeId param first value))).hold
          k .apply
        -- The intent is saved before a command that may outlive the process.
        match savePending cfg s env.io with
        | (s, false) => (undo cfg s env k existing, .error "the journal could not be written")
        | (s, true) =>
          match param with
          | .device name => (s.emit (.setParam uid name value .apply), .ok ())
          | .edge path =>
            match s.setEdge path value with
            | .error e => (undo cfg s env k existing, .error e)
            | .ok s => (s.release k, .ok ())

/-! ## `commit` -/

def commit (cfg : Config) (s : System) (env : Env) (uid : String) (param : Param) :
    System × Except String Bool :=
  let k := key uid param
  if s.broker.reverting.has k then
    (s, .error "wait for the current parameter command to finish")
  else
    match s.pending.get k with
    | none => (s, .ok false)
    | some c =>
      match savePending cfg (s.setPending (s.pending.delete k)) env.io with
      | (t, false) => (t.setPending (t.pending.set k c), .error "the journal could not be written")
      | (t, true) => (t.emit (.committed uid param c.to_), .ok true)

/-! ## `revert` -/

/-- After the command, or the change of the engine. -/
def finishRevert (cfg : Config) (s : System) (env : Env) (uid : String) (param : Param) : System :=
  let k := key uid param
  let s := s.release k
  let s :=
    match param with
    | .device _ => s
    | .edge _ => s.setPending (s.pending.delete k)
  match savePending cfg s env.io with
  | (s, false) => s
  | (s, true) => (s.confirm cfg env.now env.confirm).emit (.reverted uid param)

/-- A failure is retried in five seconds. -/
def revertFails (cfg : Config) (s : System) (env : Env) (k : Key) : System :=
  let s := s.update k fun c => { c with revertAt := env.now + 5000 }
  (savePending cfg (s.release k) env.io).1

/-- Up to the `await`. -/
def revert (cfg : Config) (s : System) (env : Env) (uid : String) (param : Param) : System :=
  let k := key uid param
  match s.pending.get k with
  | none => s
  | some c =>
    if s.broker.reverting.has k ∨ uid ∈ s.broker.persisting then s
    else
      let s := s.hold k .revert
      match param with
      | .device name =>
        let s := s.update k fun c => { c with
          commandAt := env.now
          commandGeneration := (s.node uid).status.map NodeStatus.generation
          commandBoot := (s.node uid).boot }
        s.emit (.setParam uid name c.from_ .revert)
      | .edge path =>
        match s.setEdge path c.from_ with
        | .error _ => revertFails cfg s env k
        | .ok s => finishRevert cfg s env uid param

/-- The deadlines that have passed. `revert` may answer for some of these meanwhile. -/
def sweep (cfg : Config) (s : System) (now : Int) (env : Key → Env) : System :=
  s.pending.entries.foldl (fun s e =>
    if now < e.2.revertAt ∨ s.broker.reverting.has e.1 then s
    else revert cfg s (env e.1) e.2.uid e.2.param) s

/-! ## `sendCommand` comes back -/

/-- The promise of the command of a held key; `none` is a rejection. -/
def answered (cfg : Config) (s : System) (env : Env) (uid : String) (name : ParamName)
    (result : Option Nat) : System :=
  let k := key uid (.device name)
  match s.broker.reverting.get k, result with
  | none, _ => s
  | some .apply, some seq => (s.update k fun c => { c with cmdSeq := some seq }).release k
  -- A dispatch error does not prove that the command never arrived.
  | some .apply, none => (s.update k fun c => { c with revertAt := env.now + 5000 }).release k
  | some .revert, some seq =>
    let s := s.update k fun c => { c with
      cmdSeq := some seq
      restoring := true
      to_ := c.from_
      confirmedAt := none
      revertAt := env.now + 5000 }
    finishRevert cfg s env uid (.device name)
  | some .revert, none => revertFails cfg s env k

/-! ## `persist` -/

def persist (s : System) (uid : String) : System × Except String Unit :=
  if uid ∈ s.broker.persisting then (s, .error "wait for the parameter save to finish")
  else if s.pending.entries.any fun e => e.2.uid = uid &&
      (s.broker.reverting.has e.1 || e.2.restoring) then
    (s, .error "wait for the current parameter command and recovery to finish")
  else
    ({ s with broker := { s.broker with persisting := uid :: s.broker.persisting } }.emit
      (.saveParams uid), .ok ())

def ofNode (uid : String) (c : PendingChange) : Bool := c.uid = uid && c.isDevice

/-- The node has saved its parameters, or the command was rejected. -/
def saved (cfg : Config) (s : System) (env : Env) (uid : String) (ok : Bool) : System :=
  if uid ∉ s.broker.persisting then s
  else
    let finished (s : System) : System :=
      { s with broker := { s.broker with persisting := s.broker.persisting.erase uid } }
    if !ok then finished s
    else
      let previous := s.pending.values.filter (ofNode uid)
      match savePending cfg (s.setPending (s.pending.filter fun c => !ofNode uid c)) env.io with
      | (t, false) => finished (t.setPending (previous.foldl (fun m c => m.set c.key c) t.pending))
      | (t, true) => finished (t.emit (.persisted uid (previous.filterMap PendingChange.target)))

/-! ## Steps -/

/-- A STATUS that `parsePacket` has accepted. -/
structure StatusReport where
  uid : String
  wf : Replay.isUid uid = true
  params : List (ParamName × Int)
  lastCmd : Nat
  receivedAt : Int

def onStatus (s : System) (r : StatusReport) : System :=
  let old := s.node r.uid
  let generation := ((old.status.map NodeStatus.generation).getD 0) + 1
  { s with nodes := s.nodes.set r.uid { old with
      status := some ⟨r.params, r.lastCmd, r.receivedAt, generation⟩ } }.emit
    (.reported r.uid r.params)

/-- A process over this journal. -/
def boot (cfg : Config) (now : Int) (file : Option (List PendingChange)) (trace : List Effect) :
    System :=
  match load now (if cfg.dataDir then file else none) with
  | .ok pending => ⟨⟨pending, .empty, []⟩, true, file, .empty, cfg.occupancy, trace⟩
  | .error _ => ⟨⟨.empty, .empty, []⟩, false, file, .empty, cfg.occupancy, trace⟩

inductive Event
  | status (report : StatusReport)
  /-- The link of a node has this boot. -/
  | heard (uid : String) (boot : Option Nat)
  | apply (env : Env) (uid nodeId : String) (binding : ParamBinding) (value : ℚ)
  | commit (env : Env) (uid : String) (param : Param)
  | revert (env : Env) (uid : String) (param : Param)
  | persist (uid : String)
  | sweep (now : Int) (env : Key → Env)
  /-- `changes()` and `requested()`. -/
  | changes (env : Env)
  | answered (env : Env) (uid : String) (name : ParamName) (result : Option Nat)
  | saved (env : Env) (uid : String) (ok : Bool)
  /-- The process ends, and another starts. -/
  | crash (now : Int)

def step (cfg : Config) (s : System) (event : Event) : System :=
  match event with
  | .crash now => boot cfg now s.file s.trace
  | event =>
    if !s.up then s
    else
      match event with
      | .crash _ => s
      | .status report => s.onStatus report
      | .heard uid boot => { s with nodes := s.nodes.set uid { s.node uid with boot } }
      | .apply env uid nodeId binding value => (apply cfg s env uid nodeId binding value).1
      | .commit env uid param => (commit cfg s env uid param).1
      | .revert env uid param => revert cfg s env uid param
      | .persist uid => (s.persist uid).1
      | .sweep now env => sweep cfg s now env
      | .changes env => s.confirm cfg env.now env.confirm
      | .answered env uid name result => answered cfg s env uid name result
      | .saved env uid ok => saved cfg s env uid ok

def new (cfg : Config) : System := boot cfg 0 none []

end System

end TMEdge.Params
