import TMEdge.Flasher.Scrub
import TMEdge.Library.Dialogue
import TMEdge.Library.JsMap

/-!
# Talking to a node over its console

The model of `NodeInfo`, `verifyNode` and `NodeConsole` (`shared/flasher/node-console.ts`). Every
call to the link, to the clock or to the edge is answered by the next of a list of answers, so a
behaviour of the node is any list of them; the deadlines are the answers of the clock. What
`Number` makes of a text is a parameter.

* `prints_runAll`, `prints_showNode`, `prints_rebootAndWatch`: the console prints nothing but
  through its `log`.
-/

namespace TMEdge.Flasher

open Library

/-- What the edge says of a node. -/
inductive Admission
  | registered
  | pending
  | denied
  | failed (reason : Text)
  deriving DecidableEq

/-- The answer to one call: an error, a line or none in time, whether a deadline has passed, the
word of the edge; a call reads what it asked for. -/
structure Answer where
  failure : Option Text := none
  line : Option Text := none
  late : Bool := false
  admission : Admission := .registered

abbrev Serial := Dialogue Answer Text Text

def call : Serial Answer := do
  let a ← Dialogue.ask
  match a.failure with
  | some e => Dialogue.throws e
  | none => pure a

/-- `link.write`. -/
def write (_text : Text) : Serial Unit := do
  let _ ← call
  pure ()

/-- `link.readLine`. -/
def readLine : Serial (Option Text) := do
  let a ← call
  pure a.line

/-- `this.now() >= deadline`. -/
def late : Serial Bool := do
  let a ← Dialogue.ask
  pure a.late

/-! ## What a node reports -/

/-- The fields of a `show` block. -/
structure NodeInfo where
  fields : JsMap Text Text

namespace NodeInfo

variable (info : NodeInfo)

def uid : Option Text := info.fields.get (js "uid")

def firmware : Option Text := info.fields.get (js "fw")

def nodeId : Option Nat :=
  (info.fields.get (js "node_id")).bind fun text =>
    if text ≠ [] ∧ text.all isDigit = true then some (valueOf text) else none

def mode : Option UplinkMode :=
  let mode := info.fields.get (js "mode")
  if mode = some (js "wifi") then some .wifi
  else if mode = some (js "lora") then some .lora else none

def ssid : Option Text := (info.fields.get (js "ssid")).filter (· ≠ js "(unset)")

def passwordSet : Bool := info.fields.get (js "password") = some (js "(set)")

def keySet : Bool := info.fields.get (js "key") = some (js "(set)")

def edge : Option Text :=
  ((info.fields.get (js "edges")).map fun edges => edges.takeWhile (· ≠ 32)).filter fun first =>
    first ≠ [] ∧ first ≠ js "(none)"

def loraGateway : Option Text := (info.fields.get (js "lora_gw")).filter (· ≠ js "(none)")

def capabilities : List Text :=
  ((((info.fields.get (js "caps")).getD []).splitOn 44).map Text.trim).filter (· ≠ [])

def supportsDirectCloud : Bool := info.capabilities.contains (js "wss1")

def supportsFrameRate : Bool := info.capabilities.contains (js "fps1")

def frameRate (number : Text → Option ℚ) : Option FrameRate :=
  match (info.fields.get (js "fps")).bind number with
  | none => none
  | some fps =>
    if fps = 1 then some .one else if fps = 2 then some .two
    else if fps = 4 then some .four else none

def transport : UplinkTransport :=
  if info.fields.get (js "transport") = some (js "wss") then .wss else .udp

def cloudUrl : Option Text := (info.fields.get (js "cloud_url")).filter (· ≠ js "(none)")

end NodeInfo

def parseField (line : Text) : Option (Text × Text) :=
  if 58 ∈ line then
    let name := Text.trim (line.takeWhile (· ≠ 58))
    let nameOk := name ≠ [] ∧ (name.all fun c => (97 ≤ c && c ≤ 122) || c = 95) = true
    if nameOk then some (name, Text.trim ((line.dropWhile (· ≠ 58)).drop 1)) else none
  else none

/-! ## What was asked for and what is there -/

def nothing (v : Option Text) : Text := v.getD (js "nothing")

def wifiErrors (u : Unicode) (info : NodeInfo) (s : NodeSettings) : List Text :=
  let want := canonicalCloudUrl u s.cloudUrl
  problem (s.ssid ≠ [] ∧ info.ssid ≠ some s.ssid) (js "SSID was not stored") ++
  problem (s.password ≠ [] ∧ info.passwordSet = false) (js "Wi-Fi password was not stored") ++
  problem (s.gateway ≠ [] ∧ info.edge ≠ some s.gateway)
    (js "TMWAccess IP reads " ++ nothing info.edge ++ js ", expected " ++ s.gateway) ++
  if s.transport = .wss ∨ info.transport = .wss then
    problem (info.transport ≠ s.transport)
      (js "transport reads " ++
        (info.fields.get (js "transport")).getD (js "nothing (old firmware)") ++
        js ", expected " ++ s.transport.text) ++
    problem (want ≠ [] ∧ info.cloudUrl ≠ some want)
      (js "cloud URL reads " ++ nothing info.cloudUrl ++ js ", expected " ++ want) ++
    problem (s.transport = .wss ∧ info.cloudUrl = none)
      (js "no cloud URL on the node: transport wss has nowhere to go")
  else
    problem (info.supportsDirectCloud = true ∧ info.transport ≠ .udp)
      (js "transport reads " ++ nothing (info.fields.get (js "transport")) ++ js ", expected udp")

def noSsid : Text := js "no Wi-Fi SSID on the node"

def noPassword : Text := js "no Wi-Fi password on the node"

def noEdgeKept : Text :=
  js "no TMWAccess IP kept on the node: a USB rollback to UDP will need one"

def noEdge : Text := js "no TMWAccess IP on the node: it has nowhere to send"

def noGateway : Text := js "no TMLAccess IP on the node"

def noLora : Text := js ("this firmware has no LoRa uplink yet: the node stores the settings " ++
  "but sends nothing until it does")

def noKey : Text := js "no signing key: telemetry is unsigned and TMedge will reject it"

def wifiWarnings (info : NodeInfo) (s : NodeSettings) : List Text :=
  problem (info.ssid = none) noSsid ++ problem (info.passwordSet = false) noPassword ++
  problem (info.edge = none)
    (if s.transport = .wss ∨ info.transport = .wss then noEdgeKept else noEdge)

structure Verified where
  errors : List Text
  warnings : List Text

def verifyNode (u : Unicode) (number : Text → Option ℚ) (info : NodeInfo) (id : Nat)
    (s : NodeSettings) : Verified :=
  let f := info.fields
  let errors :=
    problem (info.nodeId ≠ some id)
      (js "node ID reads " ++ nothing (f.get (js "node_id")) ++ js ", expected " ++ Text.decimal id)
      ++
    problem (info.mode ≠ some s.mode)
      (js "mode reads " ++ nothing (f.get (js "mode")) ++ js ", expected " ++ s.mode.text) ++
    (match s.frameRate with
      | none => []
      | some rate => problem (info.frameRate number ≠ some rate)
        (js "frame rate reads " ++ nothing (f.get (js "fps")) ++ js ", expected " ++ rate.text ++
          js " fps"))
  let noKeyStored := problem (s.key ≠ [] ∧ info.keySet = false) (js "signing key was not stored")
  let unsigned := problem (info.keySet = false) noKey
  match s.mode with
  | .wifi => ⟨errors ++ wifiErrors u info s ++ noKeyStored, wifiWarnings info s ++ unsigned⟩
  | .lora =>
    ⟨errors ++ problem (s.gateway ≠ [] ∧ info.loraGateway ≠ some s.gateway)
        (js "TMLAccess IP reads " ++ nothing info.loraGateway ++ js ", expected " ++ s.gateway) ++
        noKeyStored,
      problem (info.loraGateway = none) noGateway ++ [noLora] ++ unsigned⟩

/-! ## The console -/

/-- `Math.round(ms / 1000)`, in decimal. -/
def seconds (ms : Nat) : Text := Text.decimal ((ms + 500) / 1000)

def failures : List Text :=
  [js "invalid", js "unknown", js "usage:", js "SAVE FAILED", js "line too long"]

def bootPrefixes : List Text :=
  [js "[boot]", js "[wifi]", js "[lora]", js "[sensor]", js "[cloud]"]

def collectShow : Serial (Option NodeInfo) :=
  Dialogue.forever (fun fields => do
    match ← readLine with
    | none => pure (.inr none)
    | some line =>
      match parseField line with
      | none => pure (.inl fields)
      | some (name, value) =>
        let fields : JsMap Text Text := if name = js "uid" then .empty else fields
        let fields := fields.set name value
        if name = js "boot" ∧ fields.has (js "uid") = true then pure (.inr (some ⟨fields⟩))
        else pure (.inl fields)) .empty

def waitUntilReady (timeoutMs : Nat) : Serial NodeInfo :=
  Dialogue.forever (fun _ => do
    if ← late then
      Dialogue.throws (js "no answer from TMsense firmware within " ++ seconds timeoutMs ++
        js " s — is it a TMsense, and is its firmware running?")
    else
      write ([10] ++ js "show" ++ [10])
      match ← collectShow with
      | some info => pure (.inr info)
      | none => pure (.inl ())) ()

/-- `show`. -/
def showNode : Serial NodeInfo := do
  Dialogue.forever (fun _ => do
    if ← late then pure (.inr ())
    else
      match ← readLine with
      | none => pure (.inr ())
      | some _ => pure (.inl ())) ()
  write (js "show" ++ [10])
  match ← collectShow with
  | some info => pure info
  | none => Dialogue.throws (js "node did not answer `show`")

/-- `run`, for which the time is always the default. -/
def runCommand (log : Text → Serial Unit) (c : ConsoleCommand) : Serial Unit := do
  log (js "› " ++ c.display)
  write (c.line ++ [10])
  let answered ← Dialogue.forever (fun _ => do
    match ← readLine with
    | none => pure (.inr false)
    | some line =>
      if c.expect <+: line then pure (.inr true)
      else if failures.any fun failure => failure.isPrefixOf line then
        Dialogue.throws (js "node refused `" ++ c.display ++ js "`: " ++ line)
      else pure (.inl ())) ()
  if answered then pure ()
  else
    Dialogue.throws (js "no answer to `" ++ c.display ++ js "` within " ++ seconds 4000 ++ js " s")

def runAll (log : Text → Serial Unit) : List ConsoleCommand → Serial Unit
  | [] => pure ()
  | c :: cs => do
    runCommand log c
    runAll log cs

structure BootWatch where
  ip : Option Text
  edgeAccepted : Bool
  cloudError : Option Text

/-- `/^\[wifi\] connected ip=(\S+)/`. -/
def joinedIp (line : Text) : Option Text :=
  let said := js "[wifi] connected ip="
  if said <+: line then
    let ip := (line.drop said.length).takeWhile fun c => !Text.isSpace c
    if ip = [] then none else some ip
  else none

/-- One line of the loop of `rebootAndWatch`. -/
def watchLine (log : Text → Serial Unit) (cloudTimeoutMs : Nat) (watch : BootWatch) (line : Text) :
    Serial (BootWatch ⊕ BootWatch) :=
  match if watch.ip = none then joinedIp line else none with
  | some ip => do
    log line
    if cloudTimeoutMs = 0 then pure (.inr { watch with ip := some ip })
    else pure (.inl { watch with ip := some ip })
  | none =>
    if js "[cloud] report accepted" <+: line then do
      log line
      pure (.inr { watch with edgeAccepted := true })
    else do
      let backoff := js "[cloud] backoff: "
      let watch := if backoff <+: line then
        { watch with cloudError := some (line.drop backoff.length) } else watch
      if bootPrefixes.any fun said => said.isPrefixOf line then log line else pure ()
      pure (.inl watch)

def rebootAndWatch (log : Text → Serial Unit) (cloudTimeoutMs : Nat) : Serial BootWatch := do
  log (js "› reboot")
  write (js "reboot" ++ [10])
  Dialogue.forever (fun watch => do
    match ← readLine with
    | none => pure (.inr watch)
    | some line => watchLine log cloudTimeoutMs watch line) ⟨none, false, none⟩

def reboot (log : Text → Serial Unit) : Serial Unit := do
  log (js "› reboot")
  write (js "reboot" ++ [10])

/-! ## What the console prints -/

section prints

variable {P : Text → Prop} {log : Text → Serial Unit}

theorem prints_call (P : Text → Prop) : Dialogue.Prints P call := by
  refine Dialogue.prints_bind (Dialogue.prints_ask P) fun a => ?_
  split
  · exact Dialogue.prints_throws P _
  · exact Dialogue.prints_pure P _

theorem prints_write (P : Text → Prop) (text : Text) : Dialogue.Prints P (write text) :=
  Dialogue.prints_bind (prints_call P) fun _ => Dialogue.prints_pure P _

theorem prints_readLine (P : Text → Prop) : Dialogue.Prints P readLine :=
  Dialogue.prints_bind (prints_call P) fun _ => Dialogue.prints_pure P _

theorem prints_late (P : Text → Prop) : Dialogue.Prints P late :=
  Dialogue.prints_bind (Dialogue.prints_ask P) fun _ => Dialogue.prints_pure P _

theorem prints_collectShow (P : Text → Prop) : Dialogue.Prints P collectShow := by
  refine Dialogue.prints_forever (fun fields => ?_) _
  refine Dialogue.prints_bind (prints_readLine P) fun line => ?_
  split
  · exact Dialogue.prints_pure P _
  · split
    · exact Dialogue.prints_pure P _
    · exact Dialogue.prints_ite (Dialogue.prints_pure P _) (Dialogue.prints_pure P _)

theorem prints_waitUntilReady (P : Text → Prop) (timeoutMs : Nat) :
    Dialogue.Prints P (waitUntilReady timeoutMs) := by
  refine Dialogue.prints_forever (fun _ => ?_) _
  refine Dialogue.prints_bind (prints_late P) fun isLate => ?_
  refine Dialogue.prints_ite (Dialogue.prints_throws P _) ?_
  refine Dialogue.prints_bind (prints_write P _) fun _ => ?_
  refine Dialogue.prints_bind (prints_collectShow P) fun info => ?_
  split
  · exact Dialogue.prints_pure P _
  · exact Dialogue.prints_pure P _

theorem prints_showNode (P : Text → Prop) : Dialogue.Prints P showNode := by
  refine Dialogue.prints_bind (Dialogue.prints_forever (fun _ => ?_) _) fun _ => ?_
  · refine Dialogue.prints_bind (prints_late P) fun isLate => ?_
    refine Dialogue.prints_ite (Dialogue.prints_pure P _) ?_
    refine Dialogue.prints_bind (prints_readLine P) fun line => ?_
    split
    · exact Dialogue.prints_pure P _
    · exact Dialogue.prints_pure P _
  · refine Dialogue.prints_bind (prints_write P _) fun _ => ?_
    refine Dialogue.prints_bind (prints_collectShow P) fun info => ?_
    split
    · exact Dialogue.prints_pure P _
    · exact Dialogue.prints_throws P _

theorem prints_runCommand (hLog : ∀ l, Dialogue.Prints P (log l)) (c : ConsoleCommand) :
    Dialogue.Prints P (runCommand log c) := by
  refine Dialogue.prints_bind (hLog _) fun _ => ?_
  refine Dialogue.prints_bind (prints_write P _) fun _ => ?_
  refine Dialogue.prints_bind (Dialogue.prints_forever (fun _ => ?_) _) fun answered => ?_
  · refine Dialogue.prints_bind (prints_readLine P) fun line => ?_
    split
    · exact Dialogue.prints_pure P _
    · refine Dialogue.prints_ite (Dialogue.prints_pure P _) ?_
      exact Dialogue.prints_ite (Dialogue.prints_throws P _) (Dialogue.prints_pure P _)
  · exact Dialogue.prints_ite (Dialogue.prints_pure P _) (Dialogue.prints_throws P _)

theorem prints_runAll (hLog : ∀ l, Dialogue.Prints P (log l)) (cs : List ConsoleCommand) :
    Dialogue.Prints P (runAll log cs) := by
  induction cs with
  | nil => exact Dialogue.prints_pure P _
  | cons c cs ih => exact Dialogue.prints_bind (prints_runCommand hLog c) fun _ => ih

theorem prints_watchLine (hLog : ∀ l, Dialogue.Prints P (log l)) (cloudTimeoutMs : Nat)
    (watch : BootWatch) (line : Text) :
    Dialogue.Prints P (watchLine log cloudTimeoutMs watch line) := by
  unfold watchLine
  split
  · refine Dialogue.prints_bind (hLog _) fun _ => ?_
    exact Dialogue.prints_ite (Dialogue.prints_pure P _) (Dialogue.prints_pure P _)
  · refine Dialogue.prints_ite ?_ ?_
    · exact Dialogue.prints_bind (hLog _) fun _ => Dialogue.prints_pure P _
    · refine Dialogue.prints_ite ?_ (Dialogue.prints_pure P _)
      exact Dialogue.prints_bind (hLog _) fun _ => Dialogue.prints_pure P _

theorem prints_rebootAndWatch (hLog : ∀ l, Dialogue.Prints P (log l)) (cloudTimeoutMs : Nat) :
    Dialogue.Prints P (rebootAndWatch log cloudTimeoutMs) := by
  refine Dialogue.prints_bind (hLog _) fun _ => ?_
  refine Dialogue.prints_bind (prints_write P _) fun _ => ?_
  refine Dialogue.prints_forever (fun watch => ?_) _
  refine Dialogue.prints_bind (prints_readLine P) fun line => ?_
  split
  · exact Dialogue.prints_pure P _
  · exact prints_watchLine hLog cloudTimeoutMs watch _

theorem prints_reboot (hLog : ∀ l, Dialogue.Prints P (log l)) : Dialogue.Prints P (reboot log) :=
  Dialogue.prints_bind (hLog _) fun _ => prints_write P _

end prints

end TMEdge.Flasher
