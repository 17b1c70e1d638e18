import TMEdge.NodeLink.Sessions

/-!
# Which packets move state

`Observed` runs the listener and its `Ingest` beside a list of the datagrams that arrived,
each with its route and the time of the device keys when it was read. A packet that is
accepted, at once or when its job resumes, is one of these, read with the keys of its
route; a packet that is refused moves no link.

* `verified_only`: what is accepted, and what a refusal leaves alone, after any run.
-/

namespace TMEdge.NodeLink

open Library Protocol Ingest

/-! ## Datagrams -/

structure Receipt where
  msg : Buffer
  route : Route
  keysNow : ℚ

structure Observed where
  edge : Edge
  receipts : List Receipt

/-- The datagrams of an event that reach `Ingest`, if their session lets them. -/
def Edge.receipts (e : Edge) : EdgeEvent → List Receipt
  | .message _ ienv ref (.binary data) =>
    match (e.session? ref).bind Session.route with
    | none => []
    | some d => [⟨data, .direct ("ws:" ++ d.uid ++ ":" ++ d.sessionId) d, ienv.keysNow⟩]
  | .ingest (.handle msg source ienv) | .ingest (.handleDurable msg source ienv) =>
    [⟨msg, source.toRoute, ienv.keysNow⟩]
  | _ => []

namespace Observed

def new (replay : Replay.ReplayStore) : Observed := ⟨.new replay, []⟩

def step (cfg : Config) (o : Observed) (event : (String → String → Bool) × EdgeEvent) : Observed :=
  ⟨o.edge.step cfg event.1 event.2, o.receipts ++ o.edge.receipts event.2⟩

end Observed

/-! ## Jobs come from datagrams -/

/-- The job is one of these datagrams, and was read from it. -/
def Job.From (cfg : Config) (receipts : List Receipt) (j : Job) : Prop :=
  ∃ r ∈ receipts, r.msg = j.msg ∧ r.route = j.prepared.route ∧
    Verified cfg.crypto cfg.verify r.keysNow r.msg j.prepared

/-- Every job of `jobs` is an old one, or one of these datagrams. -/
def Queued (cfg : Config) (old : List Job) (receipts : List Receipt) (jobs : List Job) : Prop :=
  ∀ j' ∈ jobs, (∃ j ∈ old, j'.msg = j.msg ∧ j'.prepared = j.prepared) ∨ Job.From cfg receipts j'

variable {cfg : Config} {e : Edge} {ref : Nat} {old : List Job} {receipts : List Receipt}
  {s s' : State} {ienv : Ingest.Env} {msg : Buffer}

theorem Queued.of_frame (h : State.Frame s s') : Queued cfg s.jobs receipts s'.jobs :=
  fun j' hj' => Or.inl (h.jobs j' hj')

theorem Queued.refl : Queued cfg old receipts old := fun j' hj' => Or.inl ⟨j', hj', rfl, rfl⟩

theorem Queued.of_rest {e' : Edge} (h : e'.rest = e.rest) :
    Queued cfg e.ingest.jobs receipts e'.ingest.jobs := by
  have hJobs : e'.ingest.jobs = e.ingest.jobs := congrArg Prod.snd h
  exact hJobs ▸ .refl

theorem Queued.handleDurable {source : Source} {r : Option IngestResult}
    (h : s.handleDurable cfg.crypto cfg.verify msg source ienv = (s', r)) :
    Queued cfg s.jobs [⟨msg, source.toRoute, ienv.keysNow⟩] s'.jobs := by
  obtain ⟨-, -, hJobs⟩ := State.handleDurable_jobs h
  intro j' hj'
  rcases hJobs j' hj' with hOld | ⟨hMsg, hRoute, hVerified⟩
  · exact Or.inl hOld
  · exact Or.inr ⟨_, List.mem_singleton_self _, hMsg.symm, hRoute.symm, hVerified⟩

theorem Queued.handle {source : Source} {r : IngestResult}
    (h : s.handle cfg.crypto cfg.verify msg source ienv = (s', r)) :
    Queued cfg s.jobs receipts s'.jobs := by
  cases r with
  | refused uid reason => exact .of_frame (State.frame_handle h)
  | ok packet route =>
    obtain ⟨p, -, -, -, -, -, -, hJobs⟩ := State.handle_ok h
    exact fun j' hj' => Or.inl (hJobs j' hj')

theorem jobs_of_rest {e' : Edge} (h : e'.rest = e.rest) : e'.ingest.jobs = e.ingest.jobs :=
  congrArg Prod.snd h

theorem Queued.packet (env : Env) (ienv : Ingest.Env) (data : Buffer) :
    Queued cfg e.ingest.jobs (e.receipts (.message env ienv ref (.binary data)))
      (e.packet cfg env ienv ref data).ingest.jobs := by
  unfold Edge.packet
  simp only [Edge.receipts]
  cases (e.session? ref).bind Session.route with
  | none => exact .refl
  | some d =>
    dsimp only
    split
    · split
      · rename_i ingest result hHandle
        rw [jobs_of_rest (rest_packetResult env result)]
        exact .handleDurable hHandle
      · rename_i hHandle
        exact .handleDurable hHandle
    · rw [jobs_of_rest (rest_packetResult env _)]
      exact .handle rfl

theorem Queued.message (env : Env) (ienv : Ingest.Env) (data : Incoming) :
    Queued cfg e.ingest.jobs (e.receipts (.message env ienv ref data))
      (e.message cfg env ienv ref data).ingest.jobs := by
  rcases message_cases cfg e ref env ienv data with
    hRest | ⟨bytes, rfl, e', hRest, hRoute, hMessage⟩
  · exact .of_rest hRest
  · rw [hMessage, ← jobs_of_rest hRest]
    have hReceipts : e.receipts (.message env ienv ref (.binary bytes)) =
        e'.receipts (.message env ienv ref (.binary bytes)) := by
      simp only [Edge.receipts, hRoute]
    rw [hReceipts]
    exact .packet env ienv bytes

theorem Queued.resume {id : Nat} {r : Option (Buffer × Packet)}
    (h : s.resumeJob id ienv = (s', r)) : Queued cfg s.jobs receipts s'.jobs := by
  cases r with
  | none => exact .of_frame (State.resumeJob_none h)
  | some r =>
    obtain ⟨j, -, -, -, -, -, -, hJobs⟩ := State.resumeJob_some h
    exact fun j' hj' => Or.inl (hJobs j' hj')

theorem Queued.resumeJob (env : Env) (ienv : Ingest.Env) (id : Nat) :
    Queued cfg e.ingest.jobs receipts (e.resumeJob cfg env ienv id).ingest.jobs := by
  unfold Edge.resumeJob
  split
  · exact .refl
  · split
    · split
      · rename_i hResume
        rw [jobs_of_rest (rest_packetAccepted env _)]
        exact .resume hResume
      · rename_i hResume
        exact .resume hResume
    · exact .resume rfl

theorem Queued.stepIngest (event : HostEvent) :
    Queued cfg e.ingest.jobs (e.receipts (.ingest event)) (e.stepIngest cfg event).ingest.jobs := by
  unfold Edge.stepIngest
  split
  · exact .refl
  · exact .refl
  · exact .refl
  · exact .refl
  · exact .refl
  · rename_i hResume hDrop hRestart
    cases event with
    | handle msg source ienv =>
      rw [step_handle_fst]
      exact .handle rfl
    | handleDurable msg source ienv => exact .handleDurable rfl
    | admitJob id ienv => exact .of_frame State.frame_admitJob
    | resumeJob id ienv => exact absurd rfl (hResume id ienv)
    | settleJob id => exact .of_frame State.frame_settleJob
    | timerFires io => exact .of_frame State.frame_timerFires
    | syncDone ok => exact .of_frame State.frame_syncDone
    | allocateCommandSeq now io =>
      have hFrame := State.frame_allocateCommandSeq (s := e.ingest) now io
      simp only [State.step]
      split <;> rename_i hEq <;> rw [hEq] at hFrame <;> exact .of_frame hFrame
    | resetCursor uid io =>
      have hJobs := State.jobs_resetCursor (s := e.ingest) uid io
      simp only [State.step]
      split <;> rename_i hEq <;> rw [hEq] at hJobs <;> exact hJobs ▸ .refl
    | dropDirectRoute uid sessionId => exact absurd rfl (hDrop uid sessionId)
    | stop => exact .refl
    | restart io => exact absurd rfl (hRestart io)

theorem jobs_beat (env : Env) : (e.beat cfg env).ingest.jobs = e.ingest.jobs := by
  unfold Edge.beat
  dsimp only
  refine List.foldlRecOn (motive := fun e' : Edge => e'.ingest.jobs = e.ingest.jobs) _ _ rfl
    fun e' h' ref _ => ?_
  unfold Edge.beatSession
  split
  · exact h'
  · split
    · exact (jobs_of_rest rest_fail).trans h'
    · exact h'

theorem Queued.step (otaApproved : String → String → Bool) (event : EdgeEvent) :
    Queued cfg e.ingest.jobs (e.receipts event) (e.step cfg otaApproved event).ingest.jobs := by
  cases event with
  | «open» env nonce sessionId =>
    simp only [Edge.step, Edge.open]
    rw [jobs_of_rest (rest_control env _)]
    exact .refl
  | message env ienv ref data => exact .message env ienv data
  | pong env ref => exact .refl
  | handshakeTimeout ref =>
    simp only [Edge.step]
    split
    · exact .of_rest rest_fail
    · exact .refl
  | closed ref => exact .of_rest rest_closed
  | beat env =>
    simp only [Edge.step]
    rw [jobs_beat]
    exact .refl
  | downlink env ref length =>
    simp only [Edge.step, Edge.downlink]
    split
    · exact .refl
    · split
      · exact .refl
      · split
        · exact .of_rest rest_fail
        · exact .refl
  | grant env ref seq build token =>
    simp only [Edge.step, Edge.grant]
    split
    · exact .refl
    · rw [jobs_of_rest (rest_control env _)]
      exact .refl
  | revokeGrants uid => exact .refl
  | download env image build authorization =>
    simp only [Edge.step, Edge.download]
    split
    · exact .refl
    · split
      · exact .refl
      · split
        · exact .refl
        · split
          · exact .refl
          · split <;> exact .refl
  | downloadClosed => exact .refl
  | resumeJob env ienv id => exact .resumeJob env ienv id
  | ingest event => exact .stepIngest event

/-! ## What acceptance says -/

structure Accepted (cfg : Config) (devices : DeviceKeys) (now : ℚ) (msg : Buffer) (route : Route)
    (packet : Packet) : Prop where
  /-- An enrolled node is only heard encrypted, under a key it may use. -/
  enrolled : devices.devices.has packet.uid = true → Sealed cfg.crypto devices now msg packet
  known : devices.devices.has packet.uid = true ∨ devices.allowsLegacy packet.uid = true
  session : ∀ address d, route = .direct address d →
    packet.uid = d.uid ∧ packet.header.secureId = d.secureId

theorem verifyFor_devices (verify : VerifyOptions) (route : Route) :
    (State.verifyFor verify route).devices = verify.devices := by
  cases route <;> rfl

theorem accepted_of_verified {devices : DeviceKeys} (hDevices : cfg.verify.devices = some devices)
    (hDisjoint : ∀ uid, devices.allowsLegacy uid = true → devices.devices.get uid = none)
    {now : ℚ} {p : PreparedPacket} (h : Verified cfg.crypto cfg.verify now msg p) :
    Accepted cfg devices now msg p.route p.packet := by
  have hSealed := parsePacket_sealed ((verifyFor_devices cfg.verify p.route).trans hDevices) h.parsed
  constructor
  case enrolled =>
    intro hEnrolled
    rcases hSealed with hSealed | hLegacy
    · exact hSealed
    · simp [JsMap.has, hDisjoint _ hLegacy] at hEnrolled
  case known =>
    rcases hSealed with hSealed | hLegacy
    · obtain ⟨_, _, _, _, -, -, -, ⟨device, hGet, -⟩, -⟩ := hSealed.opened
      exact Or.inl (by simp [JsMap.has, hGet])
    · exact Or.inr hLegacy
  case session =>
    intro address d hRoute
    have hSession := h.session
    rw [hRoute] at hSession
    exact (sessionMismatch_direct hSession).symm

/-! ## Runs -/

structure VerifiedOnly (cfg : Config) (devices : DeviceKeys) (o : Observed) : Prop where
  refused : ∀ msg source env s uid reason,
    o.edge.ingest.handle cfg.crypto cfg.verify msg source env = (s, .refused uid reason) →
    s.linkViews = o.edge.ingest.linkViews ∧
      (o.edge.ingest.step ⟨cfg.crypto, cfg.verify⟩ (.handle msg source env)).2 = []
  queued : ∀ msg source env s r,
    o.edge.ingest.handleDurable cfg.crypto cfg.verify msg source env = (s, r) →
    s.linkViews = o.edge.ingest.linkViews ∧ ∀ packet route, r ≠ some (.ok packet route)
  admitted : ∀ id env, (o.edge.ingest.admitJob id env).linkViews = o.edge.ingest.linkViews
  rejected : ∀ id env s, o.edge.ingest.resumeJob id env = (s, none) →
    s.linkViews = o.edge.ingest.linkViews ∧
      (o.edge.ingest.step ⟨cfg.crypto, cfg.verify⟩ (.resumeJob id env)).2 = []
  accepted : ∀ msg source env s packet route,
    o.edge.ingest.handle cfg.crypto cfg.verify msg source env = (s, .ok packet route) →
    route = source.toRoute ∧ Accepted cfg devices env.keysNow msg route packet
  resumed : ∀ id env s msg packet,
    o.edge.ingest.resumeJob id env = (s, some (msg, packet)) →
    ∃ r ∈ o.receipts, r.msg = msg ∧ Accepted cfg devices r.keysNow msg r.route packet
  /-- The uid and the key of a route are those its session authenticated with. -/
  session : ∀ ref s d, o.edge.session? ref = some s → s.route = some d →
    d.ref = ref ∧ s.uid = some d.uid ∧ d.secureId = s.device.map DeviceKey.id ∧ Authentic cfg d

theorem from_run (cfg : Config) (replay : Replay.ReplayStore)
    (events : List ((String → String → Bool) × EdgeEvent)) :
    ∀ j ∈ (run (Observed.step cfg) (.new replay) events).edge.ingest.jobs,
      Job.From cfg (run (Observed.step cfg) (.new replay) events).receipts j := by
  refine run_invariant
    (fun o : Observed => ∀ j ∈ o.edge.ingest.jobs, Job.From cfg o.receipts j) ?_ ?_ events
  · intro o event h j' hj'
    rcases Queued.step event.1 event.2 j' hj' with ⟨j, hj, hMsg, hPrepared⟩ | ⟨r, hr, hRest⟩
    · obtain ⟨r, hr, hRest⟩ := h j hj
      refine ⟨r, List.mem_append_left _ hr, ?_⟩
      rwa [hMsg, hPrepared]
    · exact ⟨r, List.mem_append_right _ hr, hRest⟩
  · simp [Observed.new, Edge.new, State.new]

theorem edge_run (cfg : Config) (replay : Replay.ReplayStore)
    (events : List ((String → String → Bool) × EdgeEvent)) :
    Agrees cfg none (run (Observed.step cfg) (.new replay) events).edge :=
  run_invariant (fun o : Observed => Agrees cfg none o.edge)
    (fun _ event h => h.step event.1 event.2) (agrees_new cfg replay) events

/-- With device keys that their constructor has accepted, only verified packets move
state, after any run of the listener and its `Ingest`. -/
theorem verified_only (cfg : Config) (devices : DeviceKeys) (now : ℚ) (value : Protocol.Json)
    (hNew : DeviceKeys.new now value = .ok devices) (hDevices : cfg.verify.devices = some devices)
    (replay : Replay.ReplayStore) (events : List ((String → String → Bool) × EdgeEvent)) :
    VerifiedOnly cfg devices (run (Observed.step cfg) (.new replay) events) := by
  have hFrom := from_run cfg replay events
  have hAgrees := edge_run cfg replay events
  have hDisjoint : ∀ uid, devices.allowsLegacy uid = true → devices.devices.get uid = none :=
    fun uid => DeviceKeys.legacy_not_enrolled hNew
  generalize run (Observed.step cfg) (.new replay) events = o at hFrom hAgrees ⊢
  constructor
  case refused =>
    intro msg source env s uid reason h
    refine ⟨(State.frame_handle h).links, ?_⟩
    simp only [State.step, h]
  case queued =>
    intro msg source env s r h
    obtain ⟨hLinks, hNot, -⟩ := State.handleDurable_jobs h
    exact ⟨hLinks, hNot⟩
  case admitted => exact fun id env => State.frame_admitJob.links
  case rejected =>
    intro id env s h
    refine ⟨(State.resumeJob_none h).links, ?_⟩
    simp only [State.step, h]
  case accepted =>
    intro msg source env s packet route h
    obtain ⟨p, rfl, rfl, hTo, hVerified, -⟩ := State.handle_ok h
    exact ⟨hTo, accepted_of_verified hDevices hDisjoint hVerified⟩
  case resumed =>
    intro id env s msg packet h
    obtain ⟨j, hHead, -, rfl, rfl, -⟩ := State.resumeJob_some h
    obtain ⟨r, hr, hMsg, hRoute, hVerified⟩ := hFrom j (State.headJob_spec hHead).2.mem
    have hAccepted := accepted_of_verified hDevices hDisjoint hVerified
    rw [hMsg, ← hRoute] at hAccepted
    exact ⟨r, hr, hMsg, hAccepted⟩
  case session =>
    intro ref s d hs hRoute
    obtain ⟨hRef, hUid, -, hKey, hAuthentic⟩ := hAgrees.route ref s d hs hRoute
    exact ⟨hRef, hUid, hKey, hAuthentic⟩

/-! ## An encrypted node -/

def sealedSecret : String := "0102030405060708090a0b0c0d0e0f101112131415161718191a1b1c1d1e1f20"

def sealedFile : Protocol.Json :=
  .object [("version", .number 2), ("nodes", .object [("0a:00:00:00:00:01",
    .object [("current", .object [("id", .number 1), ("secret", .string sealedSecret)])])]),
    ("legacy", .array [.string "0a:00:00:00:00:02"])]

def sealedDevices : DeviceKeys :=
  ⟨(JsMap.empty.set "0a:00:00:00:00:01" ⟨⟨1, fromHex sealedSecret.toList, none⟩, none, false⟩),
    ["0a:00:00:00:00:02"]⟩

/-- Its uplink key and an `OTA_STATUS` sealed under it. -/
def sealedKey : Buffer :=
  fromHex "a1215e562afe7e5ebc820e079a5fdb2717ca50667feef893023fb4edef0db1b7".toList

def sealedDatagram : Buffer :=
  fromHex ("544d02040a000000000101000000010000000000000008000100" ++
    "0000000000000000000000000000000025cb4e3b323f140a982aaebbb303ab73ce95f0467309e8f8").toList

def sealedConfig : Config where
  limits := ⟨1, 10, 1000, 60000⟩
  keys := []
  devices := some sealedDevices
  crypto :=
    { hmacSha256 := fun _ _ => []
      hkdfSha256 := fun _ _ _ _ => sealedKey
      gcmOpen := fun key nonce aad ciphertext tag =>
        if key = sealedKey ∧ nonce = [0, 0, 0, 0, 1, 0, 0, 0, 1, 0, 0, 0] ∧
            aad ++ ciphertext ++ tag = sealedDatagram then some (List.replicate 8 0)
        else none }
  verify := ⟨[], false, some sealedDevices⟩
  durable := true
  heartbeatMs := 15000
  deadMs := 45000
  tokenId := id

def sealedStore : Replay.ReplayStore := ⟨.empty, 0, 0, [], none, false, none, 0, [], false, []⟩

def sealedResult : State × IngestResult :=
  (State.new sealedStore).handle sealedConfig.crypto sealedConfig.verify sealedDatagram
    (.address "10.0.0.7") ⟨0, 0, 0, none, true, {}, {}⟩

/-- The datagram is accepted, as a packet of its node. -/
theorem verified_only_sealed : ∃ packet, packet.uid = "0a:00:00:00:00:01" ∧
    Accepted sealedConfig sealedDevices 0 sealedDatagram (.udp "10.0.0.7") packet := by
  have hUid : sealedResult.2.casesOn (motive := fun _ => Option String)
      (fun packet _ => some packet.uid) (fun _ _ => none) = some "0a:00:00:00:00:01" := by
    decide +kernel
  have hRoute : (Source.address "10.0.0.7").toRoute = .udp "10.0.0.7" := by decide +kernel
  have hOnly := verified_only sealedConfig sealedDevices 0 sealedFile rfl rfl sealedStore []
  cases hResult : sealedResult with
  | mk s result =>
    rw [hResult] at hUid
    cases result with
    | refused uid reason => cases hUid
    | ok packet route =>
      obtain ⟨hTo, hAccepted⟩ := hOnly.accepted sealedDatagram (.address "10.0.0.7") _ s packet route
        hResult
      rw [hTo, hRoute] at hAccepted
      exact ⟨packet, Option.some.inj hUid, hAccepted⟩

end TMEdge.NodeLink
