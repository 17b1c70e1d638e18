import TMEdge.Flasher.Console

/-!
# Provisioning a node

`provisionNode` (`shared/flasher/node-console.ts`). The settings are written and read back, the
edge is asked to admit the node, and the node is watched coming up. Every line of the log and every
message of an error is scrubbed. The warnings are returned as they are: three of them quote the
node, which may have been told, or may be called, what is kept secret.

* `clean_log`, `clean_error`: no line and no error has a secret in it.
* `secrets_kept_iff`: nothing that leaves has one exactly when the three notes that quote the node
  have none.
* `password_noted`: a network that is named as its password is, and that the node does not join.
-/

namespace TMEdge.Flasher

open Library List

structure ProvisionOptions where
  bootTimeoutMs : Nat := 25000
  wifiTimeoutMs : Nat := 30000
  edgeTimeoutMs : Nat := 90000
  /-- Whether there is an `admit`. -/
  admits : Bool := false

structure Provisioned where
  info : NodeInfo
  ip : Option Text
  edgeAccepted : Option Bool
  admission : Option Admission
  warnings : List Text

/-- What is known of the node when the talking is over; no `watch` if it was only rebooted. -/
structure Heard where
  info : NodeInfo
  admission : Option Admission
  watch : Option BootWatch

/-! ## The conversation -/

/-- The settings are written, and read back. -/
def setUp (u : Unicode) (number : Text → Option ℚ) (log : Text → Serial Unit) (id : Nat)
    (s : NodeSettings) (o : ProvisionOptions) : Serial NodeInfo := do
  let before ← waitUntilReady o.bootTimeoutMs
  log (js "node " ++ before.uid.getD (js "?") ++ js " running " ++
    before.firmware.getD (js "unknown firmware"))
  if s.mode = .wifi ∧ s.transport = .wss ∧ before.supportsDirectCloud = false then
    Dialogue.throws (before.firmware.getD (js "this firmware") ++ js (" has no direct-to-cloud " ++
      "transport: flash the current TMsense, or choose the local gateway"))
  else if s.frameRate ≠ none ∧ before.supportsFrameRate = false then
    Dialogue.throws (before.firmware.getD (js "this firmware") ++ js (" has no frame-rate " ++
      "selection: flash TMsense 1.6 or newer, or keep the node's current rate"))
  else do
    runAll log (provisioningCommands u id s before.supportsDirectCloud)
    let after ← showNode
    let errors := (verifyNode u number after id s).errors
    if errors = [] then pure after
    else Dialogue.throws (js "verification failed: " ++ (js "; ").intercalate errors)

/-- The edge is asked to admit the node. -/
def askEdge (o : ProvisionOptions) (info : NodeInfo) : Serial (Option Admission) :=
  let uid := info.uid.getD []
  if o.admits = true ∧ uid ≠ [] then do
    let a ← call
    match a.admission with
    | .denied => Dialogue.throws (js "TMedge turned down the request to admit " ++ uid ++
        js ": the node is set up but will not be allowed to connect")
    | .failed reason => Dialogue.throws (js "TMedge admission failed: " ++ reason)
    | .pending => pure (some .pending)
    | .registered => pure (some .registered)
  else pure none

/-- Whether the node is expected to reach the edge. -/
def cloud (o : ProvisionOptions) (info : NodeInfo) (admission : Option Admission) : Bool :=
  info.transport = .wss && 0 < o.edgeTimeoutMs && admission ≠ some .pending

/-- The node is restarted, and watched if it has a network to join. -/
def comeUp (log : Text → Serial Unit) (s : NodeSettings) (o : ProvisionOptions) (info : NodeInfo)
    (admission : Option Admission) : Serial (Option BootWatch) :=
  if s.mode = .wifi ∧ info.ssid ≠ none ∧ 0 < o.wifiTimeoutMs then
    if cloud o info admission then do
      log (js "then waiting up to " ++ seconds o.edgeTimeoutMs ++
        js " s for TMedge to accept a report")
      let watch ← rebootAndWatch log o.edgeTimeoutMs
      pure (some watch)
    else do
      let watch ← rebootAndWatch log 0
      pure (some watch)
  else do
    reboot log
    pure none

def conversation (u : Unicode) (number : Text → Option ℚ) (log : Text → Serial Unit) (id : Nat)
    (s : NodeSettings) (o : ProvisionOptions) : Serial Heard := do
  let info ← setUp u number log id s o
  let admission ← askEdge o info
  let watch ← comeUp log s o info admission
  pure ⟨info, admission, watch⟩

/-! ## The notes -/

def pendingNote (uid : Text) : Text :=
  js "TMedge has not admitted " ++ uid ++ js (" yet — the request is waiting in Adoption; the " ++
    "node will connect once somebody approves it")

def failedJoinNote (ssid : Text) (wifiTimeoutMs : Nat) : Text :=
  js "did not join “" ++ ssid ++ js "” within " ++ seconds wifiTimeoutMs ++
    js " s — check the SSID, password and signal"

/-- `cloudError ? … : ''` takes an empty error for none. -/
def missingReportNote (cloudError : Option Text) (edgeTimeoutMs : Nat) : Text :=
  js "joined Wi-Fi, but TMedge did not accept a report within " ++ seconds edgeTimeoutMs ++
  js " s" ++
  (match cloudError.filter (· ≠ []) with
    | some e => js " (last error: " ++ e ++ js ")"
    | none => []) ++
  js " — the node is not delivering occupancy yet"

def admissionNotes (h : Heard) : List Text :=
  problem (h.admission = some .pending) (pendingNote (h.info.uid.getD []))

def watchNotes (o : ProvisionOptions) (h : Heard) : List Text :=
  match h.watch with
  | none => []
  | some watch =>
    problem (watch.ip = none) (failedJoinNote (h.info.ssid.getD []) o.wifiTimeoutMs) ++
    problem (watch.ip ≠ none ∧ cloud o h.info h.admission = true ∧ watch.edgeAccepted = false)
      (missingReportNote watch.cloudError o.edgeTimeoutMs)

/-- What is said of a node that was watched. -/
def watchLines (o : ProvisionOptions) (h : Heard) : List Text :=
  match h.watch with
  | none => []
  | some watch =>
    (match watch.ip with
      | none => []
      | some ip => [js "joined " ++ h.info.ssid.getD [] ++ js " as " ++ ip]) ++
    problem (watch.ip ≠ none ∧ cloud o h.info h.admission = true ∧ watch.edgeAccepted = true)
      (js "TMedge accepted a report")

def notes (u : Unicode) (number : Text → Option ℚ) (id : Nat) (s : NodeSettings)
    (o : ProvisionOptions) (h : Heard) : List Text :=
  (verifyNode u number h.info id s).warnings ++ admissionNotes h ++ watchNotes o h

def logAll (log : Text → Serial Unit) : List Text → Serial Unit
  | [] => pure ()
  | line :: lines => do
    log line
    logAll log lines

/-- What `provision` returns. -/
def provisioned (o : ProvisionOptions) (h : Heard) (warnings : List Text) : Provisioned where
  info := h.info
  ip := h.watch.bind BootWatch.ip
  edgeAccepted := h.watch.bind fun watch =>
    if watch.ip ≠ none ∧ cloud o h.info h.admission = true then some watch.edgeAccepted else none
  admission := h.admission
  warnings := warnings

def provision (u : Unicode) (number : Text → Option ℚ) (log : Text → Serial Unit) (id : Nat)
    (s : NodeSettings) (o : ProvisionOptions) : Serial Provisioned := do
  let h ← conversation u number log id s o
  let warnings := notes u number id s o h
  logAll log (watchLines o h)
  logAll log (warnings.map fun note => js "⚠︎ " ++ note)
  pure (provisioned o h warnings)

/-- `log` of `provision`: what `options.log` is given is a line of the dialogue. -/
def scrubbed (s : NodeSettings) (line : Text) : Serial Unit :=
  Dialogue.print (scrub line (secretsOf s))

def provisionNode (u : Unicode) (number : Text → Option ℚ) (id : Nat) (s : NodeSettings)
    (o : ProvisionOptions) : Serial Provisioned :=
  Dialogue.mapError (fun e => scrub e (secretsOf s)) (provision u number (scrubbed s) id s o)

/-! ## Secrets -/

/-- What the warnings of `verifyNode` say, in words of their own. -/
def warningTexts : List Text := [noSsid, noPassword, noEdgeKept, noEdge, noGateway, noLora, noKey]

/-- A secret that a text has only from outside. -/
structure Hidden (secret : Text) : Prop where
  length : 8 ≤ secret.length
  bullet : bullet ∉ secret
  wording : ∀ t ∈ warningTexts, ¬ secret <:+: t

/-- Neither the password nor the key is in a text. -/
def Clean (s : NodeSettings) (t : Text) : Prop := ¬ s.password <:+: t ∧ ¬ s.key <:+: t

/-- Nothing that leaves has a secret in it: a line of the log, an error, a warning. -/
structure Kept (s : NodeSettings) (out : Reply Text Provisioned × List Answer × List Text) :
    Prop where
  log : ∀ l ∈ out.2.2, Clean s l
  error : ∀ e, out.1 = .thrown e → Clean s e
  warnings : ∀ p, out.1 = .value p → ∀ w ∈ p.warnings, Clean s w

/-- The three notes that quote the node have no secret in them. -/
structure Quiet (s : NodeSettings) (o : ProvisionOptions) (h : Heard) : Prop where
  pending : h.admission = some .pending → Clean s (pendingNote (h.info.uid.getD []))
  join : ∀ watch, h.watch = some watch → watch.ip = none →
    Clean s (failedJoinNote (h.info.ssid.getD []) o.wifiTimeoutMs)
  report : ∀ watch, h.watch = some watch → watch.ip ≠ none → cloud o h.info h.admission = true →
    watch.edgeAccepted = false → Clean s (missingReportNote watch.cloudError o.edgeTimeoutMs)

section secrets

variable {u : Unicode} {number : Text → Option ℚ} {s : NodeSettings} {o : ProvisionOptions}
  {id : Nat} {h : Heard} {answers rest : List Answer} {lines lines' : List Text}

theorem mem_problem {c : Prop} [Decidable c] {t w : Text} : w ∈ problem c t ↔ c ∧ w = t := by
  unfold problem
  split
  · rename_i hc
    rw [mem_singleton]
    exact ⟨fun hw => ⟨hc, hw⟩, fun hw => hw.2⟩
  · rename_i hc
    exact ⟨fun hw => absurd hw not_mem_nil, fun hw => absurd hw.1 hc⟩

/-! ### What is scrubbed -/

theorem Hidden.maskable {secret : Text} (hidden : Hidden secret) : Maskable secret := by
  refine ⟨fun hNil => ?_, hidden.bullet⟩
  have hLength := hidden.length
  rw [hNil] at hLength
  exact absurd hLength (by decide)

theorem clean_scrub (hPassword : Hidden s.password) (hKey : Hidden s.key) (t : Text) :
    Clean s (scrub t (secretsOf s)) := by
  have hSecrets : secretsOf s = [s.password, s.key] := by
    simp [secretsOf, hPassword.maskable.1, hKey.maskable.1]
  rw [hSecrets]
  have hAll : ∀ secret ∈ [s.password, s.key], Maskable secret := by
    intro secret hMem
    rcases mem_pair.mp hMem with rfl | rfl
    · exact hPassword.maskable
    · exact hKey.maskable
  exact ⟨not_infix_scrub hAll mem_cons_self,
    not_infix_scrub hAll (mem_cons_of_mem _ mem_cons_self)⟩

theorem prints_scrubbed (hPassword : Hidden s.password) (hKey : Hidden s.key) (line : Text) :
    Dialogue.Prints (Clean s) (scrubbed s line) :=
  Dialogue.prints_print (clean_scrub hPassword hKey line)

section prints

variable {P : Text → Prop} {log : Text → Serial Unit}

theorem prints_setUp (hLog : ∀ l, Dialogue.Prints P (log l)) :
    Dialogue.Prints P (setUp u number log id s o) := by
  refine Dialogue.prints_bind (prints_waitUntilReady P _) fun before => ?_
  refine Dialogue.prints_bind (hLog _) fun _ => ?_
  refine Dialogue.prints_ite (Dialogue.prints_throws P _) ?_
  refine Dialogue.prints_ite (Dialogue.prints_throws P _) ?_
  refine Dialogue.prints_bind (prints_runAll hLog _) fun _ => ?_
  refine Dialogue.prints_bind (prints_showNode P) fun after => ?_
  exact Dialogue.prints_ite (Dialogue.prints_pure P _) (Dialogue.prints_throws P _)

theorem prints_askEdge (P : Text → Prop) (o : ProvisionOptions) (info : NodeInfo) :
    Dialogue.Prints P (askEdge o info) := by
  refine Dialogue.prints_ite ?_ (Dialogue.prints_pure P _)
  refine Dialogue.prints_bind (prints_call P) fun a => ?_
  split
  · exact Dialogue.prints_throws P _
  · exact Dialogue.prints_throws P _
  · exact Dialogue.prints_pure P _
  · exact Dialogue.prints_pure P _

theorem prints_comeUp (hLog : ∀ l, Dialogue.Prints P (log l)) (info : NodeInfo)
    (admission : Option Admission) : Dialogue.Prints P (comeUp log s o info admission) := by
  have hWatch : ∀ ms, Dialogue.Prints P (do
      let watch ← rebootAndWatch log ms
      pure (some watch) : Serial (Option BootWatch)) := fun ms =>
    Dialogue.prints_bind (prints_rebootAndWatch hLog ms) fun _ => Dialogue.prints_pure P _
  refine Dialogue.prints_ite ?_ ?_
  · refine Dialogue.prints_ite ?_ (hWatch 0)
    exact Dialogue.prints_bind (hLog _) fun _ => hWatch o.edgeTimeoutMs
  · exact Dialogue.prints_bind (prints_reboot hLog) fun _ => Dialogue.prints_pure P _

theorem prints_logAll (hLog : ∀ l, Dialogue.Prints P (log l)) (said : List Text) :
    Dialogue.Prints P (logAll log said) := by
  induction said with
  | nil => exact Dialogue.prints_pure P _
  | cons line said ih => exact Dialogue.prints_bind (hLog line) fun _ => ih

theorem prints_provision (hLog : ∀ l, Dialogue.Prints P (log l)) :
    Dialogue.Prints P (provision u number log id s o) := by
  have hTalk : Dialogue.Prints P (conversation u number log id s o) := by
    refine Dialogue.prints_bind (prints_setUp hLog) fun info => ?_
    refine Dialogue.prints_bind (prints_askEdge P o info) fun admission => ?_
    exact Dialogue.prints_bind (prints_comeUp hLog info admission) fun _ => Dialogue.prints_pure P _
  refine Dialogue.prints_bind hTalk fun h => ?_
  refine Dialogue.prints_bind (prints_logAll hLog _) fun _ => ?_
  exact Dialogue.prints_bind (prints_logAll hLog _) fun _ => Dialogue.prints_pure P _

end prints

theorem clean_log (hPassword : Hidden s.password) (hKey : Hidden s.key) (answers : List Answer) :
    ∀ l ∈ (provisionNode u number id s o answers []).2.2, Clean s l :=
  Dialogue.prints_mapError _ (prints_provision (prints_scrubbed hPassword hKey)) answers []
    fun _ hl => absurd hl not_mem_nil

theorem clean_error (hPassword : Hidden s.password) (hKey : Hidden s.key) {e : Text}
    (hThrown : (provisionNode u number id s o answers lines).1 = .thrown e) : Clean s e := by
  obtain ⟨e', rfl⟩ := Dialogue.mapError_eq_thrown hThrown
  exact clean_scrub hPassword hKey e'

/-! ### What is not -/

theorem mem_warningTexts {info : NodeInfo} {w : Text}
    (hw : w ∈ (verifyNode u number info id s).warnings) : w ∈ warningTexts := by
  unfold verifyNode at hw
  dsimp only at hw
  split at hw
  · simp only [wifiWarnings, mem_append, mem_problem] at hw
    rcases hw with ((⟨-, rfl⟩ | ⟨-, rfl⟩) | ⟨-, rfl⟩) | ⟨-, rfl⟩
    · simp [warningTexts]
    · simp [warningTexts]
    · split <;> simp [warningTexts]
    · simp [warningTexts]
  · simp only [mem_append, mem_problem, mem_singleton] at hw
    rcases hw with (⟨-, rfl⟩ | rfl) | ⟨-, rfl⟩
    all_goals simp [warningTexts]

theorem clean_notes_iff (hPassword : Hidden s.password) (hKey : Hidden s.key) :
    (∀ w ∈ notes u number id s o h, Clean s w) ↔ Quiet s o h := by
  constructor
  · intro hClean
    have hWatched : ∀ w ∈ watchNotes o h, Clean s w := fun w hw =>
      hClean w (mem_append_right _ hw)
    unfold watchNotes at hWatched
    refine ⟨fun hPending => ?_, fun watch hWatch hIp => ?_, fun watch hWatch hIp hCloud hNot => ?_⟩
    · refine hClean _ (mem_append_left _ (mem_append_right _ ?_))
      exact mem_problem.mpr ⟨hPending, rfl⟩
    · rw [hWatch] at hWatched
      exact hWatched _ (mem_append_left _ (mem_problem.mpr ⟨hIp, rfl⟩))
    · rw [hWatch] at hWatched
      exact hWatched _ (mem_append_right _ (mem_problem.mpr ⟨⟨hIp, hCloud, hNot⟩, rfl⟩))
  · intro hQuiet w hw
    rcases mem_append.mp hw with hw | hw
    · rcases mem_append.mp hw with hw | hw
      · have hFixed := mem_warningTexts hw
        exact ⟨hPassword.wording w hFixed, hKey.wording w hFixed⟩
      · obtain ⟨hPending, rfl⟩ := mem_problem.mp hw
        exact hQuiet.pending hPending
    · unfold watchNotes at hw
      split at hw
      · exact absurd hw not_mem_nil
      · rename_i watch hWatch
        rcases mem_append.mp hw with hw | hw
        · obtain ⟨hIp, rfl⟩ := mem_problem.mp hw
          exact hQuiet.join watch hWatch hIp
        · obtain ⟨⟨hIp, hCloud, hNot⟩, rfl⟩ := mem_problem.mp hw
          exact hQuiet.report watch hWatch hIp hCloud hNot

/-- The last lines do not fail. -/
theorem logAll_scrubbed (said : List Text) : logAll (scrubbed s) said answers lines =
    (.value (), answers, lines ++ said.map fun line => scrub line (secretsOf s)) := by
  induction said generalizing lines with
  | nil => exact congrArg (fun l => (Reply.value (), answers, l)) (append_nil lines).symm
  | cons line said ih =>
    change logAll (scrubbed s) said answers (lines ++ [scrub line (secretsOf s)]) = _
    rw [ih, map_cons, append_assoc, singleton_append]

theorem provisionNode_of_heard
    (hTalk : conversation u number (scrubbed s) id s o answers lines = (.value h, rest, lines')) :
    ∃ lines₂, provisionNode u number id s o answers lines =
      (.value (provisioned o h (notes u number id s o h)), rest, lines₂) := by
  refine ⟨_, Dialogue.mapError_eq_value.mpr (Dialogue.bind_eq_value.mpr
    ⟨h, rest, lines', hTalk, Dialogue.bind_eq_value.mpr
      ⟨(), rest, _, logAll_scrubbed _, Dialogue.bind_eq_value.mpr
        ⟨(), rest, _, logAll_scrubbed _, rfl⟩⟩⟩)⟩

theorem heard_of_provisionNode {p : Provisioned}
    (hValue : provisionNode u number id s o answers lines = (.value p, rest, lines')) :
    ∃ h rest₁ lines₁,
      conversation u number (scrubbed s) id s o answers lines = (.value h, rest₁, lines₁) ∧
        p.warnings = notes u number id s o h := by
  obtain ⟨h, rest₁, lines₁, hTalk, -⟩ :=
    Dialogue.bind_eq_value.mp (Dialogue.mapError_eq_value.mp hValue)
  obtain ⟨lines₂, hGiven⟩ := provisionNode_of_heard hTalk
  rw [hGiven] at hValue
  cases hValue
  exact ⟨h, _, lines₁, hTalk, rfl⟩

theorem secrets_kept_iff (u : Unicode) (number : Text → Option ℚ) (id : Nat) (o : ProvisionOptions)
    (hPassword : Hidden s.password) (hKey : Hidden s.key) (answers : List Answer) :
    Kept s (provisionNode u number id s o answers []) ↔
      ∀ h, (conversation u number (scrubbed s) id s o answers []).1 = .value h → Quiet s o h := by
  constructor
  · intro hKept h hTalk
    obtain ⟨lines₂, hGiven⟩ := provisionNode_of_heard (Prod.ext hTalk rfl)
    exact (clean_notes_iff hPassword hKey).mp
      (hKept.warnings _ (congrArg Prod.fst hGiven))
  · intro hQuiet
    refine ⟨clean_log hPassword hKey answers, fun e hThrown => clean_error hPassword hKey hThrown,
      fun p hValue => ?_⟩
    obtain ⟨h, rest₁, lines₁, hTalk, hEq⟩ := heard_of_provisionNode (Prod.ext hValue rfl)
    rw [hEq]
    exact (clean_notes_iff hPassword hKey).mpr (hQuiet h (congrArg Prod.fst hTalk))

end secrets

/-! ### A network named as its password -/

def isSaid (line : Text) : Answer := { line := some line }

/-- Nothing is said in time. -/
def silent : Answer := { late := true }

/-- The node keeps the network it has. -/
def sameName : NodeSettings where
  password := js "hunter22"
  key := js "sesame99"

/-- The answers of a node that is set up as asked and does not join its network: to `show`, to the
five commands, to `show` again, and to `reboot`. -/
def sameNameAnswers : List Answer :=
  [{}, {}, isSaid (js "uid : A1"), isSaid (js "boot : 1")] ++
  ([js "id updated", js "mode updated", js "pass updated", js "key updated", js "saved"].flatMap
    fun line => [{}, isSaid line]) ++
  [silent, {}, isSaid (js "uid : A1"), isSaid (js "node_id : 7"), isSaid (js "mode : wifi"),
    isSaid (js "ssid : hunter22"), isSaid (js "password : (set)"), isSaid (js "key : (set)"),
    isSaid (js "edges : 192.168.0.2"), isSaid (js "boot : 2")] ++
  [{}, silent]

theorem hidden_sameName : Hidden sameName.password ∧ Hidden sameName.key :=
  ⟨⟨by decide, by decide, by decide +kernel⟩, ⟨by decide, by decide, by decide +kernel⟩⟩

/-- The password is in a warning, and the settings have it nowhere else. -/
theorem password_noted :
    settingsProblems ascii sameName = [] ∧ Hidden sameName.password ∧ Hidden sameName.key ∧
    sameName.ssid = [] ∧ sameName.gateway = [] ∧ sameName.cloudUrl = [] ∧
    ¬ sameName.password <:+: sameName.key ∧
    ¬ Kept sameName (provisionNode ascii (fun _ => none) 7 sameName {} sameNameAnswers []) := by
  refine ⟨by decide +kernel, hidden_sameName.1, hidden_sameName.2, rfl, rfl, rfl, by decide,
    fun hKept => ?_⟩
  have hNoted : (match (provisionNode ascii (fun _ => none) 7 sameName {} sameNameAnswers []).1 with
      | .value p => p.warnings.any fun w => decide (sameName.password <:+: w)
      | _ => false) = true := by decide +kernel
  split at hNoted
  · rename_i p hValue
    obtain ⟨w, hw, hIn⟩ := List.any_eq_true.mp hNoted
    exact (hKept.warnings p hValue w hw).1 (of_decide_eq_true hIn)
  · cases hNoted

theorem secrets_kept_iff_sameName :
    Kept sameName (provisionNode ascii (fun _ => none) 7 sameName {} sameNameAnswers []) ↔
      ∀ h, (conversation ascii (fun _ => none) (scrubbed sameName) 7 sameName {} sameNameAnswers
        []).1 = .value h → Quiet sameName {} h :=
  secrets_kept_iff ascii (fun _ => none) 7 {} hidden_sameName.1 hidden_sameName.2 sameNameAnswers

end TMEdge.Flasher
