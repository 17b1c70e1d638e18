import TMEdge.Library.JsText
import TMEdge.Library.Run

/-!
# One login attempt

The model of `authenticate` (`algo/train/hpc/openconnect.ts`) as a machine driven by the child's
stderr, its timers and its end. The cookie on stdout is left out but for whether there is one; a
write to stdin is the secret whose line is written, with the text received so far.

* `Inv.step`: what every event keeps, where no phrase is lost and no prompt misread.
* `code_when_asked`: the PIN once and first, the code at most once, asked for and not refused.
* `code_after_failure`: the code after a failure that a large chunk pushed out.
-/

namespace TMEdge.OpenConnect

open Library List

inductive AuthFailure
  | badCredentials
  | badOtp
  | serverError
  | timeout
  | unsupported
  deriving DecidableEq

structure AuthFailed where
  code : AuthFailure
  message : Text
  deriving DecidableEq

/-- `AUTH_MESSAGES`. -/
def authMessages : AuthFailure → Text
  | .badCredentials => js "HKU did not accept the UID or PIN. Nothing was retried."
  | .badOtp => js ("HKU accepted the PIN but not the one-time code. Wait for a new code and " ++
      "try again.")
  | .serverError => js "Could not reach the HKU VPN, or it refused the connection."
  | .timeout => js "The HKU VPN did not answer in time."
  | .unsupported => js ("The HKU VPN asked for something this dashboard cannot answer (see " ++
      "docs/hpc/m0-checklist.md).")

def AuthFailure.failed (why : AuthFailure) : AuthFailed := ⟨why, authMessages why⟩

/-! ## What is looked for in the text -/

/-- One of the phrases occurs, in either case. -/
def has (phrases : List Text) (t : Text) : Bool :=
  phrases.any fun phrase => decide (phrase <:+: t.map asciiLower)

/-- `FAILED`. -/
def failed : List Text := [js "login failed", js "authentication failed", js "access denied",
  js "invalid username", js "invalid password", js "invalid credentials", js "incorrect",
  js "requested basic authentication"]

/-- `UNREACHABLE`. -/
def unreachable : List Text := [js "failed to connect to host",
  js "failed to open https connection", js "could not resolve", js "name or service not known",
  js "connection refused", js "network is unreachable", js "no route to host",
  js "certificate verify", js "certificate validation", js "server certificate"]

/-- The alternatives of `UNSUPPORTED` that may stand inside a word. -/
def unsupportedPhrases : List Text := [js "hostscan", js "trojan", js "single sign-on",
  js "external browser", js "select group", js "select a group"]

/-- `\w`. -/
def isWord (c : UInt16) : Bool :=
  (48 ≤ c && c ≤ 57) || (65 ≤ c && c ≤ 90) || (97 ≤ c && c ≤ 122) || c = 95

/-- The word between two `\b`. -/
def hasWord (word t : Text) : Bool :=
  (List.range (t.length + 1)).any fun i =>
    word.isPrefixOf ((t.drop i).map asciiLower) && !((t.take i).getLast?.any isWord) &&
      !((t.drop (i + word.length)).head?.any isWord)

/-- `UNSUPPORTED`. -/
def unsupported (t : Text) : Bool :=
  hasWord (js "csd") t || hasWord (js "saml") t || has unsupportedPhrases t

/-- `/group|user ?name|\[/i`. -/
def menu : List Text := [js "group", js "username", js "user name", js "["]

/-- `/:\s*$/`. -/
def endsInColon (t : Text) : Bool := (t.rdropWhile Text.isSpace).getLast? = some 58

/-- `err.endsWith('\n')`. -/
def endsInNewline (t : Text) : Bool := t.getLast? = some 10

/-- What follows the last newline. -/
def lastLine (t : Text) : Text := t.rtakeWhile (· ≠ 10)

/-! ## The machine -/

inductive Secret
  | pin
  | otp
  deriving DecidableEq

inductive Outcome
  | cookie
  | rejected (why : AuthFailed)
  deriving DecidableEq

structure Session where
  err : Text
  otpSent : Bool
  failedBeforeOtp : Bool
  verdict : Option AuthFailed
  promptTimer : Bool
  settled : Bool
  outcome : Option Outcome
  writes : List (Secret × Text)
  /-- Everything received on stderr. -/
  text : Text

inductive Event
  | stderr (chunk : Text)
  /-- The timer of the prompt runs out. -/
  | prompt
  | timeout
  | error
  /-- The exit code, and whether stdout holds a cookie. -/
  | close (code : Option Int) (parsed : Bool)

namespace Session

variable (s : Session)

def stop (why : AuthFailed) : Session :=
  { s with verdict := s.verdict.or (some why) }

def send (secret : Secret) : Session := { s with writes := s.writes ++ [(secret, s.text)] }

def onPrompt : Session :=
  let last := lastLine s.err
  if s.otpSent then
    s.stop (if has failed s.err then AuthFailure.badOtp.failed else AuthFailure.unsupported.failed)
  else if s.failedBeforeOtp then s.stop AuthFailure.badCredentials.failed
  else if unsupported last || has menu last then s.stop AuthFailure.unsupported.failed
  else { s with otpSent := true }.send .otp

/-- What is kept of the text. -/
def cut (err : Text) : Text := if 65536 < err.length then err.drop (err.length - 32768) else err

def onData (chunk : Text) : Session :=
  let s := { s with err := cut (s.err ++ chunk), text := s.text ++ chunk }
  if s.otpSent = false ∧ has failed s.err = true then
    { s with failedBeforeOtp := true }.stop AuthFailure.badCredentials.failed
  else { s with promptTimer := endsInColon s.err && !endsInNewline s.err }

def onClose (code : Option Int) (parsed : Bool) : Session :=
  let s := { s with promptTimer := false }
  if s.settled then s
  else
    let outcome : Outcome :=
      if code = some 0 ∧ s.verdict = none ∧ parsed = true then .cookie
      else match s.verdict with
        | some why => .rejected why
        | none =>
          .rejected (AuthFailure.failed (if has unreachable s.err && !s.otpSent then .serverError
            else if unsupported s.err then .unsupported
            else if s.otpSent && has failed s.err then .badOtp
            else if has failed s.err then .badCredentials
            else .serverError))
    { s with settled := true, outcome := some outcome }

end Session

/-- The process has been started, and the PIN is written. -/
def start : Session :=
  ({ err := [], otpSent := false, failedBeforeOtp := false, verdict := none, promptTimer := false,
     settled := false, outcome := none, writes := [], text := [] } : Session).send .pin

def step (s : Session) : Event → Session
  | .stderr chunk => s.onData chunk
  | .prompt => if s.promptTimer then { s with promptTimer := false }.onPrompt else s
  | .timeout => s.stop AuthFailure.timeout.failed
  | .error => s.stop ⟨.unsupported, js "openconnect could not be started on this server"⟩
  | .close code parsed => s.onClose code parsed

def after (es : List Event) : Session := run step start es

/-! ## What is asked of a write -/

/-- The text ends in a line that ends in a colon, up to blanks. -/
def Asked (t : Text) : Prop := ∃ a b, t = a ++ 58 :: b ∧ ∀ c ∈ b, Text.isSpace c = true ∧ c ≠ 10

/-- A chunk that comes before the code is sent loses no phrase and makes no prompt of a line that
has ended: where the text is cut, a phrase in it is also in what is kept; and where what is kept
ends in a colon and white space, and not in a newline, there is no newline after the colon. -/
def Legible (s : Session) : Event → Prop
  | .stderr chunk => s.otpSent = false → s.failedBeforeOtp = false →
      (has failed (s.err ++ chunk) = true → has failed (Session.cut (s.err ++ chunk)) = true) ∧
      (endsInColon (Session.cut (s.err ++ chunk)) = true →
        endsInNewline (Session.cut (s.err ++ chunk)) = false → Asked (Session.cut (s.err ++ chunk)))
  | _ => True

/-! ## Phrases in a growing text -/

theorem infix_append_cases {α : Type} {ph a b : List α} (h : ph <:+: a ++ b) :
    ph <:+: a ∨ ∃ t, t <:+ a ∧ t.length < ph.length ∧ ph <:+: t ++ b := by
  obtain ⟨l, r, hEq⟩ := h
  rcases append_eq_append_iff.mp hEq with ⟨c, hA, -⟩ | ⟨c, hLeft, rfl⟩
  · exact Or.inl ⟨l, c, hA.symm⟩
  · rcases append_eq_append_iff.mp hLeft with ⟨d, rfl, rfl⟩ | ⟨d, rfl, rfl⟩
    · cases c with
      | nil => exact Or.inl ⟨l, [], by simp⟩
      | cons x c => exact Or.inr ⟨d, suffix_append l d, by simp, [], r, by simp⟩
    · by_cases hEmpty : ph = []
      · exact Or.inl (hEmpty ▸ nil_infix)
      · exact Or.inr ⟨[], nil_suffix, length_pos_iff.mpr hEmpty, d, r, by simp⟩

variable {t chunk : Text}

theorem has_iff {phrases : List Text} :
    has phrases t = true ↔ ∃ ph ∈ phrases, ph <:+: t.map asciiLower := by
  simp [has]

/-- A text without the phrases, of which the front has been cut off: what is added brings them to
the whole and to the rest alike, when the rest is as long as a phrase. -/
theorem has_append_of_cut {phrases : List Text} {dropped err : Text}
    (hRest : dropped = [] ∨ ∀ ph ∈ phrases, ph.length ≤ err.length)
    (hOld : has phrases (dropped ++ err) = false)
    (hNew : has phrases (dropped ++ err ++ chunk) = true) : has phrases (err ++ chunk) = true := by
  rcases hRest with rfl | hRest
  · exact hNew
  · obtain ⟨ph, hPh, hInfix⟩ := has_iff.mp hNew
    rw [map_append] at hInfix
    rcases infix_append_cases hInfix with hBefore | ⟨t, hSuffix, hShort, hIn⟩
    · exact absurd (has_iff.mpr ⟨ph, hPh, hBefore⟩) (by simp [hOld])
    · refine has_iff.mpr ⟨ph, hPh, hIn.trans ?_⟩
      have hErr : err.map asciiLower <:+ (dropped ++ err).map asciiLower := by
        rw [map_append]
        exact suffix_append _ _
      have hLong : t.length ≤ (err.map asciiLower).length := by
        rw [length_map]
        exact hShort.le.trans (hRest ph hPh)
      obtain ⟨u, hU⟩ := suffix_of_suffix_length_le hSuffix hErr hLong
      rw [map_append, ← hU, append_assoc]
      exact (suffix_append _ _).isInfix

theorem length_failed_le : ∀ ph ∈ failed, ph.length ≤ 32768 := by decide +kernel

theorem Asked.append (h : Asked t) (dropped : Text) : Asked (dropped ++ t) := by
  obtain ⟨a, b, rfl, hBlank⟩ := h
  exact ⟨dropped ++ a, b, by simp, hBlank⟩

/-! ## What every event keeps -/

variable {s : Session}

/-- What has been written: the PIN, and the code at most once. -/
def Written (s : Session) : Prop :=
  if s.otpSent then ∃ t, s.writes = [(.pin, []), (.otp, t)] else s.writes = [(.pin, [])]

/-- Before the code is sent: the text that is kept ends the text received and is long enough for a
phrase, no phrase has been received unnoticed, and the timer runs only after a prompt. -/
structure Waiting (s : Session) : Prop where
  kept : ∃ dropped, s.text = dropped ++ s.err ∧ (dropped = [] ∨ 32768 ≤ s.err.length)
  clean : s.failedBeforeOtp = false → has failed s.text = false
  asked : s.failedBeforeOtp = false → s.promptTimer = true → Asked s.text

structure Inv (s : Session) : Prop where
  waiting : s.otpSent = false → Waiting s
  sent : ∀ t, (.otp, t) ∈ s.writes → Asked t ∧ has failed t = false

theorem onData_spec (s : Session) (chunk : Text) :
    (s.onData chunk).writes = s.writes ∧ (s.onData chunk).otpSent = s.otpSent := by
  unfold Session.onData
  dsimp only
  split
  · exact ⟨rfl, rfl⟩
  · exact ⟨rfl, rfl⟩

theorem onClose_spec (s : Session) (code : Option Int) (parsed : Bool) :
    (s.onClose code parsed).writes = s.writes ∧ (s.onClose code parsed).otpSent = s.otpSent ∧
      (s.onClose code parsed).promptTimer = false ∧ (s.onClose code parsed).text = s.text ∧
      (s.onClose code parsed).err = s.err ∧
      (s.onClose code parsed).failedBeforeOtp = s.failedBeforeOtp := by
  unfold Session.onClose
  dsimp only
  split
  · exact ⟨rfl, rfl, rfl, rfl, rfl, rfl⟩
  · exact ⟨rfl, rfl, rfl, rfl, rfl, rfl⟩

/-- A timer that runs out writes the code, or changes no more than the verdict. -/
theorem onPrompt_cases (s : Session) :
    (∃ why, s.onPrompt = s.stop why) ∨
      s.otpSent = false ∧ s.failedBeforeOtp = false ∧
        s.onPrompt = { s with otpSent := true, writes := s.writes ++ [(.otp, s.text)] } := by
  unfold Session.onPrompt
  dsimp only
  split
  · exact Or.inl ⟨_, rfl⟩
  · rename_i hSent
    split
    · exact Or.inl ⟨_, rfl⟩
    · rename_i hFailed
      split
      · exact Or.inl ⟨_, rfl⟩
      · exact Or.inr ⟨by simpa using hSent, by simpa using hFailed, rfl⟩

theorem Written.congr {s' : Session} (h : Written s) (hWrites : s'.writes = s.writes)
    (hSent : s'.otpSent = s.otpSent) : Written s' := by
  unfold Written
  rw [hWrites, hSent]
  exact h

theorem written_step (h : Written s) (e : Event) : Written (step s e) := by
  cases e with
  | stderr chunk => exact h.congr (onData_spec s chunk).1 (onData_spec s chunk).2
  | prompt =>
    rw [step]
    split
    · rcases onPrompt_cases { s with promptTimer := false } with ⟨why, hStop⟩ | ⟨hSent, -, hEq⟩
      · rw [hStop]
        exact h
      · rw [hEq]
        unfold Written at h ⊢
        rw [hSent] at h
        exact ⟨s.text, congrArg (· ++ [(Secret.otp, s.text)]) h⟩
    · exact h
  | timeout => exact h
  | error => exact h
  | close code parsed =>
    obtain ⟨hWrites, hSent, -⟩ := onClose_spec s code parsed
    exact h.congr hWrites hSent

theorem cut_eq (err : Text) : ∃ dropped, err = dropped ++ Session.cut err ∧
    (dropped = [] ∨ 32768 ≤ (Session.cut err).length) := by
  unfold Session.cut
  split
  · refine ⟨err.take (err.length - 32768), (take_append_drop _ _).symm, Or.inr ?_⟩
    rw [length_drop]
    omega
  · exact ⟨[], rfl, Or.inl rfl⟩

theorem length_le_cut {old : Text} (h : 32768 ≤ old.length) :
    32768 ≤ (Session.cut (old ++ chunk)).length := by
  unfold Session.cut
  split
  · rw [length_drop]
    omega
  · rw [length_append]
    omega

theorem Waiting.onData (h : Waiting s) (hSent : s.otpSent = false)
    (hLegible : Legible s (.stderr chunk)) : Waiting (s.onData chunk) := by
  obtain ⟨dropped, hText, hLong⟩ := h.kept
  obtain ⟨gone, hCut, hGone⟩ := cut_eq (s.err ++ chunk)
  have hKept : s.text ++ chunk = (dropped ++ gone) ++ Session.cut (s.err ++ chunk) := by
    rw [hText, append_assoc, append_assoc, ← hCut]
  have hKeptLong : dropped ++ gone = [] ∨ 32768 ≤ (Session.cut (s.err ++ chunk)).length := by
    rcases hGone with rfl | hGone
    · rcases hLong with rfl | hLong
      · exact Or.inl rfl
      · exact Or.inr (length_le_cut hLong)
    · exact Or.inr hGone
  unfold Session.onData
  dsimp only
  split
  · exact ⟨⟨_, hKept, hKeptLong⟩, nofun, nofun⟩
  · rename_i hQuiet
    have hUnseen : has failed (Session.cut (s.err ++ chunk)) = false := by
      simpa [hSent] using hQuiet
    refine ⟨⟨_, hKept, hKeptLong⟩, fun hFailed => ?_, fun hFailed hTimer => ?_⟩
    · dsimp only at hFailed ⊢
      by_contra hHas
      rw [Bool.not_eq_false, hText] at hHas
      have hRest : dropped = [] ∨ ∀ ph ∈ failed, ph.length ≤ s.err.length :=
        hLong.imp_right fun hLe ph hPh => (length_failed_le ph hPh).trans hLe
      have hIn := has_append_of_cut hRest (hText ▸ h.clean hFailed) hHas
      rw [(hLegible hSent hFailed).1 hIn] at hUnseen
      cases hUnseen
    · dsimp only at hFailed hTimer ⊢
      rw [Bool.and_eq_true, Bool.not_eq_true'] at hTimer
      rw [hKept]
      exact ((hLegible hSent hFailed).2 hTimer.1 hTimer.2).append _

theorem Inv.step (h : Inv s) (e : Event) (hLegible : Legible s e) : Inv (step s e) := by
  cases e with
  | stderr chunk =>
    obtain ⟨hWrites, hSent⟩ := onData_spec s chunk
    refine ⟨fun hNot => ?_, fun t ht => h.sent t (hWrites ▸ ht)⟩
    have hNot' := hSent.symm.trans hNot
    exact (h.waiting hNot').onData hNot' hLegible
  | prompt =>
    rw [OpenConnect.step]
    split
    · rename_i hTimer
      rcases onPrompt_cases { s with promptTimer := false } with
        ⟨why, hStop⟩ | ⟨hSent, hFailed, hEq⟩
      · rw [hStop]
        exact ⟨fun hNot => ⟨(h.waiting hNot).kept, (h.waiting hNot).clean, nofun⟩, h.sent⟩
      · rw [hEq]
        refine ⟨nofun, fun t ht => ?_⟩
        rcases mem_append.mp ht with ht | ht
        · exact h.sent t ht
        · cases mem_singleton.mp ht
          have hWaiting := h.waiting hSent
          exact ⟨hWaiting.asked hFailed hTimer, hWaiting.clean hFailed⟩
    · exact h
  | timeout => exact ⟨fun hNot => ⟨(h.waiting hNot).kept, (h.waiting hNot).clean,
      (h.waiting hNot).asked⟩, h.sent⟩
  | error => exact ⟨fun hNot => ⟨(h.waiting hNot).kept, (h.waiting hNot).clean,
      (h.waiting hNot).asked⟩, h.sent⟩
  | close code parsed =>
    obtain ⟨hWrites, hSent, hTimer, hText, hErr, hFailed⟩ := onClose_spec s code parsed
    refine ⟨fun hNot => ?_, fun t ht => h.sent t (hWrites ▸ ht)⟩
    have hWaiting := h.waiting (hSent.symm.trans hNot)
    refine ⟨?_, fun hNo => ?_, fun _ hOn => ?_⟩
    · rw [OpenConnect.step, hText, hErr]
      exact hWaiting.kept
    · rw [OpenConnect.step, hText]
      exact hWaiting.clean (hFailed.symm.trans hNo)
    · rw [OpenConnect.step, hTimer] at hOn
      cases hOn

theorem inv_start : Inv start := by
  refine ⟨fun _ => ⟨⟨[], rfl, Or.inl rfl⟩, fun _ => by decide, nofun⟩, fun t ht => ?_⟩
  cases mem_singleton.mp ht

/-- The PIN is written first and once and the code at most once; and where no chunk loses a phrase
or makes a prompt of a line that has ended, the code is written after a text that ends in a line
that ends in a colon and has none of the phrases. -/
theorem code_when_asked (es : List Event) :
    (∃ codes, (after es).writes = (.pin, []) :: codes ∧ codes.length ≤ 1 ∧
      ∀ w ∈ codes, w.1 = Secret.otp) ∧
    (Guarded step Legible start es →
      ∀ t, (.otp, t) ∈ (after es).writes → Asked t ∧ has failed t = false) := by
  constructor
  · have hWritten : Written (after es) :=
      run_invariant Written (fun _ e h => written_step h e) (show Written start from rfl) es
    unfold Written at hWritten
    split at hWritten
    · obtain ⟨t, hEq⟩ := hWritten
      exact ⟨[(.otp, t)], hEq, le_rfl, fun w hw => by rw [List.mem_singleton.mp hw]⟩
    · exact ⟨[], hWritten, Nat.zero_le _, nofun⟩
  · intro hGuarded
    exact (run_invariant_guarded Inv (fun _ e h hLegible => h.step e hLegible) inv_start
      hGuarded).sent

/-- A prompt, and the code. -/
theorem code_when_asked_prompt :
    Asked (js "Password:") ∧ has failed (js "Password:") = false := by
  refine (code_when_asked [.stderr (js "Password:"), .prompt]).2 ⟨fun _ _ => ⟨id, fun _ _ => ?_⟩,
    trivial, trivial⟩ (js "Password:") (by decide +kernel)
  exact ⟨js "Password", [], by decide +kernel, nofun⟩

/-- A line that has ended, and a blank: the code is sent all the same. -/
example : (after [.stderr (js "Password:" ++ [10, 32]), .prompt]).writes.map Prod.fst =
    [.pin, .otp] := by decide +kernel

/-! ## A failure that is pushed out -/

def filler (n : Nat) : Text := List.replicate n 120

/-- Letters, a failure, more letters than are kept, and a prompt. -/
def pushedOut (n j k : Nat) : List Event :=
  [.stderr (filler n),
    .stderr (js "Login failed" ++ filler j ++ (filler k ++ [10] ++ [58])), .prompt]

theorem has_failed_eq_false (h : ∀ c ∈ t, c = 120 ∨ c = 10 ∨ c = 58) : has failed t = false := by
  by_contra hHas
  obtain ⟨ph, hPh, hInfix⟩ := has_iff.mp (Bool.not_eq_false _ ▸ hHas)
  have hOther : ∀ ph ∈ failed, ∃ c ∈ ph, c ≠ 120 ∧ c ≠ 10 ∧ c ≠ 58 := by decide +kernel
  obtain ⟨c, hc, hNot⟩ := hOther ph hPh
  obtain ⟨d, hd, hEq⟩ := mem_map.mp (hInfix.subset hc)
  rcases h d hd with rfl | rfl | rfl
  · exact hNot.1 hEq.symm
  · exact hNot.2.1 hEq.symm
  · exact hNot.2.2 hEq.symm

theorem cut_append {a b : Text} (hb : b.length = 32768) (h : 65536 < (a ++ b).length) :
    Session.cut (a ++ b) = b := by
  rw [Session.cut, if_pos h, drop_left']
  rw [length_append, hb]
  exact (Nat.add_sub_cancel _ _).symm

theorem onData_eq {kept : Text} (hKept : Session.cut (s.err ++ chunk) = kept)
    (hQuiet : has failed kept = false) : s.onData chunk =
      { s with
        err := kept
        text := s.text ++ chunk
        promptTimer := endsInColon kept && !endsInNewline kept } := by
  unfold Session.onData
  dsimp only
  rw [hKept, hQuiet, if_neg fun h => Bool.false_ne_true h.2]

theorem onPrompt_eq (hSent : s.otpSent = false) (hFailed : s.failedBeforeOtp = false)
    (hLast : lastLine s.err = [58]) : s.onPrompt =
      { s with otpSent := true, writes := s.writes ++ [(.otp, s.text)] } := by
  have hPlain : (unsupported [58] || has menu [58]) = false := by decide +kernel
  unfold Session.onPrompt
  dsimp only
  rw [hSent, hFailed, hLast, hPlain]
  rfl

/-- The failure is in the first text that is cut, before what is kept of it. -/
theorem otp_pushedOut {n j k : Nat} (hn : n ≤ 65536) (hk : k + 2 = 32768)
    (hBig : 65536 < n + j + k) :
    ∃ t, (.otp, t) ∈ (after (pushedOut n j k)).writes ∧ has failed t = true := by
  have hFirst : Session.cut (start.err ++ filler n) = filler n := by
    rw [Session.cut, if_neg]
    · rfl
    · change ¬ 65536 < (filler n).length
      rw [filler, length_replicate]
      omega
  have hQuiet : has failed (filler n) = false :=
    has_failed_eq_false fun c hc => Or.inl (eq_of_mem_replicate hc)
  have hSecond : Session.cut (filler n ++ (js "Login failed" ++ filler j ++
      (filler k ++ [10] ++ [58]))) = filler k ++ [10] ++ [58] := by
    rw [← append_assoc]
    refine cut_append ?_ ?_
    · simpa [filler] using hk
    · simp only [filler, length_append, length_replicate, length_singleton]
      omega
  have hQuiet' : has failed (filler k ++ [10] ++ [58]) = false := by
    refine has_failed_eq_false fun c hc => ?_
    simp only [mem_append, mem_singleton] at hc
    exact or_assoc.mp (hc.imp_left (Or.imp_left eq_of_mem_replicate))
  have hColon : endsInColon (filler k ++ [10] ++ [58]) = true := by
    rw [endsInColon, rdropWhile_concat_neg _ _ _ (by decide), getLast?_concat]
    rfl
  have hEnd : endsInNewline (filler k ++ [10] ++ [58]) = false := by
    rw [endsInNewline, getLast?_concat]
    rfl
  have hLast : lastLine (filler k ++ [10] ++ [58]) = [58] := by
    rw [lastLine, rtakeWhile_concat_pos _ _ _ (by decide),
      rtakeWhile_concat_neg _ _ _ (by decide)]
    rfl
  have hStep := onData_eq hFirst hQuiet
  have hStep' : ((start.onData (filler n)).onData (js "Login failed" ++ filler j ++
      (filler k ++ [10] ++ [58]))) = { start with
        err := filler k ++ [10] ++ [58]
        text := start.text ++ filler n ++ (js "Login failed" ++ filler j ++
          (filler k ++ [10] ++ [58]))
        promptTimer := true } := by
    rw [hStep, onData_eq hSecond hQuiet', hColon, hEnd]
    rfl
  refine ⟨start.text ++ filler n ++ (js "Login failed" ++ filler j ++ (filler k ++ [10] ++ [58])),
    ?_, has_iff.mpr ⟨js "login failed", mem_cons_self, ?_⟩⟩
  · change _ ∈ (step ((start.onData (filler n)).onData _) .prompt).writes
    rw [hStep', step, if_pos rfl, onPrompt_eq rfl rfl hLast]
    exact mem_append_right _ mem_cons_self
  · have hLower : (js "Login failed").map asciiLower = js "login failed" := by decide +kernel
    simp only [map_append, hLower]
    exact ⟨start.text.map asciiLower ++ (filler n).map asciiLower,
      (filler j).map asciiLower ++ ((filler k ++ [10] ++ [58]).map asciiLower), by
        simp only [map_append, append_assoc]⟩

theorem code_after_failure : ¬ ∀ es, (∃ codes, (after es).writes = (.pin, []) :: codes ∧
      codes.length ≤ 1 ∧ ∀ w ∈ codes, w.1 = Secret.otp) ∧
    ∀ t, (.otp, t) ∈ (after es).writes → Asked t ∧ has failed t = false := by
  intro hAll
  obtain ⟨t, hMem, hFailed⟩ := otp_pushedOut (n := 40000) (j := 7234) (k := 32766)
    (by decide) rfl (by decide)
  rw [((hAll _).2 t hMem).2] at hFailed
  cases hFailed

end TMEdge.OpenConnect
