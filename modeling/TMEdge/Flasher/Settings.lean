import TMEdge.Library.Decimal
import TMEdge.Library.Url

/-!
# The settings of a node

`src/shared/flasher/settings.ts`: what may be written to a node over its serial console, and the
lines that write it.

* `sent_url_canonical_iff`: the URL that is sent is canonical, unless its port was given twice.
* `port_left`: what is left of a port that was given twice.
-/

namespace TMEdge.Flasher

open Library List

/-! ## Settings -/

inductive UplinkMode
  | wifi
  | lora
  deriving DecidableEq

inductive UplinkTransport
  | udp
  | wss
  deriving DecidableEq

inductive FrameRate
  | one
  | two
  | four
  deriving DecidableEq

/-- An empty text keeps what the node has. -/
structure NodeSettings where
  mode : UplinkMode := .wifi
  ssid : Text := []
  password : Text := []
  gateway : Text := []
  key : Text := []
  transport : UplinkTransport := .udp
  cloudUrl : Text := []
  frameRate : Option FrameRate := none

def UplinkMode.text : UplinkMode → Text
  | .wifi => js "wifi"
  | .lora => js "lora"

def UplinkTransport.text : UplinkTransport → Text
  | .udp => js "udp"
  | .wss => js "wss"

def FrameRate.text : FrameRate → Text
  | .one => js "1"
  | .two => js "2"
  | .four => js "4"

def maxSsid : Nat := 32

def maxPassword : Nat := 63

def maxKey : Nat := 64

def maxCloudUrl : Nat := 128

/-- `utf8` -/
def utf8Length (t : Text) : Nat := Url.byteLength t

def gatewayName : UplinkMode → Text
  | .wifi => js "TMWAccess"
  | .lora => js "TMLAccess"

def isDigit (c : UInt16) : Bool := 48 ≤ c && c ≤ 57

/-- `/^(0|[1-9]\d{0,2})$/` -/
def isShortNumber : Text → Bool
  | [] => false
  | c :: t => (c = 48 && t = []) || (49 ≤ c && c ≤ 57 && t.length ≤ 2 && t.all isDigit)

/-- `Number` of digits -/
def valueOf (t : Text) : Nat := t.foldl (fun n c => 10 * n + (c.toNat - 48)) 0

def isIPv4 (t : Text) : Bool :=
  let parts := t.splitOn 46
  parts.length = 4 && parts.all fun part => isShortNumber part && valueOf part ≤ 255

/-! ## The cloud URL -/

/-- What comes before the first `://` and what comes after it. -/
def cutScheme : Text → Option (Text × Text)
  | [] => none
  | c :: t =>
    if (js "://").isPrefixOf (c :: t) then some ([], t.drop 2)
    else (cutScheme t).map fun p => (c :: p.1, p.2)

/-- The text up to the first slash. -/
def upToSlash (t : Text) : Text := t.takeWhile (· ≠ 47)

/-- The text from the first slash on. -/
def fromSlash (t : Text) : Text := t.dropWhile (· ≠ 47)

/-- `authority.slice(0, -4)` of an authority that ends with `:443` -/
def stripPort (authority : Text) : Text :=
  if (js ":443").isSuffixOf authority then authority.take (authority.length - 4) else authority

def canonicalCloudUrl (u : Unicode) (raw : Text) : Text :=
  let text := Text.trim raw
  match cutScheme text with
  | none => text
  | some (scheme, rest) =>
    u.toLowerCase scheme ++ js "://" ++ stripPort (u.toLowerCase (upToSlash rest)) ++ fromSlash rest

/-- Printable ASCII without `%` and the backslash. -/
def urlUnit (c : UInt16) : Bool := 0x21 ≤ c && c ≤ 0x7E && c ≠ 37 && c ≠ 92

/-- `[a-z0-9-]` -/
def labelUnit (c : UInt16) : Bool := (97 ≤ c && c ≤ 122) || isDigit c || c = 45

def labelOk (label : Text) : Bool :=
  1 ≤ label.length && label.length ≤ 63 && label.all labelUnit && label.head? ≠ some 45 &&
    label.getLast? ≠ some 45

def hostOk (host : Text) : Bool :=
  0 < host.length && host.length ≤ 100 && host.any (fun c => 97 ≤ c && c ≤ 122) &&
    (host.splitOn 46).all labelOk

/-- `[A-Za-z0-9/\-_.~]` -/
def pathUnit (c : UInt16) : Bool :=
  (65 ≤ c && c ≤ 90) || (97 ≤ c && c ≤ 122) || isDigit c || c = 47 || c = 45 || c = 95 || c = 46 ||
    c = 126

def pathOk (path : Text) : Bool :=
  2 ≤ path.length && path.length ≤ 64 && path.all pathUnit && !decide (js "//" <:+: path) &&
    (path.splitOn 47).all fun part => part ≠ js "." && part ≠ js ".."

/-- The port of an authority that has one. -/
def portOf (authority : Text) : Option Text :=
  match authority.dropWhile (· ≠ 58) with
  | [] => none
  | _ :: port => some port

def hostOf (authority : Text) : Text := authority.takeWhile (· ≠ 58)

def cloudUrlProblem (url : Text) : Option Text :=
  if url.length = 0 ∨ maxCloudUrl < utf8Length url then
    some (js "Cloud URL must be 1–" ++ Text.decimal maxCloudUrl ++ js " characters")
  else if ¬ url.all urlUnit then
    some (js "Cloud URL may contain only printable ASCII, no spaces, % or \\")
  else if 63 ∈ url ∨ 35 ∈ url then some (js "Cloud URL must not have a query or fragment")
  else if ¬ (js "wss://").isPrefixOf url then some (js "Cloud URL must start with wss://")
  else
    let rest := url.drop 6
    if 47 ∉ rest then some (js "Cloud URL needs a path, like /tmnode")
    else if 64 ∈ upToSlash rest then
      some (js "Cloud URL must not contain a user name or password")
    else if (portOf (upToSlash rest)).any fun port => port ≠ js "443" then
      some (js "Cloud URL port must be 443")
    else if ¬ hostOk (hostOf (upToSlash rest)) then
      some (js "Cloud URL host must be a lowercase DNS name")
    else if ¬ pathOk (fromSlash rest) then some (js "Cloud URL path must be like /tmnode")
    else none

/-! ## Problems -/

def isControl (c : UInt16) : Bool := c ≤ 0x1F || c = 0x7F

def problem (c : Prop) [Decidable c] (text : Text) : List Text := if c then [text] else []

/-- What is wrong with the cloud URL, once it is in the form that is sent. -/
def cloudProblems (u : Unicode) (s : NodeSettings) : List Text :=
  if s.cloudUrl = [] then [] else (cloudUrlProblem (canonicalCloudUrl u s.cloudUrl)).toList

def settingsProblems (u : Unicode) (s : NodeSettings) : List Text :=
  let fields := [(js "SSID", s.ssid), (js "Password", s.password), (js "Gateway IP", s.gateway),
    (js "Signing key", s.key), (js "Cloud URL", s.cloudUrl)]
  (fields.flatMap fun field => problem (field.2.any isControl)
    (field.1 ++ js " cannot contain a line break or control character")) ++
  problem (maxSsid < utf8Length s.ssid)
    (js "SSID is longer than " ++ Text.decimal maxSsid ++ js " bytes") ++
  problem (s.ssid.head? = some 32 ∨ s.ssid.getLast? = some 32)
    (js "SSID starts or ends with a space") ++
  problem (s.password ≠ [] ∧ (utf8Length s.password < 8 ∨ maxPassword < utf8Length s.password))
    (js "Wi-Fi password must be 8–" ++ Text.decimal maxPassword ++ js " characters (WPA2)") ++
  problem (s.gateway ≠ [] ∧ ¬ isIPv4 s.gateway)
    (gatewayName s.mode ++ js " IP “" ++ s.gateway ++ js "” is not an IPv4 address") ++
  problem (maxKey < utf8Length s.key)
    (js "Signing key is longer than " ++ Text.decimal maxKey ++ js " bytes") ++
  problem (32 ∈ s.key) (js "Signing key cannot contain spaces") ++
  problem (s.mode = .lora ∧ s.transport = .wss)
    (js "LoRa has no direct-cloud transport; choose the local gateway") ++
  cloudProblems u s

/-! ## Commands -/

structure ConsoleCommand where
  line : Text
  expect : Text
  display : Text
  deriving DecidableEq

def command (line expect : Text) : ConsoleCommand := { line, expect, display := line }

/-- A command whose line ends with a value that may be missing. -/
def given (value : Text) (c : ConsoleCommand) : List ConsoleCommand := if value = [] then [] else [c]

def cloudUrlCommand (url : Text) : ConsoleCommand :=
  command (js "set cloud_url " ++ url) (js "cloud_url updated")

def transportCommand (t : UplinkTransport) : ConsoleCommand :=
  command (js "set transport " ++ t.text) (js "transport updated")

def masked (line : String) (value expect display : Text) : ConsoleCommand where
  line := js line ++ value
  expect := expect
  display := display

/-- The commands for a mode. -/
def modeCommands (u : Unicode) (id : Nat) (s : NodeSettings) (directCloud : Bool) :
    List ConsoleCommand :=
  let setId := command (js "set id " ++ Text.decimal id) (js "id updated")
  let setMode := command (js "set mode " ++ s.mode.text) (js "mode updated")
  match s.mode with
  | .wifi =>
    [setId, setMode] ++
    given s.ssid (command (js "set ssid " ++ s.ssid) (js "ssid updated")) ++
    given s.password (masked "set pass " s.password (js "pass updated") (js "set pass ••••••")) ++
    given s.gateway (command (js "set edges " ++ s.gateway) (js "edges updated")) ++
    if directCloud then
      given (canonicalCloudUrl u s.cloudUrl) (cloudUrlCommand (canonicalCloudUrl u s.cloudUrl)) ++
        [transportCommand s.transport]
    else []
  | .lora =>
    (if directCloud then [setId, transportCommand .udp, setMode] else [setId, setMode]) ++
    given s.gateway (command (js "set lora_gw " ++ s.gateway) (js "lora_gw updated"))

def provisioningCommands (u : Unicode) (id : Nat) (s : NodeSettings) (directCloud : Bool) :
    List ConsoleCommand :=
  modeCommands u id s directCloud ++
  given s.key (masked "set key " s.key (js "key updated") (js "set key ••••••")) ++
  (match s.frameRate with
    | some rate => [command (js "set fps " ++ rate.text) (js "fps updated")]
    | none => []) ++
  [command (js "save") (js "saved")]

/-! ## What is valid -/

section valid

variable {u : Unicode} {s : NodeSettings} {raw url authority rest scheme : Text} {c : UInt16}
  {t a : Text}

/-- The lower-case host, the port that may follow it, and the path of a URL without a problem. -/
structure ValidUrl (url rest : Text) : Prop where
  eq : url = js "wss://" ++ rest
  printable : ∀ c ∈ url, urlUnit c = true
  path : fromSlash rest ≠ [] ∧ ∀ c ∈ fromSlash rest, pathUnit c = true
  port : ∀ port, portOf (upToSlash rest) = some port → port = js "443"
  host : ∀ c ∈ hostOf (upToSlash rest), labelUnit c = true ∨ c = 46

theorem mem_of_labels (h : (t.splitOn 46).all labelOk = true) (hc : c ∈ t) :
    labelUnit c = true ∨ c = 46 := by
  rw [all_eq_true] at h
  rw [or_iff_not_imp_right]
  intro hDot
  obtain ⟨label, hLabel, hMem⟩ := Text.exists_mem_splitOn hc hDot
  have hOk := h label hLabel
  simp only [labelOk, Bool.and_eq_true, all_eq_true] at hOk
  exact hOk.1.1.2 c hMem

theorem validUrl (h : cloudUrlProblem url = none) : ∃ rest, ValidUrl url rest := by
  unfold cloudUrlProblem at h
  split at h
  next => cases h
  split at h
  next => cases h
  next hUnits =>
  split at h
  next => cases h
  split at h
  next => cases h
  next hPrefix =>
  dsimp only at h
  split at h
  next => cases h
  next hSlash =>
  split at h
  next => cases h
  split at h
  next => cases h
  next hPort =>
  split at h
  next => cases h
  next hHost =>
  split at h
  next => cases h
  next hPath =>
  obtain ⟨rest, hRest⟩ := isPrefixOf_iff_prefix.mp (not_not.mp hPrefix)
  have hDrop : url.drop 6 = rest := by
    rw [← hRest]
    rfl
  rw [hDrop] at hSlash hPort hHost hPath
  refine ⟨rest, hRest.symm, all_eq_true.mp (not_not.mp hUnits), ⟨?_, ?_⟩, fun port hSome => ?_,
    fun c hc => ?_⟩
  · intro hNil
    rw [fromSlash, dropWhile_eq_nil_iff] at hNil
    have hFalse := hNil 47 (not_not.mp hSlash)
    simp at hFalse
  · rw [not_not, pathOk] at hPath
    simp only [Bool.and_eq_true] at hPath
    exact all_eq_true.mp hPath.1.1.2
  · simpa [hSome] using hPort
  · rw [not_not, hostOk] at hHost
    simp only [Bool.and_eq_true] at hHost
    exact mem_of_labels hHost.2 hc

/-! ## What is sent -/

/-- A URL whose scheme and host are lower-case, without a port, and which is left as it is. -/
structure CanonicalUrl (u : Unicode) (url : Text) : Prop where
  parts : ∃ scheme rest, cutScheme url = some (scheme, rest) ∧ u.toLowerCase scheme = scheme ∧
    u.toLowerCase (upToSlash rest) = upToSlash rest ∧ 58 ∉ upToSlash rest
  fixed : canonicalCloudUrl u url = url

/-- The port 443 is given twice. -/
def PortTwice (u : Unicode) (raw : Text) : Prop :=
  ∃ scheme rest, cutScheme (Text.trim raw) = some (scheme, rest) ∧
    js ":443:443" <:+ u.toLowerCase (upToSlash rest)

theorem takeWhile_append {d : UInt16} {a b : Text} (h : d ∉ a) :
    (a ++ b).takeWhile (fun c => decide (c ≠ d)) = a ++ b.takeWhile fun c => decide (c ≠ d) := by
  refine takeWhile_append_of_pos fun c hc => ?_
  rw [decide_eq_true_eq]
  rintro rfl
  exact h hc

theorem dropWhile_append {d : UInt16} {a b : Text} (h : d ∉ a) :
    (a ++ b).dropWhile (fun c => decide (c ≠ d)) = b.dropWhile fun c => decide (c ≠ d) := by
  refine dropWhile_append_of_pos fun c hc => ?_
  rw [decide_eq_true_eq]
  rintro rfl
  exact h hc

theorem dropWhile_append_of_mem {d : UInt16} {a : Text} (h : d ∈ a) : ∃ tail : Text,
    ∀ b : Text, (a ++ b).dropWhile (fun c => decide (c ≠ d)) = d :: tail ++ b := by
  induction a with
  | nil => cases h
  | cons c a ih =>
    by_cases hc : c = d
    · exact ⟨a, fun b => by simp [hc]⟩
    · obtain ⟨tail, hTail⟩ := ih ((mem_cons.mp h).resolve_left (Ne.symm hc))
      exact ⟨tail, fun b => by rw [cons_append, dropWhile_cons_of_pos (by simpa using hc),
        hTail]⟩

/-- A text with `://` after the first slash or the first colon of its own. -/
theorem not_valid_colon : ¬ ValidUrl url (rest ++ 58 :: 47 :: 47 :: t) := by
  intro h
  by_cases hSlash : 47 ∈ rest
  · -- the colon is in the path
    obtain ⟨tail, hTail⟩ := dropWhile_append_of_mem hSlash
    have hPath := h.path.2 58 (by
      rw [fromSlash, hTail]
      simp)
    revert hPath
    decide
  · -- the colon ends the authority
    have hUp : upToSlash (rest ++ 58 :: 47 :: 47 :: t) = rest ++ [58] := by
      rw [upToSlash, takeWhile_append hSlash]
      rfl
    have hPort := h.port
    rw [hUp, portOf] at hPort
    by_cases hMem : 58 ∈ rest
    · obtain ⟨tail, hTail⟩ := dropWhile_append_of_mem hMem
      rw [hTail] at hPort
      have hLast := congrArg List.getLast? (hPort (tail ++ [58]) rfl)
      rw [getLast?_concat] at hLast
      revert hLast
      decide
    · rw [dropWhile_append hMem] at hPort
      have hEmpty := hPort [] rfl
      revert hEmpty
      decide

/-- The scheme of a valid URL comes before its first `://`. -/
theorem scheme_eq (h : ValidUrl (scheme ++ js "://" ++ t) rest) : scheme = js "wss" ∧ rest = t := by
  have hEq := h.eq
  have hColon : js "://" = [58, 47, 47] := by decide
  have hWss : js "wss://" = [119, 115, 115, 58, 47, 47] := by decide
  have hScheme : js "wss" = [119, 115, 115] := by decide
  rw [hColon, hWss] at hEq
  rcases scheme with - | ⟨a, - | ⟨b, - | ⟨c, - | ⟨d, - | ⟨e, - | ⟨f, others⟩⟩⟩⟩⟩⟩
  · simp at hEq
  · simp at hEq
  · simp at hEq
  · simp only [cons_append, nil_append, List.cons.injEq, true_and] at hEq
    obtain ⟨rfl, rfl, rfl, rfl⟩ := hEq
    exact ⟨hScheme.symm, rfl⟩
  · simp at hEq
  · simp at hEq
  · simp only [cons_append, nil_append, append_assoc, List.cons.injEq] at hEq
    obtain ⟨-, -, -, -, -, -, hRest⟩ := hEq
    rw [← hRest] at h
    exact absurd h not_valid_colon

theorem cutScheme_wss (t : Text) : cutScheme (js "wss://" ++ t) = some (js "wss", t) := rfl

theorem stripPort_spec (a : Text) : a = stripPort a ++ js ":443" ∨
    stripPort a = a ∧ ¬ js ":443" <:+ a := by
  unfold stripPort
  split
  next h =>
    obtain ⟨b, hb⟩ := isSuffixOf_iff_suffix.mp h
    have hLength : a.length - 4 = b.length := by
      rw [← hb, length_append]
      rfl
    rw [hLength, ← hb, take_left]
    exact .inl rfl
  next h => exact .inr ⟨rfl, fun hSuffix => h (isSuffixOf_iff_suffix.mpr hSuffix)⟩

/-- An authority is a host, or a host and a port. -/
theorem portOf_cases (a : Text) : 58 ∉ a ∧ hostOf a = a ∨
    ∃ port, portOf a = some port ∧ a = hostOf a ++ 58 :: port := by
  by_cases hMem : 58 ∈ a
  · obtain ⟨tail, hTail⟩ := dropWhile_append_of_mem hMem
    have hDrop := hTail []
    rw [append_nil, append_nil] at hDrop
    refine .inr ⟨tail, by rw [portOf, hDrop], ?_⟩
    rw [hostOf, ← hDrop, takeWhile_append_dropWhile]
  · have hTake := takeWhile_append (b := []) hMem
    rw [append_nil, takeWhile_nil, append_nil] at hTake
    exact .inl ⟨hMem, hTake⟩

theorem asciiLower_host (h : ∀ c ∈ a, labelUnit c = true ∨ c = 46) : u.toLowerCase a = a := by
  have hUnit : ∀ c ∈ a, c < 128 ∧ asciiLower c = c := by
    intro c hc
    have hc := h c hc
    simp only [labelUnit, isDigit, Bool.or_eq_true, Bool.and_eq_true, decide_eq_true_eq,
      UInt16.le_iff_toNat_le, ← UInt16.toNat_inj] at hc
    have h97 : (97 : UInt16).toNat = 97 := rfl
    have h122 : (122 : UInt16).toNat = 122 := rfl
    have h48 : (48 : UInt16).toNat = 48 := rfl
    have h57 : (57 : UInt16).toNat = 57 := rfl
    have h45 : (45 : UInt16).toNat = 45 := rfl
    have h46 : (46 : UInt16).toNat = 46 := rfl
    have h128 : (128 : UInt16).toNat = 128 := rfl
    have h65 : (65 : UInt16).toNat = 65 := rfl
    have h90 : (90 : UInt16).toNat = 90 := rfl
    constructor
    · rw [UInt16.lt_iff_toNat_lt]
      omega
    · rw [asciiLower, if_neg]
      rw [UInt16.le_iff_toNat_le, UInt16.le_iff_toNat_le]
      omega
  rw [u.toLowerCase_ascii a fun c hc => (hUnit c hc).1]
  refine (map_congr_left fun c hc => (hUnit c hc).2).trans (map_id' a)

theorem trim_url (h : ∀ c ∈ url, urlUnit c = true) : Text.trim url = url := by
  refine Text.trim_eq_self fun c hc => ?_
  have hUnit := h c hc
  rw [← Bool.not_eq_true]
  intro hSpace
  simp only [urlUnit, Text.isSpace, Bool.and_eq_true, Bool.or_eq_true, decide_eq_true_eq,
    UInt16.le_iff_toNat_le, ← UInt16.toNat_inj] at hUnit hSpace
  simp only [UInt16.reduceToNat] at hUnit hSpace
  omega

theorem stripPort_subset {d : UInt16} (h : d ∉ a) : d ∉ stripPort a := by
  unfold stripPort
  split
  · exact fun hMem => h (mem_of_mem_take hMem)
  · exact h

theorem not_mem_upToSlash (t : Text) : 47 ∉ upToSlash t := by
  intro hMem
  simpa using mem_takeWhile_imp hMem

/-- What is sent of a URL with a scheme. -/
theorem canonicalCloudUrl_of_cut (hCut : cutScheme (Text.trim raw) = some (scheme, rest)) :
    canonicalCloudUrl u raw = u.toLowerCase scheme ++ js "://" ++
      (stripPort (u.toLowerCase (upToSlash rest)) ++ fromSlash rest) := by
  rw [canonicalCloudUrl, hCut, ← append_assoc]

/-- The authority and the path of what is sent. -/
theorem upToSlash_append (h : 47 ∉ a) (rest : Text) :
    upToSlash (a ++ fromSlash rest) = a ∧
      fromSlash (a ++ fromSlash rest) = fromSlash rest := by
  rw [upToSlash, fromSlash, fromSlash, takeWhile_append h, dropWhile_append h,
    dropWhile_idempotent]
  refine ⟨?_, rfl⟩
  rw [takeWhile_eq_nil_iff.mpr fun hLt => ?_, append_nil]
  exact dropWhile_get_zero_not _ _ hLt

/-- What is sent is canonical, unless the port 443 was given twice. -/
theorem canonicalUrl_iff (hLower : ∀ t : Text, 47 ∉ t → 47 ∉ u.toLowerCase t)
    (h : cloudUrlProblem (canonicalCloudUrl u raw) = none) :
    CanonicalUrl u (canonicalCloudUrl u raw) ↔ ¬ PortTwice u raw := by
  obtain ⟨tail, hValid⟩ := validUrl h
  rcases hCut : cutScheme (Text.trim raw) with - | ⟨scheme, rest⟩
  · have hUrl : canonicalCloudUrl u raw = Text.trim raw := by rw [canonicalCloudUrl, hCut]
    rw [← hUrl, hValid.eq, cutScheme_wss] at hCut
    cases hCut
  have hUrl := canonicalCloudUrl_of_cut (u := u) hCut
  rw [hUrl] at hValid
  obtain ⟨hScheme, rfl⟩ := scheme_eq hValid
  have hNoSlash := stripPort_subset (hLower _ (not_mem_upToSlash rest))
  obtain ⟨hUp, hFrom⟩ := upToSlash_append hNoSlash rest
  generalize hSent : stripPort (u.toLowerCase (upToSlash rest)) = sent at *
  have hCutUrl : cutScheme (canonicalCloudUrl u raw) =
      some (js "wss", sent ++ fromSlash rest) := by
    rw [hUrl, hScheme]
    exact cutScheme_wss _
  have hPorts := stripPort_spec (u.toLowerCase (upToSlash rest))
  rw [hSent] at hPorts
  constructor
  · rintro hCanonical ⟨scheme', rest', hCut', hTwice⟩
    obtain ⟨rfl, rfl⟩ := Prod.mk.injEq _ _ _ _ ▸ Option.some.inj (hCut.symm.trans hCut')
    obtain ⟨scheme'', rest'', hCut'', -, -, hColon⟩ := hCanonical.parts
    obtain ⟨rfl, rfl⟩ := Prod.mk.injEq _ _ _ _ ▸ Option.some.inj (hCutUrl.symm.trans hCut'')
    rw [hUp] at hColon
    obtain ⟨host, hHost⟩ := hTwice
    have hSplit : js ":443:443" = js ":443" ++ js ":443" := by decide
    rcases hPorts with hOnce | ⟨-, hNone⟩
    · rw [← hHost, hSplit, ← append_assoc] at hOnce
      rw [← append_cancel_right hOnce] at hColon
      exact hColon (mem_append_right _ (by decide))
    · refine hNone ⟨host ++ js ":443", ?_⟩
      rw [← hHost, hSplit, append_assoc]
  · intro hNot
    have hColon : 58 ∉ sent := by
      rcases portOf_cases sent with ⟨hNone, -⟩ | ⟨port, hPort, hSplit⟩
      · exact hNone
      · have hEnds : sent = hostOf sent ++ js ":443" := by
          rw [hValid.port port (by rw [hUp, hPort])] at hSplit
          exact hSplit
        rcases hPorts with hOnce | ⟨hSame, hNone⟩
        · refine absurd ⟨scheme, rest, hCut, hostOf sent, ?_⟩ hNot
          rw [hOnce]
          conv_rhs => rw [hEnds]
          rw [append_assoc]
          rfl
        · exact absurd ⟨hostOf sent, by rw [← hEnds, hSame]⟩ hNone
    have hHost : hostOf sent = sent := by
      rcases portOf_cases sent with ⟨-, hHost⟩ | ⟨port, -, hSplit⟩
      · exact hHost
      · exact absurd (hSplit ▸ mem_append_right _ mem_cons_self) hColon
    have hLabels := hValid.host
    rw [hUp, hHost] at hLabels
    have hSentLower : u.toLowerCase sent = sent := asciiLower_host hLabels
    have hWss : u.toLowerCase (js "wss") = js "wss" := asciiLower_host (by
      have hUnits : (js "wss").all labelUnit = true := by decide
      exact fun c hc => .inl (all_eq_true.mp hUnits c hc))
    have hStrip : stripPort sent = sent := by
      rcases stripPort_spec sent with hEnds | ⟨hSame, -⟩
      · exact absurd (hEnds ▸ mem_append_right _ (by decide)) hColon
      · exact hSame
    have hTrim : Text.trim (canonicalCloudUrl u raw) = canonicalCloudUrl u raw := by
      rw [hUrl]
      exact trim_url hValid.printable
    refine ⟨⟨js "wss", sent ++ fromSlash rest, hCutUrl, hWss, ?_, ?_⟩, ?_⟩
    · rw [hUp, hSentLower]
    · rw [hUp]
      exact hColon
    · have hAgain := @canonicalCloudUrl_of_cut u (canonicalCloudUrl u raw) _ _
        (hTrim.symm ▸ hCutUrl)
      rw [hAgain, hWss, hUp, hSentLower, hStrip, hFrom, hUrl, hScheme]

theorem mem_given {value : Text} {c d : ConsoleCommand} (h : c ∈ given value d) : c = d := by
  unfold given at h
  split at h
  · cases h
  · exact mem_singleton.mp h

theorem cloudUrlCommand_injective (h : cloudUrlCommand url = cloudUrlCommand raw) : url = raw :=
  append_cancel_left (congrArg ConsoleCommand.line h)

/-- A command that is answered otherwise sends no URL. -/
theorem sends_no_url (expect : Text) (hNe : expect ≠ js "cloud_url updated") {c : ConsoleCommand}
    (hExpect : c.expect = expect) : cloudUrlCommand url ≠ c := by
  rintro rfl
  exact hNe hExpect.symm

theorem given_no_url (expect : Text) (hNe : expect ≠ js "cloud_url updated") {value : Text}
    {c : ConsoleCommand} (hExpect : c.expect = expect) : cloudUrlCommand url ∉ given value c :=
  fun hMem => sends_no_url expect hNe hExpect (mem_given hMem)

/-- The URL that is sent. -/
theorem cloudUrl_of_mem {id : Nat} {directCloud : Bool}
    (h : cloudUrlCommand url ∈ provisioningCommands u id s directCloud) :
    url = canonicalCloudUrl u s.cloudUrl := by
  have hId : js "id updated" ≠ js "cloud_url updated" := by decide
  have hName : js "mode updated" ≠ js "cloud_url updated" := by decide
  have hTransport : js "transport updated" ≠ js "cloud_url updated" := by decide
  simp only [provisioningCommands, mem_append, mem_singleton] at h
  rcases h with ((hModes | hKey) | hRate) | hSave
  · unfold modeCommands at hModes
    rcases hMode : s.mode with - | -
    · simp only [hMode, mem_append, mem_cons, not_mem_nil, or_false] at hModes
      rcases hModes with ((((h | h) | hSsid) | hPassword) | hGateway) | hCloud
      · exact absurd h (sends_no_url _ hId rfl)
      · exact absurd h (sends_no_url _ hName rfl)
      · exact absurd hSsid (given_no_url (js "ssid updated") (by decide) rfl)
      · exact absurd hPassword (given_no_url (js "pass updated") (by decide) rfl)
      · exact absurd hGateway (given_no_url (js "edges updated") (by decide) rfl)
      · split at hCloud
        · rcases mem_append.mp hCloud with hUrl | hLine
          · exact cloudUrlCommand_injective (mem_given hUrl)
          · exact absurd (mem_singleton.mp hLine) (sends_no_url _ hTransport rfl)
        · cases hCloud
    · simp only [hMode, mem_append] at hModes
      rcases hModes with hLines | hGateway
      · split at hLines
        · simp only [mem_cons, not_mem_nil, or_false] at hLines
          rcases hLines with h | h | h
          · exact absurd h (sends_no_url _ hId rfl)
          · exact absurd h (sends_no_url _ hTransport rfl)
          · exact absurd h (sends_no_url _ hName rfl)
        · simp only [mem_cons, not_mem_nil, or_false] at hLines
          rcases hLines with h | h
          · exact absurd h (sends_no_url _ hId rfl)
          · exact absurd h (sends_no_url _ hName rfl)
      · exact absurd hGateway (given_no_url (js "lora_gw updated") (by decide) rfl)
  · exact absurd hKey (given_no_url (js "key updated") (by decide) rfl)
  · split at hRate
    · exact absurd (mem_singleton.mp hRate)
        (sends_no_url (js "fps updated") (by decide) rfl)
    · cases hRate
  · exact absurd hSave (sends_no_url (js "saved") (by decide) rfl)

/-- What the settings have no problem with has no problem in the form that is sent. -/
theorem cloudUrlProblem_of_settings (hOk : settingsProblems u s = []) (hUrl : s.cloudUrl ≠ []) :
    cloudUrlProblem (canonicalCloudUrl u s.cloudUrl) = none := by
  have hCloud := (append_eq_nil_iff.mp hOk).2
  rw [cloudProblems, if_neg hUrl] at hCloud
  exact Option.toList_eq_nil_iff.mp hCloud

/-- The URL that is sent is canonical, unless its port was given twice. -/
theorem sent_url_canonical_iff (u : Unicode) (s : NodeSettings) (id : Nat) (directCloud : Bool)
    (url : Text) (hLower : ∀ t : Text, 47 ∉ t → 47 ∉ u.toLowerCase t)
    (hOk : settingsProblems u s = []) (hUrl : s.cloudUrl ≠ [])
    (hSent : cloudUrlCommand url ∈ provisioningCommands u id s directCloud) :
    CanonicalUrl u url ↔ ¬ PortTwice u s.cloudUrl := by
  rw [cloudUrl_of_mem hSent]
  exact canonicalUrl_iff hLower (cloudUrlProblem_of_settings hOk hUrl)

end valid

/-! ## A URL that is sent -/

/-- A node that is to connect to the cloud. -/
def onCloud (cloudUrl : String) : NodeSettings :=
  { transport := .wss, cloudUrl := js cloudUrl }

theorem ascii_slash {t : Text} (h : 47 ∉ t) : 47 ∉ Unicode.toLowerCase ascii t := by
  intro hMem
  obtain ⟨c, hc, hLower⟩ := mem_map.mp hMem
  unfold asciiLower at hLower
  split at hLower
  next hUpper =>
    have hNat := congrArg UInt16.toNat hLower
    simp only [UInt16.le_iff_toNat_le, UInt16.toNat_add, UInt16.reduceToNat] at hUpper hNat
    omega
  next => exact h (hLower ▸ hc)

theorem sent_url_canonical_iff_tmnode :
    CanonicalUrl ascii (js "wss://a.example/tmnode") ↔
      ¬ PortTwice ascii (onCloud " WSS://A.Example:443/tmnode").cloudUrl :=
  sent_url_canonical_iff ascii (onCloud " WSS://A.Example:443/tmnode") 1 true
    (js "wss://a.example/tmnode") (fun _ => ascii_slash) (by decide +kernel) (by decide)
    (by decide +kernel)

/-- A port that was given twice is sent once. -/
theorem port_left :
    settingsProblems ascii (onCloud "wss://a.example:443:443/tmnode") = [] ∧
    cloudUrlCommand (js "wss://a.example:443/tmnode") ∈
      provisioningCommands ascii 1 (onCloud "wss://a.example:443:443/tmnode") true ∧
    ¬ CanonicalUrl ascii (js "wss://a.example:443/tmnode") := by
  refine ⟨by decide +kernel, by decide +kernel, fun h => ?_⟩
  have hFixed := h.fixed
  revert hFixed
  decide +kernel

end TMEdge.Flasher
