import TMEdge.Protocol.Packet

/-!
# The device key file

The constructor of `DeviceKeys` in `src/edge/secure.ts`: the keys of the encrypted nodes
and the nodes that may still speak the plaintext protocol, from a parsed JSON file. A node
is never both (`legacy_not_enrolled`).
-/

namespace TMEdge.Protocol

open Library Replay

/-! ## JSON values -/

inductive Json
  | null
  | bool (b : Bool)
  | number (n : ℚ)
  | string (s : String)
  | array (elements : List Json)
  | object (entries : List (String × Json))

namespace Json

/-- `object`: the entries of an object. -/
def entries : Json → Except String (List (String × Json))
  | .object es => .ok es
  | _ => .error "invalid device key file"

/-- A property; `none` is `undefined`. -/
def field? (es : List (String × Json)) (name : String) : Option Json :=
  (es.find? fun e => e.1 = name).map Prod.snd

def onlyFields (es : List (String × Json)) (names : List String) : Bool :=
  es.all fun e => names.contains e.1

/-- `Number.isInteger` -/
def integer? : Json → Option Int
  | .number n => if n.den = 1 then some n.num else none
  | _ => none

def string? : Json → Option String
  | .string s => some s
  | _ => none

end Json

/-! ## Text -/

/-- `Buffer.from(_, 'ascii')`: the low byte of every character. -/
def ascii (s : String) : Buffer := s.toList.map fun c => UInt8.ofNat c.toNat

def hexValue (c : Char) : Nat := if c.isDigit then c.toNat - 48 else c.toNat - 87

/-- `Buffer.from(_, 'hex')` of hexadecimal digits. -/
def fromHex : List Char → Buffer
  | a :: b :: rest => UInt8.ofNat (16 * hexValue a + hexValue b) :: fromHex rest
  | _ => []

def uidBytes (uid : String) : Buffer := fromHex (uid.toList.filter (· ≠ ':'))

/-- `/^[0-9a-f]{64}$/` -/
def isHex64 (s : String) : Bool := s.toList.length = 64 && s.toList.all isHex

/-! ## The constructor -/

namespace DeviceKeys

def maxSafeInteger : Int := 9007199254740991

/-- Thirty days. -/
def maxOverlap : ℚ := 30 * 86400000

def expiry (now : ℚ) (es : List (String × Json)) : Except String ℚ :=
  match (Json.field? es "expiresAt").bind Json.integer? with
  | none => .error "previous key needs a bounded expiry"
  | some t =>
    if maxSafeInteger < |t| ∨ now + maxOverlap < t then
      .error "previous key needs a bounded expiry"
    else .ok t

/-- A key, and the secrets seen so far. -/
def readKey (now : ℚ) (secrets : List String) (v : Json) (previous : Bool) :
    Except String (DeviceKey × List String) := do
  let k ← v.entries
  match (Json.field? k "id").bind Json.integer?, (Json.field? k "secret").bind Json.string? with
  | some id, some secret =>
    if !Json.onlyFields k ["id", "secret", "expiresAt"] || id < 1 || 65535 < id ||
        !isHex64 secret || secret.toList.all (· = '0') then
      .error "invalid per-device key"
    else if secret ∈ secrets then .error "device keys must be distinct"
    else if previous then do
      let t ← expiry now k
      return (⟨id.toNat, fromHex secret.toList, some t⟩, secret :: secrets)
    else if (Json.field? k "expiresAt").isSome then
      .error "current key cannot have a rotation expiry"
    else .ok (⟨id.toNat, fromHex secret.toList, none⟩, secret :: secrets)
  | _, _ => .error "invalid per-device key"

def revoked? (es : List (String × Json)) : Except String Bool :=
  match Json.field? es "revoked" with
  | none => .ok false
  | some (.bool b) => .ok b
  | some _ => .error "invalid device policy"

def readDevice (now : ℚ) (secrets : List String) (v : Json) :
    Except String (Device × List String) := do
  let es ← v.entries
  if !Json.onlyFields es ["current", "previous", "revoked"] then .error "invalid device policy"
  else
    let revoked ← revoked? es
    let (current, secrets) ← readKey now secrets ((Json.field? es "current").getD .null) false
    match Json.field? es "previous" with
    | none => return (⟨current, none, revoked⟩, secrets)
    | some p =>
      let (previous, secrets) ← readKey now secrets p true
      if previous.id = current.id then .error "rotation requires a new key id"
      else return (⟨current, some previous, revoked⟩, secrets)

def readNodes (now : ℚ) : JsMap String Device → List String → List (String × Json) →
    Except String (JsMap String Device)
  | devices, _, [] => .ok devices
  | devices, secrets, (uid, v) :: rest =>
    if !isUid uid then .error "invalid device identity"
    else do
      let (device, secrets) ← readDevice now secrets v
      readNodes now (devices.set uid device) secrets rest

def readLegacy (devices : JsMap String Device) : List String → List Json →
    Except String (List String)
  | legacy, [] => .ok legacy
  | legacy, .string uid :: rest =>
    if !isUid uid then .error "invalid device identity"
    else if devices.has uid ∨ uid ∈ legacy then .error "conflicting device policy"
    else readLegacy devices (legacy ++ [uid]) rest
  | _, _ :: _ => .error "invalid legacy identity"

/-- `root.legacy ?? []` -/
def legacyOf (root : List (String × Json)) : Json :=
  match Json.field? root "legacy" with
  | none | some .null => .array []
  | some v => v

/-- The constructor. The clock is read once: it stands still meanwhile. -/
def new (now : ℚ) (value : Json) : Except String DeviceKeys := do
  let root ← value.entries
  if (Json.field? root "version").bind Json.integer? ≠ some 2 ∨
      !Json.onlyFields root ["version", "nodes", "legacy"] then
    .error "invalid device key schema"
  else
    let nodes ← ((Json.field? root "nodes").getD .null).entries
    match legacyOf root with
    | .array legacy =>
      if 5000 < nodes.length ∨ 5000 < legacy.length then .error "device key capacity exceeded"
      else
        let devices ← readNodes now .empty [] nodes
        let legacy ← readLegacy devices [] legacy
        return ⟨devices, legacy⟩
    | _ => .error "device key capacity exceeded"

/-! ## What it accepts -/

theorem readLegacy_disjoint {devices : JsMap String Device} {values : List Json}
    {legacy legacy' : List String} (h : readLegacy devices legacy values = .ok legacy')
    (hLegacy : ∀ uid ∈ legacy, devices.get uid = none) :
    ∀ uid ∈ legacy', devices.get uid = none := by
  induction values generalizing legacy with
  | nil =>
    obtain rfl := Except.ok.inj h
    exact hLegacy
  | cons v rest ih =>
    cases v with
    | string uid =>
      simp only [readLegacy] at h
      split at h
      · cases h
      · split at h
        · cases h
        · rename_i hNew
          refine ih h fun k hk => ?_
          rcases List.mem_append.mp hk with hk | hk
          · exact hLegacy k hk
          · obtain rfl := List.mem_singleton.mp hk
            simpa [JsMap.has] using (not_or.mp hNew).1
    | _ => cases h

/-- A node with keys is not listed as legacy. -/
theorem legacy_not_enrolled {now : ℚ} {value : Json} {d : DeviceKeys} (h : new now value = .ok d)
    {uid : String} (hLegacy : d.allowsLegacy uid = true) : d.devices.get uid = none := by
  unfold new at h
  obtain ⟨root, -, h⟩ := bind_eq_ok.mp h
  split at h
  · cases h
  · obtain ⟨nodes, -, h⟩ := bind_eq_ok.mp h
    split at h
    · split at h
      · cases h
      · obtain ⟨devices, -, h⟩ := bind_eq_ok.mp h
        obtain ⟨legacy, hRead, h⟩ := bind_eq_ok.mp h
        obtain rfl := Except.ok.inj h
        exact readLegacy_disjoint hRead (by simp) uid (by simpa [allowsLegacy] using hLegacy)
    · cases h

/-- A key of a node that is not revoked: its current one, or the previous one while it has
not expired. -/
def Usable (d : DeviceKeys) (now : ℚ) (uid : String) (k : DeviceKey) : Prop :=
  ∃ device, d.devices.get uid = some device ∧ device.revoked = false ∧
    (k = device.current ∨ device.previous = some k ∧ ∃ t, k.expiresAt = some t ∧ now < t)

theorem usable_of_mem {d : DeviceKeys} {now : ℚ} {uid : String} {k : DeviceKey}
    (h : k ∈ d.keys now uid) : d.Usable now uid k := by
  unfold keys at h
  split at h
  · cases h
  · rename_i device hGet
    split at h
    · cases h
    · rename_i hRevoked
      refine ⟨device, hGet, by simpa using hRevoked, ?_⟩
      rcases List.mem_cons.mp h with h | h
      · exact Or.inl h
      · obtain ⟨hPrevious, hExpiry⟩ := Option.filter_eq_some_iff.mp (Option.mem_toList.mp h)
        refine Or.inr ⟨hPrevious, ?_⟩
        cases hAt : k.expiresAt with
        | none => simp [hAt] at hExpiry
        | some t => exact ⟨t, rfl, by simpa [hAt] using hExpiry⟩

end DeviceKeys

/-! ## Which key a packet was read with -/

/-- The datagram is encrypted, and opens under a key its node may use now. -/
structure Sealed (crypto : Crypto) (d : DeviceKeys) (now : ℚ) (buf : Buffer) (p : Packet) : Prop
    where
  version : buf[2]? = some 2
  opened : ∃ h k key payload, secureHeader buf = .ok h ∧ h.uid = p.uid ∧
    p.header.secureId = some h.keyId ∧ d.Usable now p.uid k ∧ k.id = h.keyId ∧
    deriveKey crypto k.master (subarray buf 4 10) h.keyId "uplink" h.epoch = .ok key ∧
    decryptPayload crypto buf key h = .ok payload ∧ parseBody h.type payload = .ok p.body

variable {crypto : Crypto} {verify : VerifyOptions} {now : ℚ} {buf : Buffer} {d : DeviceKeys}

theorem openSecure_sealed (hDevices : verify.devices = some d) {header : Header}
    {payload : Buffer} {body : Body} (hVersion : buf[2]? = some 2)
    (hOpen : openSecure crypto buf verify now = .ok (header, payload))
    (hBody : parseBody header.type payload = .ok body) :
    Sealed crypto d now buf ⟨header, body⟩ := by
  unfold openSecure at hOpen
  obtain ⟨h, hHeader, hOpen⟩ := bind_eq_ok.mp hOpen
  split at hOpen
  · cases hOpen
  · rename_i k hFind
    have hFind : d.find now h.uid h.keyId = some k := by simpa [hDevices] using hFind
    split at hOpen
    · cases hOpen
    · obtain ⟨key, hKey, hOpen⟩ := bind_eq_ok.mp hOpen
      obtain ⟨opened, hPayload, hOpen⟩ := bind_eq_ok.mp hOpen
      obtain ⟨rfl, rfl⟩ := Prod.ext_iff.mp (Except.ok.inj hOpen)
      exact ⟨hVersion, h, k, key, opened, hHeader, rfl, rfl,
        DeviceKeys.usable_of_mem (List.mem_of_find?_eq_some hFind),
        by simpa using List.find?_some hFind, hKey, hPayload, hBody⟩

theorem openPlain_legacy (hDevices : verify.devices = some d) {header : Header} {payload : Buffer}
    (hOpen : openPlain crypto buf verify = .ok (header, payload)) :
    d.allowsLegacy header.uid = true := by
  unfold openPlain at hOpen
  split at hOpen
  · cases hOpen
  split at hOpen
  · cases hOpen
  split at hOpen
  · cases hOpen
  split at hOpen
  · cases hOpen
  · rename_i hLegacy
    obtain ⟨_, _, hOpen⟩ := bind_eq_ok.mp hOpen
    split at hOpen
    · cases hOpen
    obtain ⟨_, _, hOpen⟩ := bind_eq_ok.mp hOpen
    obtain ⟨_, _, hOpen⟩ := bind_eq_ok.mp hOpen
    obtain ⟨_, _, hOpen⟩ := bind_eq_ok.mp hOpen
    obtain ⟨_, _, hOpen⟩ := bind_eq_ok.mp hOpen
    obtain ⟨rfl, -⟩ := Prod.ext_iff.mp (Except.ok.inj hOpen)
    simpa [hDevices] using hLegacy

/-- An accepted datagram is encrypted, or from a node listed as legacy. -/
theorem parsePacket_sealed (hDevices : verify.devices = some d) {p : Packet}
    (h : parsePacket crypto buf verify now = .ok p) :
    Sealed crypto d now buf p ∨ d.allowsLegacy p.uid = true := by
  obtain ⟨⟨header, payload⟩, hOpen, h⟩ := bind_eq_ok.mp h
  obtain ⟨body, hBody, h⟩ := bind_eq_ok.mp h
  obtain rfl := Except.ok.inj h
  unfold openPacket at hOpen
  split at hOpen
  · rename_i hVersion
    split at hOpen
    · cases hOpen
    · exact Or.inl (openSecure_sealed hDevices hVersion hOpen hBody)
  · exact Or.inr (openPlain_legacy hDevices hOpen)

end TMEdge.Protocol
