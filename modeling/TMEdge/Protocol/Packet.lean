import TMEdge.Library.Fallible
import TMEdge.Replay.Journal

/-!
# Uplink packets

`parsePacket` of `src/edge/protocol.ts` with the encrypted form of `src/edge/secure.ts`:
authenticate one datagram and decode it. HMAC, HKDF and AES-GCM are parameters
(`Crypto`). A read outside the buffer throws, as Node's `Buffer` methods do.

* `parsePacket_cursor`: the node, the boot counter and the sequence number of an accepted
  packet are read from fixed places of the datagram, so they depend on nothing else.
* `parsePacket_wf`: they are values the replay journal accepts.
* `parsePacket_inRange`: no datagram makes a read throw.
-/

namespace TMEdge.Protocol

open Library Replay

abbrev Buffer := List UInt8

inductive PacketError
  /-- `ProtocolError`, with its message. -/
  | protocol (reason : String)
  /-- `RangeError` of a read outside the buffer. -/
  | range
deriving DecidableEq

/-! ## Reading bytes -/

def leValue : Buffer → Nat
  | [] => 0
  | b :: bs => b.toNat + 256 * leValue bs

theorem leValue_lt (bs : Buffer) : leValue bs < 256 ^ bs.length := by
  induction bs with
  | nil => simp [leValue]
  | cons b bs ih =>
    have hb := b.toNat_lt
    simp only [leValue, List.length_cons, pow_succ]
    omega

def subarray (b : Buffer) (start stop : Nat) : Buffer := (b.drop start).take (stop - start)

/-- `readUInt16LE`, `readUInt32LE`: `n` bytes at `o`. -/
def readUIntLE (n : Nat) (b : Buffer) (o : Nat) : Except PacketError Nat :=
  if o + n ≤ b.length then .ok (leValue (subarray b o (o + n))) else .error .range

/-- `readInt8`, `readInt16LE`, `readInt32LE`. -/
def readIntLE (n : Nat) (b : Buffer) (o : Nat) : Except PacketError Int := do
  let v ← readUIntLE n b o
  return if v < 2 ^ (8 * n - 1) then v else (v : Int) - 2 ^ (8 * n)

theorem readUIntLE_lt {n : Nat} {b : Buffer} {o v : Nat} (h : readUIntLE n b o = .ok v) :
    v < 256 ^ n := by
  unfold readUIntLE at h
  split at h
  · rename_i hLen
    cases h
    have hLt := leValue_lt (subarray b o (o + n))
    have hLength : (subarray b o (o + n)).length = n := by
      simp only [subarray, List.length_take, List.length_drop]
      omega
    rwa [hLength] at hLt
  · cases h

/-- `b[i] ?? 0` -/
def byteAt (b : Buffer) (i : Nat) : Nat := (b.getD i 0).toNat

def hexDigit (n : Nat) : Char := if n < 10 then Char.ofNat (48 + n) else Char.ofNat (87 + n)

def hexByte (b : UInt8) : List Char := [hexDigit (b.toNat / 16), hexDigit (b.toNat % 16)]

/-- `toString('hex')` -/
def toHex (b : Buffer) : String := String.ofList (b.flatMap hexByte)

def uidToString (b : Buffer) : String := String.ofList (List.intercalate [':'] (b.map hexByte))

theorem isHex_hexDigit {n : Nat} (h : n < 16) : isHex (hexDigit n) = true := by
  interval_cases n <;> rfl

theorem isHex_hexByte (b : UInt8) :
    isHex (hexDigit (b.toNat / 16)) = true ∧ isHex (hexDigit (b.toNat % 16)) = true := by
  have hb := b.toNat_lt
  exact ⟨isHex_hexDigit (by omega), isHex_hexDigit (by omega)⟩

theorem isUid_uidToString {b : Buffer} (h : b.length = 6) : isUid (uidToString b) = true := by
  match b, h with
  | [b₀, b₁, b₂, b₃, b₄, b₅], _ =>
    have h₀ := isHex_hexByte b₀
    have h₁ := isHex_hexByte b₁
    have h₂ := isHex_hexByte b₂
    have h₃ := isHex_hexByte b₃
    have h₄ := isHex_hexByte b₄
    have h₅ := isHex_hexByte b₅
    simp [isUid, uidToString, hexByte, List.intercalate, uidTail, h₀, h₁, h₂, h₃, h₄, h₅]

/-! ## Device keys -/

structure DeviceKey where
  id : Nat
  master : Buffer
  expiresAt : Option ℚ
deriving DecidableEq

structure Device where
  current : DeviceKey
  previous : Option DeviceKey
  revoked : Bool

structure DeviceKeys where
  devices : JsMap String Device
  legacy : List String

namespace DeviceKeys

def allowsLegacy (d : DeviceKeys) (uid : String) : Bool := d.legacy.contains uid

def keys (d : DeviceKeys) (now : ℚ) (uid : String) : List DeviceKey :=
  match d.devices.get uid with
  | none => []
  | some e =>
    if e.revoked then []
    else e.current :: (e.previous.filter fun k => k.expiresAt.any fun t => decide (now < t)).toList

def find (d : DeviceKeys) (now : ℚ) (uid : String) (id : Nat) : Option DeviceKey :=
  (d.keys now uid).find? fun k => k.id == id

end DeviceKeys

/-! ## Cryptography -/

structure Crypto where
  hmacSha256 : (key data : Buffer) → Buffer
  hkdfSha256 : (master salt info : Buffer) → (length : Nat) → Buffer
  /-- `aes-256-gcm` decryption; `none` when `final()` throws. -/
  gcmOpen : (key nonce aad ciphertext tag : Buffer) → Option Buffer

structure VerifyOptions where
  keys : List Buffer
  allowUnsigned : Bool
  devices : Option DeviceKeys

section Parse

variable (crypto : Crypto) {buf p : Buffer} {h : Header} {now : ℚ} {verify : VerifyOptions}

def headerSize : Nat := 22
def tagSize : Nat := 8
def gridSize : Nat := 768
def maxDetections : Nat := 24
def secureHeaderSize : Nat := 42
def secureTagSize : Nat := 16
def secureMax : Nat := secureHeaderSize + 776 + secureTagSize

def tag (key data : Buffer) : Buffer := (crypto.hmacSha256 key data).take tagSize

structure SecureHeader where
  type : Nat
  uid : String
  boot : Nat
  seq : Nat
  uptimeMs : Nat
  keyId : Nat
  epoch : Buffer

def secureHeader (buf : Buffer) : Except PacketError SecureHeader :=
  if buf.length < secureHeaderSize + secureTagSize ∨ secureMax < buf.length ∨
      buf[0]? ≠ some 84 ∨ buf[1]? ≠ some 77 ∨ buf[2]? ≠ some 2 then
    .error (.protocol "invalid encrypted packet")
  else do
    let length ← readUIntLE 2 buf 22
    let keyId ← readUIntLE 2 buf 24
    if length + secureHeaderSize + secureTagSize ≠ buf.length ∨ keyId = 0 then
      .error (.protocol "encrypted length or key id")
    else do
      let boot ← readUIntLE 4 buf 10
      let seq ← readUIntLE 4 buf 14
      let uptimeMs ← readUIntLE 4 buf 18
      return ⟨byteAt buf 3, uidToString (subarray buf 4 10), boot, seq, uptimeMs, keyId,
        subarray buf 26 42⟩

/-- Little-endian bytes of a number, as `writeUInt16LE` and `writeUInt32LE` put them. -/
def leBytes : Nat → Nat → Buffer
  | 0, _ => []
  | n + 1, v => UInt8.ofNat v :: leBytes n (v / 256)

def nonce (boot seq : Nat) : Buffer := [0, 0, 0, 0] ++ leBytes 4 boot ++ leBytes 4 seq

/-- The text `tmsense2/<role>` and its terminating zero. -/
def roleLabel (role : String) : Buffer :=
  ("tmsense2/" ++ role).toList.map (fun c => UInt8.ofNat c.toNat) ++ [0]

def deriveKey (master uid : Buffer) (id : Nat) (role : String) (salt : Buffer) :
    Except PacketError Buffer :=
  if master.length ≠ 32 || id < 1 || 65535 < id then .error (.protocol "invalid device key")
  else .ok (crypto.hkdfSha256 master salt (roleLabel role ++ uid ++ leBytes 2 id) 32)

def decryptPayload (buf key : Buffer) (h : SecureHeader) : Except PacketError Buffer :=
  let body := buf.length - secureTagSize
  match crypto.gcmOpen key (nonce h.boot h.seq) (subarray buf 0 secureHeaderSize)
      (subarray buf secureHeaderSize body) (buf.drop body) with
  | some payload => .ok payload
  | none => .error (.protocol "encrypted authentication failed")

/-! ## Packets -/

structure Header where
  type : Nat
  uid : String
  boot : Nat
  seq : Nat
  uptimeMs : Nat
  signed : Bool
  secureId : Option Nat
deriving DecidableEq

structure Detection where
  x : ℚ
  y : ℚ
  area : Nat
  contrast : ℚ
  peak : ℚ
  heat : ℚ
deriving DecidableEq

inductive ParamName
  | minContrast | minPeak | noiseK | minArea | maxArea
  | bgTau | bgFrames | rawEvery | refresh | splitSep
deriving DecidableEq

/-- `PARAM_NAMES`, in the order of the wire. -/
def paramNames : List ParamName :=
  [.minContrast, .minPeak, .noiseK, .minArea, .maxArea, .bgTau, .bgFrames, .rawEvery, .refresh,
    .splitSep]

inductive OtaState
  | idle | downloading | verifying | applying | rebooting | confirmed | failed | reverted
deriving DecidableEq

def otaStates : List OtaState :=
  [.idle, .downloading, .verifying, .applying, .rebooting, .confirmed, .failed, .reverted]

inductive OtaError
  | none | http | size | sha | flash | noWifi | busy
deriving DecidableEq

def otaErrors : List OtaError := [.none, .http, .size, .sha, .flash, .noWifi, .busy]

structure Report where
  frame : Nat
  ta : ℚ
  sceneMin : ℚ
  sceneMax : ℚ
  bgMean : ℚ
  flags : Nat
  detections : List Detection
deriving DecidableEq

structure Raw where
  frame : Nat
  tMin : ℚ
  step : ℚ
  pixels : Buffer
deriving DecidableEq

structure Status where
  fw : String
  ip : String
  rssi : Int
  channel : Nat
  freeHeap : Nat
  minHeap : Nat
  stackFree : Nat
  wifiDrops : Nat
  sensorErrors : Nat
  frames : Nat
  fps : ℚ
  vdd : ℚ
  ta : ℚ
  lastCmd : Nat
  flags : Nat
  params : List (ParamName × Int)
deriving DecidableEq

structure OtaStatus where
  state : OtaState
  percent : Nat
  error : OtaError
  image : String
deriving DecidableEq

inductive Body
  | report (r : Report)
  | raw (r : Raw)
  | status (s : Status)
  | ota (o : OtaStatus)
deriving DecidableEq

structure Packet where
  header : Header
  body : Body
deriving DecidableEq

namespace Packet

def uid (p : Packet) : String := p.header.uid

def cursor (p : Packet) : Cursor := ⟨p.header.boot, p.header.seq⟩

/-- `packet.kind === 'status' ? packet.lastCmd : undefined` -/
def lastCmd (p : Packet) : Option Nat :=
  match p.body with
  | .status s => some s.lastCmd
  | _ => none

end Packet

/-! ## `parsePacket` -/

def parseDetection (p : Buffer) (i : Nat) : Except PacketError Detection := do
  let o := 14 + 7 * i
  let heat ← readUIntLE 2 p (o + 5)
  return ⟨byteAt p o / 8, byteAt p (o + 1) / 8, byteAt p (o + 2), byteAt p (o + 3) * (1 / 20),
    byteAt p (o + 4) * (1 / 4), heat / 10⟩

def parseReport (p : Buffer) : Except PacketError Report :=
  if p.length < 14 then .error (.protocol "short report")
  else if maxDetections < byteAt p 13 ∨ p.length ≠ 14 + 7 * byteAt p 13 then
    .error (.protocol "report length")
  else do
  let detections ← (List.range (byteAt p 13)).mapM (parseDetection p)
  return ⟨← readUIntLE 4 p 0, (← readIntLE 2 p 4) / 100, (← readIntLE 2 p 6) / 100,
    (← readIntLE 2 p 8) / 100, (← readIntLE 2 p 10) / 100, byteAt p 12, detections⟩

def parseRaw (p : Buffer) : Except PacketError Raw :=
  if p.length ≠ 8 + gridSize then .error (.protocol "raw length")
  else do
  return ⟨← readUIntLE 4 p 0, (← readIntLE 2 p 4) / 100, (← readUIntLE 2 p 6) / 10000, p.drop 8⟩

/-- `toString('latin1').replace(/\0+$/, '')` -/
def latin1 (b : Buffer) : String :=
  String.ofList ((b.map fun c => Char.ofNat c.toNat).rdropWhile (· == Char.ofNat 0))

def dotted (b : Buffer) : String := ".".intercalate (b.map fun c => toString c.toNat)

def parseStatus (p : Buffer) : Except PacketError Status :=
  if p.length < 48 then .error (.protocol "short status")
  else if p.length ≠ 48 + 4 * byteAt p 47 then .error (.protocol "status length")
  else do
  let params ← (paramNames.take (byteAt p 47)).zipIdx.mapM fun e => do
    return (e.1, ← readIntLE 4 p (48 + 4 * e.2))
  let lastCmd ← readUIntLE 4 p 42
  return {
    fw := latin1 (subarray p 0 12)
    ip := dotted (subarray p 12 16)
    rssi := ← readIntLE 1 p 16
    channel := byteAt p 17
    freeHeap := ← readUIntLE 4 p 18
    minHeap := ← readUIntLE 4 p 22
    stackFree := ← readUIntLE 2 p 26
    wifiDrops := ← readUIntLE 2 p 28
    sensorErrors := ← readUIntLE 2 p 30
    frames := ← readUIntLE 4 p 32
    fps := (← readUIntLE 2 p 36) / 100
    vdd := (← readUIntLE 2 p 38) / 100
    ta := (← readIntLE 2 p 40) / 100
    lastCmd := lastCmd
    flags := byteAt p 46
    params := params }

def parseOtaStatus (p : Buffer) : Except PacketError OtaStatus :=
  if p.length ≠ 8 then .error (.protocol "ota status length")
  else .ok ⟨otaStates.getD (byteAt p 0) .idle, byteAt p 1, otaErrors.getD (byteAt p 2) .none,
    toHex (subarray p 4 8)⟩

def parseBody (type : Nat) (p : Buffer) : Except PacketError Body :=
  match type with
  | 0x01 => Body.report <$> parseReport p
  | 0x02 => Body.raw <$> parseRaw p
  | 0x03 => Body.status <$> parseStatus p
  | 0x04 => Body.ota <$> parseOtaStatus p
  | _ => .error (.protocol s!"unexpected packet type {type}")

/-- The encrypted form: the header is the authenticated one. -/
def openSecure (buf : Buffer) (verify : VerifyOptions) (now : ℚ) :
    Except PacketError (Header × Buffer) := do
  let h ← secureHeader buf
  match verify.devices.bind fun d => d.find now h.uid h.keyId with
  | none => .error (.protocol "encrypted device key unavailable")
  | some device =>
    if h.type ∉ [0x01, 0x02, 0x03, 0x04] then
      .error (.protocol "unexpected encrypted uplink type")
    else do
      let key ← deriveKey crypto device.master (subarray buf 4 10) h.keyId "uplink" h.epoch
      let p ← decryptPayload crypto buf key h
      return (⟨h.type, h.uid, h.boot, h.seq, h.uptimeMs, true, some h.keyId⟩, p)

/-- The signature of a plain datagram: whether it has one, when it is acceptable. -/
def checkSignature (signedPart got : Buffer) (verify : VerifyOptions) : Except PacketError Bool :=
  if got.any (· != 0) then
    if verify.keys.any fun k => tag crypto k signedPart == got then .ok true
    else .error (.protocol "bad signature")
  else if verify.allowUnsigned then .ok false
  else .error (.protocol "unsigned")

/-- The plain form, signed with one of the accepted keys. -/
def openPlain (buf : Buffer) (verify : VerifyOptions) : Except PacketError (Header × Buffer) :=
  if buf.length < headerSize + tagSize then .error (.protocol "short datagram")
  else if buf[0]? ≠ some 84 ∨ buf[1]? ≠ some 77 then .error (.protocol "bad magic")
  else if buf[2]? ≠ some 1 then .error (.protocol s!"unsupported version {byteAt buf 2}")
  else if verify.devices.any fun d => !d.allowsLegacy (uidToString (subarray buf 4 10)) then
    .error (.protocol "plaintext device traffic refused")
  else do
    let payloadLen ← readUIntLE 2 buf 20
    if buf.length ≠ headerSize + payloadLen + tagSize then .error (.protocol "length mismatch")
    else do
      let signed ← checkSignature crypto (subarray buf 0 (headerSize + payloadLen))
        (buf.drop (headerSize + payloadLen)) verify
      let boot ← readUIntLE 2 buf 10
      let seq ← readUIntLE 4 buf 12
      let uptimeMs ← readUIntLE 4 buf 16
      return (⟨byteAt buf 3, uidToString (subarray buf 4 10), boot, seq, uptimeMs, signed, none⟩,
        subarray buf headerSize (headerSize + payloadLen))

/-- The authenticated header and payload of a datagram. -/
def openPacket (buf : Buffer) (verify : VerifyOptions) (now : ℚ) :
    Except PacketError (Header × Buffer) :=
  if buf[2]? = some 2 then
    match openSecure crypto buf verify now with
    | .error .range => .error (.protocol "invalid encrypted packet")
    | r => r
  else openPlain crypto buf verify

def parsePacket (buf : Buffer) (verify : VerifyOptions) (now : ℚ) :
    Except PacketError Packet := do
  let opened ← openPacket crypto buf verify now
  let body ← parseBody opened.1.type opened.2
  return ⟨opened.1, body⟩

/-! ## What an accepted packet says about its datagram -/

/-- Where the two wire forms keep the boot counter and the sequence number. -/
def datagramCursor (buf : Buffer) : Cursor :=
  if buf[2]? = some 2 then ⟨leValue (subarray buf 10 14), leValue (subarray buf 14 18)⟩
  else ⟨leValue (subarray buf 10 12), leValue (subarray buf 12 16)⟩

def datagramUid (buf : Buffer) : String := uidToString (subarray buf 4 10)

theorem readUIntLE_eq {n : Nat} {b : Buffer} {o v : Nat} (h : readUIntLE n b o = .ok v) :
    v = leValue (subarray b o (o + n)) ∧ o + n ≤ b.length := by
  unfold readUIntLE at h
  split at h
  · rename_i hLen
    cases h
    exact ⟨rfl, hLen⟩
  · cases h

theorem secureHeader_ok {h : SecureHeader} (hh : secureHeader buf = .ok h) :
    h.uid = datagramUid buf ∧ readUIntLE 4 buf 10 = .ok h.boot ∧
      readUIntLE 4 buf 14 = .ok h.seq := by
  unfold secureHeader at hh
  split at hh
  · cases hh
  · obtain ⟨_, _, hh⟩ := bind_eq_ok.mp hh
    obtain ⟨_, _, hh⟩ := bind_eq_ok.mp hh
    split at hh
    · cases hh
    · obtain ⟨_, hBoot, hh⟩ := bind_eq_ok.mp hh
      obtain ⟨_, hSeq, hh⟩ := bind_eq_ok.mp hh
      obtain ⟨_, _, hh⟩ := bind_eq_ok.mp hh
      cases hh
      exact ⟨rfl, hBoot, hSeq⟩

variable {crypto}

theorem openSecure_ok (hOpen : openSecure crypto buf verify now = .ok (h, p)) :
    h.uid = datagramUid buf ∧ readUIntLE 4 buf 10 = .ok h.boot ∧
      readUIntLE 4 buf 14 = .ok h.seq := by
  unfold openSecure at hOpen
  obtain ⟨sh, hHeader, hOpen⟩ := bind_eq_ok.mp hOpen
  split at hOpen
  · cases hOpen
  · split at hOpen
    · cases hOpen
    · obtain ⟨_, _, hOpen⟩ := bind_eq_ok.mp hOpen
      obtain ⟨_, _, hOpen⟩ := bind_eq_ok.mp hOpen
      cases hOpen
      exact secureHeader_ok hHeader

theorem openPlain_ok (hOpen : openPlain crypto buf verify = .ok (h, p)) :
    h.uid = datagramUid buf ∧ readUIntLE 2 buf 10 = .ok h.boot ∧
      readUIntLE 4 buf 12 = .ok h.seq := by
  unfold openPlain at hOpen
  split at hOpen
  · cases hOpen
  split at hOpen
  · cases hOpen
  split at hOpen
  · cases hOpen
  split at hOpen
  · cases hOpen
  obtain ⟨_, _, hOpen⟩ := bind_eq_ok.mp hOpen
  split at hOpen
  · cases hOpen
  obtain ⟨_, _, hOpen⟩ := bind_eq_ok.mp hOpen
  obtain ⟨_, hBoot, hOpen⟩ := bind_eq_ok.mp hOpen
  obtain ⟨_, hSeq, hOpen⟩ := bind_eq_ok.mp hOpen
  obtain ⟨_, _, hOpen⟩ := bind_eq_ok.mp hOpen
  cases hOpen
  exact ⟨rfl, hBoot, hSeq⟩

/-- The three fields of an opened header, and where they come from. -/
theorem openPacket_ok (hOpen : openPacket crypto buf verify now = .ok (h, p)) :
    h.uid = datagramUid buf ∧ (⟨h.boot, h.seq⟩ : Cursor) = datagramCursor buf ∧
      h.boot ≤ u32Max ∧ h.seq ≤ u32Max ∧ 10 ≤ buf.length := by
  unfold openPacket at hOpen
  unfold datagramCursor
  split at hOpen
  · rename_i hSecure
    have hOpen' : openSecure crypto buf verify now = .ok (h, p) := by
      split at hOpen
      · cases hOpen
      · exact hOpen
    obtain ⟨hUid, hBoot, hSeq⟩ := openSecure_ok hOpen'
    have hBootLt := readUIntLE_lt hBoot
    have hSeqLt := readUIntLE_lt hSeq
    have hBytes := readUIntLE_eq hBoot
    rw [if_pos hSecure, ← hBytes.1, ← (readUIntLE_eq hSeq).1]
    unfold u32Max
    exact ⟨hUid, rfl, by omega, by omega, by omega⟩
  · rename_i hPlain
    obtain ⟨hUid, hBoot, hSeq⟩ := openPlain_ok hOpen
    have hBootLt := readUIntLE_lt hBoot
    have hSeqLt := readUIntLE_lt hSeq
    have hBytes := readUIntLE_eq hBoot
    rw [if_neg hPlain, ← hBytes.1, ← (readUIntLE_eq hSeq).1]
    unfold u32Max
    exact ⟨hUid, rfl, by omega, by omega, by omega⟩

/-- The node and the cursor of an accepted packet are read from the datagram. -/
theorem parsePacket_cursor {p : Packet} (h : parsePacket crypto buf verify now = .ok p) :
    p.uid = datagramUid buf ∧ p.cursor = datagramCursor buf := by
  obtain ⟨opened, hOpen, h⟩ := bind_eq_ok.mp h
  obtain ⟨_, _, h⟩ := bind_eq_ok.mp h
  cases h
  obtain ⟨hUid, hCursor, _⟩ := openPacket_ok hOpen
  exact ⟨hUid, hCursor⟩

theorem parseStatus_lastCmd {s : Status} (h : parseStatus p = .ok s) : s.lastCmd ≤ u32Max := by
  unfold parseStatus at h
  split at h
  · cases h
  split at h
  · cases h
  obtain ⟨_, _, h⟩ := bind_eq_ok.mp h
  obtain ⟨lastCmd, hLast, h⟩ := bind_eq_ok.mp h
  have hLt := readUIntLE_lt hLast
  -- The ten reads that follow do not touch it.
  iterate 10 obtain ⟨_, _, h⟩ := bind_eq_ok.mp h
  cases h
  unfold u32Max
  change lastCmd ≤ _
  omega

/-- What the replay journal checks holds of every accepted packet. -/
structure Packet.Wf (p : Packet) : Prop where
  uid : isUid p.uid = true
  boot : p.cursor.boot ≤ u32Max
  seq : p.cursor.seq ≤ u32Max
  lastCmd : ∀ n, p.lastCmd = some n → n ≤ u32Max

theorem parsePacket_wf {p : Packet} (h : parsePacket crypto buf verify now = .ok p) : p.Wf := by
  obtain ⟨opened, hOpen, h⟩ := bind_eq_ok.mp h
  obtain ⟨body, hBody, h⟩ := bind_eq_ok.mp h
  cases h
  obtain ⟨hUid, _, hBoot, hSeq, hLength⟩ := openPacket_ok hOpen
  refine ⟨?_, hBoot, hSeq, ?_⟩
  · change isUid opened.1.uid = true
    rw [hUid]
    refine isUid_uidToString ?_
    simp only [subarray, List.length_take, List.length_drop]
    omega
  · intro n hn
    unfold Packet.lastCmd at hn
    split at hn
    · rename_i s hs
      cases hn
      change body = Body.status s at hs
      subst hs
      unfold parseBody at hBody
      split at hBody
      · cases hr : parseReport opened.2 <;> simp [hr, Functor.map, Except.map] at hBody
      · cases hr : parseRaw opened.2 <;> simp [hr, Functor.map, Except.map] at hBody
      · cases hr : parseStatus opened.2 with
        | error e => simp [hr, Functor.map, Except.map] at hBody
        | ok t =>
          simp only [hr, Functor.map, Except.map, Except.ok.injEq, Body.status.injEq] at hBody
          exact hBody ▸ parseStatus_lastCmd hr
      · cases hr : parseOtaStatus opened.2 <;> simp [hr, Functor.map, Except.map] at hBody
      · cases hBody
    · cases hn

end Parse

/-! ## No read is behind the end of a buffer -/

/-- The result is not a `RangeError`. -/
def InRange {α : Type} (r : Except PacketError α) : Prop := r ≠ .error .range

section inRange

open List

variable {α β : Type} {x : Except PacketError α} {n o : Nat} {b : Buffer}

theorem InRange.bind {f : α → Except PacketError β} (h : InRange x) (hf : ∀ a, InRange (f a)) :
    InRange (x >>= f) := by
  cases x with
  | error e => exact fun hBad => h (congrArg Except.error (Except.error.inj hBad))
  | ok a => exact hf a

theorem InRange.map (h : InRange x) (f : α → β) : InRange (f <$> x) := by
  cases x with
  | error e => exact fun hBad => h (congrArg Except.error (Except.error.inj hBad))
  | ok a => rintro ⟨⟩

theorem inRange_protocol (message : String) :
    InRange (.error (.protocol message) : Except PacketError α) := by
  rintro ⟨⟩

theorem inRange_ok (a : α) : InRange (.ok a) := by
  rintro ⟨⟩

theorem inRange_readUInt (h : o + n ≤ b.length) : InRange (readUIntLE n b o) := by
  rw [readUIntLE, if_pos h]
  exact inRange_ok _

theorem inRange_readInt (h : o + n ≤ b.length) : InRange (readIntLE n b o) :=
  (inRange_readUInt h).bind fun _ => inRange_ok _

theorem inRange_mapM {f : α → Except PacketError β} {l : List α} (h : ∀ a ∈ l, InRange (f a)) :
    InRange (l.mapM f) := by
  induction l with
  | nil => exact inRange_ok _
  | cons a l ih =>
    rw [mapM_cons]
    exact (h a mem_cons_self).bind fun _ =>
      (ih fun a ha => h a (mem_cons_of_mem _ ha)).bind fun _ => inRange_ok _

theorem inRange_parseReport (p : Buffer) : InRange (parseReport p) := by
  unfold parseReport
  split
  · exact inRange_protocol _
  split
  · exact inRange_protocol _
  rename_i hShort hLength
  rw [not_or, not_not] at hLength
  refine (inRange_mapM fun i hi => ?_).bind fun _ => ?_
  · rw [mem_range] at hi
    exact (inRange_readUInt (by omega)).bind fun _ => inRange_ok _
  · refine (inRange_readUInt (by omega)).bind fun _ => ?_
    iterate 4 refine (inRange_readInt (by omega)).bind fun _ => ?_
    exact inRange_ok _

theorem inRange_parseRaw (p : Buffer) : InRange (parseRaw p) := by
  unfold parseRaw gridSize
  split
  · exact inRange_protocol _
  rename_i hLength
  exact (inRange_readUInt (by omega)).bind fun _ => (inRange_readInt (by omega)).bind fun _ =>
    (inRange_readUInt (by omega)).bind fun _ => inRange_ok _

theorem inRange_parseStatus (p : Buffer) : InRange (parseStatus p) := by
  unfold parseStatus
  split
  · exact inRange_protocol _
  split
  · exact inRange_protocol _
  rename_i hShort hLength
  refine (inRange_mapM fun e he => ?_).bind fun _ => ?_
  · have hIndex := (mem_zipIdx he).2.1
    rw [length_take] at hIndex
    exact (inRange_readInt (by omega)).bind fun _ => inRange_ok _
  · refine (inRange_readUInt (by omega)).bind fun _ => (inRange_readInt (by omega)).bind fun _ => ?_
    iterate 8 refine (inRange_readUInt (by omega)).bind fun _ => ?_
    exact (inRange_readInt (by omega)).bind fun _ => inRange_ok _

theorem inRange_parseBody (type : Nat) (p : Buffer) : InRange (parseBody type p) := by
  unfold parseBody
  split
  · exact (inRange_parseReport p).map _
  · exact (inRange_parseRaw p).map _
  · exact (inRange_parseStatus p).map _
  · unfold parseOtaStatus
    split
    · exact (inRange_protocol _).map _
    · exact (inRange_ok _).map _
  · exact inRange_protocol _

theorem inRange_openPlain : InRange (openPlain crypto buf verify) := by
  unfold openPlain headerSize tagSize
  split
  · exact inRange_protocol _
  rename_i hShort
  iterate 3
    split
    · exact inRange_protocol _
  refine (inRange_readUInt (by omega)).bind fun _ => ?_
  split
  · exact inRange_protocol _
  refine InRange.bind ?_ fun _ => ?_
  · unfold checkSignature
    split
    · split
      · exact inRange_ok _
      · exact inRange_protocol _
    · split
      · exact inRange_ok _
      · exact inRange_protocol _
  · iterate 3 refine (inRange_readUInt (by omega)).bind fun _ => ?_
    exact inRange_ok _

theorem inRange_secureHeader : InRange (secureHeader buf) := by
  unfold secureHeader secureHeaderSize secureTagSize
  split
  · exact inRange_protocol _
  rename_i hSize
  have hLong : 58 ≤ buf.length := not_lt.mp fun h => hSize (.inl h)
  iterate 2 refine (inRange_readUInt (by omega)).bind fun _ => ?_
  split
  · exact inRange_protocol _
  · iterate 3 refine (inRange_readUInt (by omega)).bind fun _ => ?_
    exact inRange_ok _

end inRange

/-- Whatever a datagram holds, a packet is accepted or refused by name: no read of it, of its
encrypted header or of its payload is behind the end. -/
theorem parsePacket_inRange (crypto : Crypto) (buf : Buffer) (verify : VerifyOptions) (now : ℚ) :
    parsePacket crypto buf verify now ≠ .error .range ∧
      openSecure crypto buf verify now ≠ .error .range ∧
      ∀ type p, parseBody type p ≠ .error .range := by
  have hSecure : InRange (openSecure crypto buf verify now) := by
    refine inRange_secureHeader.bind fun h => ?_
    split
    · exact inRange_protocol _
    split
    · exact inRange_protocol _
    refine InRange.bind ?_ fun key => InRange.bind ?_ fun p => inRange_ok _
    · unfold deriveKey
      split
      · exact inRange_protocol _
      · exact inRange_ok _
    · unfold decryptPayload
      dsimp only
      split
      · exact inRange_ok _
      · exact inRange_protocol _
  have hOpen : InRange (openPacket crypto buf verify now) := by
    unfold openPacket
    split
    · split
      · exact inRange_protocol _
      · exact hSecure
    · exact inRange_openPlain
  exact ⟨hOpen.bind fun _ => (inRange_parseBody _ _).bind fun _ => inRange_ok _, hSecure,
    inRange_parseBody⟩

end TMEdge.Protocol
