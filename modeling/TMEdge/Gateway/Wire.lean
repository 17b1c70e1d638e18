import TMEdge.Protocol.DeviceKeys
import TMEdge.Protocol.Bytes

/-!
# Frames of the gateway link

`frame`, `FrameReader`, `addressed` and `parseAddressed` of `src/edge/gwlink.ts`: how a
stream of bytes carries frames, and how a frame names a node.

* `pushAll_flatten`: a stream gives the same frames, and fails at the same byte, however it
  is cut into chunks.
* `push_frames`: the frames written are the frames read.
* `parseAddressed_addressed`: the address, the port and the datagram come back.
-/

namespace TMEdge.Gateway

open Protocol List
open Library (bind_eq_ok)

/-! ## `frame` -/

def maxFrame : Nat := 64 * 1024

def frame (type : Int) (payload : Buffer) : Except String Buffer :=
  if type < 0 ∨ 255 < type ∨ maxFrame < payload.length + 1 then .error "bad frame"
  else .ok (leBytes 4 (payload.length + 1) ++ UInt8.ofNat type.toNat :: payload)

/-! ## `FrameReader` -/

/-- `body` and `bodyBytes`: the bytes of the body so far. -/
structure FrameBody where
  length : Nat
  bytes : Buffer
  unfilled : bytes.length < length
deriving DecidableEq

/-- `header` holds the bytes up to `headerBytes`; those behind are never read. -/
structure FrameReader where
  header : Buffer
  body : Option FrameBody
deriving DecidableEq

/-- What a call of `push` does: the frames handed out, the reader after it, and, if it
throws, the error and the number of bytes read before it. -/
structure Pushed where
  frames : List (UInt8 × Buffer)
  reader : FrameReader
  error : Option (String × Nat)
deriving DecidableEq

namespace Pushed

/-- `n` more bytes were read before. -/
def after (n : Nat) (p : Pushed) : Pushed :=
  { p with error := p.error.map fun e => (e.1, n + e.2) }

def withFrame (f : UInt8 × Buffer) (p : Pushed) : Pushed := { p with frames := f :: p.frames }

end Pushed

namespace FrameReader

def new : FrameReader := ⟨[], none⟩

/-- How a loop pass begins. `body` says how many bytes the header took. -/
inductive HeaderRead
  | short (header : Buffer)
  | bad (header : Buffer) (length : Nat) (read : Nat)
  | body (header : Buffer) (body : FrameBody) (read : Nat)

/-- The length in a full header. -/
def allocate (header : Buffer) (read : Nat) : HeaderRead :=
  if h : leValue header < 1 ∨ maxFrame < leValue header then .bad header (leValue header) read
  else .body header ⟨leValue header, [], by simp only [List.length_nil]; omega⟩ read

def readHeader (r : FrameReader) (chunk : Buffer) : HeaderRead :=
  match r.body with
  | some b => .body r.header b 0
  | none =>
    let n := min (4 - r.header.length) chunk.length
    let header := r.header ++ chunk.take n
    if header.length < 4 then .short header else allocate header n

/-- `onFrame(complete[0] ?? 0, complete.subarray(1))` -/
def complete (body : Buffer) : UInt8 × Buffer := (body.getD 0 0, body.drop 1)

/-- One pass of the loop in each call. -/
def push (r : FrameReader) (chunk : Buffer) : Pushed :=
  if chunk = [] then ⟨[], r, none⟩
  else
    match r.readHeader chunk with
    | .short header => ⟨[], ⟨header, none⟩, none⟩
    | .bad header length read =>
      ⟨[], ⟨header, none⟩, some ("bad frame length " ++ toString length, read)⟩
    | .body header b read =>
      let rest := chunk.drop read
      let n := min (b.length - b.bytes.length) rest.length
      if h : b.bytes.length + n < b.length then
        ⟨[], ⟨header, some ⟨b.length, b.bytes ++ rest.take n, by
          simp only [List.length_append, List.length_take]
          omega⟩⟩, none⟩
      else
        ((push new (rest.drop n)).after (read + n)).withFrame (complete (b.bytes ++ rest.take n))
termination_by chunk.length
decreasing_by
  have hUnfilled := b.unfilled
  have hFull : ¬ b.bytes.length + min (b.length - b.bytes.length) (chunk.drop read).length <
      b.length := h
  simp only [List.length_drop] at hFull ⊢
  omega

/-- The chunks of a stream, until one throws. -/
def pushAll : FrameReader → List Buffer → Pushed
  | r, [] => ⟨[], r, none⟩
  | r, chunk :: chunks =>
    let p := r.push chunk
    match p.error with
    | some _ => p
    | none =>
      let q := (p.reader.pushAll chunks).after chunk.length
      { q with frames := p.frames ++ q.frames }

end FrameReader

/-! ## Cutting a stream -/

namespace Pushed

/-- What follows a call that has read a whole chunk. -/
def andThen (p : Pushed) (n : Nat) (next : FrameReader → Pushed) : Pushed :=
  match p.error with
  | some _ => p
  | none => { (next p.reader).after n with frames := p.frames ++ (next p.reader).frames }

theorem andThen_withFrame (f : UInt8 × Buffer) (p : Pushed) (n : Nat)
    (next : FrameReader → Pushed) :
    (p.withFrame f).andThen n next = (p.andThen n next).withFrame f := by
  rcases p with ⟨frames, reader, _ | e⟩ <;> simp [andThen, withFrame, after]

theorem andThen_after (p : Pushed) (m n : Nat) (next : FrameReader → Pushed) :
    (p.after m).andThen (m + n) next = (p.andThen n next).after m := by
  rcases p with ⟨frames, reader, _ | e⟩
  · simp only [andThen, after, Option.map_none, Option.map_map]
    congr 1
    cases (next reader).error <;> simp [Nat.add_assoc]
  · simp [andThen, after]

end Pushed

namespace FrameReader

variable {r : FrameReader} {a b header : Buffer} {bd : FrameBody} {n len : Nat}

@[simp] theorem push_nil (r : FrameReader) : r.push [] = ⟨[], r, none⟩ := by
  rw [push, if_pos rfl]

theorem readHeader_short (hBody : r.body = none) (h : r.header.length + a.length < 4) :
    r.readHeader a = .short (r.header ++ a) := by
  have hMin : min (4 - r.header.length) a.length = a.length := by omega
  simp only [readHeader, hBody, hMin, take_length]
  rw [if_pos (by simpa using h)]

theorem readHeader_full (hBody : r.body = none) (h : 4 ≤ r.header.length + a.length) :
    r.readHeader a =
      allocate (r.header ++ a.take (4 - r.header.length)) (4 - r.header.length) := by
  have hMin : min (4 - r.header.length) a.length = 4 - r.header.length := by omega
  simp only [readHeader, hBody, hMin]
  rw [if_neg (by simp only [length_append, length_take]; omega)]

theorem push_short (hBody : r.body = none) (h : r.header.length + a.length < 4) :
    r.push a = ⟨[], ⟨r.header ++ a, none⟩, none⟩ := by
  rcases a with _ | ⟨c, a⟩
  · rcases r with ⟨header, body⟩
    simp only [push_nil, append_nil]
    rw [show body = none from hBody]
  · rw [push, if_neg (by simp), readHeader_short hBody h]

theorem push_bad (hBody : r.body = none) (h : 4 ≤ r.header.length + a.length) (hNil : a ≠ [])
    (hBad : allocate (r.header ++ a.take (4 - r.header.length)) (4 - r.header.length) =
      .bad header len n) :
    r.push a = ⟨[], ⟨header, none⟩, some ("bad frame length " ++ toString len, n)⟩ := by
  rw [push, if_neg hNil, readHeader_full hBody h, hBad]

theorem push_unfilled (hBody : r.body = some bd) (h : bd.bytes.length + a.length < bd.length) :
    r.push a = ⟨[], ⟨r.header, some ⟨bd.length, bd.bytes ++ a, by simpa using h⟩⟩, none⟩ := by
  by_cases hNil : a = []
  · subst hNil
    rcases r with ⟨header, body⟩
    simp only [push_nil, append_nil]
    rw [show body = some bd from hBody]
  · have hMin : min (bd.length - bd.bytes.length) a.length = a.length := by omega
    rw [push, if_neg hNil]
    simp only [readHeader, hBody, drop_zero, hMin, take_length]
    rw [dif_pos h]

theorem push_filled (hBody : r.body = some bd) (h : bd.length ≤ bd.bytes.length + a.length) :
    r.push a = ((push new (a.drop (bd.length - bd.bytes.length))).after
      (bd.length - bd.bytes.length)).withFrame
        (complete (bd.bytes ++ a.take (bd.length - bd.bytes.length))) := by
  have hUnfilled := bd.unfilled
  have hNil : a ≠ [] := by
    rintro rfl
    simp only [length_nil] at h
    omega
  have hMin : min (bd.length - bd.bytes.length) a.length = bd.length - bd.bytes.length := by
    omega
  rw [push, if_neg hNil]
  simp only [readHeader, hBody, drop_zero, hMin, Nat.zero_add]
  rw [dif_neg (by omega)]

theorem push_allocated (hBody : r.body = none) (h : 4 ≤ r.header.length + a.length)
    (hNil : a ≠ [])
    (hNew : allocate (r.header ++ a.take (4 - r.header.length)) (4 - r.header.length) =
      .body header bd n) :
    r.push a = (push ⟨header, some bd⟩ (a.drop n)).after n := by
  rw [push, if_neg hNil, readHeader_full hBody h, hNew]
  dsimp only
  split
  · rename_i hRoom
    have hMin : min (bd.length - bd.bytes.length) (a.drop n).length = (a.drop n).length := by
      omega
    rw [push_unfilled rfl (by omega)]
    simp only [hMin, take_length]
    rfl
  · rename_i hRoom
    have hMin : min (bd.length - bd.bytes.length) (a.drop n).length =
        bd.length - bd.bytes.length := by omega
    rw [push_filled (r := ⟨header, some bd⟩) rfl (by omega)]
    simp only [hMin]
    simp [Pushed.withFrame, Pushed.after, Nat.add_assoc, Function.comp_def]

/-- A reader inside a body, given that it goes on well from the next header. -/
theorem push_append_body (hBody : r.body = some bd)
    (ih : ∀ a' : Buffer, a'.length < a.length →
      push new (a' ++ b) = (push new a').andThen a'.length (push · b)) :
    r.push (a ++ b) = (r.push a).andThen a.length (push · b) := by
  have hUnfilled := bd.unfilled
  by_cases hRoom : bd.bytes.length + a.length < bd.length
  · rw [push_unfilled hBody hRoom]
    simp only [Pushed.andThen, nil_append]
    by_cases hMore : bd.bytes.length + (a ++ b).length < bd.length
    · have hMore' : (bd.bytes ++ a).length + b.length < bd.length := by
        simp only [length_append] at hMore ⊢
        omega
      rw [push_unfilled hBody hMore, push_unfilled rfl hMore']
      simp [Pushed.after]
    · have hLe : bd.length ≤ (bd.bytes ++ a).length + b.length := by
        simp only [length_append] at hMore ⊢
        omega
      rw [push_filled hBody (by omega),
        push_filled (r := ⟨r.header, some ⟨bd.length, bd.bytes ++ a, _⟩⟩) rfl hLe]
      have hTake : (a ++ b).take (bd.length - bd.bytes.length) =
          a ++ b.take (bd.length - (bd.bytes ++ a).length) := by
        rw [take_append, take_of_length_le (by omega), length_append]
        congr 2
        omega
      have hDrop : (a ++ b).drop (bd.length - bd.bytes.length) =
          b.drop (bd.length - (bd.bytes ++ a).length) := by
        rw [drop_append, drop_of_length_le (by omega), length_append,
          nil_append]
        congr 1
        omega
      have hSum : bd.length - bd.bytes.length =
          a.length + (bd.length - (bd.bytes ++ a).length) := by
        simp only [length_append]
        omega
      rw [hTake, hDrop]
      simp only [Pushed.withFrame, Pushed.after, Option.map_map, append_assoc]
      congr 2
      funext e
      simp only [Function.comp, hSum, Nat.add_assoc]
  · have hDrop : (a ++ b).drop (bd.length - bd.bytes.length) =
        a.drop (bd.length - bd.bytes.length) ++ b := by
      rw [drop_append_of_le_length (by omega)]
    have hTake : (a ++ b).take (bd.length - bd.bytes.length) =
        a.take (bd.length - bd.bytes.length) := by
      rw [take_append_of_le_length (by omega)]
    have hLength : a.length =
        (bd.length - bd.bytes.length) + (a.drop (bd.length - bd.bytes.length)).length := by
      simp only [length_drop]
      omega
    rw [push_filled hBody (by simp only [length_append]; omega),
      push_filled hBody (by omega), hDrop, hTake, Pushed.andThen_withFrame,
      ih _ (by simp only [length_drop]; omega)]
    conv_rhs => rw [hLength, Pushed.andThen_after]

theorem allocate_cases (header : Buffer) :
    (∀ n, allocate header n = .bad header (leValue header) n) ∨
      ∃ bd, ∀ n, allocate header n = .body header bd n := by
  unfold allocate
  by_cases h : leValue header < 1 ∨ maxFrame < leValue header
  · exact Or.inl fun n => dif_pos h
  · exact Or.inr ⟨_, fun n => dif_neg h⟩

/-- A reader inside a header that the first chunk does not fill. -/
theorem push_append_short (hBody : r.body = none) (h : r.header.length + a.length < 4) :
    r.push (a ++ b) = (r.push a).andThen a.length (push · b) := by
  have hHeader : (r.header ++ a).length = r.header.length + a.length := length_append
  have hChunk : (a ++ b).length = a.length + b.length := length_append
  rw [push_short hBody h]
  simp only [Pushed.andThen, nil_append]
  by_cases hMore : r.header.length + (a ++ b).length < 4
  · rw [push_short hBody hMore, push_short (r := ⟨r.header ++ a, none⟩) rfl (by dsimp; omega)]
    simp [Pushed.after]
  · have hNil : b ≠ [] := by
      rintro rfl
      simp only [length_nil] at hChunk
      omega
    have hNil' : a ++ b ≠ [] := by simp [hNil]
    have hSum : 4 - r.header.length = a.length + (4 - (r.header ++ a).length) := by omega
    have hTake : (a ++ b).take (4 - r.header.length) =
        a ++ b.take (4 - (r.header ++ a).length) := by
      rw [take_append, take_of_length_le (by omega)]
      congr 2
      omega
    have hDrop : (a ++ b).drop (4 - r.header.length) = b.drop (4 - (r.header ++ a).length) := by
      rw [drop_append, drop_of_length_le (by omega), nil_append]
      congr 1
      omega
    have hFull : 4 ≤ (⟨r.header ++ a, none⟩ : FrameReader).header.length + b.length := by
      dsimp only
      omega
    have hSame : r.header ++ (a ++ b).take (4 - r.header.length) =
        r.header ++ a ++ b.take (4 - (r.header ++ a).length) := by
      rw [hTake, append_assoc]
    rcases allocate_cases (r.header ++ a ++ b.take (4 - (r.header ++ a).length)) with
      hBad | ⟨bd, hNew⟩
    · rw [push_bad hBody (by omega) hNil' (by rw [hSame]; exact hBad _),
        push_bad rfl hFull hNil (hBad _)]
      simp only [Pushed.after, Option.map_some]
      rw [hSum]
    · rw [push_allocated hBody (by omega) hNil' (by rw [hSame]; exact hNew _),
        push_allocated rfl hFull hNil (hNew _), hDrop, hSum]
      simp [Pushed.after, Nat.add_assoc, Function.comp_def]

/-- Reading two chunks is reading them as one. -/
theorem push_append (r : FrameReader) (a b : Buffer) :
    r.push (a ++ b) = (r.push a).andThen a.length (push · b) := by
  induction hLength : a.length using Nat.strong_induction_on generalizing r a with
  | _ m ih =>
    subst hLength
    cases hBody : r.body with
    | some bd =>
      exact push_append_body hBody fun a' ha' => ih a'.length ha' new a' rfl
    | none =>
      by_cases hNil : a = []
      · subst hNil
        simp only [nil_append, push_nil, length_nil, Pushed.andThen, Pushed.after]
        simp
      · have hNil' : a ++ b ≠ [] := by simp [hNil]
        by_cases hShort : r.header.length + a.length < 4
        · exact push_append_short hBody hShort
        · have hLen : (a ++ b).length = a.length + b.length := length_append
          have hTake : (a ++ b).take (4 - r.header.length) = a.take (4 - r.header.length) := by
            rw [take_append_of_le_length (by omega)]
          rcases allocate_cases (r.header ++ a.take (4 - r.header.length)) with
            hBad | ⟨bd, hNew⟩
          · rw [push_bad hBody (by omega) hNil (hBad _),
              push_bad hBody (by omega) hNil' (by rw [hTake]; exact hBad _)]
            rfl
          · have hDrop : (a ++ b).drop (4 - r.header.length) =
                a.drop (4 - r.header.length) ++ b := by
              rw [drop_append_of_le_length (by omega)]
            have hLength : a.length =
                (4 - r.header.length) + (a.drop (4 - r.header.length)).length := by
              simp only [length_drop]
              omega
            rw [push_allocated hBody (by omega) hNil (hNew _),
              push_allocated hBody (by omega) hNil' (by rw [hTake]; exact hNew _), hDrop,
              push_append_body rfl fun a' ha' => ih a'.length (by omega) new a' rfl]
            conv_rhs => rw [hLength, Pushed.andThen_after]

/-- However a stream is cut, its frames are the same, and a bad length is found at the same
byte. -/
theorem pushAll_flatten (r : FrameReader) (chunks : List Buffer) :
    r.pushAll chunks = r.push chunks.flatten := by
  induction chunks generalizing r with
  | nil => rw [flatten_nil, push_nil, pushAll]
  | cons chunk chunks ih =>
    rw [flatten_cons, push_append, pushAll]
    unfold Pushed.andThen
    cases hError : (r.push chunk).error with
    | some e => rfl
    | none =>
      simp only [ih]
      rfl

/-! ## Reading what was written -/

theorem push_frame {type : Int} {payload w : Buffer} (h : frame type payload = .ok w) :
    push new w = ⟨[(UInt8.ofNat type.toNat, payload)], new, none⟩ := by
  unfold frame at h
  split at h
  · cases h
  · rename_i hSize
    cases h
    have hMax : maxFrame = 65536 := rfl
    have hLength := length_leBytes 4 (payload.length + 1)
    have hHeader : new.header ++ List.take (4 - new.header.length)
        (leBytes 4 (payload.length + 1) ++ UInt8.ofNat type.toNat :: payload) =
          leBytes 4 (payload.length + 1) := by
      simp only [new, length_nil, Nat.sub_zero, nil_append]
      rw [take_append_of_le_length (by omega), take_of_length_le (by omega)]
    have hValue : leValue (leBytes 4 (payload.length + 1)) = payload.length + 1 :=
      leValue_leBytes (by omega)
    have hDrop : (leBytes 4 (payload.length + 1) ++ UInt8.ofNat type.toNat :: payload).drop 4 =
        UInt8.ofNat type.toNat :: payload := by
      rw [drop_append_of_le_length (by omega), drop_of_length_le (by omega),
        nil_append]
    have hNew : allocate (leBytes 4 (payload.length + 1)) 4 =
        .body (leBytes 4 (payload.length + 1)) ⟨payload.length + 1, [], by simp⟩ 4 := by
      unfold allocate
      simp only [hValue]
      rw [dif_neg (by omega)]
    rw [push_allocated rfl (by simp [new, hLength]) (by simp) (by rw [hHeader]; exact hNew), hDrop,
      push_filled rfl (by simp)]
    simp [complete, Pushed.withFrame, Pushed.after]

theorem push_frames {frames : List (Int × Buffer)} {ws : List Buffer}
    (h : frames.mapM (fun f => frame f.1 f.2) = .ok ws) :
    push new ws.flatten = ⟨frames.map fun f => (UInt8.ofNat f.1.toNat, f.2), new, none⟩ := by
  induction frames generalizing ws with
  | nil =>
    cases h
    simp
  | cons f frames ih =>
    rw [mapM_cons] at h
    obtain ⟨w, hw, h⟩ := bind_eq_ok.mp h
    obtain ⟨ws', hws, h⟩ := bind_eq_ok.mp h
    cases h
    rw [flatten_cons, push_append, push_frame hw, Pushed.andThen]
    simp only [ih hws]
    rfl

theorem written {frames : List (Int × Buffer)} {ws : List Buffer}
    (h : frames.mapM (fun f => frame f.1 f.2) = .ok ws) :
    ∀ f ∈ frames, ∃ w, frame f.1 f.2 = .ok w := by
  induction frames generalizing ws with
  | nil => simp
  | cons f frames ih =>
    rw [mapM_cons] at h
    obtain ⟨w, hw, h⟩ := bind_eq_ok.mp h
    obtain ⟨ws', hws, _⟩ := bind_eq_ok.mp h
    intro g hg
    rcases mem_cons.mp hg with rfl | hg
    · exact ⟨w, hw⟩
    · exact ih hws g hg

theorem frame_type {type : Int} {payload w : Buffer} (h : frame type payload = .ok w) :
    ((UInt8.ofNat type.toNat).toNat : Int) = type := by
  unfold frame at h
  split at h
  · cases h
  · rename_i hSize
    have hByte : (UInt8.ofNat type.toNat).toNat = type.toNat % 256 := rfl
    omega

end FrameReader

/-- A stream of bytes means the same frames however it is cut, and frames that were written
are read back, with the reader ready for the next one. -/
theorem chunking_irrelevant :
    (∀ (chunks : List Buffer), FrameReader.new.pushAll chunks =
      FrameReader.new.push chunks.flatten) ∧
    ∀ (frames : List (Int × Buffer)) (ws chunks : List Buffer),
      frames.mapM (fun f => frame f.1 f.2) = .ok ws → chunks.flatten = ws.flatten →
        (FrameReader.new.pushAll chunks).frames.map (fun f => ((f.1.toNat : Int), f.2)) = frames ∧
        (FrameReader.new.pushAll chunks).reader = .new ∧
        (FrameReader.new.pushAll chunks).error = none := by
  refine ⟨FrameReader.pushAll_flatten _, fun frames ws chunks hFrames hChunks => ?_⟩
  have hType : ∀ f ∈ frames, ((UInt8.ofNat f.1.toNat).toNat : Int) = f.1 := fun f hf => by
    obtain ⟨w, hw⟩ := FrameReader.written hFrames f hf
    exact FrameReader.frame_type hw
  rw [FrameReader.pushAll_flatten, hChunks, FrameReader.push_frames hFrames]
  refine ⟨?_, rfl, rfl⟩
  rw [List.map_map]
  conv_rhs => rw [← List.map_id frames]
  exact List.map_congr_left fun f hf => by
    dsimp only [Function.comp, id]
    rw [hType f hf]

theorem chunking_irrelevant_hello :
    (FrameReader.new.pushAll [[6, 0], [0, 0, 1, 104], [], [101, 108, 108, 111]]).frames.map
      (fun f => ((f.1.toNat : Int), f.2)) = [(1, [104, 101, 108, 108, 111])] :=
  (chunking_irrelevant.2 [(1, [104, 101, 108, 108, 111])]
    [[6, 0, 0, 0, 1, 104, 101, 108, 108, 111]] [[6, 0], [0, 0, 1, 104], [], [101, 108, 108, 111]]
    rfl rfl).1

/-! ## Addresses -/

structure Addressed where
  addr : String
  port : Nat
  datagram : Buffer
deriving DecidableEq

/-- `net.isIP` is a parameter. -/
def addressed (isIP : String → Bool) (addr : String) (port : Int) (datagram : Buffer) :
    Except String Buffer :=
  if !isIP addr ∨ port < 1 ∨ 65535 < port then .error "bad node address"
  else
    let a := ascii addr
    .ok (UInt8.ofNat a.length :: a ++ leBytes 2 port.toNat ++ datagram)

def parseAddressed (isIP : String → Bool) (p : Buffer) : Option Addressed :=
  match p[0]? with
  | none => none
  | some n =>
    if p.length < 1 + n.toNat + 2 then none
    else
      let raw := subarray p 1 (1 + n.toNat)
      if raw.any (127 < ·) then none
      else
        let addr := String.ofList (raw.map fun b => Char.ofNat b.toNat)
        let port := leValue (subarray p (1 + n.toNat) (3 + n.toNat))
        if !isIP addr ∨ port = 0 then none else some ⟨addr, port, p.drop (3 + n.toNat)⟩

theorem ofList_ascii {s : String} (h : ∀ c ∈ s.toList, c.toNat < 128) :
    String.ofList ((ascii s).map fun b => Char.ofNat b.toNat) = s := by
  have hMap : (ascii s).map (fun b => Char.ofNat b.toNat) = s.toList := by
    rw [ascii, map_map]
    conv_rhs => rw [← map_id s.toList]
    refine map_congr_left fun c hc => ?_
    have hSmall : (UInt8.ofNat c.toNat).toNat = c.toNat := by
      have := h c hc
      simp only [UInt8.toNat_ofNat']
      omega
    simp only [Function.comp, hSmall, id, Char.ofNat_toNat]
  rw [hMap, String.ofList_toList]

theorem parseAddressed_addressed {isIP : String → Bool} {addr : String} (port : Int)
    (datagram : Buffer) (hIP : isIP addr = true) (hAscii : ∀ c ∈ addr.toList, c.toNat < 128)
    (hLength : addr.toList.length ≤ 255) (hPort : 1 ≤ port ∧ port ≤ 65535) :
    ∃ w, addressed isIP addr port datagram = .ok w ∧
      parseAddressed isIP w = some ⟨addr, port.toNat, datagram⟩ := by
  have hBytes : (ascii addr).length = addr.toList.length := by simp [ascii]
  have hCount : (UInt8.ofNat (ascii addr).length).toNat = (ascii addr).length := by
    simp only [UInt8.toNat_ofNat']
    omega
  have hSmall : (ascii addr).any (127 < ·) = false := by
    rw [any_eq_false]
    intro b hb
    obtain ⟨c, hc, rfl⟩ := mem_map.mp hb
    have hAt := hAscii c hc
    have hTop : (127 : UInt8).toNat = 127 := rfl
    simp only [decide_eq_true_eq, UInt8.lt_iff_toNat_lt, UInt8.toNat_ofNat']
    omega
  have hValue := leValue_leBytes (n := 2) (v := port.toNat) (by omega)
  refine ⟨_, if_neg (by simp [hIP]; omega), ?_⟩
  have hRaw : subarray (UInt8.ofNat (ascii addr).length :: ascii addr ++ leBytes 2 port.toNat ++
      datagram) 1 (1 + (ascii addr).length) = ascii addr :=
    subarray_at (a := [UInt8.ofNat (ascii addr).length]) (c := leBytes 2 port.toNat ++ datagram)
      (by simp) rfl rfl
  have hPortAt : subarray (UInt8.ofNat (ascii addr).length :: ascii addr ++ leBytes 2 port.toNat ++
      datagram) (1 + (ascii addr).length) (3 + (ascii addr).length) = leBytes 2 port.toNat :=
    subarray_at (a := UInt8.ofNat (ascii addr).length :: ascii addr) (c := datagram)
      (by simp) (by simp; omega) (by simp; omega)
  have hRest : (UInt8.ofNat (ascii addr).length :: ascii addr ++ leBytes 2 port.toNat ++
      datagram).drop (3 + (ascii addr).length) = datagram :=
    drop_at (a := UInt8.ofNat (ascii addr).length :: ascii addr ++ leBytes 2 port.toNat)
      (by simp) (by simp; omega)
  have hFits : ¬ (UInt8.ofNat (ascii addr).length :: ascii addr ++ leBytes 2 port.toNat ++
      datagram).length < 1 + (ascii addr).length + 2 := by
    simp only [length_append, length_cons, length_leBytes]
    omega
  simp only [parseAddressed, cons_append, getElem?_cons_zero, hCount]
  simp only [← cons_append, hRaw, hPortAt, hRest, hValue, hSmall, ofList_ascii hAscii, hIP]
  rw [if_neg hFits, if_neg (by simp), if_neg (by simp; omega)]

end TMEdge.Gateway
