import TMEdge.Flasher.Md5
import TMEdge.Library.Rfc1321

/-!
# MD5 and RFC 1321

`md5` computes on JavaScript numbers: signed results of bitwise operators are added to
unsigned words, and `>>> 0` brings a sum back. Here that is the arithmetic of 32-bit words.

* `md5Round_embed`: a round of the loop, on words.
* `md5_rfc1321`: the digest is the one of the standard.
-/

namespace TMEdge.Flasher

open Library Library.Rfc1321 List

/-! ## Numbers and words -/

theorem ofInt_and (x y : Int) :
    BitVec.ofInt 32 (JsInt.and x y) = BitVec.ofInt 32 x &&& BitVec.ofInt 32 y :=
  BitVec.ofInt_toInt

theorem ofInt_or (x y : Int) :
    BitVec.ofInt 32 (JsInt.or x y) = BitVec.ofInt 32 x ||| BitVec.ofInt 32 y :=
  BitVec.ofInt_toInt

theorem ofInt_xor (x y : Int) :
    BitVec.ofInt 32 (JsInt.xor x y) = BitVec.ofInt 32 x ^^^ BitVec.ofInt 32 y :=
  BitVec.ofInt_toInt

theorem ofInt_not (x : Int) : BitVec.ofInt 32 (JsInt.not x) = ~~~ BitVec.ofInt 32 x :=
  BitVec.ofInt_toInt

theorem ofInt_toNat (w : Word) : BitVec.ofInt 32 (w.toNat : Int) = w := by
  rw [BitVec.ofInt_natCast, BitVec.ofNat_toNat, BitVec.setWidth_eq]

/-- The registers as the variables hold them. -/
def embed (r : Regs) : Md5State := ⟨r.a.toNat, r.b.toNat, r.c.toNat, r.d.toNat⟩

/-- One round of the loop, on words. -/
def wordRound (T X : Nat → Word) (r : Regs) (i : Nat) : Regs :=
  ⟨r.d, operation T X i r.a r.b r.c r.d, r.b, r.c⟩

def table (i : Nat) : Word := BitVec.ofNat 32 (sines[i]?.getD 0)

/-- The function and the word of a round are those of the standard. -/
theorem mix_embed (r : Regs) {i : Nat} (hi : i < 64) :
    BitVec.ofInt 32 (mix (embed r) i).1 = auxiliary (i / 16) r.b r.c r.d ∧
      (mix (embed r) i).2 = reads.getD i 0 := by
  have hReads : ∀ i < 64, reads.getD i 0 =
      if i < 16 then i else if i < 32 then (5 * i + 1) % 16
      else if i < 48 then (3 * i + 5) % 16 else (7 * i) % 16 := by decide
  rw [hReads i hi]
  unfold mix embed
  split
  · have hRound : i / 16 = 0 := by omega
    refine ⟨?_, rfl⟩
    simp only [ofInt_or, ofInt_and, ofInt_not, ofInt_toNat, hRound, auxiliary]
  · split
    · have hRound : i / 16 = 1 := by omega
      refine ⟨?_, rfl⟩
      simp only [ofInt_or, ofInt_and, ofInt_not, ofInt_toNat, hRound, auxiliary]
      rw [BitVec.and_comm r.d r.b, BitVec.and_comm _ r.c]
    · split
      · have hRound : i / 16 = 2 := by omega
        refine ⟨?_, rfl⟩
        simp only [ofInt_xor, ofInt_toNat, hRound, auxiliary]
      · have hRound : i / 16 = 3 := by omega
        refine ⟨?_, rfl⟩
        simp only [ofInt_xor, ofInt_or, ofInt_not, ofInt_toNat, hRound, auxiliary]

theorem shifts_eq : ∀ i < 64, shifts[i]?.getD 0 = (rotations.getD (i / 16) []).getD (i % 4) 0 ∧
    0 < shifts[i]?.getD 0 ∧ shifts[i]?.getD 0 < 32 ∧ reads.getD i 0 < 16 := by decide

/-- The two shifts of a sum are a rotation. -/
theorem rotate_eq (w : Word) {s : Nat} (hPos : 0 < s) (hs : s < 32) :
    BitVec.ofInt 32 (JsInt.or (JsInt.shl w.toNat s) (JsInt.ushr w.toNat (32 - s))) =
      w.rotateLeft s := by
  have hRight : (32 - s) % 32 = 32 - s := Nat.mod_eq_of_lt (by omega)
  rw [ofInt_or, JsInt.shl, JsInt.ushr, BitVec.ofInt_toInt, ofInt_toNat, ofInt_toNat,
    Nat.mod_eq_of_lt hs, hRight, BitVec.rotateLeft_def, Nat.mod_eq_of_lt hs]

variable {X : Nat → Word}

theorem md5Round_embed {m : List Nat} (hX : ∀ g < 16, BitVec.ofNat 32 (m[g]?.getD 0) = X g)
    (r : Regs) {i : Nat} (hi : i < 64) :
    md5Round m (embed r) i = embed (wordRound table X r i) := by
  obtain ⟨hMix, hRead⟩ := mix_embed r hi
  obtain ⟨hShift, hPos, hLt, hWord⟩ := shifts_eq i hi
  have hSum : JsInt.toUint32 ((embed r).a + (mix (embed r) i).1 + sines[i]?.getD 0 +
      m[(mix (embed r) i).2]?.getD 0) =
      ((r.a + auxiliary (i / 16) r.b r.c r.d + X (reads.getD i 0) + table i).toNat : Int) := by
    rw [JsInt.toUint32, BitVec.ofInt_add, BitVec.ofInt_add, BitVec.ofInt_add, hMix, hRead,
      BitVec.ofInt_natCast, BitVec.ofInt_natCast, hX _ hWord, add_right_comm]
    have hA : BitVec.ofInt 32 (embed r).a = r.a := ofInt_toNat r.a
    rw [hA]
    rfl
  have hB : JsInt.toUint32 ((embed r).b + JsInt.or
      (JsInt.shl ((r.a + auxiliary (i / 16) r.b r.c r.d + X (reads.getD i 0) + table i).toNat : Int)
        (shifts[i]?.getD 0))
      (JsInt.ushr ((r.a + auxiliary (i / 16) r.b r.c r.d + X (reads.getD i 0) + table i).toNat : Int)
        (32 - shifts[i]?.getD 0))) =
      ((operation table X i r.a r.b r.c r.d).toNat : Int) := by
    rw [JsInt.toUint32, BitVec.ofInt_add, rotate_eq _ hPos hLt, hShift, operation]
    congr 3
    exact ofInt_toNat _
  unfold md5Round
  dsimp only
  rw [hSum, hB]
  rfl

/-! ## Blocks -/

theorem rounds_eq (T X : Nat → Word) (r : Regs) :
    (List.range 64).foldl (wordRound T X) r = (List.range 16).foldl (group T X) r := by
  have hSplit : List.range 64 =
      (List.range 16).flatMap fun n => [4 * n, 4 * n + 1, 4 * n + 2, 4 * n + 3] := by decide
  rw [hSplit, foldl_flatMap]
  rfl

theorem foldl_md5Round {m : List Nat} (hX : ∀ g < 16, BitVec.ofNat 32 (m[g]?.getD 0) = X g)
    (r : Regs) {l : List Nat} (hl : ∀ i ∈ l, i < 64) :
    l.foldl (md5Round m) (embed r) = embed (l.foldl (wordRound table X) r) := by
  induction l generalizing r with
  | nil => rfl
  | cons i l ih =>
    rw [forall_mem_cons] at hl
    rw [foldl_cons, foldl_cons, md5Round_embed hX r hl.1, ih _ hl.2]

theorem toUint32_add (x y : Word) : JsInt.toUint32 (x.toNat + y.toNat) = ((x + y).toNat : Int) := by
  rw [JsInt.toUint32, BitVec.ofInt_add, ofInt_toNat, ofInt_toNat]

theorem md5Block_embed {message : List UInt8} {offset : Nat}
    (hX : ∀ g < 16, BitVec.ofNat 32 (getUint32 message (offset + g * 4)) = X g) (r : Regs) :
    md5Block message (embed r) offset = embed (block table X r) := by
  have hWords : ∀ g < 16, BitVec.ofNat 32
      (((List.range 16).map fun i => getUint32 message (offset + i * 4))[g]?.getD 0) = X g := by
    intro g hg
    rw [getElem?_map, getElem?_range hg]
    exact hX g hg
  unfold md5Block
  dsimp only
  rw [foldl_md5Round hWords r fun i hi => mem_range.mp hi, rounds_eq]
  unfold block embed
  dsimp only
  rw [toUint32_add, toUint32_add, toUint32_add, toUint32_add]

/-! ## The message -/

theorem littleEndian_eq (message : List UInt8) (k : Nat) :
    littleEndian ((message.drop k).take 4) = getUint32 message k := by
  have hByte : ∀ j, message[k + j]? = (message.drop k)[j]? := fun j => getElem?_drop.symm
  have hFirst : message[k]? = (message.drop k)[0]? := hByte 0
  rw [getUint32, hFirst, hByte, hByte, hByte]
  match message.drop k with
  | [] => rfl
  | [b₀] => simp [littleEndian]
  | [b₀, b₁] => simp [littleEndian]
  | [b₀, b₁, b₂] =>
    simp [littleEndian]
    omega
  | b₀ :: b₁ :: b₂ :: b₃ :: rest =>
    simp [littleEndian]
    omega

theorem uint32Bytes_toNat (w : Word) : uint32Bytes w.toNat = wordBytes w := by
  have hByte : ∀ k, UInt8.ofNat (w.toNat / 2 ^ k) = UInt8.ofBitVec (w.extractLsb' k 8) := by
    intro k
    apply UInt8.toNat.inj
    rw [UInt8.toNat_ofNat', UInt8.toNat_ofBitVec, BitVec.extractLsb'_toNat,
      Nat.shiftRight_eq_div_pow]
  have hLow := hByte 0
  rw [pow_zero, Nat.div_one] at hLow
  rw [uint32Bytes, wordBytes, ← hLow, ← hByte 8, ← hByte 16, ← hByte 24]
  rfl

variable {data : List UInt8}

/-- The shifts of the padded length, on lengths below `2 ^ 28`. -/
theorem paddedSize_eq {n : Nat} (h : n < 2 ^ 28) :
    (JsInt.shl (JsInt.ushr (n + 8) 6) 6 + 64).toNat = (n + 8) / 64 * 64 + 64 := by
  have hBlocks : JsInt.ushr (n + 8) 6 = (((n + 8) / 64 : Nat) : Int) := by
    have hCast : ((n : Int) + 8) = ((n + 8 : Nat) : Int) := rfl
    rw [JsInt.ushr, hCast, BitVec.ofInt_natCast, BitVec.toNat_ushiftRight, BitVec.toNat_ofNat,
      Nat.mod_eq_of_lt (by omega), Nat.shiftRight_eq_div_pow]
  have hWord : (BitVec.ofNat 32 ((n + 8) / 64) <<< 6).toNat = (n + 8) / 64 * 64 := by
    rw [BitVec.toNat_shiftLeft, BitVec.toNat_ofNat, Nat.shiftLeft_eq]
    omega
  rw [hBlocks, JsInt.shl, BitVec.ofInt_natCast, BitVec.toInt_eq_toNat_of_lt]
  · change ((BitVec.ofNat 32 ((n + 8) / 64) <<< 6).toNat + 64 : Int).toNat = _
    rw [hWord]
    omega
  · change 2 * (BitVec.ofNat 32 ((n + 8) / 64) <<< 6).toNat < 2 ^ 32
    rw [hWord]
    omega

theorem bits_eq {n : Nat} :
    JsInt.toUint32 (JsInt.shl n 3) = ((BitVec.ofNat 32 (8 * n)).toNat : Int) := by
  rw [JsInt.toUint32, JsInt.shl, BitVec.ofInt_toInt, BitVec.ofInt_natCast]
  congr 1
  have hEight : 2 ^ (3 % 32) = 8 := rfl
  rw [BitVec.toNat_shiftLeft, BitVec.toNat_ofNat, BitVec.toNat_ofNat, Nat.shiftLeft_eq, hEight]
  omega

theorem padded_eq (h : data.length < 2 ^ 28) : padded data = pad data := by
  have hZeros : (data.length + 8) / 64 * 64 + 64 - data.length - 9 = zeros data.length := by
    unfold zeros
    omega
  have hLow : uint32Bytes (JsInt.toUint32 (JsInt.shl data.length 3)).toNat =
      wordBytes (BitVec.ofNat 32 (8 * data.length)) := by
    rw [bits_eq, Int.toNat_natCast, uint32Bytes_toNat]
  have hHigh : uint32Bytes (data.length / 2 ^ 29) =
      wordBytes (BitVec.ofNat 32 (8 * data.length / 2 ^ 32)) := by
    rw [Nat.div_eq_of_lt (by omega), Nat.div_eq_of_lt (by omega)]
    rfl
  unfold padded pad
  dsimp only
  rw [paddedSize_eq h, hZeros, hLow, hHigh]

theorem length_pad (data : List UInt8) : (pad data).length = (data.length + 8) / 64 * 64 + 64 := by
  unfold pad zeros wordBytes
  simp only [length_append, length_cons, length_nil, length_replicate]
  omega

theorem foldl_md5Block (message : List UInt8) (n : Nat) (r : Regs) :
    ((List.range n).map (64 * ·)).foldl (md5Block message) (embed r) =
      embed ((List.range n).foldl (fun r i => block table (fun j => word message (16 * i + j)) r) r) := by
  rw [foldl_map]
  induction n with
  | zero => rfl
  | succ n ih =>
    rw [range_succ, foldl_concat, foldl_concat, ih]
    refine md5Block_embed (fun g _ => ?_) _
    rw [word, littleEndian_eq]
    congr 2
    omega

/-- The digest is the one of RFC 1321, and the padded length the least multiple of 64 with room
for nine bytes. -/
theorem md5_rfc1321 (data : List UInt8) (h : data.length < 2 ^ 28) :
    md5 data = digest table data ∧
      IsLeast {n | 64 ∣ n ∧ data.length + 9 ≤ n} (padded data).length := by
  constructor
  · unfold md5 digest
    dsimp only
    rw [padded_eq h]
    have hFold := foldl_md5Block (pad data) ((pad data).length / 64) initial
    change ((List.range ((pad data).length / 64)).map (64 * ·)).foldl (md5Block (pad data))
      ⟨0x67452301, 0xefcdab89, 0x98badcfe, 0x10325476⟩ = _ at hFold
    rw [hFold]
    unfold embed
    simp only [List.flatMap_cons, List.flatMap_nil, List.append_nil, Int.toNat_natCast,
      uint32Bytes_toNat, List.append_assoc]
  · rw [padded_eq h, length_pad]
    refine ⟨⟨⟨(data.length + 8) / 64 + 1, by omega⟩, by omega⟩, fun n hn => ?_⟩
    obtain ⟨⟨k, rfl⟩, hRoom⟩ := hn
    omega

theorem md5_rfc1321_abc : md5 [0x61, 0x62, 0x63] = digest table [0x61, 0x62, 0x63] ∧
    (padded [0x61, 0x62, 0x63]).length = 64 := by
  obtain ⟨hDigest, hLeast⟩ := md5_rfc1321 [0x61, 0x62, 0x63] (by decide)
  exact ⟨hDigest, hLeast.unique ⟨⟨by decide, by decide⟩, fun n ⟨⟨k, hk⟩, hRoom⟩ => by
    change 3 + 9 ≤ n at hRoom
    omega⟩⟩

end TMEdge.Flasher
