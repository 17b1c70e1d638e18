import TMEdge.Library.JsInt
import TMEdge.Library.JsText

/-!
# Sealed credentials: base64url and the packed form

The model of `b64u`, `unb64u` and `packCredentials` (`shared/hpcseal.ts`) and of the
constructor of `Credentials` (`algo/train/hpc/sealed.ts`), of which the three values are
kept. `unb64u` collects its bits in a JavaScript number, which the shift keeps to 32 bits.

* `unb64u_b64u`: decoding what was encoded gives it back.
* `credentials_packCredentials`, `packCredentials_of_credentials`: the two sides of the packed form.
-/

namespace TMEdge.Sealed

open Library List

/-! ## base64url -/

/-- `B64`. -/
def b64 : Text := js "ABCDEFGHIJKLMNOPQRSTUVWXYZabcdefghijklmnopqrstuvwxyz0123456789-_"

/-- `B64[(n >> shift) & 63]`. -/
def digit (n shift : Nat) : UInt16 := b64.getD ((n >>> shift) &&& 63) 0

def b64u : List UInt8 → Text
  | [] => []
  | [a] =>
    let n := a.toNat <<< 16
    [digit n 18, digit n 12]
  | [a, b] =>
    let n := a.toNat <<< 16 ||| b.toNat <<< 8
    [digit n 18, digit n 12, digit n 6]
  | a :: b :: c :: bytes =>
    let n := a.toNat <<< 16 ||| b.toNat <<< 8 ||| c.toNat
    digit n 18 :: digit n 12 :: digit n 6 :: digit n 0 :: b64u bytes

/-- `/[A-Za-z0-9_-]/`. -/
def isB64 (c : UInt16) : Bool :=
  (65 ≤ c && c ≤ 90) || (97 ≤ c && c ≤ 122) || (48 ≤ c && c ≤ 57) || c = 95 || c = 45

/-- The variables of the decoder. -/
structure Decoding where
  n : Int
  bits : Nat
  out : List UInt8

def decodeChar (s : Decoding) (ch : UInt16) : Decoding :=
  let n := JsInt.or (JsInt.shl s.n 6) (b64.idxOf ch)
  let bits := s.bits + 6
  if 8 ≤ bits then
    ⟨n, bits - 8, s.out ++ [UInt8.ofNat (JsInt.and (JsInt.sar n (bits - 8)) 255).toNat]⟩
  else ⟨n, bits, s.out⟩

/-- `none` where it throws. -/
def unb64u (s : Text) : Option (List UInt8) :=
  if !s.all isB64 || s.length % 4 = 1 then none
  else some (s.foldl decodeChar ⟨0, 0, []⟩).out

/-! ## One character -/

/-- The 32 bits of the number the decoder holds. -/
def Decoding.held (s : Decoding) : Nat := (BitVec.ofInt 32 s.n).toNat

theorem held_push (n : Int) {k : Nat} (hk : k < 64) :
    (BitVec.ofInt 32 (JsInt.or (JsInt.shl n 6) k)).toNat =
      ((BitVec.ofInt 32 n).toNat * 64 + k) % 2 ^ 32 := by
  have hShift : ((BitVec.ofInt 32 n).toNat <<< 6) % 2 ^ 32 =
      ((BitVec.ofInt 32 n).toNat % 2 ^ 26) <<< 6 := by
    rw [Nat.shiftLeft_eq, Nat.shiftLeft_eq]
    omega
  rw [JsInt.or, BitVec.ofInt_toInt, JsInt.shl, BitVec.ofInt_toInt, BitVec.ofInt_natCast,
    BitVec.toNat_or, BitVec.toNat_shiftLeft, BitVec.toNat_ofNat,
    Nat.mod_eq_of_lt (show k < 2 ^ 32 by omega)]
  change ((BitVec.ofInt 32 n).toNat <<< 6) % 2 ^ 32 ||| k = _
  rw [hShift, ← Nat.shiftLeft_add_eq_or_of_lt hk, Nat.shiftLeft_eq]
  omega

theorem byte_of_held (n : Int) {bits : Nat} (h : bits ≤ 24) :
    UInt8.ofNat (JsInt.and (JsInt.sar n bits) 255).toNat =
      UInt8.ofNat ((BitVec.ofInt 32 n).toNat / 2 ^ bits) := by
  have hLow : ((BitVec.ofInt 32 n).sshiftRight bits).toNat % 2 ^ 8 =
      (BitVec.ofInt 32 n).toNat / 2 ^ bits % 2 ^ 8 := by
    refine Nat.eq_of_testBit_eq fun i => ?_
    rw [Nat.testBit_mod_two_pow, Nat.testBit_mod_two_pow, Nat.testBit_div_two_pow]
    by_cases hi : i < 8
    · rw [← BitVec.getLsbD, BitVec.getLsbD_sshiftRight, if_pos (by omega), Nat.add_comm]
      simp [hi, BitVec.getLsbD]
      omega
    · simp [hi]
  have hAnd : (JsInt.and (JsInt.sar n bits) 255).toNat =
      ((BitVec.ofInt 32 n).sshiftRight bits).toNat % 2 ^ 8 := by
    have hMask : (BitVec.ofInt 32 255).toNat = 2 ^ 8 - 1 := rfl
    rw [JsInt.and, JsInt.sar, BitVec.ofInt_toInt, Nat.mod_eq_of_lt (by omega),
      BitVec.toInt_eq_toNat_of_lt]
    · rw [BitVec.toNat_and, hMask, Nat.and_two_pow_sub_one_eq_mod]
      rfl
    · rw [BitVec.toNat_and, hMask, Nat.and_two_pow_sub_one_eq_mod]
      omega
  rw [hAnd, hLow]
  apply UInt8.toNat.inj
  rw [UInt8.toNat_ofNat', UInt8.toNat_ofNat', Nat.mod_mod]

theorem b64_spec : ∀ k < 64, b64.idxOf (b64.getD k 0) = k ∧ isB64 (b64.getD k 0) = true := by
  decide

theorem digit_eq (n shift : Nat) : digit n shift = b64.getD (n / 2 ^ shift % 64) 0 := by
  rw [digit, Nat.shiftRight_eq_div_pow, Nat.and_two_pow_sub_one_eq_mod (n / 2 ^ shift) 6]

variable {s : Decoding} {n : Nat}

/-- A digit that does not complete a byte. -/
theorem decodeChar_more (hBits : s.bits = 0) (n shift : Nat) :
    ∃ s', decodeChar s (digit n shift) = s' ∧ s'.bits = 6 ∧ s'.out = s.out ∧
      s'.held = (s.held * 64 + n / 2 ^ shift % 64) % 2 ^ 32 := by
  have hk : n / 2 ^ shift % 64 < 64 := Nat.mod_lt _ (by decide)
  refine ⟨_, rfl, ?_⟩
  unfold decodeChar
  rw [digit_eq, (b64_spec _ hk).1, hBits]
  exact ⟨rfl, rfl, held_push s.n hk⟩

/-- A digit that completes a byte. -/
theorem decodeChar_byte {bits : Nat} (hBits : s.bits = bits + 2) (hLe : bits ≤ 24) (n shift : Nat) :
    ∃ s', decodeChar s (digit n shift) = s' ∧ s'.bits = bits ∧
      s'.held = (s.held * 64 + n / 2 ^ shift % 64) % 2 ^ 32 ∧
      s'.out = s.out ++ [UInt8.ofNat (s'.held / 2 ^ bits)] := by
  have hk : n / 2 ^ shift % 64 < 64 := Nat.mod_lt _ (by decide)
  have hHeld := held_push s.n hk
  refine ⟨_, rfl, ?_⟩
  unfold decodeChar
  rw [digit_eq, (b64_spec _ hk).1, hBits]
  dsimp only
  rw [if_pos (by omega)]
  refine ⟨by dsimp only; omega, hHeld, ?_⟩
  dsimp only
  have hRest : bits + 2 + 6 - 8 = bits := by omega
  rw [hRest, byte_of_held _ hLe]
  rfl

/-! ## The round trip -/

theorem or_eq (a b c : UInt8) : a.toNat <<< 16 ||| b.toNat <<< 8 ||| c.toNat =
    a.toNat * 2 ^ 16 + b.toNat * 2 ^ 8 + c.toNat := by
  have hb := b.toNat_lt
  have hc := c.toNat_lt
  have hPair : b.toNat <<< 8 ||| c.toNat = b.toNat <<< 8 + c.toNat :=
    (Nat.shiftLeft_add_eq_or_of_lt (by omega) _).symm
  have hLt : b.toNat <<< 8 + c.toNat < 2 ^ 16 := by
    rw [Nat.shiftLeft_eq]
    omega
  rw [Nat.or_assoc, hPair, ← Nat.shiftLeft_add_eq_or_of_lt hLt, Nat.shiftLeft_eq, Nat.shiftLeft_eq]
  omega

theorem shiftLeft_or_eq (a b : UInt8) : a.toNat <<< 16 ||| b.toNat <<< 8 =
    a.toNat * 2 ^ 16 + b.toNat * 2 ^ 8 := by
  have hZero := or_eq a b 0
  rwa [UInt8.toNat_zero, Nat.or_zero, Nat.add_zero] at hZero

theorem ofNat_eq {v : Nat} {a : UInt8} (h : v % 256 = a.toNat) : UInt8.ofNat v = a := by
  apply UInt8.toNat.inj
  rw [UInt8.toNat_ofNat', h]

/-- The first two digits of a group. -/
theorem decode_pair (hBits : s.bits = 0) {a : UInt8} (hn : n / 2 ^ 16 = a.toNat) :
    ∃ s', [digit n 18, digit n 12].foldl decodeChar s = s' ∧ s'.bits = 4 ∧
      s'.out = s.out ++ [a] ∧ s'.held % 2 ^ 12 = n / 2 ^ 12 := by
  have ha := a.toNat_lt
  obtain ⟨s₁, h₁, hBits₁, hOut₁, hHeld₁⟩ := decodeChar_more hBits n 18
  obtain ⟨s₂, h₂, hBits₂, hHeld₂, hOut₂⟩ :=
    decodeChar_byte (show s₁.bits = 4 + 2 from hBits₁) (by decide) n 12
  refine ⟨s₂, by rw [foldl_cons, foldl_cons, h₁, h₂]; rfl, hBits₂, ?_, ?_⟩
  · rw [hOut₂, hOut₁, ofNat_eq (show s₂.held / 2 ^ 4 % 256 = a.toNat by omega)]
  · omega

/-- The third digit. -/
theorem decode_third (hBits : s.bits = 4) {b : UInt8} (hLt : n < 2 ^ 24)
    (hHeld : s.held % 2 ^ 12 = n / 2 ^ 12) (hn : n / 2 ^ 8 % 256 = b.toNat) :
    ∃ s', decodeChar s (digit n 6) = s' ∧ s'.bits = 2 ∧ s'.out = s.out ++ [b] ∧
      s'.held % 2 ^ 18 = n / 2 ^ 6 := by
  obtain ⟨s', h, hBits', hHeld', hOut⟩ :=
    decodeChar_byte (show s.bits = 2 + 2 from hBits) (by decide) n 6
  refine ⟨s', h, hBits', ?_, by omega⟩
  rw [hOut, ofNat_eq (show s'.held / 2 ^ 2 % 256 = b.toNat by omega)]

theorem decode_fourth (hBits : s.bits = 2) {c : UInt8} (hHeld : s.held % 2 ^ 18 = n / 2 ^ 6)
    (hn : n % 256 = c.toNat) :
    ∃ s', decodeChar s (digit n 0) = s' ∧ s'.bits = 0 ∧ s'.out = s.out ++ [c] := by
  obtain ⟨s', h, hBits', hHeld', hOut⟩ :=
    decodeChar_byte (show s.bits = 0 + 2 from hBits) (by decide) n 0
  refine ⟨s', h, hBits', ?_⟩
  rw [hOut, ofNat_eq (show s'.held / 2 ^ 0 % 256 = c.toNat by omega)]

theorem decode_b64u (bytes : List UInt8) (hBits : s.bits = 0) :
    ((b64u bytes).foldl decodeChar s).out = s.out ++ bytes := by
  induction bytes using b64u.induct generalizing s with
  | case1 => exact (append_nil _).symm
  | case2 a =>
    obtain ⟨s₁, h₁, -, hOut₁, -⟩ := decode_pair hBits (n := a.toNat <<< 16) (a := a)
      (by rw [Nat.shiftLeft_eq]; omega)
    rw [b64u, h₁, hOut₁]
  | case3 a b =>
    have ha := a.toNat_lt
    have hb := b.toNat_lt
    have hn := shiftLeft_or_eq a b
    generalize hN : a.toNat <<< 16 ||| b.toNat <<< 8 = n at hn
    obtain ⟨s₁, h₁, hBits₁, hOut₁, hHeld₁⟩ :=
      decode_pair hBits (show n / 2 ^ 16 = a.toNat by omega)
    obtain ⟨s₂, h₂, -, hOut₂, -⟩ := decode_third hBits₁ (by omega) hHeld₁
      (show n / 2 ^ 8 % 256 = b.toNat by omega)
    have hFold : (b64u [a, b]).foldl decodeChar s = s₂ := by
      rw [b64u, hN, ← h₂, ← h₁]
      rfl
    rw [hFold, hOut₂, hOut₁, append_assoc]
    rfl
  | case4 a b c bytes ih =>
    have ha := a.toNat_lt
    have hb := b.toNat_lt
    have hc := c.toNat_lt
    have hn := or_eq a b c
    generalize hN : a.toNat <<< 16 ||| b.toNat <<< 8 ||| c.toNat = n at hn
    obtain ⟨s₁, h₁, hBits₁, hOut₁, hHeld₁⟩ :=
      decode_pair hBits (show n / 2 ^ 16 = a.toNat by omega)
    obtain ⟨s₂, h₂, hBits₂, hOut₂, hHeld₂⟩ := decode_third hBits₁ (by omega) hHeld₁
      (show n / 2 ^ 8 % 256 = b.toNat by omega)
    obtain ⟨s₃, h₃, hBits₃, hOut₃⟩ := decode_fourth hBits₂ hHeld₂
      (show n % 256 = c.toNat by omega)
    have hFold : (b64u (a :: b :: c :: bytes)).foldl decodeChar s =
        (b64u bytes).foldl decodeChar s₃ := by
      rw [b64u, hN, ← h₃, ← h₂, ← h₁]
      rfl
    rw [hFold, ih hBits₃, hOut₃, hOut₂, hOut₁]
    simp

theorem isB64_digit (n shift : Nat) : isB64 (digit n shift) = true := by
  rw [digit_eq]
  exact (b64_spec _ (Nat.mod_lt _ (by decide))).2

theorem all_b64u (bytes : List UInt8) :
    (b64u bytes).all isB64 = true ∧ (b64u bytes).length % 4 ≠ 1 := by
  induction bytes using b64u.induct with
  | case1 => exact ⟨rfl, by decide⟩
  | case2 a => simp [b64u, isB64_digit]
  | case3 a b => simp [b64u, isB64_digit]
  | case4 a b c bytes ih =>
    obtain ⟨hAll, hLength⟩ := ih
    refine ⟨?_, ?_⟩
    · simp [b64u, isB64_digit, hAll]
    · simp only [b64u, length_cons]
      omega

theorem unb64u_b64u (bytes : List UInt8) : unb64u (b64u bytes) = some bytes := by
  obtain ⟨hAll, hLength⟩ := all_b64u bytes
  rw [unb64u, if_neg (by simpa [hAll] using hLength), decode_b64u bytes rfl]
  rfl

/-! ## The packed form -/

/-- `none` where it throws. -/
def packCredentials (pin otp password : List UInt8) : Option (List UInt8) :=
  if pin.length < 1 || pin.length > 128 || otp.length < 6 || otp.length > 8 ||
      password.length > 128 then none
  else some (1 :: [pin, otp, password].flatMap fun f => UInt8.ofNat f.length :: f)

structure Credentials where
  pin : List UInt8
  otp : List UInt8
  password : Option (List UInt8)
  deriving DecidableEq

/-- The loop of the constructor over the fields that are left; the bytes behind the last. -/
def readFields : Nat → List UInt8 → Option (List (List UInt8) × List UInt8)
  | 0, rest => some ([], rest)
  | n + 1, rest =>
    match rest with
    | [] => none
    | len :: rest =>
      if rest.length < len.toNat then none
      else (readFields n (rest.drop len.toNat)).map fun r => (rest.take len.toNat :: r.1, r.2)

/-- No line break and no NUL. -/
def lineSafe (b : List UInt8) : Bool := !b.contains 0x0a && !b.contains 0x0d && !b.contains 0

def isDigits (b : List UInt8) : Bool := b.all fun c => 0x30 ≤ c && c ≤ 0x39

/-- `new Credentials`. -/
def credentials (plain : List UInt8) : Except Text Credentials :=
  match plain with
  | 1 :: rest =>
    match readFields 3 rest with
    | some ([pin, otp, password], []) =>
      if pin.length < 1 || !lineSafe pin then
        .error (js "the PIN is empty or has a line break in it")
      else if otp.length < 6 || otp.length > 8 || !isDigits otp then
        .error (js "the one-time code is 6 to 8 digits")
      else if !lineSafe password then .error (js "the HPC password has a line break in it")
      else .ok ⟨pin, otp, if 0 < password.length then some password else none⟩
    | _ => .error (js "malformed credentials")
  | _ => .error (js "unknown credential format")

theorem readFields_cons {f : List UInt8} (h : f.length < 256) (n : Nat) (rest : List UInt8) :
    readFields (n + 1) (UInt8.ofNat f.length :: (f ++ rest)) =
      (readFields n rest).map fun r => (f :: r.1, r.2) := by
  have hLen : (UInt8.ofNat f.length).toNat = f.length := Nat.mod_eq_of_lt h
  rw [readFields, hLen, if_neg (by simp), drop_left, take_left]

/-- What a loop has read is the bytes that were there. -/
theorem readFields_eq {n : Nat} {rest out : List UInt8} {fields : List (List UInt8)}
    (h : readFields n rest = some (fields, out)) :
    fields.length = n ∧ rest = (fields.flatMap fun f => UInt8.ofNat f.length :: f) ++ out := by
  induction n generalizing rest fields with
  | zero =>
    cases h
    exact ⟨rfl, rfl⟩
  | succ n ih =>
    cases rest with
    | nil => cases h
    | cons len rest =>
      rw [readFields] at h
      split at h
      · cases h
      · rename_i hLong
        obtain ⟨⟨fields', out'⟩, hRest, hEq⟩ := Option.map_eq_some_iff.mp h
        cases hEq
        obtain ⟨hLength, hSplit⟩ := ih hRest
        have hTake : (rest.take len.toNat).length = len.toNat :=
          length_take_of_le (not_lt.mp hLong)
        refine ⟨by rw [length_cons, hLength], ?_⟩
        rw [flatMap_cons, hTake, UInt8.ofNat_toNat]
        dsimp only at hSplit ⊢
        rw [cons_append, cons_append, append_assoc, ← hSplit, take_append_drop]

theorem credentials_packCredentials {pin otp password plain : List UInt8}
    (h : packCredentials pin otp password = some plain) (hPin : lineSafe pin = true)
    (hOtp : isDigits otp = true) (hPassword : lineSafe password = true) :
    credentials plain = .ok ⟨pin, otp, if 0 < password.length then some password else none⟩ := by
  unfold packCredentials at h
  split at h
  · cases h
  · rename_i hLengths
    simp only [Bool.or_eq_true, decide_eq_true_eq, not_or, not_lt] at hLengths
    obtain ⟨⟨⟨⟨hOne, hPinMax⟩, hSix⟩, hEight⟩, hPassMax⟩ := hLengths
    cases h
    have hFields : readFields 3 ([pin, otp, password].flatMap fun f => UInt8.ofNat f.length :: f) =
        some ([pin, otp, password], []) := by
      simp only [flatMap_cons, flatMap_nil, append_nil, cons_append]
      have hLast := readFields_cons (show password.length < 256 by omega) 0 []
      rw [append_nil] at hLast
      rw [readFields_cons (by omega), readFields_cons (by omega), hLast]
      rfl
    rw [credentials, hFields]
    dsimp only
    rw [if_neg, if_neg, if_neg]
    · rw [hPassword]
      exact Bool.false_ne_true
    · simp only [hOtp, Bool.not_true, Bool.or_false, Bool.or_eq_true, decide_eq_true_eq]
      omega
    · simp only [hPin, Bool.not_true, Bool.or_false, decide_eq_true_eq]
      omega

theorem packCredentials_of_credentials {plain : List UInt8} {c : Credentials}
    (h : credentials plain = .ok c) (hPin : c.pin.length ≤ 128)
    (hPassword : (c.password.getD []).length ≤ 128) :
    packCredentials c.pin c.otp (c.password.getD []) = some plain := by
  unfold credentials at h
  split at h
  · rename_i rest
    split at h
    · rename_i pin otp password hFields
      split at h
      · cases h
      · rename_i hPinOk
        split at h
        · cases h
        · rename_i hOtpOk
          split at h
          · cases h
          · cases h
            have hGiven : (if 0 < password.length then some password else none).getD [] =
                password := by
              cases password <;> rfl
            obtain ⟨-, hRest⟩ := readFields_eq hFields
            rw [append_nil] at hRest
            rw [hGiven] at hPassword ⊢
            simp only [Bool.or_eq_true, decide_eq_true_eq, not_or, not_lt] at hPinOk hOtpOk
            rw [packCredentials, if_neg, ← hRest]
            simp only [Bool.or_eq_true, decide_eq_true_eq, not_or, not_lt]
            exact ⟨⟨⟨⟨hPinOk.1, hPin⟩, hOtpOk.1.1⟩, hOtpOk.1.2⟩, hPassword⟩
    · cases h
  · cases h

end TMEdge.Sealed
