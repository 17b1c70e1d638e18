import Mathlib

/-!
# JavaScript strings

A string is its UTF-16 code units, so `length` and `slice` are those of the list and a
lone surrogate is a value like any other. What the standard library takes from the
Unicode tables is a parameter, `Unicode`.

* `trim_eq_self`: trimming a text without white space changes nothing.
* `splitOn_eq_pair`: the texts that split into two parts at a unit.
* `toHex`, `fromHex`: lower-case hexadecimal, and `fromHex_toHex`.
-/

namespace TMEdge.Library

open List

/-- The UTF-16 code units of a string. -/
abbrev Text := List UInt16

instance : LawfulBEq Text := inferInstance

/-- An ASCII literal of the source. -/
def js (s : String) : Text := s.toList.map fun c => UInt16.ofNat c.toNat

def asciiLower (c : UInt16) : UInt16 := if 65 ≤ c ∧ c ≤ 90 then c + 32 else c

/-- What the standard library reads from the Unicode tables. Lower-casing a text that is
lower-cased already changes nothing. -/
structure Unicode where
  letter : Nat → Bool
  number : Nat → Bool
  lowercase : Nat → Bool
  uppercase : Nat → Bool
  toLowerCase : Text → Text
  toLowerCase_idem : ∀ t, toLowerCase (toLowerCase t) = toLowerCase t
  toLowerCase_ascii : ∀ t : Text, (∀ c ∈ t, c < 128) → toLowerCase t = t.map asciiLower

theorem asciiLower_idem (c : UInt16) : asciiLower (asciiLower c) = asciiLower c := by
  by_cases h : 65 ≤ c ∧ c ≤ 90
  · have hNot : ¬ (65 ≤ c + 32 ∧ c + 32 ≤ 90) := by
      rintro ⟨-, hLe⟩
      simp only [UInt16.le_iff_toNat_le, UInt16.toNat_add] at h hLe
      have : (65 : UInt16).toNat = 65 := rfl
      have : (90 : UInt16).toNat = 90 := rfl
      have : (32 : UInt16).toNat = 32 := rfl
      omega
    rw [asciiLower, asciiLower, if_pos h, if_neg hNot]
  · rw [asciiLower, asciiLower, if_neg h, if_neg h]

/-- The tables as far as ASCII goes. -/
def ascii : Unicode where
  letter p := (65 ≤ p && p ≤ 90) || (97 ≤ p && p ≤ 122)
  number p := 48 ≤ p && p ≤ 57
  lowercase p := 97 ≤ p && p ≤ 122
  uppercase p := 65 ≤ p && p ≤ 90
  toLowerCase := List.map asciiLower
  toLowerCase_idem t := by
    rw [List.map_map]
    exact List.map_congr_left fun c _ => asciiLower_idem c
  toLowerCase_ascii _ _ := rfl

namespace Text

/-- A high surrogate followed by a low one. -/
def isPair (c d : UInt16) : Bool :=
  0xD800 ≤ c && c < 0xDC00 && 0xDC00 ≤ d && d < 0xE000

/-- The code points a pattern with the `u` flag sees: a pair of surrogates is one. -/
def codePoints : Text → List Nat
  | [] => []
  | [c] => [c.toNat]
  | c :: d :: t =>
    if isPair c d then
      (0x10000 + (c.toNat - 0xD800) * 0x400 + (d.toNat - 0xDC00)) :: codePoints t
    else c.toNat :: codePoints (d :: t)

/-! ## White space -/

/-- What `\s` matches and `trim` removes: the white space and the line terminators. -/
def isSpace (c : UInt16) : Bool :=
  c = 9 || c = 10 || c = 11 || c = 12 || c = 13 || c = 32 || c = 0xA0 || c = 0x1680 ||
    (0x2000 ≤ c && c ≤ 0x200A) || c = 0x2028 || c = 0x2029 || c = 0x202F || c = 0x205F ||
    c = 0x3000 || c = 0xFEFF

def trim (t : Text) : Text := (t.dropWhile isSpace).rdropWhile isSpace

variable {t : Text} {c : UInt16}

theorem trim_eq_self (h : ∀ c ∈ t, isSpace c = false) : trim t = t := by
  have hFront : t.dropWhile isSpace = t := by
    rw [dropWhile_eq_self_iff]
    intro hl
    rw [h _ (getElem_mem hl)]
    simp
  rw [trim, hFront, rdropWhile_eq_self_iff]
  intro hl
  rw [h _ (getLast_mem hl)]
  simp

/-! ## Splitting -/

theorem not_mem_of_mem_splitOn {p : Text} (h : p ∈ t.splitOn c) : c ∉ p := by
  induction t generalizing p with
  | nil =>
    rw [splitOn_nil, mem_singleton] at h
    simp [h]
  | cons d t ih =>
    rw [splitOn_eq_splitOnP, splitOnP_cons_eq_if_modifyHead,
      ← splitOn_eq_splitOnP] at h
    by_cases hd : (d == c) = true
    · rw [if_pos hd] at h
      rcases mem_cons.mp h with rfl | h
      · simp
      · exact ih h
    · rw [if_neg hd] at h
      obtain ⟨q, qs, hq⟩ := exists_cons_of_ne_nil (splitOn_ne_nil c t)
      rw [hq, modifyHead_cons] at h
      rcases mem_cons.mp h with rfl | h
      · have hNot := ih (hq ▸ mem_cons_self)
        simp only [mem_cons, not_or]
        exact ⟨fun hEq => hd (by simp [hEq]), hNot⟩
      · exact ih (hq ▸ mem_cons_of_mem _ h)

/-- What is not a separator is in one of the parts. -/
theorem exists_mem_splitOn {d : UInt16} (hc : c ∈ t) (hNe : c ≠ d) :
    ∃ part ∈ t.splitOn d, c ∈ part := by
  induction t with
  | nil => cases hc
  | cons e t ih =>
    rw [splitOn_eq_splitOnP, splitOnP_cons_eq_if_modifyHead, ← splitOn_eq_splitOnP]
    rcases mem_cons.mp hc with rfl | hc
    · obtain ⟨part, parts, hParts⟩ := exists_cons_of_ne_nil (splitOn_ne_nil d t)
      rw [if_neg (by simpa using hNe), hParts, modifyHead_cons]
      exact ⟨c :: part, mem_cons_self, mem_cons_self⟩
    · obtain ⟨part, hPart, hMem⟩ := ih hc
      split
      · exact ⟨part, mem_cons_of_mem _ hPart, hMem⟩
      · obtain ⟨first, parts, hParts⟩ := exists_cons_of_ne_nil (splitOn_ne_nil d t)
        rw [hParts, modifyHead_cons]
        rcases mem_cons.mp (hParts ▸ hPart) with rfl | hPart
        · exact ⟨e :: part, mem_cons_self, mem_cons_of_mem _ hMem⟩
        · exact ⟨part, mem_cons_of_mem _ hPart, hMem⟩

theorem splitOn_eq_pair {a b : Text} : t.splitOn c = [a, b] ↔ t = a ++ c :: b ∧ c ∉ a ∧ c ∉ b := by
  constructor
  · intro h
    have hJoin : [c].intercalate (t.splitOn c) = t := intercalate_splitOn c
    have hNot : ∀ p ∈ t.splitOn c, c ∉ p := fun p hp => not_mem_of_mem_splitOn hp
    rw [h] at hJoin hNot
    refine ⟨?_, hNot a (by simp), hNot b (by simp)⟩
    simpa [List.intercalate] using hJoin.symm
  · rintro ⟨rfl, ha, hb⟩
    have h : ([c].intercalate [a, b]).splitOn c = [a, b] := splitOn_intercalate c
      (by simpa using ⟨ha, hb⟩) (by simp)
    simpa [List.intercalate] using h

/-! ## Hexadecimal -/

/-- The code unit of a hexadecimal digit. -/
def hexDigit (n : Nat) : UInt16 := UInt16.ofNat (if n < 10 then 48 + n else 87 + n)

def isHexDigit (c : UInt16) : Bool := (48 ≤ c && c ≤ 57) || (97 ≤ c && c ≤ 102)

def hexValue (c : UInt16) : Nat := if c ≤ 57 then c.toNat - 48 else c.toNat - 87

/-- `toString('hex')` of a buffer. -/
def toHex (bytes : List UInt8) : Text :=
  bytes.flatMap fun b => [hexDigit (b.toNat / 16), hexDigit (b.toNat % 16)]

/-- `Buffer.from(text, 'hex')`, which stops at the first pair that is not two digits. -/
def fromHex : Text → List UInt8
  | c :: d :: t =>
    if isHexDigit c && isHexDigit d then
      UInt8.ofNat (16 * hexValue c + hexValue d) :: fromHex t
    else []
  | _ => []

theorem length_toHex (bytes : List UInt8) : (toHex bytes).length = 2 * bytes.length := by
  induction bytes with
  | nil => rfl
  | cons b bytes ih =>
    simp only [toHex, flatMap_cons, length_append, length_cons,
      length_nil] at ih ⊢
    omega

theorem hexDigit_spec : ∀ n < 16, isHexDigit (hexDigit n) = true ∧ hexValue (hexDigit n) = n := by
  decide

theorem isHexDigit_of_mem_toHex {bytes : List UInt8} (h : c ∈ toHex bytes) :
    isHexDigit c = true := by
  obtain ⟨b, -, hc⟩ := mem_flatMap.mp h
  have hb := b.toNat_lt
  rcases mem_pair.mp hc with rfl | rfl
  · exact (hexDigit_spec _ (by omega)).1
  · exact (hexDigit_spec _ (by omega)).1

theorem fromHex_toHex (bytes : List UInt8) : fromHex (toHex bytes) = bytes := by
  induction bytes with
  | nil => rfl
  | cons b bytes ih =>
    have hb := b.toNat_lt
    obtain ⟨hHigh, hHighValue⟩ := hexDigit_spec (b.toNat / 16) (by omega)
    obtain ⟨hLow, hLowValue⟩ := hexDigit_spec (b.toNat % 16) (by omega)
    have hByte : UInt8.ofNat (16 * (b.toNat / 16) + b.toNat % 16) = b := by
      rw [Nat.div_add_mod]
      exact UInt8.ofNat_toNat
    change fromHex (hexDigit (b.toNat / 16) :: hexDigit (b.toNat % 16) :: toHex bytes) = _
    rw [fromHex, hHigh, hLow, hHighValue, hLowValue, hByte, ih]
    rfl

/-! ## JSON -/

/-- The UTF-8 length of a code unit on its own in a JSON string: short escapes, `\u` escapes
of the other control characters and of lone surrogates, or the character itself. -/
def unitBytes (c : UInt16) : Nat :=
  if c = 34 || c = 92 || c = 8 || c = 9 || c = 10 || c = 12 || c = 13 then 2
  else if c < 0x20 then 6
  else if c < 0x80 then 1
  else if c < 0x800 then 2
  else if 0xD800 ≤ c && c < 0xE000 then 6
  else 3

def unitsBytes : Text → Nat
  | [] => 0
  | [c] => unitBytes c
  | c :: d :: t => if isPair c d then 4 + unitsBytes t else unitBytes c + unitsBytes (d :: t)

/-- The UTF-8 length of a string in JSON, with its quotes. -/
def jsonBytes (t : Text) : Nat := 2 + unitsBytes t

theorem unitBytes_le (c : UInt16) : unitBytes c ≤ 6 := by
  unfold unitBytes
  repeat' split
  all_goals omega

theorem unitsBytes_le (t : Text) : unitsBytes t ≤ 6 * t.length := by
  fun_induction unitsBytes t with
  | case1 => exact Nat.zero_le _
  | case2 c => simpa using unitBytes_le c
  | case3 c d t _ ih =>
    rw [length_cons, length_cons]
    omega
  | case4 c d t _ ih =>
    have hUnit := unitBytes_le c
    rw [length_cons]
    omega

theorem jsonBytes_le (t : Text) : jsonBytes t ≤ 2 + 6 * t.length :=
  Nat.add_le_add_left (unitsBytes_le t) 2

/-- The length of an integer in JSON. -/
def integerBytes (n : Int) : Nat := (Nat.toDigits 10 n.natAbs).length + if n < 0 then 1 else 0

theorem integerBytes_le {x : Int} (h : x.natAbs ≤ 2 ^ 53) : integerBytes x ≤ 17 := by
  have hDigits : (Nat.toDigits 10 x.natAbs).length ≤ 16 := by
    rw [Nat.length_toDigits_le_iff (by decide) (by decide)]
    omega
  unfold integerBytes
  split <;> omega

end Text

end TMEdge.Library
