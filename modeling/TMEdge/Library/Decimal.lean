import TMEdge.Library.JsText

/-!
# Numbers in texts

* `decimal_injective`: a number is read off its text.
* `decimal_digits`: the text has digits only.
-/

namespace TMEdge.Library.Text

/-- `String` of a natural number -/
def decimal (n : Nat) : Text := (Nat.toDigits 10 n).map fun c => UInt16.ofNat c.toNat

variable {n : Nat}

theorem digit_of_mem {c : Char} (h : c ∈ Nat.toDigits 10 n) : 48 ≤ c.toNat ∧ c.toNat ≤ 57 := by
  have hDigit := Nat.isDigit_of_mem_toDigits (by decide) (by decide) h
  simp only [Char.isDigit, Bool.and_eq_true, decide_eq_true_eq] at hDigit
  exact ⟨UInt32.le_iff_toNat_le.mp hDigit.1, UInt32.le_iff_toNat_le.mp hDigit.2⟩

theorem toNat_digit {c : Char} (h : c ∈ Nat.toDigits 10 n) :
    (UInt16.ofNat c.toNat).toNat = c.toNat := by
  have hHigh := (digit_of_mem h).2
  refine UInt16.toNat_ofNat_of_lt' ?_
  rw [UInt16.size]
  omega

theorem decimal_digits {c : UInt16} (h : c ∈ decimal n) : 48 ≤ c ∧ c ≤ 57 := by
  obtain ⟨d, hd, rfl⟩ := List.mem_map.mp h
  obtain ⟨hLow, hHigh⟩ := digit_of_mem hd
  have hNat := toNat_digit hd
  constructor
  · rw [UInt16.le_iff_toNat_le, hNat]
    exact hLow
  · rw [UInt16.le_iff_toNat_le, hNat]
    exact hHigh

theorem map_decimal (n : Nat) :
    (decimal n).map (fun c => Char.ofNat c.toNat) = Nat.toDigits 10 n := by
  rw [decimal, List.map_map]
  refine (List.map_congr_left fun c hc => ?_).trans (List.map_id _)
  rw [Function.comp_apply, toNat_digit hc, Char.ofNat_toNat, id]

theorem decimal_injective : Function.Injective decimal := by
  intro m n h
  have hChars : Nat.toDigits 10 m = Nat.toDigits 10 n := by
    rw [← map_decimal m, ← map_decimal n, h]
  calc
    m = Nat.ofDigitChars 10 (Nat.toDigits 10 m) 0 := Nat.ofDigitChars_ten_toDigits.symm
    _ = Nat.ofDigitChars 10 (Nat.toDigits 10 n) 0 := by rw [hChars]
    _ = n := Nat.ofDigitChars_ten_toDigits

end TMEdge.Library.Text
