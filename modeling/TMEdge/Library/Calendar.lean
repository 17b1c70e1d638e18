import TMEdge.Library.JsText

/-!
# Days

The text of a UTC day, as the first ten units of an ISO time.

* `dayText_lt`: in the years 0 to 9999 the texts are in the order of the days.
* `dayText_injective`: in these years a day is read off its text.
-/

namespace TMEdge.Library

open List

/-! ## Years and months -/

/-- A day of the Gregorian calendar. -/
@[ext]
structure Date where
  year : Int
  month : Int
  day : Int

/-- The day that is `n` days after 1970-01-01, in years that begin in March: 400 years have 146097
days, a century of them 36524, four years 1461. -/
def marchYear (n : Int) : Int × Int :=
  let z := n + 719468
  let rest := z % 146097
  let century := min (rest / 36524) 3
  let rest := rest - 36524 * century
  let four := rest / 1461
  let rest := rest - 1461 * four
  let year := min (rest / 365) 3
  (400 * (z / 146097) + 100 * century + 4 * four + year, rest - 365 * year)

/-- The date of a day; its year begins in January. -/
def dateOf (n : Int) : Date :=
  let year := (marchYear n).1
  let rest := (marchYear n).2
  let month := (5 * rest + 2) / 153
  { year := if month < 10 then year else year + 1
    month := if month < 10 then month + 3 else month - 9
    day := rest - (153 * month + 2) / 5 + 1 }

theorem marchYear_bounds (n : Int) : 0 ≤ (marchYear n).2 ∧ (marchYear n).2 < 366 := by
  dsimp only [marchYear]
  omega

variable {m n : Int}

/-- The quotient and what is left of it, with the quotient cut at `cap`, compare as the number. -/
theorem cut_lt {w : Int} (hw : 0 < w) (cap : Int) (h : m < n) :
    min (m / w) cap < min (n / w) cap ∨ min (m / w) cap = min (n / w) cap ∧
      m - w * min (m / w) cap < n - w * min (n / w) cap := by
  have hLe := Int.ediv_le_ediv hw h.le
  by_cases hEq : min (m / w) cap = min (n / w) cap
  · exact .inr ⟨hEq, by rw [hEq]; omega⟩
  · exact .inl (lt_of_le_of_ne (min_le_min_right cap hLe) hEq)

theorem marchYear_lt (h : m < n) : (marchYear m).1 < (marchYear n).1 ∨
    (marchYear m).1 = (marchYear n).1 ∧ (marchYear m).2 < (marchYear n).2 := by
  dsimp only [marchYear]
  have hEra : (m + 719468) / 146097 < (n + 719468) / 146097 ∨
      (m + 719468) / 146097 = (n + 719468) / 146097 ∧
        (m + 719468) % 146097 < (n + 719468) % 146097 := by omega
  have hm : 0 ≤ (m + 719468) % 146097 ∧ (m + 719468) % 146097 < 146097 := by omega
  have hn : 0 ≤ (n + 719468) % 146097 ∧ (n + 719468) % 146097 < 146097 := by omega
  generalize (m + 719468) / 146097 = a at *
  generalize (n + 719468) / 146097 = a' at *
  generalize (m + 719468) % 146097 = r at *
  generalize (n + 719468) % 146097 = r' at *
  have hCentury := fun hr : r < r' => cut_lt (w := 36524) (by omega) 3 hr
  have hc : 0 ≤ min (r / 36524) 3 ∧ min (r / 36524) 3 ≤ 3 ∧ 0 ≤ r - 36524 * min (r / 36524) 3 ∧
    r - 36524 * min (r / 36524) 3 < 36525 := by omega
  have hc' : 0 ≤ min (r' / 36524) 3 ∧ min (r' / 36524) 3 ≤ 3 ∧
    0 ≤ r' - 36524 * min (r' / 36524) 3 ∧ r' - 36524 * min (r' / 36524) 3 < 36525 := by omega
  generalize min (r / 36524) 3 = c at *
  generalize min (r' / 36524) 3 = c' at *
  generalize r - 36524 * c = s at *
  generalize r' - 36524 * c' = s' at *
  have hFour : s < s' → s / 1461 < s' / 1461 ∨ s / 1461 = s' / 1461 ∧
    s - 1461 * (s / 1461) < s' - 1461 * (s' / 1461) := by omega
  have hf : 0 ≤ s / 1461 ∧ s / 1461 ≤ 24 ∧ 0 ≤ s - 1461 * (s / 1461) ∧
    s - 1461 * (s / 1461) < 1461 := by omega
  have hf' : 0 ≤ s' / 1461 ∧ s' / 1461 ≤ 24 ∧ 0 ≤ s' - 1461 * (s' / 1461) ∧
    s' - 1461 * (s' / 1461) < 1461 := by omega
  generalize s / 1461 = f at *
  generalize s' / 1461 = f' at *
  generalize s - 1461 * f = t at *
  generalize s' - 1461 * f' = t' at *
  have hYear := fun ht : t < t' => cut_lt (w := 365) (by omega) 3 ht
  have hy : 0 ≤ min (t / 365) 3 ∧ min (t / 365) 3 ≤ 3 := by omega
  have hy' : 0 ≤ min (t' / 365) 3 ∧ min (t' / 365) 3 ≤ 3 := by omega
  generalize min (t / 365) 3 = y at *
  generalize min (t' / 365) 3 = y' at *
  omega

theorem dateOf_bounds (n : Int) :
    (1 ≤ (dateOf n).month ∧ (dateOf n).month ≤ 12) ∧ 1 ≤ (dateOf n).day ∧ (dateOf n).day ≤ 31 := by
  have hRest := marchYear_bounds n
  dsimp only [dateOf]
  omega

theorem dateOf_lt (h : m < n) : (dateOf m).year < (dateOf n).year ∨
    (dateOf m).year = (dateOf n).year ∧ ((dateOf m).month < (dateOf n).month ∨
      (dateOf m).month = (dateOf n).month ∧ (dateOf m).day < (dateOf n).day) := by
  have hm := marchYear_bounds m
  have hn := marchYear_bounds n
  have hLt := marchYear_lt h
  dsimp only [dateOf]
  generalize marchYear m = p at *
  generalize marchYear n = q at *
  omega

theorem year_le {m n : Int} (h : m ≤ n) : (dateOf m).year ≤ (dateOf n).year := by
  rcases h.lt_or_eq with hLt | rfl
  · rcases dateOf_lt hLt with hYear | ⟨hYear, -⟩
    · exact hYear.le
    · exact hYear.le
  · exact le_refl _

/-! ## Texts -/

/-- A number in so many digits. -/
def padded : Nat → Nat → Text
  | 0, _ => []
  | width + 1, n => padded width (n / 10) ++ [UInt16.ofNat (48 + n % 10)]

theorem length_padded (width n : Nat) : (padded width n).length = width := by
  induction width generalizing n with
  | zero => rfl
  | succ width ih => rw [padded, length_append, ih, length_singleton]

theorem append_lt {a a' : Text} (hLength : a.length = a'.length) (h : a < a') (b b' : Text) :
    a ++ b < a' ++ b' := by
  induction a generalizing a' with
  | nil => cases a' with
    | nil => exact absurd h (not_lt_nil [])
    | cons c a' => simp at hLength
  | cons c a ih =>
    cases a' with
    | nil => simp at hLength
    | cons c' a' =>
      rw [cons_append, cons_append, cons_lt_cons_iff]
      rcases cons_lt_cons_iff.mp h with hLt | ⟨hEq, hLt⟩
      · exact .inl hLt
      · exact .inr ⟨hEq, ih (by simpa using hLength) hLt⟩

theorem take_lt {a a' : Text} (h : a < a') (n : Nat) :
    a.take n < a'.take n ∨ a.take n = a'.take n := by
  induction n generalizing a a' with
  | zero => exact .inr rfl
  | succ n ih =>
    match a, a' with
    | _, [] => exact absurd h (not_lt_nil _)
    | [], c' :: a' => exact .inl (nil_lt_cons c' _)
    | c :: a, c' :: a' =>
      rw [take_succ_cons, take_succ_cons, cons_lt_cons_iff]
      rcases cons_lt_cons_iff.mp h with hLt | ⟨rfl, hLt⟩
      · exact .inl (.inl hLt)
      · rcases ih hLt with h | h
        · exact .inl (.inr ⟨rfl, h⟩)
        · exact .inr (by rw [h])

theorem padded_lt {width m n : Nat} (h : m < n) (hn : n < 10 ^ width) :
    padded width m < padded width n := by
  induction width generalizing m n with
  | zero => omega
  | succ width ih =>
    rw [padded, padded]
    by_cases hHigh : m / 10 < n / 10
    · exact append_lt (by rw [length_padded, length_padded]) (ih hHigh (by omega)) _ _
    · rw [show m / 10 = n / 10 by omega]
      refine append_left_lt (cons_lt_cons_iff.mpr (.inl ?_))
      rw [UInt16.lt_iff_toNat_lt, UInt16.toNat_ofNat_of_lt' (by rw [UInt16.size]; omega),
        UInt16.toNat_ofNat_of_lt' (by rw [UInt16.size]; omega)]
      omega

/-- The year of an ISO time; other years than 0 to 9999 have a sign and six digits. -/
def yearText (year : Int) : Text :=
  if 0 ≤ year ∧ year ≤ 9999 then padded 4 year.toNat
  else (if year < 0 then js "-" else js "+") ++ padded 6 year.natAbs

/-- `toISOString().slice(0, 10)` of a time on a day. -/
def dayText (n : Int) : Text :=
  let date := dateOf n
  (yearText date.year ++ js "-" ++ padded 2 date.month.toNat ++ js "-" ++
    padded 2 date.day.toNat).take 10

/-- The day of a time in milliseconds. -/
def dayOf (time : Int) : Int := time / 86400000

theorem dayText_eq (h : 0 ≤ (dateOf n).year ∧ (dateOf n).year ≤ 9999) : dayText n =
    padded 4 (dateOf n).year.toNat ++ (js "-" ++ (padded 2 (dateOf n).month.toNat ++
      (js "-" ++ padded 2 (dateOf n).day.toNat))) := by
  rw [dayText, yearText, if_pos h, take_of_length_le]
  · simp only [append_assoc]
  · simp only [length_append, length_padded]
    exact Nat.le_refl 10

theorem dayText_lt (hm : 0 ≤ (dateOf m).year ∧ (dateOf m).year ≤ 9999)
    (hn : 0 ≤ (dateOf n).year ∧ (dateOf n).year ≤ 9999) (h : m < n) : dayText m < dayText n := by
  obtain ⟨⟨hm1, hm2⟩, hm3, hm4⟩ := dateOf_bounds m
  obtain ⟨⟨hn1, hn2⟩, hn3, hn4⟩ := dateOf_bounds n
  rw [dayText_eq hm, dayText_eq hn]
  rcases dateOf_lt h with hYear | ⟨hYear, hMonth | ⟨hMonth, hDay⟩⟩
  · exact append_lt (by rw [length_padded, length_padded]) (padded_lt (by omega) (by omega)) _ _
  · rw [hYear]
    refine append_left_lt (append_left_lt ?_)
    exact append_lt (by rw [length_padded, length_padded]) (padded_lt (by omega) (by omega)) _ _
  · rw [hYear, hMonth]
    refine append_left_lt (append_left_lt (append_left_lt (append_left_lt ?_)))
    exact padded_lt (by omega) (by omega)

theorem dayText_injective (hm : 0 ≤ (dateOf m).year ∧ (dateOf m).year ≤ 9999)
    (hn : 0 ≤ (dateOf n).year ∧ (dateOf n).year ≤ 9999) (h : dayText m = dayText n) : m = n := by
  rcases lt_trichotomy m n with hLt | hEq | hGt
  · exact absurd (h ▸ dayText_lt hm hn hLt) (List.lt_irrefl _)
  · exact hEq
  · exact absurd (h ▸ dayText_lt hn hm hGt) (List.lt_irrefl _)

example : dayText (dayOf 1767225600000) = js "2026-01-01" := by decide

end TMEdge.Library
