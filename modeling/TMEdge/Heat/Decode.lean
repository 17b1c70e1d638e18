import Mathlib
import TMEdge.Library.Plateau

/-!
# People from a heatmap

`heatDecode` of `algo/heatmodel.ts`. The squashing function is a parameter, of which nothing is
used; what is compared is its values, the confidences.

* `heatDecode_iff`: the flat tops that are one person.
* `vee`: a flat top that is two.
-/

namespace TMEdge.Heat

open Library List

variable {V P : Type*} [Zero V] [Zero P] [LinearOrder P]

/-- People in thermal pixels; the confidence is the value at the peak. -/
structure HeatDetection (P : Type*) where
  x : ℚ
  y : ℚ
  confidence : P
  deriving DecidableEq

/-- `p`. -/
def squashed (squash : V → P) (heatmap : List V) (h w : Nat) : List P :=
  (List.range (h * w)).map fun i => squash (heatmap.getD i 0)

/-- `di` and `dj`. -/
def offsets : List (Int × Int) := [-1, 0, 1].flatMap fun di => [-1, 0, 1].map fun dj => (di, dj)

/-- The inner loops for the cell (`i`, `j`). -/
def isPeak (p : List P) (h w : Nat) (i j : Int) : Bool :=
  let v := p.getD (i * w + j).toNat 0
  offsets.all fun (di, dj) =>
    if (di = 0 ∧ dj = 0) ∨ i + di < 0 ∨ h ≤ i + di ∨ j + dj < 0 ∨ w ≤ j + dj then true
    else
      let n := p.getD ((i + di) * w + (j + dj)).toNat 0
      !(v < n || (n = v && (i + di) * w + (j + dj) < i * w + j))

abbrev Cell (h w : Nat) := Fin h × Fin w

/-- The cells in raster order. -/
def cells (h w : Nat) : List (Cell h w) :=
  (List.finRange h).flatMap fun i => (List.finRange w).map fun j => (i, j)

/-- The cells for which something is pushed. -/
def peaks (p : List P) (threshold : P) (h w : Nat) : List (Cell h w) :=
  (cells h w).filter fun (i, j) =>
    !(p.getD (i * w + j) 0 < threshold) && isPeak p h w (i : Nat) (j : Nat)

/-- What is pushed for a cell. -/
def person (p : List P) (offset : List ℚ) (h w : Nat) (stride : ℚ) : Cell h w → HeatDetection P
  | (i, j) =>
    ⟨stride * ((j : Nat) + 1 / 2 + offset.getD (i * w + j) 0),
      stride * ((i : Nat) + 1 / 2 + offset.getD (h * w + i * w + j) 0), p.getD (i * w + j) 0⟩

/-- The defaults are 12, 16 and 2. -/
def heatDecode (squash : V → P) (heatmap : List V) (offset : List ℚ) (threshold : P) (h w : Nat)
    (stride : ℚ) : List (HeatDetection P) :=
  let p := squashed squash heatmap h w
  (peaks p threshold h w).map (person p offset h w stride)

/-! ## Cells -/

variable {h w : Nat} {c d : Cell h w} {p : List P} {threshold : P}

/-- At a side or a corner. -/
def Near (c d : Cell h w) : Prop :=
  c ≠ d ∧ (c.1.val ≤ d.1 + 1 ∧ d.1.val ≤ c.1 + 1) ∧ c.2.val ≤ d.2 + 1 ∧ d.2.val ≤ c.2 + 1

instance : DecidableRel (Near (h := h) (w := w)) := fun _ _ => inferInstanceAs (Decidable (_ ∧ _))

/-- The place in raster order. -/
def place (c : Cell h w) : Nat := c.1 * w + c.2

def value (p : List P) (c : Cell h w) : P := p.getD (place c) 0

theorem near_symm (c d : Cell h w) (hNear : Near c d) : Near d c :=
  ⟨hNear.1.symm, hNear.2.1.symm, hNear.2.2.symm⟩

theorem place_injective : Function.Injective (place (h := h) (w := w)) := by
  rintro ⟨i, j⟩ ⟨i', j'⟩ hEq
  have hj := j.isLt
  have hj' := j'.isLt
  unfold place at hEq
  dsimp only at hEq
  have hRow : i.val = i'.val := by
    rcases Nat.lt_trichotomy i.val i'.val with hLt | hEqRow | hGt
    · have := Nat.mul_le_mul_right w (Nat.succ_le_of_lt hLt)
      rw [Nat.succ_mul] at this
      omega
    · exact hEqRow
    · have := Nat.mul_le_mul_right w (Nat.succ_le_of_lt hGt)
      rw [Nat.succ_mul] at this
      omega
  have hCol : j.val = j'.val := by
    rw [hRow] at hEq
    omega
  exact Prod.ext (Fin.ext hRow) (Fin.ext hCol)

theorem mem_cells (c : Cell h w) : c ∈ cells h w :=
  mem_flatMap.mpr ⟨c.1, mem_finRange _, mem_map.mpr ⟨c.2, mem_finRange _, rfl⟩⟩

theorem nodup_cells : (cells h w).Nodup := by
  refine nodup_flatMap.mpr ⟨fun i _ => ?_, ?_⟩
  · exact (nodup_finRange w).map fun j j' hEq => (Prod.mk.inj hEq).2
  · refine (nodup_finRange h).imp fun {i i'} hNe => ?_
    intro c hc hc'
    obtain ⟨j, -, rfl⟩ := mem_map.mp hc
    obtain ⟨j', -, hEq⟩ := mem_map.mp hc'
    exact hNe (Prod.mk.inj hEq).1.symm

theorem mem_offsets {o : Int × Int} : o ∈ offsets ↔ (-1 ≤ o.1 ∧ o.1 ≤ 1) ∧ -1 ≤ o.2 ∧ o.2 ≤ 1 := by
  obtain ⟨di, dj⟩ := o
  simp only [offsets, mem_flatMap, mem_map, Prod.mk.injEq, mem_cons,
    not_mem_nil, or_false]
  constructor
  · rintro ⟨y, hy, x, hx, rfl, rfl⟩
    omega
  · rintro ⟨hy, hx⟩
    exact ⟨di, by omega, dj, by omega, rfl, rfl⟩

/-! ## The tie rule -/

/-- What the inner loops look for. -/
def Beats (p : List P) (c d : Cell h w) : Prop :=
  value p c < value p d ∨ value p d = value p c ∧ place d < place c

theorem isPeak_iff_not_beats (p : List P) (c : Cell h w) :
    isPeak p h w (c.1 : Nat) (c.2 : Nat) = true ↔ ∀ d, Near c d → ¬ Beats p c d := by
  have hOwn : (((c.1 : Nat) : Int) * w + (c.2 : Nat)) = (place c : Nat) := by
    rw [place]
    push_cast
    rfl
  have hBeats : ∀ d : Cell h w, (!(p.getD (((place c : Nat) : Int)).toNat 0 <
      p.getD (((place d : Nat) : Int)).toNat 0 || (p.getD (((place d : Nat) : Int)).toNat 0 =
      p.getD (((place c : Nat) : Int)).toNat 0 && ((place d : Nat) : Int) < (place c : Nat)))) =
      true ↔ ¬ Beats p c d := by
    intro d
    simp only [Int.toNat_natCast, Bool.not_eq_true', Bool.or_eq_false_iff, decide_eq_false_iff_not,
      Bool.and_eq_false_iff, Int.ofNat_lt, Beats, value, not_or, not_and_or]
  unfold isPeak
  simp only [all_eq_true, hOwn]
  constructor
  · intro hAll d hNear
    obtain ⟨hNe, hRows, hCols⟩ := hNear
    have hOther : ((c.1 : Nat) + ((d.1 : Nat) - (c.1 : Nat) : Int)) * w +
        ((c.2 : Nat) + ((d.2 : Nat) - (c.2 : Nat) : Int)) = (place d : Nat) := by
      rw [place]
      push_cast
      ring
    have hOffset := hAll ((d.1 : Nat) - (c.1 : Nat), (d.2 : Nat) - (c.2 : Nat))
      (mem_offsets.mpr (by dsimp only; omega))
    have hRow := d.1.isLt
    have hCol := d.2.isLt
    have hMoved :
        ¬ (((d.1 : Nat) : Int) - (c.1 : Nat) = 0 ∧ ((d.2 : Nat) : Int) - (c.2 : Nat) = 0) :=
      fun hEq => hNe (Prod.ext (Fin.ext (by omega)) (Fin.ext (by omega)))
    dsimp only at hOffset
    rw [if_neg (by omega), hOther] at hOffset
    exact (hBeats d).mp hOffset
  · rintro hNone ⟨di, dj⟩ ho
    rw [mem_offsets] at ho
    dsimp only at ho ⊢
    split
    · rfl
    · rename_i hInside
      let d : Cell h w :=
        (⟨((c.1 : Nat) + di).toNat, by omega⟩, ⟨((c.2 : Nat) + dj).toNat, by omega⟩)
      have hRow : ((d.1 : Nat) : Int) = (c.1 : Nat) + di := Int.toNat_of_nonneg (by omega)
      have hCol : ((d.2 : Nat) : Int) = (c.2 : Nat) + dj := Int.toNat_of_nonneg (by omega)
      have hOther : ((c.1 : Nat) + di) * w + ((c.2 : Nat) + dj) = (place d : Nat) := by
        rw [place, ← hRow, ← hCol]
        push_cast
        rfl
      rw [hOther]
      refine (hBeats d).mpr (hNone d ⟨fun hEq => ?_, by omega, by omega⟩)
      rw [← hEq] at hRow hCol
      omega

theorem isPeak_iff (p : List P) (c : Cell h w) :
    isPeak p h w (c.1 : Nat) (c.2 : Nat) = true ↔ Peak Near (value p) place c := by
  rw [isPeak_iff_not_beats]
  constructor
  · intro hNone
    exact ⟨fun ⟨d, hNear, hLt⟩ => hNone d hNear (Or.inl hLt),
      fun d hNear hEq => not_lt.mp fun hLt => hNone d hNear (Or.inr ⟨hEq, hLt⟩)⟩
  · rintro ⟨hFree, hLeads⟩ d hNear (hLt | ⟨hEq, hLt⟩)
    · exact hFree ⟨d, hNear, hLt⟩
    · exact absurd hLt (not_lt.mpr (hLeads d hNear hEq))

theorem mem_peaks : c ∈ peaks p threshold h w ↔
    threshold ≤ value p c ∧ Peak Near (value p) place c := by
  unfold peaks
  rw [mem_filter, Bool.and_eq_true, isPeak_iff]
  simp [mem_cells, value, place]

theorem nodup_peaks : (peaks p threshold h w).Nodup := nodup_cells.filter _

/-! ## Flat tops -/

open Classical in
/-- A flat top is one person: every detection is on a plateau at the threshold or above it with
nothing greater next to it, and every such plateau has one detection. -/
def FlatTopsAreOne (p : List P) (threshold : P) (h w : Nat) : Prop :=
  (∀ c ∈ peaks p threshold h w, threshold ≤ value p c ∧ Summit Near (value p) c) ∧
  ∀ c : Cell h w, threshold ≤ value p c → Summit Near (value p) c →
    (peaks p threshold h w).countP (fun d => decide (Plateau Near (value p) c d)) = 1

/-- Every cell at the threshold or above it with no equal cell next to it and before it is the
first of its plateau or, where the plateau has a greater cell next to it, has one itself. -/
def Unambiguous (p : List P) (threshold : P) (h w : Nat) : Prop :=
  ∀ c : Cell h w, threshold ≤ value p c → Leads Near (value p) place c →
    (Summit Near (value p) c → FirstOf Near (value p) place c) ∧
    (¬ Summit Near (value p) c → Overlooked Near (value p) c)

theorem countP_eq_one_iff {β : Type*} {l : List β} (hNodup : l.Nodup) (q : β → Bool) :
    l.countP q = 1 ↔ ∃! b, b ∈ l ∧ q b = true := by
  rw [countP_eq_length_filter, length_eq_one_iff]
  constructor
  · rintro ⟨b, hEq⟩
    refine ⟨b, mem_filter.mp (hEq ▸ mem_singleton_self b), fun b' hb' => ?_⟩
    exact mem_singleton.mp (hEq ▸ mem_filter.mpr hb')
  · rintro ⟨b, hb, hUnique⟩
    refine ⟨b, perm_singleton.mp ?_⟩
    refine (perm_ext_iff_of_nodup (hNodup.filter _) (nodup_singleton b)).mpr fun b' => ?_
    rw [mem_filter, mem_singleton]
    exact ⟨hUnique b', fun hEq => hEq ▸ hb⟩

/-- Of the cells of a summit, those that are detected are its peaks. -/
theorem countP_peaks (hc : threshold ≤ value p c) (q : Cell h w → Bool)
    (hq : ∀ d, q d = true ↔ Plateau Near (value p) c d) :
    (peaks p threshold h w).countP q = 1 ↔
      ∃! d, Plateau Near (value p) c d ∧ Peak Near (value p) place d := by
  rw [countP_eq_one_iff nodup_peaks]
  refine existsUnique_congr fun d => ?_
  rw [hq, mem_peaks]
  constructor
  · rintro ⟨⟨-, hPeak⟩, hPlateau⟩
    exact ⟨hPlateau, hPeak⟩
  · rintro ⟨hPlateau, hPeak⟩
    exact ⟨⟨hPlateau.value.symm ▸ hc, hPeak⟩, hPlateau⟩

/-- What is detected are the people at the peaks, and flat tops are one person each exactly where
no plateau has two cells that lead it. -/
theorem heatDecode_iff (squash : V → P) (heatmap : List V) (threshold : P) (h w : Nat) :
    (∀ offset stride, heatDecode squash heatmap offset threshold h w stride =
      let p := squashed squash heatmap h w
      (peaks p threshold h w).map (person p offset h w stride)) ∧
    (FlatTopsAreOne (squashed squash heatmap h w) threshold h w ↔
      Unambiguous (squashed squash heatmap h w) threshold h w) := by
  classical
  refine ⟨fun _ _ => rfl, ?_⟩
  generalize squashed squash heatmap h w = p
  have hIff := one_peak_iff (v := value p) (D := fun c : Cell h w => threshold ≤ value p c)
    near_symm place_injective (fun a b hEq ha => hEq ▸ ha)
  rw [Unambiguous, ← hIff, FlatTopsAreOne]
  refine and_congr ⟨fun hAll c hc hPeak => (hAll c (mem_peaks.mpr ⟨hc, hPeak⟩)).2,
    fun hAll c hMem => ?_⟩ (forall_congr' fun c => imp_congr_right fun hc => imp_congr_right
      fun _ => countP_peaks hc _ fun d => decide_eq_true_iff)
  obtain ⟨hc, hPeak⟩ := mem_peaks.mp hMem
  exact ⟨hc, hAll c hc hPeak⟩

/-- Three equal cells in the shape of a V. -/
def vee : List ℚ := [1, 0, 1, 0, 1, 0]

/-- Both ends of the V are detected. -/
theorem peaks_vee : peaks (squashed id vee 2 3) (1 / 2) 2 3 = [(0, 0), (0, 2)] := by
  decide +kernel

theorem value_vee_le (c : Cell 2 3) : value (squashed id vee 2 3) c ≤ 1 := by
  revert c
  decide

theorem flatTop_vee : ¬ ∀ (squash : ℚ → ℚ) (heatmap : List ℚ) (threshold : ℚ) (h w : Nat),
    Monotone squash → FlatTopsAreOne (squashed squash heatmap h w) threshold h w := by
  classical
  intro hAll
  obtain ⟨-, hOne⟩ := hAll id vee (1 / 2) 2 3 monotone_id
  have hTop : value (squashed id vee 2 3) ((0, 0) : Cell 2 3) = 1 := by decide
  have hSummit : Summit Near (value (squashed id vee 2 3)) ((0, 0) : Cell 2 3) := by
    rintro d hd ⟨n, -, hLt⟩
    rw [hd.value, hTop] at hLt
    exact absurd hLt (not_lt.mpr (value_vee_le n))
  have hEnds : Plateau Near (value (squashed id vee 2 3)) ((0, 0) : Cell 2 3) (0, 2) :=
    (Relation.ReflTransGen.single (b := (1, 1)) (by decide)).tail (by decide)
  have hCount := hOne (0, 0) (by decide +kernel) hSummit
  rw [peaks_vee, List.countP_eq_length.mpr fun d hd => ?_] at hCount
  · cases hCount
  · rcases List.mem_pair.mp hd with rfl | rfl
    · exact decide_eq_true (.refl _)
    · exact decide_eq_true hEnds

end TMEdge.Heat
