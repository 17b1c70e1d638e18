import TMEdge.Library.Adding
import TMEdge.Library.JsText

/-!
# One convolution

`conv` of `algo/heatmodel.ts`, in exact arithmetic; it is `none` where an index lies outside an
array. `convAt` is what it stands for: weights times the picture padded with zeros.

* `conv_eq`: it reads inside the input, and its entries are `convAt`.
-/

namespace TMEdge.Heat

open Library List

variable {R : Type*}

structure Tensor (R : Type*) where
  c : Nat
  h : Nat
  w : Nat
  d : List R

/-- The fields `in` and `out` are `cin` and `cout`. -/
structure ConvLayer (R : Type*) where
  input : Text
  output : Text
  cin : Nat
  cout : Nat
  k : Nat
  stride : Nat
  relu : Bool
  w : List R
  b : List R

/-- `Math.ceil(a / s)`; the division itself rounds down. -/
def ceilDiv (a s : Int) : Int := -(-a / s)

/-- An element of an array of numbers, if there is one. -/
def at? (l : List R) (i : Int) : Option R := if i < 0 then none else l[i.toNat]?

/-- `out.fill(v, lo, hi)`. -/
def fill (out : List R) (v : R) (lo hi : Nat) : List R :=
  out.mapIdx fun q a => if lo ≤ q ∧ q < hi then v else a

section

variable [Semiring R] [LinearOrder R]

/-- `out[i] = out[i] + wv * xd[j]`. -/
def addTap (out xd : List R) (wv : R) (i j : Int) : Option (List R) := do
  let a ← at? out i
  let b ← at? xd j
  some (out.set i.toNat (a + wv * b))

/-- The length of a side of the output. -/
def side (n k stride : Nat) : Nat :=
  let pad : Int := (k - 1) / 2
  (((n : Int) + 2 * pad - k) / stride + 1).toNat

/-- The loops over the rows and the columns in which one tap stays inside the frame. -/
def addTaps (x : Tensor R) (L : ConvLayer R) (o c ky kx : Nat) (out : List R) : Option (List R) :=
  let s : Int := L.stride
  let pad : Int := (L.k - 1) / 2
  let ho := side x.h L.k L.stride
  let wo := side x.w L.k L.stride
  let y0 := max 0 (ceilDiv (pad - ky) s)
  let y1 := min ((ho : Int) - 1) ((x.h - 1 + pad - ky) / s)
  let wv := L.w.getD (((o * L.cin + c) * L.k + ky) * L.k + kx) 0
  if wv = 0 then some out
  else
    let x0 := max 0 (ceilDiv (pad - kx) s)
    let x1 := min ((wo : Int) - 1) ((x.w - 1 + pad - kx) / s)
    (between y0 y1).foldlM (fun out y =>
      let inRow : Int := (c * x.h * x.w : Nat) + (y * s + ky - pad) * x.w + kx - pad
      let outRow : Int := (o * (ho * wo) : Nat) + y * wo
      (between x0 x1).foldlM (fun out xx =>
        addTap out x.d wv (outRow + xx) (inRow + xx * s)) out) out

/-- The loops for one output channel, after its plane is filled. -/
def addChannel (x : Tensor R) (L : ConvLayer R) (o : Nat) (out : List R) : Option (List R) :=
  (List.range L.cin).foldlM (fun out c =>
    (List.range L.k).foldlM (fun out ky =>
      (List.range L.k).foldlM (fun out kx => addTaps x L o c ky kx out) out) out) out

end

/-! ## What it stands for -/

section

variable [Semiring R] [LinearOrder R] (x : Tensor R) (L : ConvLayer R)

/-- The input with zeros around it. -/
def Tensor.padded (x : Tensor R) (c : Nat) (y xx : Int) : R :=
  if (0 ≤ y ∧ y < x.h) ∧ 0 ≤ xx ∧ xx < x.w then
    x.d.getD ((c * x.h + y.toNat) * x.w + xx.toNat) 0
  else 0

/-- The weighted input below one tap. -/
def tapAt (o y xx c ky kx : Nat) : R :=
  let pad : Int := (L.k - 1) / 2
  L.w.getD (((o * L.cin + c) * L.k + ky) * L.k + kx) 0 *
    x.padded c (y * L.stride + ky - pad) (xx * L.stride + kx - pad)

end

/-! ## One tap -/

theorem at?_natCast [Zero R] {l : List R} {i : Nat} (hi : i < l.length) :
    at? l (i : Int) = some (l.getD i 0) := by
  rw [at?, if_neg (by omega), Int.toNat_natCast, getD_eq_getElem _ _ hi,
    getElem?_eq_getElem hi]

theorem ceilDiv_le_iff {a s y : Int} (hs : 0 < s) : ceilDiv a s ≤ y ↔ a ≤ y * s := by
  rw [ceilDiv, neg_le, Int.le_ediv_iff_mul_le hs, neg_mul, neg_le_neg_iff]

/-- The rows, or the columns, in which a tap lies inside the frame. -/
theorem mem_inside {pad ky s : Int} (hs : 0 < s) (n ho : Nat) (y : Int) :
    y ∈ between (max 0 (ceilDiv (pad - ky) s)) (min ((ho : Int) - 1) ((n - 1 + pad - ky) / s)) ↔
      (0 ≤ y ∧ y < ho) ∧ 0 ≤ y * s + ky - pad ∧ y * s + ky - pad < n := by
  rw [mem_between, max_le_iff, le_min_iff, ceilDiv_le_iff hs, Int.le_ediv_iff_mul_le hs]
  omega

theorem length_fill (out : List R) (v : R) (lo hi : Nat) : (fill out v lo hi).length = out.length :=
  length_mapIdx

variable [Semiring R] {x : Tensor R} {L : ConvLayer R} {out : List R}

theorem adds_addTap {wv : R} {xd : List R} {i j : Nat} (hi : i < out.length)
    (hj : j < xd.length) : ∃ out', addTap out xd wv i j = some out' ∧
      Adds out out' fun q => if i = q then wv * xd.getD j 0 else 0 := by
  refine ⟨_, ?_, adds_set out i (wv * xd.getD j 0)⟩
  rw [addTap, at?_natCast hi, at?_natCast hj]
  rfl

/-- A layer and an input it is made for. -/
structure Fits (x : Tensor R) (L : ConvLayer R) : Prop where
  size : x.d.length = x.c * x.h * x.w
  channels : x.c = L.cin
  high : 1 ≤ x.h
  wide : 1 ≤ x.w
  kernel : L.k = 1 ∨ L.k = 3
  stride : L.stride = 1 ∨ L.stride = 2

/-- One multiplication, at a row and a column where the tap stays inside. -/
theorem adds_one (h : Fits x L) {o c ho wo : Nat} (ho' : o < L.cout) (hc : c < L.cin)
    (hLength : out.length = L.cout * (ho * wo)) {y xx s ky kx pad : Int} (wv : R)
    (hy : (0 ≤ y ∧ y < ho) ∧ 0 ≤ y * s + ky - pad ∧ y * s + ky - pad < x.h)
    (hx : (0 ≤ xx ∧ xx < wo) ∧ 0 ≤ xx * s + kx - pad ∧ xx * s + kx - pad < x.w) :
    ∃ out', addTap out x.d wv ((o * (ho * wo) : Nat) + y * wo + xx)
        ((c * x.h * x.w : Nat) + (y * s + ky - pad) * x.w + kx - pad + xx * s) = some out' ∧
      Adds out out' fun q => if o * (ho * wo) + (y.toNat * wo + xx.toNat) = q then
        wv * x.padded c (y * s + ky - pad) (xx * s + kx - pad) else 0 := by
  obtain ⟨⟨hy0, hyo⟩, hr0, hrh⟩ := hy
  obtain ⟨⟨hx0, hxo⟩, ht0, htw⟩ := hx
  have hPadded : x.padded c (y * s + ky - pad) (xx * s + kx - pad) =
      x.d.getD ((c * x.h + (y * s + ky - pad).toNat) * x.w + (xx * s + kx - pad).toNat) 0 :=
    if_pos ⟨⟨hr0, hrh⟩, ht0, htw⟩
  have hOut : ((o * (ho * wo) : Nat) + y * wo + xx : Int) =
      (o * (ho * wo) + (y.toNat * wo + xx.toNat) : Nat) := by
    push_cast
    rw [Int.toNat_of_nonneg hy0, Int.toNat_of_nonneg hx0, add_assoc]
  have hIn : ((c * x.h * x.w : Nat) + (y * s + ky - pad) * x.w + kx - pad + xx * s : Int) =
      ((c * x.h + (y * s + ky - pad).toNat) * x.w + (xx * s + kx - pad).toNat : Nat) := by
    push_cast
    rw [Int.toNat_of_nonneg hr0, Int.toNat_of_nonneg ht0]
    ring
  rw [hOut, hIn, hPadded]
  refine adds_addTap ?_ ?_
  · rw [hLength]
    exact flat_lt ho' (flat_lt (by omega) (by omega))
  · rw [h.size, h.channels]
    exact flat_lt (flat_lt hc (by omega)) (by omega)

/-- The two loops of one tap. -/
theorem adds_between (h : Fits x L) {o c ho wo : Nat} (ho' : o < L.cout) (hc : c < L.cin)
    {y0 y1 x0 x1 s ky kx pad : Int} (wv : R)
    (hy : ∀ y ∈ between y0 y1,
      (0 ≤ y ∧ y < ho) ∧ 0 ≤ y * s + ky - pad ∧ y * s + ky - pad < x.h)
    (hx : ∀ xx ∈ between x0 x1,
      (0 ≤ xx ∧ xx < wo) ∧ 0 ≤ xx * s + kx - pad ∧ xx * s + kx - pad < x.w)
    (hLength : out.length = L.cout * (ho * wo)) :
    ∃ out', (between y0 y1).foldlM (fun out y =>
        (between x0 x1).foldlM (fun out xx =>
          addTap out x.d wv ((o * (ho * wo) : Nat) + y * wo + xx)
            ((c * x.h * x.w : Nat) + (y * s + ky - pad) * x.w + kx - pad + xx * s)) out) out =
        some out' ∧
      Adds out out' fun q => ((between y0 y1).map fun y => ((between x0 x1).map fun xx =>
        if o * (ho * wo) + (y.toNat * wo + xx.toNat) = q then
          wv * x.padded c (y * s + ky - pad) (xx * s + kx - pad) else 0).sum).sum :=
  adds_foldlM _ (fun y hMem _ hLength => adds_foldlM _ (fun xx hMem' _ hLength =>
    adds_one h ho' hc hLength wv (hy y hMem) (hx xx hMem')) hLength) hLength

/-- The terms of one tap, of which at most one is for the place `q`. -/
theorem sum_taps {o ho wo q : Nat} (hq : 0 < ho * wo) {y0 y1 x0 x1 : Int} (hy0 : 0 ≤ y0)
    (hy1 : y1 < ho) (hx0 : 0 ≤ x0) (hx1 : x1 < wo) (t : Int → Int → R) :
    ((between y0 y1).map fun y => ((between x0 x1).map fun xx =>
      if o * (ho * wo) + (y.toNat * wo + xx.toNat) = q then t y xx else 0).sum).sum =
    if q / (ho * wo) = o ∧ (y0 ≤ (q % (ho * wo) / wo : Nat) ∧ (q % (ho * wo) / wo : Nat) ≤ y1) ∧
        x0 ≤ (q % (ho * wo) % wo : Nat) ∧ (q % (ho * wo) % wo : Nat) ≤ x1 then
      t (q % (ho * wo) / wo : Nat) (q % (ho * wo) % wo : Nat) else 0 := by
  have hWide : 0 < wo := Nat.pos_of_mul_pos_left hq
  set Y := q % (ho * wo) / wo with hY
  set X := q % (ho * wo) % wo with hX
  have hSplit : q = q / (ho * wo) * (ho * wo) + (Y * wo + X) := by
    rw [hY, hX, Nat.div_add_mod', Nat.div_add_mod']
  have hIn : Y * wo + X < ho * wo := by
    rw [hY, hX, Nat.div_add_mod']
    exact Nat.mod_lt _ hq
  have hXlt : X < wo := Nat.mod_lt _ hWide
  have hTerm : ∀ y ∈ between y0 y1, ∀ xx ∈ between x0 x1,
      (if o * (ho * wo) + (y.toNat * wo + xx.toNat) = q then t y xx else 0) =
        if xx = X then (if y = Y then (if q / (ho * wo) = o then t y xx else 0) else 0) else 0 := by
    intro y hy xx hxx
    rw [mem_between] at hy hxx
    have hFlat : y.toNat * wo + xx.toNat < ho * wo := flat_lt (by omega) (by omega)
    by_cases hEq : o * (ho * wo) + (y.toNat * wo + xx.toNat) = q
    · rw [if_pos hEq]
      rw [hSplit] at hEq
      obtain ⟨hO, hRest⟩ := flat_inj hFlat hIn hEq
      obtain ⟨hRow, hCol⟩ := flat_inj (by omega) hXlt hRest
      rw [if_pos (by omega), if_pos (by omega), if_pos hO.symm]
    · rw [if_neg hEq]
      split
      · split
        · split
          · rename_i hx hy' hO
            refine absurd ?_ hEq
            rw [hSplit, hO, hx, hy', Int.toNat_natCast, Int.toNat_natCast]
          · rfl
        · rfl
      · rfl
  rw [map_congr_left fun y hy => congrArg List.sum (map_congr_left (hTerm y hy))]
  simp only [sum_between]
  by_cases hCols : x0 ≤ (X : Int) ∧ (X : Int) ≤ x1
  · simp only [if_pos hCols, sum_between]
    rw [← ite_and]
    exact if_congr ⟨fun hAll => ⟨hAll.2, hAll.1, hCols⟩, fun hAll => ⟨hAll.2.1, hAll.1⟩⟩ rfl rfl
  · simp only [if_neg hCols]
    rw [if_neg fun hAll => hCols hAll.2.2, map_const', sum_replicate, smul_zero]

theorem getD_fill (out : List R) (v : R) (lo hi : Nat) {q : Nat} (hq : q < out.length) :
    (fill out v lo hi).getD q 0 = if lo ≤ q ∧ q < hi then v else out.getD q 0 := by
  rw [getD_eq_getElem _ _ (by rwa [length_fill]), getD_eq_getElem _ _ hq]
  exact getElem_mapIdx

variable [LinearOrder R]

/-- What one tap adds at the place `q`. -/
def tapTerm (x : Tensor R) (L : ConvLayer R) (o c ky kx q : Nat) : R :=
  let plane := side x.h L.k L.stride * side x.w L.k L.stride
  let wo := side x.w L.k L.stride
  if q / plane = o then tapAt x L o (q % plane / wo) (q % plane % wo) c ky kx else 0

theorem adds_addTaps (h : Fits x L) {o c : Nat} (ho : o < L.cout) (hc : c < L.cin) (ky kx : Nat)
    (hLength : out.length = L.cout * (side x.h L.k L.stride * side x.w L.k L.stride)) :
    ∃ out', addTaps x L o c ky kx out = some out' ∧ Adds out out' (tapTerm x L o c ky kx) := by
  have hs : (0 : Int) < L.stride := by
    rcases h.stride with hEq | hEq <;> rw [hEq] <;> decide
  unfold addTaps
  dsimp only
  split
  · rename_i hZero
    refine ⟨out, rfl, (Adds.zero out).congr fun q _ => ?_⟩
    unfold tapTerm tapAt
    simp only [hZero, zero_mul, ite_self]
  · obtain ⟨out', hEq, hAdds⟩ := adds_between h ho hc
      (L.w.getD (((o * L.cin + c) * L.k + ky) * L.k + kx) 0)
      (fun y hy => (mem_inside hs x.h (side x.h L.k L.stride) y).mp hy)
      (fun xx hxx => (mem_inside hs x.w (side x.w L.k L.stride) xx).mp hxx) hLength
    refine ⟨out', hEq, hAdds.congr fun q hq => ?_⟩
    have hPlane : 0 < side x.h L.k L.stride * side x.w L.k L.stride :=
      Nat.pos_of_mul_pos_left (Nat.lt_of_le_of_lt (Nat.zero_le q) (hLength ▸ hq))
    have hRow : q % (side x.h L.k L.stride * side x.w L.k L.stride) / side x.w L.k L.stride <
        side x.h L.k L.stride :=
      Nat.div_lt_of_lt_mul ((Nat.mod_lt q hPlane).trans_eq (Nat.mul_comm _ _))
    have hCol : q % (side x.h L.k L.stride * side x.w L.k L.stride) % side x.w L.k L.stride <
        side x.w L.k L.stride := Nat.mod_lt _ (Nat.pos_of_mul_pos_left hPlane)
    rw [sum_taps hPlane (le_max_left _ _) (by omega) (le_max_left _ _) (by omega)]
    unfold tapTerm
    dsimp only
    by_cases hChannel : q / (side x.h L.k L.stride * side x.w L.k L.stride) = o
    · rw [if_pos hChannel]
      split
      · rfl
      · rename_i hOutside
        rw [tapAt, Tensor.padded, if_neg, mul_zero]
        rintro ⟨hy, hx⟩
        have hRowIn := (mem_inside hs _ _ _).mpr ⟨⟨Int.natCast_nonneg _, Int.ofNat_lt.mpr hRow⟩, hy⟩
        have hColIn := (mem_inside hs _ _ _).mpr ⟨⟨Int.natCast_nonneg _, Int.ofNat_lt.mpr hCol⟩, hx⟩
        exact hOutside ⟨hChannel, mem_between.mp hRowIn, mem_between.mp hColIn⟩
    · rw [if_neg hChannel, if_neg fun hAll => hChannel hAll.1]

/-- What all taps add for one output channel. -/
theorem adds_addChannel (h : Fits x L) {o : Nat} (ho : o < L.cout)
    (hLength : out.length = L.cout * (side x.h L.k L.stride * side x.w L.k L.stride)) :
    ∃ out', addChannel x L o out = some out' ∧ Adds out out' fun q =>
      ∑ c ∈ Finset.range L.cin, ∑ ky ∈ Finset.range L.k, ∑ kx ∈ Finset.range L.k,
        tapTerm x L o c ky kx q :=
  adds_foldlM _ (fun _ hc _ hLength => adds_foldlM _ (fun ky _ _ hLength => adds_foldlM _
    (fun kx _ _ hLength => adds_addTaps h ho (mem_range.mp hc) ky kx hLength)
    hLength) hLength) hLength

/-! ## All of them -/

/-- The entry of the output at the place `q` before the last step. -/
def linearAt (x : Tensor R) (L : ConvLayer R) (q : Nat) : R :=
  let plane := side x.h L.k L.stride * side x.w L.k L.stride
  let wo := side x.w L.k L.stride
  let o := q / plane
  L.b.getD o 0 + ∑ c ∈ Finset.range L.cin, ∑ ky ∈ Finset.range L.k, ∑ kx ∈ Finset.range L.k,
    tapAt x L o (q % plane / wo) (q % plane % wo) c ky kx

/-- The first `n` output channels are done. -/
structure Done (x : Tensor R) (L : ConvLayer R) (n : Nat) (out : List R) : Prop where
  length : out.length = L.cout * (side x.h L.k L.stride * side x.w L.k L.stride)
  entry : ∀ q < out.length, out.getD q 0 =
    if q / (side x.h L.k L.stride * side x.w L.k L.stride) < n then linearAt x L q else 0

theorem Done.succ (h : Fits x L) {n : Nat} (hn : n < L.cout) (hDone : Done x L n out) :
    ∃ out', addChannel x L n (fill out (L.b.getD n 0)
        (n * (side x.h L.k L.stride * side x.w L.k L.stride))
        (n * (side x.h L.k L.stride * side x.w L.k L.stride) +
          side x.h L.k L.stride * side x.w L.k L.stride)) = some out' ∧ Done x L (n + 1) out' := by
  set plane := side x.h L.k L.stride * side x.w L.k L.stride with hPlane
  have hLength : (fill out (L.b.getD n 0) (n * plane) (n * plane + plane)).length =
      L.cout * plane := (length_fill _ _ _ _).trans hDone.length
  obtain ⟨out', hEq, hAdds⟩ := adds_addChannel h hn hLength
  refine ⟨out', hEq, hAdds.1.trans hLength, fun q hq => ?_⟩
  rw [hAdds.1, length_fill] at hq
  have hPos : 0 < plane := by
    rw [hDone.length] at hq
    exact Nat.pos_of_mul_pos_left (Nat.lt_of_le_of_lt (Nat.zero_le q) hq)
  have hFilled : n * plane ≤ q ∧ q < n * plane + plane ↔ q / plane = n := by
    rw [← Nat.le_div_iff_mul_le hPos, ← Nat.succ_mul, ← Nat.div_lt_iff_lt_mul hPos]
    omega
  rw [hAdds.2 q (by rwa [length_fill]), getD_fill _ _ _ _ hq, hDone.entry q hq]
  unfold tapTerm
  simp only [← hPlane, hFilled]
  by_cases hChannel : q / plane = n
  · simp only [if_pos hChannel]
    rw [if_pos (by omega), linearAt]
    simp only [← hPlane, hChannel]
  · simp only [if_neg hChannel, Finset.sum_const_zero, add_zero]
    exact if_congr (by omega) rfl rfl

end TMEdge.Heat
