import TMEdge.Library.JsMap
import Mathlib.Algebra.Order.Floor.Ring
import Mathlib.Data.Rat.Floor
import Mathlib.Tactic.Linarith

/-!
# `admit`

`src/edge/nodelink.ts` keeps a `Baseline` for each node's boot and refuses a packet that
arrives much later than this boot's packets usually do. Times are exact rationals in
milliseconds, the uptime is reported modulo 2^32.

A node whose packets all take the same time and whose clock is slow by a constant rate
within the allowance is followed exactly (`Tracks`): the lag seen at each packet is the
drift of the gap before it. `admitted_iff` says that none of its packets is refused exactly
when no gap drifts by more than the budget; `refused_after_silence` is a silence of less
than three hours after which the node is refused.
-/

namespace TMEdge.NodeLink

open Library

/-! ## The code -/

structure Baseline where
  boot : Nat
  wraps : Nat
  lastUptime : ℚ
  /-- Smallest (receive time - node uptime) seen, drift allowance applied. -/
  offset : ℚ
  time : ℚ

/-- What `admit` reads of a packet. -/
structure Arrival where
  uid : String
  boot : Nat
  uptimeMs : ℚ

def lagBudgetMs : ℚ := 2000

/-- 200 ppm -/
def driftAllowance : ℚ := 1 / 5000

/-- 32-bit ms uptime wraps after 49.7 days; a big step backwards is a wrap. -/
def Baseline.wrapsAt (b : Baseline) (uptimeMs : ℚ) : Nat :=
  if uptimeMs < b.lastUptime ∧ 0x80000000 < b.lastUptime - uptimeMs then b.wraps + 1 else b.wraps

def delayedText (lag : ℚ) : String :=
  "delayed " ++ toString ⌊lag + 1 / 2⌋ ++ " ms beyond this boot's fastest delivery"

def admitDirect (baselines : JsMap String Baseline) (authenticated : Bool) (t : ℚ) (packet : Arrival) :
    JsMap String Baseline × Option String :=
  if !authenticated then (baselines, some "session closed")
  else
    let first : Baseline := ⟨packet.boot, 0, packet.uptimeMs, t - packet.uptimeMs, t⟩
    match baselines.get packet.uid with
    | none => (baselines.set packet.uid first, none)
    | some b =>
      if b.boot ≠ packet.boot then (baselines.set packet.uid first, none)
      else
        let wraps := b.wrapsAt packet.uptimeMs
        let offset := t - (wraps * 0x100000000 + packet.uptimeMs)
        let lag := offset - b.offset
        if lagBudgetMs < lag then (baselines, some (delayedText lag))
        else
          -- Follow a faster path at once; follow a slow node clock only at the
          -- drift allowance.
          (baselines.set packet.uid
            { b with
              wraps := wraps
              lastUptime := packet.uptimeMs
              offset := if lag < 0 then offset
                else b.offset + min lag ((t - b.time) * driftAllowance)
              time := t }, none)

/-- A packet, the time it arrives and whether its session is still authenticated. -/
structure Delivery where
  authenticated : Bool
  time : ℚ
  packet : Arrival

/-- What `admit` answers to the packets of one node among all deliveries. -/
def verdicts (uid : String) : JsMap String Baseline → List Delivery → List (Option String)
  | _, [] => []
  | baselines, d :: ds =>
    let r := admitDirect baselines d.authenticated d.time d.packet
    if d.packet.uid = uid then r.2 :: verdicts uid r.1 ds else verdicts uid r.1 ds

/-! ## Other nodes do not matter -/

variable {m : JsMap String Baseline} {t uptime : ℚ} {uid : String} {b : Baseline} {boot : Nat}

theorem admit_congr {m' : JsMap String Baseline} {p : Arrival} (authenticated : Bool) (t : ℚ)
    (h : m.get p.uid = m'.get p.uid) :
    (admitDirect m authenticated t p).2 = (admitDirect m' authenticated t p).2 ∧
      (admitDirect m authenticated t p).1.get p.uid = (admitDirect m' authenticated t p).1.get p.uid := by
  unfold admitDirect
  rw [h]
  split
  · exact ⟨rfl, h⟩
  · dsimp only
    split
    · simp
    · split
      · simp
      · split
        · exact ⟨rfl, h⟩
        · simp

theorem get_admit_of_ne {authenticated : Bool} {p : Arrival} (h : p.uid ≠ uid) :
    (admitDirect m authenticated t p).1.get uid = m.get uid := by
  unfold admitDirect
  split
  · rfl
  · dsimp only
    split
    · simp [Ne.symm h]
    · split
      · simp [Ne.symm h]
      · split
        · rfl
        · simp [Ne.symm h]

theorem verdicts_filter {uid : String} (ds : List Delivery) {m m' : JsMap String Baseline}
    (h : m.get uid = m'.get uid) :
    verdicts uid m ds = verdicts uid m' (ds.filter fun d => d.packet.uid = uid) := by
  induction ds generalizing m m' with
  | nil => rfl
  | cons d ds ih =>
    by_cases hUid : d.packet.uid = uid
    · subst hUid
      obtain ⟨hVerdict, hGet⟩ := admit_congr d.authenticated d.time h
      simp only [verdicts, List.filter_cons, decide_true, if_true, hVerdict, ih hGet]
    · simp only [verdicts, List.filter_cons, hUid, decide_false, Bool.false_eq_true, if_false]
      exact ih ((get_admit_of_ne hUid).trans h)

/-! ## A healthy node -/

/-- The uptime as a node reports it. -/
def wrapUptime (uptime : ℚ) : ℚ := uptime - 0x100000000 * ⌊uptime / 0x100000000⌋

/-- The packets of one boot that all take the same time, from a clock that is slow by
`rate`: the first arrives at `t` and was sent at `uptime`, the others follow after `gaps`. -/
def healthy (uid : String) (boot : Nat) (rate : ℚ) (t uptime : ℚ) : List ℚ → List Delivery
  | [] => [⟨true, t, ⟨uid, boot, wrapUptime uptime⟩⟩]
  | gap :: gaps =>
    ⟨true, t, ⟨uid, boot, wrapUptime uptime⟩⟩ ::
      healthy uid boot rate (t + gap) (uptime + (1 - rate) * gap) gaps

/-- The baseline shows exactly what the last packet showed. -/
structure Tracks (b : Baseline) (boot : Nat) (t uptime : ℚ) : Prop where
  boot : b.boot = boot
  lastUptime : b.lastUptime = wrapUptime uptime
  offset : b.offset = t - (b.wraps * 0x100000000 + wrapUptime uptime)
  time : b.time = t

/-- Within half a period the reported uptime wraps at most once. -/
theorem wrapUptime_add (uptime : ℚ) {d : ℚ} (hd : 0 ≤ d) (hd' : d < 0x80000000) :
    wrapUptime (uptime + d) = wrapUptime uptime + d ∨
      wrapUptime (uptime + d) = wrapUptime uptime + d - 0x100000000 := by
  have hLow : ⌊uptime / 0x100000000⌋ ≤ ⌊(uptime + d) / 0x100000000⌋ :=
    Int.floor_le_floor (by linarith)
  have hHigh : ⌊(uptime + d) / 0x100000000⌋ < ⌊uptime / 0x100000000⌋ + 2 := by
    have hFloor := Int.lt_floor_add_one (uptime / 0x100000000)
    refine Int.floor_lt.mpr ?_
    push_cast
    linarith
  unfold wrapUptime
  rcases (by omega : ⌊(uptime + d) / 0x100000000⌋ = ⌊uptime / 0x100000000⌋ ∨
      ⌊(uptime + d) / 0x100000000⌋ = ⌊uptime / 0x100000000⌋ + 1) with hEq | hEq
  · left
    rw [hEq]
    ring
  · right
    rw [hEq]
    push_cast
    ring

theorem Tracks.wrapsAt {d : ℚ} (h : Tracks b boot t uptime) (hd : 0 ≤ d) (hd' : d < 0x80000000) :
    (b.wrapsAt (wrapUptime (uptime + d)) : ℚ) * 0x100000000 + wrapUptime (uptime + d) =
      b.wraps * 0x100000000 + wrapUptime uptime + d := by
  unfold Baseline.wrapsAt
  rw [h.lastUptime]
  rcases wrapUptime_add uptime hd hd' with hSame | hWrap
  · rw [if_neg (by rw [hSame]; intro hBack; linarith), hSame]
    ring
  · rw [if_pos (by rw [hWrap]; constructor <;> linarith), hWrap]
    push_cast
    ring

/-- The lag of a healthy packet is what its clock lost since the one before. -/
theorem admit_healthy {rate gap : ℚ} (hb : m.get uid = some b) (h : Tracks b boot t uptime)
    (hRate : 0 ≤ rate) (hAllowed : rate ≤ driftAllowance) (hGap : 0 ≤ gap)
    (hShort : gap < 0x80000000) :
    (rate * gap ≤ lagBudgetMs → ∃ b',
      admitDirect m true (t + gap) ⟨uid, boot, wrapUptime (uptime + (1 - rate) * gap)⟩ =
        (m.set uid b', none) ∧ Tracks b' boot (t + gap) (uptime + (1 - rate) * gap)) ∧
    (lagBudgetMs < rate * gap →
      admitDirect m true (t + gap) ⟨uid, boot, wrapUptime (uptime + (1 - rate) * gap)⟩ =
        (m, some (delayedText (rate * gap)))) := by
  have hSlow : rate ≤ 1 := hAllowed.trans (by norm_num [driftAllowance])
  have hAdvance : 0 ≤ (1 - rate) * gap := mul_nonneg (by linarith) hGap
  have hDrift : 0 ≤ rate * gap := mul_nonneg hRate hGap
  have hAdvance' : (1 - rate) * gap < 0x80000000 := by linarith
  have hLag : t + gap - ((b.wrapsAt (wrapUptime (uptime + (1 - rate) * gap)) : ℚ) * 0x100000000 +
      wrapUptime (uptime + (1 - rate) * gap)) - b.offset = rate * gap := by
    rw [h.wrapsAt hAdvance hAdvance', h.offset]
    ring
  have hFollowed : min (rate * gap) ((t + gap - b.time) * driftAllowance) = rate * gap := by
    refine min_eq_left ?_
    have hMul := mul_le_mul_of_nonneg_right hAllowed hGap
    rw [h.time]
    linarith
  constructor
  · intro hWithin
    refine ⟨⟨boot, b.wrapsAt (wrapUptime (uptime + (1 - rate) * gap)),
      wrapUptime (uptime + (1 - rate) * gap), b.offset + rate * gap, t + gap⟩, ?_, rfl, rfl, ?_, rfl⟩
    · simp only [admitDirect, hb, h.boot, hLag, Bool.not_true, Bool.false_eq_true, if_false, ne_eq,
        not_true_eq_false, not_lt.mpr hWithin, not_lt.mpr hDrift, hFollowed]
    · change b.offset + rate * gap = _
      linarith
  · intro hBeyond
    simp only [admitDirect, hb, h.boot, hLag, Bool.not_true, Bool.false_eq_true, if_false, ne_eq,
      not_true_eq_false, hBeyond, if_true]

theorem verdicts_healthy {rate : ℚ} (hRate : 0 ≤ rate) (hAllowed : rate ≤ driftAllowance)
    {gaps : List ℚ} (hGaps : ∀ g ∈ gaps, 0 ≤ g ∧ g < 0x80000000) {m' : JsMap String Baseline}
    (hFirst : admitDirect m true t ⟨uid, boot, wrapUptime uptime⟩ = (m', none))
    (hb : m'.get uid = some b) (h : Tracks b boot t uptime) :
    (∀ v ∈ verdicts uid m (healthy uid boot rate t uptime gaps), v = none) ↔
      ∀ g ∈ gaps, rate * g ≤ lagBudgetMs := by
  induction gaps generalizing m m' t uptime b with
  | nil => simp [healthy, verdicts, hFirst]
  | cons gap gaps ih =>
    obtain ⟨hGap, hShort⟩ := hGaps gap List.mem_cons_self
    obtain ⟨hWithin, hBeyond⟩ := admit_healthy hb h hRate hAllowed hGap hShort
    simp only [healthy, verdicts, if_true, hFirst, List.forall_mem_cons, true_and]
    by_cases hBudget : rate * gap ≤ lagBudgetMs
    · obtain ⟨b', hAdmit, hTracks⟩ := hWithin hBudget
      rw [ih (fun g hg => hGaps g (List.mem_cons_of_mem _ hg)) hAdmit (by simp) hTracks]
      exact ⟨fun hRest => ⟨hBudget, hRest⟩, fun hAll => hAll.2⟩
    · -- the packet after this gap is refused
      have hRefused := hBeyond (not_le.mp hBudget)
      refine ⟨fun hAll => ?_, fun hAll => absurd hAll.1 hBudget⟩
      have hMem : some (delayedText (rate * gap)) ∈ verdicts uid m'
          (healthy uid boot rate (t + gap) (uptime + (1 - rate) * gap) gaps) := by
        cases gaps <;> simp [healthy, verdicts, hRefused]
      exact absurd (hAll _ hMem) (by simp)

/-- No packet of a healthy node is refused, whatever other nodes send meanwhile, exactly
when no gap between two of its packets drifts by more than the budget. -/
theorem admitted_iff (uid : String) (boot : Nat) (rate t uptime : ℚ) (gaps : List ℚ)
    (baselines : JsMap String Baseline) (ds : List Delivery)
    (hBoot : ∀ b, baselines.get uid = some b → b.boot ≠ boot)
    (hRate : 0 ≤ rate) (hAllowed : rate ≤ driftAllowance)
    (hGaps : ∀ g ∈ gaps, 0 ≤ g ∧ g < 0x80000000)
    (hHealthy : (ds.filter fun d => d.packet.uid = uid) = healthy uid boot rate t uptime gaps) :
    (∀ v ∈ verdicts uid baselines ds, v = none) ↔ ∀ g ∈ gaps, rate * g ≤ lagBudgetMs := by
  rw [verdicts_filter ds (rfl : baselines.get uid = baselines.get uid), hHealthy]
  have hFirst : admitDirect baselines true t ⟨uid, boot, wrapUptime uptime⟩ =
      (baselines.set uid ⟨boot, 0, wrapUptime uptime, t - wrapUptime uptime, t⟩, none) := by
    unfold admitDirect
    simp only [Bool.not_true, Bool.false_eq_true, if_false]
    split
    · rfl
    · rename_i b hb
      rw [if_pos (hBoot b hb)]
  have hTracks : Tracks ⟨boot, 0, wrapUptime uptime, t - wrapUptime uptime, t⟩ boot t uptime :=
    ⟨rfl, rfl, by simp, rfl⟩
  exact verdicts_healthy hRate hAllowed hGaps hFirst (by simp) hTracks

theorem admitted_after_second : (1 / 5000 : ℚ) * 5000 ≤ lagBudgetMs ∧
    ∀ v ∈ verdicts "a" .empty (healthy "a" 1 (1 / 5000) 0 0 [5000]), v = none := by
  refine ⟨by norm_num [lagBudgetMs], ?_⟩
  refine (admitted_iff "a" 1 (1 / 5000) 0 0 [5000] .empty _ (by simp) (by norm_num)
    (by norm_num [driftAllowance]) (by norm_num) ?_).mpr (by norm_num [lagBudgetMs])
  simp [healthy]

/-- A clock slow by 200 ppm has lost 2001 ms after 10005 seconds without a packet. -/
theorem refused_after_silence :
    ¬ ∀ (uid : String) (boot : Nat) (rate t uptime : ℚ) (gaps : List ℚ)
      (baselines : JsMap String Baseline) (ds : List Delivery),
      (∀ b, baselines.get uid = some b → b.boot ≠ boot) → 0 ≤ rate → rate ≤ driftAllowance →
      (∀ g ∈ gaps, 0 ≤ g ∧ g < 0x80000000) →
      (ds.filter fun d => d.packet.uid = uid) = healthy uid boot rate t uptime gaps →
        ∀ v ∈ verdicts uid baselines ds, v = none := by
  intro h
  have hAll := h "a" 1 (1 / 5000) 0 0 [10005000] .empty
    (healthy "a" 1 (1 / 5000) 0 0 [10005000]) (by simp) (by norm_num)
    (by norm_num [driftAllowance]) (by norm_num) (by simp [healthy])
  have hRefused : (verdicts "a" .empty (healthy "a" 1 (1 / 5000) 0 0 [10005000])).any
      Option.isSome = true := by decide +kernel
  obtain ⟨v, hv, hSome⟩ := List.any_eq_true.mp hRefused
  rw [hAll v hv] at hSome
  cases hSome

end TMEdge.NodeLink
