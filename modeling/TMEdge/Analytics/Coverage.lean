import TMEdge.Analytics.Live
import TMEdge.Analytics.Rings

/-!
# What `earliest` promises

* `coverage_iff`: `earliest` of the gauges and of the counters names a bucket that is still there
  exactly when the first bucket has not been reused or evicted; and then the totals of the previous
  period that the report of `src/modules/analytics/application/usage-meter.ts` gives are what was
  added in it.
-/

namespace TMEdge.Analytics

open Library List

/-! ## Gauges -/

namespace GaugeTier

variable {t : GaugeTier} {spec : GaugeSpec} {calls : List (ℚ × Values)}

/-- A sample that has a value. -/
def hasSample (c : ℚ × Values) : Bool := c.2.values.any Option.isSome

theorem lower_of_le {e time : Int} (h : e ≤ time) : lower (some e) time = some e := by
  rw [lower, if_neg (not_lt.mpr h)]

theorem lower_lower (earliest : Option Int) (time : Int) :
    lower (lower earliest time) time = lower earliest time := by
  rcases earliest with - | e
  · exact lower_of_le (le_refl time)
  · rw [lower]
    split
    · exact lower_of_le (le_refl time)
    · rename_i hNot
      exact lower_of_le (not_lt.mp hNot)

theorem put_earliest (index : Int) (m : Text) (a x : ℚ) :
    (t.put index m a x).earliest = lower t.earliest (index * t.spec.stepMs) := by
  change lower (t.claim index).earliest (index * (t.claim index).spec.stepMs) = _
  unfold claim
  dsimp only
  split <;> rfl

theorem entries_earliest (index : Int) (es : List (Text × Option ℚ)) (t : GaugeTier) :
    (es.foldl (gatherEntry index) t).earliest =
      if (es.map Prod.snd).any Option.isSome then lower t.earliest (index * t.spec.stepMs)
      else t.earliest := by
  induction es generalizing t with
  | nil => rfl
  | cons e es ih =>
    rw [foldl_cons, ih, map_cons, any_cons]
    obtain ⟨m, - | v⟩ := e
    · rfl
    · have hPut : (gatherEntry index t (m, some v)).earliest =
          lower t.earliest (index * t.spec.stepMs) := put_earliest index m _ _
      have hSpec : (gatherEntry index t (m, some v)).spec = t.spec := by
        change (claim _ index).spec = t.spec
        unfold claim
        dsimp only
        split <;> rfl
      rw [hPut, hSpec, lower_lower, Option.isSome_some, Bool.true_or, if_pos rfl, ite_self]

theorem record_earliest {time : ℚ} (hLater : t.acc.index ≤ t.spec.indexOf time) (values : Values) :
    (t.record time values).earliest = if hasSample (time, values) then
      lower t.earliest (t.spec.indexOf time * t.spec.stepMs) else t.earliest := by
  unfold GaugeTier.record
  rw [if_neg (not_lt.mpr hLater)]
  dsimp only
  split
  · exact entries_earliest _ _ _
  · exact entries_earliest _ _ _

/-- Nothing comes before the first sample. -/
theorem first_le {c c' : ℚ × Values} (hTimes : calls.Pairwise fun a b => a.1 ≤ b.1)
    (hFirst : calls.find? hasSample = some c) (hMem : c' ∈ calls) (hSample : hasSample c' = true) :
    c.1 ≤ c'.1 := by
  obtain ⟨-, before, after, rfl, hBefore⟩ := find?_eq_some_iff_append.mp hFirst
  rcases mem_append.mp hMem with hMem | hMem
  · have hNot := hBefore c' hMem
    rw [hSample] at hNot
    cases hNot
  · rcases mem_cons.mp hMem with rfl | hMem
    · exact le_refl _
    · exact rel_of_pairwise_cons (pairwise_append.mp hTimes).2.1 hMem

theorem runTier_earliest (hCapacity : 0 < spec.capacity)
    (hTimes : calls.Pairwise fun a b => a.1 ≤ b.1) (hPositive : ∀ c ∈ calls, 0 ≤ c.1) :
    (runTier spec calls).earliest =
      (calls.find? hasSample).map fun c => spec.indexOf c.1 * spec.stepMs := by
  induction calls using List.reverseRecOn with
  | nil => rfl
  | append_singleton calls c ih =>
    have hInit := (pairwise_append.mp hTimes).1
    have hPositive' : ∀ c ∈ calls, 0 ≤ c.1 := fun c hc => hPositive c (mem_append_left _ hc)
    obtain ⟨-, hSpec, hLater⟩ := runTier_holds spec hCapacity calls hInit hPositive'
    have hRun : runTier spec (calls ++ [c]) = (runTier spec calls).record c.1 c.2 := by
      rw [runTier, foldl_append]
      rfl
    have hAcc : (runTier spec calls).acc.index ≤ (runTier spec calls).spec.indexOf c.1 := by
      rw [hSpec]
      refine hLater c.1 (fun c' hc' => ?_) (hPositive c (by simp))
      exact (pairwise_append.mp hTimes).2.2 c' hc' c (mem_singleton_self c)
    rw [hRun, record_earliest hAcc, ih hInit hPositive', hSpec, find?_append,
      find?_singleton]
    by_cases hSample : hasSample c = true
    · rw [if_pos hSample, if_pos hSample]
      rcases hFirst : calls.find? hasSample with - | c'
      · rfl
      · refine lower_of_le ?_
        have hMem := mem_of_find?_eq_some hFirst
        have hLe : c'.1 ≤ c.1 :=
          (pairwise_append.mp hTimes).2.2 c' hMem c (mem_singleton_self c)
        exact mul_le_mul_of_nonneg_right (indexOf_mono spec hLe) (Int.natCast_nonneg _)
    · rw [if_neg hSample, if_neg hSample, Option.or_none]

theorem samplesIn_first {c : ℚ × Values} (hMem : c ∈ calls) (hSample : hasSample c = true) :
    ∃ m, samplesIn spec calls (spec.indexOf c.1) m ≠ [] := by
  obtain ⟨v, hv, hSome⟩ := any_eq_true.mp hSample
  obtain ⟨e, he, rfl⟩ := mem_map.mp hv
  obtain ⟨x, hx⟩ := Option.isSome_iff_exists.mp hSome
  refine ⟨e.1, ne_nil_of_mem (a := x) (mem_filterMap.mpr ⟨c, hMem, ?_⟩)⟩
  rw [if_pos rfl, JsMap.get_eq_some_iff.mpr he, hx]
  rfl

theorem sample_of_samplesIn {i : Int} {m : Text} (h : samplesIn spec calls i m ≠ []) :
    ∃ c ∈ calls, hasSample c = true ∧ spec.indexOf c.1 = i := by
  obtain ⟨x, hx⟩ := exists_mem_of_ne_nil _ h
  obtain ⟨c, hc, hValue⟩ := mem_filterMap.mp hx
  rw [Option.ite_none_right_eq_some, Option.join_eq_some_iff] at hValue
  obtain ⟨hIndex, hGet⟩ := hValue
  refine ⟨c, hc, any_eq_true.mpr ⟨some x, ?_, rfl⟩, hIndex⟩
  exact mem_map.mpr ⟨(m, some x), JsMap.get_eq_some_iff.mp hGet, rfl⟩

theorem stepMs_pos (hMem : spec ∈ gaugeTiers) : (0 : Int) < spec.stepMs := by
  revert spec
  decide

/-- The first bucket of a tier is the first that is read. -/
theorem first_retained_iff (hMem : spec ∈ gaugeTiers)
    (hTimes : calls.Pairwise fun a b => a.1 ≤ b.1) (hPositive : ∀ c ∈ calls, 0 ≤ c.1)
    {c : ℚ × Values} (hFirst : calls.find? hasSample = some c) {e : Int}
    (hEarliest : e ≤ spec.indexOf c.1 * spec.stepMs) :
    (∃ i m, i * spec.stepMs = e ∧ (runTier spec calls).read i m ≠ none) ↔
      spec.indexOf c.1 * spec.stepMs = e ∧ ¬ Overtaken spec calls (spec.indexOf c.1) := by
  have hReads := reads_runTier hMem calls hTimes hPositive
  have hStep := stepMs_pos hMem
  constructor
  · rintro ⟨i, m, rfl, hRead⟩
    have hSample : samplesIn spec calls i m ≠ [] := fun hNil => hRead (hReads.gone i m (.inl hNil))
    obtain ⟨c', hc', hHas, rfl⟩ := sample_of_samplesIn hSample
    have hLe := indexOf_mono spec (first_le hTimes hFirst hc' hHas)
    have hEq : spec.indexOf c'.1 = spec.indexOf c.1 :=
      le_antisymm (le_of_mul_le_mul_right hEarliest hStep) hLe
    refine ⟨by rw [hEq], fun hOver => hRead (hReads.gone _ m (.inr ?_))⟩
    rw [hEq]
    exact hOver
  · rintro ⟨rfl, hKept⟩
    have hHas := find?_some hFirst
    obtain ⟨m, hSample⟩ := @samplesIn_first spec calls c (mem_of_find?_eq_some hFirst) hHas
    obtain ⟨avg, max, hRead, -⟩ := hReads.kept _ m hSample hKept
    exact ⟨_, m, rfl, by rw [hRead]; exact Option.some_ne_none _⟩

end GaugeTier

namespace MetricHistory

open GaugeTier

/-- `earliest` is the start of a bucket that some tier still has. -/
def Honest (h : MetricHistory) : Prop :=
  ∀ e, h.earliest = some e →
    ∃ t ∈ h.tiers, ∃ i m, i * (t.spec.stepMs : Int) = e ∧ t.read i m ≠ none

def quarterSpec : GaugeSpec := { id := .quarter, stepMs := 900000, capacity := 3072 }

/-- The quarter of an hour in which the first sample came. -/
def firstQuarter (calls : List (ℚ × Values)) : Option Int :=
  (calls.find? hasSample).map fun c => quarterSpec.indexOf c.1 * quarterSpec.stepMs

/-- A quarter of an hour begins with a bucket of every tier. -/
theorem quarter_le {spec : GaugeSpec} (hMem : spec ∈ gaugeTiers) (time : ℚ) :
    quarterSpec.indexOf time * quarterSpec.stepMs ≤ spec.indexOf time * spec.stepMs := by
  obtain ⟨k, hk⟩ : ∃ k : Nat, quarterSpec.stepMs = k * spec.stepMs := by
    simp only [gaugeTiers, mem_cons, not_mem_nil, or_false] at hMem
    rcases hMem with rfl | rfl | rfl
    · exact ⟨90, rfl⟩
    · exact ⟨15, rfl⟩
    · exact ⟨1, rfl⟩
  have hStep : (0 : ℚ) < spec.stepMs := by exact_mod_cast stepMs_pos hMem
  have hFloor : (quarterSpec.indexOf time : ℚ) ≤ time / quarterSpec.stepMs := Int.floor_le _
  have hQuarter : (0 : ℚ) < quarterSpec.stepMs := by norm_num [quarterSpec]
  have hLe : quarterSpec.indexOf time * (k : Int) ≤ spec.indexOf time := by
    have hQuotient : ((quarterSpec.indexOf time * (k : Int) : Int) : ℚ) ≤ time / spec.stepMs := by
      rw [le_div_iff₀ hStep]
      rw [le_div_iff₀ hQuarter, hk] at hFloor
      push_cast at hFloor ⊢
      linarith
    exact Int.le_floor.mpr hQuotient
  have hMul := mul_le_mul_of_nonneg_right hLe (stepMs_pos hMem).le
  rw [hk]
  push_cast
  linarith

theorem earliest_run {calls : List (ℚ × Values)} (hTimes : calls.Pairwise fun a b => a.1 ≤ b.1)
    (hPositive : ∀ c ∈ calls, 0 ≤ c.1) : (run record make calls).earliest = firstQuarter calls := by
  have hTier : ∀ spec ∈ gaugeTiers, (runTier spec calls).earliest =
      (calls.find? hasSample).map fun c => spec.indexOf c.1 * spec.stepMs :=
    fun spec hMem => runTier_earliest (capacity_positive hMem) hTimes hPositive
  have hRaw := hTier _ (mem_cons_self)
  have hMinute := hTier _ (mem_cons_of_mem _ mem_cons_self)
  have hQuarter := hTier _ (mem_cons_of_mem _ (mem_cons_of_mem _ mem_cons_self))
  rw [earliest, run_tiers, firstQuarter]
  simp only [gaugeTiers, map_cons, map_nil, foldl_cons, foldl_nil]
  rw [hRaw, hMinute, hQuarter]
  rcases calls.find? hasSample with - | c
  · rfl
  · have hA := quarter_le (mem_cons_self : _ ∈ gaugeTiers) c.1
    have hB := quarter_le (mem_cons_of_mem _ mem_cons_self : _ ∈ gaugeTiers) c.1
    simp only [Option.map_some, Option.elim_some, lower, quarterSpec, Option.some_inj] at hA hB ⊢
    split_ifs <;> omega

/-- The first bucket of some tier began with that quarter, and no later sample has its slot. -/
def FirstKept (calls : List (ℚ × Values)) : Prop :=
  ∀ c, calls.find? hasSample = some c → ∃ spec ∈ gaugeTiers,
    spec.indexOf c.1 * (spec.stepMs : Int) = quarterSpec.indexOf c.1 * quarterSpec.stepMs ∧
      ¬ Overtaken spec calls (spec.indexOf c.1)

theorem honest_iff {calls : List (ℚ × Values)} (hTimes : calls.Pairwise fun a b => a.1 ≤ b.1)
    (hPositive : ∀ c ∈ calls, 0 ≤ c.1) : (run record make calls).Honest ↔ FirstKept calls := by
  have hSpec : ∀ spec ∈ gaugeTiers, (runTier spec calls).spec = spec := fun spec hMem =>
    (runTier_holds spec (capacity_positive hMem) calls hTimes hPositive).2.1
  have hEach : ∀ c, calls.find? hasSample = some c → ∀ spec ∈ gaugeTiers,
      ((∃ i m, i * (spec.stepMs : Int) = quarterSpec.indexOf c.1 * quarterSpec.stepMs ∧
        (runTier spec calls).read i m ≠ none) ↔
          spec.indexOf c.1 * (spec.stepMs : Int) = quarterSpec.indexOf c.1 * quarterSpec.stepMs ∧
            ¬ Overtaken spec calls (spec.indexOf c.1)) := fun c hFirst spec hMem =>
    first_retained_iff hMem hTimes hPositive hFirst (quarter_le hMem c.1)
  rw [Honest, earliest_run hTimes hPositive, run_tiers]
  constructor
  · intro h c hFirst
    obtain ⟨t, hMem, i, m, hTime, hRead⟩ := h _ (by rw [firstQuarter, hFirst]; rfl)
    obtain ⟨spec, hSpecMem, rfl⟩ := mem_map.mp hMem
    rw [hSpec spec hSpecMem] at hTime
    exact ⟨spec, hSpecMem, (hEach c hFirst spec hSpecMem).mp ⟨i, m, hTime, hRead⟩⟩
  · intro h e hEarliest
    obtain ⟨c, hFirst, rfl⟩ := Option.map_eq_some_iff.mp hEarliest
    obtain ⟨spec, hSpecMem, hKept⟩ := h c hFirst
    obtain ⟨i, m, hTime, hRead⟩ := (hEach c hFirst spec hSpecMem).mpr hKept
    exact ⟨_, mem_map_of_mem hSpecMem, i, m, by rw [hSpec spec hSpecMem, hTime], hRead⟩

end MetricHistory

/-! ## Counters -/

variable {c : CounterLog} {calls : Calls} {id : CounterTierId}

/-- Times do not decrease. -/
def Calls.Forward (calls : Calls) (e : CounterEvent) : Prop := calls.clock ≤ e.timeFrom calls.clock

namespace CounterLog

/-- `earliest` is the start of an hour that the log still has. -/
def Honest (c : CounterLog) : Prop :=
  ∀ e, c.earliest = some e → 0 < ((c.tiers .hour).bucketAt e).size

end CounterLog

/-- What the calls leave in every tier; `earliest` is the bucket of the first of them. -/
structure Counting (c : CounterLog) (calls : Calls) : Prop where
  times : 0 ≤ calls.last ∧ calls.last ≤ calls.clock
  positive : ∀ a ∈ calls.adds, 0 < a.amount
  ordered : ∀ a ∈ calls.adds, a.time ≤ calls.last ∧
    ∀ first, calls.adds.head? = some first → first.time ≤ a.time
  live : ∀ id limit, Live id calls limit (c.tiers id)
  first : ∀ id, (c.tiers id).earliest = calls.adds.head?.map fun a => id.spec.startOf a.time
  empty : calls.adds = [] → ∀ id b, (c.tiers id).buckets.get b = none

theorem tick_tiers (c : CounterLog) (now : Int) : (c.tick now).tiers = (c.roll now).tiers := by
  unfold CounterLog.tick
  dsimp only
  split_ifs <;> rfl

theorem rolled_earliest (now : Int) (id : CounterTierId) (tier : CounterTier) :
    (rolled now id tier).earliest = tier.earliest := by
  unfold rolled
  split <;> rfl

theorem rolled_none {now b : Int} {tier : CounterTier} (h : tier.buckets.get b = none) :
    (rolled now id tier).buckets.get b = none := by
  unfold rolled
  split
  · exact h
  · rw [CounterTier.roll]
    dsimp only
    rw [JsMap.get_filterKeys, h, ite_self]

theorem Counting.moved (h : Counting c calls) {now : Int} (hNow : calls.clock ≤ now) {c' : CounterLog}
    (hTiers : c'.tiers = (c.roll now).tiers) : Counting c' (calls.moved now) := by
  obtain ⟨hLast, hClock⟩ := h.times
  have hTier : ∀ id, c'.tiers id = rolled now id (c.tiers id) := by
    intro id
    rw [hTiers, (roll_spec c now).1]
  have hNow' : calls.last ≤ now := hClock.trans hNow
  refine ⟨⟨hLast.trans hNow', le_refl now⟩, h.positive, fun a ha =>
    ⟨(h.ordered a ha).1.trans hNow', (h.ordered a ha).2⟩, fun id limit => ?_, fun id => ?_,
    fun hNil id b => ?_⟩
  · rw [hTier]
    exact (h.live id limit).rolled hLast hNow'
  · rw [hTier, rolled_earliest]
    exact h.first id
  · rw [hTier]
    exact rolled_none (h.empty hNil id b)

theorem add_earliest {tier : CounterTier} {spec : CounterSpec} {time : Int} (key : Text) (amount : ℚ)
    (hCurrent : tier.current ≤ spec.startOf time) :
    (tier.add spec time key amount).earliest =
      if tier.buckets.get (spec.startOf time) = none then
        GaugeTier.lower tier.earliest (spec.startOf time) else tier.earliest := by
  unfold CounterTier.add
  dsimp only
  rw [if_neg (not_lt.mpr hCurrent)]
  split
  · rename_i hGet
    rw [if_neg (by rw [hGet]; exact Option.some_ne_none _)]
  · rename_i hGet
    rw [if_pos hGet]

theorem Counting.add (h : Counting c calls) {time : Int} (hNow : calls.clock ≤ time) (key : Text)
    {amount : ℚ} (hAmount : 0 < amount) : Counting (c.add time key amount)
      { adds := calls.adds ++ [{ time, key, amount }], last := time, clock := time } := by
  have hRolled : Counting (c.roll time) (calls.moved time) := h.moved hNow rfl
  obtain ⟨hLast, hClock⟩ := h.times
  have hTier : ∀ id, (c.add time key amount).tiers id =
      ((c.roll time).tiers id).add id.spec time key amount := by
    intro id
    unfold CounterLog.add
    rw [if_neg (not_le.mpr hAmount)]
  have hCurrent : ∀ id, ((c.roll time).tiers id).current = id.spec.startOf time := by
    intro id
    rw [(roll_spec c time).1]
    exact rolled_current (h.live id 0).current (by omega) (by omega)
  have hHead : (calls.adds ++ [(⟨time, key, amount⟩ : Added)]).head? =
      calls.adds.head?.or (some ⟨time, key, amount⟩) := by
    rcases calls.adds with - | ⟨a, adds⟩
    · rfl
    · rfl
  refine ⟨hRolled.times, fun a ha => ?_, fun a ha => ?_, fun id limit => ?_, fun id => ?_,
    fun hNil => absurd hNil (by simp)⟩
  · rcases mem_append.mp ha with ha | ha
    · exact h.positive a ha
    · rw [mem_singleton.mp ha]
      exact hAmount
  · dsimp only
    rw [hHead]
    rcases mem_append.mp ha with ha | ha
    · obtain ⟨hLe, hFirst⟩ := h.ordered a ha
      refine ⟨by omega, fun first hSome => hFirst first ?_⟩
      rcases hOld : calls.adds.head? with - | a'
      · rw [head?_eq_none_iff] at hOld
        rw [hOld] at ha
        exact absurd ha not_mem_nil
      · rw [hOld, Option.some_or] at hSome
        exact hSome
    · rw [mem_singleton.mp ha]
      refine ⟨le_refl time, fun first hSome => ?_⟩
      rcases hOld : calls.adds.head? with - | a'
      · rw [hOld, Option.none_or] at hSome
        cases hSome
        exact le_refl time
      · rw [hOld, Option.some_or] at hSome
        cases hSome
        have hLe := (h.ordered first (mem_of_mem_head? hOld)).1
        dsimp only
        omega
  · rw [hTier]
    exact (hRolled.live id limit).add (hCurrent id) key amount
  · dsimp only
    have hOld := hRolled.first id
    rw [hTier, add_earliest key amount (hCurrent id).le, hHead, hOld]
    rcases hFirst : calls.adds.head? with - | a'
    · have hNone := hRolled.empty (head?_eq_none_iff.mp hFirst) id (id.spec.startOf time)
      rw [if_pos hNone]
      change GaugeTier.lower (Option.map _ calls.adds.head?) _ = _
      rw [hFirst]
      rfl
    · have hLe := startOf_mono id ((h.ordered a' (mem_of_mem_head? hFirst)).1.trans
        (hClock.trans hNow))
      change (if _ then GaugeTier.lower (Option.map _ calls.adds.head?) _ else
        Option.map _ calls.adds.head?) = _
      rw [hFirst, Option.map_some, GaugeTier.lower_of_le hLe, ite_self]
      rfl

theorem Counting.step (h : Counting c calls) {e : CounterEvent} (hTime : calls.Forward e)
    (hCall : ∀ now, e ≠ .restart now) : Counting (c.step e) (calls.step e) := by
  cases e with
  | add time key amount =>
    by_cases hAmount : amount ≤ 0
    · have hSkip : c.step (.add time key amount) = c := if_pos hAmount
      rw [calls_skip key hAmount, hSkip]
      exact ⟨⟨h.times.1, h.times.2.trans hTime⟩, h.positive, h.ordered,
        fun id limit => ⟨(h.live id limit).current, (h.live id limit).buckets⟩, h.first, h.empty⟩
    · rw [calls_add key hAmount]
      exact h.add hTime key (not_le.mp hAmount)
  | tick now =>
    rw [calls_tick]
    exact h.moved hTime (tick_tiers c now)
  | land =>
    rw [calls_land]
    exact ⟨h.times, h.positive, h.ordered, h.live, h.first, h.empty⟩
  | restart now => exact absurd rfl (hCall now)

theorem Counting.run (h : Counting c calls) {es : List CounterEvent} (hOnly : OnlyCalls es)
    (hTimed : Guarded Calls.step Calls.Forward calls es) :
    Counting (run CounterLog.step c es) (run Calls.step calls es) := by
  induction es generalizing c calls with
  | nil => exact h
  | cons e es ih =>
    refine ih (h.step hTimed.1 fun now hEq => hOnly now (by simp [hEq])) (fun now hMem => ?_)
      hTimed.2
    exact hOnly now (mem_cons_of_mem _ hMem)

theorem counting_new {name : Text} {start : Int} (hStart : 0 ≤ start) :
    Counting (.make name {} start) { clock := start } := by
  have hNew := make_new name start
  refine ⟨⟨le_refl 0, hStart⟩, fun _ h => absurd h not_mem_nil,
    fun _ h => absurd h not_mem_nil, fun id limit => ?_, fun id => ?_, fun _ id b => ?_⟩
  · rw [hNew]
    refine ⟨.inl rfl, fun b _ => ?_⟩
    split <;> exact fun _ => rfl
  · rw [hNew]
    rfl
  · rw [hNew]
    rfl

theorem size_recorded {spec : CounterSpec} {adds : List Added} {a : Added} (h : a ∈ adds) :
    0 < (recorded spec adds (spec.startOf a.time)).size := by
  induction adds using List.reverseRecOn with
  | nil => exact absurd h not_mem_nil
  | append_singleton adds new ih =>
    rw [recorded_concat, countIn]
    rcases mem_append.mp h with h | h
    · split
      · exact size_count_pos _ _
      · exact ih h
    · rw [mem_singleton.mp h, if_pos rfl]
      exact size_count_pos _ _

/-- The first bucket of the hours has not been evicted. -/
def FirstRetained (calls : Calls) : Prop :=
  ∀ a, calls.adds.head? = some a → CounterTierId.hour.spec.startOf calls.last -
    CounterTierId.hour.spec.retention ≤ CounterTierId.hour.spec.startOf a.time

theorem Counting.honest_iff (h : Counting c calls) : c.Honest ↔ FirstRetained calls := by
  have hEarliest : c.earliest =
      calls.adds.head?.map fun a => CounterTierId.hour.spec.startOf a.time := h.first .hour
  have hBucket := fun b => (h.live .hour b).buckets b (le_refl b)
  rw [CounterLog.Honest, hEarliest]
  constructor
  · intro hHonest a hFirst
    by_contra hGone
    have hSize := hHonest _ (by rw [hFirst]; rfl)
    rw [(hBucket _).size, if_neg hGone] at hSize
    exact absurd hSize (lt_irrefl 0)
  · intro hKept e hSome
    obtain ⟨a, hFirst, rfl⟩ := Option.map_eq_some_iff.mp hSome
    rw [(hBucket _).size, if_pos (hKept a hFirst)]
    exact size_recorded (mem_of_mem_head? hFirst)

/-! ## The report -/

inductive AnalyticsRangeId
  | h1
  | h24
  | d7
  | d30
  deriving DecidableEq

structure RangeSpec where
  spanMs : Int
  counterTier : CounterTierId

def rangeSpec : AnalyticsRangeId → RangeSpec
  | .h1 => { spanMs := 3600000, counterTier := .fine }
  | .h24 => { spanMs := 86400000, counterTier := .hour }
  | .d7 => { spanMs := 7 * 86400000, counterTier := .hour }
  | .d30 => { spanMs := 30 * 86400000, counterTier := .hour }

structure UsageTotals where
  searches : ℚ
  noResultSearches : ℚ
  staleDataSearches : ℚ
  spaceViews : ℚ
  tableSelects : ℚ
  directionsViews : ℚ
  signIns : ℚ
  failedSignIns : ℚ
  rateLimitedSignIns : ℚ
  signUps : ℚ
  signOuts : ℚ
  requests : ℚ
  clientErrors : ℚ
  serverErrors : ℚ

def UsageTotals.of (sum : Text → ℚ) : UsageTotals where
  searches := sum (js "act.seat-search.succeeded")
  noResultSearches := sum (js "search.none")
  staleDataSearches := sum (js "search.stale")
  spaceViews := sum (js "act.space-view.succeeded")
  tableSelects := sum (js "act.table-select.succeeded")
  directionsViews := sum (js "act.directions-view.succeeded")
  signIns := sum (js "act.login.succeeded")
  failedSignIns := sum (js "act.login.failed")
  rateLimitedSignIns := sum (js "act.login.rate-limited")
  signUps := sum (js "act.signup.succeeded")
  signOuts := sum (js "act.logout.succeeded")
  requests := sum (js "req.all")
  clientErrors := sum (js "req.4xx")
  serverErrors := sum (js "req.5xx")

namespace UsageMeter

def totals (counters : CounterLog) (tier : CounterTierId) (since before : Int) : UsageTotals :=
  .of (counters.sum tier (tier.spec.startOf since) before)

/-- `previousTotals` of `report`. -/
def previousTotals (counters : CounterLog) (now : Int) (range : AnalyticsRangeId) :
    Option UsageTotals :=
  let spec := rangeSpec range
  let since := now - spec.spanMs
  if counters.earliest.any (· ≤ since - spec.spanMs) ∧
      (spec.counterTier ≠ .fine ∨ spec.spanMs * 2 ≤ 48 * 3600000) then
    some (totals counters spec.counterTier (since - spec.spanMs) (spec.counterTier.spec.startOf since))
  else none

/-- The buckets of the previous period: those from the one it starts in to the one that the current
period starts in. -/
def previousStart (now : Int) (range : AnalyticsRangeId) : Int :=
  (rangeSpec range).counterTier.spec.startOf
    (now - (rangeSpec range).spanMs - (rangeSpec range).spanMs)

def previousEnd (now : Int) (range : AnalyticsRangeId) : Int :=
  (rangeSpec range).counterTier.spec.startOf (now - (rangeSpec range).spanMs)

/-- What was added in the previous period, name by name. -/
def added (calls : Calls) (now : Int) (range : AnalyticsRangeId) : UsageTotals :=
  .of fun key => totalOf (calls.adds.filter fun a =>
    inRange (rangeSpec range).counterTier.spec (previousStart now range) (previousEnd now range) a ∧
      a.key = key)

/-- No bucket of the previous period has more names than it has room for. -/
def Roomy (calls : Calls) (now : Int) (range : AnalyticsRangeId) : Prop :=
  ∀ b, previousStart now range ≤ b → b < previousEnd now range →
    NoOverflow (rangeSpec range).counterTier.spec calls.adds b

theorem retains_previous (h : Counting c calls) {now : Int} (hNow : calls.clock ≤ now)
    {range : AnalyticsRangeId} (hFirst : range = .d30 → FirstRetained calls) :
    Retains (rangeSpec range).counterTier.spec calls.adds
      (c.tiers (rangeSpec range).counterTier) (previousStart now range) := by
  intro b hb
  have hBucket := (h.live (rangeSpec range).counterTier b).buckets b (le_refl b)
  have hTimes := h.times
  have hLast : calls.last ≤ now := hTimes.2.trans hNow
  by_cases hKept : (rangeSpec range).counterTier.spec.startOf calls.last -
      (rangeSpec range).counterTier.spec.retention ≤ b
  · rwa [if_pos hKept] at hBucket
  · -- only a month back can a bucket be gone, and then nothing was added to it
    have hRange : range = .d30 := by
      by_contra hNe
      refine hKept (le_trans ?_ hb)
      cases range
      all_goals
        first
        | exact absurd rfl hNe
        | (change calls.last / _ * _ - _ * _ ≤ (now - _ - _) / _ * _
           dsimp only [rangeSpec, CounterTierId.spec]
           omega)
    subst hRange
    rw [if_neg hKept] at hBucket
    refine hBucket.trans (eq_empty_of_size fun hSize => hKept ?_).symm
    obtain ⟨a, ha, rfl⟩ := exists_of_recorded hSize
    rcases hHead : calls.adds.head? with - | first
    · exact absurd (head?_eq_none_iff.mp hHead) (ne_nil_of_mem ha)
    · have hOrder := startOf_mono .hour ((h.ordered a ha).2 first hHead)
      exact (hFirst rfl first hHead).trans hOrder

theorem previousTotals_eq (h : Counting c calls) {now : Int} (hNow : calls.clock ≤ now)
    {range : AnalyticsRangeId} (hFirst : range = .d30 → FirstRetained calls)
    (hRoom : Roomy calls now range) {totals : UsageTotals}
    (hTotals : previousTotals c now range = some totals) : totals = added calls now range := by
  unfold previousTotals at hTotals
  dsimp only at hTotals
  rw [Option.ite_none_right_eq_some, Option.some_inj] at hTotals
  have hSums : c.sum (rangeSpec range).counterTier (previousStart now range)
      (previousEnd now range) = fun key => totalOf (calls.adds.filter fun a =>
        inRange (rangeSpec range).counterTier.spec (previousStart now range)
          (previousEnd now range) a ∧ a.key = key) := by
    funext key
    exact (retains_previous h hNow hFirst).each hRoom key
  rw [← hTotals.2, added, ← hSums]
  rfl

end UsageMeter

/-! ## Both -/

theorem coverage_iff (samples : List (ℚ × Values)) (hOrder : samples.Pairwise fun a b => a.1 ≤ b.1)
    (hTimes : ∀ c ∈ samples, 0 ≤ c.1) (name : Text) {start : Int} (hStart : 0 ≤ start)
    {es : List CounterEvent} (hOnly : OnlyCalls es)
    (hTimed : Guarded Calls.step Calls.Forward { clock := start } es) :
    ((run MetricHistory.record MetricHistory.make samples).Honest ↔
      MetricHistory.FirstKept samples) ∧
    let c := run CounterLog.step (.make name {} start) es
    let calls := run Calls.step { clock := start } es
    (c.Honest ↔ FirstRetained calls) ∧
    ∀ now range, calls.clock ≤ now → (range = .d30 → FirstRetained calls) →
      UsageMeter.Roomy calls now range → ∀ totals,
      UsageMeter.previousTotals c now range = some totals →
        totals = UsageMeter.added calls now range := by
  refine ⟨MetricHistory.honest_iff hOrder hTimes, ?_⟩
  have hCounting := (@counting_new name start hStart).run hOnly hTimed
  exact ⟨hCounting.honest_iff, fun now range hNow hFirst hRoom totals =>
    UsageMeter.previousTotals_eq hCounting hNow hFirst hRoom⟩

/-! ## Two requests, thirty-six days apart -/

def twoRequests : List CounterEvent :=
  [.add 0 (js "req.all") 1, .add 3110400000 (js "req.all") 1]

theorem coverage_iff_two :
    ((run MetricHistory.record MetricHistory.make GaugeTier.twoSamples).Honest ↔
      MetricHistory.FirstKept GaugeTier.twoSamples) ∧
    let c := run CounterLog.step (.make (js "web") {} 0) twoRequests
    let calls := run Calls.step { clock := 0 } twoRequests
    (c.Honest ↔ FirstRetained calls) ∧
    ∀ now range, calls.clock ≤ now → (range = .d30 → FirstRetained calls) →
      UsageMeter.Roomy calls now range → ∀ totals,
      UsageMeter.previousTotals c now range = some totals →
        totals = UsageMeter.added calls now range :=
  coverage_iff GaugeTier.twoSamples (by simp [GaugeTier.twoSamples]) (by simp [GaugeTier.twoSamples])
    (js "web") (le_refl 0) (fun now => by simp [twoRequests])
    ⟨le_refl 0, by change (0 : Int) ≤ 3110400000; decide, trivial⟩

/-- The hour of the first request is evicted by the second, and `earliest` still names it; a month later
the previous period is reported without that request. -/
theorem first_request_lost :
    let c := run CounterLog.step (.make (js "web") {} 0) twoRequests
    let calls := run Calls.step { clock := 0 } twoRequests
    c.earliest = some 0 ∧ (c.tiers .hour).buckets.get 0 = none ∧
      (UsageMeter.previousTotals c 5184000000 .d30).map UsageTotals.requests = some 0 ∧
      (UsageMeter.added calls 5184000000 .d30).requests = 1 := by
  intro c calls
  have hTier : ∀ id : CounterTierId, c.tiers id = (rolled 3110400000 id
      ((rolled 0 id ((CounterLog.make (js "web") {} 0).tiers id)).add id.spec 0 (js "req.all") 1)).add
        id.spec 3110400000 (js "req.all") 1 := by
    intro id
    have hFirst : ((CounterLog.make (js "web") {} 0).step (.add 0 (js "req.all") 1)).tiers id =
        (rolled 0 id ((CounterLog.make (js "web") {} 0).tiers id)).add id.spec 0 (js "req.all") 1 := by
      change ((CounterLog.roll _ 0).tiers id).add _ 0 _ 1 = _
      rw [(roll_spec _ 0).1]
    change ((CounterLog.roll _ 3110400000).tiers id).add _ 3110400000 _ 1 = _
    rw [(roll_spec _ 3110400000).1, ← hFirst]
  have hHour := hTier .hour
  rw [make_new] at hHour
  have hEarliest : c.earliest = some 0 := by
    change (c.tiers .hour).earliest = some 0
    rw [hHour]
    decide +kernel
  refine ⟨hEarliest, ?_, ?_, by decide +kernel⟩
  · rw [hHour]
    decide +kernel
  · have hSome : UsageMeter.previousTotals c 5184000000 .d30 =
        some (UsageMeter.totals c .hour 0 2592000000) := by
      unfold UsageMeter.previousTotals
      rw [hEarliest]
      rfl
    rw [hSome, Option.map_some]
    change some ((c.tiers .hour).sum _ _ _) = _
    rw [hHour]
    decide +kernel

end TMEdge.Analytics
