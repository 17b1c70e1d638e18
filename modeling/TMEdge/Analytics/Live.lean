import TMEdge.Analytics.Recorded

/-!
# The buckets in memory

What the calls leave in a tier of counters: its current bucket, and the buckets that are not evicted
(`Live`), step by step (`Live.rolled`, `Live.add`).
-/

namespace TMEdge.Analytics

open Library BucketLog List Function

/-! ## Calls -/

/-- The first millisecond of the year 10000. -/
def endOfDates : Int := 253402300800000

/-- What has been added, the time of the last call that moved the tiers, and the time of the last
event. -/
structure Calls where
  adds : List Added := []
  last : Int := 0
  clock : Int

namespace CounterEvent

def added : CounterEvent → List Added
  | .add time key amount => if amount ≤ 0 then [] else [{ time, key, amount }]
  | _ => []

/-- The time of an event, which is the clock where it has none. -/
def timeFrom (clock : Int) : CounterEvent → Int
  | .add time _ _ => time
  | .tick now => now
  | .restart now => now
  | .land => clock

end CounterEvent

def Calls.step (calls : Calls) (e : CounterEvent) : Calls where
  adds := calls.adds ++ e.added
  last :=
    match e with
    | .add time _ amount => if amount ≤ 0 then calls.last else time
    | .tick now => now
    | _ => calls.last
  clock := e.timeFrom calls.clock

/-- Times do not decrease, and their years have four digits. -/
def Calls.InTime (calls : Calls) (e : CounterEvent) : Prop :=
  calls.clock ≤ e.timeFrom calls.clock ∧ e.timeFrom calls.clock < endOfDates

/-- The events of a run without a restart. -/
def OnlyCalls (es : List CounterEvent) : Prop := ∀ now, .restart now ∉ es

theorem calls_skip {calls : Calls} {time : Int} (key : Text) {amount : ℚ} (h : amount ≤ 0) :
    calls.step (.add time key amount) = { calls with clock := time } := by
  rw [Calls.step, CounterEvent.added, if_pos h, append_nil]
  simp only [if_pos h]
  rfl

theorem calls_add {calls : Calls} {time : Int} (key : Text) {amount : ℚ} (h : ¬ amount ≤ 0) :
    calls.step (.add time key amount) =
      { adds := calls.adds ++ [{ time, key, amount }], last := time, clock := time } := by
  rw [Calls.step, CounterEvent.added, if_neg h]
  simp only [if_neg h]
  rfl

/-- The calls after one at a time that moves the tiers. -/
def Calls.moved (calls : Calls) (now : Int) : Calls := { calls with last := now, clock := now }

theorem calls_tick (calls : Calls) (now : Int) : calls.step (.tick now) = calls.moved now :=
  congrArg (fun adds => (⟨adds, now, now⟩ : Calls)) (append_nil calls.adds)

theorem calls_land (calls : Calls) : calls.step .land = calls :=
  congrArg (fun adds => (⟨adds, calls.last, calls.clock⟩ : Calls)) (append_nil calls.adds)

theorem calls_restart (calls : Calls) (now : Int) :
    calls.step (.restart now) = { calls with clock := now } :=
  congrArg (fun adds => (⟨adds, calls.last, now⟩ : Calls)) (append_nil calls.adds)

/-! ## Times -/

variable {id : CounterTierId} {a b time : Int}

theorem startOf_le (id : CounterTierId) (time : Int) : id.spec.startOf time ≤ time := by
  cases id
  all_goals
    change time / _ * _ ≤ time
    dsimp only [CounterTierId.spec]
    omega

theorem startOf_mono (id : CounterTierId) (h : a ≤ b) : id.spec.startOf a ≤ id.spec.startOf b := by
  cases id
  all_goals
    change a / _ * _ ≤ b / _ * _
    dsimp only [CounterTierId.spec]
    omega

theorem startOf_startOf (id : CounterTierId) (time : Int) :
    id.spec.startOf (id.spec.startOf time) = id.spec.startOf time := by
  cases id
  all_goals
    change time / _ * _ / _ * _ = time / _ * _
    dsimp only [CounterTierId.spec]
    omega

theorem startOf_nonneg (id : CounterTierId) (h : 0 ≤ time) : 0 ≤ id.spec.startOf time := by
  cases id
  all_goals
    change 0 ≤ time / _ * _
    dsimp only [CounterTierId.spec]
    omega

theorem retention_bounds (id : CounterTierId) :
    0 < id.spec.retention ∧ id.spec.retention ≤ 3024000000 := by
  cases id <;> decide

/-! ## Rolls -/

variable {c : CounterLog} {calls : Calls} {limit now : Int} {tier : CounterTier}

/-- The line that a tier leaves when time moves past it. -/
def CounterLog.Leaves (c : CounterLog) (now : Int) (id : CounterTierId)
    (line : BucketLine Counts) : Prop :=
  (c.tiers id).current < id.spec.startOf now ∧ 0 ≤ (c.tiers id).current ∧
    (c.tiers id).openBucket = some line

def rolled (now : Int) (id : CounterTierId) (tier : CounterTier) : CounterTier :=
  if id.spec.startOf now ≤ tier.current then tier else tier.roll id.spec (id.spec.startOf now)

theorem rollTier_spec (s : CounterLog × Bool) (now : Int) (id : CounterTierId) :
    (CounterLog.rollTier now s id).1.tiers =
        Function.update s.1.tiers id (rolled now id (s.1.tiers id)) ∧
      (CounterLog.rollTier now s id).1.name = s.1.name ∧
      ∀ entry line, (CounterLog.rollTier now s id).1.log.Held entry line ↔
        s.1.log.Held entry line ∨ s.1.Leaves now id line ∧
          entry = file (CounterLog.seriesOf s.1.name id).1 (CounterLog.seriesOf s.1.name id).2
            line.t := by
  unfold CounterLog.rollTier CounterLog.Leaves rolled
  dsimp only
  split
  · rename_i hLe
    refine ⟨(update_eq_self _ _).symm, rfl, fun entry line => ?_⟩
    exact ⟨.inl, fun h => h.resolve_right fun hLeaves => absurd hLeaves.1.1 (not_lt.mpr hLe)⟩
  · rename_i hLt
    refine ⟨rfl, rfl, fun entry line => ?_⟩
    split
    · rename_i new hNew
      rw [Option.ite_none_right_eq_some] at hNew
      rw [held_append]
      refine or_congr_right ?_
      constructor
      · rintro ⟨rfl, rfl⟩
        exact ⟨⟨not_le.mp hLt, hNew⟩, rfl⟩
      · rintro ⟨⟨-, -, hOpen⟩, rfl⟩
        have hEq : new = line := Option.some.inj (hNew.2.symm.trans hOpen)
        subst hEq
        exact ⟨rfl, rfl⟩
    · rename_i hNone
      refine ⟨.inl, fun h => h.resolve_right ?_⟩
      rintro ⟨⟨-, hCurrent, hOpen⟩, -⟩
      rw [if_pos hCurrent, hOpen] at hNone
      cases hNone

theorem roll_spec (c : CounterLog) (now : Int) :
    (c.roll now).tiers = (fun id => rolled now id (c.tiers id)) ∧ (c.roll now).name = c.name ∧
      ∀ entry line, (c.roll now).log.Held entry line ↔ c.log.Held entry line ∨
        ∃ id, c.Leaves now id line ∧
          entry = file (CounterLog.seriesOf c.name id).1 (CounterLog.seriesOf c.name id).2 line.t := by
  obtain ⟨hTiers, hName, hHeld⟩ := rollTier_spec (c, false) now .fine
  obtain ⟨hTiers', hName', hHeld'⟩ :=
    rollTier_spec (CounterLog.rollTier now (c, false) .fine) now .hour
  have hEq : c.roll now = (CounterLog.rollTier now (CounterLog.rollTier now (c, false) .fine)
      .hour).1 ∨ c.roll now = (CounterLog.rollTier now (CounterLog.rollTier now (c, false) .fine)
        .hour).1.save now := by
    unfold CounterLog.roll
    dsimp only [counterTiers, foldl_cons, foldl_nil]
    split
    · exact .inr rfl
    · exact .inl rfl
  have hSaved : ∀ s : CounterLog, (s.save now).tiers = s.tiers ∧ (s.save now).name = s.name ∧
      ∀ entry line, (s.save now).log.Held entry line ↔ s.log.Held entry line :=
    fun s => ⟨rfl, rfl, fun _ _ => Iff.rfl⟩
  obtain ⟨hA, hB, hC⟩ : (c.roll now).tiers = (CounterLog.rollTier now
        (CounterLog.rollTier now (c, false) .fine) .hour).1.tiers ∧
      (c.roll now).name = (CounterLog.rollTier now
        (CounterLog.rollTier now (c, false) .fine) .hour).1.name ∧
      ∀ entry line, (c.roll now).log.Held entry line ↔ (CounterLog.rollTier now
        (CounterLog.rollTier now (c, false) .fine) .hour).1.log.Held entry line := by
    rcases hEq with hEq | hEq
    · rw [hEq]
      exact ⟨rfl, rfl, fun _ _ => Iff.rfl⟩
    · rw [hEq]
      exact hSaved _
  refine ⟨?_, hB.trans (hName'.trans hName), fun entry line => ?_⟩
  · rw [hA, hTiers', hTiers]
    funext id
    cases id
    · rw [update_of_ne (by decide), update_self]
    · rw [update_self, update_of_ne (by decide)]
  · have hLeaves : (CounterLog.rollTier now (c, false) .fine).1.Leaves now .hour line ↔
        c.Leaves now .hour line := by
      rw [CounterLog.Leaves, CounterLog.Leaves, hTiers, update_of_ne (by decide)]
    rw [hC, hHeld', hHeld, hLeaves, hName, or_assoc]
    refine or_congr_right ⟨?_, ?_⟩
    · rintro (h | h)
      · exact ⟨_, h⟩
      · exact ⟨_, h⟩
    · rintro ⟨id, h⟩
      cases id
      · exact .inl h
      · exact .inr h

/-- A tier that time has not moved past, or that is rolled, is current. -/
theorem rolled_current {last : Int}
    (hCurrent : tier.current = -1 ∨ tier.current = id.spec.startOf last) (hNow : 0 ≤ now)
    (hLast : last ≤ now) : (rolled now id tier).current = id.spec.startOf now := by
  unfold rolled
  split
  · rename_i hLe
    have hNonneg := startOf_nonneg id hNow
    have hMono := startOf_mono id hLast
    omega
  · rfl

theorem bucketAt_roll (tier : CounterTier) (spec : CounterSpec) (start b : Int) :
    (tier.roll spec start).bucketAt b =
      if b < start - spec.retention then .empty else tier.bucketAt b := by
  rw [CounterTier.bucketAt, CounterTier.roll]
  dsimp only
  rw [JsMap.get_filterKeys]
  by_cases hOld : b < start - spec.retention
  · rw [if_neg (by simp only [hOld, decide_true, Bool.not_true]; decide), if_pos hOld]
    rfl
  · rw [if_pos (by simp only [hOld, decide_false, Bool.not_false]), if_neg hOld]
    rfl

/-! ## What a tier has -/

/-- From `limit` on the buckets are what was added, as far as they are not evicted. -/
structure Live (id : CounterTierId) (calls : Calls) (limit : Int) (tier : CounterTier) : Prop where
  current : tier.current = -1 ∨ tier.current = id.spec.startOf calls.last
  buckets : ∀ b, limit ≤ b → Same (tier.bucketAt b)
    (if id.spec.startOf calls.last - id.spec.retention ≤ b then recorded id.spec calls.adds b
      else .empty)

theorem Live.rolled (h : Live id calls limit tier) (hLast : 0 ≤ calls.last)
    (hNow : calls.last ≤ now) : Live id (calls.moved now) limit (rolled now id tier) := by
  have hMono := startOf_mono id hNow
  refine ⟨.inr (rolled_current h.current (by omega) hNow), fun b hb => ?_⟩
  have hOld := h.buckets b hb
  change Same _ (if id.spec.startOf now - id.spec.retention ≤ b then _ else _)
  unfold Analytics.rolled
  split
  · rename_i hLe
    have hEq : id.spec.startOf now = id.spec.startOf calls.last := by
      have hNonneg := @startOf_nonneg now id (by omega)
      have hCurrent := h.current
      omega
    rwa [hEq]
  · rw [bucketAt_roll]
    by_cases hCut : b < id.spec.startOf now - id.spec.retention
    · rw [if_pos hCut, if_neg (by omega)]
      exact fun _ => rfl
    · rw [if_neg hCut, if_pos (by omega)]
      rwa [if_pos (by omega)] at hOld

theorem bucketAt_add {spec : CounterSpec} (key : Text) (amount : ℚ)
    (h : tier.current ≤ spec.startOf time) (b : Int) :
    (tier.add spec time key amount).bucketAt b =
      countIn spec b (tier.bucketAt b) { time, key, amount } := by
  unfold CounterTier.add countIn
  dsimp only
  rw [if_neg (not_lt.mpr h)]
  split
  · rename_i bucket hBucket
    rw [CounterTier.bucketAt, JsMap.get_set]
    by_cases hb : spec.startOf time = b
    · rw [if_pos hb.symm, if_pos hb, CounterTier.bucketAt, ← hb, hBucket]
      rfl
    · rw [if_neg (Ne.symm hb), if_neg hb]
      rfl
  · rename_i hBucket
    rw [CounterTier.bucketAt, JsMap.get_set]
    by_cases hb : spec.startOf time = b
    · rw [if_pos hb.symm, if_pos hb, CounterTier.bucketAt, ← hb, hBucket]
      rfl
    · rw [if_neg (Ne.symm hb), if_neg hb]
      rfl

theorem add_current (tier : CounterTier) (spec : CounterSpec) (key : Text) (amount : ℚ) :
    (tier.add spec time key amount).current = tier.current := by
  unfold CounterTier.add
  dsimp only
  split
  · rfl
  · split <;> rfl

theorem Same.countIn {m m' : Counts} (h : Same m m') (spec : CounterSpec) (b : Int) (a : Added) :
    Same (countIn spec b m a) (countIn spec b m' a) := by
  unfold Analytics.countIn
  split
  · exact h.count a.key a.amount
  · exact h

theorem recorded_other {adds : List Added} {a : Added} (h : id.spec.startOf a.time ≠ b) :
    recorded id.spec (adds ++ [a]) b = recorded id.spec adds b := by
  rw [recorded_concat]
  exact if_neg h

/-- An amount comes to the current bucket. -/
theorem Live.add (h : Live id (calls.moved time) limit tier)
    (hCurrent : tier.current = id.spec.startOf time) (key : Text) (amount : ℚ) :
    Live id { adds := calls.adds ++ [{ time, key, amount }], last := time, clock := time } limit
      (tier.add id.spec time key amount) := by
  refine ⟨.inr (by rw [add_current, hCurrent]), fun b hb => ?_⟩
  rw [bucketAt_add key amount hCurrent.le]
  have hSame := (h.buckets b hb).countIn id.spec b { time, key, amount }
  refine hSame.trans ?_
  change Same (countIn _ b (if id.spec.startOf time - _ ≤ b then _ else _) _)
    (if id.spec.startOf time - _ ≤ b then _ else _)
  split
  · rw [recorded_concat]
    exact fun _ => rfl
  · rename_i hOld
    have hRetention := retention_bounds id
    rw [countIn, if_neg (by dsimp only; omega)]
    exact fun _ => rfl

/-- A log in a new directory. -/
theorem make_new (name : Text) (now : Int) (id : CounterTierId) :
    (CounterLog.make name {} now).tiers id = {} := by
  have hLoad : ∀ since, (({} : BucketLog Counts OpenState).takeState
      (CounterLog.stateName name)).2.load (CounterLog.seriesOf name id).1 since = [] := by
    intro since
    simp [load, takeState, JsMap.keys, JsMap.empty]
  have hMake : (CounterLog.make name {} now).tiers id = .restore id.spec now
      ((({} : BucketLog Counts OpenState).takeState (CounterLog.stateName name)).2.load
        (CounterLog.seriesOf name id).1 (now - id.spec.retention)) none := rfl
  rw [hMake, hLoad]
  rfl

end TMEdge.Analytics
