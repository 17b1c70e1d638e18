import TMEdge.Analytics.Live

/-!
# Counters across a restart

* `restart_kept_iff`: a close and reopen at a time leaves every sum of the retained range as it is, after
  any further calls, exactly when no open bucket with entries began just one retention earlier; and the
  sums of a range that is still retained are what was added in it.
-/

namespace TMEdge.Analytics

open Library BucketLog List Option JsMap

/-! ## Restarts -/

/-- The open bucket of a tier is not just one retention old when the log is opened again. -/
def CounterLog.KeepsOpen (c : CounterLog) (now : Int) : Prop :=
  ∀ id, (c.tiers id).openBucket = none ∨ (c.tiers id).current ≠ now - id.spec.retention

def CounterLog.Restarts (c : CounterLog) : CounterEvent → Prop
  | .restart now => c.KeepsOpen now
  | _ => True

variable {id : CounterTierId} {a b time : Int}

theorem dated (h : -3024000000 ≤ time) (h' : time < endOfDates) : Dated time := by
  have hFirst : Dated (-3024000000) := by
    unfold Dated
    decide
  have hLast : Dated (endOfDates - 1) := by
    unfold Dated
    decide
  exact dated_between hFirst hLast h (by omega)

theorem apart_seriesOf (name : Text) : Apart (CounterLog.seriesOf name) := by
  intro i j time h
  rw [isLines, Bool.and_eq_true, isPrefixOf_iff_prefix] at h
  have hPrefix := h.1
  simp only [CounterLog.seriesOf, file, append_assoc, prefix_append_right_inj] at hPrefix
  cases i <;> cases j
  all_goals first | rfl | simp [CounterTierId.name, js] at hPrefix

/-! ## The invariant -/

/-- A line of a tier is in its file or waits for it. -/
def CounterLog.HasLine (c : CounterLog) (id : CounterTierId) (line : BucketLine Counts) : Prop :=
  c.log.Held (file (seriesOf c.name id).1 (seriesOf c.name id).2 line.t) line

/-- What a tier has from `limit` on: its buckets are what was added, and of what the disk must keep
every bucket but the current one is there as a line. -/
structure KeptTier (c : CounterLog) (calls : Calls) (limit : Int) (id : CounterTierId) : Prop where
  live : Live id calls limit (c.tiers id)
  placed : ∀ line, c.HasLine id line → id.spec.startOf line.t = line.t ∧ 0 ≤ line.t ∧
    line.t < id.spec.startOf calls.clock ∧
    ((c.tiers id).current = -1 ∨ line.t < (c.tiers id).current)
  lines : ∀ line, c.HasLine id line → limit ≤ line.t →
    Same line.v (recorded id.spec calls.adds line.t)
  present : ∀ b, limit ≤ b → calls.clock - id.spec.retention ≤ b →
    0 < (recorded id.spec calls.adds b).size →
    ((c.tiers id).current = b ∧ 0 ≤ b) ∨ ∃ line, c.HasLine id line ∧ line.t = b

structure Kept (c : CounterLog) (calls : Calls) (limit : CounterTierId → Int) : Prop where
  times : 0 ≤ calls.last ∧ calls.last ≤ calls.clock ∧ calls.clock < endOfDates
  positive : ∀ a ∈ calls.adds, 0 < a.amount
  filed : c.log.Filed (CounterLog.seriesOf c.name)
  tiers : ∀ id, KeptTier c calls (limit id) id

variable {c c' : CounterLog} {calls : Calls} {limit : CounterTierId → Int} {now : Int}
  {es : List CounterEvent}

/-- A log may lose lines that are older than what the disk must keep. -/
theorem Kept.thin (h : Kept c calls limit) (hTiers : c'.tiers = c.tiers) (hName : c'.name = c.name)
    (hSub : ∀ entry line, c'.log.Held entry line → c.log.Held entry line)
    (hKeep : ∀ id line, calls.clock - id.spec.retention ≤ line.t → c.HasLine id line →
      c'.HasLine id line) : Kept c' calls limit where
  times := h.times
  positive := h.positive
  filed entry line hLine := by
    rw [hName]
    exact h.filed entry line (hSub entry line hLine)
  tiers id := by
    have hLine : ∀ line, c'.HasLine id line → c.HasLine id line := by
      intro line hLine
      rw [CounterLog.HasLine, hName] at hLine
      exact hSub _ _ hLine
    have hTier := h.tiers id
    constructor
    · rw [hTiers]
      exact hTier.live
    · rw [hTiers]
      exact fun line h => hTier.placed line (hLine line h)
    · exact fun line h => hTier.lines line (hLine line h)
    · intro b hb hClock hSize
      rw [hTiers]
      refine (hTier.present b hb hClock hSize).imp_right ?_
      rintro ⟨line, hHas, rfl⟩
      exact ⟨line, hKeep id line hClock hHas, rfl⟩

/-- Only the tiers and the lines count. -/
theorem Kept.congr (h : Kept c calls limit) (hTiers : c'.tiers = c.tiers) (hName : c'.name = c.name)
    (hHeld : ∀ entry line, c'.log.Held entry line ↔ c.log.Held entry line) :
    Kept c' calls limit := by
  refine h.thin hTiers hName (fun entry line => (hHeld entry line).mp) fun id line _ hLine => ?_
  rw [CounterLog.HasLine, hName]
  exact (hHeld _ _).mpr hLine

/-- Time goes by. -/
theorem Kept.later (h : Kept c calls limit) (hNow : calls.clock ≤ now) (hEnd : now < endOfDates) :
    Kept c { calls with clock := now } limit where
  times := ⟨h.times.1, h.times.2.1.trans hNow, hEnd⟩
  positive := h.positive
  filed := h.filed
  tiers id := by
    have hTier := h.tiers id
    have hMono := startOf_mono id hNow
    refine ⟨⟨hTier.live.current, hTier.live.buckets⟩, fun line hLine => ?_, hTier.lines, ?_⟩
    · obtain ⟨hAligned, hZero, hBefore, hCurrent⟩ := hTier.placed line hLine
      exact ⟨hAligned, hZero, hBefore.trans_le hMono, hCurrent⟩
    · intro b hb hClock hSize
      change now - id.spec.retention ≤ b at hClock
      exact hTier.present b hb (by omega) hSize

/-! ## A roll -/

theorem openBucket_some {tier : CounterTier} {line : BucketLine Counts}
    (h : tier.openBucket = some line) : line.t = tier.current ∧
      Same line.v (tier.bucketAt tier.current) := by
  unfold CounterTier.openBucket at h
  split at h
  · rename_i bucket hBucket
    rw [ite_none_right_eq_some, some_inj] at h
    rw [CounterTier.bucketAt, hBucket, ← h.2]
    exact ⟨rfl, same_fromEntries bucket⟩
  · cases h

theorem openBucket_none {tier : CounterTier} (h : tier.openBucket = none) :
    ¬ 0 < (tier.bucketAt tier.current).size := by
  unfold CounterTier.openBucket at h
  rw [CounterTier.bucketAt]
  split at h
  · rename_i bucket hBucket
    rw [hBucket]
    intro hPos
    rw [if_pos (show 0 < bucket.size from hPos)] at h
    cases h
  · rename_i hBucket
    rw [hBucket]
    exact lt_irrefl 0

/-- The file of a line tells its tier. -/
theorem hasLine_of_file {entry : Text} {line : BucketLine Counts} {j : CounterTierId}
    (h : entry = file (CounterLog.seriesOf c.name id).1 (CounterLog.seriesOf c.name id).2 line.t)
    (h' : entry = file (CounterLog.seriesOf c.name j).1 (CounterLog.seriesOf c.name j).2 time) :
    id = j := by
  refine apart_seriesOf c.name id j time ?_
  rw [← h', h]
  exact isLines_file _ _ _

theorem hasLine_roll (c : CounterLog) (now : Int) (id : CounterTierId) (line : BucketLine Counts) :
    (c.roll now).HasLine id line ↔ c.HasLine id line ∨ c.Leaves now id line := by
  obtain ⟨-, hName, hHeld⟩ := roll_spec c now
  rw [CounterLog.HasLine, hName, hHeld]
  refine or_congr_right ⟨?_, fun h => ⟨id, h, rfl⟩⟩
  rintro ⟨j, hLeaves, hFile⟩
  rw [hasLine_of_file rfl hFile]
  exact hLeaves

theorem KeptTier.roll (h : KeptTier c calls (limit id) id) (hTimes : 0 ≤ calls.last ∧
    calls.last ≤ calls.clock) (hNow : calls.clock ≤ now) :
    KeptTier (c.roll now) (calls.moved now) (limit id) id := by
  have hTier : (c.roll now).tiers id = rolled now id (c.tiers id) := by rw [(roll_spec c now).1]
  have hStart : (rolled now id (c.tiers id)).current = id.spec.startOf now :=
    rolled_current h.live.current (by omega) (by omega)
  have hMono := startOf_mono id (hTimes.2.trans hNow)
  have hMono' := startOf_mono id hNow
  have hRetention := retention_bounds id
  -- the current bucket has not been evicted
  have hOpen : 0 ≤ (c.tiers id).current → limit id ≤ (c.tiers id).current →
      Same ((c.tiers id).bucketAt (c.tiers id).current)
        (recorded id.spec calls.adds (c.tiers id).current) := by
    intro hNonneg hLimit
    have hSame := h.live.buckets _ hLimit
    rwa [if_pos (by have := h.live.current; omega)] at hSame
  constructor
  · rw [hTier]
    exact h.live.rolled hTimes.1 (hTimes.2.trans hNow)
  · intro line hLine
    rw [hTier, hStart]
    change _ ∧ _ ∧ line.t < id.spec.startOf now ∧ (_ ∨ line.t < id.spec.startOf now)
    rcases (hasLine_roll c now id line).mp hLine with hLine | ⟨hLt, hNonneg, hSome⟩
    · obtain ⟨hAligned, hZero, hBefore, -⟩ := h.placed line hLine
      exact ⟨hAligned, hZero, by omega, .inr (by omega)⟩
    · obtain ⟨hTime, -⟩ := openBucket_some hSome
      have hCurrent : (c.tiers id).current = id.spec.startOf calls.last :=
        h.live.current.resolve_left (by omega)
      rw [hTime, hCurrent, startOf_startOf]
      exact ⟨rfl, by omega, by omega, .inr (by omega)⟩
  · intro line hLine hLimit
    rcases (hasLine_roll c now id line).mp hLine with hLine | ⟨hLt, hNonneg, hSome⟩
    · exact h.lines line hLine hLimit
    · obtain ⟨hTime, hSame⟩ := openBucket_some hSome
      rw [hTime] at hLimit ⊢
      exact hSame.trans (hOpen hNonneg hLimit)
  · intro b hb hClock hSize
    change now - id.spec.retention ≤ b at hClock
    rw [hTier, hStart]
    rcases h.present b hb (by omega) hSize with ⟨hCurrent, hNonneg⟩ | ⟨line, hLine, hTime⟩
    · subst hCurrent
      by_cases hLt : (c.tiers id).current < id.spec.startOf now
      · right
        rcases hSome : (c.tiers id).openBucket with - | line
        · have hEmpty := openBucket_none hSome
          rw [(hOpen hNonneg hb).size] at hEmpty
          exact absurd hSize hEmpty
        · exact ⟨line, (hasLine_roll c now id line).mpr (.inr ⟨hLt, hNonneg, hSome⟩),
            (openBucket_some hSome).1⟩
      · exact .inl ⟨by have := h.live.current; omega, hNonneg⟩
    · exact .inr ⟨line, (hasLine_roll c now id line).mpr (.inl hLine), hTime⟩

theorem Kept.roll (h : Kept c calls limit) (hNow : calls.clock ≤ now) (hEnd : now < endOfDates) :
    Kept (c.roll now) (calls.moved now) limit := by
  obtain ⟨hLast, hClock, -⟩ := h.times
  obtain ⟨-, hName, hHeld⟩ := roll_spec c now
  refine ⟨⟨?_, le_refl now, hEnd⟩, h.positive, fun entry line hLine => ?_, fun id =>
    (h.tiers id).roll ⟨hLast, hClock⟩ hNow⟩
  · change 0 ≤ now
    omega
  · rw [hName]
    rcases (hHeld entry line).mp hLine with hLine | ⟨id, ⟨-, hNonneg, hSome⟩, rfl⟩
    · exact h.filed entry line hLine
    · refine ⟨?_, id, rfl⟩
      have hLe := startOf_le id calls.last
      have hCurrent := (h.tiers id).live.current.resolve_left (by omega)
      rw [(openBucket_some hSome).1]
      exact dated (by omega) (by omega)

/-! ## A call of add -/

theorem roll_current (h : Kept c calls limit) (hNow : calls.clock ≤ now) (id : CounterTierId) :
    ((c.roll now).tiers id).current = id.spec.startOf now := by
  obtain ⟨hLast, hClock, -⟩ := h.times
  rw [(roll_spec c now).1]
  exact rolled_current (h.tiers id).live.current (by omega) (by omega)

theorem Kept.add (h : Kept c calls limit) (hNow : calls.clock ≤ time) (hEnd : time < endOfDates)
    (key : Text) {amount : ℚ} (hAmount : 0 < amount) :
    Kept (c.add time key amount)
      { adds := calls.adds ++ [{ time, key, amount }], last := time, clock := time } limit := by
  have hRolled := h.roll hNow hEnd
  have hAdd : c.add time key amount = { c.roll time with
      tiers := fun id => ((c.roll time).tiers id).add id.spec time key amount, dirty := true } :=
    if_neg (not_le.mpr hAmount)
  have hLine : ∀ id line, (c.add time key amount).HasLine id line ↔ (c.roll time).HasLine id line := by
    intro id line
    rw [hAdd]
    rfl
  have hTiers : ∀ id, (c.add time key amount).tiers id =
      ((c.roll time).tiers id).add id.spec time key amount := by
    intro id
    rw [hAdd]
  refine ⟨hRolled.times, ?_, ?_, fun id => ?_⟩
  · intro a ha
    rcases mem_append.mp ha with ha | ha
    · exact h.positive a ha
    · rw [mem_singleton.mp ha]
      exact hAmount
  · rw [hAdd]
    exact hRolled.filed
  · have hTier := hRolled.tiers id
    have hCurrent := roll_current h hNow id
    constructor
    · rw [hTiers]
      exact hTier.live.add hCurrent key amount
    · intro line hHas
      obtain ⟨hAligned, hZero, hBefore, -⟩ := hTier.placed line ((hLine id line).mp hHas)
      rw [hTiers, add_current, hCurrent]
      exact ⟨hAligned, hZero, hBefore, .inr hBefore⟩
    · intro line hHas hLimit
      obtain ⟨-, -, hBefore, -⟩ := hTier.placed line ((hLine id line).mp hHas)
      change line.t < id.spec.startOf time at hBefore
      rw [recorded_other (by dsimp only; omega)]
      exact hTier.lines line ((hLine id line).mp hHas) hLimit
    · intro b hb hClock hSize
      rw [hTiers, add_current, hCurrent]
      have hTimes := h.times
      by_cases hStart : id.spec.startOf time = b
      · exact .inl ⟨hStart, by have := @startOf_nonneg time id (by omega); omega⟩
      · rw [recorded_other hStart] at hSize
        have hPresent := hTier.present b hb hClock hSize
        rw [hCurrent] at hPresent
        refine hPresent.imp_right ?_
        rintro ⟨line, hHas, hTime⟩
        exact ⟨line, (hLine id line).mpr hHas, hTime⟩

/-! ## A tick -/

theorem Kept.tick (h : Kept c calls limit) (hNow : calls.clock ≤ now) (hEnd : now < endOfDates) :
    Kept (c.tick now) (calls.moved now) limit := by
  have hRolled := h.roll hNow hEnd
  have hTimes := h.times
  have hPruned : ∀ {c : CounterLog}, Kept c (calls.moved now) limit → ∀ j,
      Kept { c with log := CounterLog.pruneTier now c.name c.log j } (calls.moved now) limit := by
    intro c hKept j
    refine hKept.thin rfl rfl (fun entry line => held_of_prune) fun id line hLe hLine => ?_
    have hRetention := retention_bounds j
    exact held_prune (apart_seriesOf c.name) (dated (by omega) (by omega)) (hKept.filed _ _ hLine).1
      (fun hEq => hEq ▸ hLe) hLine
  unfold CounterLog.tick
  dsimp only
  have hSaved : Kept (if (c.roll now).dirty ∧ 60000 ≤ now - (c.roll now).lastSave then
      (c.roll now).save now else c.roll now) (calls.moved now) limit := by
    split
    · exact hRolled.congr rfl rfl fun _ _ => Iff.rfl
    · exact hRolled
  generalize (if (c.roll now).dirty ∧ 60000 ≤ now - (c.roll now).lastSave then
    (c.roll now).save now else c.roll now) = c' at hSaved ⊢
  split
  · exact (hPruned (hPruned hSaved .fine) .hour).congr rfl rfl fun _ _ => Iff.rfl
  · exact hSaved

/-! ## A restart -/

/-- The finished buckets as they are read back. -/
def readBack (spec : CounterSpec) (lines : List (BucketLine Counts)) : CounterTier :=
  lines.foldl (fun tier line => tier.set (spec.startOf line.t) line.v) {}

theorem readBack_spec (spec : CounterSpec) (lines : List (BucketLine Counts)) :
    (readBack spec lines).current = -1 ∧
    (∀ b m, (readBack spec lines).buckets.get b = some m →
      ∃ line ∈ lines, spec.startOf line.t = b ∧ m = CounterTier.setCounts line.v) ∧
    ∀ line ∈ lines, ((readBack spec lines).buckets.get (spec.startOf line.t)).isSome := by
  induction lines using List.reverseRecOn with
  | nil => exact ⟨rfl, fun b m h => absurd h (by simp [readBack]), fun _ h => absurd h (by simp)⟩
  | append_singleton lines new ih =>
    obtain ⟨hCurrent, hGet, hSome⟩ := ih
    have hStep : readBack spec (lines ++ [new]) =
        (readBack spec lines).set (spec.startOf new.t) new.v := by
      rw [readBack, foldl_append]
      rfl
    rw [hStep]
    refine ⟨hCurrent, fun b m h => ?_, fun line hLine => ?_⟩
    · rw [CounterTier.set] at h
      dsimp only at h
      rw [get_set] at h
      split at h
      · rename_i hb
        cases h
        exact ⟨new, by simp, hb.symm, rfl⟩
      · obtain ⟨line, hLine, hRest⟩ := hGet b m h
        exact ⟨line, by simp [hLine], hRest⟩
    · rw [CounterTier.set]
      dsimp only
      rw [get_set]
      split
      · rfl
      · rename_i hNe
        rcases mem_append.mp hLine with hLine | hLine
        · exact hSome line hLine
        · rw [mem_singleton.mp hLine] at hNe
          exact absurd rfl hNe

/-- A saved bucket goes on, or it is too old or has been finished. -/
theorem restore_spec (spec : CounterSpec) (now : Int) (lines : List (BucketLine Counts))
    (saved : Option (BucketLine Counts)) :
    (∃ line, saved = some line ∧ now - spec.retention < line.t ∧
      (CounterTier.restore spec now lines saved).current = line.t ∧
      ∀ b, (CounterTier.restore spec now lines saved).bucketAt b =
        if b = line.t then CounterTier.setCounts line.v else (readBack spec lines).bucketAt b) ∨
    ((∀ line, saved = some line → line.t ≤ now - spec.retention ∨
        ∃ l ∈ lines, spec.startOf l.t = line.t) ∧
      CounterTier.restore spec now lines saved = readBack spec lines) := by
  rcases saved with - | line
  · exact .inr ⟨nofun, rfl⟩
  · by_cases hOpen : now - spec.retention < line.t ∧ ¬ (readBack spec lines).buckets.has line.t
    · have hEq : CounterTier.restore spec now lines (some line) =
          { (readBack spec lines).set line.t line.v with current := line.t } := if_pos hOpen
      rw [hEq]
      refine .inl ⟨line, rfl, hOpen.1, rfl, fun b => ?_⟩
      rw [CounterTier.bucketAt, CounterTier.set]
      dsimp only
      rw [get_set]
      split <;> rfl
    · refine .inr ⟨fun line' hEq => ?_, if_neg hOpen⟩
      cases hEq
      rcases not_and_or.mp hOpen with hOld | hHas
      · exact .inl (not_lt.mp hOld)
      · rw [not_not, JsMap.has, isSome_iff_exists] at hHas
        obtain ⟨m, hGet⟩ := hHas
        obtain ⟨l, hl, hStart, -⟩ := (readBack_spec spec lines).2.1 _ m hGet
        exact .inr ⟨l, hl, hStart⟩

theorem close_spec (c : CounterLog) (now : Int) : (c.close now).queue = [] ∧
    (c.close now).states.get (stateFile (CounterLog.stateName c.name)) =
      some (fun id => (c.tiers id).openBucket) ∧
    ∀ entry line, (c.close now).Held entry line ↔ c.log.Held entry line := by
  obtain ⟨hQueue, hStates, hHeld⟩ := flush_spec (c.save now).log
  refine ⟨hQueue, ?_, fun entry line => (hHeld entry line).trans Iff.rfl⟩
  rw [CounterLog.close, hStates]
  exact (get_set _ _ _ _).trans (if_pos rfl)

/-- What a tier reads back: its lines that are not too old, and its open bucket. -/
theorem restart_tier (h : Kept c calls limit) (hNow : calls.clock ≤ now) (hEnd : now < endOfDates)
    (id : CounterTierId) : ∃ lines, ((c.step (.restart now)).tiers id) =
        .restore id.spec now lines (c.tiers id).openBucket ∧
      ∀ line, line ∈ lines ↔ c.HasLine id line ∧ now - id.spec.retention ≤ line.t := by
  obtain ⟨hQueue, hState, hHeld⟩ := close_spec c now
  obtain ⟨hLast, hClock, -⟩ := h.times
  have hRetention := retention_bounds id
  refine ⟨((c.close now).takeState (CounterLog.stateName c.name)).2.load
    (CounterLog.seriesOf c.name id).1 (now - id.spec.retention), ?_, fun line => ?_⟩
  · change CounterTier.restore _ _ _ (((c.close now).states.get _).bind fun state => state id) = _
    rw [hState]
    rfl
  · have hFiled : ((c.close now).takeState (CounterLog.stateName c.name)).2.Filed
        (CounterLog.seriesOf c.name) := fun entry line hLine =>
      h.filed entry line ((hHeld entry line).mp hLine)
    exact (mem_load hFiled (apart_seriesOf c.name) hQueue (dated (by omega) (by omega))).trans
      (and_congr_left' (hHeld _ _))

theorem Kept.restart (h : Kept c calls limit) (hNow : calls.clock ≤ now) (hEnd : now < endOfDates)
    (hKeeps : c.KeepsOpen now) (hLimit : ∀ id, now - id.spec.retention ≤ limit id) :
    Kept (c.step (.restart now)) { calls with clock := now } limit := by
  have hLater := h.later hNow hEnd
  obtain ⟨hLast, hClock, -⟩ := h.times
  obtain ⟨-, -, hHeld⟩ := close_spec c now
  have hLine : ∀ id line, (c.step (.restart now)).HasLine id line ↔ c.HasLine id line :=
    fun id line => hHeld _ _
  refine ⟨hLater.times, h.positive, fun entry line hLine =>
    h.filed entry line ((hHeld _ _).mp hLine), fun id => ?_⟩
  have hTier := hLater.tiers id
  have hOldLimit := hLimit id
  obtain ⟨lines, hRestore, hLines⟩ := restart_tier h hNow hEnd id
  have hStartLast := startOf_le id calls.last
  have hWhole : ∀ b, limit id ≤ b → Same ((c.tiers id).bucketAt b)
      (recorded id.spec calls.adds b) := by
    intro b hb
    have hSame := hTier.live.buckets b hb
    rwa [if_pos (by dsimp only; omega)] at hSame
  -- a bucket that is a line is read back
  have hRead : ∀ b, limit id ≤ b → ∀ m, (readBack id.spec lines).buckets.get b = some m →
      Same m (recorded id.spec calls.adds b) := by
    intro b hb m hGet
    obtain ⟨line, hMem, hStart, rfl⟩ := (readBack_spec id.spec lines).2.1 b m hGet
    have hHas := ((hLines line).mp hMem).1
    rw [(hTier.placed line hHas).1] at hStart
    have hSame := hTier.lines line hHas (hStart ▸ hb)
    have hCounted := hSame.symm.counted (counted_recorded h.positive)
    rw [setCounts_eq hCounted, ← hStart]
    exact hSame
  -- what is not read back is open, or nothing was added to it
  have hMissing : ∀ b, limit id ≤ b → (readBack id.spec lines).buckets.get b = none →
      (c.tiers id).current = b ∧ (c.tiers id).openBucket ≠ none ∨
        ¬ 0 < (recorded id.spec calls.adds b).size := by
    intro b hb hNone
    by_cases hSize : 0 < (recorded id.spec calls.adds b).size
    · left
      have hPresent := hTier.present b hb (by dsimp only; omega) hSize
      rcases hPresent with ⟨hCurrent, -⟩ | ⟨line, hHas, hTime⟩
      · refine ⟨hCurrent, fun hNo => openBucket_none hNo ?_⟩
        rw [hCurrent, (hWhole b hb).size]
        exact hSize
      · have hMem := (hLines line).mpr ⟨hHas, by omega⟩
        have hSome := (readBack_spec id.spec lines).2.2 line hMem
        rw [(hTier.placed line hHas).1, hTime, hNone] at hSome
        cases hSome
    · exact .inr hSize
  rcases restore_spec id.spec now lines (c.tiers id).openBucket with
    ⟨line, hSaved, hNew, hCurrent, hBuckets⟩ | ⟨hNot, hEq⟩
  · obtain ⟨hTime, hSame⟩ := openBucket_some hSaved
    have hCurrent : ((c.step (.restart now)).tiers id).current = (c.tiers id).current := by
      rw [hRestore, hCurrent, hTime]
    constructor
    · refine ⟨by rw [hCurrent]; exact hTier.live.current, fun b hb => ?_⟩
      have hLive : id.spec.startOf calls.last - id.spec.retention ≤ b := by omega
      rw [hRestore, hBuckets, if_pos hLive]
      split
      · rename_i hb'
        rw [hTime] at hb'
        have hOpen := hSame.trans (hb' ▸ hWhole b hb)
        rw [setCounts_eq (hOpen.symm.counted (counted_recorded h.positive)), hb']
        exact hOpen
      · rename_i hNe
        rcases hGet : (readBack id.spec lines).buckets.get b with - | m
        · rw [CounterTier.bucketAt, hGet]
          refine (eq_empty_of_size ?_).symm
          rcases hMissing b hb hGet with ⟨hOpen, -⟩ | hEmpty
          · exact absurd (hOpen.symm.trans hTime.symm) hNe
          · exact hEmpty
        · rw [CounterTier.bucketAt, hGet]
          exact hRead b hb m hGet
    · intro line hHas
      rw [hCurrent]
      exact hTier.placed line ((hLine id line).mp hHas)
    · exact fun line hHas => hTier.lines line ((hLine id line).mp hHas)
    · intro b hb hOld hSize
      rw [hCurrent]
      refine (hTier.present b hb hOld hSize).imp_right ?_
      rintro ⟨line, hHas, hTime⟩
      exact ⟨line, (hLine id line).mpr hHas, hTime⟩
  · have hCurrent : ((c.step (.restart now)).tiers id).current = -1 := by
      rw [hRestore, hEq]
      exact (readBack_spec id.spec lines).1
    -- an open bucket that is not restored is too old to matter
    have hGone : ∀ b, limit id ≤ b → (readBack id.spec lines).buckets.get b = none →
        ¬ 0 < (recorded id.spec calls.adds b).size := by
      intro b hb hNone
      rcases hMissing b hb hNone with ⟨hOpen, hSome⟩ | hEmpty
      · obtain ⟨line, hSaved⟩ := ne_none_iff_exists'.mp hSome
        obtain ⟨hTime, -⟩ := openBucket_some hSaved
        rcases hNot line hSaved with hOld | ⟨l, hMem, hStart⟩
        · rcases hKeeps id with hNone | hNe
          · exact absurd hNone hSome
          · omega
        · have hBack := (readBack_spec id.spec lines).2.2 l hMem
          rw [hStart, hTime, hOpen, hNone] at hBack
          cases hBack
      · exact hEmpty
    constructor
    · refine ⟨.inl hCurrent, fun b hb => ?_⟩
      have hLive : id.spec.startOf calls.last - id.spec.retention ≤ b := by omega
      rw [hRestore, hEq, if_pos hLive]
      rcases hGet : (readBack id.spec lines).buckets.get b with - | m
      · rw [CounterTier.bucketAt, hGet]
        exact (eq_empty_of_size (hGone b hb hGet)).symm
      · rw [CounterTier.bucketAt, hGet]
        exact hRead b hb m hGet
    · intro line hHas
      obtain ⟨hAligned, hZero, hBefore, -⟩ := hTier.placed line ((hLine id line).mp hHas)
      exact ⟨hAligned, hZero, hBefore, .inl hCurrent⟩
    · exact fun line hHas => hTier.lines line ((hLine id line).mp hHas)
    · intro b hb _ hSize
      right
      rcases hGet : (readBack id.spec lines).buckets.get b with - | m
      · exact absurd hSize (hGone b hb hGet)
      · obtain ⟨line, hMem, hStart, -⟩ := (readBack_spec id.spec lines).2.1 b m hGet
        have hHas := ((hLines line).mp hMem).1
        exact ⟨line, (hLine id line).mpr hHas, (hTier.placed line hHas).1 ▸ hStart⟩

/-- The open bucket that is just one retention old is not read back. -/
theorem restart_drops (h : Kept c calls limit) (hNow : calls.clock ≤ now) (hEnd : now < endOfDates)
    (hAge : (c.tiers id).current = now - id.spec.retention) :
    ((c.step (.restart now)).tiers id).bucketAt (c.tiers id).current = .empty := by
  obtain ⟨lines, hRestore, hLines⟩ := restart_tier h hNow hEnd id
  rcases restore_spec id.spec now lines (c.tiers id).openBucket with
    ⟨line, hSaved, hNew, -⟩ | ⟨-, hEq⟩
  · rw [(openBucket_some hSaved).1] at hNew
    omega
  · rw [hRestore, hEq, CounterTier.bucketAt]
    rcases hGet : (readBack id.spec lines).buckets.get (c.tiers id).current with - | m
    · rfl
    · obtain ⟨line, hMem, hStart, -⟩ := (readBack_spec id.spec lines).2.1 _ m hGet
      obtain ⟨hAligned, hZero, -, hPlace⟩ := (h.tiers id).placed line ((hLines line).mp hMem).1
      omega

/-! ## Runs -/

theorem Kept.step (h : Kept c calls limit) {e : CounterEvent} (hTime : calls.InTime e)
    (hKeeps : c.Restarts e)
    (hLimit : ∀ now, e = .restart now → ∀ id : CounterTierId, now - id.spec.retention ≤ limit id) :
    Kept (c.step e) (calls.step e) limit := by
  obtain ⟨hNow, hEnd⟩ := hTime
  cases e with
  | add time key amount =>
    by_cases hAmount : amount ≤ 0
    · have hSkip : c.step (.add time key amount) = c := if_pos hAmount
      rw [calls_skip key hAmount, hSkip]
      exact h.later hNow hEnd
    · rw [calls_add key hAmount]
      exact h.add hNow hEnd key (not_le.mp hAmount)
  | tick now =>
    rw [calls_tick]
    exact h.tick hNow hEnd
  | land =>
    rw [calls_land]
    exact h.congr rfl rfl fun entry line => held_land
  | restart now =>
    rw [calls_restart]
    exact h.restart hNow hEnd hKeeps (hLimit now rfl)

theorem Kept.run (h : Kept c calls limit) {es : List CounterEvent}
    (hTimed : Guarded Calls.step Calls.InTime calls es)
    (hKeeps : Guarded CounterLog.step CounterLog.Restarts c es)
    (hLimit : ∀ now, .restart now ∈ es → ∀ id : CounterTierId,
      now - id.spec.retention ≤ limit id) :
    Kept (run CounterLog.step c es) (run Calls.step calls es) limit := by
  induction es generalizing c calls with
  | nil => exact h
  | cons e es ih =>
    refine ih (h.step hTimed.1 hKeeps.1 fun now hEq => hLimit now (by simp [hEq])) hTimed.2 hKeeps.2
      fun now hMem => hLimit now (mem_cons_of_mem _ hMem)

theorem clock_le (hTimed : Guarded Calls.step Calls.InTime calls es) :
    calls.clock ≤ (run Calls.step calls es).clock := by
  induction es generalizing calls with
  | nil => exact le_refl _
  | cons e es ih => exact hTimed.1.1.trans (ih hTimed.2)

theorem restart_le_clock (hTimed : Guarded Calls.step Calls.InTime calls es)
    (hMem : .restart now ∈ es) : now ≤ (run Calls.step calls es).clock := by
  induction es generalizing calls with
  | nil => exact absurd hMem not_mem_nil
  | cons e es ih =>
    rcases mem_cons.mp hMem with rfl | hMem
    · exact clock_le hTimed.2
    · exact ih hTimed.2 hMem

theorem kept_new (name : Text) (hStart : 0 ≤ now ∧ now < endOfDates) (limit : CounterTierId → Int) :
    Kept (.make name {} now) { clock := now } limit := by
  have hNone : ∀ entry line, ¬ (CounterLog.make name {} now).log.Held entry line := by
    rintro entry line (h | h)
    · exact absurd h not_mem_nil
    · exact absurd h not_mem_nil
  refine ⟨⟨le_refl 0, hStart⟩, fun _ h => absurd h not_mem_nil,
    fun entry line h => absurd h (hNone entry line), fun id => ?_⟩
  constructor
  · rw [make_new]
    refine ⟨.inl rfl, fun b _ => ?_⟩
    split <;> exact fun _ => rfl
  · exact fun line h => absurd h (hNone _ line)
  · exact fun line h => absurd h (hNone _ line)
  · exact fun b _ _ hSize => absurd hSize (lt_irrefl 0)

theorem OnlyCalls.guarded (h : OnlyCalls es) :
    Guarded CounterLog.step CounterLog.Restarts c es := by
  induction es generalizing c with
  | nil => trivial
  | cons e es ih =>
    refine ⟨?_, ih fun now hMem => h now (mem_cons_of_mem _ hMem)⟩
    cases e with
    | restart now => exact absurd mem_cons_self (h now)
    | _ => trivial

/-- The sums of what is retained at a time. -/
def SameSums (c c' : CounterLog) (now : Int) : Prop :=
  ∀ (id : CounterTierId) since before key, now - id.spec.retention ≤ since →
    c.sum id since before key = c'.sum id since before key

theorem Kept.sameSums (h : Kept c calls limit) (h' : Kept c' calls limit)
    (hLimit : ∀ id : CounterTierId, limit id = now - id.spec.retention) : SameSums c c' now := by
  intro id since before key hSince
  refine CounterTier.sum_congr (fun b hb => ?_) before key
  have hb' : limit id ≤ b := by
    rw [hLimit]
    omega
  exact ((h.tiers id).live.buckets b hb').trans ((h'.tiers id).live.buckets b hb').symm

/-- What the sums of a range are. -/
structure Conserved (c : CounterLog) (adds : List Added) (id : CounterTierId)
    (since before : Int) : Prop where
  total : ∀ names : Finset Text, (∀ a ∈ adds, a.key ∈ names) → overflowKey ∈ names →
    ∑ k ∈ names, c.sum id since before k =
      totalOf (adds.filter fun a => inRange id.spec since before a)
  each : (∀ b, since ≤ b → b < before → NoOverflow id.spec adds b) → ∀ k,
    c.sum id since before k =
      totalOf (adds.filter fun a => inRange id.spec since before a ∧ a.key = k)

theorem Kept.conserved (h : Kept c calls limit)
    (hLimit : ∀ id : CounterTierId, limit id = calls.clock - id.spec.retention)
    (id : CounterTierId) {since : Int} (hSince : calls.clock - id.spec.retention ≤ since)
    (before : Int) : Conserved c calls.adds id since before := by
  have hRetains : Retains id.spec calls.adds (c.tiers id) since := by
    intro b hb
    have hSame := (h.tiers id).live.buckets b (by rw [hLimit]; omega)
    have hStart := startOf_le id calls.last
    have hTimes := h.times
    rwa [if_pos (by omega)] at hSame
  exact ⟨fun names hNames hOver => hRetains.total before hNames hOver,
    fun hRoom k => hRetains.each hRoom k⟩

theorem Kept.keepsOpen (h : Kept c calls limit)
    (hLimit : ∀ id : CounterTierId, limit id = now - id.spec.retention)
    (hNow : calls.clock ≤ now) (hEnd : now < endOfDates)
    (hSame : SameSums (c.step (.restart now)) c now) : c.KeepsOpen now := by
  intro id
  by_contra hNot
  obtain ⟨hOpen, hAge⟩ := not_or.mp hNot
  rw [not_not] at hAge
  obtain ⟨line, hLine⟩ := ne_none_iff_exists'.mp hOpen
  have hSize : 0 < ((c.tiers id).bucketAt (c.tiers id).current).size := by
    by_contra hEmpty
    refine hOpen ?_
    unfold CounterTier.openBucket
    rw [CounterTier.bucketAt] at hEmpty
    split
    · rename_i bucket hBucket
      rw [hBucket] at hEmpty
      exact if_neg hEmpty
    · rfl
  have hBucket := (h.tiers id).live.buckets (c.tiers id).current (by rw [hLimit]; omega)
  have hTimes := h.times
  have hStart := startOf_le id calls.last
  rw [if_pos (by omega)] at hBucket
  -- a name of the bucket has an amount before, and none after
  obtain ⟨e, he⟩ := exists_mem_of_length_pos hSize
  have hGet := get_eq_some_iff.mpr he
  have hPositive := (hBucket.symm.counted (counted_recorded h.positive)).positive e.1 e.2 hGet
  have hSums := hSame id (c.tiers id).current ((c.tiers id).current + 1) e.1 (by omega)
  rw [CounterLog.sum, CounterLog.sum, CounterTier.sum_single, CounterTier.sum_single,
    restart_drops h hNow hEnd hAge] at hSums
  rw [amountOf, amountOf, hGet] at hSums
  exact absurd hSums hPositive.ne

/-- In every run whose restarts drop no open bucket: a further restart leaves the sums of what is
retained at its time as they are, after any calls that follow, exactly when it drops no open bucket
either; and the sums of a range that is retained are what was added in it. -/
theorem restart_kept_iff (name : Text) (start : Int) (hStart : 0 ≤ start ∧ start < endOfDates)
    (es : List CounterEvent) (hTimed : Guarded Calls.step Calls.InTime { clock := start } es)
    (hKeeps : Guarded CounterLog.step CounterLog.Restarts (.make name {} start) es) :
    let c := run CounterLog.step (.make name {} start) es
    let calls := run Calls.step { clock := start } es
    (∀ now, calls.InTime (.restart now) →
      ((∀ after, OnlyCalls after →
        Guarded Calls.step Calls.InTime (calls.step (.restart now)) after →
        SameSums (run CounterLog.step (c.step (.restart now)) after) (run CounterLog.step c after)
          now) ↔ c.KeepsOpen now)) ∧
    ∀ (id : CounterTierId) since before, calls.clock - id.spec.retention ≤ since →
      Conserved c calls.adds id since before := by
  intro c calls
  have hKept : ∀ clock, calls.clock ≤ clock →
      Kept c calls fun id => clock - id.spec.retention := by
    intro clock hClock
    refine (kept_new name hStart _).run hTimed hKeeps fun now hMem id => ?_
    have hLe := restart_le_clock hTimed hMem
    have hLe' : now ≤ clock := hLe.trans hClock
    omega
  constructor
  · rintro now ⟨hNow, hEnd⟩
    have h := hKept now hNow
    constructor
    · intro hSame
      exact h.keepsOpen (fun _ => rfl) hNow hEnd (hSame [] (fun _ => List.not_mem_nil) trivial)
    · intro hOpen after hOnly hAfter
      have hNone : ∀ time, .restart time ∈ after → ∀ id : CounterTierId,
          time - id.spec.retention ≤ now - id.spec.retention :=
        fun time hMem => absurd hMem (hOnly time)
      rw [calls_restart] at hAfter
      have hWith := (h.restart hNow hEnd hOpen fun _ => le_refl _).run hAfter hOnly.guarded hNone
      have hWithout := (h.later hNow hEnd).run hAfter hOnly.guarded hNone
      exact hWith.sameSums hWithout fun _ => rfl
  · intro id since before hSince
    exact (hKept calls.clock (le_refl _)).conserved (fun _ => rfl) id hSince before

/-! ## A restart after two days -/

def oneAdded : List CounterEvent := [.add 0 (js "req.all") 1]

theorem oneAdded_timed : Guarded Calls.step Calls.InTime { clock := 0 } oneAdded :=
  ⟨⟨le_refl 0, by decide⟩, trivial⟩

theorem oneAdded_restarts :
    Guarded CounterLog.step CounterLog.Restarts (.make (js "web") {} 0) oneAdded :=
  ⟨trivial, trivial⟩

theorem restart_kept_iff_one :
    let c := run CounterLog.step (.make (js "web") {} 0) oneAdded
    let calls := run Calls.step { clock := 0 } oneAdded
    (∀ now, calls.InTime (.restart now) →
      ((∀ after, OnlyCalls after →
        Guarded Calls.step Calls.InTime (calls.step (.restart now)) after →
        SameSums (run CounterLog.step (c.step (.restart now)) after) (run CounterLog.step c after)
          now) ↔ c.KeepsOpen now)) ∧
    ∀ (id : CounterTierId) since before, calls.clock - id.spec.retention ≤ since →
      Conserved c calls.adds id since before :=
  restart_kept_iff (js "web") 0 ⟨le_refl 0, by decide⟩ oneAdded oneAdded_timed oneAdded_restarts

/-- The bucket of the first five minutes is open for two days, and gone when the log is then opened
again. -/
theorem open_bucket_lost :
    let c := run CounterLog.step (.make (js "web") {} 0) oneAdded
    c.sum .fine 0 300000 (js "req.all") = 1 ∧
      (c.step (.restart 172800000)).sum .fine 0 300000 (js "req.all") = 0 := by
  intro c
  have hRolled : c.tiers .fine =
      (rolled 0 .fine ((CounterLog.make (js "web") {} 0).tiers .fine)).add CounterTierId.fine.spec 0
        (js "req.all") 1 := by
    change ((CounterLog.roll _ 0).tiers .fine).add _ 0 _ 1 = _
    rw [(roll_spec _ 0).1]
  rw [make_new] at hRolled
  have hKept : Kept c { adds := [⟨0, js "req.all", 1⟩], last := 0, clock := 0 } fun _ => 0 :=
    (kept_new (js "web") ⟨le_refl 0, by decide⟩ _).add (le_refl 0) (by decide) _ one_pos
  constructor
  · change (c.tiers .fine).sum _ _ _ = _
    rw [hRolled]
    decide +kernel
  · change ((c.step (.restart 172800000)).tiers .fine).sum _ _ _ = _
    obtain ⟨lines, hRestore, hLines⟩ :=
      @restart_tier c _ _ 172800000 hKept (by decide) (by decide) .fine
    have hNil : lines = [] := by
      refine List.eq_nil_iff_forall_not_mem.mpr fun line hMem => ?_
      obtain ⟨-, hZero, hBefore, -⟩ := (hKept.tiers .fine).placed line ((hLines line).mp hMem).1
      exact absurd hBefore (not_lt.mpr hZero)
    rcases restore_spec CounterTierId.fine.spec 172800000 lines (c.tiers .fine).openBucket with
      ⟨line, hSaved, hNew, -⟩ | ⟨-, hEq⟩
    · rw [(openBucket_some hSaved).1, hRolled] at hNew
      exact absurd hNew (by decide)
    · rw [hRestore, hEq, hNil]
      rfl

end TMEdge.Analytics
