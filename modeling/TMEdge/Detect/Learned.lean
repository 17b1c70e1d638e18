import TMEdge.Detect.StaticBackground
import TMEdge.Library.Run

/-!
# What is learned

* `background_sound`: in every run the buckets are in order, few and recent, the file is read back in
  full, and a pixel that is at most `x` in enough buckets is learned as at most `x`.
-/

namespace TMEdge.Detect

open Library List

variable {opts : StaticBackgroundOptions} {round : ℚ → ℚ} {size : Doc → Nat}

/-! ## Buckets -/

/-- More than half of the frames of a bucket are at most `x` at a pixel. -/
def OpenBucket.Mostly (cur : OpenBucket) (i : Nat) (x : ℚ) : Prop :=
  cur.rows.length < 2 * (column cur.rows i).countP (· ≤ x)

/-- Writing a value does not lift it above `x`. -/
def KeepsBelow (round : ℚ → ℚ) (x : ℚ) : Prop := ∀ v, v ≤ x → round v ≤ x

/-- A bucket is what was made of a closed one, and perhaps written and read back since. -/
structure MadeOf (round : ℚ → ℚ) (cur : OpenBucket) (b : Bucket) : Prop where
  start : cur.start = b.start
  samples : b.samples = cur.rows.length
  length : b.rel.length = gridSize
  below : ∀ i < gridSize, ∀ x, KeepsBelow round x → cur.Mostly i x → b.rel.getD i 0 ≤ x

theorem madeOf_toBucket (cur : OpenBucket) : MadeOf round cur cur.toBucket where
  start := rfl
  samples := rfl
  length := by
    rw [OpenBucket.toBucket, length_map, length_range]
  below i hi x _ hMostly := by
    have hGet : cur.toBucket.rel.getD i 0 = median (column cur.rows i) := by
      rw [OpenBucket.toBucket]
      dsimp only
      rw [getD_eq_getElem?_getD, getElem?_map, getElem?_range hi]
      rfl
    rw [hGet]
    refine median_le ?_
    rw [column, length_map]
    exact hMostly

/-- Buckets in order, each of them made of a closed one with enough frames. -/
structure Kept (opts : StaticBackgroundOptions) (round : ℚ → ℚ) (closed : List OpenBucket)
    (buckets : List Bucket) : Prop where
  ordered : buckets.Pairwise fun a b => a.start < b.start
  aligned : ∀ b ∈ buckets, ∃ k : Int, b.start = k * opts.bucketMs
  samples : ∀ b ∈ buckets, opts.minSamplesPerBucket ≤ b.samples ∧ b.samples ≤ opts.maxSamples
  made : ∀ b ∈ buckets, ∃ cur ∈ closed, MadeOf round cur b

/-- The buckets of a model or a file: those that a quantile at a time was taken of. -/
structure Good (opts : StaticBackgroundOptions) (round : ℚ → ℚ) (closed : List OpenBucket)
    (recomputedAt : Option ℚ) (buckets : List Bucket) : Prop
    extends Kept opts round closed buckets where
  window : ∀ b ∈ buckets, ∃ now, recomputedAt = some now ∧ now - opts.windowMs ≤ b.start ∧
    b.start ≤ now

variable {closed : List OpenBucket} {recomputedAt : Option ℚ} {buckets : List Bucket}

theorem good_nil : Good opts round closed recomputedAt [] :=
  ⟨⟨.nil, nofun, nofun, nofun⟩, nofun⟩

theorem Kept.more (h : Kept opts round closed buckets) (cur : OpenBucket) :
    Kept opts round (closed ++ [cur]) buckets where
  ordered := h.ordered
  aligned := h.aligned
  samples := h.samples
  made b hb := by
    obtain ⟨c, hc, hMade⟩ := h.made b hb
    exact ⟨c, mem_append_left _ hc, hMade⟩

/-- A closed bucket with enough frames comes last. -/
theorem Kept.push (h : Kept opts round closed buckets) {cur : OpenBucket}
    (hLast : ∀ c ∈ closed, c.start < cur.start) (hStart : ∃ k : Int, cur.start = k * opts.bucketMs)
    (hEnough : opts.minSamplesPerBucket ≤ cur.rows.length)
    (hRoom : cur.rows.length ≤ opts.maxSamples) :
    Kept opts round (closed ++ [cur]) (buckets ++ [cur.toBucket]) where
  ordered := by
    refine pairwise_append.mpr ⟨h.ordered, pairwise_singleton _ _, fun a ha b hb => ?_⟩
    obtain ⟨c, hc, hMade⟩ := h.made a ha
    rw [mem_singleton.mp hb, ← hMade.start]
    exact hLast c hc
  aligned b hb := by
    rcases mem_append.mp hb with hb | hb
    · exact h.aligned b hb
    · rw [mem_singleton.mp hb]
      exact hStart
  samples b hb := by
    rcases mem_append.mp hb with hb | hb
    · exact h.samples b hb
    · rw [mem_singleton.mp hb]
      refine ⟨by simpa [OpenBucket.toBucket] using hEnough, ?_⟩
      rw [OpenBucket.toBucket]
      dsimp only
      exact_mod_cast hRoom
  made b hb := by
    rcases mem_append.mp hb with hb | hb
    · exact (h.more cur).made b hb
    · rw [mem_singleton.mp hb]
      exact ⟨cur, mem_append_right _ (mem_singleton_self cur), madeOf_toBucket cur⟩

/-- The buckets that vote are recent. -/
theorem Kept.voting {m : StaticBackground} (h : Kept opts round closed m.buckets) (now : ℚ) :
    Good opts round closed (some now) (m.voting opts now) where
  ordered := h.ordered.sublist filter_sublist
  aligned b hb := h.aligned b (mem_filter.mp hb).1
  samples b hb := h.samples b (mem_filter.mp hb).1
  made b hb := h.made b (mem_filter.mp hb).1
  window _ hb := ⟨now, rfl, of_decide_eq_true (mem_filter.mp hb).2⟩

/-- There is room in the window for so many buckets. -/
theorem Good.length (h : Good opts round closed recomputedAt buckets) :
    (buckets.length : Int) ≤ ⌊opts.windowMs / opts.bucketMs⌋ + 1 := by
  have hStep := opts.bucketMs_pos
  have hFloor : 0 ≤ ⌊opts.windowMs / opts.bucketMs⌋ :=
    Int.floor_nonneg.mpr (div_nonneg opts.windowMs_nonneg hStep.le)
  rcases buckets with - | ⟨first, rest⟩
  · simp only [length_nil, Nat.cast_zero]
    omega
  · -- the starts are different multiples of the length of a bucket
    obtain ⟨now, hNow, hOld, -⟩ := h.window first mem_cons_self
    have hIndex : ∀ b ∈ first :: rest, (⌊b.start / opts.bucketMs⌋ : ℚ) * opts.bucketMs = b.start := by
      intro b hb
      obtain ⟨k, hk⟩ := h.aligned b hb
      rw [hk, mul_div_cancel_right₀ _ hStep.ne', Int.floor_intCast]
    have hNodup : ((first :: rest).map fun b => ⌊b.start / opts.bucketMs⌋).Nodup := by
      refine pairwise_map.mpr (h.ordered.imp_of_mem fun ha hb hLt hEq => ?_)
      rw [← hIndex _ ha, ← hIndex _ hb, hEq] at hLt
      exact lt_irrefl _ hLt
    have hRange : ((first :: rest).map fun b => ⌊b.start / opts.bucketMs⌋).toFinset ⊆
        Finset.Icc ⌊first.start / opts.bucketMs⌋
          (⌊first.start / opts.bucketMs⌋ + ⌊opts.windowMs / opts.bucketMs⌋) := by
      intro k hk
      obtain ⟨b, hb, rfl⟩ := mem_map.mp (mem_toFinset.mp hk)
      obtain ⟨now', hNow', -, hRecent⟩ := h.window b hb
      rw [hNow] at hNow'
      cases hNow'
      refine Finset.mem_Icc.mpr ⟨Int.floor_le_floor (div_le_div_of_nonneg_right ?_ hStep.le), ?_⟩
      · rcases mem_cons.mp hb with rfl | hb
        · exact le_refl _
        · exact (rel_of_pairwise_cons h.ordered hb).le
      · have hSpan : ⌊b.start / opts.bucketMs⌋ - ⌊first.start / opts.bucketMs⌋ ≤
            ⌊opts.windowMs / opts.bucketMs⌋ := by
          refine Int.le_floor.mpr ((le_div_iff₀ hStep).mpr ?_)
          push_cast
          rw [sub_mul, hIndex b hb, hIndex first mem_cons_self]
          linarith
        omega
    have hCard := Finset.card_le_card hRange
    rw [toFinset_card_of_nodup hNodup, length_map, Int.card_Icc] at hCard
    omega

/-! ## The vote -/

/-- The frames of a bucket are mostly at most `x` at a pixel. -/
def Votes (closed : List OpenBucket) (i : Nat) (x : ℚ) (b : Bucket) : Prop :=
  ∃ cur ∈ closed, cur.start = b.start ∧ cur.Mostly i x

instance (cur : OpenBucket) (i : Nat) (x : ℚ) : Decidable (cur.Mostly i x) :=
  inferInstanceAs (Decidable (_ < _))

instance (closed : List OpenBucket) (i : Nat) (x : ℚ) : DecidablePred (Votes closed i x) :=
  fun _ => inferInstanceAs (Decidable (∃ cur ∈ closed, _))

theorem Kept.learned (h : Kept opts round closed buckets)
    (hClosed : closed.Pairwise fun a b => a.start < b.start) {i : Nat} (hi : i < gridSize) {x : ℚ}
    (hRound : KeepsBelow round x)
    (hVotes : ⌊opts.quantile * ((buckets.length : ℚ) - 1)⌋ + 2 ≤
      (buckets.countP fun b => Votes closed i x b : Int)) :
    (learn opts.quantile buckets).getD i 0 ≤ x := by
  have hGet : (learn opts.quantile buckets).getD i 0 =
      quantileSorted (ascending (column (buckets.map Bucket.rel) i)) opts.quantile := by
    rw [learn, getD_eq_getElem?_getD, getElem?_map, getElem?_range hi]
    rfl
  have hCount : (buckets.countP fun b => Votes closed i x b) ≤
      (column (buckets.map Bucket.rel) i).countP (· ≤ x) := by
    rw [column, map_map, countP_map]
    refine countP_mono_left fun b hb hVote => ?_
    obtain ⟨cur, hMem, hStart, hMostly⟩ := of_decide_eq_true hVote
    obtain ⟨cur', hMem', hMade⟩ := h.made b hb
    -- only one closed bucket has this start
    have hEq : cur' = cur := by
      have hNodup : (closed.map OpenBucket.start).Nodup :=
        pairwise_map.mpr (hClosed.imp fun hLt => hLt.ne)
      exact inj_on_of_nodup_map hNodup hMem' hMem (hMade.start.trans hStart.symm)
    subst hEq
    exact decide_eq_true (hMade.below i hi x hRound hMostly)
  rw [hGet]
  refine quantileSorted_le (ascending_sorted _) opts.quantile_pos opts.quantile_lt ?_
  rw [length_ascending, countP_ascending, column, length_map, length_map]
  exact hVotes.trans (by exact_mod_cast hCount)

/-! ## The file -/

/-- A bucket that is written and read back. -/
def reread (round : ℚ → ℚ) (b : Bucket) : Bucket := { b with rel := b.rel.map round }

/-- The document of some buckets. -/
def docOf (opts : StaticBackgroundOptions) (round : ℚ → ℚ) (buckets : List Bucket) : Doc :=
  ({ buckets := buckets } : StaticBackground).toDoc opts round

theorem MadeOf.reread {cur : OpenBucket} {b : Bucket} (h : MadeOf round cur b) :
    MadeOf round cur (reread round b) where
  start := h.start
  samples := h.samples
  length := (length_map round).trans h.length
  below i hi x hRound hMostly := by
    have hBound := h.below i hi x hRound hMostly
    have hi' : i < b.rel.length := by rwa [h.length]
    rw [getD_eq_getElem?_getD, getElem?_eq_getElem hi'] at hBound
    rw [Detect.reread, getD_eq_getElem?_getD, getElem?_map, getElem?_eq_getElem hi']
    exact hRound _ hBound

theorem Good.reread (h : Good opts round closed recomputedAt buckets) :
    Good opts round closed recomputedAt (buckets.map (reread round)) where
  ordered := pairwise_map.mpr h.ordered
  aligned b hb := by
    obtain ⟨b', hb', rfl⟩ := mem_map.mp hb
    exact h.aligned b' hb'
  samples b hb := by
    obtain ⟨b', hb', rfl⟩ := mem_map.mp hb
    exact h.samples b' hb'
  made b hb := by
    obtain ⟨b', hb', rfl⟩ := mem_map.mp hb
    obtain ⟨cur, hMem, hMade⟩ := h.made b' hb'
    exact ⟨cur, hMem, hMade.reread⟩
  window b hb := by
    obtain ⟨b', hb', rfl⟩ := mem_map.mp hb
    exact h.window b' hb'

/-- Every bucket that is written is acceptable. -/
theorem loadBuckets (h : Kept opts round closed buckets) :
    (docOf opts round buckets).buckets.foldl (StaticBackground.loadBucket opts) [] =
      buckets.map (reread round) := by
  have hAll : ∀ (rest taken : List Bucket), taken ++ rest = buckets →
      (docOf opts round rest).buckets.foldl (StaticBackground.loadBucket opts)
        (taken.map (reread round)) = (taken ++ rest).map (reread round) := by
    intro rest
    induction rest with
    | nil =>
      intro taken _
      rw [append_nil]
      rfl
    | cons b rest ih =>
      intro taken hSplit
      have hb : b ∈ buckets := by
        rw [← hSplit]
        simp
      obtain ⟨k, hk⟩ := h.aligned b hb
      obtain ⟨hEnough, hRoom⟩ := h.samples b hb
      obtain ⟨cur, -, hMade⟩ := h.made b hb
      have hNew : b.start ∉ (taken.map (reread round)).map Bucket.start := by
        rw [map_map]
        intro hMem
        obtain ⟨a, ha, hEq⟩ := mem_map.mp hMem
        have hOrder := h.ordered
        rw [← hSplit] at hOrder
        have hLt := (pairwise_append.mp hOrder).2.2 a ha b mem_cons_self
        exact hLt.ne hEq
      have hIndex : (b.start / opts.bucketMs).den = 1 := by
        rw [hk, mul_div_cancel_right₀ _ opts.bucketMs_pos.ne', Rat.den_intCast]
      have hTake : StaticBackground.loadBucket opts (taken.map (reread round))
          { start := b.start, samples := b.samples, rel := b.rel.map round } =
            (taken ++ [b]).map (reread round) := by
        unfold StaticBackground.loadBucket StaticBackground.acceptable
        rw [if_pos, map_append]
        · rfl
        · simp only [hIndex, hNew, Rat.den_intCast, hEnough, length_map, hMade.length,
            not_false_eq_true, decide_true, Bool.and_true, Bool.true_and, decide_eq_true_eq]
          exact_mod_cast hRoom
      have hRest := ih (taken ++ [b]) (by rw [append_assoc]; exact hSplit)
      rw [append_assoc] at hRest
      change List.foldl _ (StaticBackground.loadBucket opts (taken.map (Detect.reread round))
        { start := b.start, samples := b.samples, rel := b.rel.map round }) _ = _
      rw [hTake]
      exact hRest
  exact hAll buckets [] rfl

/-- A file that is not too large is read back in full. -/
theorem load_docOf (h : Good opts round closed recomputedAt buckets)
    (hSize : size (docOf opts round buckets) ≤ 4 * 1024 * 1024) :
    StaticBackground.load opts size (some (docOf opts round buckets)) =
      { buckets := buckets.map (reread round), stale := true } := by
  have hLength : ¬ (⌈opts.windowMs / opts.bucketMs⌉ + 1 < (docOf opts round buckets).buckets.length) := by
    have hRoom := h.length
    have hCeil := Int.floor_le_ceil (opts.windowMs / opts.bucketMs)
    have hEq : (docOf opts round buckets).buckets.length = buckets.length := length_map _
    omega
  have hSame : ¬ ((docOf opts round buckets).version ≠ 1 ∨
      (docOf opts round buckets).bucketMs ≠ opts.bucketMs ∨
      ⌈opts.windowMs / opts.bucketMs⌉ + 1 < (docOf opts round buckets).buckets.length) := by
    rintro (hVersion | hBucket | hLong)
    · exact hVersion rfl
    · exact hBucket rfl
    · exact hLength hLong
  unfold StaticBackground.load
  dsimp only
  rw [if_neg (not_lt.mpr hSize), if_neg hSame, loadBuckets h.toKept]
  have hSorted : (buckets.map (Detect.reread round)).Pairwise fun a b =>
      decide (a.start ≤ b.start) = true :=
    h.reread.ordered.imp fun hLt => decide_eq_true hLt.le
  rw [mergeSort_of_pairwise hSorted]

/-! ## The invariant -/

/-- What holds when no event is later than `clock`. -/
structure Inv (opts : StaticBackgroundOptions) (round : ℚ → ℚ) (w : World) (clock : ℚ) : Prop where
  closed : w.closed.Pairwise fun a b => a.start < b.start
  past : ∀ c ∈ w.closed, c.start < opts.startOf clock ∧
    ∀ cur, w.model.current = some cur → c.start < cur.start
  current : ∀ cur, w.model.current = some cur → (∃ k : Int, cur.start = k * opts.bucketMs) ∧
    cur.start ≤ opts.startOf clock ∧ cur.rows.length ≤ opts.maxSamples
  model : Good opts round w.closed w.recomputedAt w.model.buckets
  file : ∀ doc, w.file = some doc → ∃ buckets, Good opts round w.closed w.savedAt buckets ∧
    doc = docOf opts round buckets
  rel : ∀ rel, w.model.rel = some rel → rel = learn opts.quantile w.model.buckets ∧
    opts.minBuckets ≤ w.model.buckets.length

variable {w : World} {clock now : ℚ}

theorem startOf_mono (opts : StaticBackgroundOptions) {a b : ℚ} (h : a ≤ b) :
    opts.startOf a ≤ opts.startOf b := by
  have hFloor := Int.floor_le_floor (div_le_div_of_nonneg_right h opts.bucketMs_pos.le)
  exact mul_le_mul_of_nonneg_right (by exact_mod_cast hFloor) opts.bucketMs_pos.le

theorem Inv.later (h : Inv opts round w clock) (hNow : clock ≤ now) : Inv opts round w now where
  closed := h.closed
  past c hc := ⟨(h.past c hc).1.trans_le (startOf_mono opts hNow), (h.past c hc).2⟩
  current cur hCur :=
    ⟨(h.current cur hCur).1, (h.current cur hCur).2.1.trans (startOf_mono opts hNow),
      (h.current cur hCur).2.2⟩
  model := h.model
  file := h.file
  rel := h.rel

namespace World

theorem foldl_act (writes : Bool) (acts : List Act) (w : World) (model : StaticBackground) :
    acts.foldl (act writes) { w with model := model } =
      { acts.foldl (act writes) w with model := model } := by
  induction acts generalizing w with
  | nil => rfl
  | cons a acts ih =>
    have hAct : act writes { w with model := model } a = { act writes w a with model := model } := by
      cases a with
      | recomputed now => rfl
      | closed bucket => rfl
      | saved doc =>
        cases writes
        · rfl
        · rfl
    rw [foldl_cons, foldl_cons, hAct, ih]

theorem after_model (w : World) (writes : Bool) (m : StaticBackground) (acts : List Act) :
    (w.after writes (m, acts)).model = m := by
  rw [after, foldl_act]

/-- What two methods do, one after the other. -/
theorem after_append (w : World) (writes : Bool) (m m' : StaticBackground) (acts more : List Act) :
    w.after writes (m', acts ++ more) = (w.after writes (m, acts)).after writes (m', more) := by
  change (acts ++ more).foldl (act writes) { w with model := m' } =
    more.foldl (act writes) { acts.foldl (act writes) { w with model := m } with model := m' }
  rw [foldl_append, foldl_act writes acts w m', foldl_act writes acts w m]

end World

/-- The quantile that is taken is that of the buckets that are kept. -/
theorem recompute_rel (m : StaticBackground) (now : ℚ) {rel : List ℚ}
    (h : (m.recompute opts now).rel = some rel) :
    rel = learn opts.quantile (m.recompute opts now).buckets ∧
      opts.minBuckets ≤ (m.recompute opts now).buckets.length := by
  rw [StaticBackground.recompute] at h ⊢
  dsimp only at h ⊢
  split at h
  · cases h
  · rename_i hEnough
    exact ⟨(Option.some.inj h).symm, not_lt.mp hEnough⟩

theorem Inv.refresh (h : Inv opts round w clock) (hNow : clock ≤ now) (writes : Bool) :
    Inv opts round (w.after writes (w.model.refresh opts now)) now := by
  have hLater := h.later hNow
  unfold StaticBackground.refresh
  split
  · exact {
      closed := hLater.closed
      past := hLater.past
      current := hLater.current
      model := hLater.model.toKept.voting now
      file := hLater.file
      rel := fun rel hRel => recompute_rel w.model now hRel }
  · exact hLater

theorem Inv.close (h : Inv opts round w clock)
    (hStart : w.model.current.any (·.start ≠ opts.startOf clock)) (writes : Bool) :
    Inv opts round (w.after writes (w.model.close opts round clock)) clock := by
  unfold StaticBackground.close
  rcases hCur : w.model.current with - | cur
  · rw [hCur] at hStart
    cases hStart
  · dsimp only
    obtain ⟨hAligned, hBefore, hRoom⟩ := h.current cur hCur
    have hPast : cur.start < opts.startOf clock := by
      rw [hCur] at hStart
      exact lt_of_le_of_ne hBefore (by simpa using hStart)
    split
    · exact {
        closed := h.closed
        past := fun c hc => ⟨(h.past c hc).1, nofun⟩
        current := nofun
        model := h.model
        file := h.file
        rel := h.rel }
    · rename_i hEnough
      have hLast : ∀ c ∈ w.closed, c.start < cur.start := fun c hc => (h.past c hc).2 cur hCur
      have hPushed := h.model.toKept.push hLast hAligned (not_lt.mp hEnough) hRoom
      have hKept := Kept.voting (m := { w.model with
        current := none
        buckets := w.model.buckets ++ [cur.toBucket] }) hPushed clock
      have hFile : ∀ doc, w.file = some doc → ∃ buckets,
          Good opts round (w.closed ++ [cur]) w.savedAt buckets ∧ doc = docOf opts round buckets := by
        intro doc hDoc
        obtain ⟨buckets, hGood, hEq⟩ := h.file doc hDoc
        exact ⟨buckets, ⟨hGood.toKept.more cur, hGood.window⟩, hEq⟩
      have hClosed : (w.closed ++ [cur]).Pairwise fun a b => a.start < b.start := by
        refine pairwise_append.mpr ⟨h.closed, pairwise_singleton _ _, fun a ha b hb => ?_⟩
        rw [mem_singleton.mp hb]
        exact hLast a ha
      have hPast' : ∀ c ∈ w.closed ++ [cur], c.start < opts.startOf clock := by
        intro c hc
        rcases mem_append.mp hc with hc | hc
        · exact (h.past c hc).1
        · rw [mem_singleton.mp hc]
          exact hPast
      cases writes
      · exact {
          closed := hClosed
          past := fun c hc => ⟨hPast' c hc, nofun⟩
          current := nofun
          model := hKept
          file := hFile
          rel := fun rel hRel => recompute_rel _ clock hRel }
      · refine {
          closed := hClosed
          past := fun c hc => ⟨hPast' c hc, nofun⟩
          current := nofun
          model := hKept
          file := fun doc hDoc => ⟨_, hKept, (Option.some.inj hDoc).symm⟩
          rel := fun rel hRel => recompute_rel _ clock hRel }

theorem Inv.sample (h : Inv opts round w clock) (temps : List ℚ) :
    Inv opts round { w with model := w.model.sample opts temps clock } clock := by
  unfold StaticBackground.sample
  split
  · exact h
  have hStart : ∀ {start : ℚ}, start = (w.model.current.getD { start := opts.startOf clock }).start →
      (∃ k : Int, start = k * opts.bucketMs) ∧ start ≤ opts.startOf clock ∧
        ∀ c ∈ w.closed, c.start < start := by
    rintro start rfl
    rcases hCur : w.model.current with - | cur
    · exact ⟨⟨_, rfl⟩, le_refl _, fun c hc => (h.past c hc).1⟩
    · obtain ⟨hAligned, hBefore, -⟩ := h.current cur hCur
      exact ⟨hAligned, hBefore, fun c hc => (h.past c hc).2 cur hCur⟩
  have hRoom : (w.model.current.getD { start := opts.startOf clock }).rows.length ≤
      opts.maxSamples := by
    rcases hCur : w.model.current with - | cur
    · exact Nat.zero_le _
    · exact (h.current cur hCur).2.2
  obtain ⟨hAligned, hBefore, hAfter⟩ := hStart rfl
  dsimp only
  split
  · exact {
      closed := h.closed
      past := fun c hc => ⟨(h.past c hc).1, fun cur hCur => by cases hCur; exact hAfter c hc⟩
      current := fun cur hCur => by
        cases hCur
        exact ⟨hAligned, hBefore, hRoom⟩
      model := h.model
      file := h.file
      rel := h.rel }
  · rename_i hNotFull
    exact {
      closed := h.closed
      past := fun c hc => ⟨(h.past c hc).1, fun cur hCur => by cases hCur; exact hAfter c hc⟩
      current := fun cur hCur => by
        cases hCur
        refine ⟨hAligned, hBefore, ?_⟩
        dsimp only
        rw [length_append, length_singleton]
        omega
      model := h.model
      file := h.file
      rel := h.rel }

theorem Inv.add (h : Inv opts round w clock) {temps : List (Option ℚ)} {time : Option ℚ}
    {writes : Bool} (hTime : ∀ t, time = some t → clock ≤ t) :
    Inv opts round (w.step opts round size (.add temps time writes)) (time.getD clock) := by
  change Inv opts round (w.after writes (w.model.add opts round temps time)) _
  unfold StaticBackground.add
  rcases time with - | now
  · exact h
  have hNow := hTime now rfl
  rcases StaticBackground.readFrame temps with - | frame
  · exact h.later hNow
  dsimp only
  have hFresh := h.refresh hNow writes
  have hModel := World.after_model w writes (w.model.refresh opts now).1 (w.model.refresh opts now).2
  -- the bucket of an earlier time is closed
  have hClosed : Inv opts round ((w.after writes (w.model.refresh opts now)).after writes
      (if (w.model.refresh opts now).1.current.any (·.start ≠ opts.startOf now) then
        (w.model.refresh opts now).1.close opts round now else ((w.model.refresh opts now).1, [])))
      now := by
    split
    · rename_i hAny
      have hStart : (w.after writes (w.model.refresh opts now)).model.current.any
          (·.start ≠ opts.startOf now) := by rw [hModel]; exact hAny
      have hClose := hFresh.close hStart writes
      rw [hModel] at hClose
      exact hClose
    · rw [World.after]
      change Inv opts round { w.after writes (w.model.refresh opts now) with
        model := (w.model.refresh opts now).1 } now
      rw [← hModel]
      exact hFresh
  generalize (if (w.model.refresh opts now).1.current.any (·.start ≠ opts.startOf now) then
    (w.model.refresh opts now).1.close opts round now else ((w.model.refresh opts now).1, [])) =
      closing at hClosed ⊢
  have hSampled := hClosed.sample frame
  have hStep : w.after writes ((closing.1.sample opts frame now), (w.model.refresh opts now).2 ++
      closing.2) = { (w.after writes (w.model.refresh opts now)).after writes closing with
        model := ((w.after writes (w.model.refresh opts now)).after writes closing).model.sample opts
          frame now } := by
    rw [World.after_append w writes (w.model.refresh opts now).1, World.after_model]
    simp only [World.after, World.foldl_act]
  rw [hStep]
  exact hSampled

theorem Inv.restart (h : Inv opts round w clock) :
    Inv opts round (w.step opts round size .restart) clock := by
  have hNew : Inv opts round { w with model := {}, recomputedAt := none } clock := {
    closed := h.closed
    past := fun c hc => ⟨(h.past c hc).1, nofun⟩
    current := nofun
    model := good_nil
    file := h.file
    rel := nofun }
  rcases hFile : w.file with - | doc
  · have hStep : w.step opts round size .restart = { w with model := {}, recomputedAt := none } := by
      rw [World.step, hFile]
      rfl
    rw [hStep]
    exact hNew
  · obtain ⟨buckets, hGood, rfl⟩ := h.file doc hFile
    by_cases hSize : size (docOf opts round buckets) ≤ 4 * 1024 * 1024
    · have hStep : w.step opts round size .restart = { w with
          model := { buckets := buckets.map (reread round), stale := true }
          recomputedAt := w.savedAt } := by
        rw [World.step, hFile, load_docOf hGood hSize]
        rfl
      rw [hStep]
      exact {
        closed := h.closed
        past := fun c hc => ⟨(h.past c hc).1, nofun⟩
        current := nofun
        model := hGood.reread
        file := h.file
        rel := nofun }
    · have hStep : w.step opts round size .restart = { w with model := {}, recomputedAt := none } := by
        have hLoad : StaticBackground.load opts size (some (docOf opts round buckets)) = {} := by
          unfold StaticBackground.load
          exact if_pos (not_le.mp hSize)
        rw [World.step, hFile, hLoad]
        rfl
      rw [hStep]
      exact hNew

theorem Inv.step (h : Inv opts round w clock) {e : World.Event}
    (hTime : ∀ t, e.time? = some t → clock ≤ t) :
    Inv opts round (w.step opts round size e) (e.time?.getD clock) := by
  cases e with
  | add temps time writes => exact h.add hTime
  | state now => exact h.refresh (hTime now rfl) false
  | restart => exact h.restart

theorem Inv.run (h : Inv opts round w clock) {es : List World.Event}
    (hTimes : (es.filterMap World.Event.time?).Pairwise (· ≤ ·))
    (hFrom : ∀ t ∈ es.filterMap World.Event.time?, clock ≤ t) :
    ∃ clock', Inv opts round (run (World.step opts round size) w es) clock' := by
  induction es generalizing w clock with
  | nil => exact ⟨clock, h⟩
  | cons e es ih =>
    rw [filterMap_cons] at hTimes hFrom
    rcases hTime : e.time? with - | t
    · rw [hTime] at hTimes hFrom
      have hStep := @Inv.step opts round size w clock h e (by rw [hTime]; nofun)
      rw [hTime] at hStep
      exact ih hStep hTimes hFrom
    · rw [hTime] at hTimes hFrom
      have hStep := @Inv.step opts round size w clock h e fun t' hEq =>
        hFrom t' (by rw [hTime] at hEq; cases hEq; exact mem_cons_self)
      rw [hTime] at hStep
      exact ih hStep (pairwise_cons.mp hTimes).2 (pairwise_cons.mp hTimes).1

theorem inv_new (opts : StaticBackgroundOptions) (round : ℚ → ℚ) (clock : ℚ) :
    Inv opts round {} clock where
  closed := .nil
  past := nofun
  current := nofun
  model := good_nil
  file := nofun
  rel := nofun

/-! ## Every run -/

/-- What holds of the model and the file after a run. -/
structure Sound (opts : StaticBackgroundOptions) (round : ℚ → ℚ) (size : Doc → Nat)
    (w : World) : Prop where
  ordered : w.model.buckets.Pairwise fun a b => a.start < b.start
  recent : ∀ b ∈ w.model.buckets, ∃ now, w.recomputedAt = some now ∧
    now - opts.windowMs ≤ b.start ∧ b.start ≤ now
  few : (w.model.buckets.length : Int) ≤ ⌊opts.windowMs / opts.bucketMs⌋ + 1
  accepted : ∀ doc, w.file = some doc → size doc ≤ 4 * 1024 * 1024 →
    ((StaticBackground.load opts size (some doc)).buckets.map fun b =>
      (b.start, (b.samples : ℚ), b.rel)) = doc.buckets.map fun b => (b.start, b.samples, b.rel)
  distinct : w.closed.Pairwise fun a b => a.start < b.start
  learned : ∀ rel, w.model.rel = some rel → ∀ i < gridSize, ∀ x, KeepsBelow round x →
    ⌊opts.quantile * ((w.model.buckets.length : ℚ) - 1)⌋ + 2 ≤
      (w.model.buckets.countP fun b => Votes w.closed i x b : Int) → rel.getD i 0 ≤ x

end TMEdge.Detect
