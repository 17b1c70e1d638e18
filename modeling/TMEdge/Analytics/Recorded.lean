import TMEdge.Analytics.CounterLog

/-!
# What was added

`recorded` is the bucket that the calls of `add` alone make; nothing of it is ever evicted or read
back. Buckets are compared by what is found under each name (`Same`).

* `sum_recorded`: the names together have the amounts that were added, with overflow and without.
* `get_recorded`: a bucket that has not overflowed has the amounts of each name.
-/

namespace TMEdge.Analytics

open Library List JsMap

/-! ## Buckets -/

/-- The same amounts under the same names. -/
def Same (m m' : Counts) : Prop := ∀ k, m.get k = m'.get k

variable {m m' : Counts} {key : Text}

theorem Same.symm (h : Same m m') : Same m' m := fun k => (h k).symm

theorem Same.trans {m'' : Counts} (h : Same m m') (h' : Same m' m'') : Same m m'' :=
  fun k => (h k).trans (h' k)

theorem Same.size (h : Same m m') : m.size = m'.size := size_congr h

theorem same_fromEntries (m : Counts) : Same (fromEntries m) m := get_fromEntries m

/-- The name that an amount goes to. -/
def nameFor (m : Counts) (key : Text) : Text :=
  if m.has key ∨ m.size < maxKeysPerBucket - 1 then key else overflowKey

theorem get_count (m : Counts) (key k : Text) (amount : ℚ) :
    (CounterTier.count m key amount).get k =
      if k = nameFor m key then some ((m.get k).getD 0 + amount) else m.get k := by
  change (m.set (nameFor m key) _).get k = _
  rw [get_set]
  split
  · rename_i hName
    rw [hName]
    rfl
  · rfl

theorem Same.count (h : Same m m') (key : Text) (amount : ℚ) :
    Same (CounterTier.count m key amount) (CounterTier.count m' key amount) := by
  intro k
  have hName : nameFor m key = nameFor m' key := by
    rw [nameFor, nameFor, h.size, JsMap.has, JsMap.has, h key]
  rw [get_count, get_count, hName, h k]

theorem eq_empty_of_size (h : ¬ 0 < m.size) : Same m .empty := by
  have hNil : m.entries = [] := eq_nil_of_length_eq_zero (Nat.eq_zero_of_not_pos h)
  have hEq : m = .empty := JsMap.ext hNil
  rw [hEq]
  exact fun _ => rfl

theorem size_pos {m : Counts} {k : Text} (h : (m.get k).isSome) : 0 < m.size := by
  by_contra hNot
  rw [eq_empty_of_size hNot k] at h
  exact absurd h (by simp)

theorem size_count_new (amount : ℚ) (h : m.get (nameFor m key) = none) :
    (CounterTier.count m key amount).size = m.size + 1 := size_set_new h _

theorem size_count_old {v : ℚ} (amount : ℚ) (h : m.get (nameFor m key) = some v) :
    (CounterTier.count m key amount).size = m.size :=
  size_set_of_get h

theorem size_count_pos (key : Text) (amount : ℚ) : 0 < (CounterTier.count m key amount).size := by
  rcases hGet : m.get (nameFor m key) with - | v
  · rw [size_count_new amount hGet]
    exact Nat.succ_pos _
  · refine @size_pos _ (nameFor m key) ?_
    rw [get_count, if_pos rfl]
    rfl

/-- A new name for which there is no room is the overflow name. -/
theorem nameFor_new (h : m.get (nameFor m key) = none) (hRoom : ¬ m.size < maxKeysPerBucket - 1) :
    nameFor m key = overflowKey := by
  unfold nameFor at h ⊢
  split
  · rename_i hOr
    rw [if_pos hOr] at h
    rw [JsMap.has, h] at hOr
    exact absurd (hOr.resolve_left (by simp)) hRoom
  · rfl

/-- What `add` makes: no more names than there may be, and amounts that are not zero. -/
structure Counted (m : Counts) : Prop where
  size : m.size < maxKeysPerBucket ∨ m.size = maxKeysPerBucket ∧ m.has overflowKey
  positive : ∀ k v, m.get k = some v → 0 < v

theorem counted_empty : Counted .empty := ⟨.inl (by decide), nofun⟩

theorem Same.counted (h : Same m m') (hCounted : Counted m) : Counted m' where
  size := by
    rw [← h.size, JsMap.has, ← h overflowKey]
    exact hCounted.size
  positive k v hGet := hCounted.positive k v ((h k).trans hGet)

theorem Counted.count (h : Counted m) (key : Text) {amount : ℚ} (hAmount : 0 < amount) :
    Counted (CounterTier.count m key amount) := by
  constructor
  · have hMax : maxKeysPerBucket = 512 := rfl
    have hHas : nameFor m key = overflowKey → (CounterTier.count m key amount).has overflowKey := by
      intro hName
      rw [JsMap.has, get_count, if_pos hName.symm]
      rfl
    rcases hGet : m.get (nameFor m key) with - | v
    · have hSize := size_count_new amount hGet
      by_cases hRoom : m.size < maxKeysPerBucket - 1
      · exact .inl (by omega)
      · have hName := nameFor_new hGet hRoom
        rcases h.size with hLt | ⟨-, hOver⟩
        · exact .inr ⟨by omega, hHas hName⟩
        · rw [JsMap.has, ← hName, hGet] at hOver
          exact absurd hOver (by simp)
    · rw [size_count_old amount hGet]
      refine h.size.imp_right fun hFull => ⟨hFull.1, ?_⟩
      rw [JsMap.has, get_count]
      split
      · rfl
      · exact hFull.2
  · intro k v hGet
    rw [get_count] at hGet
    split at hGet
    · cases hGet
      rcases hOld : m.get k with - | w
      · simpa using hAmount
      · simpa using add_pos (h.positive k w hOld) hAmount
    · exact h.positive k v hGet

/-- A bucket is read back as it was written. -/
theorem setCounts_eq (h : Counted m) : CounterTier.setCounts m = m := by
  have hAll : ∀ (es : List (Text × ℚ)) (acc : Counts), acc.size + es.length ≤ maxKeysPerBucket →
      (∀ e ∈ es, 0 < e.2) → es.foldl (fun bucket e =>
        if 0 < e.2 ∧ bucket.size < maxKeysPerBucket then bucket.set e.1 e.2 else bucket) acc =
          es.foldl (fun bucket e => bucket.set e.1 e.2) acc := by
    intro es
    induction es with
    | nil => exact fun _ _ _ => rfl
    | cons e es ih =>
      intro acc hRoom hPositive
      rw [length_cons] at hRoom
      have hSize := acc.size_set_le e.1 e.2
      rw [foldl_cons, foldl_cons, if_pos ⟨hPositive e (by simp), by omega⟩]
      exact ih _ (by omega) fun e he => hPositive e (by simp [he])
  refine (hAll m.entries .empty ?_ fun e he => ?_).trans (foldl_set_entries m)
  · have hSize : m.entries.length = m.size := rfl
    rcases h.size with hLt | ⟨hEq, -⟩
    · rw [show (JsMap.empty : Counts).size = 0 from rfl]
      omega
    · rw [show (JsMap.empty : Counts).size = 0 from rfl]
      omega
  · exact h.positive e.1 e.2 (get_eq_some_iff.mpr he)

/-! ## The calls -/

/-- An amount that `add` takes. -/
structure Added where
  time : Int
  key : Text
  amount : ℚ

variable {spec : CounterSpec} {adds : List Added} {b : Int} {key : Text}

def countIn (spec : CounterSpec) (b : Int) (m : Counts) (a : Added) : Counts :=
  if spec.startOf a.time = b then CounterTier.count m a.key a.amount else m

/-- The bucket that the calls make. -/
def recorded (spec : CounterSpec) (adds : List Added) (b : Int) : Counts :=
  adds.foldl (countIn spec b) .empty

theorem recorded_concat (spec : CounterSpec) (adds : List Added) (a : Added) (b : Int) :
    recorded spec (adds ++ [a]) b = countIn spec b (recorded spec adds b) a := by
  rw [recorded, foldl_append]
  rfl

theorem counted_recorded (hPositive : ∀ a ∈ adds, 0 < a.amount) : Counted (recorded spec adds b) := by
  induction adds using List.reverseRecOn with
  | nil => exact counted_empty
  | append_singleton adds a ih =>
    rw [recorded_concat, countIn]
    have hOld := ih fun a ha => hPositive a (by simp [ha])
    split
    · exact hOld.count a.key (hPositive a (by simp))
    · exact hOld

/-- A bucket has entries only if something was added to it. -/
theorem exists_of_recorded (h : 0 < (recorded spec adds b).size) :
    ∃ a ∈ adds, spec.startOf a.time = b := by
  induction adds using List.reverseRecOn with
  | nil => exact absurd h (lt_irrefl 0)
  | append_singleton adds a ih =>
    rw [recorded_concat, countIn] at h
    by_cases hStart : spec.startOf a.time = b
    · exact ⟨a, by simp, hStart⟩
    · rw [if_neg hStart] at h
      obtain ⟨a', ha', hStart'⟩ := ih h
      exact ⟨a', by simp [ha'], hStart'⟩

/-! ## Totals -/

/-- The amount under a name. -/
def amountOf (m : Counts) (k : Text) : ℚ := (m.get k).getD 0

theorem amountOf_count (m : Counts) (key k : Text) (amount : ℚ) :
    amountOf (CounterTier.count m key amount) k =
      amountOf m k + if k = nameFor m key then amount else 0 := by
  rw [amountOf, amountOf, get_count]
  split
  · rfl
  · rw [add_zero]

theorem nameFor_mem {names : Finset Text} (hKey : key ∈ names) (hOver : overflowKey ∈ names) :
    nameFor m key ∈ names := by
  unfold nameFor
  split
  · exact hKey
  · exact hOver

/-- The calls of the buckets of a range. -/
def inRange (spec : CounterSpec) (since before : Int) (a : Added) : Prop :=
  since ≤ spec.startOf a.time ∧ spec.startOf a.time < before

instance (spec : CounterSpec) (since before : Int) : DecidablePred (inRange spec since before) :=
  fun _ => inferInstanceAs (Decidable (_ ∧ _))

def totalOf (adds : List Added) : ℚ := (adds.map Added.amount).sum

theorem totalOf_concat (adds : List Added) (a : Added) :
    totalOf (adds ++ [a]) = totalOf adds + a.amount := by
  rw [totalOf, map_append, sum_append, map_singleton, sum_singleton]
  rfl

/-- All names together have what was added, whether names overflow or not. -/
theorem sum_recorded {names : Finset Text} (hNames : ∀ a ∈ adds, a.key ∈ names)
    (hOver : overflowKey ∈ names) : ∑ k ∈ names, amountOf (recorded spec adds b) k =
      totalOf (adds.filter fun a => spec.startOf a.time = b) := by
  induction adds using List.reverseRecOn with
  | nil => exact Finset.sum_eq_zero fun _ _ => rfl
  | append_singleton adds a ih =>
    have hOld := ih fun a ha => hNames a (by simp [ha])
    rw [recorded_concat, countIn, filter_append]
    by_cases hStart : spec.startOf a.time = b
    · rw [if_pos hStart, filter_cons_of_pos (by simpa using hStart), filter_nil,
        totalOf_concat, ← hOld]
      simp only [amountOf_count]
      rw [Finset.sum_add_distrib, Finset.sum_ite_eq',
        if_pos (nameFor_mem (hNames a (by simp)) hOver)]
    · rw [if_neg hStart, filter_cons_of_neg (by simpa using hStart), filter_nil,
        append_nil, hOld]

/-- A bucket gets no more names than it has room for beside the overflow name. -/
def NoOverflow (spec : CounterSpec) (adds : List Added) (b : Int) : Prop :=
  ((adds.filter fun a => spec.startOf a.time = b).map Added.key).toFinset.card < maxKeysPerBucket

theorem NoOverflow.init {a : Added} (h : NoOverflow spec (adds ++ [a]) b) :
    NoOverflow spec adds b := by
  refine lt_of_le_of_lt (Finset.card_le_card fun k hk => ?_) h
  rw [mem_toFinset] at hk ⊢
  rw [filter_append, map_append]
  exact mem_append_left _ hk

/-- A name that is new, or for which there is room, is kept. -/
theorem nameFor_eq {names : Finset Text} (hKeys : ∀ k, (m.get k).isSome → k ∈ names)
    (hKey : key ∈ names) (hCard : names.card < maxKeysPerBucket) : nameFor m key = key := by
  by_cases hHas : m.has key = true
  · exact if_pos (.inl hHas)
  · refine if_pos (.inr ?_)
    have hLess : m.size < names.card := by
      have hNot : key ∉ m.keys.toFinset := by
        rwa [mem_toFinset, ← has_iff_mem_keys]
      have hSub : insert key m.keys.toFinset ⊆ names := by
        refine Finset.insert_subset hKey fun k hk => hKeys k ?_
        rwa [mem_toFinset, ← has_iff_mem_keys] at hk
      have hCard := Finset.card_le_card hSub
      have hNodup : m.keys.Nodup := m.nodup
      rw [Finset.card_insert_of_notMem hNot, toFinset_card_of_nodup hNodup,
        m.length_keys] at hCard
      exact hCard
    omega

theorem get_recorded (h : NoOverflow spec adds b) : (∀ k, ((recorded spec adds b).get k).isSome →
      k ∈ ((adds.filter fun a => spec.startOf a.time = b).map Added.key).toFinset) ∧
    ∀ k, amountOf (recorded spec adds b) k =
      totalOf (adds.filter fun a => spec.startOf a.time = b ∧ a.key = k) := by
  induction adds using List.reverseRecOn with
  | nil => exact ⟨fun k hk => absurd hk (by simp [recorded]), fun k => rfl⟩
  | append_singleton adds a ih =>
    obtain ⟨hKeys, hAmount⟩ := ih h.init
    rw [recorded_concat, countIn]
    by_cases hStart : spec.startOf a.time = b
    · have hFilter : (adds ++ [a]).filter (fun a => spec.startOf a.time = b) =
          adds.filter (fun a => spec.startOf a.time = b) ++ [a] := by
        rw [filter_append, filter_cons_of_pos (by simpa using hStart), filter_nil]
      have hMem : ∀ k, ((recorded spec adds b).get k).isSome → k ∈
          (((adds ++ [a]).filter fun a => spec.startOf a.time = b).map Added.key).toFinset := by
        intro k hk
        rw [hFilter, map_append, toFinset_append]
        exact Finset.mem_union_left _ (hKeys k hk)
      have hKey : a.key ∈
          (((adds ++ [a]).filter fun a => spec.startOf a.time = b).map Added.key).toFinset := by
        rw [hFilter]
        simp
      have hName := nameFor_eq hMem hKey h
      rw [if_pos hStart]
      constructor
      · intro k hk
        rw [get_count, hName] at hk
        split at hk
        · rename_i hEq
          exact hEq ▸ hKey
        · exact hMem k hk
      · intro k
        rw [amountOf_count, hName, hAmount, filter_append]
        by_cases hk : k = a.key
        · rw [if_pos hk, filter_cons_of_pos (by simp [hStart, hk]), filter_nil,
            totalOf_concat]
        · rw [if_neg hk, filter_cons_of_neg (by simp [Ne.symm hk]), filter_nil,
            append_nil, add_zero]
    · rw [if_neg hStart]
      constructor
      · rw [filter_append, filter_cons_of_neg (by simpa using hStart), filter_nil,
          append_nil]
        exact hKeys
      · intro k
        rw [hAmount, filter_append, filter_cons_of_neg (by simp [hStart]),
          filter_nil, append_nil]

/-! ## Sums of a tier -/

namespace CounterTier

def bucketAt (tier : CounterTier) (b : Int) : Counts := (tier.buckets.get b).getD .empty

/-- A range, bucket by bucket; buckets that are not there count for nothing. -/
theorem sum_eq (tier : CounterTier) (since before : Int) (key : Text) (starts : Finset Int)
    (hStarts : ∀ b ∈ tier.buckets.keys, b ∈ starts) : tier.sum since before key =
      ∑ b ∈ starts with since ≤ b ∧ b < before, amountOf (tier.bucketAt b) key := by
  have hFold : ∀ (es : List (Int × Counts)) (total : ℚ), es.foldl (fun total e =>
      if since ≤ e.1 ∧ e.1 < before then total + (e.2.get key).getD 0 else total) total =
        total + (es.map fun e =>
          if since ≤ e.1 ∧ e.1 < before then amountOf e.2 key else 0).sum := by
    intro es
    induction es with
    | nil => exact fun total => (add_zero total).symm
    | cons e es ih =>
      intro total
      rw [foldl_cons, ih, map_cons, sum_cons]
      split
      · exact add_assoc total _ _
      · rw [zero_add]
  have hKeys : (tier.buckets.entries.map fun e =>
      if since ≤ e.1 ∧ e.1 < before then amountOf e.2 key else 0).sum =
        ∑ b ∈ tier.buckets.keys.toFinset,
          if since ≤ b ∧ b < before then amountOf (tier.bucketAt b) key else 0 := by
    have hNodup : tier.buckets.keys.Nodup := tier.buckets.nodup
    rw [sum_toFinset _ hNodup, JsMap.keys, map_map]
    refine congrArg List.sum (map_congr_left fun e he => ?_)
    rw [Function.comp_apply, bucketAt, get_eq_some_iff.mpr he]
    rfl
  rw [sum, hFold, hKeys, zero_add, Finset.sum_filter]
  refine Finset.sum_subset (fun b hb => hStarts b (mem_toFinset.mp hb)) fun b _ hb => ?_
  have hNone : tier.buckets.get b = none := by
    rcases hGet : tier.buckets.get b with - | v
    · rfl
    · exact absurd (mem_toFinset.mpr (mem_keys_of_get hGet)) hb
  rw [bucketAt, hNone]
  split <;> rfl

/-- The range of one bucket. -/
theorem sum_single (tier : CounterTier) (b : Int) (key : Text) :
    tier.sum b (b + 1) key = amountOf (tier.bucketAt b) key := by
  rw [tier.sum_eq b (b + 1) key (insert b tier.buckets.keys.toFinset)
    (by simp +contextual)]
  have hFilter : (insert b tier.buckets.keys.toFinset).filter (fun b' => b ≤ b' ∧ b' < b + 1) =
      {b} := by
    ext b'
    rw [Finset.mem_filter, Finset.mem_singleton]
    constructor
    · rintro ⟨-, hLe, hLt⟩
      omega
    · rintro rfl
      exact ⟨Finset.mem_insert_self _ _, le_refl _, by omega⟩
  rw [hFilter, Finset.sum_singleton]

/-- Tiers with the same buckets from `since` on have the same sums from there. -/
theorem sum_congr {tier tier' : CounterTier} {since : Int}
    (h : ∀ b, since ≤ b → Same (tier.bucketAt b) (tier'.bucketAt b)) (before : Int) (key : Text) :
    tier.sum since before key = tier'.sum since before key := by
  rw [tier.sum_eq since before key (tier.buckets.keys.toFinset ∪ tier'.buckets.keys.toFinset)
      (by simp +contextual),
    tier'.sum_eq since before key (tier.buckets.keys.toFinset ∪ tier'.buckets.keys.toFinset)
      (by simp +contextual)]
  refine Finset.sum_congr rfl fun b hb => ?_
  rw [amountOf, amountOf, h b (Finset.mem_filter.mp hb).2.1 key]

end CounterTier

/-! ## Totals of a range -/

/-- The calls of a range, bucket by bucket. -/
theorem sum_totalOf (adds : List Added) {starts : Finset Int}
    (hStarts : ∀ a ∈ adds, spec.startOf a.time ∈ starts) (since before : Int) :
    ∑ b ∈ starts with since ≤ b ∧ b < before,
        totalOf (adds.filter fun a => spec.startOf a.time = b) =
      totalOf (adds.filter fun a => inRange spec since before a) := by
  induction adds with
  | nil => exact Finset.sum_eq_zero fun _ _ => rfl
  | cons a adds ih =>
    have hTail := ih fun a ha => hStarts a (mem_cons_of_mem _ ha)
    have hHead : ∀ b, totalOf ((a :: adds).filter fun a => spec.startOf a.time = b) =
        (if spec.startOf a.time = b then a.amount else 0) +
          totalOf (adds.filter fun a => spec.startOf a.time = b) := by
      intro b
      rw [filter_cons]
      by_cases hStart : spec.startOf a.time = b
      · simp [hStart, totalOf]
      · simp [hStart]
    simp only [hHead, Finset.sum_add_distrib, hTail, Finset.sum_ite_eq, Finset.mem_filter,
      hStarts a mem_cons_self, true_and]
    by_cases hIn : inRange spec since before a
    · rw [filter_cons_of_pos (by simpa using hIn)]
      exact congrArg (· + _) (if_pos hIn)
    · rw [filter_cons_of_neg (by simpa using hIn)]
      exact (congrArg (· + _) (if_neg hIn)).trans (zero_add _)

variable {tier : CounterTier} {since : Int}

/-- The buckets from `since` on have what was added to them. -/
def Retains (spec : CounterSpec) (adds : List Added) (tier : CounterTier) (since : Int) : Prop :=
  ∀ b, since ≤ b → Same (tier.bucketAt b) (recorded spec adds b)

theorem Retains.sum (h : Retains spec adds tier since) (before : Int) (k : Text) :
    tier.sum since before k = ∑ b ∈ tier.buckets.keys.toFinset ∪
      (adds.map fun a => spec.startOf a.time).toFinset with since ≤ b ∧ b < before,
        amountOf (recorded spec adds b) k := by
  rw [tier.sum_eq since before k (tier.buckets.keys.toFinset ∪
    (adds.map fun a => spec.startOf a.time).toFinset) (by simp +contextual)]
  refine Finset.sum_congr rfl fun b hb => ?_
  rw [amountOf, amountOf, h b (Finset.mem_filter.mp hb).2.1 k]

theorem Retains.total (h : Retains spec adds tier since) (before : Int) {names : Finset Text}
    (hNames : ∀ a ∈ adds, a.key ∈ names) (hOver : overflowKey ∈ names) :
    ∑ k ∈ names, tier.sum since before k =
      totalOf (adds.filter fun a => inRange spec since before a) := by
  rw [Finset.sum_congr rfl fun k _ => h.sum before k, Finset.sum_comm,
    Finset.sum_congr rfl fun b _ => sum_recorded hNames hOver]
  exact sum_totalOf adds (fun a ha => Finset.mem_union_right _
    (mem_toFinset.mpr (mem_map.mpr ⟨a, ha, rfl⟩))) since before

theorem Retains.each (h : Retains spec adds tier since) {before : Int}
    (hRoom : ∀ b, since ≤ b → b < before → NoOverflow spec adds b) (k : Text) :
    tier.sum since before k =
      totalOf (adds.filter fun a => inRange spec since before a ∧ a.key = k) := by
  have hBuckets : ∀ b, (adds.filter fun a => spec.startOf a.time = b ∧ a.key = k) =
      (adds.filter fun a => a.key = k).filter fun a => spec.startOf a.time = b := by
    intro b
    rw [filter_filter]
    simp only [Bool.decide_and]
  have hRange : (adds.filter fun a => inRange spec since before a ∧ a.key = k) =
      (adds.filter fun a => a.key = k).filter fun a => inRange spec since before a := by
    rw [filter_filter]
    simp only [Bool.decide_and]
  rw [h.sum, hRange, ← sum_totalOf]
  · refine Finset.sum_congr rfl fun b hb => ?_
    obtain ⟨-, hSince, hBefore⟩ := Finset.mem_filter.mp hb
    rw [(get_recorded (hRoom b hSince hBefore)).2 k, hBuckets]
  · exact fun a ha => Finset.mem_union_right _
      (mem_toFinset.mpr (mem_map.mpr ⟨a, (mem_filter.mp ha).1, rfl⟩))

end TMEdge.Analytics
