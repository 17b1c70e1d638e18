import TMEdge.Occupancy.Engine

/-!
# One person, one blob

`mergeClose` joins the blobs of a frame with a union-find, and makes one blob of each class.

* `mergeBlobs_clusters`: the classes are the connected components of the blobs that are fragments of
  one another, in whatever order the blobs come, and what becomes of them.
-/

namespace TMEdge.Occupancy

open Library List

/-! ## Classes of blobs -/

section classes

variable {near : Point → Point → Bool} {blobs : List Blob} {group : List Nat}
  {R : Nat → Nat → Prop} {n : Nat}

/-- The blobs at two places are fragments of one person. -/
def Linked (near : Point → Point → Bool) (blobs : List Blob) (i j : Nat) : Prop :=
  ∃ a b, blobs[i]? = some a ∧ blobs[j]? = some b ∧ fragments near a b = true

theorem mem_loopPairs {i j : Nat} : (i, j) ∈ loopPairs n ↔ i < j ∧ j < n := by
  simp only [loopPairs, mem_flatMap, mem_map, mem_filter, mem_range,
    decide_eq_true_eq, Prod.mk.injEq]
  constructor
  · rintro ⟨i, -, j, ⟨hj, hij⟩, rfl, rfl⟩
    exact ⟨hij, hj⟩
  · rintro ⟨hij, hj⟩
    exact ⟨i, hij.trans hj, j, ⟨hj, hij⟩, rfl, rfl⟩

theorem fragments_symm (hSymm : ∀ p q, near p q = near q p) (a b : Blob) :
    fragments near a b = fragments near b a := by
  unfold fragments
  rw [hSymm, min_comm, max_comm]

/-- A blob is no fragment of itself. -/
theorem fragments_self (a : Blob) : fragments near a a = false := by
  unfold fragments
  dsimp only
  rw [min_self, max_self]
  by_cases hPos : 0 < a.norm
  · rw [div_self hPos.ne']
    simp [fragmentRatio]
    norm_num
  · simp [hPos]

theorem joined_congr {R' : Nat → Nat → Prop} (h : UnionFind.Joined n R group)
    (hRel : ∀ x y, R x y ↔ R' x y) : UnionFind.Joined n R' group := by
  obtain rfl : R = R' := funext fun x => funext fun y => propext (hRel x y)
  exact h

/-- The two loops join what is linked. -/
theorem exists_joined (l : List (Nat × Nat)) (hl : ∀ p ∈ l, p.1 < blobs.length ∧ p.2 < blobs.length)
    (h : UnionFind.Joined blobs.length R group) :
    ∃ group', l.foldlM (joinGroups near blobs) group = some group' ∧
      UnionFind.Joined blobs.length
        (fun x y => R x y ∨ (x, y) ∈ l ∧ Linked near blobs x y) group' := by
  induction l generalizing R group with
  | nil => exact ⟨group, rfl, joined_congr h fun x y => by simp⟩
  | cons p l ih =>
    obtain ⟨i, j⟩ := p
    obtain ⟨hi, hj⟩ := hl (i, j) mem_cons_self
    have hRest := fun q hq => hl q (mem_cons_of_mem _ hq)
    have hBlobs : blobs[i]? = some blobs[i] ∧ blobs[j]? = some blobs[j] :=
      ⟨getElem?_eq_getElem hi, getElem?_eq_getElem hj⟩
    have hLinked : Linked near blobs i j ↔ fragments near blobs[i] blobs[j] = true := by
      constructor
      · rintro ⟨a, b, ha, hb, hFragments⟩
        obtain rfl := Option.some.inj (hBlobs.1.symm.trans ha)
        obtain rfl := Option.some.inj (hBlobs.2.symm.trans hb)
        exact hFragments
      · exact fun hFragments => ⟨_, _, hBlobs.1, hBlobs.2, hFragments⟩
    rw [foldlM_cons]
    simp only [joinGroups, hBlobs.1, hBlobs.2]
    by_cases hFragments : fragments near blobs[i] blobs[j] = true
    · obtain ⟨group₁, hLink, h₁⟩ := h.link hi hj
      obtain ⟨group', hFold, h'⟩ := ih hRest h₁
      refine ⟨group', ?_, joined_congr h' fun x y => ?_⟩
      · rw [if_pos hFragments, hLink]
        exact hFold
      · rw [mem_cons, Prod.mk.injEq]
        constructor
        · rintro ((hR | ⟨rfl, rfl⟩) | ⟨hMem, hLinks⟩)
          · exact .inl hR
          · exact .inr ⟨.inl ⟨rfl, rfl⟩, hLinked.mpr hFragments⟩
          · exact .inr ⟨.inr hMem, hLinks⟩
        · rintro (hR | ⟨⟨rfl, rfl⟩ | hMem, hLinks⟩)
          · exact .inl (.inl hR)
          · exact .inl (.inr ⟨rfl, rfl⟩)
          · exact .inr ⟨hMem, hLinks⟩
    · obtain ⟨group', hFold, h'⟩ := ih hRest h
      refine ⟨group', ?_, joined_congr h' fun x y => ?_⟩
      · rw [if_neg hFragments]
        exact hFold
      · rw [mem_cons, Prod.mk.injEq]
        constructor
        · rintro (hR | ⟨hMem, hLinks⟩)
          · exact .inl hR
          · exact .inr ⟨.inr hMem, hLinks⟩
        · rintro (hR | ⟨⟨rfl, rfl⟩ | hMem, hLinks⟩)
          · exact .inl hR
          · exact absurd (hLinked.mp hLinks) hFragments
          · exact .inr ⟨hMem, hLinks⟩

/-- After the two loops the classes are the connected components. -/
theorem exists_classes (hSymm : ∀ p q, near p q = near q p) (blobs : List Blob) :
    ∃ group, (loopPairs blobs.length).foldlM (joinGroups near blobs) (List.range blobs.length) =
        some group ∧
      UnionFind.Joined blobs.length (Linked near blobs) group := by
  obtain ⟨group, hFold, h⟩ := @exists_joined near blobs _ _ (loopPairs blobs.length)
    (fun p hp => by
      obtain ⟨hij, hj⟩ := mem_loopPairs.mp hp
      exact ⟨hij.trans hj, hj⟩) (UnionFind.joined_range blobs.length)
  refine ⟨group, hFold, h.length, h.forest, fun x y => ?_⟩
  rw [h.same]
  have hBack : ∀ {x y}, Linked near blobs x y → Linked near blobs y x := by
    rintro x y ⟨a, b, ha, hb, hFragments⟩
    exact ⟨b, a, hb, ha, by rw [fragments_symm hSymm, hFragments]⟩
  constructor
  · refine UnionFind.eqvGen_le (fun x y hxy => ?_) .refl (fun _ _ => .symm _ _)
      (fun _ _ _ => .trans _ _ _)
    rcases hxy with hFalse | ⟨-, hLinks⟩
    · exact hFalse.elim
    · exact .rel _ _ hLinks
  · refine UnionFind.eqvGen_le (fun x y hLinks => ?_) .refl (fun _ _ => .symm _ _)
      (fun _ _ _ => .trans _ _ _)
    have hLinks' := hLinks
    obtain ⟨a, b, ha, hb, hFragments⟩ := hLinks'
    have hx := (List.getElem?_eq_some_iff.mp ha).1
    have hy := (List.getElem?_eq_some_iff.mp hb).1
    -- the loops come to each pair in one of its two orders
    rcases lt_trichotomy x y with hLess | rfl | hMore
    · exact .rel _ _ (.inr ⟨mem_loopPairs.mpr ⟨hLess, hy⟩, hLinks⟩)
    · obtain rfl := Option.some.inj (ha.symm.trans hb)
      rw [fragments_self] at hFragments
      cases hFragments
    · exact .symm _ _ (.rel _ _ (.inr ⟨mem_loopPairs.mpr ⟨hMore, hx⟩, hBack hLinks⟩))

end classes

/-! ## Classes as lists -/

section lists

variable {near : Point → Point → Bool} {blobs : List Blob} {group : List Nat} {ρ : Nat → Nat}
  {m n : Nat} {acc : List Nat × JsMap Nat (List Blob)}

/-- The blobs at some places. -/
def blobsAt (blobs : List Blob) (places : List Nat) : List Blob := places.filterMap (blobs[·]?)

/-- The blobs at some places as one. -/
def clusterAt (blobs : List Blob) (places : List Nat) : Option Blob :=
  mergeAll (blobsAt blobs places)

/-- The places before `m` that have one root. -/
def classOf (ρ : Nat → Nat) (m r : Nat) : List Nat := (List.range m).filter fun i => ρ i = r

theorem mem_classOf {r i : Nat} : i ∈ classOf ρ m r ↔ i < m ∧ ρ i = r := by
  simp [classOf]

theorem classOf_succ (ρ : Nat → Nat) (m r : Nat) :
    classOf ρ (m + 1) r = classOf ρ m r ++ if ρ m = r then [m] else [] := by
  unfold classOf
  rw [range_succ, filter_append]
  congr 1
  by_cases h : ρ m = r
  · simp [h]
  · simp [h]

/-- `byRoot` after the blobs before `m`. -/
structure ByRoot (blobs : List Blob) (group : List Nat) (ρ : Nat → Nat) (m : Nat)
    (acc : List Nat × JsMap Nat (List Blob)) : Prop where
  compresses : UnionFind.Compresses group acc.1
  get : ∀ r, acc.2.get r =
    if classOf ρ m r = [] then none else some (blobsAt blobs (classOf ρ m r))

theorem ByRoot.getD (h : ByRoot blobs group ρ m acc) (r : Nat) :
    (acc.2.get r).getD [] = blobsAt blobs (classOf ρ m r) := by
  rw [h.get]
  split
  next hNone =>
    rw [hNone]
    rfl
  next => rfl

theorem ByRoot.add {b : Blob} (h : ByRoot blobs group ρ m acc) (hn : group.length = n)
    (hRoots : ∀ i < n, ∃ k, UnionFind.Leads group k i (ρ i)) (hm : m < n)
    (hb : blobs[m]? = some b) :
    ∃ acc', addToRoot n acc (b, m) = some acc' ∧ ByRoot blobs group ρ (m + 1) acc' := by
  obtain ⟨k, hLeads⟩ := hRoots m hm
  obtain ⟨k₁, -, h₁⟩ := h.compresses.leads _ _ _ hLeads
  have hLength := h.compresses.length.trans hn
  obtain ⟨group₁, hFind₁, hCompresses₁⟩ := UnionFind.find_eq h₁ (hLength ▸ h₁.lt_length)
  obtain ⟨k₂, -, h₂⟩ := hCompresses₁.leads _ _ _ h₁
  have hLength₁ := hCompresses₁.length.trans hLength
  obtain ⟨group₂, hFind₂, hCompresses₂⟩ := UnionFind.find_eq h₂ (hLength₁ ▸ h₂.lt_length)
  refine ⟨(group₂, acc.2.set (ρ m) ((acc.2.get (ρ m)).getD [] ++ [b])), ?_,
    (h.compresses.trans hCompresses₁).trans hCompresses₂, fun r => ?_⟩
  · simp [addToRoot, root, hFind₁, hFind₂]
  · dsimp only
    rw [JsMap.get_set, classOf_succ, h.getD]
    by_cases hr : r = ρ m
    · subst hr
      simp [blobsAt, hb]
    · rw [if_neg hr, if_neg (Ne.symm hr), append_nil]
      exact h.get r

theorem ByRoot.addAll (l : List Blob) (h : ByRoot blobs group ρ m acc) (hn : group.length = n)
    (hRoots : ∀ i < n, ∃ k, UnionFind.Leads group k i (ρ i)) (hl : m + l.length ≤ n)
    (hBlobs : ∀ i < l.length, blobs[m + i]? = l[i]?) :
    ∃ acc', (l.zipIdx m).foldlM (addToRoot n) acc = some acc' ∧
      ByRoot blobs group ρ (m + l.length) acc' := by
  induction l generalizing m acc with
  | nil => exact ⟨acc, rfl, h⟩
  | cons b l ih =>
    rw [length_cons] at hl
    have hFirst : blobs[m]? = some b := by simpa using hBlobs 0 (by simp)
    obtain ⟨acc₁, hAdd, h₁⟩ := h.add hn hRoots (by omega) hFirst
    obtain ⟨acc', hFold, h'⟩ := ih h₁ (by omega) fun i hi => by
      have hNext := hBlobs (i + 1) (by simpa using hi)
      rw [getElem?_cons_succ] at hNext
      rw [← hNext]
      congr 1
      omega
    refine ⟨acc', ?_, ?_⟩
    · rw [zipIdx_cons, foldlM_cons, hAdd]
      exact hFold
    · rw [length_cons, show m + (l.length + 1) = m + 1 + l.length by omega]
      exact h'

/-- The connected components of the blobs, as lists of places. -/
structure Components (near : Point → Point → Bool) (blobs : List Blob)
    (groups : List (List Nat)) : Prop where
  places : groups.flatten.Perm (List.range blobs.length)
  nonempty : [] ∉ groups
  connected : ∀ i < blobs.length, ∀ j < blobs.length,
    (∃ g ∈ groups, i ∈ g ∧ j ∈ g) ↔ Relation.EqvGen (Linked near blobs) i j

theorem components_classes (keys : List Nat) (hKeys : keys.Nodup)
    (hClasses : ∀ r, r ∈ keys ↔ classOf ρ blobs.length r ≠ [])
    (hSame : ∀ i < blobs.length, ∀ j < blobs.length,
      ρ i = ρ j ↔ Relation.EqvGen (Linked near blobs) i j) :
    Components near blobs (keys.map (classOf ρ blobs.length)) := by
  have hOwn : ∀ i < blobs.length, ρ i ∈ keys := fun i hi =>
    (hClasses _).mpr (ne_nil_of_mem (mem_classOf.mpr ⟨hi, rfl⟩))
  refine ⟨?_, ?_, fun i hi j hj => ?_⟩
  · rw [perm_ext_iff_of_nodup _ nodup_range]
    · intro i
      simp only [mem_flatten, mem_map, exists_exists_and_eq_and, mem_classOf,
        mem_range]
      constructor
      · rintro ⟨r, -, hi, -⟩
        exact hi
      · exact fun hi => ⟨ρ i, hOwn i hi, hi, rfl⟩
    · rw [nodup_flatten]
      constructor
      · intro g hg
        obtain ⟨r, -, rfl⟩ := mem_map.mp hg
        exact nodup_range.filter _
      · rw [pairwise_map]
        refine hKeys.imp fun hne i hi hi' => hne ?_
        exact (mem_classOf.mp hi).2.symm.trans (mem_classOf.mp hi').2
  · intro hNil
    obtain ⟨r, hr, hEmpty⟩ := mem_map.mp hNil
    exact (hClasses r).mp hr hEmpty
  · rw [← hSame i hi j hj]
    constructor
    · rintro ⟨g, hg, hi', hj'⟩
      obtain ⟨r, -, rfl⟩ := mem_map.mp hg
      exact (mem_classOf.mp hi').2.trans (mem_classOf.mp hj').2.symm
    · intro hEq
      exact ⟨_, mem_map_of_mem (hOwn i hi), mem_classOf.mpr ⟨hi, rfl⟩,
        mem_classOf.mpr ⟨hj, hEq.symm⟩⟩

/-- `mergeClose` ends, with a blob for each connected component. -/
theorem exists_components (hSymm : ∀ p q, near p q = near q p) (blobs : List Blob) :
    ∃ groups, Components near blobs groups ∧
      mergeBlobs near blobs = some (groups.filterMap (clusterAt blobs)) := by
  obtain ⟨group, hJoin, hJoined⟩ := exists_classes hSymm blobs
  have hLeads : ∀ i, ∃ r, i < blobs.length → ∃ k, UnionFind.Leads group k i r := by
    intro i
    by_cases hi : i < blobs.length
    · obtain ⟨k, r, h⟩ := hJoined.exists_leads hi
      exact ⟨r, fun _ => ⟨k, h⟩⟩
    · exact ⟨0, fun h => absurd h hi⟩
  choose ρ hRoots using hLeads
  have hStart : ByRoot blobs group ρ 0 (group, .empty) := ⟨.refl group, fun r => by simp [classOf]⟩
  obtain ⟨⟨group', byRoot⟩, hFold, h⟩ := hStart.addAll blobs hJoined.length hRoots (by simp)
    (fun i _ => by rw [Nat.zero_add])
  rw [Nat.zero_add] at h
  have hGet := h.get
  dsimp only at hGet
  refine ⟨byRoot.keys.map (classOf ρ blobs.length),
    components_classes byRoot.keys byRoot.nodup (fun r => ?_) (fun i hi j hj => ?_), ?_⟩
  · rw [← JsMap.has_iff_mem_keys, JsMap.has, hGet]
    split
    next hNone => simp [hNone]
    next hSome => simp [hSome]
  · obtain ⟨k, hi'⟩ := hRoots i hi
    obtain ⟨k', hj'⟩ := hRoots j hj
    rw [← UnionFind.same_iff hi' hj', hJoined.same]
  · have hValues : byRoot.values =
        byRoot.keys.map fun r => blobsAt blobs (classOf ρ blobs.length r) := by
      rw [JsMap.values, JsMap.keys, map_map]
      refine map_congr_left fun e he => ?_
      have hEntry := hGet e.1
      rw [JsMap.get_eq_some_iff.mpr he] at hEntry
      split at hEntry
      next => cases hEntry
      next => exact Option.some.inj hEntry
    unfold mergeBlobs
    dsimp only
    rw [hJoin, Option.bind_some, hFold, Option.map_some, hValues]
    rw [filterMap_map, filterMap_map]
    rfl

end lists

/-! ## A cluster as one blob -/

section merged

variable {members : List Blob} {b : Blob}

/-- The heat-weighted mean of the floor positions. -/
def meanFloor (members : Multiset Blob) : Point :=
  ((members.map fun m => m.floor.1 * heatOf m).sum / (members.map heatOf).sum,
    (members.map fun m => m.floor.2 * heatOf m).sum / (members.map heatOf).sum)

/-- What becomes of the members of a cluster. -/
structure Merged (members : Multiset Blob) (b : Blob) : Prop where
  area : b.detection.area = (members.map fun m => m.detection.area).sum
  heat : b.detection.heat = (members.map fun m => m.detection.heat).sum
  norm : b.norm = (members.map Blob.norm).sum
  contrast : IsGreatest {c | ∃ m ∈ members, m.detection.contrast = c} b.detection.contrast
  peak : IsGreatest {c | ∃ m ∈ members, m.detection.peak = c} b.detection.peak
  pixel : ∃ m ∈ members, (∀ m' ∈ members, m'.detection.area ≤ m.detection.area) ∧
    b.detection.x = m.detection.x ∧ b.detection.y = m.detection.y
  floor : b.floor = meanFloor members
  hull : b.floor ∈ convexHull ℚ {p | ∃ m ∈ members, m.floor = p}

theorem heatOf_pos (b : Blob) : 0 < heatOf b :=
  lt_of_lt_of_le (by norm_num) (le_max_right b.norm (1 / 1000000))

/-- A fold that keeps the greater of two values ends with a greatest one. -/
theorem isGreatest_foldl (f : Blob → ℚ) (first : Blob) (rest : List Blob) :
    IsGreatest {c | ∃ m ∈ first :: rest, f m = c}
      (rest.foldl (fun c b => max c (f b)) (f first)) := by
  have hFold : ∀ (c : ℚ) (l : List Blob), let top := l.foldl (fun c b => max c (f b)) c
      c ≤ top ∧ (∀ m ∈ l, f m ≤ top) ∧ (top = c ∨ ∃ m ∈ l, f m = top) := by
    intro c l
    induction l generalizing c with
    | nil => simp
    | cons b l ih =>
      obtain ⟨hStart, hAll, hFound⟩ := ih (max c (f b))
      refine ⟨(le_max_left _ _).trans hStart, fun m hm => ?_, ?_⟩
      · rcases mem_cons.mp hm with rfl | hm
        · exact (le_max_right _ _).trans hStart
        · exact hAll m hm
      · rcases hFound with hSame | ⟨m, hm, hEq⟩
        · rw [foldl_cons, hSame]
          rcases max_choice c (f b) with hMax | hMax
          · exact .inl hMax
          · exact .inr ⟨b, mem_cons_self, hMax.symm⟩
        · exact .inr ⟨m, mem_cons_of_mem _ hm, hEq⟩
  obtain ⟨hStart, hAll, hFound⟩ := hFold (f first) rest
  constructor
  · rcases hFound with hSame | ⟨m, hm, hEq⟩
    · exact ⟨first, mem_cons_self, hSame.symm⟩
    · exact ⟨m, mem_cons_of_mem _ hm, hEq⟩
  · rintro c ⟨m, hm, rfl⟩
    rcases mem_cons.mp hm with rfl | hm
    · exact hStart
    · exact hAll m hm

theorem largest_foldl (first : Blob) (rest : List Blob) :
    ∃ m ∈ first :: rest, rest.foldl
        (fun a b => if a.detection.area < b.detection.area then b else a) first = m ∧
      ∀ m' ∈ first :: rest, m'.detection.area ≤ m.detection.area := by
  induction rest generalizing first with
  | nil => exact ⟨first, by simp, rfl, by simp⟩
  | cons b rest ih =>
    rw [foldl_cons]
    obtain ⟨m, hm, hFold, hMost⟩ :=
      ih (if first.detection.area < b.detection.area then b else first)
    refine ⟨m, ?_, hFold, fun m' hm' => ?_⟩
    · rcases mem_cons.mp hm with rfl | hm
      · split
        next => simp
        next => simp
      · simp [hm]
    · have hHead := hMost _ mem_cons_self
      rcases mem_cons.mp hm' with rfl | hm'
      · refine le_trans ?_ hHead
        split
        next h => exact h.le
        next => exact le_rfl
      · rcases mem_cons.mp hm' with rfl | hm'
        · refine le_trans ?_ hHead
          split
          next => exact le_rfl
          next h => exact not_lt.mp h
        · exact hMost m' (mem_cons_of_mem _ hm')

theorem sum_heatOf_nonneg (members : Multiset Blob) : 0 ≤ (members.map heatOf).sum :=
  Multiset.sum_nonneg fun w hw => by
    obtain ⟨m, -, rfl⟩ := Multiset.mem_map.mp hw
    exact (heatOf_pos m).le

theorem meanFloor_singleton (a : Blob) : meanFloor (a ::ₘ 0) = a.floor := by
  have hw := (heatOf_pos a).ne'
  refine Prod.ext ?_ ?_
  · simp [meanFloor, hw]
  · simp [meanFloor, hw]

/-- The mean of points of a convex set is in it. -/
theorem meanFloor_mem {S : Set Point} (hS : Convex ℚ S) (members : Multiset Blob)
    (hne : members ≠ 0) (hMem : ∀ m ∈ members, m.floor ∈ S) : meanFloor members ∈ S := by
  induction members using Multiset.induction with
  | empty => exact absurd rfl hne
  | cons a rest ih =>
    have hHead := hMem a (Multiset.mem_cons_self a rest)
    have hw := heatOf_pos a
    by_cases hRest : rest = 0
    · rw [hRest, meanFloor_singleton]
      exact hHead
    · -- the mean of the whole lies between the first point and the mean of the others
      have hTail := ih hRest fun m hm => hMem m (Multiset.mem_cons_of_mem hm)
      have hW : 0 < (rest.map heatOf).sum := by
        obtain ⟨m, hm⟩ := Multiset.exists_mem_of_ne_zero hRest
        obtain ⟨rest', rfl⟩ := Multiset.exists_cons_of_mem hm
        rw [Multiset.map_cons, Multiset.sum_cons]
        exact add_pos_of_pos_of_nonneg (heatOf_pos m) (sum_heatOf_nonneg rest')
      have hTotal := add_pos hw hW
      have hBetween := hS hHead hTail (div_nonneg hw.le hTotal.le) (div_nonneg hW.le hTotal.le)
        (by rw [← add_div, div_self hTotal.ne'])
      refine (congrArg (· ∈ S) (Prod.ext ?_ ?_)).mp hBetween
      · simp only [meanFloor, Multiset.map_cons, Multiset.sum_cons, Prod.fst_add, Prod.smul_fst,
          smul_eq_mul]
        field_simp
      · simp only [meanFloor, Multiset.map_cons, Multiset.sum_cons, Prod.snd_add, Prod.smul_snd,
          smul_eq_mul]
        field_simp

theorem merged_mergeMembers (first : Blob) (rest : List Blob) :
    Merged (first :: rest : List Blob) (mergeMembers first rest) := by
  have hFloor : (mergeMembers first rest).floor = meanFloor (first :: rest : List Blob) := by
    unfold mergeMembers
    split
    next hNone =>
      rw [hNone]
      exact (meanFloor_singleton first).symm
    next => rfl
  have hHull : (mergeMembers first rest).floor ∈
      convexHull ℚ {p | ∃ m ∈ (first :: rest : Multiset Blob), m.floor = p} := by
    rw [hFloor]
    refine meanFloor_mem (convex_convexHull ℚ _) _ (by simp) fun m hm => ?_
    exact subset_convexHull ℚ _ ⟨m, hm, rfl⟩
  have hContrast := isGreatest_foldl (fun m => m.detection.contrast) first rest
  have hPeak := isGreatest_foldl (fun m => m.detection.peak) first rest
  obtain ⟨m, hm, hLargest, hMost⟩ := largest_foldl first rest
  by_cases hRest : rest = []
  · subst hRest
    obtain rfl : first = m := hLargest
    exact ⟨by simp [mergeMembers], by simp [mergeMembers], by simp [mergeMembers], hContrast,
      hPeak, ⟨first, hm, hMost, rfl, rfl⟩, hFloor, hHull⟩
  · unfold mergeMembers at hFloor hHull ⊢
    rw [if_neg hRest] at hFloor hHull ⊢
    exact ⟨rfl, rfl, rfl, hContrast, hPeak, ⟨m, hm, hMost, by rw [← hLargest], by rw [← hLargest]⟩,
      hFloor, hHull⟩

theorem mergeAll_spec (h : members ≠ []) : ∃ b, mergeAll members = some b ∧ Merged members b := by
  obtain ⟨first, rest, rfl⟩ := exists_cons_of_ne_nil h
  exact ⟨_, rfl, merged_mergeMembers first rest⟩

end merged

/-! ## In whatever order -/

section order

variable {near : Point → Point → Bool} {blobs blobs' : List Blob} {groups groups' : List (List Nat)}
  {g : List Nat} {i : Nat} {σ : Equiv.Perm Nat}

theorem Components.lt (h : Components near blobs groups) (hg : g ∈ groups) (hi : i ∈ g) :
    i < blobs.length :=
  mem_range.mp (h.places.mem_iff.mp (mem_flatten.mpr ⟨g, hg, hi⟩))

theorem Components.nodup (h : Components near blobs groups) (hg : g ∈ groups) : g.Nodup :=
  (nodup_flatten.mp (h.places.nodup_iff.mpr nodup_range)).1 g hg

/-- The component of a place. -/
theorem Components.mem_iff (h : Components near blobs groups) (hg : g ∈ groups) {j : Nat}
    (hi : i ∈ g) (hj : j < blobs.length) : j ∈ g ↔ Relation.EqvGen (Linked near blobs) i j := by
  rw [← h.connected i (h.lt hg hi) j hj]
  constructor
  · exact fun hj => ⟨g, hg, hi, hj⟩
  · rintro ⟨g', hg', hi', hj'⟩
    by_contra hNot
    have hne : g ≠ g' := by
      rintro rfl
      exact hNot hj'
    have hDisjoint := (nodup_flatten.mp (h.places.nodup_iff.mpr nodup_range)).2
    have : Std.Symm (@List.Disjoint Nat) := ⟨fun _ _ => List.Disjoint.symm⟩
    exact hDisjoint.forall hg hg' hne hi hi'

/-- There is one way only to be divided into components. -/
theorem Components.unique (h : Components near blobs groups) (h' : Components near blobs groups') :
    (groups.map List.toFinset).Perm (groups'.map List.toFinset) := by
  have hNodup : ∀ {groups}, Components near blobs groups → (groups.map List.toFinset).Nodup := by
    intro groups h
    have hDisjoint := (nodup_flatten.mp (h.places.nodup_iff.mpr nodup_range)).2
    rw [List.Nodup, pairwise_map]
    refine hDisjoint.imp_of_mem fun {g g'} hg _ hApart hEq => ?_
    obtain ⟨i, hi⟩ := exists_mem_of_ne_nil g fun hNil => h.nonempty (hNil ▸ hg)
    exact hApart hi (mem_toFinset.mp (hEq ▸ mem_toFinset.mpr hi))
  have hSub : ∀ {groups groups'}, Components near blobs groups → Components near blobs groups' →
      ∀ s ∈ groups.map List.toFinset, s ∈ groups'.map List.toFinset := by
    intro groups groups' h h' s hs
    obtain ⟨g, hg, rfl⟩ := mem_map.mp hs
    obtain ⟨i, hi⟩ := exists_mem_of_ne_nil g fun hNil => h.nonempty (hNil ▸ hg)
    obtain ⟨g', hg', hi'⟩ := mem_flatten.mp
      (h'.places.mem_iff.mpr (mem_range.mpr (h.lt hg hi)))
    refine mem_map.mpr ⟨g', hg', Finset.ext fun j => ?_⟩
    rw [mem_toFinset, mem_toFinset]
    by_cases hj : j < blobs.length
    · rw [h.mem_iff hg hi hj, h'.mem_iff hg' hi' hj]
    · exact iff_of_false (fun hj' => hj (h'.lt hg' hj')) fun hj' => hj (h.lt hg hj')
  rw [perm_ext_iff_of_nodup (hNodup h) (hNodup h')]
  exact fun s => ⟨hSub h h' s, hSub h' h s⟩

/-- A permutation of the places after the first. -/
def skipFirst (σ : Equiv.Perm Nat) : Equiv.Perm Nat where
  toFun
    | 0 => 0
    | i + 1 => σ i + 1
  invFun
    | 0 => 0
    | i + 1 => σ.symm i + 1
  left_inv i := by cases i <;> simp
  right_inv i := by cases i <;> simp

/-- The places of a list in another order. -/
theorem exists_places (h : blobs.Perm blobs') :
    ∃ σ : Equiv.Perm Nat, ∀ i, blobs'[σ i]? = blobs[i]? := by
  induction h with
  | nil => exact ⟨1, fun _ => rfl⟩
  | cons b _ ih =>
    obtain ⟨σ, hσ⟩ := ih
    refine ⟨skipFirst σ, fun i => ?_⟩
    cases i with
    | zero => rfl
    | succ i => exact hσ i
  | swap a b l =>
    refine ⟨Equiv.swap 0 1, fun i => ?_⟩
    match i with
    | 0 => simp
    | 1 => simp
    | i + 2 => rw [Equiv.swap_apply_of_ne_of_ne (by omega) (by omega)]; rfl
  | trans _ _ ih ih' =>
    obtain ⟨σ, hσ⟩ := ih
    obtain ⟨τ, hτ⟩ := ih'
    exact ⟨σ.trans τ, fun i => (hτ _).trans (hσ i)⟩

theorem eqvGen_places (hσ : ∀ i, blobs'[σ i]? = blobs[i]?) {j : Nat}
    (h : Relation.EqvGen (Linked near blobs) i j) :
    Relation.EqvGen (Linked near blobs') (σ i) (σ j) := by
  refine UnionFind.eqvGen_le (E := fun i j => Relation.EqvGen (Linked near blobs') (σ i) (σ j))
    (fun i j hLinked => ?_) (fun _ => .refl _) (fun _ _ => .symm _ _) (fun _ _ _ => .trans _ _ _) h
  obtain ⟨a, b, ha, hb, hFragments⟩ := hLinked
  exact .rel _ _ ⟨a, b, (hσ i).trans ha, (hσ j).trans hb, hFragments⟩

/-- The components move with the places. -/
theorem Components.map_places (h : Components near blobs groups)
    (hσ : ∀ i, blobs'[σ i]? = blobs[i]?) : Components near blobs' (groups.map (List.map σ)) := by
  have hBack : ∀ i, blobs[σ.symm i]? = blobs'[i]? := fun i => by
    rw [← hσ, Equiv.apply_symm_apply]
  have hLt : ∀ i, σ i < blobs'.length ↔ i < blobs.length := fun i => by
    rw [← not_le, ← List.getElem?_eq_none_iff, hσ, List.getElem?_eq_none_iff, not_le]
  refine ⟨?_, ?_, fun i hi j hj => ?_⟩
  · rw [← map_flatten]
    refine (h.places.map σ).trans ?_
    rw [perm_ext_iff_of_nodup (nodup_range.map σ.injective) nodup_range]
    intro i
    rw [mem_map, mem_range]
    constructor
    · rintro ⟨i, hi, rfl⟩
      exact (hLt i).mpr (mem_range.mp hi)
    · intro hi
      refine ⟨σ.symm i, mem_range.mpr ((hLt _).mp ?_), σ.apply_symm_apply i⟩
      rwa [Equiv.apply_symm_apply]
  · intro hNil
    obtain ⟨g, hg, hEmpty⟩ := mem_map.mp hNil
    exact h.nonempty (map_eq_nil_iff.mp hEmpty ▸ hg)
  · obtain ⟨i, rfl⟩ := σ.surjective i
    obtain ⟨j, rfl⟩ := σ.surjective j
    rw [hLt] at hi hj
    have hIff : Relation.EqvGen (Linked near blobs') (σ i) (σ j) ↔
        Relation.EqvGen (Linked near blobs) i j := by
      refine ⟨fun hEqv => ?_, eqvGen_places hσ⟩
      have hOld := eqvGen_places hBack hEqv
      rwa [Equiv.symm_apply_apply, Equiv.symm_apply_apply] at hOld
    rw [hIff, ← h.connected i hi j hj]
    constructor
    · rintro ⟨g', hg', hi', hj'⟩
      obtain ⟨g, hg, rfl⟩ := mem_map.mp hg'
      rw [mem_map_of_injective σ.injective] at hi' hj'
      exact ⟨g, hg, hi', hj'⟩
    · rintro ⟨g, hg, hi', hj'⟩
      exact ⟨g.map σ, mem_map_of_mem hg, mem_map_of_mem hi', mem_map_of_mem hj'⟩

theorem blobsAt_map (hσ : ∀ i, blobs'[σ i]? = blobs[i]?) (g : List Nat) :
    blobsAt blobs' (g.map σ) = blobsAt blobs g := by
  unfold blobsAt
  rw [filterMap_map]
  exact congrArg (fun f => g.filterMap f) (funext hσ)

end order

/-! ## What a merge does -/

section result

variable {near : Point → Point → Bool} {blobs blobs' out : List Blob} {groups : List (List Nat)}

theorem blobsAt_range (blobs : List Blob) : blobsAt blobs (List.range blobs.length) = blobs := by
  unfold blobsAt
  induction blobs with
  | nil => rfl
  | cons b blobs ih =>
    rw [length_cons, range_succ_eq_map, filterMap_cons, filterMap_map]
    change b :: (List.range blobs.length).filterMap (fun i => blobs[i]?) = b :: blobs
    rw [ih]

theorem blobsAt_ne_nil (h : Components near blobs groups) {g : List Nat} (hg : g ∈ groups) :
    blobsAt blobs g ≠ [] := by
  obtain ⟨i, hi⟩ := exists_mem_of_ne_nil g fun hNil => h.nonempty (hNil ▸ hg)
  have hAt := getElem?_eq_getElem (h.lt hg hi)
  exact ne_nil_of_mem (mem_filterMap.mpr ⟨i, hi, hAt⟩)

/-- The clusters of a list of blobs. -/
structure Clusters (near : Point → Point → Bool) (blobs out : List Blob) : Prop where
  components : ∃ groups, Components near blobs groups ∧
    List.Forall₂ (fun g b => Merged (blobsAt blobs g : List Blob) b) groups out
  area : (out.map fun b => b.detection.area).sum = (blobs.map fun b => b.detection.area).sum
  heat : (out.map fun b => b.detection.heat).sum = (blobs.map fun b => b.detection.heat).sum
  norm : (out.map Blob.norm).sum = (blobs.map Blob.norm).sum

/-- What the clusters have of something they sum up is what the blobs have. -/
theorem sum_clusters (h : Components near blobs groups) {f : Blob → ℚ}
    (hOut : List.Forall₂ (fun g b => f b = ((blobsAt blobs g).map f).sum) groups out) :
    (out.map f).sum = (blobs.map f).sum := by
  have hMap : out.map f = groups.map fun g => ((blobsAt blobs g).map f).sum :=
    map_eq_of_forall₂ hOut
  have hAll : (groups.map (blobsAt blobs)).flatten.Perm blobs := by
    have hPlaces : (blobsAt blobs groups.flatten).Perm (blobsAt blobs (List.range blobs.length)) :=
      h.places.filterMap _
    rw [blobsAt_range] at hPlaces
    unfold blobsAt at hPlaces ⊢
    rwa [filterMap_flatten] at hPlaces
  calc
    (out.map f).sum = ((groups.map (blobsAt blobs)).map fun l => (l.map f).sum).sum := by
      rw [hMap, map_map]
      rfl
    _ = ((groups.map (blobsAt blobs)).flatten.map f).sum := by
      simp only [map_flatten, sum_flatten, map_map]
      rfl
    _ = (blobs.map f).sum := (hAll.map f).sum_eq

theorem exists_mergeAll (h : Components near blobs groups) {g : List Nat} (hg : g ∈ groups) :
    ∃ b, clusterAt blobs g = some b ∧ Merged (blobsAt blobs g : List Blob) b :=
  mergeAll_spec (blobsAt_ne_nil h hg)

theorem forall₂_mergeAll (hEach : ∀ g ∈ groups, ∃ b, clusterAt blobs g = some b ∧
      Merged (blobsAt blobs g : List Blob) b) :
    List.Forall₂ (fun g b => Merged (blobsAt blobs g : List Blob) b) groups
      (groups.filterMap (clusterAt blobs)) := by
  induction groups with
  | nil => exact .nil
  | cons g groups ih =>
    obtain ⟨b, hb, hMerged⟩ := hEach g mem_cons_self
    rw [filterMap_cons_some hb]
    exact .cons hMerged (ih fun g' hg' => hEach g' (mem_cons_of_mem g hg'))

theorem clusters_of_components (h : Components near blobs groups) :
    Clusters near blobs (groups.filterMap (clusterAt blobs)) := by
  have hOut := forall₂_mergeAll fun g hg => exists_mergeAll h hg
  exact ⟨⟨groups, h, hOut⟩, sum_clusters h (hOut.imp fun _ _ => Merged.area),
    sum_clusters h (hOut.imp fun _ _ => Merged.heat),
    sum_clusters h (hOut.imp fun _ _ => Merged.norm)⟩

/-- The same blobs in another order make the same clusters, in some order, and up to which of the
largest members gives its pixel. -/
theorem clusters_perm (hPerm : blobs.Perm blobs') (h : Components near blobs groups)
    {groups' : List (List Nat)} (h' : Components near blobs' groups') :
    ∃ out, out.Perm (groups.filterMap (clusterAt blobs)) ∧
      List.Forall₂ (fun b b' => ∃ members, Merged members b ∧ Merged members b') out
        (groups'.filterMap (clusterAt blobs')) := by
  obtain ⟨σ, hσ⟩ := exists_places hPerm
  have hSets := (h.map_places hσ).unique h'
  rw [map_map] at hSets
  -- the groups of one list in the order of the groups of the other
  have hComp : Relation.Comp (List.Forall₂ fun g s => (g.map σ).toFinset = s) List.Perm groups
      (groups'.map List.toFinset) :=
    ⟨_, forall₂_map_right_iff.mpr (forall₂_same.mpr fun _ _ => rfl), hSets⟩
  rw [forall₂_comp_perm_eq_perm_comp_forall₂] at hComp
  obtain ⟨ordered, hOrdered, hMatch⟩ := hComp
  rw [forall₂_map_right_iff] at hMatch
  refine ⟨ordered.filterMap (clusterAt blobs), hOrdered.symm.filterMap _, ?_⟩
  have hOld : ∀ g ∈ ordered, g.Nodup ∧ ∃ b, clusterAt blobs g = some b ∧
      Merged (blobsAt blobs g : List Blob) b := fun g hg =>
    have hg := hOrdered.mem_iff.mpr hg
    ⟨h.nodup hg, exists_mergeAll h hg⟩
  have hNew : ∀ g ∈ groups', g.Nodup ∧ ∃ b, clusterAt blobs' g = some b ∧
      Merged (blobsAt blobs' g : List Blob) b := fun g hg => ⟨h'.nodup hg, exists_mergeAll h' hg⟩
  clear hOrdered hSets h h'
  induction hMatch with
  | nil => exact .nil
  | @cons g g' ordered groups' hSet _ ih =>
    obtain ⟨⟨hNodup, b, hb, hMerged⟩, hOld⟩ := forall_mem_cons.mp hOld
    obtain ⟨⟨hNodup', b', hb', hMerged'⟩, hNew⟩ := forall_mem_cons.mp hNew
    have hPlaces : (g.map σ).Perm g' :=
      perm_of_nodup_nodup_toFinset_eq (hNodup.map σ.injective) hNodup' hSet
    have hMembers : (blobsAt blobs g : Multiset Blob) = (blobsAt blobs' g' : List Blob) := by
      rw [← blobsAt_map hσ]
      exact Multiset.coe_eq_coe.mpr (hPlaces.filterMap _)
    rw [filterMap_cons_some hb, filterMap_cons_some hb']
    exact .cons ⟨_, hMerged, hMembers ▸ hMerged'⟩ (ih hOld hNew)

/-- `mergeClose` computes connected components: it ends, and it makes one blob of each, in whatever
order the blobs come. -/
theorem mergeBlobs_clusters (hSymm : ∀ p q, near p q = near q p) (blobs : List Blob) :
    ∃ out, mergeBlobs near blobs = some out ∧ Clusters near blobs out ∧
      ∀ blobs', blobs.Perm blobs' → ∃ out', mergeBlobs near blobs' = some out' ∧
        ∃ ordered, ordered.Perm out ∧
          List.Forall₂ (fun b b' => ∃ members, Merged members b ∧ Merged members b')
            ordered out' := by
  obtain ⟨groups, h, hMerge⟩ := exists_components hSymm blobs
  refine ⟨_, hMerge, clusters_of_components h, fun blobs' hPerm => ?_⟩
  obtain ⟨groups', h', hMerge'⟩ := exists_components hSymm blobs'
  exact ⟨_, hMerge', clusters_perm hPerm h h'⟩

theorem closerThan_symm (mergeCm : ℚ) (p q : Point) :
    closerThan mergeCm p q = closerThan mergeCm q p := by
  unfold closerThan
  rw [← hypotSq_neg, neg_sub, neg_sub]

/-- A warm body, a hand next to it and another body. -/
def threeBlobs : List Blob :=
  [(0, 10, 4), (30, 2, 1), (40, 9, 4)].map fun (p : ℚ × ℚ × ℚ) =>
    { detection := { x := p.1, y := 0, area := p.2.2, contrast := 1, peak := 2, heat := p.2.1 }
      floor := (p.1, 0), norm := p.2.1 }

theorem threeBlobs_clusters : ∃ out, mergeBlobs (closerThan 35) threeBlobs = some out ∧
    Clusters (closerThan 35) threeBlobs out ∧ out.length = 1 := by
  obtain ⟨out, hMerge, hClusters, -⟩ := mergeBlobs_clusters (closerThan_symm 35) threeBlobs
  have hLength : (mergeBlobs (closerThan 35) threeBlobs).map List.length = some 1 := by
    decide +kernel
  rw [hMerge] at hLength
  exact ⟨out, hMerge, hClusters, Option.some.inj hLength⟩

end result

end TMEdge.Occupancy
