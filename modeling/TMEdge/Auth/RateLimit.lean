import TMEdge.Library.Decimal
import TMEdge.Library.JsMap
import TMEdge.Library.Run

/-!
# Limits on login attempts

The two `RateLimiter` classes: that of `src/web/auth.ts`, and that of
`src/modules/student-auth/application/student-session-service.ts`. Both count the attempts of a key
in a fixed window, and both bound the table of windows. At the bound the first turns new keys away;
the second forgets all windows.

* `limited_of_remembered`: a window allows as many attempts as it may, as long as no table is
  forgotten.
* `refused_with_cause`: a table is bounded, and an attempt is refused by its own window or by a full
  table of the web tier.
* `flushed`: ten thousand other keys open a second window within the first.
-/

namespace TMEdge.Auth

open Library List JsMap

structure Hit where
  n : Nat
  reset : ℚ
  deriving DecidableEq

/-- `hits` -/
abbrev Hits := JsMap Text Hit

def hitsLimit : Nat := 10000

/-- The table of the web tier, without the windows that are over if it is full. -/
def pruned (hits : Hits) (now : ℚ) : Hits :=
  if hitsLimit ≤ hits.size then hits.filter fun h => now < h.reset else hits

/-- `RateLimiter.allow` of the web tier. -/
def webAllow (max : Nat) (windowMs : ℚ) (hits : Hits) (key : Text) (now : ℚ) : Hits × Bool :=
  match hits.get key with
  | some h =>
    if h.reset ≤ now then (hits.set key { n := 1, reset := now + windowMs }, true)
    else if max ≤ h.n then (hits, false)
    else (hits.set key { h with n := h.n + 1 }, true)
  | none =>
    let hits := pruned hits now
    -- new addresses must not erase blocked ones
    if hitsLimit ≤ hits.size then (hits, false)
    else (hits.set key { n := 1, reset := now + windowMs }, true)

/-- A new window of the student module, which forgets all windows once there are too many. -/
def studentOpen (windowMs : ℚ) (hits : Hits) (key : Text) (now : ℚ) : Hits :=
  let hits := hits.set key { n := 1, reset := now + windowMs }
  if hitsLimit < hits.size then .empty else hits

/-- `RateLimiter.allow` of the student module. -/
def studentAllow (max : Nat) (windowMs : ℚ) (hits : Hits) (key : Text) (now : ℚ) : Hits × Bool :=
  match hits.get key with
  | some hit =>
    if hit.reset < now then (studentOpen windowMs hits key now, true)
    else (hits.set key { hit with n := hit.n + 1 }, hit.n + 1 ≤ max)
  | none => (studentOpen windowMs hits key now, true)

inductive LimiterClass
  | web
  | student
  deriving DecidableEq

namespace LimiterClass

def allow (c : LimiterClass) (max : Nat) (windowMs : ℚ) (hits : Hits) (key : Text) (now : ℚ) :
    Hits × Bool :=
  match c with
  | .web => webAllow max windowMs hits key now
  | .student => studentAllow max windowMs hits key now

/-- The key has a window that is still running. -/
def running (c : LimiterClass) (hits : Hits) (key : Text) (now : ℚ) : Bool :=
  (hits.get key).any fun h =>
    match c with
    | .web => now < h.reset
    | .student => now ≤ h.reset

end LimiterClass

/-! ## Runs -/

structure Attempt where
  key : Text
  time : ℚ

section runs

variable (c : LimiterClass) (max : Nat) (windowMs : ℚ)

def step (hits : Hits) (a : Attempt) : Hits := (c.allow max windowMs hits a.key a.time).1

def isAllowed (hits : Hits) (a : Attempt) : Bool := (c.allow max windowMs hits a.key a.time).2

/-- An attempt that opens a window. -/
def isFirst (hits : Hits) (a : Attempt) : Bool :=
  isAllowed c max windowMs hits a && !c.running hits a.key a.time

/-- How many attempts of a key are allowed before some time. -/
def allowedBefore (key : Text) (limit : ℚ) : Hits → List Attempt → Nat
  | _, [] => 0
  | hits, a :: rest =>
    (if a.key = key ∧ a.time < limit ∧ isAllowed c max windowMs hits a = true then 1 else 0) +
      allowedBefore key limit (step c max windowMs hits a) rest

/-- No window allows more attempts than it may. -/
def Limited (attempts : List Attempt) : Prop :=
  ∀ pre a post, attempts = pre ++ a :: post →
    isFirst c max windowMs (run (step c max windowMs) .empty pre) a = true →
      allowedBefore c max windowMs a.key (a.time + windowMs)
        (run (step c max windowMs) .empty pre) (a :: post) ≤ max

/-- An attempt does not make the student module forget its windows. -/
def Remembered (hits : Hits) (a : Attempt) : Prop :=
  c = .student → c.running hits a.key a.time = false →
    (hits.set a.key { n := 1, reset := a.time + windowMs }).size ≤ hitsLimit

instance (hits : Hits) (a : Attempt) : Decidable (Remembered c windowMs hits a) :=
  inferInstanceAs (Decidable (_ → _ → _))

end runs

/-! ## One attempt -/

section attempt

variable {c : LimiterClass} {max : Nat} {windowMs : ℚ} {hits : Hits} {a : Attempt} {h : Hit}
  {key : Text}

/-- A running window counts an attempt, and allows it if it may. -/
theorem get_step_running (hGet : hits.get a.key = some h) (hTime : a.time < h.reset) :
    ∃ n, (step c max windowMs hits a).get a.key = some ⟨n, h.reset⟩ ∧
      (isAllowed c max windowMs hits a = true → n = h.n + 1 ∧ h.n < max) ∧
      (isAllowed c max windowMs hits a = false → max ≤ n) := by
  unfold step isAllowed LimiterClass.allow
  cases c with
  | web =>
    simp only [webAllow, hGet, not_le.mpr hTime, if_false]
    by_cases hFull : max ≤ h.n
    · simp only [hFull, if_true]
      exact ⟨h.n, hGet, by rintro ⟨⟩, fun _ => hFull⟩
    · simp only [hFull, if_false]
      exact ⟨h.n + 1, by simp, fun _ => ⟨rfl, not_le.mp hFull⟩, by rintro ⟨⟩⟩
  | student =>
    simp only [studentAllow, hGet, not_lt.mpr hTime.le, if_false]
    refine ⟨h.n + 1, by simp, fun hAllowed => ⟨rfl, of_decide_eq_true hAllowed⟩, fun hBlocked => ?_⟩
    have hMore := of_decide_eq_false hBlocked
    omega

theorem get_pruned {now : ℚ} (hGet : hits.get key = some h) (hTime : now < h.reset) :
    (pruned hits now).get key = some h := by
  unfold pruned
  split
  next => simp [hGet, hTime]
  next => exact hGet

theorem get_studentOpen (key' : Text) {now : ℚ}
    (hSize : (hits.set key { n := 1, reset := now + windowMs }).size ≤ hitsLimit) :
    (studentOpen windowMs hits key now).get key' =
      if key' = key then some { n := 1, reset := now + windowMs } else hits.get key' := by
  unfold studentOpen
  dsimp only
  rw [if_neg (not_lt.mpr hSize), get_set]

/-- A window of another key stays. -/
theorem get_step_other (hKept : Remembered c windowMs hits a) (hGet : hits.get key = some h)
    (hTime : a.time < h.reset) (hKey : key ≠ a.key) :
    (step c max windowMs hits a).get key = some h := by
  unfold step LimiterClass.allow
  cases c with
  | web =>
    dsimp only
    unfold webAllow
    split
    next h' hGet' =>
      split
      next => rw [get_set, if_neg hKey, hGet]
      next =>
        split
        next => exact hGet
        next => rw [get_set, if_neg hKey, hGet]
    next =>
      dsimp only
      split
      next => exact get_pruned hGet hTime
      next => rw [get_set, if_neg hKey, get_pruned hGet hTime]
  | student =>
    dsimp only
    unfold studentAllow
    split
    next hit hGet' =>
      split
      next hOver =>
        rw [get_studentOpen key (hKept rfl (by simp [LimiterClass.running, hGet', hOver])),
          if_neg hKey, hGet]
      next => rw [get_set, if_neg hKey, hGet]
    next hNone =>
      rw [get_studentOpen key (hKept rfl (by simp [LimiterClass.running, hNone])), if_neg hKey,
        hGet]

/-- An attempt that opens a window is the first in it. -/
theorem get_step_first (hKept : Remembered c windowMs hits a)
    (hFirst : isFirst c max windowMs hits a = true) :
    (step c max windowMs hits a).get a.key = some ⟨1, a.time + windowMs⟩ := by
  rw [isFirst, Bool.and_eq_true, Bool.not_eq_true'] at hFirst
  obtain ⟨hAllowed, hNew⟩ := hFirst
  unfold step
  unfold isAllowed at hAllowed
  unfold LimiterClass.allow at hAllowed ⊢
  cases c with
  | web =>
    dsimp only at hAllowed ⊢
    unfold webAllow at hAllowed ⊢
    split
    next h' hGet =>
      have hOver : h'.reset ≤ a.time := by simpa [LimiterClass.running, hGet] using hNew
      simp [hOver]
    next hNone =>
      simp only [hNone] at hAllowed
      split at hAllowed
      next => cases hAllowed
      next hRoom => simp [hRoom]
  | student =>
    dsimp only
    unfold studentAllow
    split
    next hit hGet =>
      have hOver : hit.reset < a.time := by simpa [LimiterClass.running, hGet] using hNew
      rw [if_pos hOver, get_studentOpen _ (hKept rfl hNew), if_pos rfl]
    next => rw [get_studentOpen _ (hKept rfl hNew), if_pos rfl]

end attempt

/-! ## A window -/

section window

variable {c : LimiterClass} {max n : Nat} {windowMs limit : ℚ} {hits : Hits} {key : Text}
  {attempts : List Attempt}

theorem allowedBefore_eq_zero (h : ∀ a ∈ attempts, limit ≤ a.time) :
    allowedBefore c max windowMs key limit hits attempts = 0 := by
  induction attempts generalizing hits with
  | nil => rfl
  | cons a rest ih =>
    rw [allowedBefore, ih fun b hb => h b (mem_cons_of_mem a hb),
      if_neg fun hAll => absurd hAll.2.1 (not_lt.mpr (h a mem_cons_self))]

/-- What a running window still allows. -/
theorem allowedBefore_le (hSorted : attempts.Pairwise fun a b => a.time ≤ b.time)
    (hKept : Guarded (step c max windowMs) (Remembered c windowMs) hits attempts)
    (hGet : hits.get key = some ⟨n, limit⟩) :
    allowedBefore c max windowMs key limit hits attempts = 0 ∨
      n + allowedBefore c max windowMs key limit hits attempts ≤ max := by
  induction attempts generalizing hits n with
  | nil => exact .inl rfl
  | cons a rest ih =>
    rw [pairwise_cons] at hSorted
    obtain ⟨hHead, hRest⟩ := hKept
    rcases le_or_gt limit a.time with hOver | hTime
    · -- the window is over, and no later attempt is in it
      refine .inl (allowedBefore_eq_zero fun b hb => ?_)
      rcases mem_cons.mp hb with rfl | hb
      · exact hOver
      · exact hOver.trans (hSorted.1 b hb)
    · by_cases hKey : key = a.key
      · subst hKey
        obtain ⟨n', hGet', hAllowed, hBlocked⟩ := @get_step_running c max windowMs _ _ _ hGet hTime
        have hLater := ih hSorted.2 hRest hGet'
        rw [allowedBefore]
        rcases hCase : isAllowed c max windowMs hits a with - | -
        · have hFull := hBlocked hCase
          simp only [Bool.false_eq_true, and_false, if_false, zero_add]
          left
          omega
        · obtain ⟨rfl, hLess⟩ := hAllowed hCase
          simp only [hTime, and_self, if_true]
          right
          dsimp only at hLess hLater
          omega
      · have hGet' := @get_step_other c max windowMs _ _ _ _ hHead hGet hTime hKey
        rw [allowedBefore, if_neg fun hAll => hKey hAll.1.symm, zero_add]
        exact ih hSorted.2 hRest hGet'

/-- A window allows no more attempts than it may, as long as the student module does not forget its
windows. -/
theorem limited_of_remembered (c : LimiterClass) (max : Nat) (windowMs : ℚ)
    (attempts : List Attempt) (hMax : 1 ≤ max)
    (hSorted : attempts.Pairwise fun a b => a.time ≤ b.time)
    (hKept : Guarded (step c max windowMs) (Remembered c windowMs) .empty attempts) :
    Limited c max windowMs attempts := by
  rintro pre a post rfl hFirst
  have hPost := (List.pairwise_append.mp hSorted).2.1
  obtain ⟨-, hHead, hRest⟩ := guarded_append.mp hKept
  have hGet := get_step_first hHead hFirst
  have hLater := allowedBefore_le (List.pairwise_cons.mp hPost).2 hRest hGet
  rw [allowedBefore]
  split
  next => omega
  next => omega

end window

theorem limited_twice : Limited .web 1 10 [⟨js "a", 0⟩, ⟨js "a", 5⟩, ⟨js "a", 20⟩] ∧
    Limited .student 1 10 [⟨js "a", 0⟩, ⟨js "a", 5⟩, ⟨js "a", 20⟩] :=
  ⟨limited_of_remembered .web 1 10 _ le_rfl (by decide +kernel) (by decide +kernel),
    limited_of_remembered .student 1 10 _ le_rfl (by decide +kernel) (by decide +kernel)⟩

/-! ## The table and refusals -/

section table

variable {c : LimiterClass} {max : Nat} {windowMs : ℚ} {hits : Hits} {a : Attempt}

theorem size_studentOpen (windowMs : ℚ) (hits : Hits) (key : Text) (now : ℚ) :
    (studentOpen windowMs hits key now).size ≤ hitsLimit := by
  unfold studentOpen
  dsimp only
  split
  · exact Nat.zero_le _
  · exact not_lt.mp ‹_›

theorem size_step (h : hits.size ≤ hitsLimit) (a : Attempt) :
    (step c max windowMs hits a).size ≤ hitsLimit := by
  unfold step LimiterClass.allow
  cases c with
  | web =>
    dsimp only
    unfold webAllow
    split
    next hit hGet =>
      split
      · rwa [JsMap.size_set_of_get hGet]
      split
      · exact h
      · rwa [JsMap.size_set_of_get hGet]
    next hNone =>
      have hPruned : (pruned hits a.time).size ≤ hitsLimit := by
        unfold pruned
        split
        · exact (length_filter_le _ _).trans h
        · exact h
      dsimp only
      split
      · exact hPruned
      · have hSet := JsMap.size_set_le (pruned hits a.time) a.key ⟨1, a.time + windowMs⟩
        dsimp only
        omega
  | student =>
    dsimp only
    unfold studentAllow
    split
    next hit hGet =>
      split
      · exact size_studentOpen _ _ _ _
      · rwa [JsMap.size_set_of_get hGet]
    next => exact size_studentOpen _ _ _ _

theorem refused_cases (hRefused : isAllowed c max windowMs hits a = false) :
    (∃ h, hits.get a.key = some h ∧ c.running hits a.key a.time = true ∧ max ≤ h.n) ∨
      c = .web ∧ hits.get a.key = none ∧
        hitsLimit ≤ (hits.filter fun h => a.time < h.reset).size := by
  unfold isAllowed LimiterClass.allow at hRefused
  cases c with
  | web =>
    dsimp only at hRefused
    unfold webAllow at hRefused
    split at hRefused
    next h hGet =>
      split at hRefused
      · cases hRefused
      split at hRefused
      next hTime hFull =>
        exact .inl ⟨h, hGet, by simpa [LimiterClass.running, hGet] using hTime, hFull⟩
      · cases hRefused
    next hNone =>
      dsimp only at hRefused
      split at hRefused
      next hFull =>
        refine .inr ⟨rfl, hNone, ?_⟩
        unfold pruned at hFull
        split at hFull
        · exact hFull
        · contradiction
      · cases hRefused
  | student =>
    dsimp only at hRefused
    unfold studentAllow at hRefused
    split at hRefused
    next h hGet =>
      split at hRefused
      · cases hRefused
      next hTime =>
        refine .inl ⟨h, hGet, by simpa [LimiterClass.running, hGet] using hTime, ?_⟩
        have hOver := of_decide_eq_false hRefused
        omega
    · cases hRefused

end table

/-- In every run a table holds at most ten thousand windows, and an attempt is refused only where
the running window of its key counts all it may or, by the web tier, where ten thousand windows of
other keys are running. -/
theorem refused_with_cause (c : LimiterClass) (max : Nat) (windowMs : ℚ) (attempts : List Attempt) :
    let hits := run (step c max windowMs) .empty attempts
    hits.size ≤ hitsLimit ∧ ∀ a, isAllowed c max windowMs hits a = true ∨
      (∃ h, hits.get a.key = some h ∧ c.running hits a.key a.time = true ∧ max ≤ h.n) ∨
      c = .web ∧ hits.get a.key = none ∧
        (hits.filter fun h => a.time < h.reset).size = hitsLimit := by
  intro hits
  have hSize : hits.size ≤ hitsLimit :=
    run_invariant (fun hits : Hits => hits.size ≤ hitsLimit) (fun _ a h => size_step h a)
      (Nat.zero_le _) attempts
  refine ⟨hSize, fun a => ?_⟩
  cases hAllowed : isAllowed c max windowMs hits a with
  | true => exact .inl rfl
  | false =>
    refine .inr ((refused_cases hAllowed).imp_right fun hFull => ⟨hFull.1, hFull.2.1, ?_⟩)
    exact ((length_filter_le _ _).trans hSize).antisymm hFull.2.2

/-! ## Other keys -/

section spray

variable {max : Nat} {windowMs limit : ℚ} {hits : Hits} {key : Text} {ns : List Nat}

theorem allowedBefore_append (c : LimiterClass) (l l' : List Attempt) :
    allowedBefore c max windowMs key limit hits (l ++ l') =
      allowedBefore c max windowMs key limit hits l +
        allowedBefore c max windowMs key limit (run (step c max windowMs) hits l) l' := by
  induction l generalizing hits with
  | nil => exact (zero_add _).symm
  | cons a l ih => rw [cons_append, allowedBefore, allowedBefore, ih, run_cons, add_assoc]

theorem allowedBefore_other (c : LimiterClass) {l : List Attempt} (h : ∀ a ∈ l, a.key ≠ key) :
    allowedBefore c max windowMs key limit hits l = 0 := by
  induction l generalizing hits with
  | nil => rfl
  | cons a l ih =>
    rw [allowedBefore, ih fun b hb => h b (mem_cons_of_mem a hb),
      if_neg fun hAll => h a mem_cons_self hAll.1]

/-- An attempt with a number for its key. -/
def numbered (n : Nat) : Attempt := { key := Text.decimal n, time := 0 }

theorem studentAllow_new (hNew : hits.get key = none) (now : ℚ) :
    (studentAllow max windowMs hits key now).1 = studentOpen windowMs hits key now := by
  rw [studentAllow, hNew]

/-- New keys each take a place in the table. -/
theorem size_numbered (hNodup : ns.Nodup) (hNew : ∀ n ∈ ns, hits.get (Text.decimal n) = none)
    (hRoom : hits.size + ns.length ≤ hitsLimit) :
    (run (step .student max windowMs) hits (ns.map numbered)).size = hits.size + ns.length ∧
      ∀ key, (∀ n ∈ ns, Text.decimal n ≠ key) →
        (run (step .student max windowMs) hits (ns.map numbered)).get key = hits.get key := by
  induction ns generalizing hits with
  | nil => exact ⟨rfl, fun _ _ => rfl⟩
  | cons n ns ih =>
    rw [nodup_cons] at hNodup
    rw [length_cons] at hRoom
    have hHead := hNew n mem_cons_self
    have hSize := size_set_new hHead { n := 1, reset := (0 : ℚ) + windowMs }
    have hGet := fun key => @get_studentOpen windowMs hits (Text.decimal n) key 0 (by omega)
    have hStep : step .student max windowMs hits (numbered n) =
        studentOpen windowMs hits (Text.decimal n) 0 := studentAllow_new hHead 0
    have hOpen : (studentOpen windowMs hits (Text.decimal n) 0).size = hits.size + 1 := by
      unfold studentOpen
      dsimp only
      rw [if_neg (by omega), hSize]
    rw [map_cons, run_cons, hStep]
    obtain ⟨hLater, hKeep⟩ := @ih (studentOpen windowMs hits (Text.decimal n) 0) hNodup.2
      (fun m hm => by
        have hne : Text.decimal m ≠ Text.decimal n := fun hEq =>
          hNodup.1 (Text.decimal_injective hEq ▸ hm)
        rw [hGet, if_neg hne]
        exact hNew m (mem_cons_of_mem n hm)) (by omega)
    refine ⟨by rw [hLater, hOpen, length_cons]; omega, fun key hKey => ?_⟩
    rw [hKeep key fun m hm => hKey m (mem_cons_of_mem n hm), hGet,
      if_neg fun hEq => hKey n mem_cons_self hEq.symm]

/-- An attempt, ten thousand others, and the first again. -/
def sprayed : List Attempt :=
  ⟨js "a", 0⟩ :: ((List.range hitsLimit).map numbered ++ [⟨js "a", 0⟩])

theorem decimal_ne_a (n : Nat) : Text.decimal n ≠ js "a" := by
  intro hEq
  have hMem : (97 : UInt16) ∈ Text.decimal n := by
    rw [hEq]
    decide
  exact absurd (Text.decimal_digits hMem).2 (by decide)

theorem time_sprayed {a : Attempt} (h : a ∈ sprayed) : a.time = 0 := by
  simp only [sprayed, mem_cons, mem_append, mem_map, not_mem_nil,
    or_false] at h
  rcases h with rfl | ⟨n, -, rfl⟩ | rfl
  · rfl
  · rfl
  · rfl

/-- The last of the other keys empties the table. -/
theorem run_numbered {k : Nat} (hk : k + 1 = hitsLimit) (hSize : hits.size = 1)
    (hNew : ∀ n, hits.get (Text.decimal n) = none) :
    run (step .student max windowMs) hits ((List.range (k + 1)).map numbered) = .empty := by
  obtain ⟨hFull, hKeep⟩ := @size_numbered max windowMs hits (List.range k) nodup_range
    (fun n _ => hNew n) (by rw [hSize, length_range, ← hk, Nat.add_comm])
  have hLast := hKeep (Text.decimal k) fun n hn hEq => by
    have hSame := Text.decimal_injective hEq
    rw [mem_range] at hn
    omega
  rw [hNew] at hLast
  rw [hSize, length_range] at hFull
  rw [range_succ, map_append, run_append, map_singleton, run_cons, run_nil]
  generalize run (step .student max windowMs) hits ((List.range k).map numbered) = full at *
  have hStep : step .student max windowMs full (numbered k) =
      studentOpen windowMs full (Text.decimal k) 0 := studentAllow_new hLast 0
  have hSet := size_set_new hLast { n := 1, reset := (0 : ℚ) + windowMs }
  rw [hStep]
  unfold studentOpen
  dsimp only
  rw [if_pos (by omega)]

theorem flushed :
    (sprayed.Pairwise fun a b => a.time ≤ b.time) ∧ ¬ Limited .student 1 10 sprayed := by
  have hSorted : sprayed.Pairwise fun a b => a.time ≤ b.time := by
    rw [List.pairwise_iff_getElem]
    intro i j hi hj _
    rw [time_sprayed (List.getElem_mem hi), time_sprayed (List.getElem_mem hj)]
  refine ⟨hSorted, fun h => ?_⟩
  obtain ⟨k, hPred⟩ : ∃ k, k + 1 = hitsLimit := ⟨9999, rfl⟩
  have hCount := h [] ⟨js "a", 0⟩ ((List.range (k + 1)).map numbered ++ [⟨js "a", 0⟩])
    (by rw [hPred, sprayed, List.nil_append]) (by decide +kernel)
  have hHits : step .student 1 10 .empty ⟨js "a", 0⟩ =
      JsMap.set .empty (js "a") { n := 1, reset := 10 } := by
    change studentOpen 10 .empty (js "a") 0 = _
    unfold studentOpen
    dsimp only
    rw [if_neg (by decide), zero_add]
  have hNew : ∀ n, (step .student 1 10 .empty ⟨js "a", 0⟩).get (Text.decimal n) = none := by
    intro n
    rw [hHits, JsMap.get_set, if_neg (decimal_ne_a n), JsMap.get_empty]
  rw [run_nil, allowedBefore, allowedBefore_append, allowedBefore_other,
    run_numbered hPred (by rw [hHits]; rfl) hNew] at hCount
  · exact absurd hCount (by decide +kernel)
  · rintro a ha
    obtain ⟨n, -, rfl⟩ := List.mem_map.mp ha
    exact decimal_ne_a n

end spray

end TMEdge.Auth
