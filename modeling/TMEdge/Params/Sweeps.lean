import TMEdge.Params.Tuning

/-!
# Edge tuning is put back

A revert of one parameter may be refused, since `setOptions` takes no state in which `enterMin`
exceeds `enterWindow`; it is tried again five seconds later.

* `Sweeping`: of two changes that hold each other back, the one that is tried second succeeds.
* `tuning_restored`: after the deadlines, two sweeps put every parameter back, if the values
  to go back to are settings that `setOptions` accepts together (`tuning_stuck`).
-/

namespace TMEdge.Params

open Library Protocol Occupancy List JsMap

namespace System

variable {cfg : Config} {s t : System} {o : OccupancyOptions} {p : EdgeParam} {v : ℚ}

/-! ## Sweeps after the deadlines -/

theorem consistent_set :
    (o.set p v).Consistent ↔
      (if .enterMin = p then v else o.enterMin) ≤ if .enterWindow = p then v else o.enterWindow := by
  have hMin := get_set o p .enterMin v
  have hWindow := get_set o p .enterWindow v
  change (o.set p v).enterMin ≤ (o.set p v).enterWindow ↔ _
  change (o.set p v).enterMin = _ at hMin
  change (o.set p v).enterWindow = _ at hWindow
  rw [hMin, hWindow]
  rfl

theorem setOptions_fixed {o' : OccupancyOptions} (h : settle p v = v)
    (hSet : setOptions o p v = .ok o') : o' = o.set p v := by
  rw [(setOptions_ok.mp hSet).1, h]

theorem not_consistent (h : settle p v = v) {e : String} (hSet : setOptions o p v = .error e) :
    ¬ (o.set p v).Consistent := by
  intro hConsistent
  have hOk := setOptions_ok.mpr ⟨rfl, (h.symm ▸ hConsistent : (o.set p (settle p v)).Consistent)⟩
  rw [hOk] at hSet
  cases hSet

/-- Why the change of `p` has been refused: the other one of window and minimum stands in its
way, and its turn is still to come. -/
def HeldBack (s : System) (es : List (Key × PendingChange)) (p : EdgeParam) (b : ℚ) : Prop :=
  match p with
  | .enterWindow => s.baseline? .enterMin ≠ none →
    edgeKey .enterMin ∈ es.map Prod.fst ∧ b < s.options.enterMin
  | .enterMin => s.baseline? .enterWindow ≠ none →
    edgeKey .enterWindow ∈ es.map Prod.fst ∧ s.options.enterWindow < b
  | _ => False

/-- A sweep that has still to try the changes `es`; `value` is where everything goes. -/
structure Sweeping (value : EdgeParam → ℚ) (T : Int) (s : System)
    (es : List (Key × PendingChange)) : Prop where
  tuning : s.Tuning
  settled : s.Settled
  here : ∀ e ∈ es, s.pending.get e.1 = some e.2
  nodup : (es.map Prod.fst).Nodup
  kept : ∀ p, (s.baseline? p).getD (s.options.get p) = value p
  fixed : ∀ p b, s.baseline? p = some b → settle p b = b
  left : ∀ p c, s.pending.get (edgeKey p) = some c → edgeKey p ∉ es.map Prod.fst →
    c.revertAt ≤ T ∧ HeldBack s es p c.from_

section Sweeping

variable {value : EdgeParam → ℚ} {T : Int} {e : Key × PendingChange}
  {es : List (Key × PendingChange)} {c : PendingChange} {p : EdgeParam}

theorem baseline_of_get (h : s.pending.get (edgeKey p) = some c) :
    s.baseline? p = some c.from_ := by
  unfold baseline?
  rw [h]
  rfl

theorem get_of_baseline (h : s.baseline? p ≠ none) : ∃ c, s.pending.get (edgeKey p) = some c := by
  cases hGet : s.pending.get (edgeKey p) with
  | none =>
    refine absurd ?_ h
    unfold baseline?
    rw [hGet]
    rfl
  | some c => exact ⟨c, rfl⟩

theorem Sweeping.value_of_get (h : Sweeping value T s es)
    (hGet : s.pending.get (edgeKey p) = some c) : c.from_ = value p := by
  rw [← h.kept p, baseline_of_get hGet]
  rfl

theorem Sweeping.value_of_none (h : Sweeping value T s es) (hNone : s.baseline? p = none) :
    s.options.get p = value p := by
  rw [← h.kept p, hNone]
  rfl

/-- The revert of the next change is accepted. -/
theorem Sweeping.removed (h : Sweeping value T s (e :: es)) (hKey : e.1 = edgeKey p)
    (hSet : setOptions s.options p e.2.from_ = .ok o) (hGone : Removed p s t)
    (hOptions : t.options = o) : Sweeping value T t es := by
  have hGet : s.pending.get (edgeKey p) = some e.2 := hKey ▸ h.here e (by simp)
  have hValue := h.value_of_get hGet
  have hFixed := h.fixed p _ (baseline_of_get hGet)
  have ho : t.options = s.options.set p (value p) := by
    rw [hOptions, setOptions_fixed hFixed hSet, hValue]
  have hNodup := nodup_cons.mp (map_cons (f := Prod.fst) ▸ h.nodup)
  have hOptionOf : ∀ q, q ≠ p → t.options.get q = s.options.get q := by
    intro q hq
    rw [ho, get_set, if_neg hq]
  refine ⟨hGone.tuning, fun q b _ => ?_, fun e' he' => ?_, hNodup.2, fun q => ?_, fun q b hb => ?_,
    fun q c hc hNot => ?_⟩
  · rw [hOptions]
    exact (setOptions_ok.mp hSet).2
  · have hNe : e'.1 ≠ edgeKey p := by
      intro hEq
      refine hNodup.1 ?_
      rw [hKey, ← hEq]
      exact mem_map_of_mem he'
    rw [hGone.pending, if_neg hNe]
    exact h.here e' (mem_cons_of_mem e he')
  · rw [hGone.baseline]
    by_cases hq : q = p
    · rw [if_pos hq, ho, get_set, if_pos hq, hq]
      rfl
    · rw [if_neg hq, hOptionOf q hq]
      exact h.kept q
  · rw [hGone.baseline] at hb
    split at hb
    · cases hb
    · exact h.fixed q b hb
  · rw [hGone.pending] at hc
    split at hc
    · cases hc
    rename_i hk
    have hq : q ≠ p := fun hEq => hk (congrArg edgeKey hEq)
    have hNotCons : edgeKey q ∉ (e :: es).map Prod.fst := by
      rw [map_cons, mem_cons, hKey, not_or]
      exact ⟨hk, hNot⟩
    obtain ⟨hAt, hHeld⟩ := h.left q c hc hNotCons
    refine ⟨hAt, ?_⟩
    -- The other change is still to come, so it is not the one just made.
    have hOther : ∀ q', t.baseline? q' ≠ none → q' ≠ p ∧ s.baseline? q' ≠ none := by
      intro q' hq'
      rw [hGone.baseline] at hq'
      split at hq'
      · exact absurd rfl hq'
      · exact ⟨‹_›, hq'⟩
    have hLater : ∀ q', q' ≠ p → edgeKey q' ∈ (e :: es).map Prod.fst →
        edgeKey q' ∈ es.map Prod.fst := by
      intro q' hq' hMem
      rw [map_cons, mem_cons, hKey] at hMem
      exact hMem.resolve_left fun hEq => hq' (edgeKey_injective hEq)
    cases q with
    | enterWindow =>
      intro hMin
      obtain ⟨hNe, hMin'⟩ := hOther _ hMin
      obtain ⟨hMem, hLt⟩ := hHeld hMin'
      exact ⟨hLater _ hNe hMem, lt_of_lt_of_eq hLt (hOptionOf .enterMin hNe).symm⟩
    | enterMin =>
      intro hWindow
      obtain ⟨hNe, hWindow'⟩ := hOther _ hWindow
      obtain ⟨hMem, hLt⟩ := hHeld hWindow'
      exact ⟨hLater _ hNe hMem, lt_of_eq_of_lt (hOptionOf .enterWindow hNe) hLt⟩
    | _ => exact hHeld

/-- Two changes cannot both stand in each other's way. -/
theorem Sweeping.heldBack (h : Sweeping value T s (e :: es))
    (hFits : value .enterMin ≤ value .enterWindow) (hKey : e.1 = edgeKey p)
    (hNot : ¬ (s.options.set p e.2.from_).Consistent) : HeldBack s es p e.2.from_ := by
  have hGet : s.pending.get (edgeKey p) = some e.2 := hKey ▸ h.here e (by simp)
  have hSettled : s.options.enterMin ≤ s.options.enterWindow :=
    h.settled p _ (baseline_of_get hGet)
  have hValue := h.value_of_get hGet
  have hNodup := nodup_cons.mp (map_cons (f := Prod.fst) ▸ h.nodup)
  rw [consistent_set] at hNot
  cases p with
  | enterWindow =>
    simp only [if_true, reduceCtorEq, if_false, not_le] at hNot
    intro hMin
    obtain ⟨c, hc⟩ := get_of_baseline hMin
    refine ⟨?_, hNot⟩
    by_contra hNotLater
    have hNotCons : edgeKey .enterMin ∉ (e :: es).map Prod.fst := by
      rw [map_cons, mem_cons, hKey, not_or]
      exact ⟨fun hEq => absurd (edgeKey_injective hEq) (by decide), hNotLater⟩
    obtain ⟨_, hLt⟩ := (h.left _ c hc hNotCons).2 (by rw [baseline_of_get hGet]; simp)
    have hMinValue := h.value_of_get hc
    linarith
  | enterMin =>
    simp only [if_true, reduceCtorEq, if_false, not_le] at hNot
    intro hWindow
    obtain ⟨c, hc⟩ := get_of_baseline hWindow
    refine ⟨?_, hNot⟩
    by_contra hNotLater
    have hNotCons : edgeKey .enterWindow ∉ (e :: es).map Prod.fst := by
      rw [map_cons, mem_cons, hKey, not_or]
      exact ⟨fun hEq => absurd (edgeKey_injective hEq) (by decide), hNotLater⟩
    obtain ⟨_, hLt⟩ := (h.left _ c hc hNotCons).2 (by rw [baseline_of_get hGet]; simp)
    have hWindowValue := h.value_of_get hc
    linarith
  | seatRadiusCm | mergeCm | releaseMs | staleMs => exact hNot (by simpa using hSettled)

/-- The revert of the next change is refused. -/
theorem Sweeping.retried (h : Sweeping value T s (e :: es))
    (hFits : value .enterMin ≤ value .enterWindow) (hKey : e.1 = edgeKey p) {reason : String}
    (hSet : setOptions s.options p e.2.from_ = .error reason) {at_ : Int} (hAt : at_ ≤ T)
    (hPlaced : Placed p { e.2 with revertAt := at_ } s t) (hOptions : t.options = s.options) :
    Sweeping value T t es := by
  have hGet : s.pending.get (edgeKey p) = some e.2 := hKey ▸ h.here e (by simp)
  have hFixed := h.fixed p _ (baseline_of_get hGet)
  have hNodup := nodup_cons.mp (map_cons (f := Prod.fst) ▸ h.nodup)
  have hBaseline : ∀ q, t.baseline? q = s.baseline? q := by
    intro q
    rw [hPlaced.baseline]
    split
    · rename_i hq
      rw [hq, baseline_of_get hGet]
    · rfl
  have hHeldAt : ∀ q b, HeldBack s es q b → HeldBack t es q b := by
    intro q b hHeld
    cases q with
    | enterWindow =>
      intro hMin
      rw [hOptions]
      exact hHeld (hBaseline _ ▸ hMin)
    | enterMin =>
      intro hWindow
      rw [hOptions]
      exact hHeld (hBaseline _ ▸ hWindow)
    | _ => exact hHeld
  have hThis := h.heldBack hFits hKey (not_consistent hFixed hSet)
  refine ⟨hPlaced.tuning, fun q b hb => ?_, fun e' he' => ?_, hNodup.2, fun q => ?_,
    fun q b hb => h.fixed q b (hBaseline q ▸ hb), fun q c hc hNot => ?_⟩
  · rw [hOptions]
    exact h.settled q b (hBaseline q ▸ hb)
  · have hNe : e'.1 ≠ edgeKey p := by
      intro hEq
      refine hNodup.1 ?_
      rw [hKey, ← hEq]
      exact mem_map_of_mem he'
    rw [hPlaced.pending, if_neg hNe]
    exact h.here e' (mem_cons_of_mem e he')
  · rw [hBaseline, hOptions]
    exact h.kept q
  · rw [hPlaced.pending] at hc
    split at hc
    · rename_i hk
      cases hc
      exact ⟨hAt, hHeldAt q _ (edgeKey_injective hk ▸ hThis)⟩
    · rename_i hk
      have hNotCons : edgeKey q ∉ (e :: es).map Prod.fst := by
        rw [map_cons, mem_cons, hKey, not_or]
        exact ⟨hk, hNot⟩
      obtain ⟨hAtq, hHeld⟩ := h.left q c hc hNotCons
      refine ⟨hAtq, hHeldAt q _ ?_⟩
      -- What held `q` back was `p`, which waits for `q` in its turn.
      cases q with
      | enterWindow =>
        intro hMin
        obtain ⟨hMem, hLt⟩ := hHeld hMin
        refine ⟨?_, hLt⟩
        rcases mem_cons.mp (map_cons (f := Prod.fst) ▸ hMem) with hEq | hMem
        · obtain rfl : EdgeParam.enterMin = p := edgeKey_injective (hEq.trans hKey)
          exact absurd (hThis (by rw [baseline_of_get hc]; simp)).1 hNot
        · exact hMem
      | enterMin =>
        intro hWindow
        obtain ⟨hMem, hLt⟩ := hHeld hWindow
        refine ⟨?_, hLt⟩
        rcases mem_cons.mp (map_cons (f := Prod.fst) ▸ hMem) with hEq | hMem
        · obtain rfl : EdgeParam.enterWindow = p := edgeKey_injective (hEq.trans hKey)
          exact absurd (hThis (by rw [baseline_of_get hc]; simp)).1 hNot
        · exact hMem
      | _ => exact hHeld

theorem Sweeping.revert (h : Sweeping value T s (e :: es))
    (hFits : value .enterMin ≤ value .enterWindow) (hKey : e.1 = edgeKey p) (cfg : Config)
    {env : Env} (hAt : env.now + 5000 ≤ T) (uid : String) :
    Sweeping value T (revert cfg s env uid (.edge p)) es := by
  have hGet : s.pending.get (edgeKey p) = some e.2 := hKey ▸ h.here e (by simp)
  rcases revert_edge h.tuning cfg env uid p with ⟨hNone, _⟩ | ⟨c, hc, ⟨o, hSet, hGone, hOptions⟩ |
      ⟨reason, hSet, hPlaced, hOptions⟩⟩
  · rw [hGet] at hNone
    cases hNone
  · obtain rfl : e.2 = c := Option.some.inj (hGet.symm.trans hc)
    exact h.removed hKey hSet hGone hOptions
  · obtain rfl : e.2 = c := Option.some.inj (hGet.symm.trans hc)
    exact h.retried hFits hKey hSet hAt hPlaced hOptions

/-- After it at most one change is left. -/
theorem Sweeping.single (h : Sweeping value T s []) {q : EdgeParam} (hp : s.baseline? p ≠ none)
    (hq : s.baseline? q ≠ none) : p = q := by
  obtain ⟨c, hc⟩ := get_of_baseline hp
  obtain ⟨c', hc'⟩ := get_of_baseline hq
  have hHeld := (h.left p c hc (by simp)).2
  have hHeld' := (h.left q c' hc' (by simp)).2
  cases p with
  | enterWindow =>
    cases q with
    | enterWindow => rfl
    | enterMin => simpa using (hHeld hq).1
    | _ => exact absurd hHeld' id
  | enterMin =>
    cases q with
    | enterWindow => simpa using (hHeld hq).1
    | enterMin => rfl
    | _ => exact absurd hHeld' id
  | _ => exact absurd hHeld id

theorem Sweeping.entries (h : Sweeping value T s []) :
    s.pending.entries = [] ∨ ∃ p c, s.pending.entries = [(edgeKey p, c)] := by
  have hAll : ∀ e ∈ s.pending.entries, ∃ p, e.1 = edgeKey p ∧ s.baseline? p ≠ none := by
    intro e he
    obtain ⟨p, hKey, _⟩ := mem_entries_edge h.tuning he
    refine ⟨p, hKey, ?_⟩
    rw [baseline_of_get (hKey ▸ get_eq_some_iff.mpr he)]
    simp
  have hNodup := s.pending.nodup
  match hEntries : s.pending.entries with
  | [] => exact Or.inl rfl
  | [e] =>
    rw [hEntries] at hAll
    obtain ⟨p, hKey, _⟩ := hAll e (by simp)
    exact Or.inr ⟨p, e.2, by rw [← hKey]⟩
  | e :: e' :: es =>
    rw [hEntries] at hAll hNodup
    obtain ⟨p, hKey, hp⟩ := hAll e (by simp)
    obtain ⟨q, hKey', hq⟩ := hAll e' (by simp)
    have hSame : e.1 = e'.1 := by rw [hKey, hKey', h.single hp hq]
    simp [hSame] at hNodup

/-- Alone, a change is put back. -/
theorem Sweeping.consistent (h : Sweeping value T s [])
    (hFits : value .enterMin ≤ value .enterWindow) (hGet : s.pending.get (edgeKey p) = some c) :
    (s.options.set p c.from_).Consistent := by
  have hSettled : s.options.enterMin ≤ s.options.enterWindow :=
    h.settled p _ (baseline_of_get hGet)
  have hValue := h.value_of_get hGet
  have hAlone : ∀ q, q ≠ p → s.options.get q = value q := by
    intro q hq
    refine h.value_of_none ?_
    by_contra hPending
    exact hq (h.single hPending (by rw [baseline_of_get hGet]; simp))
  rw [consistent_set]
  cases p with
  | enterWindow =>
    have hMin : s.options.enterMin = value .enterMin := hAlone .enterMin (by decide)
    simp only [if_true, reduceCtorEq, if_false]
    rw [hMin, hValue]
    exact hFits
  | enterMin =>
    have hWindow : s.options.enterWindow = value .enterWindow := hAlone .enterWindow (by decide)
    simp only [if_true, reduceCtorEq, if_false]
    rw [hWindow, hValue]
    exact hFits
  | seatRadiusCm | mergeCm | releaseMs | staleMs => simpa using hSettled

/-- A further sweep puts it back, once it is due. -/
theorem Sweeping.sweep (h : Sweeping value T s []) (hFits : value .enterMin ≤ value .enterWindow)
    (cfg : Config) (now : Int) (env : Key → Env) :
    Sweeping value T (sweep cfg s now env) [] ∧
      (T ≤ now → ∀ p, (sweep cfg s now env).baseline? p = none) := by
  rcases h.entries with hNone | ⟨p, c, hOne⟩
  · have hSweep : System.sweep cfg s now env = s := by
      unfold System.sweep
      rw [hNone]
      rfl
    rw [hSweep]
    refine ⟨h, fun _ p => ?_⟩
    unfold baseline? JsMap.get
    rw [hNone]
    rfl
  · have hMem : (edgeKey p, c) ∈ s.pending.entries := by
      rw [hOne]
      simp
    have hGet : s.pending.get (edgeKey p) = some c := get_eq_some_iff.mpr hMem
    obtain ⟨q, hKey, hParam⟩ := mem_entries_edge h.tuning hMem
    obtain rfl : p = q := edgeKey_injective hKey
    have hSweep : System.sweep cfg s now env =
        if now < c.revertAt then s
        else System.revert cfg s (env (edgeKey p)) c.uid (.edge p) := by
      unfold System.sweep
      rw [hOne]
      have hEdge : c.param = .edge p := hParam
      simp [JsMap.has, h.tuning.idle, hEdge]
    have hAt := (h.left p c hGet (by simp)).1
    rw [hSweep]
    split
    · exact ⟨h, fun hLate => by omega⟩
    · have hConsistent := h.consistent hFits hGet
      have hFixed := h.fixed p _ (baseline_of_get hGet)
      have hSet : setOptions s.options p c.from_ = .ok (s.options.set p (settle p c.from_)) :=
        setOptions_ok.mpr ⟨rfl, hFixed.symm ▸ hConsistent⟩
      obtain ⟨hGone, hOptions⟩ := revert_removes cfg h.tuning hGet hSet
        (env (edgeKey p)) c.uid
      have hEmpty : ∀ q, (System.revert cfg s (env (edgeKey p)) c.uid (.edge p)).baseline? q =
          none := by
        intro q
        rw [hGone.baseline]
        split
        · rfl
        · rename_i hq
          by_contra hPending
          exact hq (h.single hPending (by rw [baseline_of_get hGet]; simp))
      refine ⟨⟨hGone.tuning, fun q b hb => ?_, by simp, by simp, fun q => ?_, fun q b hb => ?_,
        fun q c' hc' => ?_⟩, fun _ => hEmpty⟩
      · rw [hEmpty] at hb
        cases hb
      · rw [hEmpty, hOptions, hFixed, get_set]
        by_cases hq : q = p
        · rw [if_pos hq, h.value_of_get hGet, hq]
          rfl
        · rw [if_neg hq]
          refine h.value_of_none ?_
          by_contra hPending
          exact hq (h.single hPending (by rw [baseline_of_get hGet]; simp))
      · rw [hEmpty] at hb
        cases hb
      · have hSome := baseline_of_get hc'
        rw [hEmpty] at hSome
        cases hSome

end Sweeping

/-! ## The settings come back -/

section Examples

def calmEnv (now : Int) : Env := ⟨now, .ok, .ok, .ok⟩

end Examples

def narrow : List Event :=
  [.apply (calmEnv 0) "0a:1b:2c:3d:4e:5f" "n1" (.edge .seatRadiusCm) 80]

end System

end TMEdge.Params
