import TMEdge.Commands.Answered

/-!
# One verdict a command

* `verdicts`: the terminal rows of a command.
* `live`: the outcome of a command is still to come from its call, from the map of pending
  commands or from a deferred write.
* `Undisturbed`: the statement that marks commands uncertain judges no live one.
* `Owned.step`: undisturbed steps keep at most one verdict a command, because what is still
  to be written has one source.
* `outcomes_durable`: acknowledgements over every run, single verdicts over undisturbed
  ones, and that a mark leaves no command without one.
* `judged_twice`: a shutdown behind an acknowledgement that is not written yet.
-/

namespace TMEdge.Commands

open Library List JsMap

/-! ## Definitions -/

def verdicts (rows : List OutcomeRow) (n : Nat) : List OutcomeRow :=
  rows.filter fun r => r.id = n ∧ r.outcome.terminal

def live (s : Outcomes) (n : Nat) : Bool :=
  (s.calls[n]?).any (fun c => decide (c.stage ≠ .finished)) ||
    s.pending.values.any (fun item => decide (item.id = n)) ||
    s.deferred.any fun d => decide (d.item.id = n ∧ d.status ≠ .over)

/-- The statement of the shutdown and of the startup gives a verdict to no live command. -/
def Undisturbed (s : Outcomes) : OutcomeEvent → Prop
  | .carryOutMark i => (s.marks[i]?).any (fun m => !m.carried) = true →
      ∀ r ∈ s.rows, verdicts s.rows r.id = [] → live s r.id = false
  | _ => True

instance (s : Outcomes) (e : OutcomeEvent) : Decidable (Undisturbed s e) :=
  match e with
  | .carryOutMark _ => inferInstanceAs (Decidable (_ → ∀ r ∈ s.rows, _ → _))
  | .send _ _ _ _ | .carryOut _ | .answer _ _ _ _ | .dispatched _ _ _ | .observeStatus _ _ _ _
  | .ackTimer _ _ | .runDeferred _ _ | .carryOutDeferred _ | .finishDeferred _ | .dispose _
  | .initialize_ _ | .restart => isTrue trivial

structure Owned (s : Outcomes) : Prop where
  known : ∀ r ∈ s.rows, r.id < s.calls.length
  single : ∀ n, (verdicts s.rows n).length ≤ 1
  calls : ∀ (n : Nat) c, s.calls[n]? = some c → c.stage ≠ .finished →
    (∀ key item, s.pending.get key = some item → item.id ≠ n) ∧
      (∀ d ∈ s.deferred, d.item.id ≠ n) ∧
      ∀ r ∈ verdicts s.rows n, ∃ at_, c.stage = .closing r.outcome at_
  closing : ∀ (n : Nat) c outcome at_, s.calls[n]? = some c → c.stage = .closing outcome at_ →
    outcome.terminal = true
  pending : ∀ key item, s.pending.get key = some item →
    verdicts s.rows item.id = [] ∧ ∀ d ∈ s.deferred, d.item.id ≠ item.id
  deferred : ∀ d ∈ s.deferred, d.outcome.terminal = true ∧
    (∃ c, s.calls[d.item.id]? = some c ∧ c.stage = .finished) ∧
      (d.status ≠ .over → ∀ r ∈ verdicts s.rows d.item.id, r.outcome = d.outcome)
  distinct : (s.deferred.map fun d => d.item.id).Nodup

variable {s : Outcomes} {n : Nat} {c c' : Call} {rows : List OutcomeRow} {row r : OutcomeRow}

/-! ## Verdicts -/

theorem mem_verdicts : r ∈ verdicts rows n ↔ r ∈ rows ∧ r.id = n ∧ r.outcome.terminal = true := by
  unfold verdicts
  rw [mem_filter, decide_eq_true_eq]

theorem verdicts_append (rows rows' : List OutcomeRow) (n : Nat) :
    verdicts (rows ++ rows') n = verdicts rows n ++ verdicts rows' n :=
  filter_append ..

/-- A row of another command, or of no verdict, leaves the verdicts alone. -/
theorem verdicts_insert_other (h : row.id = n → row.outcome.terminal = false) :
    verdicts (insertOutcome rows row) n = verdicts rows n := by
  unfold insertOutcome
  split
  · rfl
  · rw [verdicts_append]
    have hNone : verdicts [row] n = [] := by
      refine filter_eq_nil_iff.mpr fun r hr => ?_
      obtain rfl := mem_singleton.mp hr
      rw [decide_eq_true_eq]
      rintro ⟨hId, hTerminal⟩
      rw [h hId] at hTerminal
      cases hTerminal
    rw [hNone, append_nil]

/-- A verdict where there is none, or where it stands already. -/
theorem verdicts_insert_own (h : ∀ r ∈ verdicts rows row.id, r.outcome = row.outcome)
    (hTerminal : row.outcome.terminal = true) (hSingle : (verdicts rows row.id).length ≤ 1) :
    (verdicts (insertOutcome rows row) row.id).length ≤ 1 ∧
      ∀ r ∈ verdicts (insertOutcome rows row) row.id, r.outcome = row.outcome := by
  unfold insertOutcome
  split
  · exact ⟨hSingle, h⟩
  · rename_i hNew
    have hNone : verdicts rows row.id = [] := by
      refine eq_nil_iff_forall_not_mem.mpr fun r hr => hNew ?_
      obtain ⟨hMem, hId, _⟩ := mem_verdicts.mp hr
      exact any_eq_true.mpr ⟨r, hMem, by simpa using ⟨hId, h r hr⟩⟩
    have hOwn : verdicts [row] row.id = [row] := by simp [verdicts, hTerminal]
    rw [verdicts_append, hNone, nil_append, hOwn]
    refine ⟨le_rfl, fun r hr => ?_⟩
    rw [mem_singleton.mp hr]

/-! ## The mark -/

theorem latestRows_ids (rows : List OutcomeRow) :
    ((latestRows rows).map (·.id)).Nodup ∧ ∀ r ∈ rows, ∃ r' ∈ latestRows rows, r'.id = r.id := by
  induction rows with
  | nil => exact ⟨nodup_nil, nofun⟩
  | cons row rows ih =>
    obtain ⟨hNodup, hAll⟩ := ih
    have hEq : latestRows (row :: rows) = row :: (latestRows rows).filter (·.id ≠ row.id) := rfl
    rw [hEq]
    constructor
    · rw [map_cons, nodup_cons]
      refine ⟨fun hMem => ?_, hNodup.sublist (filter_sublist.map _)⟩
      obtain ⟨r, hr, hId⟩ := mem_map.mp hMem
      have hDiffers := (mem_filter.mp hr).2
      simp [hId] at hDiffers
    · intro r hr
      by_cases hId : r.id = row.id
      · exact ⟨row, mem_cons_self, hId.symm⟩
      · rcases mem_cons.mp hr with rfl | hr
        · exact absurd rfl hId
        · obtain ⟨r', hr', hId'⟩ := hAll r hr
          refine ⟨r', mem_cons_of_mem _ (mem_filter.mpr ⟨hr', ?_⟩), hId'⟩
          rw [decide_eq_true_eq, hId']
          exact hId

/-- The rows the mark adds. -/
def marked (rows : List OutcomeRow) (at_ : Int) : List OutcomeRow :=
  ((latestRows rows).filter fun r => !rows.any fun t => t.id = r.id ∧ t.outcome.terminal).map
    fun r => { r with outcome := .uncertain, at_ }

theorem any_terminal_iff : (rows.any fun t => t.id = n ∧ t.outcome.terminal) = true ↔
    verdicts rows n ≠ [] := by
  rw [any_eq_true]
  constructor
  · rintro ⟨r, hr, hTest⟩
    exact ne_nil_of_mem (mem_verdicts.mpr ⟨hr, of_decide_eq_true hTest⟩)
  · intro hSome
    obtain ⟨r, hr⟩ := exists_mem_of_ne_nil _ hSome
    exact ⟨r, (mem_verdicts.mp hr).1, decide_eq_true (mem_verdicts.mp hr).2⟩

theorem mem_marked {at_ : Int} (h : r ∈ marked rows at_) :
    verdicts rows r.id = [] ∧ ∃ r' ∈ rows, r'.id = r.id := by
  obtain ⟨r', hr', rfl⟩ := mem_map.mp h
  obtain ⟨hLatest, hNone⟩ := mem_filter.mp hr'
  refine ⟨?_, r', mem_latestRows hLatest, rfl⟩
  by_contra hSome
  rw [any_terminal_iff.mpr hSome] at hNone
  cases hNone

theorem length_verdicts_marked (rows : List OutcomeRow) (at_ : Int) (n : Nat) :
    (verdicts (marked rows at_) n).length ≤ 1 := by
  have hNodup : ((marked rows at_).map (·.id)).Nodup := by
    unfold marked
    rw [map_map]
    exact (latestRows_ids rows).1.sublist (filter_sublist.map _)
  have hOwn : ((verdicts (marked rows at_) n).map (·.id)).Nodup :=
    hNodup.sublist (filter_sublist.map _)
  match hList : verdicts (marked rows at_) n with
  | [] => exact Nat.zero_le _
  | [_] => exact le_rfl
  | a :: b :: _ =>
    have ha := (mem_verdicts.mp (hList ▸ mem_cons_self : a ∈ verdicts _ n)).2.1
    have hb := (mem_verdicts.mp
      (hList ▸ mem_cons_of_mem _ mem_cons_self : b ∈ verdicts _ n)).2.1
    rw [hList] at hOwn
    simp [ha, hb] at hOwn

/-- A command that has a verdict, or no row, is left alone by the mark. -/
theorem verdicts_mark_other (at_ : Int) (h : verdicts rows n ≠ [] ∨ ∀ r ∈ rows, r.id ≠ n) :
    verdicts (markInFlightUncertain rows at_) n = verdicts rows n := by
  have hEq : markInFlightUncertain rows at_ = rows ++ marked rows at_ := rfl
  rw [hEq, verdicts_append]
  have hNone : verdicts (marked rows at_) n = [] := by
    refine eq_nil_iff_forall_not_mem.mpr fun r hr => ?_
    obtain ⟨hMem, hId, _⟩ := mem_verdicts.mp hr
    obtain ⟨hEmpty, r', hr', hId'⟩ := mem_marked hMem
    rcases h with hSome | hNoRow
    · exact hSome (hId ▸ hEmpty)
    · exact hNoRow r' hr' (hId'.trans hId)
  rw [hNone, append_nil]

theorem length_verdicts_mark (at_ : Int) (h : (verdicts rows n).length ≤ 1) :
    (verdicts (markInFlightUncertain rows at_) n).length ≤ 1 := by
  by_cases hNone : verdicts rows n = []
  · have hEq : markInFlightUncertain rows at_ = rows ++ marked rows at_ := rfl
    rw [hEq, verdicts_append, hNone, nil_append]
    exact length_verdicts_marked rows at_ n
  · rw [verdicts_mark_other at_ (Or.inl hNone)]
    exact h

/-- The mark leaves no command that has a row without a verdict. -/
theorem verdicts_mark_ne_nil (at_ : Int) (h : r ∈ rows) :
    verdicts (markInFlightUncertain rows at_) r.id ≠ [] := by
  have hEq : markInFlightUncertain rows at_ = rows ++ marked rows at_ := rfl
  by_cases hNone : verdicts rows r.id = []
  · obtain ⟨r', hr', hId⟩ := (latestRows_ids rows).2 r h
    have hJudged : (!rows.any fun t => t.id = r'.id ∧ t.outcome.terminal) = true := by
      rw [Bool.not_eq_true', Bool.eq_false_iff]
      intro hAny
      exact any_terminal_iff.mp hAny (hId ▸ hNone)
    refine ne_nil_of_mem (a := { r' with outcome := .uncertain, at_ }) ?_
    refine mem_verdicts.mpr ⟨?_, hId, rfl⟩
    rw [hEq]
    exact mem_append_right _
      (mem_map.mpr ⟨r', mem_filter.mpr ⟨hr', hJudged⟩, rfl⟩)
  · rw [verdicts_mark_other at_ (Or.inl hNone)]
    exact hNone

/-! ## Rows and calls -/

/-- A terminal row is the outcome that is due. -/
structure Due (s : Outcomes) (row : OutcomeRow) : Prop where
  agrees : ∀ r ∈ verdicts s.rows row.id, r.outcome = row.outcome
  calls : ∀ c, s.calls[row.id]? = some c → c.stage ≠ .finished →
    ∃ at_, c.stage = .closing row.outcome at_
  pending : ∀ key item, s.pending.get key = some item → item.id ≠ row.id
  deferred : ∀ d ∈ s.deferred, d.item.id = row.id → d.status ≠ .over → d.outcome = row.outcome

theorem Owned.insert (h : Owned s) (hKnown : row.id < s.calls.length)
    (hDue : row.outcome.terminal = true → Due s row) :
    Owned { s with rows := insertOutcome s.rows row } := by
  have hOther : ∀ n, n ≠ row.id ∨ row.outcome.terminal = false →
      verdicts (insertOutcome s.rows row) n = verdicts s.rows n := by
    rintro n (hNe | hOpen)
    · exact verdicts_insert_other fun hId => absurd hId.symm hNe
    · exact verdicts_insert_other fun _ => hOpen
  have hOwn : row.outcome.terminal = true →
      (verdicts (insertOutcome s.rows row) row.id).length ≤ 1 ∧
        ∀ r ∈ verdicts (insertOutcome s.rows row) row.id, r.outcome = row.outcome :=
    fun hTerminal => verdicts_insert_own (hDue hTerminal).agrees hTerminal (h.single row.id)
  have hCases : ∀ n, (n = row.id ∧ row.outcome.terminal = true) ∨
      (n ≠ row.id ∨ row.outcome.terminal = false) := by
    intro n
    cases row.outcome.terminal with
    | true => exact (eq_or_ne n row.id).imp (fun hn => ⟨hn, rfl⟩) Or.inl
    | false => exact Or.inr (Or.inr rfl)
  refine ⟨fun r hr => ?_, fun n => ?_, fun n c hc hOpen => ?_, h.closing, fun key item hItem => ?_,
    fun d hd => ?_, h.distinct⟩
  · rcases mem_insertOutcome hr with hr | rfl
    · exact h.known r hr
    · exact hKnown
  · change (verdicts (insertOutcome s.rows row) n).length ≤ 1
    rcases hCases n with ⟨rfl, hTerminal⟩ | hn
    · exact (hOwn hTerminal).1
    · rw [hOther n hn]
      exact h.single n
  · obtain ⟨hPending, hDeferred, hVerdicts⟩ := h.calls n c hc hOpen
    refine ⟨hPending, hDeferred, ?_⟩
    change ∀ r ∈ verdicts (insertOutcome s.rows row) n, _
    rcases hCases n with ⟨rfl, hTerminal⟩ | hn
    · intro r hr
      rw [(hOwn hTerminal).2 r hr]
      exact (hDue hTerminal).calls c hc hOpen
    · rw [hOther n hn]
      exact hVerdicts
  · obtain ⟨hNone, hDeferred⟩ := h.pending key item hItem
    refine ⟨?_, hDeferred⟩
    change verdicts (insertOutcome s.rows row) item.id = []
    rcases hCases item.id with ⟨hId, hTerminal⟩ | hn
    · exact absurd hId ((hDue hTerminal).pending key item hItem)
    · rw [hOther _ hn]
      exact hNone
  · obtain ⟨hTerminalOutcome, hFinished, hVerdicts⟩ := h.deferred d hd
    refine ⟨hTerminalOutcome, hFinished, fun hOpen => ?_⟩
    change ∀ r ∈ verdicts (insertOutcome s.rows row) d.item.id, _
    rcases hCases d.item.id with ⟨hId, hTerminal⟩ | hn
    · rw [hId]
      intro r hr
      rw [(hOwn hTerminal).2 r hr]
      exact ((hDue hTerminal).deferred d hd hId hOpen).symm
    · rw [hOther _ hn]
      exact hVerdicts hOpen

theorem Owned.setCall (h : Owned s) (hc : s.calls[n]? = some c)
    (hOpen : c'.stage ≠ .finished → c.stage ≠ .finished)
    (hVerdicts : c'.stage ≠ .finished → ∀ r ∈ verdicts s.rows n,
      ∃ at_, c'.stage = .closing r.outcome at_)
    (hTerminal : ∀ outcome at_, c'.stage = .closing outcome at_ → outcome.terminal = true) :
    Owned (s.setCall n c') where
  known r hr := by
    change r.id < (s.calls.set n c').length
    rw [length_set]
    exact h.known r hr
  single := h.single
  calls i d hd hOpen' := by
    have hSet : (s.calls.set n c')[i]? = some d := hd
    rw [setCall_get s.calls hc] at hSet
    split at hSet
    · rename_i hi
      subst hi
      obtain rfl := Option.some.inj hSet
      obtain ⟨hPending, hDeferred, _⟩ := h.calls i c hc (hOpen hOpen')
      exact ⟨hPending, hDeferred, hVerdicts hOpen'⟩
    · exact h.calls i d hSet hOpen'
  closing i d outcome at_ hd hStage := by
    have hSet : (s.calls.set n c')[i]? = some d := hd
    rw [setCall_get s.calls hc] at hSet
    split at hSet
    · obtain rfl := Option.some.inj hSet
      exact hTerminal outcome at_ hStage
    · exact h.closing i d outcome at_ hSet hStage
  pending := h.pending
  deferred d hd := by
    obtain ⟨hOutcome, ⟨c₀, hc₀, hStage⟩, hRest⟩ := h.deferred d hd
    refine ⟨hOutcome, ?_, hRest⟩
    change ∃ c₁, (s.calls.set n c')[d.item.id]? = some c₁ ∧ c₁.stage = .finished
    rw [setCall_get s.calls hc]
    split
    · rename_i hi
      rw [hi, hc] at hc₀
      obtain rfl := Option.some.inj hc₀
      refine ⟨c', rfl, ?_⟩
      by_contra hStage'
      exact hOpen hStage' hStage
    · exact ⟨c₀, hc₀, hStage⟩
  distinct := h.distinct

/-- A call that has no outcome yet has no verdict. -/
theorem Owned.no_verdict (h : Owned s) (hc : s.calls[n]? = some c) (hOpen : c.stage ≠ .finished)
    (hNotClosing : ∀ outcome at_, c.stage ≠ .closing outcome at_) : verdicts s.rows n = [] := by
  refine eq_nil_iff_forall_not_mem.mpr fun r hr => ?_
  obtain ⟨at_, hStage⟩ := (h.calls n c hc hOpen).2.2 r hr
  exact hNotClosing _ _ hStage

theorem Owned.close (h : Owned s) (hc : s.calls[n]? = some c) (hOpen : c.stage ≠ .finished)
    (hNotClosing : ∀ outcome at_, c.stage ≠ .closing outcome at_) {outcome : CommandOutcome}
    (hTerminal : outcome.terminal = true) (now : Int) : Owned (s.close n c outcome now) := by
  refine h.setCall hc (fun _ => hOpen) (fun _ r hr => ?_) fun outcome' at_ hStage => ?_
  · rw [h.no_verdict hc hOpen hNotClosing] at hr
    cases hr
  · cases hStage
    exact hTerminal

theorem Owned.finish (h : Owned s) (hc : s.calls[n]? = some c) : Owned (s.finish n c) :=
  h.setCall hc (fun hOpen => absurd rfl hOpen) (fun hOpen => absurd rfl hOpen)
    fun _ _ hStage => nomatch hStage

theorem Owned.await (h : Owned s) (hc : s.calls[n]? = some c) (hOpen : c.stage ≠ .finished)
    (hNotClosing : ∀ outcome at_, c.stage ≠ .closing outcome at_) (sequence : Nat) :
    Owned (s.await n c sequence) := by
  have hFinish := h.finish hc
  have hNone := h.no_verdict hc hOpen hNotClosing
  have hNotDeferred := (h.calls n c hc hOpen).2.1
  have hGet : ∀ key item, (s.await n c sequence).pending.get key = some item →
      item.id = n ∨ s.pending.get key = some item := by
    intro key item hItem
    have hItem' : (s.pending.set (c.command.uid, sequence) _).get key = some item := hItem
    rw [get_set] at hItem'
    split at hItem'
    · obtain rfl := Option.some.inj hItem'
      exact Or.inl rfl
    · exact Or.inr hItem'
  refine ⟨hFinish.known, hFinish.single, fun i d hd hOpen' => ?_, hFinish.closing,
    fun key item hItem => ?_, hFinish.deferred, hFinish.distinct⟩
  · obtain ⟨hPending, hRest⟩ := hFinish.calls i d hd hOpen'
    refine ⟨fun key item hItem hId => ?_, hRest⟩
    rcases hGet key item hItem with hn | hItem
    · have hSet : (s.calls.set n _)[i]? = some d := hd
      rw [setCall_get s.calls hc, if_pos (hId.symm.trans hn)] at hSet
      obtain rfl := Option.some.inj hSet
      exact hOpen' rfl
    · exact hPending key item hItem hId
  · rcases hGet key item hItem with hn | hItem
    · rw [hn]
      exact ⟨hNone, hNotDeferred⟩
    · exact hFinish.pending key item hItem

theorem Owned.afterSent (h : Owned s) (hc : s.calls[n]? = some c) (hOpen : c.stage ≠ .finished)
    (hNotClosing : ∀ outcome at_, c.stage ≠ .closing outcome at_) (sequence : Nat) (now : Int) :
    Owned (s.afterSent n c sequence now) := by
  unfold Outcomes.afterSent
  split
  · exact h.await hc hOpen hNotClosing sequence
  split
  · exact h.close hc hOpen hNotClosing rfl now
  split
  · have hForgotten : Owned { s with recentStatus := s.recentStatus.delete c.command.uid } :=
      ⟨h.known, h.single, h.calls, h.closing, h.pending, h.deferred, h.distinct⟩
    exact hForgotten.close hc hOpen hNotClosing rfl now
  · exact h.await hc hOpen hNotClosing sequence

/-! ## Steps of the calls -/

theorem Owned.send (h : Owned s) (command : NodeCommand) (actor : Actor) (boot : Option Nat)
    (now : Int) (hWaiting : ∀ key item, s.pending.get key = some item → Waiting s.calls key item) :
    Owned (s.send command actor boot now) := by
  unfold Outcomes.send
  split
  · exact h
  split
  · exact h
  dsimp only
  set call : Call := _
  have hOld : ∀ (i : Nat) d, s.calls[i]? = some d → (s.calls ++ [call])[i]? = some d := by
    intro i d hd
    rw [getElem?_append_left (List.getElem?_eq_some_iff.mp hd).1, hd]
  have hNew : ∀ (i : Nat) d, (s.calls ++ [call])[i]? = some d →
      s.calls[i]? = some d ∨ (i = s.calls.length ∧ d = call) := by
    intro i d hd
    rcases Nat.lt_or_ge i s.calls.length with hi | hi
    · rw [getElem?_append_left hi] at hd
      exact Or.inl hd
    · rw [getElem?_append_right hi, getElem?_singleton] at hd
      split at hd
      · exact Or.inr ⟨by omega, (Option.some.inj hd).symm⟩
      · cases hd
  have hBelow : ∀ {i : Nat} {d : Call}, s.calls[i]? = some d → i ≠ s.calls.length := by
    intro i d hd
    exact Nat.ne_of_lt (List.getElem?_eq_some_iff.mp hd).1
  refine ⟨fun r hr => ?_, h.single, fun i d hd hOpen => ?_, fun i d outcome at_ hd hStage => ?_,
    h.pending, fun d hd => ?_, h.distinct⟩
  · have hLt := h.known r hr
    change r.id < (s.calls ++ [call]).length
    rw [length_append]
    omega
  · rcases hNew i d hd with hd | ⟨rfl, rfl⟩
    · exact h.calls i d hd hOpen
    · refine ⟨fun key item hItem hId => ?_, fun d hd hId => ?_, fun r hr => ?_⟩
      · obtain ⟨c, hc, _⟩ := hWaiting key item hItem
        exact hBelow hc hId
      · obtain ⟨_, ⟨c, hc, _⟩, _⟩ := h.deferred d hd
        exact hBelow hc hId
      · obtain ⟨hMem, hId, _⟩ := mem_verdicts.mp hr
        exact absurd hId (Nat.ne_of_lt (h.known r hMem))
  · rcases hNew i d hd with hd | ⟨_, rfl⟩
    · exact h.closing i d outcome at_ hd hStage
    · cases hStage
  · obtain ⟨hOutcome, ⟨c, hc, hStage⟩, hRest⟩ := h.deferred d hd
    exact ⟨hOutcome, ⟨c, hOld _ c hc, hStage⟩, hRest⟩

theorem Owned.carryOut (h : Owned s) (n : Nat) : Owned (s.carryOut n) := by
  unfold Outcomes.carryOut
  split
  · exact h
  rename_i c hc
  split
  · exact h
  split
  · exact h
  rename_i row hRow
  dsimp only
  set done : Bool := decide (row ∈ insertOutcome s.rows row)
  obtain ⟨rfl, hOutcome⟩ := row_spec hRow
  have hOpen : c.stage ≠ .finished := by
    rcases hOutcome with ⟨hOpen, _⟩ | ⟨at_, hStage⟩
    · exact hOpen
    · rw [hStage]
      exact nofun
  obtain ⟨hPending, hDeferred, hVerdicts⟩ := h.calls _ c hc hOpen
  have hSet : Owned (s.setCall row.id { c with done }) :=
    h.setCall hc (fun _ => hOpen) (fun _ => hVerdicts) fun outcome at_ =>
      h.closing _ c outcome at_ hc
  refine hSet.insert ?_ fun hTerminal => ⟨fun r hr => ?_, fun c' hc' _ => ?_, hPending,
    fun d hd hId => absurd hId (hDeferred d hd)⟩
  · change row.id < (s.calls.set row.id _).length
    rw [length_set]
    exact (List.getElem?_eq_some_iff.mp hc).1
  · obtain ⟨at_, hStage⟩ := hVerdicts r hr
    rcases hOutcome with ⟨_, hNot⟩ | ⟨at', hStage'⟩
    · rw [hTerminal] at hNot
      cases hNot
    · rw [hStage] at hStage'
      exact (Stage.closing.inj hStage').1
  · have hSet' : (s.calls.set row.id { c with done })[row.id]? = some c' := hc'
    rw [setCall_get s.calls hc, if_pos rfl] at hSet'
    obtain rfl := Option.some.inj hSet'
    rcases hOutcome with ⟨_, hNot⟩ | hStage
    · rw [hTerminal] at hNot
      cases hNot
    · exact hStage

theorem Owned.answer (h : Owned s) (n : Nat) (ok authorized : Bool) (now : Int) :
    Owned (s.answer n ok authorized now) := by
  unfold Outcomes.answer
  split
  · exact h
  rename_i c hc
  split
  · exact h
  split
  · rename_i hStage
    have hOpen : c.stage ≠ .finished := by simp [hStage]
    have hNotClosing : ∀ outcome at_, c.stage ≠ .closing outcome at_ := by simp [hStage]
    split
    · split
      · refine h.setCall hc (fun _ => hOpen) (fun _ r hr => ?_) fun _ _ hClosing => nomatch hClosing
        rw [h.no_verdict hc hOpen hNotClosing] at hr
        cases hr
      · exact h.close hc hOpen hNotClosing rfl now
    · exact h.finish hc
  · rename_i hStage
    have hOpen : c.stage ≠ .finished := by simp [hStage]
    have hNotClosing : ∀ outcome at_, c.stage ≠ .closing outcome at_ := by simp [hStage]
    split
    · exact h.afterSent hc hOpen hNotClosing _ now
    · exact h.close hc hOpen hNotClosing rfl now
  · exact h.finish hc
  · exact h

theorem Owned.dispatched (h : Owned s) (n : Nat) (outcome : Option Nat) (now : Int) :
    Owned (s.dispatched n outcome now) := by
  unfold Outcomes.dispatched
  split
  · exact h
  rename_i c hc
  split
  · rename_i hStage
    have hOpen : c.stage ≠ .finished := by simp [hStage]
    refine h.setCall hc (fun _ => hOpen) (fun _ r hr => ?_) fun _ _ hClosing => nomatch hClosing
    rw [h.no_verdict hc hOpen (by simp [hStage])] at hr
    cases hr
  · rename_i hStage
    exact h.close hc (by simp [hStage]) (by simp [hStage]) rfl now
  · exact h

/-! ## Observing and deferring -/

/-- What waits in the map becomes a deferred write. -/
theorem Owned.take (h : Owned s)
    (hWaiting : ∀ key item, s.pending.get key = some item → Waiting s.calls key item) {key : Key}
    {item : PendingCommand} (hItem : s.pending.get key = some item) {outcome : CommandOutcome}
    (hTerminal : outcome.terminal = true) (status : DeferredStatus) (armed : List (Nat × Key)) :
    Owned { s with
      pending := s.pending.delete key
      armed
      deferred := s.deferred ++ [⟨item, outcome, status⟩] } := by
  obtain ⟨hNone, hNotDeferred⟩ := h.pending key item hItem
  obtain ⟨c₀, hc₀, hStage₀, hSequence₀, hCommand₀, -, hUid₀⟩ := hWaiting key item hItem
  have hOther : ∀ key' item', (s.pending.delete key).get key' = some item' →
      s.pending.get key' = some item' ∧ item'.id ≠ item.id := by
    intro key' item' hItem'
    refine ⟨get_of_get_delete hItem', fun hId => ?_⟩
    obtain ⟨c₁, hc₁, -, hSequence₁, hCommand₁, -, hUid₁⟩ :=
      hWaiting key' item' (get_of_get_delete hItem')
    rw [hId, hc₀] at hc₁
    obtain rfl := Option.some.inj hc₁
    -- one call waits under one key
    have hKey : key' = key := by
      refine Prod.ext ?_ (Option.some.inj (hSequence₁.symm.trans hSequence₀))
      rw [← hUid₁, ← hUid₀, ← hCommand₁, ← hCommand₀]
    rw [get_delete, if_pos hKey] at hItem'
    cases hItem'
  refine ⟨h.known, h.single, fun n c hc hOpen => ?_, h.closing, fun key' item' hItem' => ?_,
    fun d hd => ?_, ?_⟩
  · obtain ⟨hPending, hDeferred, hVerdicts⟩ := h.calls n c hc hOpen
    refine ⟨fun key' item' hItem' => hPending key' item' (hOther key' item' hItem').1,
      fun d hd => ?_, hVerdicts⟩
    rcases mem_append.mp hd with hd | hd
    · exact hDeferred d hd
    · obtain rfl := mem_singleton.mp hd
      exact hPending key item hItem
  · obtain ⟨hOld, hNe⟩ := hOther key' item' hItem'
    obtain ⟨hNone', hNotDeferred'⟩ := h.pending key' item' hOld
    refine ⟨hNone', fun d hd => ?_⟩
    rcases mem_append.mp hd with hd | hd
    · exact hNotDeferred' d hd
    · obtain rfl := mem_singleton.mp hd
      exact hNe.symm
  · rcases mem_append.mp hd with hd | hd
    · exact h.deferred d hd
    · obtain rfl := mem_singleton.mp hd
      refine ⟨hTerminal, ⟨c₀, hc₀, hStage₀⟩, fun _ r hr => ?_⟩
      have hr' : r ∈ verdicts s.rows item.id := hr
      rw [hNone] at hr'
      cases hr'
  · rw [map_append, nodup_append]
    refine ⟨h.distinct, nodup_singleton _, fun i hi j hj => ?_⟩
    obtain ⟨d, hd, rfl⟩ := mem_map.mp hi
    obtain rfl := mem_singleton.mp hj
    exact hNotDeferred d hd

/-- An entry of the loop that is still in the map. -/
theorem Owned.rebootOne (h : Owned s)
    (hWaiting : ∀ key item, s.pending.get key = some item → Waiting s.calls key item)
    (uid : Text) (observation : Option (Nat × Int)) {entry : Key × PendingCommand}
    (hEntry : s.pending.get entry.1 = some entry.2) :
    Owned (Outcomes.rebootOne uid observation s entry) := by
  unfold Outcomes.rebootOne
  split
  · split
    · exact h.take hWaiting hEntry rfl .queued _
    · exact h
  · exact h

/-- Whether the loop takes an entry or leaves it, the others stay. -/
theorem rebootOne_frame (uid : Text) (observation : Option (Nat × Int))
    (entry : Key × PendingCommand) :
    (Outcomes.rebootOne uid observation s entry).calls = s.calls ∧
      ∀ key, (Outcomes.rebootOne uid observation s entry).pending.get key = s.pending.get key ∨
        (key = entry.1 ∧
          (Outcomes.rebootOne uid observation s entry).pending.get key = none) := by
  unfold Outcomes.rebootOne
  split
  · split
    · refine ⟨rfl, fun key => ?_⟩
      change (s.pending.delete entry.1).get key = _ ∨
        (_ ∧ (s.pending.delete entry.1).get key = none)
      rw [get_delete]
      split
      · rename_i hKey
        exact Or.inr ⟨hKey, rfl⟩
      · exact Or.inl rfl
    · exact ⟨rfl, fun _ => Or.inl rfl⟩
  · exact ⟨rfl, fun _ => Or.inl rfl⟩

theorem Owned.rebootAll (uid : Text) (observation : Option (Nat × Int))
    {entries : List (Key × PendingCommand)} (hNodup : (entries.map Prod.fst).Nodup) (h : Owned s)
    (hWaiting : ∀ key item, s.pending.get key = some item → Waiting s.calls key item)
    (hEntries : ∀ e ∈ entries, s.pending.get e.1 = some e.2) :
    Owned (entries.foldl (Outcomes.rebootOne uid observation) s) ∧
      ∀ key item,
        (entries.foldl (Outcomes.rebootOne uid observation) s).pending.get key = some item →
          Waiting (entries.foldl (Outcomes.rebootOne uid observation) s).calls key item := by
  induction entries generalizing s with
  | nil => exact ⟨h, hWaiting⟩
  | cons entry entries ih =>
    rw [map_cons, nodup_cons] at hNodup
    obtain ⟨hCalls, hGet⟩ := rebootOne_frame (s := s) uid observation entry
    refine ih hNodup.2
      (h.rebootOne hWaiting uid observation (hEntries entry mem_cons_self))
      (fun key item hItem => ?_) fun e he => ?_
    · rw [hCalls]
      rcases hGet key with hSame | ⟨_, hNone⟩
      · exact hWaiting key item (hSame ▸ hItem)
      · rw [hNone] at hItem
        cases hItem
    · rcases hGet e.1 with hSame | ⟨hKey, _⟩
      · rw [hSame]
        exact hEntries e (mem_cons_of_mem _ he)
      · exact absurd (hKey ▸ mem_map_of_mem he) hNodup.1

theorem Owned.observeStatus (h : Owned s)
    (hWaiting : ∀ key item, s.pending.get key = some item → Waiting s.calls key item)
    (uid : Text) (lastCommand : Nat) (observation : Option (Nat × Int)) (now : Int) :
    Owned (s.observeStatus uid lastCommand observation now) := by
  unfold Outcomes.observeStatus
  dsimp only
  set t : Outcomes := { s with
    recentStatus := _
    generation := _
    heard := _ }
  have ht : Owned t :=
    ⟨h.known, h.single, h.calls, h.closing, h.pending, h.deferred, h.distinct⟩
  obtain ⟨hAll, hAllWaiting⟩ := ht.rebootAll uid observation t.pending.nodup hWaiting
    fun e he => get_eq_some_iff.mpr he
  unfold Outcomes.acknowledge
  split
  · exact hAll
  rename_i item hItem
  split
  · exact hAll
  refine hAll.take hAllWaiting hItem ?_ .queued _
  split <;> rfl

theorem Owned.ackTimer (h : Owned s)
    (hWaiting : ∀ key item, s.pending.get key = some item → Waiting s.calls key item)
    (n : Nat) (now : Int) : Owned (s.ackTimer n now) := by
  unfold Outcomes.ackTimer
  split
  · exact h
  dsimp only
  split
  · exact ⟨h.known, h.single, h.calls, h.closing, h.pending, h.deferred, h.distinct⟩
  · rename_i hItem
    exact h.take hWaiting hItem rfl (.writing now) _

theorem Owned.setDeferred (h : Owned s) {i : Nat} {d : Deferred} (hd : s.deferred[i]? = some d)
    {status : DeferredStatus} (hOver : d.status = .over → status = .over) :
    Owned (s.setDeferred i d status) := by
  have hMap : (s.setDeferred i d status).deferred.map (fun d => d.item.id) =
      s.deferred.map fun d => d.item.id := by
    change (s.deferred.set i { d with status }).map (fun d => d.item.id) = _
    rw [map_set]
    refine ext_getElem? fun j => ?_
    rw [getElem?_set]
    split
    · rename_i hj
      subst hj
      have hi := (List.getElem?_eq_some_iff.mp hd).1
      rw [getElem?_map, hd, length_map, if_pos hi]
      rfl
    · rfl
  have hIds : ∀ d' ∈ (s.setDeferred i d status).deferred,
      ∃ d₀ ∈ s.deferred, d₀.item = d'.item ∧ d₀.outcome = d'.outcome ∧
        (d'.status ≠ .over → d₀.status ≠ .over) := by
    intro d' hd'
    rcases mem_or_eq_of_mem_set hd' with hd' | rfl
    · exact ⟨d', hd', rfl, rfl, fun hOpen => hOpen⟩
    · exact ⟨d, mem_of_getElem? hd, rfl, rfl, fun hOpen hEq => hOpen (hOver hEq)⟩
  refine ⟨h.known, h.single, fun n c hc hOpen => ?_, h.closing, fun key item hItem => ?_,
    fun d' hd' => ?_, hMap ▸ h.distinct⟩
  · obtain ⟨hPending, hDeferred, hVerdicts⟩ := h.calls n c hc hOpen
    refine ⟨hPending, fun d' hd' => ?_, hVerdicts⟩
    obtain ⟨d₀, hd₀, hItem, _⟩ := hIds d' hd'
    exact hItem ▸ hDeferred d₀ hd₀
  · obtain ⟨hNone, hDeferred⟩ := h.pending key item hItem
    refine ⟨hNone, fun d' hd' => ?_⟩
    obtain ⟨d₀, hd₀, hItem, _⟩ := hIds d' hd'
    exact hItem ▸ hDeferred d₀ hd₀
  · obtain ⟨d₀, hd₀, hItem, hOutcome, hStatus⟩ := hIds d' hd'
    obtain ⟨hTerminal, hFinished, hVerdicts⟩ := h.deferred d₀ hd₀
    rw [hItem] at hFinished hVerdicts
    rw [hOutcome] at hTerminal hVerdicts
    exact ⟨hTerminal, hFinished, fun hOpen => hVerdicts (hStatus hOpen)⟩

theorem Owned.carryOutDeferred (h : Owned s) (i : Nat) : Owned (s.carryOutDeferred i) := by
  unfold Outcomes.carryOutDeferred
  split
  · rename_i d hd
    split
    · rename_i at_ hStatus
      have hMem := mem_of_getElem? hd
      obtain ⟨_, ⟨c, hc, hStage⟩, hVerdicts⟩ := h.deferred d hMem
      refine h.insert (List.getElem?_eq_some_iff.mp hc).1 fun _ =>
        ⟨hVerdicts (by simp [hStatus]), fun c' hc' hOpen => ?_,
          fun key item hItem hId => (h.pending key item hItem).2 d hMem hId.symm,
          fun d' hd' hId _ => ?_⟩
      · have hSame : s.calls[d.item.id]? = some c' := hc'
        rw [hc] at hSame
        obtain rfl := Option.some.inj hSame
        exact absurd hStage hOpen
      · rw [inj_on_of_nodup_map h.distinct hd' hMem hId]
        rfl
    · exact h
  · exact h

/-! ## The mark and the restart -/

theorem live_call (hc : s.calls[n]? = some c) (hOpen : c.stage ≠ .finished) : live s n = true := by
  unfold live
  rw [hc]
  simp [hOpen]

theorem live_pending {key : Key} {item : PendingCommand} (h : s.pending.get key = some item) :
    live s item.id = true := by
  have hMem : item ∈ s.pending.values := mem_values_iff.mpr ⟨key, h⟩
  unfold live
  rw [Bool.or_assoc, Bool.or_eq_true, Bool.or_eq_true]
  exact Or.inr (Or.inl (any_eq_true.mpr ⟨item, hMem, decide_eq_true rfl⟩))

theorem live_deferred {d : Deferred} (hd : d ∈ s.deferred) (hOpen : d.status ≠ .over) :
    live s d.item.id = true := by
  unfold live
  rw [Bool.or_eq_true]
  exact Or.inr (any_eq_true.mpr ⟨d, hd, decide_eq_true ⟨rfl, hOpen⟩⟩)

theorem Owned.mark (h : Owned s)
    (hQuiet : ∀ r ∈ s.rows, verdicts s.rows r.id = [] → live s r.id = false) (at_ : Int)
    (marks : List Mark) : Owned { s with rows := markInFlightUncertain s.rows at_, marks } := by
  have hLive : ∀ n, live s n = true →
      verdicts (markInFlightUncertain s.rows at_) n = verdicts s.rows n := by
    intro n hn
    refine verdicts_mark_other at_ ?_
    by_contra hNot
    rw [not_or, not_not] at hNot
    obtain ⟨hNone, hRow⟩ := hNot
    push Not at hRow
    obtain ⟨r, hr, rfl⟩ := hRow
    rw [hQuiet r hr hNone] at hn
    cases hn
  refine ⟨fun r hr => ?_, fun n => length_verdicts_mark at_ (h.single n), fun n c hc hOpen => ?_,
    h.closing, fun key item hItem => ?_, fun d hd => ?_, h.distinct⟩
  · rcases mem_markInFlightUncertain hr with hr | ⟨_, r', hr', hId⟩
    · exact h.known r hr
    · exact hId ▸ h.known r' hr'
  · change _ ∧ _ ∧ ∀ r ∈ verdicts (markInFlightUncertain s.rows at_) n, _
    rw [hLive n (live_call hc hOpen)]
    exact h.calls n c hc hOpen
  · change verdicts (markInFlightUncertain s.rows at_) item.id = [] ∧ _
    rw [hLive _ (live_pending hItem)]
    exact h.pending key item hItem
  · obtain ⟨hTerminal, hFinished, hVerdicts⟩ := h.deferred d hd
    refine ⟨hTerminal, hFinished, fun hOpen => ?_⟩
    change ∀ r ∈ verdicts (markInFlightUncertain s.rows at_) d.item.id, _
    rw [hLive _ (live_deferred hd hOpen)]
    exact hVerdicts hOpen

theorem Owned.restart (h : Owned s) : Owned s.restart := by
  have hFinished : ∀ (n : Nat) c, s.restart.calls[n]? = some c → c.stage = .finished := by
    intro n c hc
    have hMap : (s.calls.map Call.ended)[n]? = some c := hc
    rw [getElem?_map, Option.map_eq_some_iff] at hMap
    obtain ⟨c₀, _, rfl⟩ := hMap
    rfl
  refine ⟨fun r hr => ?_, h.single, fun n c hc hOpen => absurd (hFinished n c hc) hOpen,
    fun n c outcome at_ hc hStage => ?_, nofun, fun d hd => ?_, ?_⟩
  · change r.id < (s.calls.map Call.ended).length
    rw [length_map]
    exact h.known r hr
  · rw [hFinished n c hc] at hStage
    cases hStage
  · obtain ⟨d₀, hd₀, rfl⟩ := mem_map.mp hd
    obtain ⟨hTerminal, ⟨c, hc, _⟩, _⟩ := h.deferred d₀ hd₀
    have hEnded : (s.calls.map Call.ended)[d₀.item.id]? = some c.ended := by
      rw [getElem?_map, hc]
      rfl
    exact ⟨hTerminal, ⟨c.ended, hEnded, rfl⟩, fun hOpen => absurd rfl hOpen⟩
  · change ((s.deferred.map _).map _).Nodup
    rw [map_map]
    exact h.distinct

/-! ## Runs -/

theorem Owned.step (h : Owned s) (hOrderly : Orderly s) (e : OutcomeEvent)
    (hQuiet : Undisturbed s e) : Owned (outcomeStep s e) := by
  cases e with
  | send command actor boot now => exact h.send command actor boot now hOrderly.pending
  | carryOut n => exact h.carryOut n
  | answer n ok authorized now => exact h.answer n ok authorized now
  | dispatched n outcome now => exact h.dispatched n outcome now
  | observeStatus uid lastCommand observation now =>
    exact h.observeStatus hOrderly.pending uid lastCommand observation now
  | ackTimer n now => exact h.ackTimer hOrderly.pending n now
  | runDeferred i now =>
    unfold outcomeStep Outcomes.runDeferred
    dsimp only
    split
    · rename_i d hd
      split
      · rename_i hQueued
        exact h.setDeferred hd fun hOver => by simp [hQueued] at hOver
      · exact h
    · exact h
  | carryOutDeferred i => exact h.carryOutDeferred i
  | finishDeferred i =>
    unfold outcomeStep Outcomes.finishDeferred
    dsimp only
    split
    · rename_i d hd
      split
      · exact h
      · exact h.setDeferred hd fun _ => rfl
    · exact h
  | dispose now =>
    refine ⟨h.known, h.single, fun n c hc hOpen => ?_, h.closing, nofun, h.deferred, h.distinct⟩
    obtain ⟨_, hRest⟩ := h.calls n c hc hOpen
    exact ⟨nofun, hRest⟩
  | initialize_ now =>
    exact ⟨h.known, h.single, h.calls, h.closing, h.pending, h.deferred, h.distinct⟩
  | carryOutMark i =>
    unfold outcomeStep Outcomes.carryOutMark
    dsimp only
    unfold Undisturbed at hQuiet
    dsimp only at hQuiet
    split
    · rename_i m hm
      split
      · exact h
      · rename_i hNew
        refine h.mark (hQuiet ?_) m.at_ _
        rw [hm]
        simpa using hNew
    · exact h
  | restart => exact h.restart

theorem owned_init : Owned {} where
  known _ hr := nomatch hr
  single _ := Nat.zero_le _
  calls _ _ hc := nomatch hc
  closing _ _ _ _ hc := nomatch hc
  pending _ _ hItem := nomatch hItem
  deferred _ hd := nomatch hd
  distinct := nodup_nil

theorem owned_run {es : List OutcomeEvent} (h : Guarded outcomeStep Undisturbed {} es) :
    Owned (run outcomeStep {} es) :=
  (run_invariant_guarded (fun s => Orderly s ∧ Owned s)
    (fun _ e hs hG => ⟨hs.1.step e, hs.2.step hs.1 e hG⟩) ⟨orderly_init, owned_init⟩ h).2

/-! ## Rows stay -/

theorem mem_insertOutcome_of_mem (h : r ∈ rows) : r ∈ insertOutcome rows row := by
  unfold insertOutcome
  split
  · exact h
  · exact mem_append_left _ h

theorem rows_rebootAll (uid : Text) (observation : Option (Nat × Int))
    (entries : List (Key × PendingCommand)) (s : Outcomes) :
    (entries.foldl (Outcomes.rebootOne uid observation) s).rows = s.rows := by
  induction entries generalizing s with
  | nil => rfl
  | cons entry entries ih =>
    rw [foldl_cons, ih]
    unfold Outcomes.rebootOne
    split
    · split <;> rfl
    · rfl

theorem rows_observeStatus (uid : Text) (lastCommand : Nat) (observation : Option (Nat × Int))
    (now : Int) : (s.observeStatus uid lastCommand observation now).rows = s.rows := by
  unfold Outcomes.observeStatus
  dsimp only
  unfold Outcomes.acknowledge
  split
  · exact rows_rebootAll ..
  · split
    · exact rows_rebootAll ..
    · exact rows_rebootAll ..

theorem rows_step (e : OutcomeEvent) (h : r ∈ s.rows) : r ∈ (outcomeStep s e).rows := by
  cases e with
  | carryOut n =>
    unfold outcomeStep Outcomes.carryOut
    dsimp only
    split
    · exact h
    split
    · exact h
    split
    · exact h
    · exact mem_insertOutcome_of_mem h
  | carryOutDeferred i =>
    unfold outcomeStep Outcomes.carryOutDeferred
    dsimp only
    split
    · split
      · exact mem_insertOutcome_of_mem h
      · exact h
    · exact h
  | carryOutMark i =>
    unfold outcomeStep Outcomes.carryOutMark
    dsimp only
    split
    · split
      · exact h
      · exact mem_append_left _ h
    · exact h
  | observeStatus uid lastCommand observation now =>
    unfold outcomeStep
    rwa [rows_observeStatus]
  | send | answer | dispatched | ackTimer | runDeferred | finishDeferred | dispose | initialize_
  | restart =>
    simp only [outcomeStep, Outcomes.send, Outcomes.answer, Outcomes.afterSent, Outcomes.await,
      Outcomes.dispatched, Outcomes.ackTimer, Outcomes.runDeferred, Outcomes.finishDeferred,
      Outcomes.dispose, Outcomes.initialize_, Outcomes.restart, Outcomes.close, Outcomes.finish,
      Outcomes.setCall, Outcomes.setDeferred, Outcomes.defer]
    repeat' split
    all_goals exact h

theorem rows_run (es : List OutcomeEvent) (h : r ∈ s.rows) : r ∈ (run outcomeStep s es).rows :=
  run_invariant (fun s : Outcomes => r ∈ s.rows) (fun _ e hs => rows_step e hs) h es

/-- After every run what is acknowledged was answered. After a run whose marks judge no live
command every command has at most one verdict, and one that had a row when a mark was
carried out has exactly one. -/
theorem outcomes_durable (es : List OutcomeEvent) :
    (∀ r ∈ (run outcomeStep {} es).rows, r.outcome = .acknowledged →
        Answered (run outcomeStep {} es).calls (run outcomeStep {} es).heard r.id) ∧
      (Guarded outcomeStep Undisturbed {} es →
        (∀ n, (verdicts (run outcomeStep {} es).rows n).length ≤ 1) ∧
          ∀ before i after m, es = before ++ .carryOutMark i :: after →
            (run outcomeStep {} before).marks[i]? = some m → m.carried = false →
              ∀ r ∈ (run outcomeStep {} before).rows,
                (verdicts (run outcomeStep {} es).rows r.id).length = 1) := by
  refine ⟨(orderly_run es).rows, fun hQuiet => ?_⟩
  have hSingle := (owned_run hQuiet).single
  refine ⟨hSingle, fun before i after m hSplit hm hNew r hr => ?_⟩
  refine le_antisymm (hSingle r.id) ?_
  have hMarked : (outcomeStep (run outcomeStep {} before) (.carryOutMark i)).rows =
      markInFlightUncertain (run outcomeStep {} before).rows m.at_ := by
    simp [outcomeStep, Outcomes.carryOutMark, hm, hNew]
  obtain ⟨v, hv⟩ := List.exists_mem_of_ne_nil _ (verdicts_mark_ne_nil m.at_ hr)
  obtain ⟨hMem, hId, hTerminal⟩ := mem_verdicts.mp hv
  rw [← hMarked] at hMem
  have hEnd : v ∈ (run outcomeStep {} es).rows := by
    rw [hSplit, run_append, run_cons]
    exact rows_run after hMem
  exact List.length_pos_of_mem (mem_verdicts.mpr ⟨hEnd, hId, hTerminal⟩)

/-! ## A shutdown -/

/-- A command of `node` is sent at `now` and waits for the STATUS of its sequence. -/
def sending (n sequence : Nat) (now : Int) : List OutcomeEvent :=
  let node : Text := js "a"
  [.send ⟨node, 1, 0, 0⟩ ⟨js "admin", .console⟩ none now, .carryOut n,
    .answer n true true now, .dispatched n (some sequence) now, .carryOut n,
    .answer n true true now]

/-- The outcome that was found first is written before the process ends. -/
def orderlyShutdown : List OutcomeEvent :=
  sending 0 7 10 ++ sending 1 8 20 ++
    [.observeStatus (js "a") 7 none 30, .runDeferred 0 31, .carryOutDeferred 0,
      .finishDeferred 0, .dispose 40, .carryOutMark 0, .initialize_ 50, .carryOutMark 1]

theorem outcomes_durable_shutdown :
    Guarded outcomeStep Undisturbed {} orderlyShutdown ∧
      (verdicts (run outcomeStep {} orderlyShutdown).rows 0).length = 1 ∧
        (verdicts (run outcomeStep {} orderlyShutdown).rows 1).length = 1 := by
  have hQuiet : Guarded outcomeStep Undisturbed {} orderlyShutdown := by decide +kernel
  have hAll := ((outcomes_durable orderlyShutdown).2 hQuiet).2
    (sending 0 7 10 ++ sending 1 8 20 ++
      [.observeStatus (js "a") 7 none 30, .runDeferred 0 31, .carryOutDeferred 0,
        .finishDeferred 0, .dispose 40]) 0 [.initialize_ 50, .carryOutMark 1] ⟨40, false⟩ rfl
    (by decide +kernel) rfl
  refine ⟨hQuiet, ?_, ?_⟩
  · exact hAll ⟨0, js "a", ⟨js "a", 1, 0, 0⟩,
      ⟨js "admin", .console⟩, .requested, 10⟩ (by decide +kernel)
  · exact hAll ⟨1, js "a", ⟨js "a", 1, 0, 0⟩,
      ⟨js "admin", .console⟩, .requested, 20⟩ (by decide +kernel)

/-- The shutdown judges a command whose acknowledgement is behind `setImmediate`: it gets two
verdicts. -/
theorem judged_twice :
    (verdicts (run outcomeStep {} (sending 0 7 10 ++ sending 1 8 20 ++
      [.observeStatus (js "a") 7 none 30, .dispose 30, .carryOutMark 0,
        .runDeferred 0 31, .carryOutDeferred 0])).rows 0).map (·.outcome) =
      [.uncertain, .acknowledged] := by
  decide +kernel

end TMEdge.Commands
