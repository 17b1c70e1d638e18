import TMEdge.Commands.Outcomes

/-!
# What an acknowledgement stands for

* `Answered`: a STATUS of the command's node with its sequence, from the boot known at the
  request if one was, observed after the request.
* `Orderly`: whatever is about to be recorded as acknowledged was answered.
* `orderly_run`: it holds after every run; so does what it says of the rows.
-/

namespace TMEdge.Commands

open Library List JsMap

/-! ## Definitions -/

def Answered (calls : List Call) (heard : List Heard) (n : Nat) : Prop :=
  ∃ c, calls[n]? = some c ∧ ∃ h ∈ heard, n < h.sends ∧ h.uid = c.command.uid ∧
    c.sequence = some h.sequence ∧ (c.boot ≠ none → h.boot = c.boot)

/-- An entry of `recentStatus` is a STATUS that came after every command of an earlier
generation was requested. -/
def Recorded (calls : List Call) (heard : List Heard) (uid : Text) (o : RecentStatus) : Prop :=
  ∃ h ∈ heard, h.uid = uid ∧ h.sequence = o.sequence ∧ h.boot = o.boot ∧
    ∀ (n : Nat) c, calls[n]? = some c → c.generation < o.generation → n < h.sends

/-- An entry of the map of pending commands is that of a call that has ended. -/
def Waiting (calls : List Call) (key : Key) (item : PendingCommand) : Prop :=
  ∃ c, calls[item.id]? = some c ∧ c.stage = .finished ∧ c.sequence = some key.2 ∧
    c.command = item.command ∧ c.boot = item.boot ∧ item.command.uid = key.1

/-- The sequence of a call is the one its dispatch resolved to. -/
def Call.Numbered (c : Call) : Prop :=
  match c.stage with
  | .requesting | .dispatching => c.sequence = none
  | .recordingSent sequence _ => c.sequence = some sequence
  | _ => True

structure Orderly (s : Outcomes) : Prop where
  numbered : ∀ (n : Nat) c, s.calls[n]? = some c → c.Numbered
  pending : ∀ key item, s.pending.get key = some item → Waiting s.calls key item
  recent : ∀ uid o, s.recentStatus.get uid = some o →
    o.generation ≤ s.generation ∧ Recorded s.calls s.heard uid o
  closing : ∀ (n : Nat) c at_, s.calls[n]? = some c → c.stage = .closing .acknowledged at_ →
    Answered s.calls s.heard n
  deferred : ∀ d ∈ s.deferred, d.outcome = .acknowledged →
    Answered s.calls s.heard d.item.id
  rows : ∀ r ∈ s.rows, r.outcome = .acknowledged → Answered s.calls s.heard r.id

/-- What a call keeps while it goes on. -/
structure Call.Follows (c c' : Call) : Prop where
  command : c'.command = c.command
  boot : c'.boot = c.boot
  generation : c'.generation = c.generation
  sequence : c.sequence ≠ none → c'.sequence = c.sequence
  finished : c.stage = .finished → c'.stage = .finished

variable {s : Outcomes} {n : Nat} {c c' : Call} {r row : OutcomeRow} {rows : List OutcomeRow}
  {at_ : Int} {uid : Text}

/-! ## Calls that go on -/

theorem setCall_get (calls : List Call) (hc : calls[n]? = some c) (c' : Call) (i : Nat) :
    (calls.set n c')[i]? = if i = n then some c' else calls[i]? := by
  have hn := (List.getElem?_eq_some_iff.mp hc).1
  by_cases hi : i = n
  · subst hi
    rw [if_pos rfl, getElem?_set_self hn]
  · rw [if_neg hi, getElem?_set_ne (Ne.symm hi)]

/-- Every call of the list after a change of the `n`-th follows the one before. -/
theorem follows_set {calls : List Call} (hc : calls[n]? = some c) (hFollows : c.Follows c')
    {i : Nat} {d' : Call} (hd' : (calls.set n c')[i]? = some d') :
    ∃ d, calls[i]? = some d ∧ d.Follows d' := by
  rw [setCall_get calls hc] at hd'
  split at hd'
  · rename_i hi
    subst hi
    obtain rfl := Option.some.inj hd'
    exact ⟨c, hc, hFollows⟩
  · exact ⟨d', hd', rfl, rfl, rfl, fun _ => rfl, fun h => h⟩

theorem Answered.set {calls : List Call} {heard : List Heard} (hc : calls[n]? = some c)
    (hFollows : c.Follows c') {i : Nat} (h : Answered calls heard i) :
    Answered (calls.set n c') heard i := by
  obtain ⟨d, hd, heard', hMem, hSends, hUid, hSequence, hBoot⟩ := h
  by_cases hi : i = n
  · subst hi
    rw [hc] at hd
    obtain rfl := Option.some.inj hd
    refine ⟨c', by rw [setCall_get calls hc, if_pos rfl], heard', hMem, hSends, ?_, ?_, ?_⟩
    · rw [hFollows.command, hUid]
    · rw [hFollows.sequence (by simp [hSequence]), hSequence]
    · rw [hFollows.boot]
      exact hBoot
  · exact ⟨d, by rw [setCall_get calls hc, if_neg hi, hd], heard', hMem, hSends, hUid, hSequence,
      hBoot⟩

theorem Recorded.set {calls : List Call} {heard : List Heard} (hc : calls[n]? = some c)
    (hFollows : c.Follows c') {uid : Text} {o : RecentStatus} (h : Recorded calls heard uid o) :
    Recorded (calls.set n c') heard uid o := by
  obtain ⟨heard', hMem, hUid, hSequence, hBoot, hSends⟩ := h
  refine ⟨heard', hMem, hUid, hSequence, hBoot, fun i d' hd' hLt => ?_⟩
  obtain ⟨d, hd, hd''⟩ := follows_set hc hFollows hd'
  rw [hd''.generation] at hLt
  exact hSends i d hd hLt

theorem Waiting.set {calls : List Call} (hc : calls[n]? = some c) (hFollows : c.Follows c')
    {key : Key} {item : PendingCommand} (h : Waiting calls key item) :
    Waiting (calls.set n c') key item := by
  obtain ⟨d, hd, hStage, hSequence, hCommand, hBoot, hUid⟩ := h
  by_cases hi : item.id = n
  · rw [← hi] at hc ⊢
    rw [hc] at hd
    obtain rfl := Option.some.inj hd
    refine ⟨c', by rw [setCall_get calls hc, if_pos rfl], hFollows.finished hStage, ?_, ?_, ?_,
      hUid⟩
    · rw [hFollows.sequence (by simp [hSequence]), hSequence]
    · rw [hFollows.command, hCommand]
    · rw [hFollows.boot, hBoot]
  · exact ⟨d, by rw [setCall_get calls hc, if_neg hi, hd], hStage, hSequence, hCommand, hBoot,
      hUid⟩

/-- A call goes on, and closes as acknowledged only where it was answered. -/
theorem Orderly.setCall (h : Orderly s) (hc : s.calls[n]? = some c) (hFollows : c.Follows c')
    (hNumbered : c'.Numbered)
    (hClosing : ∀ at_, c'.stage = .closing .acknowledged at_ →
      Answered (s.calls.set n c') s.heard n) : Orderly (s.setCall n c') where
  numbered i d' hd' := by
    have hSet : (s.calls.set n c')[i]? = some d' := hd'
    rw [setCall_get s.calls hc] at hSet
    split at hSet
    · obtain rfl := Option.some.inj hSet
      exact hNumbered
    · exact h.numbered i d' hSet
  pending key item hItem := (h.pending key item hItem).set hc hFollows
  recent uid o ho := ⟨(h.recent uid o ho).1, (h.recent uid o ho).2.set hc hFollows⟩
  closing i d' at_ hd' hStage := by
    have hSet : (s.calls.set n c')[i]? = some d' := hd'
    rw [setCall_get s.calls hc] at hSet
    split at hSet
    · rename_i hi
      subst hi
      obtain rfl := Option.some.inj hSet
      exact hClosing at_ hStage
    · exact (h.closing i d' at_ hSet hStage).set hc hFollows
  deferred d hd hAck := (h.deferred d hd hAck).set hc hFollows
  rows r hr hAck := (h.rows r hr hAck).set hc hFollows

/-! ## Rows -/

theorem mem_insertOutcome (h : r ∈ insertOutcome rows row) : r ∈ rows ∨ r = row := by
  unfold insertOutcome at h
  split at h
  · exact Or.inl h
  · simpa using h

theorem mem_latestRows (h : r ∈ latestRows rows) : r ∈ rows := by
  induction rows with
  | nil => exact h
  | cons r' rows ih =>
    have h' : r ∈ r' :: (latestRows rows).filter (·.id ≠ r'.id) := h
    rcases mem_cons.mp h' with rfl | h'
    · exact mem_cons_self
    · exact mem_cons_of_mem _ (ih (mem_of_mem_filter h'))

/-- A row of the mark is one there was, or an uncertain one of a command there is. -/
theorem mem_markInFlightUncertain (h : r ∈ markInFlightUncertain rows at_) :
    r ∈ rows ∨ (r.outcome = .uncertain ∧ ∃ r' ∈ rows, r'.id = r.id) := by
  rcases mem_append.mp h with h | h
  · exact Or.inl h
  · obtain ⟨r', hr', rfl⟩ := mem_map.mp h
    exact Or.inr ⟨rfl, r', mem_latestRows (mem_of_mem_filter hr'), rfl⟩

theorem Orderly.insert (h : Orderly s)
    (hRow : row.outcome = .acknowledged → Answered s.calls s.heard row.id) :
    Orderly { s with rows := insertOutcome s.rows row } where
  numbered := h.numbered
  pending := h.pending
  recent := h.recent
  closing := h.closing
  deferred := h.deferred
  rows r hr hAck := by
    rcases mem_insertOutcome hr with hr | rfl
    · exact h.rows r hr hAck
    · exact hRow hAck

/-! ## Steps -/

theorem Orderly.send (h : Orderly s) (command : NodeCommand) (actor : Actor)
    (boot : Option Nat) (now : Int) : Orderly (s.send command actor boot now) := by
  unfold Outcomes.send
  split
  · exact h
  split
  · exact h
  dsimp only
  set call : Call := _
  have hOld : ∀ (i : Nat) d, s.calls[i]? = some d → (s.calls ++ [call])[i]? = some d := by
    intro i d hd
    rw [getElem?_append_left (List.getElem?_eq_some_iff.mp hd).1, hd]
  have hNew : ∀ (i : Nat) d, (s.calls ++ [call])[i]? = some d →
      s.calls[i]? = some d ∨ d = call := by
    intro i d hd
    rcases Nat.lt_or_ge i s.calls.length with hi | hi
    · rw [getElem?_append_left hi] at hd
      exact Or.inl hd
    · rw [getElem?_append_right hi, getElem?_singleton] at hd
      split at hd
      · exact Or.inr (Option.some.inj hd).symm
      · cases hd
  have hAnswered : ∀ i, Answered s.calls s.heard i → Answered (s.calls ++ [call]) s.heard i := by
    rintro i ⟨d, hd, hRest⟩
    exact ⟨d, hOld i d hd, hRest⟩
  refine ⟨fun i d hd => ?_, fun key item hItem => ?_, fun uid o ho => ?_,
    fun i d at_ hd hStage => ?_, fun d hd hAck => hAnswered _ (h.deferred d hd hAck),
    fun r hr hAck => hAnswered _ (h.rows r hr hAck)⟩
  · rcases hNew i d hd with hd | rfl
    · exact h.numbered i d hd
    · rfl
  · obtain ⟨d, hd, hRest⟩ := h.pending key item hItem
    exact ⟨d, hOld _ d hd, hRest⟩
  · obtain ⟨hGeneration, heard, hMem, hUid, hSequence, hBoot, hSends⟩ := h.recent uid o ho
    refine ⟨hGeneration, heard, hMem, hUid, hSequence, hBoot, fun i d hd hLt => ?_⟩
    rcases hNew i d hd with hd | rfl
    · exact hSends i d hd hLt
    · exact absurd hGeneration (Nat.not_le_of_lt hLt)
  · rcases hNew i d hd with hd | rfl
    · exact hAnswered i (h.closing i d at_ hd hStage)
    · cases hStage

theorem Call.Follows.stage (c : Call) (hOpen : c.stage ≠ .finished) (stage : Stage)
    (done : Bool) : c.Follows { c with stage, done } :=
  ⟨rfl, rfl, rfl, fun _ => rfl, fun hFinished => absurd hFinished hOpen⟩

/-- The row a call waits for is of its id: its intent, that it was sent, or its outcome. -/
theorem row_spec (h : Outcomes.Call.row c n = some row) :
    row.id = n ∧ ((c.stage ≠ .finished ∧ row.outcome.terminal = false) ∨
      ∃ at_, c.stage = .closing row.outcome at_) := by
  unfold Outcomes.Call.row at h
  dsimp only at h
  split at h
  · rename_i hStage
    cases h
    exact ⟨rfl, Or.inl ⟨by simp [hStage], rfl⟩⟩
  · rename_i hStage
    cases h
    exact ⟨rfl, Or.inl ⟨by simp [hStage], rfl⟩⟩
  · rename_i outcome at_ hStage
    cases h
    exact ⟨rfl, Or.inr ⟨at_, hStage⟩⟩
  · cases h

theorem Orderly.carryOut (h : Orderly s) (n : Nat) : Orderly (s.carryOut n) := by
  unfold Outcomes.carryOut
  split
  · exact h
  rename_i c hc
  split
  · exact h
  split
  · exact h
  rename_i row hRow
  dsimp only
  set done : Bool := decide (row ∈ insertOutcome s.rows row)
  have hFollows : c.Follows { c with done } := ⟨rfl, rfl, rfl, fun _ => rfl, fun h => h⟩
  obtain ⟨hId, hOutcome⟩ := row_spec hRow
  have hSet : Orderly (s.setCall n { c with done }) :=
    h.setCall hc hFollows (h.numbered n c hc) fun at_ hStage =>
      (h.closing n c at_ hc hStage).set hc hFollows
  refine hSet.insert fun hAck => ?_
  rw [hId]
  refine Answered.set hc hFollows ?_
  rcases hOutcome with ⟨_, hNot⟩ | ⟨at_, hStage⟩
  · rw [hAck] at hNot
    cases hNot
  · exact h.closing n c at_ hc (hAck ▸ hStage)

theorem Orderly.close (h : Orderly s) (hc : s.calls[n]? = some c) (hOpen : c.stage ≠ .finished)
    {outcome : CommandOutcome} (now : Int)
    (hAck : outcome = .acknowledged → Answered s.calls s.heard n) :
    Orderly (s.close n c outcome now) := by
  have hFollows := Call.Follows.stage c hOpen (.closing outcome now) false
  refine h.setCall hc hFollows trivial fun at_ hStage => ?_
  cases hStage
  exact (hAck rfl).set hc hFollows

theorem Orderly.finish (h : Orderly s) (hc : s.calls[n]? = some c)
    (hOpen : c.stage ≠ .finished) : Orderly (s.finish n c) :=
  h.setCall hc (Call.Follows.stage c hOpen .finished false) trivial fun _ hStage => nomatch hStage

theorem Orderly.await (h : Orderly s) (hc : s.calls[n]? = some c) {sequence : Nat}
    (hStage : c.stage = .recordingSent sequence at_) : Orderly (s.await n c sequence) := by
  have hOpen : c.stage ≠ .finished := by simp [hStage]
  have hFinish := h.finish hc hOpen
  have hNumbered := h.numbered n c hc
  unfold Call.Numbered at hNumbered
  rw [hStage] at hNumbered
  refine ⟨hFinish.numbered, fun key item hItem => ?_, hFinish.recent,
    hFinish.closing, hFinish.deferred, hFinish.rows⟩
  have hItem' : (s.pending.set (c.command.uid, sequence) _).get key = some item := hItem
  rw [get_set] at hItem'
  split at hItem'
  · rename_i hKey
    subst hKey
    obtain rfl := Option.some.inj hItem'
    refine ⟨{ c with stage := .finished, done := false }, ?_, rfl, hNumbered, rfl, rfl, rfl⟩
    exact (setCall_get s.calls hc _ n).trans (if_pos rfl)
  · exact hFinish.pending key item hItem'

theorem Orderly.afterSent (h : Orderly s) (hc : s.calls[n]? = some c) {sequence : Nat}
    (hStage : c.stage = .recordingSent sequence at_) (now : Int) :
    Orderly (s.afterSent n c sequence now) := by
  have hOpen : c.stage ≠ .finished := by simp [hStage]
  unfold Outcomes.afterSent
  split
  · exact h.await hc hStage
  rename_i earlyAck hRecent
  split
  · exact h.close hc hOpen now nofun
  split
  · rename_i hAcknowledges
    have hForgotten : Orderly { s with
        recentStatus := s.recentStatus.delete c.command.uid } := by
      refine ⟨h.numbered, h.pending, fun uid o ho => ?_, h.closing, h.deferred,
        h.rows⟩
      have ho' : (s.recentStatus.delete c.command.uid).get uid = some o := ho
      rw [get_delete] at ho'
      split at ho'
      · cases ho'
      · exact h.recent uid o ho'
    refine hForgotten.close hc hOpen now fun _ => ?_
    simp only [Outcomes.acknowledges, Outcomes.RecentStatus.isFresh, Bool.and_eq_true,
      Bool.or_eq_true, decide_eq_true_eq] at hAcknowledges
    obtain ⟨⟨⟨hSequence, hGeneration, _⟩, hBoot⟩, _⟩ := hAcknowledges
    obtain ⟨_, heard, hMem, hUid, hSeq, hHeardBoot, hSends⟩ := h.recent _ _ hRecent
    have hNumbered := h.numbered n c hc
    unfold Call.Numbered at hNumbered
    rw [hStage] at hNumbered
    refine ⟨c, hc, heard, hMem, hSends n c hc hGeneration, hUid, ?_, fun hKnown => ?_⟩
    · rw [hNumbered, hSeq, hSequence]
    · rw [hHeardBoot]
      exact hBoot.resolve_left hKnown
  · exact h.await hc hStage

theorem Orderly.answer (h : Orderly s) (n : Nat) (ok authorized : Bool) (now : Int) :
    Orderly (s.answer n ok authorized now) := by
  unfold Outcomes.answer
  split
  · exact h
  rename_i c hc
  split
  · exact h
  have hNumbered := h.numbered n c hc
  unfold Call.Numbered at hNumbered
  split
  · rename_i hStage
    rw [hStage] at hNumbered
    have hOpen : c.stage ≠ .finished := by simp [hStage]
    split
    · split
      · exact h.setCall hc (Call.Follows.stage c hOpen .dispatching false) hNumbered
          fun _ hClosing => nomatch hClosing
      · exact h.close hc hOpen now nofun
    · exact h.finish hc hOpen
  · rename_i hStage
    have hOpen : c.stage ≠ .finished := by simp [hStage]
    split
    · exact h.afterSent hc hStage now
    · exact h.close hc hOpen now nofun
  · rename_i hStage
    exact h.finish hc (by simp [hStage])
  · exact h

theorem Orderly.dispatched (h : Orderly s) (n : Nat) (outcome : Option Nat) (now : Int) :
    Orderly (s.dispatched n outcome now) := by
  unfold Outcomes.dispatched
  split
  · exact h
  rename_i c hc
  have hNumbered := h.numbered n c hc
  unfold Call.Numbered at hNumbered
  split
  · rename_i sequence hStage
    rw [hStage] at hNumbered
    refine h.setCall hc ⟨rfl, rfl, rfl, fun hSome => absurd hNumbered hSome, fun hFinished => ?_⟩
      rfl fun _ hClosing => nomatch hClosing
    rw [hStage] at hFinished
    cases hFinished
  · rename_i hStage
    exact h.close hc (by simp [hStage]) now nofun
  · exact h

/-! ## Observing and deferring -/

theorem Orderly.defer (h : Orderly s) {item : PendingCommand} {outcome : CommandOutcome}
    (status : DeferredStatus) (hAck : outcome = .acknowledged → Answered s.calls s.heard item.id) :
    Orderly (s.defer item outcome status) := by
  refine ⟨h.numbered, h.pending, h.recent, h.closing, fun d hd hOutcome => ?_,
    h.rows⟩
  rcases mem_append.mp hd with hd | hd
  · exact h.deferred d hd hOutcome
  · obtain rfl := mem_singleton.mp hd
    exact hAck hOutcome

/-- Entries leave the map of pending commands. -/
theorem Orderly.forget (h : Orderly s) {pending : JsMap Key PendingCommand}
    (hPending : ∀ key item, pending.get key = some item → s.pending.get key = some item)
    (armed : List (Nat × Key)) : Orderly { s with pending, armed } :=
  ⟨h.numbered, fun key item hItem => h.pending key item (hPending key item hItem),
    h.recent, h.closing, h.deferred, h.rows⟩

theorem get_of_get_delete {κ ν : Type} [DecidableEq κ] {m : JsMap κ ν} {k k' : κ} {v : ν}
    (h : (m.delete k).get k' = some v) : m.get k' = some v := by
  rw [get_delete] at h
  split at h
  · cases h
  · exact h

theorem Orderly.release (h : Orderly s) (key : Key) (item : PendingCommand) :
    Orderly (s.release key item) :=
  h.forget (fun _ _ hItem => get_of_get_delete hItem) _

theorem Orderly.rebootOne (h : Orderly s) (uid : Text) (observation : Option (Nat × Int))
    (entry : Key × PendingCommand) : Orderly (s.rebootOne uid observation entry) := by
  unfold Outcomes.rebootOne
  split
  · split
    · exact (h.release _ _).defer _ nofun
    · exact h
  · exact h

/-- The STATUS was heard after every call there is was requested. -/
def JustHeard (s : Outcomes) (uid : Text) (lastCommand : Nat) (boot : Option Nat) : Prop :=
  ∃ h ∈ s.heard, h.uid = uid ∧ h.sequence = lastCommand ∧ h.boot = boot ∧
    s.calls.length ≤ h.sends

theorem JustHeard.rebootOne {lastCommand : Nat} {boot : Option Nat}
    (h : JustHeard s uid lastCommand boot) (uid' : Text) (observation : Option (Nat × Int))
    (entry : Key × PendingCommand) :
    JustHeard (s.rebootOne uid' observation entry) uid lastCommand boot := by
  unfold Outcomes.rebootOne
  split
  · split
    · exact h
    · exact h
  · exact h

theorem Orderly.acknowledge (h : Orderly s) {lastCommand : Nat} {observation : Option (Nat × Int)}
    (hHeard : JustHeard s uid lastCommand (observation.map Prod.fst)) (now : Int) :
    Orderly (s.acknowledge uid lastCommand observation now) := by
  unfold Outcomes.acknowledge
  split
  · exact h
  rename_i item hItem
  split
  · exact h
  refine (h.release _ _).defer _ fun hAck => ?_
  obtain ⟨c, hc, _, hSequence, hCommand, hBoot, hUid⟩ := h.pending _ item hItem
  obtain ⟨heard, hMem, hHeardUid, hHeardSequence, hHeardBoot, hSends⟩ := hHeard
  refine ⟨c, hc, heard, hMem, ?_, ?_, ?_, fun hKnown => ?_⟩
  · exact (List.getElem?_eq_some_iff.mp hc).1.trans_le hSends
  · rw [hHeardUid, hCommand, hUid]
  · rw [hSequence, hHeardSequence]
  · split at hAck
    · cases hAck
    · rename_i hSame
      rw [hHeardBoot, hBoot]
      by_contra hDiffers
      exact hSame ⟨hBoot ▸ hKnown, hDiffers⟩

theorem get_roomForStatus {o : RecentStatus} (h : s.roomForStatus.get uid = some o) :
    s.recentStatus.get uid = some o := by
  unfold Outcomes.roomForStatus at h
  split at h
  · exact get_of_get_delete h
  · exact h

theorem Orderly.observeStatus (h : Orderly s) (uid : Text) (lastCommand : Nat)
    (observation : Option (Nat × Int)) (now : Int) :
    Orderly (s.observeStatus uid lastCommand observation now) := by
  unfold Outcomes.observeStatus
  dsimp only
  set boot := observation.map Prod.fst
  set at_ := (observation.map Prod.snd).getD now
  set status : RecentStatus := ⟨lastCommand, at_, s.generation + 1, boot⟩
  set heard : Heard := ⟨uid, lastCommand, boot, at_, s.calls.length⟩
  have hAnswered : ∀ i, Answered s.calls s.heard i → Answered s.calls (s.heard ++ [heard]) i := by
    rintro i ⟨c, hc, old, hMem, hRest⟩
    exact ⟨c, hc, old, mem_append_left _ hMem, hRest⟩
  have hLast : heard ∈ s.heard ++ [heard] := mem_append_right _ (mem_singleton_self _)
  set t : Outcomes := { s with
    recentStatus := s.roomForStatus.set uid status
    generation := s.generation + 1
    heard := s.heard ++ [heard] }
  have hRecorded : Orderly t := by
    refine ⟨h.numbered, h.pending, fun uid' o ho => ?_, fun n c at_ hc hStage => hAnswered n (h.closing n c at_ hc hStage),
      fun d hd hAck => hAnswered _ (h.deferred d hd hAck),
      fun r hr hAck => hAnswered _ (h.rows r hr hAck)⟩
    have ho' : (s.roomForStatus.set uid status).get uid' = some o := ho
    rw [get_set] at ho'
    split at ho'
    · rename_i hUid
      obtain rfl := Option.some.inj ho'
      exact ⟨le_rfl, heard, hLast, hUid.symm, rfl, rfl,
        fun n c hc _ => (List.getElem?_eq_some_iff.mp hc).1⟩
    · obtain ⟨hGeneration, old, hMem, hRest⟩ := h.recent uid' o (get_roomForStatus ho')
      exact ⟨hGeneration.trans (Nat.le_succ _), old, mem_append_left _ hMem, hRest⟩
  have hHeard : JustHeard t uid lastCommand boot := ⟨heard, hLast, rfl, rfl, rfl, le_rfl⟩
  have hFold : ∀ (entries : List (Key × PendingCommand)) (u : Outcomes), Orderly u →
      JustHeard u uid lastCommand boot →
        Orderly (entries.foldl (Outcomes.rebootOne uid observation) u) ∧
          JustHeard (entries.foldl (Outcomes.rebootOne uid observation) u) uid lastCommand
            boot := by
    intro entries
    induction entries with
    | nil => exact fun u hu hJust => ⟨hu, hJust⟩
    | cons entry entries ih =>
      exact fun u hu hJust =>
        ih _ (hu.rebootOne uid observation entry) (hJust.rebootOne uid observation entry)
  obtain ⟨hFolded, hJust⟩ := hFold t.pending.entries t hRecorded hHeard
  exact hFolded.acknowledge hJust now

theorem Orderly.ackTimer (h : Orderly s) (n : Nat) (now : Int) : Orderly (s.ackTimer n now) := by
  unfold Outcomes.ackTimer
  split
  · exact h
  dsimp only
  split
  · exact h.forget (fun _ _ hItem => hItem) _
  · rename_i timer _ _ item _
    have hGone : Orderly { s with
        pending := s.pending.delete timer.2
        armed := s.armed.filter fun timer => timer.1 ≠ n } :=
      h.forget (fun _ _ hItem => get_of_get_delete hItem) _
    exact hGone.defer _ nofun

theorem Orderly.setDeferred (h : Orderly s) {i : Nat} {d : Deferred} (hd : s.deferred[i]? = some d)
    (status : DeferredStatus) : Orderly (s.setDeferred i d status) := by
  refine ⟨h.numbered, h.pending, h.recent, h.closing, fun d' hd' hAck => ?_,
    h.rows⟩
  rcases mem_or_eq_of_mem_set hd' with hd' | rfl
  · exact h.deferred d' hd' hAck
  · exact h.deferred d (mem_of_getElem? hd) hAck

theorem Orderly.restart (h : Orderly s) : Orderly s.restart := by
  have hGet : ∀ (n : Nat) c, s.restart.calls[n]? = some c →
      ∃ c₀, s.calls[n]? = some c₀ ∧ c = c₀.ended := by
    intro n c hc
    have hMap : (s.calls.map Call.ended)[n]? = some c := hc
    rw [getElem?_map, Option.map_eq_some_iff] at hMap
    obtain ⟨c₀, hc₀, rfl⟩ := hMap
    exact ⟨c₀, hc₀, rfl⟩
  have hAnswered : ∀ n, Answered s.calls s.heard n → Answered s.restart.calls s.heard n := by
    rintro n ⟨c, hc, hRest⟩
    have hMap : (s.calls.map Call.ended)[n]? = some c.ended := by rw [getElem?_map, hc]; rfl
    exact ⟨c.ended, hMap, hRest⟩
  refine ⟨fun n c hc => ?_, nofun, nofun, fun n c at_ hc hStage => ?_, fun d hd hAck => ?_,
    fun r hr hAck => hAnswered _ (h.rows r hr hAck)⟩
  · obtain ⟨c₀, _, rfl⟩ := hGet n c hc
    trivial
  · obtain ⟨c₀, _, rfl⟩ := hGet n c hc
    cases hStage
  · obtain ⟨d₀, hd₀, rfl⟩ := mem_map.mp hd
    exact hAnswered _ (h.deferred d₀ hd₀ hAck)

theorem Orderly.step (h : Orderly s) (e : OutcomeEvent) : Orderly (outcomeStep s e) := by
  cases e with
  | send command actor boot now => exact h.send command actor boot now
  | carryOut n => exact h.carryOut n
  | answer n ok authorized now => exact h.answer n ok authorized now
  | dispatched n outcome now => exact h.dispatched n outcome now
  | observeStatus uid lastCommand observation now =>
    exact h.observeStatus uid lastCommand observation now
  | ackTimer n now => exact h.ackTimer n now
  | runDeferred i now =>
    unfold outcomeStep Outcomes.runDeferred
    dsimp only
    split
    · rename_i d hd
      split
      · exact h.setDeferred hd _
      · exact h
    · exact h
  | carryOutDeferred i =>
    unfold outcomeStep Outcomes.carryOutDeferred
    dsimp only
    split
    · rename_i d hd
      split
      · exact h.insert fun hAck => h.deferred d (mem_of_getElem? hd) hAck
      · exact h
    · exact h
  | finishDeferred i =>
    unfold outcomeStep Outcomes.finishDeferred
    dsimp only
    split
    · rename_i d hd
      split
      · exact h
      · exact h.setDeferred hd _
    · exact h
  | dispose now => exact ⟨h.numbered, nofun, h.recent, h.closing, h.deferred, h.rows⟩
  | initialize_ now =>
    exact ⟨h.numbered, h.pending, h.recent, h.closing, h.deferred, h.rows⟩
  | carryOutMark i =>
    unfold outcomeStep Outcomes.carryOutMark
    dsimp only
    split
    · split
      · exact h
      · refine ⟨h.numbered, h.pending, h.recent, h.closing, h.deferred,
          fun r hr hAck => ?_⟩
        rcases mem_markInFlightUncertain hr with hr | ⟨hUncertain, _⟩
        · exact h.rows r hr hAck
        · rw [hAck] at hUncertain
          cases hUncertain
    · exact h
  | restart => exact h.restart

theorem orderly_init : Orderly {} where
  numbered _ _ hc := nomatch hc
  pending _ _ hItem := nomatch hItem
  recent _ _ ho := nomatch ho
  closing _ _ _ hc := nomatch hc
  deferred _ hd := nomatch hd
  rows _ hr := nomatch hr

theorem orderly_run (es : List OutcomeEvent) : Orderly (run outcomeStep {} es) :=
  run_invariant Orderly (fun _ e hs => hs.step e) orderly_init es

end TMEdge.Commands
