import TMEdge.Commands.Receipts

/-!
# What a live receipt says

* `Sound`: a receipt that waits is in the map, a call whose race is not over left its
  receipt requested or uncertain, and what is acknowledged was heard.
* `Follows`: receipts keep what they are about, and a terminal state.
* `Goes.step`: every step keeps both.
* `receipts_honest`: over every run, terminal states last, an acknowledgement is that of a
  STATUS packet, no receipt that waits is removed, the maps are bounded and `get` answers
  the issuer.
-/

namespace TMEdge.Commands

open Library List Option JsMap

/-! ## Definitions -/

/-- A STATUS of the receipt's uid with its sequence, from its boot if that was known,
observed after the `n`-th receipt was issued and stamped no earlier than it was requested. -/
def Acknowledgement (heard : List Heard) (n : Nat) (receipt : CommandReceipt) : Prop :=
  ∃ h ∈ heard, n < h.sends ∧ h.uid = receipt.uid ∧ receipt.sequence = some h.sequence ∧
    (receipt.boot ≠ none → h.boot = receipt.boot) ∧ receipt.requestedAt ≤ h.at_

/-- The observation is that of a STATUS packet, which came after every receipt of an earlier
generation was issued. -/
def Noted (s : State) (uid : Text) (o : Observation) : Prop :=
  ∃ h ∈ s.heard, h.uid = uid ∧ h.sequence = o.sequence ∧ h.boot = o.boot ∧ h.at_ = o.at_ ∧
    ∀ (n : Nat) st, s.stored[n]? = some st → st.generation < o.generation → n < h.sends

structure Sound (s : State) : Prop where
  kept : ∀ (n : Nat) st, s.stored[n]? = some st → st.receipt.state.terminal = false →
    n ∈ s.receipts
  racing : ∀ (n : Nat) st, s.stored[n]? = some st → st.race ≠ .over →
    st.receipt.state = .requested ∨ st.receipt.state = .uncertain
  generations : ∀ (n : Nat) st, s.stored[n]? = some st → st.generation ≤ s.generation
  acknowledged : ∀ (n : Nat) st, s.stored[n]? = some st → st.receipt.state = .acknowledged →
    Acknowledgement s.heard n st.receipt
  observed : ∀ uid o, s.observations.get uid = some o →
    o.generation ≤ s.generation ∧ Noted s uid o
  receiptsBound : s.receipts.length ≤ maxReceipts
  observationsBound : s.observations.size ≤ maxReceipts

/-- What a receipt is about, and that a terminal state lasts. -/
structure StoredReceipt.Follows (st st' : StoredReceipt) : Prop where
  id : st'.receipt.id = st.receipt.id
  uid : st'.receipt.uid = st.receipt.uid
  boot : st'.receipt.boot = st.receipt.boot
  requestedAt : st'.receipt.requestedAt = st.receipt.requestedAt
  issuer : st'.issuer = st.issuer
  generation : st'.generation = st.generation
  terminal : st.receipt.state.terminal = true → st'.receipt.state = st.receipt.state

def Follows (s s' : State) : Prop :=
  ∀ (n : Nat) st, s.stored[n]? = some st → ∃ st', s'.stored[n]? = some st' ∧ st.Follows st'

def Goes (s s' : State) : Prop := Sound s' ∧ Follows s s'

variable {s s' s'' : State} {n : Nat} {f : StoredReceipt → StoredReceipt} {o : Observation}

/-! ## Following -/

theorem StoredReceipt.Follows.refl (st : StoredReceipt) : st.Follows st :=
  ⟨rfl, rfl, rfl, rfl, rfl, rfl, fun _ => rfl⟩

theorem StoredReceipt.Follows.trans {a b c : StoredReceipt} (h : a.Follows b) (h' : b.Follows c) :
    a.Follows c where
  id := h'.id.trans h.id
  uid := h'.uid.trans h.uid
  boot := h'.boot.trans h.boot
  requestedAt := h'.requestedAt.trans h.requestedAt
  issuer := h'.issuer.trans h.issuer
  generation := h'.generation.trans h.generation
  terminal hTerminal := by
    have hSame := h.terminal hTerminal
    exact (h'.terminal (by rw [hSame]; exact hTerminal)).trans hSame

theorem Follows.refl (s : State) : Follows s s := fun _ st hst => ⟨st, hst, .refl st⟩

theorem Follows.trans (h : Follows s s') (h' : Follows s' s'') : Follows s s'' := by
  intro n st hst
  obtain ⟨st', hst', hFollows⟩ := h n st hst
  obtain ⟨st'', hst'', hFollows'⟩ := h' n st' hst'
  exact ⟨st'', hst'', hFollows.trans hFollows'⟩

theorem Goes.refl (h : Sound s) : Goes s s := ⟨h, .refl s⟩

theorem Goes.trans (h : Goes s s') (h' : Sound s' → Goes s' s'') : Goes s s'' :=
  ⟨(h' h.1).1, h.2.trans (h' h.1).2⟩

/-- A fold over receipts, each step of which keeps `P` as well. -/
theorem goes_foldl {P : State → Prop} {g : State → Nat → State}
    (hg : ∀ s n, Sound s → P s → Goes s (g s n) ∧ P (g s n)) (l : List Nat) :
    ∀ s, Sound s → P s → Goes s (l.foldl g s) := by
  induction l with
  | nil => exact fun s h _ => .refl h
  | cons n l ih =>
    intro s h hP
    obtain ⟨hGoes, hP'⟩ := hg s n h hP
    exact hGoes.trans fun h' => ih (g s n) h' hP'

/-! ## Changing one receipt -/

theorem modify_get (s : State) (n i : Nat) (f : StoredReceipt → StoredReceipt) :
    (s.modify n f).stored[i]? = (s.stored[i]?).map fun st => if n = i then f st else st := by
  unfold State.modify
  simp [getElem?_modify]

theorem Noted.modify {uid : Text} (h : Noted s uid o)
    (hf : ∀ st, (f st).generation = st.generation) : Noted (s.modify n f) uid o := by
  obtain ⟨heard, hMem, hUid, hSequence, hBoot, hAt, hSends⟩ := h
  refine ⟨heard, hMem, hUid, hSequence, hBoot, hAt, fun i st' hst' hLt => ?_⟩
  rw [modify_get, map_eq_some_iff] at hst'
  obtain ⟨st, hst, rfl⟩ := hst'
  refine hSends i st hst ?_
  split at hLt
  · rwa [hf] at hLt
  · exact hLt

/-- What a change of the `n`-th receipt has to respect. -/
structure Allowed (s : State) (n : Nat) (st st' : StoredReceipt) : Prop where
  follows : st.Follows st'
  kept : st'.receipt.state.terminal = false → n ∈ s.receipts
  racing : st'.race ≠ .over →
    st'.receipt.state = .requested ∨ st'.receipt.state = .uncertain
  acknowledged : st'.receipt.state = .acknowledged → Acknowledgement s.heard n st'.receipt

theorem Sound.modify (h : Sound s) (hf : ∀ st, s.stored[n]? = some st → Allowed s n st (f st)) :
    Goes s (s.modify n f) := by
  have hOld : ∀ (i : Nat) st', (s.modify n f).stored[i]? = some st' →
      ∃ st, s.stored[i]? = some st ∧ Allowed s i st st' := by
    intro i st' hst'
    rw [modify_get, map_eq_some_iff] at hst'
    obtain ⟨st, hst, rfl⟩ := hst'
    refine ⟨st, hst, ?_⟩
    by_cases hi : n = i
    · subst hi
      rw [if_pos rfl]
      exact hf st hst
    · rw [if_neg hi]
      exact ⟨.refl st, h.kept i st hst, h.racing i st hst, h.acknowledged i st hst⟩
  refine ⟨⟨?_, ?_, ?_, ?_, ?_, h.receiptsBound, h.observationsBound⟩, ?_⟩
  · intro i st' hst'
    obtain ⟨st, hst, hAllowed⟩ := hOld i st' hst'
    exact hAllowed.kept
  · intro i st' hst'
    obtain ⟨st, hst, hAllowed⟩ := hOld i st' hst'
    exact hAllowed.racing
  · intro i st' hst'
    obtain ⟨st, hst, hAllowed⟩ := hOld i st' hst'
    rw [hAllowed.follows.generation]
    exact h.generations i st hst
  · intro i st' hst'
    obtain ⟨st, hst, hAllowed⟩ := hOld i st' hst'
    exact hAllowed.acknowledged
  · intro uid o ho
    obtain ⟨hGeneration, heard, hMem, hUid, hSequence, hBoot, hAt, hSends⟩ := h.observed uid o ho
    refine ⟨hGeneration, heard, hMem, hUid, hSequence, hBoot, hAt, fun i st' hst' hLt => ?_⟩
    obtain ⟨st, hst, hAllowed⟩ := hOld i st' hst'
    rw [hAllowed.follows.generation] at hLt
    exact hSends i st hst hLt
  · intro i st hst
    by_cases hi : n = i
    · subst hi
      exact ⟨f st, by simp [modify_get, hst], (hf st hst).follows⟩
    · exact ⟨st, by simp [modify_get, hst, hi], .refl st⟩

/-- A change of state of the `n`-th receipt. -/
theorem Sound.update (h : Sound s) {state : ReceiptState} (message : Text) (now : Int)
    (hState : ∀ st, s.stored[n]? = some st →
      (st.receipt.state.terminal = true → state = st.receipt.state) ∧
        (state.terminal = false → n ∈ s.receipts) ∧
        (st.race ≠ .over → state = .requested ∨ state = .uncertain) ∧
        (state = .acknowledged → Acknowledgement s.heard n st.receipt)) :
    Goes s (s.update n state message now) := by
  refine h.modify fun st hst => ?_
  obtain ⟨hTerminal, hKept, hRacing, hAcknowledged⟩ := hState st hst
  exact ⟨⟨rfl, rfl, rfl, rfl, rfl, rfl, hTerminal⟩, hKept, hRacing, hAcknowledged⟩

/-- A receipt that waits, or is uncertain already, becomes uncertain. -/
theorem Sound.update_uncertain (h : Sound s) (message : Text) (now : Int)
    (hState : ∀ st, s.stored[n]? = some st → st.receipt.state.terminal = true →
      st.receipt.state = .uncertain) : Goes s (s.update n .uncertain message now) :=
  h.update message now fun st hst =>
    ⟨fun hTerminal => (hState st hst hTerminal).symm, nofun, fun _ => .inr rfl, nofun⟩

/-- The end of a race leaves the receipt alone. -/
theorem Sound.race (h : Sound s) {f : StoredReceipt → StoredReceipt}
    (hf : ∀ st, s.stored[n]? = some st → (f st).receipt = st.receipt ∧
      (f st).issuer = st.issuer ∧ (f st).generation = st.generation ∧
        ((f st).race ≠ .over →
          st.receipt.state = .requested ∨ st.receipt.state = .uncertain)) :
    Goes s (s.modify n f) := by
  refine h.modify fun st hst => ?_
  obtain ⟨hReceipt, hIssuer, hGeneration, hRacing⟩ := hf st hst
  refine ⟨⟨by rw [hReceipt], by rw [hReceipt], by rw [hReceipt], by rw [hReceipt], hIssuer,
    hGeneration, fun _ => by rw [hReceipt]⟩, ?_, ?_, ?_⟩
  · rw [hReceipt]
    exact h.kept n st hst
  · rw [hReceipt]
    exact hRacing
  · rw [hReceipt]
    exact h.acknowledged n st hst

/-- A terminal receipt leaves the map. -/
theorem Sound.drop (h : Sound s) (hTerminal : s.isTerminal n = true) :
    Goes s { s with receipts := s.receipts.filter (· ≠ n) } := by
  refine ⟨⟨fun i st hst hOpen => ?_, h.racing, h.generations, h.acknowledged, h.observed,
    (length_filter_le _ _).trans h.receiptsBound, h.observationsBound⟩, .refl s⟩
  have hne : i ≠ n := by
    rintro rfl
    unfold State.isTerminal at hTerminal
    have hst' : s.stored[i]? = some st := hst
    rw [hst', any_some, hOpen] at hTerminal
    cases hTerminal
  exact mem_filter.mpr ⟨h.kept i st hst hOpen, by simpa using hne⟩

/-! ## Sweeping and correlating -/

theorem Sound.sweepOne (h : Sound s) (now : Int) (n : Nat) : Goes s (s.sweepOne now n) := by
  unfold State.sweepOne
  split
  · exact .refl h
  rename_i st hst
  have hOnly : ∀ st', s.stored[n]? = some st' → st' = st := fun st' hst' => by
    rw [hst] at hst'
    exact (some.inj hst').symm
  split
  · rename_i hOld
    exact h.drop (by simp [State.isTerminal, hst, hOld.1])
  split
  · rename_i hOld
    refine h.update_uncertain _ now fun st' hst' hTerminal => ?_
    rw [hOnly st' hst', hOld.1] at hTerminal
    cases hTerminal
  split
  · rename_i hOld
    refine h.update _ now fun st' hst' => ?_
    obtain rfl := hOnly st' hst'
    rw [hOld.1]
    refine ⟨nofun, nofun, fun hRace => ?_, nofun⟩
    have hRacing := h.racing n st' hst hRace
    rw [hOld.1] at hRacing
    rcases hRacing with hRacing | hRacing <;> cases hRacing
  · exact .refl h

theorem Sound.sweep (h : Sound s) (now : Int) : Goes s (s.sweep now) :=
  goes_foldl (P := fun _ => True) (fun _ n hs _ => ⟨hs.sweepOne now n, trivial⟩) s.receipts s h
    trivial

/-- A STATUS that came after the receipt was issued. -/
theorem Sound.correlate (h : Sound s) (now : Int)
    (hNoted : ∀ st, s.stored[n]? = some st → Noted s st.receipt.uid o) :
    Goes s (s.correlate n o now) := by
  unfold State.correlate
  split
  · exact .refl h
  rename_i st hst
  dsimp only
  split
  · exact .refl h
  rename_i hLate
  obtain ⟨hSent, hGeneration, hAt⟩ : st.receipt.state = .sent ∧ st.generation < o.generation ∧
      st.receipt.requestedAt ≤ o.at_ := by
    simpa [not_or] using hLate
  have hOver : st.race = .over := by
    by_contra hRace
    have hRacing := h.racing n st hst hRace
    rw [hSent] at hRacing
    rcases hRacing with hRacing | hRacing <;> cases hRacing
  have hOnly : ∀ st', s.stored[n]? = some st' → st' = st := fun st' hst' => by
    rw [hst] at hst'
    exact (some.inj hst').symm
  split
  · refine h.update_uncertain _ now fun st' hst' hTerminal => ?_
    rw [hOnly st' hst', hSent] at hTerminal
    cases hTerminal
  rename_i hBoot
  split
  · rename_i hSequence
    refine h.update _ now fun st' hst' => ?_
    obtain rfl := hOnly st' hst'
    rw [hSent]
    refine ⟨nofun, nofun, fun hRace => absurd hOver hRace, fun _ => ?_⟩
    obtain ⟨heard, hMem, hUid, hSeq, hHeardBoot, hHeardAt, hSends⟩ := hNoted st' hst
    refine ⟨heard, hMem, hSends n st' hst hGeneration, hUid, by rw [hSequence, hSeq],
      fun hKnown => ?_, hHeardAt ▸ hAt⟩
    rw [hHeardBoot]
    by_contra hDiffers
    exact hBoot ⟨hKnown, hDiffers⟩
  · exact .refl h

theorem Noted.correlate {uid : Text} {o' : Observation} (h : Noted s uid o) (now : Int) :
    Noted (s.correlate n o' now) uid o := by
  unfold State.correlate
  split
  · exact h
  dsimp only
  split
  · exact h
  split
  · exact h.modify fun _ => rfl
  split
  · exact h.modify fun _ => rfl
  · exact h

/-- The room for a new observation. -/
theorem roomForObservation_spec (h : Sound s) :
    s.roomForObservation.size < maxReceipts ∧
      ∀ uid o, s.roomForObservation.get uid = some o → s.observations.get uid = some o := by
  unfold State.roomForObservation
  split
  · rename_i hFull
    have hSize : s.observations.size = maxReceipts :=
      le_antisymm h.observationsBound hFull
    refine ⟨?_, fun uid o ho => ?_⟩
    · cases hEntries : s.observations.entries with
      | nil => simp [JsMap.size, hEntries, maxReceipts] at hSize
      | cons e es =>
        have hKey : s.observations.keys.head?.getD [] = e.1 := by simp [JsMap.keys, hEntries]
        rw [hKey]
        exact lt_of_lt_of_eq (size_delete_lt (by simp [JsMap.keys, hEntries])) hSize
    · rw [get_delete] at ho
      split at ho
      · cases ho
      · exact ho
  · rename_i hRoom
    exact ⟨Nat.lt_of_not_le hRoom, fun _ _ ho => ho⟩

theorem Sound.observeStatus (h : Sound s) (uid : Text) (sequence : Nat) (boot : Option Nat)
    (at_ now : Int) : Goes s (s.observeStatus uid sequence boot at_ now) := by
  refine (h.sweep now).trans fun hSwept => ?_
  unfold State.observeStatus
  dsimp only
  generalize s.sweep now = t at hSwept ⊢
  set o : Observation := ⟨sequence, boot, t.generation + 1, at_⟩
  set heard : Heard := ⟨uid, sequence, boot, at_, t.stored.length⟩
  set u : State := { t with
    observations := t.roomForObservation.set uid o
    generation := t.generation + 1
    heard := t.heard ++ [heard] }
  obtain ⟨hRoom, hOld⟩ := roomForObservation_spec hSwept
  have hNoted : Noted u uid o := by
    refine ⟨heard, by simp [u], rfl, rfl, rfl, rfl, fun n st hst _ => ?_⟩
    exact (List.getElem?_eq_some_iff.mp hst).1
  have hSound : Goes t u := by
    refine ⟨⟨hSwept.kept, hSwept.racing, fun n st hst => ?_, fun n st hst hAcked => ?_, ?_,
      hSwept.receiptsBound, ?_⟩, .refl t⟩
    · exact (hSwept.generations n st hst).trans (Nat.le_succ _)
    · obtain ⟨old, hMem, hRest⟩ := hSwept.acknowledged n st hst hAcked
      exact ⟨old, mem_append_left _ hMem, hRest⟩
    · intro uid' o' ho'
      have ho'' : (t.roomForObservation.set uid o).get uid' = some o' := ho'
      rw [get_set] at ho''
      split at ho''
      · rename_i hUid
        obtain rfl := some.inj ho''
        exact ⟨le_rfl, hUid ▸ hNoted⟩
      · obtain ⟨hGeneration, old, hMem, hRest⟩ := hSwept.observed uid' o' (hOld uid' o' ho'')
        exact ⟨hGeneration.trans (Nat.le_succ _), old, mem_append_left _ hMem, hRest⟩
    · exact (size_set_le _ _ _).trans hRoom
  refine hSound.trans fun hu => ?_
  refine goes_foldl (P := fun s => Noted s uid o) (fun s n hs hP => ?_) u.receipts u hu hNoted
  unfold State.correlateUid
  split
  · rename_i hUid
    refine ⟨hs.correlate now fun st hst => ?_, hP.correlate now⟩
    rw [hst, any_some, decide_eq_true_eq] at hUid
    rw [hUid]
    exact hP
  · exact ⟨.refl hs, hP⟩

/-! ## Sending -/

theorem Sound.reserve (h : Sound s) (hReserve : s.reserve = .ok s') :
    Goes s s' ∧ s'.receipts.length < maxReceipts := by
  unfold State.reserve at hReserve
  split at hReserve
  · cases hReserve
  split at hReserve
  · cases hReserve
  split at hReserve
  · rename_i hRoom
    cases hReserve
    exact ⟨.refl h, hRoom⟩
  split at hReserve
  · rename_i n hFind
    cases hReserve
    refine ⟨h.drop (find?_some hFind), lt_of_lt_of_le ?_ h.receiptsBound⟩
    exact length_filter_lt_length_iff_exists.mpr
      ⟨n, mem_of_find?_eq_some hFind, by simp⟩
  · cases hReserve

theorem Sound.issue (h : Sound s) (hRoom : s.receipts.length < maxReceipts)
    (command : NodeCommand) (issuer : Text) (boot : Option Nat) (now : Int) :
    Goes s (s.issue command issuer boot now) := by
  have hLast : ∀ (n : Nat) st, (s.issue command issuer boot now).stored[n]? = some st →
      s.stored[n]? = some st ∨ (n = s.stored.length ∧ st.receipt.state = .requested ∧
        st.race = .over ∧ st.generation = s.generation) := by
    intro n st hst
    have hst' : (s.stored ++ [_])[n]? = some st := hst
    rcases Nat.lt_or_ge n s.stored.length with hn | hn
    · rw [getElem?_append_left hn] at hst'
      exact Or.inl hst'
    · rw [getElem?_append_right hn, getElem?_singleton] at hst'
      split at hst'
      · obtain rfl := some.inj hst'
        exact Or.inr ⟨by omega, rfl, rfl, rfl⟩
      · cases hst'
  have hOld : ∀ (n : Nat) st, s.stored[n]? = some st →
      (s.issue command issuer boot now).stored[n]? = some st := by
    intro n st hst
    have hn := (List.getElem?_eq_some_iff.mp hst).1
    show (s.stored ++ [_])[n]? = some st
    rw [getElem?_append_left hn, hst]
  refine ⟨⟨?_, ?_, ?_, ?_, ?_, ?_, h.observationsBound⟩, fun n st hst => ?_⟩
  · intro n st hst hOpen
    rcases hLast n st hst with hst | ⟨rfl, _⟩
    · exact mem_append_left _ (h.kept n st hst hOpen)
    · exact mem_append_right _ (mem_singleton_self _)
  · intro n st hst hRace
    rcases hLast n st hst with hst | ⟨_, hState, _⟩
    · exact h.racing n st hst hRace
    · exact Or.inl hState
  · intro n st hst
    rcases hLast n st hst with hst | ⟨_, _, _, hGeneration⟩
    · exact h.generations n st hst
    · exact hGeneration.le
  · intro n st hst hAcked
    rcases hLast n st hst with hst | ⟨_, hState, _⟩
    · exact h.acknowledged n st hst hAcked
    · rw [hState] at hAcked
      cases hAcked
  · intro uid o ho
    obtain ⟨hGeneration, heard, hMem, hUid, hSequence, hBoot, hAt, hSends⟩ := h.observed uid o ho
    refine ⟨hGeneration, heard, hMem, hUid, hSequence, hBoot, hAt, fun n st hst hLt => ?_⟩
    rcases hLast n st hst with hst | ⟨_, _, _, hNew⟩
    · exact hSends n st hst hLt
    · rw [hNew] at hLt
      exact absurd hGeneration (Nat.not_le_of_lt hLt)
  · show (s.receipts ++ [_]).length ≤ maxReceipts
    rw [length_append]
    exact hRoom
  · exact ⟨st, hOld n st hst, .refl st⟩

/-- The receipt that was just issued. -/
theorem issue_last (s : State) (command : NodeCommand) (issuer : Text) (boot : Option Nat)
    (now : Int) {st : StoredReceipt}
    (hst : (s.issue command issuer boot now).stored[s.stored.length]? = some st) :
    st.receipt.state = .requested ∧ st.race = .over := by
  have hst' : (s.stored ++ [_])[s.stored.length]? = some st := hst
  rw [getElem?_append_right le_rfl, Nat.sub_self] at hst'
  obtain rfl := some.inj hst'
  exact ⟨rfl, rfl⟩

theorem Sound.dispatching (h : Sound s) (l : List Nat) : Goes s { s with dispatching := l } :=
  ⟨⟨h.kept, h.racing, h.generations, h.acknowledged, h.observed, h.receiptsBound,
    h.observationsBound⟩, .refl s⟩

theorem Sound.send (h : Sound s) (command : NodeCommand) (issuer : Text) (boot : Option Nat)
    (authorized : Option Bool) (now : Int) :
    Goes s (s.send command issuer boot authorized now).1 := by
  have hSweep := h.sweep now
  unfold State.send
  split
  · exact hSweep
  rename_i t hReserve
  obtain ⟨hGoes, hRoom⟩ := hSweep.1.reserve hReserve
  refine (hSweep.trans fun _ => hGoes).trans fun ht => ?_
  refine (ht.issue hRoom command issuer boot now).trans fun hi => ?_
  have hNew := fun st => @issue_last t command issuer boot now st
  dsimp only
  split
  · have hWaiting := hi.race (n := t.stored.length) (f := ({ · with race := .waiting }))
      fun st hst => ⟨rfl, rfl, rfl, fun _ => .inl (hNew st hst).1⟩
    exact hWaiting.trans fun hw => hw.dispatching _
  · refine hi.update _ now fun st hst => ?_
    rw [(hNew st hst).1]
    exact ⟨nofun, nofun, fun hRace => absurd (hNew st hst).2 hRace, nofun⟩
  · refine hi.update_uncertain _ now fun st hst hTerminal => ?_
    rw [(hNew st hst).1] at hTerminal
    cases hTerminal

theorem Sound.settle (h : Sound s) (n : Nat) (outcome : Except Bool Nat) :
    Goes s (s.settle n outcome) := by
  refine (h.dispatching _).trans fun hd => hd.race fun st hst => ?_
  split
  · rename_i hRace
    have hOpen := hd.racing n st hst (by simp [hRace])
    split
    · exact ⟨rfl, rfl, rfl, fun _ => hOpen⟩
    · exact ⟨rfl, rfl, rfl, fun _ => hOpen⟩
  · exact ⟨rfl, rfl, rfl, hd.racing n st hst⟩

theorem Sound.dispatchTimer (h : Sound s) (n : Nat) (now : Int) :
    Goes s (s.dispatchTimer n now) := by
  unfold State.dispatchTimer
  split
  · rename_i hWaiting
    have hOpen : ∀ st, s.stored[n]? = some st →
        st.receipt.state = .requested ∨ st.receipt.state = .uncertain := by
      intro st hst
      rw [hst, any_some, decide_eq_true_eq] at hWaiting
      exact h.racing n st hst (by simp [hWaiting])
    have hUpdate := h.update_uncertain (n := n) State.dispatchTimedOut now
      fun st hst hTerminal => by
        rcases hOpen st hst with hState | hState
        · rw [hState] at hTerminal
          cases hTerminal
        · exact hState
    refine hUpdate.trans fun hu => hu.race fun st hst => ⟨rfl, rfl, rfl, fun _ => .inr ?_⟩
    unfold State.update at hst
    rw [modify_get, map_eq_some_iff] at hst
    obtain ⟨old, _, rfl⟩ := hst
    rw [if_pos rfl]
  · exact .refl h

theorem isTerminal_false (h : s.isTerminal n = false) {st : StoredReceipt}
    (hst : s.stored[n]? = some st) : st.receipt.state.terminal = false := by
  unfold State.isTerminal at h
  rwa [hst, any_some] at h

/-- A dispatch that resolved: its receipt is sent, and may be acknowledged at once. -/
theorem Sound.dispatched (h : Sound s) {sequence : Nat}
    (hRace : ∀ st, s.stored[n]? = some st → st.race = .resolved sequence) (now : Int) :
    Goes s (s.dispatched n sequence now) := by
  have hOpen : ∀ st, s.stored[n]? = some st →
      st.receipt.state = .requested ∨ st.receipt.state = .uncertain :=
    fun st hst => h.racing n st hst (by simp [hRace st hst])
  unfold State.dispatched
  dsimp only
  set f : StoredReceipt → StoredReceipt := fun stored =>
    { stored with receipt := { stored.receipt with sequence := some sequence }, race := .over }
    with hf
  have hModify : Goes s (s.modify n f) := h.modify fun st hst => by
    refine ⟨⟨rfl, rfl, rfl, rfl, rfl, rfl, fun _ => rfl⟩, h.kept n st hst,
      fun hNot => absurd rfl hNot, fun hAck => ?_⟩
    have hAck' : st.receipt.state = .acknowledged := hAck
    rcases hOpen st hst with hState | hState <;> rw [hState] at hAck' <;> cases hAck'
  have hOver : ∀ st, (s.modify n f).stored[n]? = some st → st.race = .over := by
    intro st hst
    rw [modify_get, map_eq_some_iff] at hst
    obtain ⟨old, _, rfl⟩ := hst
    rw [if_pos rfl]
  refine hModify.trans fun hm => ?_
  split
  · exact .refl hm
  rename_i hTerminal
  have hWaits := fun st => @isTerminal_false _ _ (Bool.eq_false_iff.mpr hTerminal) st
  split
  · refine hm.update_uncertain _ now fun st hst hEnded => ?_
    rw [hWaits st hst] at hEnded
    cases hEnded
  have hSent : Goes (s.modify n f) ((s.modify n f).update n .sent
      (js "Sent — waiting for device.") now) := by
    refine hm.update _ now fun st hst => ⟨fun hEnded => ?_, fun _ => ?_, fun hNot => ?_,
      by rintro ⟨⟩⟩
    · rw [hWaits st hst] at hEnded
      cases hEnded
    · exact hm.kept n st hst (hWaits st hst)
    · exact absurd (hOver st hst) hNot
  refine hSent.trans fun hs => ?_
  split
  · rename_i observed hObserved
    refine hs.correlate now fun st hst => ?_
    rw [hst, bind_some] at hObserved
    exact (hs.observed _ _ hObserved).2
  · exact .refl hs

theorem Sound.resume (h : Sound s) (n : Nat) (now : Int) : Goes s (s.resume n now).1 := by
  unfold State.resume
  split
  · rename_i sequence hRace
    refine h.dispatched (fun st hst => ?_) now
    rw [hst, map_some] at hRace
    exact some.inj hRace
  · rename_i unavailable hRace
    refine (h.update_uncertain _ now fun st hst hTerminal => ?_).trans fun hu =>
      hu.race fun _ _ => ⟨rfl, rfl, rfl, nofun⟩
    rw [hst, map_some] at hRace
    rcases h.racing n st hst (by simp [some.inj hRace]) with hState | hState
    · rw [hState] at hTerminal
      cases hTerminal
    · exact hState
  · exact h.race fun _ _ => ⟨rfl, rfl, rfl, nofun⟩
  · exact .refl h

/-! ## Stopping -/

theorem Sound.stopOne (h : Sound s) (now : Int) (n : Nat) : Goes s (s.stopOne now n) := by
  unfold State.stopOne
  split
  · exact .refl h
  · rename_i hOpen
    refine h.update_uncertain _ now fun st hst hTerminal => ?_
    rw [isTerminal_false (Bool.eq_false_iff.mpr hOpen) hst] at hTerminal
    cases hTerminal

theorem Sound.dispose (h : Sound s) (now : Int) : Goes s (s.dispose now) := by
  have hStopped : Goes s { s with stopped := true } :=
    ⟨⟨h.kept, h.racing, h.generations, h.acknowledged, h.observed, h.receiptsBound,
      h.observationsBound⟩, .refl s⟩
  have hAll := hStopped.trans fun hs => goes_foldl (P := fun _ => True)
    (fun _ n ht _ => ⟨ht.stopOne now n, trivial⟩) s.receipts _ hs trivial
  refine hAll.trans fun hu => ⟨⟨hu.kept, hu.racing, hu.generations, hu.acknowledged, ?_,
    hu.receiptsBound, Nat.zero_le _⟩, .refl _⟩
  intro uid o ho
  cases ho

/-! ## Runs -/

/-- Every step keeps the receipts in order and follows the ones there are. -/
theorem Goes.step (h : Sound s) (e : Event) : Goes s (step s e) := by
  cases e with
  | send command issuer boot authorized now => exact h.send command issuer boot authorized now
  | settle n outcome => exact h.settle n outcome
  | dispatchTimer n now => exact h.dispatchTimer n now
  | resume n now => exact h.resume n now
  | get issuer uid id now => exact h.sweep now
  | observeStatus uid sequence boot at_ now => exact h.observeStatus uid sequence boot at_ now
  | dispose now => exact h.dispose now

theorem sound_init : Sound {} where
  kept _ _ hst := nomatch hst
  racing _ _ hst := nomatch hst
  generations _ _ hst := nomatch hst
  acknowledged _ _ hst := nomatch hst
  observed _ _ ho := nomatch ho
  receiptsBound := Nat.zero_le _
  observationsBound := Nat.zero_le _

theorem goes_run (h : Sound s) (es : List Event) : Goes s (run step s es) := by
  induction es generalizing s with
  | nil => exact .refl h
  | cons e es ih => exact (Goes.step h e).trans fun h' => ih h'

/-- After every run, however it goes on: a terminal state is the last one; what is
acknowledged is so by a STATUS of its uid with its sequence, from its boot if that was
known, observed after the receipt was issued and stamped no earlier than it was requested; a
receipt that waits is in the map; both maps hold at most 512 entries; and `get` answers
with a receipt only its issuer, for its uid. -/
theorem receipts_honest (es : List Event) :
    (∀ fs (n : Nat) st, (run step {} es).stored[n]? = some st →
        ∃ st', (run step {} (es ++ fs)).stored[n]? = some st' ∧
          st'.receipt.uid = st.receipt.uid ∧ st'.issuer = st.issuer ∧
            (st.receipt.state.terminal = true → st'.receipt.state = st.receipt.state)) ∧
      (∀ (n : Nat) st, (run step {} es).stored[n]? = some st →
        st.receipt.state = .acknowledged →
          Acknowledgement (run step {} es).heard n st.receipt) ∧
      (∀ (n : Nat) st, (run step {} es).stored[n]? = some st →
        st.receipt.state = .requested ∨ st.receipt.state = .sent →
          n ∈ (run step {} es).receipts) ∧
      (run step {} es).receipts.length ≤ 512 ∧
      (run step {} es).observations.size ≤ 512 ∧
      ∀ issuer uid (id : Nat) now receipt,
        ((run step {} es).get issuer uid id now).2 = some receipt →
          ∃ st, ((run step {} es).get issuer uid id now).1.stored[id]? = some st ∧
            st.receipt = receipt ∧ st.issuer = issuer ∧ receipt.uid = uid := by
  have h := (goes_run sound_init es).1
  refine ⟨fun fs n st hst => ?_, h.acknowledged, fun n st hst hState => ?_, h.receiptsBound,
    h.observationsBound, fun issuer uid id now receipt hGet => ?_⟩
  · obtain ⟨st', hst', hFollows⟩ := (goes_run h fs).2 n st hst
    rw [← run_append] at hst'
    exact ⟨st', hst', hFollows.uid, hFollows.issuer, hFollows.terminal⟩
  · refine h.kept n st hst ?_
    rcases hState with hState | hState <;> rw [hState] <;> rfl
  · unfold State.get at hGet
    dsimp only at hGet
    split at hGet
    · obtain ⟨st', hFilter, rfl⟩ := Option.map_eq_some_iff.mp hGet
      obtain ⟨hst', hTest⟩ := Option.filter_eq_some_iff.mp hFilter
      obtain ⟨hIssuer, hUid⟩ := of_decide_eq_true hTest
      exact ⟨st', hst', rfl, hIssuer, hUid⟩
    · cases hGet

end TMEdge.Commands
