import TMEdge.Train.Complete

/-!
# The quota of a person

* `Alone`: a call of the person that enters its upload finds no pending upload of theirs
  that was not pending when it made its checks.
* `Fits`: what is pending is within the limits, and what a call has counted covers those of
  its uploads that are still pending.
* `quota_kept`: runs in which every upload enters alone.
* `quota_passed`: two uploads at once.
-/

namespace TMEdge.Train

open Library List JsMap

/-! ## Definitions -/

def pendingOf (s : Uploads) (user : Text) : List Upload := s.pending.values.filter (·.user = user)

/-- The next arrival may enter the upload of the call. -/
def enters (c : Receive) : Bool :=
  match c.stage with
  | .receiving => kindOf c.filename = .py
  | .finishing => true
  | _ => false

def Alone (user : Text) (s : Uploads) : UploadEvent → Prop
  | .resume n _ _ => (s.calls[n]?).any (fun c => c.user = user && enters c) = true →
      ∀ c, s.calls[n]? = some c → ∀ u ∈ pendingOf s user, u.id ∈ c.mine
  | _ => True

def Returned (calls : List Receive) (id : Nat) : Prop :=
  ∃ c, calls[id]? = some c ∧ ∃ upload, c.stage = .returned upload

/-- No call is going on, and every pending upload is that of a call that returned. -/
structure AtRest (s : Uploads) : Prop where
  calls : ∀ c ∈ s.calls, c.stage = .failed ∨ ∃ upload, c.stage = .returned upload
  pending : ∀ id upload, s.pending.get id = some upload → upload.id = id ∧ Returned s.calls id

/-- What is pending of the uploads a call has counted. -/
def counted (s : Uploads) (user : Text) (mine : List Nat) : Nat :=
  (((pendingOf s user).filter fun u => u.id ∈ mine).map Upload.unpackedBytes).sum

/-- A call that goes on: what it counted, and what it is about to add. -/
structure Counted (cfg : HpcConfig) (s : Uploads) (c : Receive) : Prop where
  mine : ∀ id ∈ c.mine, Returned s.calls id
  length : c.mine.length < maxPendingPerUser
  used : counted s c.user c.mine ≤ c.used
  judged : c.stage = .receiving ∨ c.stage = .reading ∨
    c.used + c.unpackedBytes ≤ Uploads.quota cfg

structure Fits (cfg : HpcConfig) (user : Text) (s : Uploads) : Prop where
  pending : ∀ id upload, s.pending.get id = some upload → upload.id = id ∧ Returned s.calls id
  total : s.usage user ≤ Uploads.quota cfg
  count : (pendingOf s user).length ≤ maxPendingPerUser
  calls : ∀ (n : Nat) c, s.calls[n]? = some c → c.user = user → c.stage ≠ .failed →
    (∀ upload, c.stage ≠ .returned upload) → Counted cfg s c

variable {s t : Uploads} {n id : Nat} {c c' : Receive} {upload : Upload} {cfg : HpcConfig}
  {user : Text} {mine : List Nat}

/-! ## Fewer uploads -/

theorem sum_le_of_sublist {l l' : List Upload} (h : l.Sublist l') :
    (l.map Upload.unpackedBytes).sum ≤ (l'.map Upload.unpackedBytes).sum :=
  (h.map _).sum_le_sum fun _ _ => Nat.zero_le _

theorem pendingOf_sublist (h : t.pending.entries.Sublist s.pending.entries) (user : Text) :
    (pendingOf t user).Sublist (pendingOf s user) :=
  (h.map Prod.snd).filter _

theorem counted_le (h : t.pending.entries.Sublist s.pending.entries) (user : Text)
    (mine : List Nat) : counted t user mine ≤ counted s user mine :=
  sum_le_of_sublist ((pendingOf_sublist h user).filter _)

theorem counted_le_usage (s : Uploads) (user : Text) (mine : List Nat) :
    counted s user mine ≤ s.usage user :=
  sum_le_of_sublist filter_sublist

/-- Where all that is pending was counted, nothing else is. -/
theorem usage_eq_counted (h : ∀ u ∈ pendingOf s user, u.id ∈ mine) :
    s.usage user = counted s user mine := by
  have hAll : (pendingOf s user).filter (fun u => u.id ∈ mine) = pendingOf s user :=
    filter_eq_self.mpr fun u hu => decide_eq_true (h u hu)
  unfold counted
  rw [hAll]
  rfl

/-- Uploads leave the map; the calls are those there were. -/
theorem Fits.forget (h : Fits cfg user s) (hCalls : t.calls = s.calls)
    (hPending : t.pending.entries.Sublist s.pending.entries) : Fits cfg user t where
  pending id upload hGet := by
    rw [hCalls]
    refine h.pending id upload ?_
    rw [get_eq_some_iff] at hGet ⊢
    exact hPending.subset hGet
  total := (sum_le_of_sublist (pendingOf_sublist hPending user)).trans h.total
  count := (pendingOf_sublist hPending user).length_le.trans h.count
  calls n c hc hUser hFailed hOpen := by
    rw [hCalls] at hc
    obtain ⟨hMine, hLength, hUsed, hJudged⟩ := h.calls n c hc hUser hFailed hOpen
    exact ⟨hCalls ▸ hMine, hLength, (counted_le hPending _ _).trans hUsed, hJudged⟩

theorem drop_sublist (ids : List Nat) (s : Uploads) :
    (ids.foldl Uploads.drop s).pending.entries.Sublist s.pending.entries ∧
      (ids.foldl Uploads.drop s).calls = s.calls := by
  induction ids generalizing s with
  | nil => exact ⟨.refl _, rfl⟩
  | cons id ids ih =>
    obtain ⟨hSublist, hCalls⟩ := ih (s.drop id)
    exact ⟨hSublist.trans filter_sublist, hCalls⟩

/-! ## Calls that go on -/

theorem Returned.set {id : Nat} (h : Returned s.calls id) (hc : s.calls[n]? = some c)
    (hOpen : ∀ upload, c.stage ≠ .returned upload) (c' : Receive) :
    Returned (s.calls.set n c') id ∧ id ≠ n := by
  obtain ⟨c₀, hc₀, upload, hStage⟩ := h
  have hNe : id ≠ n := by
    rintro rfl
    rw [hc] at hc₀
    obtain rfl := Option.some.inj hc₀
    exact hOpen upload hStage
  refine ⟨⟨c₀, ?_, upload, hStage⟩, hNe⟩
  rw [getElem?_set_call hc, if_neg hNe, hc₀]

/-- A call goes on with what it counted. -/
theorem Fits.goesOn (h : Fits cfg user s) (hc : s.calls[n]? = some c)
    (hFailed : c.stage ≠ .failed) (hOpen : ∀ upload, c.stage ≠ .returned upload)
    (hSame : c'.user = c.user ∧ c'.mine = c.mine ∧ c'.used = c.used)
    (hJudged : c.user = user → c'.stage = .failed ∨ c'.stage = .reading ∨
      c'.used + c'.unpackedBytes ≤ Uploads.quota cfg)
    (dirs : JsMap Nat UploadDir) :
    Fits cfg user { s with calls := s.calls.set n c', dirs } := by
  obtain ⟨hUser, hMine, hUsed⟩ := hSame
  refine ⟨fun id upload hGet => ?_, h.total, h.count, fun i d hd hUser' hFailed' hOpen' => ?_⟩
  · obtain ⟨hId, hCall⟩ := h.pending id upload hGet
    exact ⟨hId, (hCall.set hc hOpen c').1⟩
  · have hSet : (s.calls.set n c')[i]? = some d := hd
    rw [getElem?_set_call hc] at hSet
    split at hSet
    · obtain rfl := Option.some.inj hSet
      obtain ⟨hOldMine, hLength, hOldUsed, _⟩ := h.calls n c hc (hUser ▸ hUser') hFailed hOpen
      refine ⟨fun id hId => ((hOldMine id (hMine ▸ hId)).set hc hOpen c').1, hMine ▸ hLength, ?_,
        Or.inr ((hJudged (hUser ▸ hUser')).resolve_left hFailed')⟩
      rw [hUser, hMine, hUsed]
      exact hOldUsed
    · have hOld := h.calls i d hSet hUser' hFailed' hOpen'
      exact ⟨fun id hId => ((hOld.mine id hId).set hc hOpen c').1, hOld.length, hOld.used,
        hOld.judged⟩

theorem Fits.fail (h : Fits cfg user s) (hc : s.calls[n]? = some c) (hFailed : c.stage ≠ .failed)
    (hOpen : ∀ upload, c.stage ≠ .returned upload) : Fits cfg user (s.fail n c) := by
  refine h.goesOn hc hFailed hOpen ?_ ?_ _
  · exact ⟨rfl, rfl, rfl⟩
  · exact fun _ => Or.inl rfl

theorem pendingOf_set (hNew : s.pending.get n = none) (upload : Upload) (user : Text)
    (calls : List Receive) (dirs : JsMap Nat UploadDir) :
    pendingOf { s with calls, dirs, pending := s.pending.set n upload } user =
      pendingOf s user ++ if upload.user = user then [upload] else [] := by
  have hKeys : n ∉ s.pending.keys := by
    rw [← has_iff_mem_keys, JsMap.has, hNew]
    exact Bool.false_ne_true
  change (s.pending.set n upload).values.filter _ = _
  rw [values_set_new hKeys, filter_append, filter_singleton, Bool.cond_decide]
  rfl

/-- An upload enters: alone, if it is one of the person's. -/
theorem Fits.return_ (h : Fits cfg user s) (hc : s.calls[n]? = some c)
    (hFailed : c.stage ≠ .failed) (hOpen : ∀ upload, c.stage ≠ .returned upload)
    (hSame : c'.user = c.user ∧ c'.mine = c.mine ∧ c'.used = c.used)
    (hJudged : c.user = user → c'.used + c'.unpackedBytes ≤ Uploads.quota cfg)
    (hAlone : c.user = user → ∀ u ∈ pendingOf s user, u.id ∈ c.mine) (d : UploadDir)
    (files : List Text) (now : Int) : Fits cfg user (s.return_ n c' d files now) := by
  obtain ⟨hUser, hMine, hUsed⟩ := hSame
  have hNew : s.pending.get n = none := by
    cases hGet : s.pending.get n with
    | none => rfl
    | some upload => exact absurd rfl ((h.pending n upload hGet).2.set hc hOpen c).2
  have hPending : ∀ user, pendingOf (s.return_ n c' d files now) user = _ := fun user =>
    pendingOf_set hNew (Uploads.uploadOf n c' files now) user _ _
  have hOwn : c.user = user → s.usage user ≤ c.used ∧
      (pendingOf s user).length < maxPendingPerUser := by
    intro hUser'
    have hCounted := h.calls n c hc hUser' hFailed hOpen
    have hAll := hAlone hUser'
    constructor
    · rw [usage_eq_counted hAll, ← hUser']
      exact hCounted.used
    · have hNodup : ((pendingOf s user).map Upload.id).Nodup := by
        have hIndexed : JsMap.Indexed Upload.id s.pending :=
          fun id upload hGet => (h.pending id upload hGet).1
        exact hIndexed.nodup_filter _
      have hSub : (pendingOf s user).map Upload.id ⊆ c.mine := by
        intro id hId
        obtain ⟨u, hu, rfl⟩ := mem_map.mp hId
        exact hAll u hu
      have hLength := (subperm_of_subset hNodup hSub).length_le
      rw [length_map] at hLength
      exact lt_of_le_of_lt hLength hCounted.length
  refine ⟨fun id upload hGet => ?_, ?_, ?_, fun i d' hd hUser' hFailed' hOpen' => ?_⟩
  · have hSet : (s.pending.set n _).get id = some upload := hGet
    rw [get_set] at hSet
    split at hSet
    · rename_i hId
      obtain rfl := Option.some.inj hSet
      exact ⟨hId.symm, _, (getElem?_set_call hc _ id).trans (if_pos hId), _, rfl⟩
    · obtain ⟨hId, hCall⟩ := h.pending id upload hSet
      exact ⟨hId, (hCall.set hc hOpen _).1⟩
  · change ((pendingOf (s.return_ n c' d files now) user).map Upload.unpackedBytes).sum ≤ _
    rw [hPending, map_append, sum_append]
    have hOld : ((pendingOf s user).map Upload.unpackedBytes).sum = s.usage user := rfl
    split
    · rename_i hOwner
      have hUser' : c.user = user := hUser.symm.trans hOwner
      have hEntered : ([Uploads.uploadOf n c' files now].map Upload.unpackedBytes).sum =
          c'.unpackedBytes := by simp [Uploads.uploadOf]
      have hBound := hJudged hUser'
      have hBefore := (hOwn hUser').1
      rw [hEntered, hOld]
      omega
    · exact h.total
  · rw [hPending, length_append]
    split
    · rename_i hOwner
      exact (hOwn (hUser.symm.trans hOwner)).2
    · exact h.count
  · have hSet : (s.calls.set n _)[i]? = some d' := hd
    rw [getElem?_set_call hc] at hSet
    split at hSet
    · obtain rfl := Option.some.inj hSet
      exact absurd rfl (hOpen' _)
    · have hOld := h.calls i d' hSet hUser' hFailed' hOpen'
      refine ⟨fun id hId => ((hOld.mine id hId).set hc hOpen _).1, hOld.length, ?_, hOld.judged⟩
      have hSame : counted (s.return_ n c' d files now) d'.user d'.mine =
          counted s d'.user d'.mine := by
        have hNot : n ∉ d'.mine := fun hMem => ((hOld.mine n hMem).set hc hOpen c).2 rfl
        unfold counted
        rw [hPending, filter_append]
        have hNone : (if (Uploads.uploadOf n c' files now).user = d'.user then
            [Uploads.uploadOf n c' files now] else []).filter (fun u => u.id ∈ d'.mine) = [] := by
          refine filter_eq_nil_iff.mpr fun u hu => ?_
          split at hu
          · rw [mem_singleton.mp hu, decide_eq_true_eq]
            exact hNot
          · cases hu
        rw [hNone, append_nil]
      rw [hSame]
      exact hOld.used

/-! ## Steps -/

/-- A call goes on behind its check of the quota. -/
theorem Fits.judged (h : Fits cfg user s) (hc : s.calls[n]? = some c)
    (hFailed : c.stage ≠ .failed) (hOpen : ∀ upload, c.stage ≠ .returned upload)
    (hLate : c.stage ≠ .receiving ∧ c.stage ≠ .reading) (stage : ReceiveStage)
    (dirs : JsMap Nat UploadDir) :
    Fits cfg user { s with calls := s.calls.set n { c with stage }, dirs } := by
  refine h.goesOn hc hFailed hOpen ?_ (fun hUser => ?_) dirs
  · exact ⟨rfl, rfl, rfl⟩
  · have hCounted := h.calls n c hc hUser hFailed hOpen
    exact Or.inr (Or.inr ((hCounted.judged.resolve_left hLate.1).resolve_left hLate.2))

theorem Fits.rooted (h : Fits cfg user s) (hc : s.calls[n]? = some c)
    (hStage : c.stage = .rooting) : Fits cfg user (s.rooted n c) := by
  have hFailed : c.stage ≠ .failed := by simp [hStage]
  have hOpen : ∀ upload, c.stage ≠ .returned upload := by simp [hStage]
  unfold Uploads.rooted
  split
  · exact h.judged hc hFailed hOpen (by simp [hStage]) _ _
  · exact h.fail hc hFailed hOpen

theorem Fits.extract (h : Fits cfg user s) (hc : s.calls[n]? = some c) {made rest : List ZipEntry}
    {e : ZipEntry} {phase : ExtractPhase} (hStage : c.stage = .extracting made e phase rest)
    (outcome : Nat × Nat) : Fits cfg user (s.extract n c made e rest outcome phase) := by
  have hFailed : c.stage ≠ .failed := by simp [hStage]
  have hOpen : ∀ upload, c.stage ≠ .returned upload := by simp [hStage]
  have hLate : c.stage ≠ .receiving ∧ c.stage ≠ .reading := by simp [hStage]
  cases phase with
  | making =>
    unfold Uploads.extract
    dsimp only
    split
    · exact h.judged hc hFailed hOpen hLate _ _
    · exact h.fail hc hFailed hOpen
  | opening =>
    unfold Uploads.extract
    dsimp only
    split
    · exact h.judged hc hFailed hOpen hLate _ _
    · exact h.fail hc hFailed hOpen
  | streaming =>
    unfold Uploads.extract
    dsimp only
    generalize (if e.compressedSize = 0 then ((0 : Nat), (0 : Nat)) else outcome) = result
    split
    · exact h.fail hc hFailed hOpen
    split
    · exact h.judged hc hFailed hOpen hLate _ _
    · exact h.judged hc hFailed hOpen hLate _ s.dirs

theorem Fits.resume (h : Fits cfg user s) (n : Nat) (arrival : Uploads.Arrival) (now : Int)
    (hAlone : Alone user s (.resume n arrival now)) :
    Fits cfg user (s.resume cfg n arrival now) := by
  unfold Uploads.resume
  split
  · exact h
  rename_i c hc
  have hEnter : c.user = user → enters c = true → ∀ u ∈ pendingOf s user, u.id ∈ c.mine := by
    intro hUser hEnters
    refine hAlone ?_ c hc
    rw [hc, Option.any_some, hEnters, Bool.and_true]
    exact decide_eq_true hUser
  split
  · exact h
  · exact h
  · rename_i hReturned hFailed
    exact h.fail hc (fun hStage => hFailed hStage) fun upload hStage => hReturned upload hStage
  · rename_i hStage
    have hFailed : c.stage ≠ .failed := by simp [hStage]
    have hOpen : ∀ upload, c.stage ≠ .returned upload := by simp [hStage]
    unfold Uploads.received
    split
    · exact h.fail hc hFailed hOpen
    split
    · rename_i hKind
      split
      · exact h.fail hc hFailed hOpen
      · rename_i hText
        refine h.return_ hc hFailed hOpen ?_ (fun _ => ?_) (fun hUser => ?_) _ _ now
        · exact ⟨rfl, rfl, rfl⟩
        · exact Nat.le_of_not_lt fun hOver => hText (Or.inr hOver)
        · refine hEnter hUser ?_
          unfold enters
          rw [hStage]
          exact decide_eq_true hKind
    · refine h.goesOn hc hFailed hOpen ?_ ?_ _
      · exact ⟨rfl, rfl, rfl⟩
      · exact fun _ => Or.inr (Or.inl rfl)
  · rename_i hStage
    have hFailed : c.stage ≠ .failed := by simp [hStage]
    have hOpen : ∀ upload, c.stage ≠ .returned upload := by simp [hStage]
    unfold Uploads.zipRead
    dsimp only
    split
    · exact h.fail hc hFailed hOpen
    · rename_i hJudged
      refine h.goesOn hc hFailed hOpen ?_ ?_ s.dirs
      · exact ⟨rfl, rfl, rfl⟩
      · exact fun _ => Or.inr (Or.inr (Nat.le_of_not_lt fun hOver => hJudged (Or.inl hOver)))
  · rename_i hStage
    exact h.rooted hc hStage
  · rename_i hStage
    exact h.extract hc hStage _
  · rename_i hStage
    have hFailed : c.stage ≠ .failed := by simp [hStage]
    have hOpen : ∀ upload, c.stage ≠ .returned upload := by simp [hStage]
    unfold Uploads.finished
    split
    · refine h.return_ hc hFailed hOpen ⟨rfl, rfl, rfl⟩ (fun hUser => ?_) (fun hUser => ?_) _ _ now
      · have hCounted := h.calls n c hc hUser hFailed hOpen
        exact (hCounted.judged.resolve_left (by simp [hStage])).resolve_left (by simp [hStage])
      · refine hEnter hUser ?_
        unfold enters
        rw [hStage]
    · exact h.fail hc hFailed hOpen
  · exact h

theorem Fits.receive (h : Fits cfg user s) (owner filename : Text) (declared : Option Nat) :
    Fits cfg user (s.receive cfg owner filename declared) := by
  unfold Uploads.receive
  split
  · exact h
  split
  · exact h
  split
  · exact h
  dsimp only
  split
  · exact h
  rename_i stored _ _
  set surplus := (s.mineOf owner).length - (maxPendingPerUser - 1)
  obtain ⟨hSublist, hCalls⟩ := drop_sublist ((s.mineOf owner).take surplus) s
  have hDropped := h.forget hCalls hSublist
  set t := ((s.mineOf owner).take surplus).foldl Uploads.drop s
  set call : Receive := _
  have hOld : ∀ id, Returned t.calls id → Returned (t.calls ++ [call]) id := by
    rintro id ⟨c, hc, hStage⟩
    exact ⟨c, (getElem?_append_left (List.getElem?_eq_some_iff.mp hc).1).trans hc, hStage⟩
  refine ⟨fun id upload hGet => ?_, hDropped.total, hDropped.count,
    fun n c hc hUser hFailed hOpen => ?_⟩
  · obtain ⟨hId, hReturned⟩ := hDropped.pending id upload hGet
    exact ⟨hId, hOld id hReturned⟩
  · have hc' : (t.calls ++ [call])[n]? = some c := hc
    rcases Nat.lt_or_ge n t.calls.length with hn | hn
    · rw [getElem?_append_left hn] at hc'
      have hCounted := hDropped.calls n c hc' hUser hFailed hOpen
      exact ⟨fun id hId => hOld id (hCounted.mine id hId), hCounted.length, hCounted.used,
        hCounted.judged⟩
    · rw [getElem?_append_right hn, getElem?_singleton] at hc'
      split at hc'
      · obtain rfl := Option.some.inj hc'
        refine ⟨fun id hId => hOld id ?_, ?_, ?_, Or.inl rfl⟩
        · have hMine : id ∈ s.mineOf owner := mem_of_mem_drop hId
          obtain ⟨upload, hUpload, rfl⟩ := mem_map.mp hMine
          rw [mem_mergeSort] at hUpload
          obtain ⟨id, hGet⟩ := mem_values_iff.mp (mem_filter.mp hUpload).1
          obtain ⟨hId, hReturned⟩ := h.pending id upload hGet
          rw [hCalls, hId]
          exact hReturned
        · change ((s.mineOf owner).drop surplus).length < maxPendingPerUser
          have hFive : maxPendingPerUser = 5 := rfl
          rw [length_drop]
          omega
        · calc counted t owner ((s.mineOf owner).drop surplus)
              ≤ counted s owner ((s.mineOf owner).drop surplus) := counted_le hSublist ..
            _ ≤ s.usage owner := counted_le_usage ..
            _ ≤ stored + s.usage owner := Nat.le_add_left ..
      · cases hc'

theorem Fits.step (h : Fits cfg user s) (e : UploadEvent) (hAlone : Alone user s e) :
    Fits cfg user (uploadStep cfg s e) := by
  cases e with
  | receive owner filename declared => exact h.receive owner filename declared
  | resume n arrival now => exact h.resume n arrival now hAlone
  | sweep now =>
    obtain ⟨hSublist, hCalls⟩ := drop_sublist
      ((s.pending.entries.filter fun e => pendingTtlMs ≤ now - e.2.createdAt).map Prod.fst) s
    exact h.forget hCalls hSublist
  | adopted id =>
    unfold uploadStep
    dsimp only
    split
    · exact h.forget rfl filter_sublist
    · exact h
  | job op =>
    exact ⟨h.pending, h.total, h.count, fun n c hc hUser hFailed hOpen =>
      let hCounted := h.calls n c hc hUser hFailed hOpen
      ⟨hCounted.mine, hCounted.length, hCounted.used, hCounted.judged⟩⟩

/-! ## Runs -/

/-- From a state within the limits, in a run in which every upload of the person enters
alone, their pending uploads stay within the quota and are at most five. -/
theorem quota_kept (cfg : HpcConfig) (user : Text) (s : Uploads) (hRest : AtRest s)
    (hTotal : s.usage user ≤ Uploads.quota cfg)
    (hCount : (pendingOf s user).length ≤ maxPendingPerUser) (es : List UploadEvent)
    (hAlone : Guarded (uploadStep cfg) (Alone user) s es) :
    (run (uploadStep cfg) s es).usage user ≤ Uploads.quota cfg ∧
      (pendingOf (run (uploadStep cfg) s es) user).length ≤ maxPendingPerUser := by
  have hStart : Fits cfg user s := by
    refine ⟨hRest.pending, hTotal, hCount, fun n c hc _ hFailed hOpen => ?_⟩
    rcases hRest.calls c (List.mem_of_getElem? hc) with hStage | ⟨upload, hStage⟩
    · exact absurd hStage hFailed
    · exact absurd hStage (hOpen upload)
  have hEnd := run_invariant_guarded (Fits cfg user) (fun _ e h hG => h.step e hG) hStart hAlone
  exact ⟨hEnd.total, hEnd.count⟩

/-! ## Two uploads at once -/

def receiveScript (n : Nat) : List UploadEvent :=
  [.receive (js "ada") (js "train.py") none, .resume n (.stream 700000 true) 10]

/-- A quota of one megabyte, and a script that fits. -/
theorem quota_kept_script :
    (run (uploadStep ⟨200, 1⟩) {} (receiveScript 0)).usage (js "ada") ≤ 1 * 1024 * 1024 := by
  refine (quota_kept ⟨200, 1⟩ (js "ada") {} ⟨nofun, nofun⟩ ?_ ?_ (receiveScript 0) ?_).1
  · decide
  · decide
  · refine ⟨trivial, fun _ c hc u hu => ?_, trivial⟩
    have hNone : pendingOf (uploadStep ⟨200, 1⟩ {} (.receive (js "ada") (js "train.py") none))
        (js "ada") = [] := by decide +kernel
    rw [hNone] at hu
    cases hu

def receiveTogether : List UploadEvent :=
  [.receive (js "ada") (js "train.py") none, .receive (js "ada") (js "train.py") none,
    .resume 0 (.stream 700000 true) 10, .resume 1 (.stream 700000 true) 10]

/-- Two uploads that were both checked before either was pending. -/
theorem quota_passed :
    (run (uploadStep ⟨200, 1⟩) {} receiveTogether).usage (js "ada") = 1400000 ∧
      Uploads.quota ⟨200, 1⟩ = 1048576 := by
  decide +kernel

end TMEdge.Train
