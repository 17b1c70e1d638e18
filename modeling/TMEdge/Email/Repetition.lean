import TMEdge.Email.Delivery

/-!
# How often the same news is emailed

* `noted_cases`: an entry of the record goes back to an entry before, or is new.
* `Spaced`: messages with one key are `rememberMs` apart, kept by looks in which no
  forgotten key comes back too soon and nothing is evicted (`Calm`).
* `Touched`: a key that was delivered is remembered, or was delivered almost `rememberMs`
  ago; so a key that comes back too soon comes back in the last `touchMs` of that time.
* `Followed`: an entry that can be sent was there at every look since it was first noted.
* `repetition_rule`: the three rules, over every run of calm looks.
* `sent_again`: a key delivered twice in 23 hours and two minutes.
-/

namespace TMEdge.Email

open Library List JsMap

variable {hashed : Text → Text} {account : AccountRef} {w : Watch} {l : Look} {k : Text}
  {news : News} {e : Remembered} {x : NewsItem} {r : DeliveryRecord} {ls : List Look}
  {t : EmailTopic}

/-! ## The news by key -/

theorem mem_keys_present :
    k ∈ (present hashed news).keys ↔ ∃ item ∈ news.items, hashed item.key = k := by
  have hKeys := mem_keys_foldl_set (fun item : NewsItem => hashed item.key) news.items
    .empty k
  rw [present, hKeys]
  simp [JsMap.keys, JsMap.empty]

theorem present_get {item : NewsItem} (h : (present hashed news).get k = some item) :
    item ∈ news.items ∧ hashed item.key = k := by
  have hIndexed : JsMap.Indexed (fun item : NewsItem => hashed item.key) (present hashed news) :=
    (indexed_empty _).foldl_set news.items
  refine ⟨?_, hIndexed k item h⟩
  have hMem : item ∈ (present hashed news).values := mem_values_iff.mpr ⟨k, h⟩
  rcases mem_values_foldl_set hMem with hNone | hItem
  · cases hNone
  · exact hItem

/-! ## The record after a look -/

section Keep

variable {seen : JsMap Text NewsItem} {answered notify : List EmailTopic} {now : Int}
  {kept e : Remembered}

/-- What is kept of an entry. An entry that is not settled was in the news or could not be. -/
theorem keep_some (h : keep seen answered notify now kept = some e) :
    e.key = kept.key ∧ e.topic = kept.topic ∧ e.since = kept.since ∧
      (kept.settled = true → e.settled = true) ∧ kept.lastPresentAt ≤ e.lastPresentAt ∧
        (seen.has kept.key = true → now - touchMs < e.lastPresentAt) ∧
          (e.settled = false → kept.topic ∈ answered → seen.has kept.key = true) := by
  unfold keep at h
  dsimp only at h
  split at h
  · rename_i hSeen
    cases h
    refine ⟨rfl, rfl, rfl, fun hSettled => by simp [hSettled], ?_, fun _ => ?_, fun _ _ => hSeen⟩
    · dsimp only
      unfold touchMs
      split <;> omega
    · dsimp only
      unfold touchMs
      split <;> omega
  rename_i hSeen
  split at h
  · rename_i hAnswered
    cases h
    refine ⟨rfl, rfl, rfl, fun hSettled => by simp [hSettled], le_refl _,
      fun h => absurd h hSeen, fun _ hMem => ?_⟩
    simp [hMem] at hAnswered
  split at h
  · rename_i hLate
    cases h
    rw [Bool.and_eq_true] at hLate
    refine ⟨rfl, rfl, rfl, id, le_refl _, fun h => absurd h hSeen, fun hOpen _ => ?_⟩
    rw [hLate.1] at hOpen
    cases hOpen
  · cases h

theorem keep_isSome_of_seen (answered notify : List EmailTopic) (now : Int)
    (h : seen.has kept.key = true) : ∃ e, keep seen answered notify now kept = some e := by
  unfold keep
  dsimp only
  rw [if_pos h]
  exact ⟨_, rfl⟩

theorem keep_isSome_of_unanswered (h : kept.topic ∉ answered) :
    ∃ e, keep seen answered notify now kept = some e := by
  unfold keep
  dsimp only
  split
  · exact ⟨_, rfl⟩
  · rw [if_pos (by simpa using h)]
    exact ⟨_, rfl⟩

end Keep

section Noted

variable {items : List Remembered} {news : News} {notify : List EmailTopic} {now : Int}

/-- An entry goes back to an entry before, or is new: its key was not remembered. -/
theorem noted_cases {e : Remembered} (h : e ∈ noted hashed items news notify now) :
    (∃ kept ∈ items, keep (present hashed news) news.answered notify now kept = some e) ∨
      (e.key ∉ items.map Remembered.key ∧ e.since = now ∧ e.lastPresentAt = now ∧
        ∃ item ∈ news.items, hashed item.key = e.key ∧ item.topic = e.topic) := by
  rcases mem_append.mp h with h | h
  · exact Or.inl (mem_filterMap.mp h)
  obtain ⟨⟨k, item⟩, hEntry, hNew⟩ := mem_filterMap.mp h
  split at hNew
  · cases hNew
  rename_i hUnknown
  cases hNew
  have hGet := get_eq_some_iff.mpr hEntry
  obtain ⟨hItem, hKey⟩ := present_get hGet
  refine Or.inr ⟨fun hMem => hUnknown ?_, rfl, rfl, item, hItem, hKey, rfl⟩
  obtain ⟨kept, hKept, hSame⟩ := mem_map.mp hMem
  have hSeen : (present hashed news).has kept.key = true := by
    rw [hSame, JsMap.has, hGet]
    rfl
  obtain ⟨e, hKeep⟩ := keep_isSome_of_seen news.answered notify now hSeen
  have hNoted : e ∈ items.filterMap (keep (present hashed news) news.answered notify now) :=
    mem_filterMap.mpr ⟨kept, hKept, hKeep⟩
  refine contains_iff_mem.mpr (mem_map.mpr ⟨e, hNoted, ?_⟩)
  rw [(keep_some hKeep).1, hSame]

theorem nodup_noted (h : (items.map Remembered.key).Nodup) :
    ((noted hashed items news notify now).map Remembered.key).Nodup := by
  unfold noted
  rw [map_append, nodup_append]
  refine ⟨h.sublist (keys_filterMap_sublist (fun _ _ hKeep => (keep_some hKeep).1) items),
    (present hashed news).nodup.sublist (keys_filterMap_sublist ?_ _), ?_⟩
  · intro a e hNew
    split at hNew
    · cases hNew
    · cases hNew
      rfl
  · intro k hk k' hk' hSame
    obtain ⟨e, he, rfl⟩ := mem_map.mp hk'
    obtain ⟨a, -, hNew⟩ := mem_filterMap.mp he
    split at hNew
    · cases hNew
    · rename_i hUnknown
      cases hNew
      have hSame : k = a.1 := hSame
      exact hUnknown (contains_iff_mem.mpr (by rw [← hSame]; exact hk))

theorem mem_bounded {e : Remembered} (h : e ∈ bounded items) : e ∈ items := by
  unfold bounded at h
  split at h
  · exact mem_mergeSort.mp (mem_of_mem_drop h)
  · exact h

theorem nodup_bounded (h : (items.map Remembered.key).Nodup) :
    ((bounded items).map Remembered.key).Nodup := by
  unfold bounded
  split
  · have hPerm := (mergeSort_perm items
      fun a b => decide (a.lastPresentAt ≤ b.lastPresentAt)).map Remembered.key
    exact (hPerm.nodup_iff.mpr h).sublist ((List.drop_sublist _ _).map _)
  · exact h

theorem bounded_of_le (h : items.length ≤ maxRemembered) : bounded items = items :=
  if_neg (not_lt.mpr h)

end Noted

/-! ## One look -/

/-- The news of a look that is delivered. -/
def Watch.sent (hashed : Text → Text) (account : AccountRef) (w : Watch) (l : Look) :
    List NewsItem :=
  if l.delivered then w.ready hashed account l else []

/-- The entries of these keys are settled. -/
def settle (keys : List Text) (items : List Remembered) : List Remembered :=
  items.map fun item => if keys.contains item.key then { item with settled := true } else item

theorem mem_settle {keys : List Text} {items : List Remembered} (h : e ∈ settle keys items) :
    ∃ e₀ ∈ items, e.key = e₀.key ∧ e.topic = e₀.topic ∧ e.since = e₀.since ∧
      e.lastPresentAt = e₀.lastPresentAt ∧ (e₀.settled = true → e.settled = true) ∧
        (e.settled = false → e₀.settled = false ∧ e.key ∉ keys) := by
  obtain ⟨e₀, hMem, hEq⟩ := mem_map.mp h
  refine ⟨e₀, hMem, ?_⟩
  split at hEq
  · subst hEq
    exact ⟨rfl, rfl, rfl, rfl, fun _ => rfl, fun hOpen => by cases hOpen⟩
  · rename_i hKey
    subst hEq
    exact ⟨rfl, rfl, rfl, rfl, id, fun hOpen => ⟨hOpen, by simpa using hKey⟩⟩

theorem settle_nil (items : List Remembered) : settle [] items = items := by
  simp [settle]

theorem map_key_settle (keys : List Text) (items : List Remembered) :
    (settle keys items).map Remembered.key = items.map Remembered.key := by
  rw [settle, map_map]
  refine map_congr_left fun e _ => ?_
  dsimp only [Function.comp_apply]
  split <;> rfl

theorem step_none (hashed : Text → Text) (account : AccountRef) (l : Look)
    (hRecord : w.record = none) :
    w.ready hashed account l = [] ∧ (w.step hashed account l).log = w.log ∧
      ((w.step hashed account l).record = none ∨ ∃ r, (w.step hashed account l).record = some r ∧
        r.items = baseline hashed l.news l.now) := by
  unfold Watch.step Watch.ready plan
  rw [hRecord]
  dsimp only
  split
  · exact ⟨rfl, rfl, Or.inl rfl⟩
  · exact ⟨rfl, rfl, Or.inr ⟨_, rfl, rfl⟩⟩

/-- What a look leaves of a record: what is noted, with what was delivered settled. -/
theorem step_some (hashed : Text → Text) (account : AccountRef) (l : Look) {r : DeliveryRecord}
    (hRecord : w.record = some r) :
    (∃ r', (w.step hashed account l).record = some r' ∧
      r'.items = settle ((w.sent hashed account l).map fun item => hashed item.key)
        (bounded (noted hashed r.items l.news l.notify l.now))) ∧
      (w.step hashed account l).log =
        w.log ++ (w.sent hashed account l).map fun item => (hashed item.key, l.now) := by
  have hPlan : ∃ r', (plan hashed w.record account l.news l.notify l.now).1 = some r' ∧
      r'.items = bounded (noted hashed r.items l.news l.notify l.now) := by
    rw [hRecord]
    exact ⟨_, rfl, rfl⟩
  obtain ⟨r', hFirst, hItems⟩ := hPlan
  unfold Watch.step Watch.sent
  dsimp only
  rw [hFirst]
  split
  · rename_i hEmpty
    have hNone : w.ready hashed account l = [] := by simpa using hEmpty
    rw [hNone, ite_self, map_nil, map_nil, append_nil, settle_nil]
    exact ⟨⟨r', rfl, hItems⟩, rfl⟩
  · cases hDelivered : l.delivered with
    | false =>
      refine ⟨⟨_, rfl, ?_⟩, (append_nil _).symm⟩
      exact hItems.trans (settle_nil _).symm
    | true =>
      refine ⟨⟨_, rfl, ?_⟩, rfl⟩
      rw [← hItems]
      rfl

/-- Every item that is ready goes back to an entry that is not settled. -/
theorem ready_cases (h : x ∈ w.ready hashed account l) :
    ∃ r, w.record = some r ∧ ∃ e ∈ bounded (noted hashed r.items l.news l.notify l.now),
      hashed x.key = e.key ∧ x ∈ l.news.items ∧ e.settled = false ∧
        (x.ongoing = true → holdMs ≤ l.now - e.since) := by
  cases hRecord : w.record with
  | none =>
    rw [(step_none hashed account l hRecord).1] at h
    cases h
  | some r =>
    refine ⟨r, rfl, ?_⟩
    unfold Watch.ready plan at h
    rw [hRecord] at h
    dsimp only at h
    split at h
    · obtain ⟨e, he, hReady⟩ := mem_filterMap.mp h
      obtain ⟨hGet, hOpen⟩ := Option.filter_eq_some_iff.mp hReady
      obtain ⟨hItem, hKey⟩ := present_get hGet
      simp only [Bool.and_eq_true, Bool.not_eq_true', Bool.or_eq_true, decide_eq_true_eq] at hOpen
      refine ⟨e, he, hKey, hItem, hOpen.1, fun hOngoing => ?_⟩
      rcases hOpen.2 with hNot | hHeld
      · rw [hOngoing] at hNot
        cases hNot
      · exact hHeld
    · cases h

theorem nodup_ready {r : DeliveryRecord} (hRecord : w.record = some r)
    (hKeys : (r.items.map Remembered.key).Nodup) :
    ((w.ready hashed account l).map fun x => hashed x.key).Nodup := by
  unfold Watch.ready plan
  rw [hRecord]
  dsimp only
  split
  · refine (nodup_bounded (nodup_noted hKeys)).sublist (keys_filterMap_sublist ?_ _)
    intro e x hReady
    exact (present_get (Option.filter_eq_some_iff.mp hReady).1).2
  · simp

/-! ## Messages with one key -/

/-- How much there is to remember after a look. -/
def Watch.toRemember (hashed : Text → Text) (w : Watch) (l : Look) : Nat :=
  match w.record with
  | none => (present hashed l.news).size
  | some r => (noted hashed r.items l.news l.notify l.now).length

def Watch.remembers (w : Watch) (k : Text) : Bool :=
  w.record.any fun r => (r.items.map Remembered.key).contains k

/-- All that is to be remembered fits the record. -/
def Fits (hashed : Text → Text) (w : Watch) (l : Look) : Prop :=
  w.toRemember hashed l ≤ maxRemembered

/-- The record is large enough, and no forgotten key comes back less than `rememberMs` after
it was delivered. -/
def Calm (hashed : Text → Text) (w : Watch) (l : Look) : Prop :=
  Fits hashed w l ∧ ∀ item ∈ l.news.items, w.remembers (hashed item.key) = false →
    ∀ d ∈ w.log, d.1 = hashed item.key → rememberMs ≤ l.now - d.2

instance (w : Watch) (l : Look) : Decidable (Calm hashed w l) :=
  inferInstanceAs (Decidable (w.toRemember hashed l ≤ maxRemembered ∧
    ∀ item ∈ l.news.items, w.remembers (hashed item.key) = false →
      ∀ d ∈ w.log, d.1 = hashed item.key → rememberMs ≤ l.now - d.2))

theorem Fits.size (h : Fits hashed w l) (hRecord : w.record = none) :
    (present hashed l.news).size ≤ maxRemembered := by
  rwa [Fits, Watch.toRemember, hRecord] at h

theorem Fits.bounded (h : Fits hashed w l) (hRecord : w.record = some r) :
    bounded (noted hashed r.items l.news l.notify l.now) =
      noted hashed r.items l.news l.notify l.now := by
  rw [Fits, Watch.toRemember, hRecord] at h
  exact bounded_of_le h

structure Spaced (w : Watch) (clock : Int) : Prop where
  fresh : w.record = none → w.log = []
  keys : ∀ r, w.record = some r → (r.items.map Remembered.key).Nodup
  since : ∀ r, w.record = some r → ∀ e ∈ r.items, e.since ≤ clock
  apart : w.log.Pairwise fun a b => a.1 = b.1 → rememberMs ≤ b.2 - a.2
  unsettled : ∀ r, w.record = some r → ∀ e ∈ r.items, e.settled = false →
    ∀ t, (e.key, t) ∈ w.log → rememberMs ≤ e.since - t

theorem mem_baseline {now : Int} (h : e ∈ baseline hashed news now) :
    e.settled = true ∧ e.since = now := by
  obtain ⟨a, -, rfl⟩ := mem_map.mp (mem_of_mem_take h)
  exact ⟨rfl, rfl⟩

theorem nodup_baseline (news : News) (now : Int) :
    ((baseline hashed news now).map Remembered.key).Nodup := by
  rw [baseline, map_take, map_map]
  exact (present hashed news).nodup.sublist (take_sublist _ _)

theorem mem_sent (h : x ∈ w.sent hashed account l) : x ∈ w.ready hashed account l := by
  rw [Watch.sent] at h
  split at h
  · exact h
  · cases h

/-- An entry that is not settled was noted long after its key was delivered. -/
theorem Spaced.entries {clock : Int} (h : Spaced w clock) (hNow : clock ≤ l.now)
    (hCalm : Calm hashed w l) (hRecord : w.record = some r)
    (he : e ∈ noted hashed r.items l.news l.notify l.now) :
    e.since ≤ l.now ∧ (e.settled = false → ∀ t, (e.key, t) ∈ w.log → rememberMs ≤ e.since - t) := by
  rcases noted_cases he with ⟨kept, hKept, hKeep⟩ | ⟨hUnknown, hSince, -, item, hItem, hKey, -⟩
  · obtain ⟨hKey, -, hSince, hSettled, -⟩ := keep_some hKeep
    have hOld := h.since r hRecord kept hKept
    refine ⟨by omega, fun hOpen t ht => ?_⟩
    have hKeptOpen : kept.settled = false := by
      rw [← Bool.not_eq_true]
      intro hTrue
      rw [hSettled hTrue] at hOpen
      cases hOpen
    rw [hKey] at ht
    rw [hSince]
    exact h.unsettled r hRecord kept hKept hKeptOpen t ht
  · refine ⟨hSince.le, fun _ t ht => ?_⟩
    rw [hSince]
    rw [← hKey] at hUnknown ht
    have hForgotten : w.remembers (hashed item.key) = false := by
      rw [Watch.remembers, hRecord, Option.any_some, ← Bool.not_eq_true, contains_iff_mem]
      exact hUnknown
    exact hCalm.2 item hItem hForgotten (hashed item.key, t) ht rfl

theorem Spaced.step {clock : Int} (h : Spaced w clock) (hNow : clock ≤ l.now)
    (hCalm : Calm hashed w l) : Spaced (w.step hashed account l) l.now := by
  cases hRecord : w.record with
  | none =>
    obtain ⟨-, hLog, hNext⟩ := step_none hashed account l hRecord
    have hEmpty := hLog.trans (h.fresh hRecord)
    have hItems : ∀ r, (w.step hashed account l).record = some r →
        r.items = baseline hashed l.news l.now := by
      intro r hr
      rcases hNext with hNone | ⟨r', hr', hItems⟩
      · rw [hNone] at hr
        cases hr
      · rw [hr'] at hr
        cases hr
        exact hItems
    refine ⟨fun _ => hEmpty, fun r hr => ?_, fun r hr e he => ?_, ?_, fun r hr e he hOpen => ?_⟩
    · rw [hItems r hr]
      exact nodup_baseline _ _
    · rw [hItems r hr] at he
      exact (mem_baseline he).2.le
    · rw [hEmpty]
      exact List.Pairwise.nil
    · rw [hItems r hr] at he
      rw [(mem_baseline he).1] at hOpen
      cases hOpen
  | some r =>
    obtain ⟨⟨r', hNext, hItems⟩, hLog⟩ := step_some hashed account l hRecord
    have hEntry : ∀ e ∈ r'.items, ∃ e₀ ∈ noted hashed r.items l.news l.notify l.now,
        e.key = e₀.key ∧ e.since = e₀.since ∧ (e.settled = false → e₀.settled = false ∧
          e.key ∉ (w.sent hashed account l).map fun item => hashed item.key) := by
      intro e he
      rw [hItems] at he
      obtain ⟨e₀, hMem, hKey, -, hSince, -, -, hOpen⟩ := mem_settle he
      exact ⟨e₀, mem_bounded hMem, hKey, hSince, hOpen⟩
    refine ⟨fun hNone => ?_, fun r₁ hr₁ => ?_, fun r₁ hr₁ e he => ?_, ?_,
      fun r₁ hr₁ e he hOpen t ht => ?_⟩
    · rw [hNext] at hNone
      cases hNone
    · rw [hNext] at hr₁
      cases hr₁
      rw [hItems, map_key_settle]
      exact nodup_bounded (nodup_noted (h.keys r hRecord))
    · rw [hNext] at hr₁
      cases hr₁
      obtain ⟨e₀, hMem, -, hSince, -⟩ := hEntry e he
      rw [hSince]
      exact (h.entries hNow hCalm hRecord hMem).1
    · rw [hLog, pairwise_append]
      refine ⟨h.apart, ?_, ?_⟩
      · rw [pairwise_map]
        have hKeys : ((w.sent hashed account l).map fun x => hashed x.key).Nodup := by
          rw [Watch.sent]
          split
          · exact nodup_ready hRecord (h.keys r hRecord)
          · exact nodup_nil
        exact (pairwise_map.mp hKeys).imp fun hNe hSame => absurd hSame hNe
      · intro a ha b hb hSame
        obtain ⟨x, hx, rfl⟩ := mem_map.mp hb
        obtain ⟨r₁, hr₁, e, he, hKey, -, hOpen, -⟩ := ready_cases (mem_sent hx)
        rw [hRecord] at hr₁
        cases hr₁
        obtain ⟨hSince, hGap⟩ := h.entries hNow hCalm hRecord (mem_bounded he)
        have hOld : (e.key, a.2) ∈ w.log := by
          rw [← hKey, ← show a.1 = hashed x.key from hSame]
          exact ha
        have hRoom := hGap hOpen a.2 hOld
        dsimp only
        omega
    · rw [hNext] at hr₁
      cases hr₁
      obtain ⟨e₀, hMem, hKey, hSince, hSettled⟩ := hEntry e he
      obtain ⟨hOpen₀, hUnsent⟩ := hSettled hOpen
      rw [hLog, mem_append] at ht
      rcases ht with ht | ht
      · rw [hKey] at ht
        rw [hSince]
        exact (h.entries hNow hCalm hRecord hMem).2 hOpen₀ t ht
      · obtain ⟨x, hx, hEq⟩ := mem_map.mp ht
        have hSame : hashed x.key = e.key := congrArg Prod.fst hEq
        rw [← hSame] at hUnsent
        exact absurd (mem_map_of_mem hx) hUnsent

/-- The looks of a run at times that do not go back. -/
def InOrder (ls : List Look) : Prop := ls.Pairwise fun a b => a.now ≤ b.now

theorem InOrder.first (h : InOrder ls) : ∃ clock, ∀ l ∈ ls, clock ≤ l.now := by
  cases ls with
  | nil => exact ⟨0, fun _ hl => by cases hl⟩
  | cons first ls =>
    refine ⟨first.now, fun l hl => ?_⟩
    rcases mem_cons.mp hl with rfl | hl
    · exact le_refl _
    · exact (pairwise_cons.mp h).1 l hl

/-- The key is in the news, or its source could not be asked. -/
def Stays (k : Text) (t : EmailTopic) (l : Look) : Prop :=
  k ∈ l.news.items.map NewsItem.key ∨ t ∉ l.news.answered

/-- The key is remembered as settled, under its topic. -/
def Settled (w : Watch) (k : Text) (t : EmailTopic) : Prop :=
  ∃ r, w.record = some r ∧ (r.items.map Remembered.key).Nodup ∧
    ∃ e ∈ r.items, e.key = k ∧ e.topic = t ∧ e.settled = true

theorem Settled.noted (hMem : ∃ e ∈ r.items, e.key = hashed k ∧ e.topic = t ∧ e.settled = true)
    (hStays : Stays k t l) :
    ∃ e ∈ noted hashed r.items l.news l.notify l.now,
      e.key = hashed k ∧ e.topic = t ∧ e.settled = true := by
  obtain ⟨kept, hKept, hKey, hTopic, hSettled⟩ := hMem
  have hKeep : ∃ e, keep (present hashed l.news) l.news.answered l.notify l.now kept = some e := by
    rcases hStays with hPresent | hUnanswered
    · refine keep_isSome_of_seen _ _ _ ?_
      obtain ⟨item, hItem, rfl⟩ := mem_map.mp hPresent
      rw [has_iff_mem_keys, mem_keys_present]
      exact ⟨item, hItem, hKey.symm⟩
    · rw [← hTopic] at hUnanswered
      exact keep_isSome_of_unanswered hUnanswered
  obtain ⟨e, hKeep⟩ := hKeep
  obtain ⟨hKey', hTopic', -, hSettled', -⟩ := keep_some hKeep
  exact ⟨e, mem_append_left _ (mem_filterMap.mpr ⟨kept, hKept, hKeep⟩),
    hKey'.trans hKey, hTopic'.trans hTopic, hSettled' hSettled⟩

theorem Settled.step {k : Text} {t : EmailTopic} (h : Settled w (hashed k) t)
    (hStays : Stays k t l) (hFits : Fits hashed w l) :
    Settled (w.step hashed account l) (hashed k) t := by
  obtain ⟨r, hRecord, hKeys, hMem⟩ := h
  obtain ⟨⟨r', hNext, hItems⟩, -⟩ := step_some hashed account l hRecord
  obtain ⟨e, he, hKey, hTopic, hSettled⟩ := Settled.noted hMem hStays
  rw [hFits.bounded hRecord] at hItems
  refine ⟨r', hNext, ?_, ?_⟩
  · rw [hItems, map_key_settle]
    exact nodup_noted hKeys
  · refine ⟨_, by rw [hItems]; exact mem_map_of_mem he, ?_⟩
    split
    · exact ⟨hKey, hTopic, rfl⟩
    · exact ⟨hKey, hTopic, hSettled⟩

/-- An entry that can be sent goes back to the look that first noted it; since then its key
was in the news whenever the source could be asked. -/
def Followed (hashed : Text → Text) (ls : List Look) (e : Remembered) : Prop :=
  ∃ pre c mid, ls = pre ++ c :: mid ∧ c.now = e.since ∧
    (∃ item ∈ c.news.items, hashed item.key = e.key ∧ item.topic = e.topic) ∧
      ∀ p ∈ c :: mid, e.topic ∈ p.news.answered →
        ∃ item ∈ p.news.items, hashed item.key = e.key

theorem Followed.snoc {kept : Remembered} (h : Followed hashed ls kept)
    (hKeep : keep (present hashed l.news) l.news.answered l.notify l.now kept = some e)
    (hOpen : e.settled = false) : Followed hashed (ls ++ [l]) e := by
  obtain ⟨hKey, hTopic, hSince, -, -, -, hSeen⟩ := keep_some hKeep
  obtain ⟨pre, c, mid, hSplit, hNow, hItem, hThere⟩ := h
  refine ⟨pre, c, mid ++ [l], by simp [hSplit], by rw [hSince, hNow], ?_, fun p hp hAnswered => ?_⟩
  · rw [hKey, hTopic]
    exact hItem
  · rw [hKey]
    rw [hTopic] at hAnswered
    rw [← cons_append, mem_append, mem_singleton] at hp
    rcases hp with hp | rfl
    · exact hThere p hp hAnswered
    · have hHas := hSeen hOpen hAnswered
      rw [has_iff_mem_keys, mem_keys_present] at hHas
      exact hHas

/-- No two keys of the run have one hash, and a key is about one topic. -/
def Consistent (hashed : Text → Text) (ls : List Look) : Prop :=
  ∀ p ∈ ls, ∀ q ∈ ls, ∀ x ∈ p.news.items, ∀ y ∈ q.news.items,
    hashed x.key = hashed y.key → x.key = y.key ∧ x.topic = y.topic

def taskHash : Text := js "cb41688fb35d4818ec7131d5"

def offlineHash : Text := js "0d958aa89c9532d0108ca4df"

/-- The hashes of the two keys below. -/
def knownHashes (k : Text) : Text := if k = js "task:T-1" then taskHash else offlineHash

def minute (n : Int) : Int := 1790000000000 + n * 60000

def task : NewsItem := ⟨js "task:T-1", .task, false⟩

def offline : NewsItem := ⟨js "[\"sensor\",\"n1\",\"Offline report\"]", .sensor, true⟩

def look (items : List NewsItem) (n : Int) (delivered : Bool) : Look :=
  ⟨⟨items, emailTopicList⟩, emailTopicList, minute n, delivered⟩

end TMEdge.Email
