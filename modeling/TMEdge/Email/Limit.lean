import TMEdge.Email.Repetition

/-!
# How often one person is emailed

* `visitAll_eq`: a pass takes the visits up to the first that throws; of these, what concerns
  one person is their own visit.
* `Limited`: the attempts so far and what the ledger says of them.
* `rate_limit`: attempts are `minGapMs` apart and at most `dailyLimit` messages are
  delivered on a day, over every run in which a pass that tries a message reaches its end
  and is recorded.
* `sent_every_minute`: a ledger that cannot be written.
-/

namespace TMEdge.Email

open Library List

variable {hashed : Text → Text} {o : Office} {a : AccountRef} {now clock : Int} {r : DeliveryRecord}
  {v : Visit}

/-! ## One person in a pass -/

/-- The messages tried to one person. -/
def attemptsTo (a : AccountRef) (attempts : List Attempt) : List Attempt :=
  attempts.filter fun t => t.account == a

/-- The record of one person. -/
def recordOf (a : AccountRef) (ledger : List DeliveryRecord) : Option DeliveryRecord :=
  ledger.find? fun r => r.account == a

/-- The deliveries of one day. -/
def deliveredOn (day : Int) (attempts : List Attempt) : Nat :=
  attempts.countP fun t => t.delivered && dayOf t.at_ == day

/-- What a plan leaves is the record of the account it is for, and of today. -/
theorem plan_fst {previous : Option DeliveryRecord} {news : News} {notify : List EmailTopic}
    (h : (plan hashed previous a news notify now).1 = some r) :
    r.account = a ∧ r.day = dayOf now := by
  unfold plan at h
  split at h
  · split at h
    · cases h
    · cases h
      exact ⟨rfl, rfl⟩
  · cases h
    exact ⟨rfl, rfl⟩

theorem plan_none (hashed : Text → Text) (a : AccountRef) (news : News) (notify : List EmailTopic)
    (now : Int) : (plan hashed none a news notify now).2 = [] := by
  unfold plan
  dsimp only
  split <;> rfl

theorem plan_some (hashed : Text → Text) (r : DeliveryRecord) (a : AccountRef) (news : News)
    (notify : List EmailTopic) (now : Int) :
    ∃ r', (plan hashed (some r) a news notify now).1 = some r' ∧ r'.lastTriedAt = r.lastTriedAt ∧
      r'.day = dayOf now ∧ r'.sentToday = r.sentBy now :=
  ⟨_, rfl, rfl, rfl, rfl⟩

/-- Something is ready for a person whose record is due. -/
theorem ready_due {previous : Option DeliveryRecord} {news : News} {notify : List EmailTopic}
    (h : (plan hashed previous a news notify now).2 ≠ []) :
    ∃ r, previous = some r ∧ r.due now = true := by
  unfold plan at h
  split at h
  · split at h
    · exact absurd rfl h
    · exact absurd rfl h
  · rename_i r
    refine ⟨r, rfl, ?_⟩
    by_contra hDue
    exact h (if_neg hDue)

/-- A visit leaves records and attempts of its own account. -/
theorem result_account {before : List DeliveryRecord} :
    (∀ r, (v.result hashed before).1 = some r → r.account = v.subscriber.account) ∧
      ∀ t, (v.result hashed before).2 = some t → t.account = v.subscriber.account := by
  unfold Visit.result
  dsimp only
  split
  · exact ⟨by simp, by simp⟩
  split
  · refine ⟨fun r h => ?_, by simp⟩
    simpa using find?_some h
  split
  · exact ⟨by simp, by simp⟩
  · rename_i news hNews r ready hPlan
    have hAccount : r.account = v.subscriber.account := (plan_fst (by rw [hPlan])).1
    split
    · refine ⟨fun r' h => ?_, by simp⟩
      cases h
      exact hAccount
    · refine ⟨fun r' h => ?_, fun t h => ?_⟩
      · cases h
        exact hAccount
      · cases h
        rfl

/-- The visits before the first that throws. -/
def reached (vs : List Visit) : List Visit := vs.takeWhile fun v => v.profile ≠ .threw

theorem visitAll_eq (hashed : Text → Text) (before : List DeliveryRecord) (vs : List Visit) :
    (visitAll hashed before vs).1 = (reached vs).filterMap (fun v => (v.result hashed before).1) ∧
      (visitAll hashed before vs).2.1 =
        (reached vs).filterMap (fun v => (v.result hashed before).2) ∧
          ((visitAll hashed before vs).2.2 = true ↔ reached vs = vs) := by
  induction vs with
  | nil => exact ⟨rfl, rfl, by simp [visitAll, reached]⟩
  | cons v vs ih =>
    rw [visitAll]
    by_cases hThrew : v.profile = .threw
    · have hNone : reached (v :: vs) = [] := by
        rw [reached, takeWhile_cons_of_neg]
        simpa using hThrew
      rw [if_pos hThrew, hNone]
      exact ⟨rfl, rfl, by simp⟩
    · have hMore : reached (v :: vs) = v :: reached vs := by
        rw [reached, takeWhile_cons_of_pos]
        · rfl
        · simpa using hThrew
      rw [if_neg hThrew, hMore]
      refine ⟨?_, ?_, ?_⟩
      · dsimp only
        rw [ih.1, filterMap_cons]
        cases (v.result hashed before).1 <;> rfl
      · dsimp only
        rw [ih.2.1, filterMap_cons]
        cases (v.result hashed before).2 <;> rfl
      · dsimp only
        rw [ih.2.2, List.cons.injEq]
        exact (and_iff_right rfl).symm

theorem filter_results_nil {β : Type} {f : Visit → Option β} {owner : β → AccountRef}
    (hOwner : ∀ v b, f v = some b → owner b = v.subscriber.account) {vs : List Visit}
    (h : ∀ v ∈ vs, v.subscriber.account ≠ a) :
    (vs.filterMap f).filter (fun b => owner b == a) = [] := by
  rw [filter_eq_nil_iff]
  intro b hb
  obtain ⟨v, hv, hfv⟩ := mem_filterMap.mp hb
  rw [hOwner v b hfv]
  simpa using h v hv

/-- Of results that belong to the accounts of their visits, those of one account. -/
theorem filter_results {β : Type} {f : Visit → Option β} {owner : β → AccountRef}
    (hOwner : ∀ v b, f v = some b → owner b = v.subscriber.account) {vs : List Visit}
    (hNodup : (vs.map fun v => v.subscriber.account).Nodup) {v : Visit} (hv : v ∈ vs) :
    (vs.filterMap f).filter (fun b => owner b == v.subscriber.account) = (f v).toList := by
  induction vs with
  | nil => cases hv
  | cons u us ih =>
    rw [map_cons, nodup_cons] at hNodup
    rw [filterMap_cons]
    rcases mem_cons.mp hv with rfl | hv
    · have hRest := filter_results_nil hOwner (a := v.subscriber.account)
        fun (u : Visit) (hu : u ∈ us) hSame => hNodup.1 (hSame ▸ mem_map_of_mem hu)
      cases hf : f v with
      | none => exact hRest
      | some b =>
        have hb := hOwner v b hf
        dsimp only
        rw [filter_cons_of_pos (by simpa using hb), hRest]
        rfl
    · have hNe : u.subscriber.account ≠ v.subscriber.account := fun hSame => by
        refine hNodup.1 ?_
        rw [hSame]
        exact mem_map_of_mem hv
      cases hf : f u with
      | none => exact ih hNodup.2 hv
      | some b =>
        have hb := hOwner u b hf
        dsimp only
        rw [filter_cons_of_neg (by simpa [hb] using hNe)]
        exact ih hNodup.2 hv

theorem recordOf_eq_head? (a : AccountRef) (ledger : List DeliveryRecord) :
    recordOf a ledger = (ledger.filter fun r => r.account == a).head? :=
  (head?_filter).symm

/-! ## One visit -/

/-- The visit has something to send. -/
def Tries (hashed : Text → Text) (ledger : List DeliveryRecord) (v : Visit) : Prop :=
  v.profile = .found v.subscriber.account.createdAt ∧ ∃ news, v.news = some news ∧
    (plan hashed (recordOf v.subscriber.account ledger) v.subscriber.account news
      v.subscriber.notify v.now).2 ≠ []

/-- A visit keeps the record with its limits, or tries a message for a record that is due. -/
theorem result_cases {before : List DeliveryRecord}
    (hFound : v.profile = .found v.subscriber.account.createdAt) :
    ((v.result hashed before).2 = none ∧
      ((v.result hashed before).1 = recordOf v.subscriber.account before ∨
        ∃ r', (v.result hashed before).1 = some r' ∧ r'.day = dayOf v.now ∧
          ∀ r, recordOf v.subscriber.account before = some r →
            r'.lastTriedAt = r.lastTriedAt ∧ r'.sentToday = r.sentBy v.now)) ∨
      (Tries hashed before v ∧ ∃ r r', recordOf v.subscriber.account before = some r ∧
        r.due v.now = true ∧
        v.result hashed before = (some r', some ⟨v.subscriber.account, v.now, v.delivered⟩) ∧
          r'.lastTriedAt = v.now ∧ r'.day = dayOf v.now ∧
            r'.sentToday = r.sentBy v.now + if v.delivered then 1 else 0) := by
  have hRecord : before.find? (fun r => r.account == v.subscriber.account) =
      recordOf v.subscriber.account before := rfl
  unfold Visit.result
  rw [if_neg (not_not.mpr hFound), hRecord]
  cases hNews : v.news with
  | none => exact Or.inl ⟨rfl, Or.inl rfl⟩
  | some news =>
    dsimp only
    cases hBefore : recordOf v.subscriber.account before with
    | none =>
      cases hPlan : plan hashed none v.subscriber.account news v.subscriber.notify v.now with
      | mk first ready =>
        have hReady := plan_none hashed v.subscriber.account news v.subscriber.notify v.now
        rw [hPlan] at hReady
        subst hReady
        cases first with
        | none => exact Or.inl ⟨rfl, Or.inl rfl⟩
        | some r =>
          have hDay : r.day = dayOf v.now := (plan_fst (by rw [hPlan])).2
          exact Or.inl ⟨rfl, Or.inr ⟨r, rfl, hDay, fun _ h => by cases h⟩⟩
    | some r₀ =>
      obtain ⟨r, hFirst, hTried, hDay, hSent⟩ := plan_some hashed r₀
        v.subscriber.account news v.subscriber.notify v.now
      cases hPlan : plan hashed (some r₀) v.subscriber.account news v.subscriber.notify v.now with
      | mk first ready =>
        rw [hPlan] at hFirst
        cases hFirst
        dsimp only
        split
        · refine Or.inl ⟨rfl, Or.inr ⟨r, rfl, hDay, fun r₁ hr₁ => ?_⟩⟩
          cases hr₁
          exact ⟨hTried, hSent⟩
        · rename_i hReady
          have hSome : (plan hashed (some r₀) v.subscriber.account news v.subscriber.notify
              v.now).2 ≠ [] := by
            rw [hPlan]
            simpa using hReady
          obtain ⟨r₁, hr₁, hDue⟩ := ready_due hSome
          cases hr₁
          refine Or.inr ⟨⟨hFound, news, hNews, by rw [hBefore]; exact hSome⟩, r₀, _, rfl, hDue, rfl,
            rfl, hDay, ?_⟩
          rw [afterSending, hSent]

/-! ## What the ledger says of one person -/

/-- The times of the visits of a pass. -/
def Pass.times (p : Pass) : List Int := (p.visits.getD []).map Visit.now

/-- The passes of a run at times that do not go back. -/
def InTime (ps : List Pass) : Prop := (ps.flatMap Pass.times).Pairwise (· ≤ ·)

/-- In every pass that takes place, the subscribers are different accounts and the person is
one of them; their account is there, unless looking it up throws. -/
def Subscribed (a : AccountRef) (p : Pass) : Prop :=
  ∀ vs, p.visits = some vs → (vs.map fun v => v.subscriber.account).Nodup ∧
    ∃ v ∈ vs, v.subscriber.account = a ∧ (v.profile = .threw ∨ v.profile = .found a.createdAt)

/-- If the pass gets to something to send to the person, it reaches its end and the ledger is
written. -/
def Recorded (hashed : Text → Text) (a : AccountRef) (o : Office) (p : Pass) : Prop :=
  ∀ vs, p.visits = some vs → ∀ v ∈ reached vs, v.subscriber.account = a →
    Tries hashed o.ledger v → reached vs = vs ∧ p.stored = true

/-- The attempts so far keep the limits, and the record knows of them. -/
structure Limited (a : AccountRef) (o : Office) (clock : Int) : Prop where
  apart : (attemptsTo a o.attempts).Pairwise fun s t => minGapMs ≤ t.at_ - s.at_
  daily : ∀ day, deliveredOn day (attemptsTo a o.attempts) ≤ dailyLimit
  days : ∀ r, recordOf a o.ledger = some r → r.day ≤ dayOf clock
  known : ∀ t ∈ attemptsTo a o.attempts, ∃ r, recordOf a o.ledger = some r
  tried : ∀ r, recordOf a o.ledger = some r →
    ∀ t ∈ attemptsTo a o.attempts, t.at_ ≤ r.lastTriedAt
  today : ∀ r, recordOf a o.ledger = some r →
    ∀ t ∈ attemptsTo a o.attempts, t.delivered = true → dayOf t.at_ ≤ r.day
  sent : ∀ r, recordOf a o.ledger = some r →
    deliveredOn r.day (attemptsTo a o.attempts) ≤ r.sentToday

theorem dayOf_mono {s t : Int} (h : s ≤ t) : dayOf s ≤ dayOf t :=
  Int.ediv_le_ediv (by decide) h

theorem Limited.later {clock' : Int} (h : Limited a o clock) (hNow : clock ≤ clock') :
    Limited a o clock' :=
  { h with days := fun r hr => (h.days r hr).trans (dayOf_mono hNow) }

/-- No more is delivered on a day than the record counts for it. -/
theorem Limited.sentBy (h : Limited a o clock) (hNow : clock ≤ now)
    (hr : recordOf a o.ledger = some r) :
    deliveredOn (dayOf now) (attemptsTo a o.attempts) ≤ r.sentBy now := by
  unfold DeliveryRecord.sentBy
  split
  · rename_i hDay
    rw [← hDay]
    exact h.sent r hr
  · rename_i hDay
    have hBefore : r.day < dayOf now :=
      lt_of_le_of_ne ((h.days r hr).trans (dayOf_mono hNow)) hDay
    refine Nat.le_of_eq (countP_eq_zero.mpr fun t ht => ?_)
    rw [Bool.and_eq_true, beq_iff_eq]
    rintro ⟨hDelivered, hSame⟩
    have hLate := h.today r hr t ht hDelivered
    omega

/-- A visit that tries nothing. -/
theorem Limited.kept {clock : Int} (h : Limited a o clock) {v : Visit} (hNow : clock ≤ v.now)
    {o' : Office} (hAttempts : attemptsTo a o'.attempts = attemptsTo a o.attempts)
    (hRecord : recordOf a o'.ledger = recordOf a o.ledger ∨
      ∃ r', recordOf a o'.ledger = some r' ∧ r'.day = dayOf v.now ∧
        ∀ r, recordOf a o.ledger = some r →
          r'.lastTriedAt = r.lastTriedAt ∧ r'.sentToday = r.sentBy v.now) :
    Limited a o' v.now := by
  rcases hRecord with hSame | ⟨r', hr', hDay, hKept⟩
  · refine ⟨by rw [hAttempts]; exact h.apart, by rw [hAttempts]; exact h.daily, ?_, ?_, ?_, ?_, ?_⟩
    · rw [hSame]
      exact (h.later hNow).days
    · rw [hSame, hAttempts]
      exact h.known
    · rw [hSame, hAttempts]
      exact h.tried
    · rw [hSame, hAttempts]
      exact h.today
    · rw [hSame, hAttempts]
      exact h.sent
  · refine ⟨by rw [hAttempts]; exact h.apart, by rw [hAttempts]; exact h.daily, fun r hr => ?_,
      fun t ht => ⟨r', hr'⟩, fun r hr t ht => ?_, fun r hr t ht hDelivered => ?_, fun r hr => ?_⟩
    · rw [hr'] at hr
      cases hr
      exact hDay.le
    · rw [hr'] at hr
      cases hr
      rw [hAttempts] at ht
      obtain ⟨r₀, hr₀⟩ := h.known t ht
      rw [(hKept r₀ hr₀).1]
      exact h.tried r₀ hr₀ t ht
    · rw [hr'] at hr
      cases hr
      rw [hAttempts] at ht
      obtain ⟨r₀, hr₀⟩ := h.known t ht
      rw [hDay]
      exact (h.today r₀ hr₀ t ht hDelivered).trans ((h.later hNow).days r₀ hr₀)
    · rw [hr'] at hr
      cases hr
      rw [hAttempts, hDay]
      cases hTried : attemptsTo a o.attempts with
      | nil => exact Nat.zero_le _
      | cons t ts =>
        obtain ⟨r₀, hr₀⟩ := h.known t (by rw [hTried]; simp)
        rw [← hTried, (hKept r₀ hr₀).2]
        exact h.sentBy hNow hr₀

/-- A visit that tries a message for a record that is due. -/
theorem Limited.tries (h : Limited a o clock) (hNow : clock ≤ v.now) {r' : DeliveryRecord}
    (hr : recordOf a o.ledger = some r) (hDue : r.due v.now = true) {o' : Office}
    (hAttempts : attemptsTo a o'.attempts = attemptsTo a o.attempts ++ [⟨a, v.now, v.delivered⟩])
    (hr' : recordOf a o'.ledger = some r') (hLast : r'.lastTriedAt = v.now)
    (hDay : r'.day = dayOf v.now)
    (hSent : r'.sentToday = r.sentBy v.now + if v.delivered then 1 else 0) :
    Limited a o' v.now := by
  rw [DeliveryRecord.due, Bool.and_eq_true, decide_eq_true_eq, decide_eq_true_eq] at hDue
  obtain ⟨hGap, hRoom⟩ := hDue
  have hOld := h.sentBy hNow hr
  have hCount : ∀ day, deliveredOn day (attemptsTo a o'.attempts) =
      deliveredOn day (attemptsTo a o.attempts) +
        if v.delivered && dayOf v.now == day then 1 else 0 := by
    intro day
    rw [hAttempts, deliveredOn, countP_append, countP_singleton]
    rfl
  have hSame : ∀ r₁, recordOf a o'.ledger = some r₁ → r₁ = r' := fun r₁ hr₁ => by
    rw [hr'] at hr₁
    exact (Option.some.inj hr₁).symm
  refine ⟨?_, fun day => ?_, fun r₁ hr₁ => ?_, fun t _ => ⟨r', hr'⟩, fun r₁ hr₁ t ht => ?_,
    fun r₁ hr₁ t ht hDelivered => ?_, fun r₁ hr₁ => ?_⟩
  · rw [hAttempts, pairwise_append]
    refine ⟨h.apart, pairwise_singleton _ _, fun s hs t ht => ?_⟩
    rw [mem_singleton] at ht
    subst ht
    have hBefore := h.tried r hr s hs
    dsimp only
    omega
  · rw [hCount]
    have hDaily := h.daily day
    split
    · rename_i hToday
      rw [Bool.and_eq_true, beq_iff_eq] at hToday
      rw [← hToday.2]
      omega
    · exact hDaily
  · rw [hSame r₁ hr₁, hDay]
  · rw [hSame r₁ hr₁, hLast]
    rw [hAttempts, mem_append, mem_singleton] at ht
    rcases ht with ht | rfl
    · have hBefore := h.tried r hr t ht
      have hPositive : (0 : Int) ≤ minGapMs := by decide
      omega
    · exact le_refl _
  · rw [hSame r₁ hr₁, hDay]
    rw [hAttempts, mem_append, mem_singleton] at ht
    rcases ht with ht | rfl
    · exact (h.today r hr t ht hDelivered).trans ((h.later hNow).days r hr)
    · exact le_refl _
  · rw [hSame r₁ hr₁, hDay, hSent, hCount]
    simp only [BEq.rfl, Bool.and_true]
    omega

/-! ## Passes -/

theorem limited_pass (h : Limited a o clock) {p : Pass} (hTimes : ∀ t ∈ p.times, clock ≤ t)
    (hSubscribed : Subscribed a p) (hRecorded : Recorded hashed a o p) :
    ∃ clock', Limited a (o.pass hashed p) clock' ∧ (clock' = clock ∨ clock' ∈ p.times) := by
  cases hVisits : p.visits with
  | none =>
    refine ⟨clock, ?_, Or.inl rfl⟩
    rw [Office.pass, hVisits]
    exact h
  | some vs =>
    obtain ⟨hNodup, v, hv, rfl, hProfile⟩ := hSubscribed vs hVisits
    obtain ⟨hRecords, hAttempts, hEnd⟩ := visitAll_eq hashed o.ledger vs
    have hTime : v.now ∈ p.times := by
      rw [Pass.times, hVisits]
      exact mem_map_of_mem hv
    have hNow := hTimes v.now hTime
    refine ⟨v.now, ?_, Or.inr hTime⟩
    have hPass : o.pass hashed p = ⟨if (visitAll hashed o.ledger vs).2.2 &&
        (visitAll hashed o.ledger vs).1 ≠ o.ledger && p.stored then (visitAll hashed o.ledger vs).1
          else o.ledger, o.attempts ++ (visitAll hashed o.ledger vs).2.1⟩ := by
      rw [Office.pass, hVisits]
    have hSublist : (reached vs).Sublist vs := takeWhile_sublist _
    have hReachedNodup := hNodup.sublist (hSublist.map fun v => v.subscriber.account)
    have hMore : attemptsTo v.subscriber.account (o.pass hashed p).attempts =
        attemptsTo v.subscriber.account o.attempts ++
          attemptsTo v.subscriber.account (visitAll hashed o.ledger vs).2.1 := by
      rw [hPass, attemptsTo, filter_append]
      rfl
    by_cases hIn : v ∈ reached vs
    · have hFound : v.profile = .found v.subscriber.account.createdAt := by
        refine hProfile.resolve_left ?_
        simpa using mem_takeWhile_imp hIn
      have hOwn : attemptsTo v.subscriber.account (visitAll hashed o.ledger vs).2.1 =
          (v.result hashed o.ledger).2.toList := by
        rw [hAttempts]
        exact filter_results (fun _ => result_account.2) hReachedNodup hIn
      have hOwnRecord : recordOf v.subscriber.account (visitAll hashed o.ledger vs).1 =
          (v.result hashed o.ledger).1 := by
        rw [recordOf_eq_head?, hRecords,
          filter_results (fun _ => result_account.1) hReachedNodup hIn]
        cases (v.result hashed o.ledger).1 <;> rfl
      rw [hOwn] at hMore
      rcases result_cases hFound with ⟨hNone, hRecord⟩ | ⟨hTries, r, r', hr, hDue, hResult, hRest⟩
      · rw [hNone, Option.toList_none, append_nil] at hMore
        refine h.kept hNow hMore ?_
        rw [hPass]
        dsimp only
        split
        · rw [hOwnRecord]
          exact hRecord
        · exact Or.inl rfl
      · obtain ⟨hAll, hStored⟩ := hRecorded vs hVisits v hIn rfl hTries
        have hLedger : (o.pass hashed p).ledger = (visitAll hashed o.ledger vs).1 := by
          rw [hPass, hEnd.mpr hAll, hStored, Bool.true_and, Bool.and_true]
          dsimp only
          split
          · rfl
          · rename_i hSame
            simpa using Eq.symm (by simpa using hSame)
        rw [hResult] at hMore hOwnRecord
        refine h.tries hNow hr hDue hMore ?_ hRest.1 hRest.2.1 hRest.2.2
        rw [hLedger]
        exact hOwnRecord
    · have hNotAll : (visitAll hashed o.ledger vs).2.2 = false := by
        rw [← Bool.not_eq_true, hEnd]
        intro hAll
        rw [hAll] at hIn
        exact hIn hv
      have hOthers : ∀ u ∈ reached vs, u.subscriber.account ≠ v.subscriber.account := by
        intro u hu hSame
        have hEq := inj_on_of_nodup_map hNodup (hSublist.subset hu) hv hSame
        rw [hEq] at hu
        exact hIn hu
      have hNone : attemptsTo v.subscriber.account (visitAll hashed o.ledger vs).2.1 = [] := by
        rw [hAttempts]
        exact filter_results_nil (fun _ => result_account.2) hOthers
      rw [hNone, append_nil] at hMore
      refine h.kept hNow hMore (Or.inl ?_)
      rw [hPass, hNotAll]
      rfl

theorem limited_start (a : AccountRef) (clock : Int) : Limited a Office.start clock where
  apart := List.Pairwise.nil
  daily _ := Nat.zero_le _
  days _ h := by cases h
  known _ h := by cases h
  tried _ h := by cases h
  today _ h := by cases h
  sent _ h := by cases h

theorem limited_after {ps : List Pass} (h : Limited a o clock)
    (hFirst : ∀ p ∈ ps, ∀ t ∈ p.times, clock ≤ t)
    (hTime : ps.Pairwise fun p q => ∀ s ∈ p.times, ∀ t ∈ q.times, s ≤ t)
    (hSubscribed : ∀ p ∈ ps, Subscribed a p)
    (hRecorded : Guarded (Office.pass hashed) (Recorded hashed a) o ps) :
    ∃ clock', Limited a (o.after hashed ps) clock' := by
  induction ps generalizing o clock with
  | nil => exact ⟨clock, h⟩
  | cons p ps ih =>
    obtain ⟨hLater, hTime⟩ := pairwise_cons.mp hTime
    obtain ⟨clock', hNext, hWhen⟩ := limited_pass h (hFirst p (by simp)) (hSubscribed p (by simp))
      hRecorded.1
    refine ih hNext (fun q hq t ht => ?_) hTime (fun q hq => hSubscribed q (by simp [hq]))
      hRecorded.2
    rcases hWhen with rfl | hWhen
    · exact hFirst q (by simp [hq]) t ht
    · exact hLater q hq _ hWhen t ht

/-- Attempts to one person are `minGapMs` apart and at most `dailyLimit` messages are
delivered to them on one day, in every run in which the passes that try something are
recorded. -/
theorem rate_limit (hashed : Text → Text) (a : AccountRef) (ps : List Pass) (hTime : InTime ps)
    (hSubscribed : ∀ p ∈ ps, Subscribed a p)
    (hRecorded : Guarded (Office.pass hashed) (Recorded hashed a) Office.start ps) :
    ((attemptsTo a (Office.start.after hashed ps).attempts).Pairwise fun s t =>
      minGapMs ≤ t.at_ - s.at_) ∧
      ∀ day,
        deliveredOn day (attemptsTo a (Office.start.after hashed ps).attempts) ≤ dailyLimit := by
  obtain ⟨hInner, hBetween⟩ := List.pairwise_flatMap.mp hTime
  have hFirst : ∃ clock, ∀ p ∈ ps, ∀ t ∈ p.times, clock ≤ t := by
    cases hAll : ps.flatMap Pass.times with
    | nil =>
      refine ⟨0, fun p hp t ht => ?_⟩
      have hMem : t ∈ ps.flatMap Pass.times := List.mem_flatMap.mpr ⟨p, hp, ht⟩
      rw [hAll] at hMem
      cases hMem
    | cons first rest =>
      refine ⟨first, fun p hp t ht => ?_⟩
      have hMem : t ∈ ps.flatMap Pass.times := List.mem_flatMap.mpr ⟨p, hp, ht⟩
      rw [InTime, hAll] at hTime
      rw [hAll] at hMem
      rcases List.mem_cons.mp hMem with rfl | hMem
      · exact le_refl _
      · exact (List.pairwise_cons.mp hTime).1 t hMem
  obtain ⟨clock, hFirst⟩ := hFirst
  obtain ⟨clock', hLimited⟩ := limited_after (limited_start a clock) hFirst hBetween hSubscribed
    hRecorded
  exact ⟨hLimited.apart, hLimited.daily⟩

/-! ## A ledger that cannot be written -/

/-- A pass over one subscriber with every source answering. -/
def onePass (items : List NewsItem) (n : Int) (delivered stored : Bool) : Pass :=
  ⟨some [⟨⟨ada.name, ada.createdAt, js "ada@example.com", emailTopicList⟩, .found ada.createdAt,
    some ⟨items, emailTopicList⟩, minute n, delivered⟩], stored⟩

theorem subscribed_onePass (items : List NewsItem) (n : Int) (delivered stored : Bool) :
    Subscribed ada (onePass items n delivered stored) := by
  intro vs hvs
  cases hvs
  exact ⟨by simp, _, mem_singleton_self _, rfl, Or.inr rfl⟩

theorem recorded_onePass (hashed : Text → Text) (o : Office) (items : List NewsItem) (n : Int)
    (delivered : Bool) : Recorded hashed ada o (onePass items n delivered true) := by
  intro vs hvs v hv ha hTries
  cases hvs
  exact ⟨rfl, rfl⟩

/-- Email starts, a task is assigned, and from then on the ledger cannot be written. -/
def fullDisk : List Pass :=
  [onePass [] 0 true true, onePass [task] 1 true false, onePass [task] 2 true false]

theorem sent_every_minute : InTime fullDisk ∧ (∀ p ∈ fullDisk, Subscribed ada p) ∧
    ¬ (attemptsTo ada (Office.start.after knownHashes fullDisk).attempts).Pairwise fun s t =>
      minGapMs ≤ t.at_ - s.at_ := by
  refine ⟨by unfold InTime; decide +kernel, fun p hp => ?_, by decide +kernel⟩
  simp only [fullDisk, List.mem_cons, List.not_mem_nil, or_false] at hp
  rcases hp with rfl | rfl | rfl
  · exact subscribed_onePass _ _ _ _
  · exact subscribed_onePass _ _ _ _
  · exact subscribed_onePass _ _ _ _

/-- Two tasks in a quarter of an hour, of which the first message bounces. -/
def twoTasks : List Pass :=
  [onePass [] 0 true true, onePass [task] 1 false true, onePass [task] 2 true true,
    onePass [task, offline] 20 true true]

theorem rate_limit_two :
    ((attemptsTo ada (Office.start.after knownHashes twoTasks).attempts).Pairwise fun s t =>
      minGapMs ≤ t.at_ - s.at_) ∧
      ∀ day, deliveredOn day (attemptsTo ada (Office.start.after knownHashes twoTasks).attempts) ≤
        dailyLimit :=
  rate_limit knownHashes ada twoTasks (by unfold InTime; decide +kernel)
    (fun p hp => by
      simp only [twoTasks, List.mem_cons, List.not_mem_nil, or_false] at hp
      rcases hp with rfl | rfl | rfl | rfl
      · exact subscribed_onePass _ _ _ _
      · exact subscribed_onePass _ _ _ _
      · exact subscribed_onePass _ _ _ _
      · exact subscribed_onePass _ _ _ _)
    ⟨recorded_onePass _ _ _ _ _, recorded_onePass _ _ _ _ _, recorded_onePass _ _ _ _ _,
      recorded_onePass _ _ _ _ _, trivial⟩

end TMEdge.Email
