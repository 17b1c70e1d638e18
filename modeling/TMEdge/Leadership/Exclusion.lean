import TMEdge.Leadership.Instance

/-!
# One leader at a time

Any number of instances of `PostgresSiteLease` for one site, known by their holder ids, and the row
they compete for. A query runs in the database at some time after it is sent, and its answer
arrives at some time after that, or never. Local clocks run at the rate of that of the database;
each has a setting of its own.

* `Excluding`: what is relied on in a lease, here or on its way, is in the row, or over.
* `one_leader`: two instances are never active at once where no answer that grants a lease arrives
  later than its margin.
* `two_leaders`: an answer that takes ten seconds.
-/

namespace TMEdge.Leadership

open Library List

/-! ## The site -/

inductive SiteQuery
  | start
  | renew (generation : Nat)
  | stop (generation : Nat)
  deriving DecidableEq

/-- An answer on its way, and when its query ran. -/
structure SiteAnswer where
  holderId : Text
  renewal : Bool
  reply : Reply
  executedAt : ℚ
  deriving DecidableEq

structure Site where
  row : Option LeaseRow := none
  now : ℚ
  leases : Text → PostgresSiteLease := fun _ => {}
  sent : List (Text × SiteQuery) := []
  answers : List SiteAnswer := []

structure SiteConfig where
  lease : Text → SiteLeaseConfig
  /-- `performance.now()` when the database reads 0 -/
  clock : Text → ℚ

inductive SiteEvent
  | tick (to_ : ℚ)
  | start (holderId : Text)
  | renewTimer (holderId : Text)
  | expiryTimer (holderId : Text)
  | stop (holderId : Text)
  /-- A query runs, or fails without having run. -/
  | execute (i : Nat)
  | fail (i : Nat)
  /-- An answer arrives, or arrives with no row that can be read, or is lost. -/
  | answer (i : Nat)
  | unread (i : Nat)
  | lose (i : Nat)

namespace Site

variable (cfg : SiteConfig) (s : Site)

def performanceNow (h : Text) : ℚ := s.now + cfg.clock h

def setLease (h : Text) (l : PostgresSiteLease) : Site :=
  { s with leases := Function.update s.leases h l }

def active (h : Text) : Bool := (s.leases h).active (s.performanceNow cfg h)

def fenceOf (h : Text) (generation : Nat) : SiteFence where
  siteId := (cfg.lease h).siteId
  originId := (cfg.lease h).originId
  holderId := h
  generation := generation

/-- The row a query writes. -/
def written (h : Text) : SiteQuery → Option LeaseRow
  | .start => startRow (cfg.lease h).originId h (cfg.lease h).ttlMs s.now s.row
  | .renew generation => renewRow (fenceOf cfg h generation) (cfg.lease h).ttlMs s.now s.row
  | .stop generation => stopRow (fenceOf cfg h generation) s.now s.row

/-- `RETURNING generation, remaining_ms` -/
def replyOf (row : Option LeaseRow) : Reply :=
  match row with
  | some row => .row row.generation (max 0 (row.leaseUntil - s.now))
  | none => .noRow

/-- The answer to a query, where one is waited for. -/
def answerOf (h : Text) (q : SiteQuery) (reply : Reply) : List SiteAnswer :=
  match q with
  | .start => [{ holderId := h, renewal := false, reply, executedAt := s.now }]
  | .renew _ => [{ holderId := h, renewal := true, reply, executedAt := s.now }]
  | .stop _ => []

/-- A query runs. -/
def execute (h : Text) (q : SiteQuery) : Site :=
  let row := s.written cfg h q
  { s with row := row.or s.row, answers := s.answers ++ s.answerOf h q (s.replyOf row) }

def take (i : Nat) : Site := { s with sent := s.sent.eraseIdx i }

def deliver (i : Nat) : Site := { s with answers := s.answers.eraseIdx i }

/-- An answer arrives. -/
def arrive (a : SiteAnswer) (reply : Reply) : Site :=
  let l := s.leases a.holderId
  let now := s.performanceNow cfg a.holderId
  s.setLease a.holderId <|
    if a.renewal then (l.renewed (cfg.lease a.holderId) reply now).1
    else l.started (cfg.lease a.holderId) reply now

def step (s : Site) : SiteEvent → Site
  | .tick t => { s with now := max s.now t }
  | .start h =>
    let l := s.leases h
    if l.stopped || l.generation.isSome then s
    else { s.setLease h { l with onLost := true } with sent := s.sent ++ [(h, .start)] }
  | .renewTimer h =>
    let l := s.leases h
    match l.renewTimer, l.generation with
    | some _, some generation =>
      if l.stopped then s.setLease h { l with renewTimer := none }
      else
        { s.setLease h { l with renewTimer := none } with
          sent := s.sent ++ [(h, .renew generation)] }
    | some _, none => s.setLease h { l with renewTimer := none }
    | none, _ => s
  | .expiryTimer h =>
    let l := s.leases h
    match l.expiryTimer with
    | some _ => s.setLease h ({ l with expiryTimer := none } : PostgresSiteLease).lose.1
    | none => s
  | .stop h =>
    let l := s.leases h
    let s' := s.setLease h l.stop
    match l.stopped, l.generation with
    | false, some generation => { s' with sent := s.sent ++ [(h, .stop generation)] }
    | _, _ => s'
  | .execute i =>
    match s.sent[i]? with
    | some (h, q) => (s.take i).execute cfg h q
    | none => s
  | .fail i =>
    match s.sent[i]? with
    | some (h, q) => { s.take i with answers := s.answers ++ s.answerOf h q .failed }
    | none => s
  | .answer i =>
    match s.answers[i]? with
    | some a => (s.deliver i).arrive cfg a a.reply
    | none => s
  | .unread i =>
    match s.answers[i]? with
    | some a => (s.deliver i).arrive cfg a .noRow
    | none => s
  | .lose i =>
    match s.answers[i]? with
    | some a => (s.deliver i).arrive cfg a .failed
    | none => s

end Site

/-! ## The invariant -/

/-- A lease of an instance up to some time of the database: it is over, or in the row. -/
def Site.Held (s : Site) (h : Text) (until_ : ℚ) : Prop :=
  until_ ≤ s.now ∨ ∃ row, s.row = some row ∧ row.holderId = h ∧ until_ ≤ row.leaseUntil

structure Excluding (cfg : SiteConfig) (s : Site) : Prop where
  bound : ∀ row, s.row = some row → row.leaseUntil ≤ s.now + (cfg.lease row.holderId).ttlMs
  here : ∀ h, (s.leases h).stopped = false → ∀ t, (s.leases h).safeUntil = some t →
    s.Held h (t - cfg.clock h)
  onTheWay : ∀ a ∈ s.answers, (s.leases a.holderId).stopped = false → ∀ generation remainingMs,
    a.reply = .row generation remainingMs → s.Held a.holderId (a.executedAt + remainingMs)
  stopping : ∀ h generation, (h, SiteQuery.stop generation) ∈ s.sent → (s.leases h).stopped = true

/-- A lease that is granted is taken over no later than its margin after the query ran: the local
deadline is not past the end of the lease. -/
def WithinMargin (cfg : SiteConfig) (s : Site) : SiteEvent → Prop
  | .answer i => ∀ a, s.answers[i]? = some a → (s.leases a.holderId).stopped = false →
    ∀ generation remainingMs, a.reply = .row generation remainingMs → 0 < remainingMs →
      s.now + max 1 (remainingMs - PostgresSiteLease.margin (cfg.lease a.holderId)) ≤
        a.executedAt + remainingMs
  | _ => True

section lease

variable {cfg : SiteLeaseConfig} {l : PostgresSiteLease} {reply : Reply} {now t : ℚ}

theorem safeUntil_lose (h : l.lose.1.safeUntil = some t) : l.safeUntil = some t := by
  unfold PostgresSiteLease.lose at h
  split at h
  · exact h
  · cases h

theorem safeUntil_retry (h : (l.retry now).1.safeUntil = some t) : l.safeUntil = some t := by
  unfold PostgresSiteLease.retry at h
  split at h
  next => exact safeUntil_lose h
  next =>
    dsimp only at h
    split at h
    · exact safeUntil_lose h
    · exact (scheduleRenewal_fields _ _ _).2.2.symm.trans h

/-- Where a local deadline comes from. -/
theorem safeUntil_accepted {generation : Nat} {remainingMs : ℚ} {l' : PostgresSiteLease}
    (hAccept : l.accept cfg generation remainingMs now = some l')
    (h : (l'.scheduleRenewal cfg.renewMs now).safeUntil = some t) :
    0 < remainingMs ∧ t = PostgresSiteLease.deadline cfg now remainingMs := by
  obtain ⟨hPos, -, -, -, hSafe⟩ := accept_eq_some hAccept
  rw [(scheduleRenewal_fields _ _ _).2.2, hSafe] at h
  exact ⟨hPos, (Option.some.inj h).symm⟩

theorem safeUntil_started (h : (l.started cfg reply now).safeUntil = some t) :
    l.safeUntil = some t ∨ ∃ generation remainingMs, reply = .row generation remainingMs ∧
      0 < remainingMs ∧ t = PostgresSiteLease.deadline cfg now remainingMs := by
  unfold PostgresSiteLease.started at h
  split at h
  next generation remainingMs =>
    split at h
    next hAccept => exact .inr ⟨generation, remainingMs, rfl, safeUntil_accepted hAccept h⟩
    next => exact .inl h
  next => exact .inl h
  next => exact .inl h

theorem safeUntil_renewed (h : (l.renewed cfg reply now).1.safeUntil = some t) :
    l.safeUntil = some t ∨ ∃ generation remainingMs, reply = .row generation remainingMs ∧
      0 < remainingMs ∧ t = PostgresSiteLease.deadline cfg now remainingMs := by
  unfold PostgresSiteLease.renewed at h
  split at h
  next generation remainingMs =>
    split at h
    next hAccept => exact .inr ⟨generation, remainingMs, rfl, safeUntil_accepted hAccept h⟩
    next => exact .inl (safeUntil_retry h)
  next => exact .inl (safeUntil_lose h)
  next => exact .inl (safeUntil_retry h)

end lease

section invariant

variable {cfg : SiteConfig} {s s' : Site} {h h₀ : Text} {q : SiteQuery} {L L' : ℚ}

theorem leases_setLease_self (s : Site) (h : Text) (l : PostgresSiteLease) :
    (s.setLease h l).leases h = l := Function.update_self _ _ _

theorem leases_setLease_ne (s : Site) (l : PostgresSiteLease) (hNe : h ≠ h₀) :
    (s.setLease h₀ l).leases h = s.leases h := Function.update_of_ne hNe _ _

theorem Site.Held.mono (hHeld : s.Held h L) (hLe : L' ≤ L) : s.Held h L' := by
  rcases hHeld with hOver | ⟨row, hRow, hHolder, hUntil⟩
  · exact .inl (hLe.trans hOver)
  · exact .inr ⟨row, hRow, hHolder, hLe.trans hUntil⟩

/-- The row that a query writes. -/
theorem written_eq_some {row : LeaseRow} (hWritten : s.written cfg h₀ q = some row) :
    row.holderId = h₀ ∧ row.leaseUntil ≤ s.now + (cfg.lease h₀).ttlMs ∧
      ((∀ generation, q ≠ .stop generation) →
        row.leaseUntil = s.now + (cfg.lease h₀).ttlMs) ∧
        ∀ old, s.row = some old → old.leaseUntil ≤ s.now ∨ old.holderId = h₀ := by
  have hTtl : (0 : ℚ) ≤ (cfg.lease h₀).ttlMs := Nat.cast_nonneg _
  cases q with
  | start =>
    rw [Site.written] at hWritten
    rcases hRow : s.row with - | old
    · rw [hRow] at hWritten
      cases hWritten
      exact ⟨rfl, le_rfl, fun _ => rfl, nofun⟩
    · rw [hRow, startRow] at hWritten
      split at hWritten
      next hFree =>
        cases hWritten
        exact ⟨rfl, le_rfl, fun _ => rfl, fun old' hOld => Option.some.inj hOld ▸ hFree⟩
      next => cases hWritten
  | renew generation =>
    rw [Site.written] at hWritten
    rcases hRow : s.row with - | old
    · rw [hRow] at hWritten
      cases hWritten
    · rw [hRow, renewRow] at hWritten
      split at hWritten
      next hOwn =>
        cases hWritten
        exact ⟨hOwn.1.2.1, le_rfl, fun _ => rfl,
          fun old' hOld => .inr (Option.some.inj hOld ▸ hOwn.1.2.1)⟩
      next => cases hWritten
  | stop generation =>
    rw [Site.written] at hWritten
    rcases hRow : s.row with - | old
    · rw [hRow] at hWritten
      cases hWritten
    · rw [hRow, stopRow] at hWritten
      split at hWritten
      next hOwn =>
        cases hWritten
        exact ⟨hOwn.2.1, le_add_of_nonneg_right hTtl, fun hNot => absurd rfl (hNot generation),
          fun old' hOld => .inr (Option.some.inj hOld ▸ hOwn.2.1)⟩
      next => cases hWritten

theorem row_execute : (s.execute cfg h₀ q).row = (s.written cfg h₀ q).or s.row ∧
    (s.execute cfg h₀ q).now = s.now ∧ (s.execute cfg h₀ q).leases = s.leases ∧
      (s.execute cfg h₀ q).sent = s.sent := ⟨rfl, rfl, rfl, rfl⟩

/-- A lease that is held is held when another query has run, unless the instance gave it up. -/
theorem Site.Held.execute (hExcluding : Excluding cfg s) (hHeld : s.Held h L)
    (hStop : h = h₀ → ∀ generation, q ≠ .stop generation) : (s.execute cfg h₀ q).Held h L := by
  rcases hHeld with hOver | ⟨row, hRow, rfl, hUntil⟩
  · exact .inl hOver
  rcases hWritten : s.written cfg h₀ q with - | new
  · exact .inr ⟨row, by rw [row_execute.1, hWritten, hRow]; rfl, rfl, hUntil⟩
  obtain ⟨hHolder, -, hNew, hOld⟩ := written_eq_some hWritten
  rcases hOld row hRow with hOver | hSame
  · exact .inl (hUntil.trans hOver)
  · refine .inr ⟨new, by rw [row_execute.1, hWritten]; rfl, hHolder.trans hSame.symm, ?_⟩
    rw [hNew (hStop hSame), ← hSame]
    exact hUntil.trans (hExcluding.bound row hRow)

theorem Excluding.setLease (hExcluding : Excluding cfg s) {l : PostgresSiteLease}
    (hStopped : (s.leases h₀).stopped = true → l.stopped = true)
    (hSafe : l.stopped = false → ∀ t, l.safeUntil = some t → s.Held h₀ (t - cfg.clock h₀)) :
    Excluding cfg (s.setLease h₀ l) := by
  have hRunning : ∀ h, ((s.setLease h₀ l).leases h).stopped = false →
      (s.leases h).stopped = false := by
    intro h hNew
    by_cases hh : h = h₀
    · subst hh
      rw [leases_setLease_self] at hNew
      rcases hOld : (s.leases h).stopped with - | -
      · rfl
      · rw [hStopped hOld] at hNew
        cases hNew
    · rwa [leases_setLease_ne s l hh] at hNew
  refine ⟨hExcluding.bound, fun h hNew t ht => ?_, fun a ha hNew => ?_,
    fun h generation hMem => ?_⟩
  · by_cases hh : h = h₀
    · subst hh
      rw [leases_setLease_self] at hNew ht
      exact hSafe hNew t ht
    · have hOld := hRunning h hNew
      rw [leases_setLease_ne s l hh] at ht
      exact hExcluding.here h hOld t ht
  · exact hExcluding.onTheWay a ha (hRunning _ hNew)
  · rcases hNew : ((s.setLease h₀ l).leases h).stopped with - | -
    · have hOld := hRunning h hNew
      rw [hExcluding.stopping h generation hMem] at hOld
      cases hOld
    · rfl

theorem Excluding.send (hExcluding : Excluding cfg s)
    (hStop : ∀ generation, q = .stop generation → (s.leases h₀).stopped = true) :
    Excluding cfg { s with sent := s.sent ++ [(h₀, q)] } := by
  refine ⟨hExcluding.bound, hExcluding.here, hExcluding.onTheWay, fun h generation hMem => ?_⟩
  rcases mem_append.mp hMem with hMem | hMem
  · exact hExcluding.stopping h generation hMem
  · obtain ⟨rfl, rfl⟩ := Prod.ext_iff.mp (mem_singleton.mp hMem)
    exact hStop generation rfl

theorem Excluding.take (hExcluding : Excluding cfg s) (i : Nat) : Excluding cfg (s.take i) :=
  ⟨hExcluding.bound, hExcluding.here, hExcluding.onTheWay, fun h generation hMem =>
    hExcluding.stopping h generation (mem_of_mem_eraseIdx hMem)⟩

theorem Excluding.deliver (hExcluding : Excluding cfg s) (i : Nat) : Excluding cfg (s.deliver i) :=
  ⟨hExcluding.bound, hExcluding.here, fun a ha =>
    hExcluding.onTheWay a (mem_of_mem_eraseIdx ha), hExcluding.stopping⟩

theorem mem_answerOf {reply : Reply} {a : SiteAnswer} (ha : a ∈ s.answerOf h₀ q reply) :
    a.holderId = h₀ ∧ a.reply = reply ∧ a.executedAt = s.now ∧
      ∀ generation, q ≠ .stop generation := by
  cases q with
  | start =>
    obtain rfl := mem_singleton.mp ha
    exact ⟨rfl, rfl, rfl, nofun⟩
  | renew generation =>
    obtain rfl := mem_singleton.mp ha
    exact ⟨rfl, rfl, rfl, nofun⟩
  | stop generation => cases ha

theorem Excluding.execute (hExcluding : Excluding cfg s)
    (hStop : ∀ generation, q = .stop generation → (s.leases h₀).stopped = true) :
    Excluding cfg (s.execute cfg h₀ q) := by
  have hRunning : ∀ h, (s.leases h).stopped = false → h = h₀ → ∀ generation,
      q ≠ .stop generation := by
    rintro h hFalse rfl generation hq
    rw [hStop generation hq] at hFalse
    cases hFalse
  refine ⟨fun row hRow => ?_, fun h hNew t ht => ?_,
    fun a ha hNew generation remainingMs hReply => ?_, hExcluding.stopping⟩
  · rw [row_execute.1] at hRow
    rcases hWritten : s.written cfg h₀ q with - | new
    · rw [hWritten] at hRow
      exact hExcluding.bound row hRow
    · rw [hWritten] at hRow
      obtain ⟨hHolder, hBound, -⟩ := written_eq_some hWritten
      obtain rfl : new = row := Option.some.inj hRow
      rw [hHolder]
      exact hBound
  · exact (hExcluding.here h hNew t ht).execute hExcluding (hRunning h hNew)
  · rcases mem_append.mp ha with ha | ha
    · exact (hExcluding.onTheWay a ha hNew generation remainingMs hReply).execute hExcluding
        (hRunning _ hNew)
    · obtain ⟨hHolder, hSame, hAt, -⟩ := mem_answerOf ha
      rw [hReply] at hSame
      rcases hWritten : s.written cfg h₀ q with - | new
      · rw [hWritten] at hSame
        cases hSame
      · rw [hWritten, Site.replyOf] at hSame
        obtain ⟨-, rfl⟩ := Reply.row.inj hSame
        have hNewHolder := (written_eq_some hWritten).1
        rw [hAt]
        rcases le_total new.leaseUntil s.now with hLe | hLe
        · refine .inl ?_
          rw [max_eq_left (sub_nonpos.mpr hLe), add_zero]
          exact le_rfl
        · refine .inr ⟨new, by rw [row_execute.1, hWritten]; rfl, hNewHolder.trans hHolder.symm, ?_⟩
          rw [max_eq_right (sub_nonneg.mpr hLe), add_sub_cancel]

theorem Excluding.fail (hExcluding : Excluding cfg s) :
    Excluding cfg { s with answers := s.answers ++ s.answerOf h₀ q .failed } := by
  refine ⟨hExcluding.bound, hExcluding.here, fun a ha hNew generation remainingMs hReply => ?_,
    hExcluding.stopping⟩
  rcases mem_append.mp ha with ha | ha
  · exact hExcluding.onTheWay a ha hNew generation remainingMs hReply
  · rw [(mem_answerOf ha).2.1] at hReply
    cases hReply

theorem Excluding.tick (hExcluding : Excluding cfg s) (t : ℚ) :
    Excluding cfg { s with now := max s.now t } := by
  have hHeld : ∀ h L, s.Held h L → Site.Held { s with now := max s.now t } h L := by
    rintro h L (hOver | hRow)
    · exact .inl (hOver.trans (le_max_left _ _))
    · exact .inr hRow
  refine ⟨fun row hRow => ?_, fun h hNew t' ht => hHeld _ _ (hExcluding.here h hNew t' ht),
    fun a ha hNew generation remainingMs hReply =>
      hHeld _ _ (hExcluding.onTheWay a ha hNew generation remainingMs hReply), hExcluding.stopping⟩
  exact (hExcluding.bound row hRow).trans (add_le_add_left (le_max_left _ _) _)

/-- An answer arrives. -/
theorem Excluding.arrive (hExcluding : Excluding cfg s) {a : SiteAnswer} {reply : Reply}
    (hGranted : (s.leases a.holderId).stopped = false → ∀ generation remainingMs,
      reply = .row generation remainingMs → 0 < remainingMs → s.Held a.holderId
        (s.now + max 1 (remainingMs - PostgresSiteLease.margin (cfg.lease a.holderId)))) :
    Excluding cfg (s.arrive cfg a reply) := by
  have hDeadline : ∀ t, (s.leases a.holderId).stopped = false →
      ((s.leases a.holderId).safeUntil = some t ∨ ∃ generation remainingMs,
        reply = .row generation remainingMs ∧ 0 < remainingMs ∧
          t = PostgresSiteLease.deadline (cfg.lease a.holderId) (s.performanceNow cfg a.holderId)
            remainingMs) → s.Held a.holderId (t - cfg.clock a.holderId) := by
    rintro t hRunning (hOld | ⟨generation, remainingMs, hReply, hPos, rfl⟩)
    · exact hExcluding.here _ hRunning t hOld
    · have hHeld := hGranted hRunning generation remainingMs hReply hPos
      refine hHeld.mono (le_of_eq ?_)
      rw [PostgresSiteLease.deadline, Site.performanceNow]
      ring
  refine hExcluding.setLease (fun hStopped => ?_) fun hRunning t ht => ?_
  · split
    · rw [stopped_renewed, hStopped]
    · rw [stopped_started, hStopped]
  · split at hRunning
    next hRenewal =>
      rw [stopped_renewed] at hRunning
      rw [if_pos hRenewal] at ht
      exact hDeadline t hRunning (safeUntil_renewed ht)
    next hStart =>
      rw [stopped_started] at hRunning
      rw [if_neg hStart] at ht
      exact hDeadline t hRunning (safeUntil_started ht)

end invariant

/-! ## One leader -/

section leader

variable {cfg : SiteConfig} {s : Site} {ev : SiteEvent} {h h' : Text}

theorem excluding_step (hExcluding : Excluding cfg s) (hMargin : WithinMargin cfg s ev) :
    Excluding cfg (s.step cfg ev) := by
  cases ev with
  | tick t => exact hExcluding.tick t
  | start h =>
    unfold Site.step
    dsimp only
    split
    · exact hExcluding
    · have hStart := hExcluding.setLease (l := { s.leases h with onLost := true }) id
        (hExcluding.here h)
      exact hStart.send nofun
  | renewTimer h =>
    unfold Site.step
    dsimp only
    have hTimer := hExcluding.setLease (l := { s.leases h with renewTimer := none }) id
      (hExcluding.here h)
    split
    · split
      · exact hTimer
      · exact hTimer.send nofun
    · exact hTimer
    · exact hExcluding
  | expiryTimer h =>
    unfold Site.step
    dsimp only
    split
    next =>
      refine hExcluding.setLease (fun hStopped => ?_) fun hRunning t ht => ?_
      · rw [stopped_lose]
        exact hStopped
      · rw [stopped_lose] at hRunning
        have hSafe := safeUntil_lose ht
        exact hExcluding.here h hRunning t hSafe
    next => exact hExcluding
  | stop h =>
    have hStopped : (s.leases h).stop.stopped = true := by
      unfold PostgresSiteLease.stop
      split
      · assumption
      · rfl
    have hStop : Excluding cfg (s.setLease h (s.leases h).stop) := by
      refine hExcluding.setLease (fun _ => hStopped) fun hRunning => ?_
      rw [hStopped] at hRunning
      cases hRunning
    unfold Site.step
    dsimp only
    split
    · refine hStop.send fun _ _ => ?_
      rw [leases_setLease_self]
      exact hStopped
    · exact hStop
  | execute i =>
    unfold Site.step
    dsimp only
    split
    next h q hSent =>
      refine (hExcluding.take i).execute fun generation hq => ?_
      subst hq
      exact hExcluding.stopping h generation (mem_of_getElem? hSent)
    next => exact hExcluding
  | fail i =>
    unfold Site.step
    dsimp only
    split
    · exact (hExcluding.take i).fail
    · exact hExcluding
  | answer i =>
    unfold Site.step
    dsimp only
    split
    next a hAnswer =>
      refine (hExcluding.deliver i).arrive fun hRunning generation remainingMs hReply hPos => ?_
      have hHeld := hExcluding.onTheWay a (mem_of_getElem? hAnswer) hRunning generation
        remainingMs hReply
      exact hHeld.mono (hMargin a hAnswer hRunning generation remainingMs hReply hPos)
    next => exact hExcluding
  | unread i =>
    unfold Site.step
    dsimp only
    split
    · exact (hExcluding.deliver i).arrive nofun
    · exact hExcluding
  | lose i =>
    unfold Site.step
    dsimp only
    split
    · exact (hExcluding.deliver i).arrive nofun
    · exact hExcluding

theorem excluding_init (cfg : SiteConfig) (t₀ : ℚ) : Excluding cfg { now := t₀ } :=
  ⟨nofun, nofun, nofun, nofun⟩

/-- The row is that of an active instance. -/
theorem Excluding.holder (hExcluding : Excluding cfg s) (hActive : s.active cfg h = true) :
    ∃ row, s.row = some row ∧ row.holderId = h := by
  rw [Site.active, PostgresSiteLease.active, Bool.and_eq_true, Bool.and_eq_true,
    Bool.not_eq_true', Option.any_eq_true] at hActive
  obtain ⟨⟨hRunning, -⟩, t, hSafe, hBefore⟩ := hActive
  rcases hExcluding.here h hRunning t hSafe with hOver | ⟨row, hRow, hHolder, -⟩
  · rw [Site.performanceNow, decide_eq_true_iff] at hBefore
    linarith
  · exact ⟨row, hRow, hHolder⟩

/-- In every run in which each answer that grants a lease arrives within its margin, no two
instances are active at once. -/
theorem one_leader {cfg : SiteConfig} {t₀ : ℚ} {es pre post : List SiteEvent}
    (hMargin : Guarded (Site.step cfg) (WithinMargin cfg) { now := t₀ } es)
    (hSplit : es = pre ++ post) {h h' : Text} (hNe : h ≠ h') :
    ¬ ((run (Site.step cfg) { now := t₀ } pre).active cfg h = true ∧
      (run (Site.step cfg) { now := t₀ } pre).active cfg h' = true) := by
  rw [hSplit, guarded_append] at hMargin
  have hExcluding := run_invariant_guarded (Excluding cfg) (fun _ _ => excluding_step)
    (excluding_init cfg t₀) hMargin.1
  rintro ⟨hActive, hActive'⟩
  obtain ⟨row, hRow, hHolder⟩ := hExcluding.holder hActive
  obtain ⟨row', hRow', hHolder'⟩ := hExcluding.holder hActive'
  have hSame : row = row' := Option.some.inj (hRow.symm.trans hRow')
  exact hNe (by rw [← hHolder, ← hHolder', hSame])

end leader

/-! ## Answers in time and late -/

/-- Two origins with the usual lease, and clocks that differ. -/
def twoOrigins : SiteConfig where
  lease := fun h => { usualLease with originId := h }
  clock := fun h => if h = js "a" then 0 else 7

/-- An answer after four tenths of a second. -/
def promptStart : List SiteEvent :=
  [.start (js "a"), .execute 0, .tick 400, .answer 0, .start (js "b"), .execute 0, .answer 0]

theorem promptStart_guarded :
    Guarded (Site.step twoOrigins) (WithinMargin twoOrigins) { now := 0 } promptStart := by
  refine ⟨trivial, trivial, trivial, ?_, trivial, trivial, ?_, trivial⟩
  · intro a hAnswer _ generation remainingMs hReply _
    obtain rfl : a = ⟨js "a", false, .row 1 15000, 0⟩ :=
      Option.some.inj (hAnswer.symm.trans (by decide +kernel))
    cases hReply
    decide +kernel
  · intro a hAnswer _ generation remainingMs hReply _
    obtain rfl : a = ⟨js "b", false, .noRow, 400⟩ :=
      Option.some.inj (hAnswer.symm.trans (by decide +kernel))
    cases hReply

theorem one_leader_prompt :
    ¬ ((run (Site.step twoOrigins) { now := 0 } promptStart).active twoOrigins (js "a") = true ∧
      (run (Site.step twoOrigins) { now := 0 } promptStart).active twoOrigins (js "b") = true) :=
  one_leader promptStart_guarded (List.append_nil promptStart).symm (by decide)

/-- The answer to the statement of the one comes after ten seconds, and the other takes over when
the lease has ended. -/
def slowAnswer : List SiteEvent :=
  [.start (js "a"), .execute 0, .tick 10000, .answer 0, .tick 15000, .start (js "b"), .execute 0,
    .answer 0]

theorem two_leaders : ¬ ∀ (cfg : SiteConfig) (t₀ : ℚ) (es : List SiteEvent) (h h' : Text),
    h ≠ h' → ¬ ((run (Site.step cfg) { now := t₀ } es).active cfg h = true ∧
      (run (Site.step cfg) { now := t₀ } es).active cfg h' = true) := fun hAll =>
  hAll twoOrigins 0 slowAnswer (js "a") (js "b") (by decide +kernel) (by decide +kernel)

end TMEdge.Leadership
