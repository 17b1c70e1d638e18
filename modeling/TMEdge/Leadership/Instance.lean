import TMEdge.Leadership.Lease

/-!
# The lease of an origin

`PostgresSiteLease` of `src/infrastructure/postgres/site-leadership.ts`: one origin, its timers and
the queries it has in flight. A timer may fire at any time once it is set, and an answer may come
at any time after its query.

* `never_resurrected_iff`: a lost lease stays lost exactly when no lease is answered after the loss.
* `lease_resurrected`: a renewal answered after the expiry timer has fired.
-/

namespace TMEdge.Leadership

open Library

/-! ## The instance -/

structure SiteLeaseConfig where
  siteId : Text
  originId : Text
  ttlMs : Nat
  renewMs : Nat

/-- A time of −∞ is `none`; a timer is the time it is due. -/
structure PostgresSiteLease where
  generation : Option Nat := none
  safeUntil : Option ℚ := none
  renewTimer : Option ℚ := none
  expiryTimer : Option ℚ := none
  /-- The callback has been given and not yet been called. -/
  onLost : Bool := false
  stopped : Bool := false
  deriving DecidableEq

/-- What a query comes to, as `leaseRow` reads it: a row with its `generation` and `remaining_ms`,
no row, or a failure, which an invalid row is as well. -/
inductive Reply
  | row (generation : Nat) (remainingMs : ℚ)
  | noRow
  | failed
  deriving DecidableEq

namespace PostgresSiteLease

variable (cfg : SiteLeaseConfig) (l : PostgresSiteLease)

def active (now : ℚ) : Bool :=
  !l.stopped && l.generation.isSome && l.safeUntil.any fun t => now < t

/-- `fence`, without the identity of the instance. -/
def fence (now : ℚ) : Option Nat := if l.active now then l.generation else none

def margin : ℚ := max 250 (min 1000 ⌊(cfg.ttlMs : ℚ) / 10⌋)

/-- The local deadline of a lease with some time remaining. -/
def deadline (now remainingMs : ℚ) : ℚ := now + max 1 (remainingMs - margin cfg)

/-- `accept`, or `none` where it throws. -/
def accept (generation : Nat) (remainingMs now : ℚ) : Option PostgresSiteLease :=
  if remainingMs ≤ 0 then none
  else
    let safeUntil := deadline cfg now remainingMs
    some { l with
      generation := some generation, safeUntil := some safeUntil
      expiryTimer := some (now + max 1 (safeUntil - now)) }

def scheduleRenewal (delay now : ℚ) : PostgresSiteLease :=
  if l.stopped || l.generation.isNone then l else { l with renewTimer := some (now + delay) }

/-- `lose`, and whether it calls `onLost`. -/
def lose : PostgresSiteLease × Bool :=
  if l.stopped || l.generation.isNone then (l, false)
  else
    ({ l with generation := none, safeUntil := none, renewTimer := none, expiryTimer := none
              onLost := false }, l.onLost)

/-- `start` after its query. -/
def started (reply : Reply) (now : ℚ) : PostgresSiteLease :=
  match reply with
  | .row generation remainingMs =>
    match l.accept cfg generation remainingMs now with
    | some l => l.scheduleRenewal cfg.renewMs now
    | none => l
  | .noRow => l
  | .failed => l

/-- The `catch` of `renew`. -/
def retry (now : ℚ) : PostgresSiteLease × Bool :=
  match l.safeUntil with
  | none => l.lose
  | some safeUntil =>
    let remaining := safeUntil - now
    if remaining ≤ 0 then l.lose
    else (l.scheduleRenewal (max 100 (min 500 ⌊remaining / 2⌋)) now, false)

/-- `renew` after its query. -/
def renewed (reply : Reply) (now : ℚ) : PostgresSiteLease × Bool :=
  match reply with
  | .row generation remainingMs =>
    match l.accept cfg generation remainingMs now with
    | some l => (l.scheduleRenewal cfg.renewMs now, false)
    | none => l.retry now
  | .noRow => l.lose
  | .failed => l.retry now

/-- `stop` before its query. -/
def stop : PostgresSiteLease :=
  if l.stopped then l
  else
    { l with stopped := true, generation := none, safeUntil := none, renewTimer := none
             expiryTimer := none }

end PostgresSiteLease

/-! ## One instance and its queries -/

structure Origin where
  lease : PostgresSiteLease := {}
  /-- Queries in flight. -/
  starts : Nat := 0
  renewals : Nat := 0
  /-- `onLost` has been called. -/
  lost : Bool := false
  deriving DecidableEq

inductive OriginEvent
  | start
  | startReply (reply : Reply)
  | renewTimer
  | renewReply (reply : Reply)
  | expiryTimer
  | stop

/-- An instance after `lose`, or after something that may call it. -/
def Origin.after (o : Origin) (r : PostgresSiteLease × Bool) : Origin :=
  { o with lease := r.1, lost := o.lost || r.2 }

/-- A query that is sent by a renewal that finds its lease. -/
def Origin.renew (o : Origin) : Origin :=
  if o.lease.stopped || o.lease.generation.isNone then o else { o with renewals := o.renewals + 1 }

def Origin.step (cfg : SiteLeaseConfig) (o : Origin) (ev : OriginEvent × ℚ) : Origin :=
  match ev.1 with
  | .start =>
    if o.lease.stopped || o.lease.generation.isSome then o
    else { o with lease := { o.lease with onLost := true }, starts := o.starts + 1 }
  | .startReply reply =>
    if o.starts = 0 then o
    else { o with lease := o.lease.started cfg reply ev.2, starts := o.starts - 1 }
  | .renewTimer =>
    if o.lease.renewTimer = none then o
    else { o with lease := { o.lease with renewTimer := none } }.renew
  | .renewReply reply =>
    if o.renewals = 0 then o
    else { o with renewals := o.renewals - 1 }.after (o.lease.renewed cfg reply ev.2)
  | .expiryTimer =>
    if o.lease.expiryTimer = none then o
    else { o with lease := { o.lease with expiryTimer := none } }.after
      { o.lease with expiryTimer := none }.lose
  | .stop => { o with lease := o.lease.stop }

/-! ## Lost leases -/

/-- Nothing is left of a lease. -/
structure PostgresSiteLease.Silent (l : PostgresSiteLease) : Prop where
  active : ∀ now, l.active now = false
  fence : ∀ now, l.fence now = none
  renewTimer : l.renewTimer = none

/-- Once `onLost` has been called, or `stop` has begun, nothing is left of the lease for ever
after. -/
def NeverResurrected (cfg : SiteLeaseConfig) (es : List (OriginEvent × ℚ)) : Prop :=
  ∀ pre mid post, es = pre ++ mid ++ post →
    (run (Origin.step cfg) {} pre).lost = true ∨
      (run (Origin.step cfg) {} pre).lease.stopped = true →
    (run (Origin.step cfg) {} (pre ++ mid)).lease.Silent

/-- A lease that a query answers with: a row with some time remaining. -/
def Reply.Grants : Reply → Prop
  | .row _ remainingMs => 0 < remainingMs
  | _ => False

/-- No query in flight is answered with a lease once the lease has been lost, unless the instance
has been stopped. -/
def InTime (o : Origin) (ev : OriginEvent × ℚ) : Prop :=
  match ev.1 with
  | .startReply reply => o.starts ≠ 0 → reply.Grants → o.lost = false ∨ o.lease.stopped = true
  | .renewReply reply => o.renewals ≠ 0 → reply.Grants → o.lost = false ∨ o.lease.stopped = true
  | _ => True

/-! ## What one step leaves -/

section step

variable {cfg : SiteLeaseConfig} {l l' : PostgresSiteLease} {o : Origin} {reply : Reply} {now : ℚ}
  {ev : OriginEvent × ℚ} {generation : Nat} {remainingMs : ℚ}

/-- Nothing is left of a lease, but for what a stopped instance no longer looks at. -/
structure Gone (l : PostgresSiteLease) : Prop where
  renewTimer : l.renewTimer = none
  generation : l.stopped = false → l.generation = none

theorem Gone.idle (h : Gone l) : l.stopped = true ∨ l.generation = none := by
  rcases hStopped : l.stopped with - | -
  · exact .inr (h.generation hStopped)
  · exact .inl rfl

theorem Gone.silent (h : Gone l) : l.Silent := by
  have hActive : ∀ now, l.active now = false := fun now => by
    rcases h.idle with hIdle | hIdle
    · simp [PostgresSiteLease.active, hIdle]
    · simp [PostgresSiteLease.active, hIdle]
  refine ⟨hActive, fun now => ?_, h.renewTimer⟩
  rw [PostgresSiteLease.fence, hActive, if_neg Bool.false_ne_true]

theorem accept_eq_some (h : l.accept cfg generation remainingMs now = some l') : 0 < remainingMs ∧
      l'.stopped = l.stopped ∧ l'.renewTimer = l.renewTimer ∧ l'.generation = some generation ∧
        l'.safeUntil = some (PostgresSiteLease.deadline cfg now remainingMs) := by
  unfold PostgresSiteLease.accept at h
  split at h
  next => cases h
  next hPos =>
    cases h
    exact ⟨not_le.mp hPos, rfl, rfl, rfl, rfl⟩

theorem scheduleRenewal_fields (l : PostgresSiteLease) (delay now : ℚ) :
    (l.scheduleRenewal delay now).stopped = l.stopped ∧
      (l.scheduleRenewal delay now).generation = l.generation ∧
        (l.scheduleRenewal delay now).safeUntil = l.safeUntil := by
  unfold PostgresSiteLease.scheduleRenewal
  split
  · exact ⟨rfl, rfl, rfl⟩
  · exact ⟨rfl, rfl, rfl⟩

theorem scheduleRenewal_idle (delay : ℚ) (h : l.stopped = true ∨ l.generation = none) :
    l.scheduleRenewal delay now = l := by
  rw [PostgresSiteLease.scheduleRenewal, if_pos]
  rcases h with h | h
  · simp [h]
  · simp [h]

theorem lose_idle (h : l.stopped = true ∨ l.generation = none) : l.lose = (l, false) := by
  rw [PostgresSiteLease.lose, if_pos]
  rcases h with h | h
  · simp [h]
  · simp [h]

theorem stopped_lose (l : PostgresSiteLease) : l.lose.1.stopped = l.stopped := by
  unfold PostgresSiteLease.lose
  split
  · rfl
  · rfl

theorem stopped_retry (l : PostgresSiteLease) (now : ℚ) : (l.retry now).1.stopped = l.stopped := by
  unfold PostgresSiteLease.retry
  split
  · exact stopped_lose l
  · dsimp only
    split
    · exact stopped_lose l
    · exact (scheduleRenewal_fields _ _ _).1

theorem stopped_started (cfg : SiteLeaseConfig) (l : PostgresSiteLease) (reply : Reply) (now : ℚ) :
    (l.started cfg reply now).stopped = l.stopped := by
  unfold PostgresSiteLease.started
  split
  · split
    next hAccept => exact (scheduleRenewal_fields _ _ _).1.trans (accept_eq_some hAccept).2.1
    next => rfl
  · rfl
  · rfl

theorem stopped_renewed (cfg : SiteLeaseConfig) (l : PostgresSiteLease) (reply : Reply) (now : ℚ) :
    (l.renewed cfg reply now).1.stopped = l.stopped := by
  unfold PostgresSiteLease.renewed
  split
  · split
    next hAccept => exact (scheduleRenewal_fields _ _ _).1.trans (accept_eq_some hAccept).2.1
    next => exact stopped_retry l now
  · exact stopped_lose l
  · exact stopped_retry l now

/-- `lose` leaves nothing of the lease that it loses. -/
theorem gone_lose (h : l.lose.2 = true ∨ Gone l) : Gone l.lose.1 := by
  rcases h with h | h
  · unfold PostgresSiteLease.lose at h ⊢
    split at h
    next => cases h
    next hLive =>
      rw [if_neg hLive]
      exact ⟨rfl, fun _ => rfl⟩
  · rw [lose_idle h.idle]
    exact h

theorem gone_retry (h : (l.retry now).2 = true ∨ Gone l) : Gone (l.retry now).1 := by
  unfold PostgresSiteLease.retry at h ⊢
  split at h
  · exact gone_lose h
  · dsimp only at h ⊢
    split at h
    next hLate =>
      rw [if_pos hLate]
      exact gone_lose h
    next hLate =>
      rw [if_neg hLate]
      rcases h with h | h
      · cases h
      · rw [scheduleRenewal_idle _ h.idle]
        exact h

/-- A lease that a stopped instance accepts is not looked at. -/
theorem gone_accept (h : Gone l) (hStopped : l.stopped = true)
    (hAccept : l.accept cfg generation remainingMs now = some l') (delay : ℚ) :
    Gone (l'.scheduleRenewal delay now) := by
  obtain ⟨-, hSame, hTimer, -⟩ := accept_eq_some hAccept
  rw [scheduleRenewal_idle _ (.inl (hSame.trans hStopped))]
  refine ⟨hTimer.trans h.renewTimer, fun hRunning => ?_⟩
  rw [hSame, hStopped] at hRunning
  cases hRunning

theorem gone_started (h : Gone l) (hGrants : reply.Grants → l.stopped = true) :
    Gone (l.started cfg reply now) := by
  unfold PostgresSiteLease.started
  split
  next generation remainingMs =>
    split
    next hAccept => exact gone_accept h (hGrants (accept_eq_some hAccept).1) hAccept _
    next => exact h
  next => exact h
  next => exact h

theorem gone_renewed
    (h : (l.renewed cfg reply now).2 = true ∨ Gone l ∧ (reply.Grants → l.stopped = true)) :
    Gone (l.renewed cfg reply now).1 := by
  unfold PostgresSiteLease.renewed at h ⊢
  split at h
  next generation remainingMs =>
    split at h
    next hAccept =>
      rcases h with h | ⟨h, hGrants⟩
      · cases h
      · exact gone_accept h (hGrants (accept_eq_some hAccept).1) hAccept _
    next => exact gone_retry (h.imp_right And.left)
  next => exact gone_lose (h.imp_right And.left)
  next => exact gone_retry (h.imp_right And.left)

/-- What has been lost or stopped is gone. -/
def Origin.Ended (o : Origin) : Prop := o.lost = true ∨ o.lease.stopped = true → Gone o.lease

theorem ended_step (h : o.Ended) (hTime : InTime o ev) : (o.step cfg ev).Ended := by
  obtain ⟨event, now⟩ := ev
  cases event with
  | start =>
    unfold Origin.step
    dsimp only
    split
    · exact h
    · exact fun hEnd => ⟨(h hEnd).renewTimer, (h hEnd).generation⟩
  | startReply reply =>
    unfold Origin.step
    dsimp only
    split
    next => exact h
    next hSent =>
      intro hEnd
      rw [stopped_started] at hEnd
      refine gone_started (h hEnd) fun hGrants => ?_
      rcases hTime hSent hGrants with hLost | hStopped
      · exact hEnd.resolve_left (by rw [hLost]; exact Bool.false_ne_true)
      · exact hStopped
  | renewTimer =>
    unfold Origin.step
    dsimp only
    split
    · exact h
    · unfold Origin.renew
      split
      · exact fun hEnd => ⟨rfl, (h hEnd).generation⟩
      · exact fun hEnd => ⟨rfl, (h hEnd).generation⟩
  | renewReply reply =>
    unfold Origin.step
    dsimp only
    split
    next => exact h
    next hSent =>
      intro hEnd
      refine gone_renewed ?_
      rcases hResult : (o.lease.renewed cfg reply now).2 with - | -
      · right
        have hBefore : o.lost = true ∨ o.lease.stopped = true := by
          simpa [Origin.after, hResult, stopped_renewed] using hEnd
        refine ⟨h hBefore, fun hGrants => ?_⟩
        rcases hTime hSent hGrants with hLost | hStopped
        · exact hBefore.resolve_left (by rw [hLost]; exact Bool.false_ne_true)
        · exact hStopped
      · exact .inl rfl
  | expiryTimer =>
    unfold Origin.step
    dsimp only
    split
    next => exact h
    next =>
      intro hEnd
      refine gone_lose ?_
      rcases hResult : ({ o.lease with expiryTimer := none } : PostgresSiteLease).lose.2 with - | -
      · right
        have hBefore : o.lost = true ∨ o.lease.stopped = true := by
          simpa [Origin.after, hResult, stopped_lose] using hEnd
        exact ⟨(h hBefore).renewTimer, (h hBefore).generation⟩
      · exact .inl rfl
  | stop =>
    intro hEnd
    unfold Origin.step PostgresSiteLease.stop at hEnd ⊢
    dsimp only at hEnd ⊢
    split
    next hStopped => exact h (.inr hStopped)
    next => exact ⟨rfl, fun _ => rfl⟩

/-- A lease that is granted to an instance that runs is there at once. -/
theorem active_of_grants (hStopped : l.stopped = false)
    (hAccept : l.accept cfg generation remainingMs now = some l') (delay : ℚ) :
    (l'.scheduleRenewal delay now).active now = true := by
  obtain ⟨-, hSame, -, hGeneration, hSafe⟩ := accept_eq_some hAccept
  obtain ⟨hStopped', hGeneration', hSafe'⟩ := scheduleRenewal_fields l' delay now
  have hLater : now < PostgresSiteLease.deadline cfg now remainingMs :=
    lt_add_of_pos_right now (lt_of_lt_of_le one_pos (le_max_left _ _))
  simp [PostgresSiteLease.active, hStopped', hGeneration', hSafe', hSame, hStopped, hGeneration,
    hSafe, hLater]

theorem exists_accept (cfg : SiteLeaseConfig) (l : PostgresSiteLease) (generation : Nat) (now : ℚ)
    (hPos : 0 < remainingMs) : ∃ l', l.accept cfg generation remainingMs now = some l' := by
  rw [PostgresSiteLease.accept, if_neg (not_le.mpr hPos)]
  exact ⟨_, rfl⟩

theorem active_step (cfg : SiteLeaseConfig) (hNot : ¬ InTime o ev) :
    (o.step cfg ev).lease.active ev.2 = true ∧ o.lost = true := by
  obtain ⟨event, now⟩ := ev
  cases event with
  | startReply reply =>
    simp only [InTime, Classical.not_imp, not_or, Bool.not_eq_false, Bool.not_eq_true] at hNot
    obtain ⟨hSent, hGrants, hLost, hRunning⟩ := hNot
    rcases reply with ⟨generation, remainingMs⟩ | - | -
    · obtain ⟨l', hAccept⟩ := exists_accept cfg o.lease generation now hGrants
      refine ⟨?_, hLost⟩
      have hActive := active_of_grants hRunning hAccept cfg.renewMs
      simpa [Origin.step, hSent, PostgresSiteLease.started, hAccept] using hActive
    · cases hGrants
    · cases hGrants
  | renewReply reply =>
    simp only [InTime, Classical.not_imp, not_or, Bool.not_eq_false, Bool.not_eq_true] at hNot
    obtain ⟨hSent, hGrants, hLost, hRunning⟩ := hNot
    rcases reply with ⟨generation, remainingMs⟩ | - | -
    · obtain ⟨l', hAccept⟩ := exists_accept cfg o.lease generation now hGrants
      refine ⟨?_, hLost⟩
      have hActive := active_of_grants hRunning hAccept cfg.renewMs
      simpa [Origin.step, hSent, PostgresSiteLease.renewed, hAccept, Origin.after] using hActive
    · cases hGrants
    · cases hGrants
  | _ => exact absurd trivial hNot

/-- An instance that has lost its lease or has been stopped stays so. -/
theorem over_step (h : o.lost = true ∨ o.lease.stopped = true) :
    (o.step cfg ev).lost = true ∨ (o.step cfg ev).lease.stopped = true := by
  obtain ⟨event, now⟩ := ev
  cases event with
  | start =>
    unfold Origin.step
    dsimp only
    split
    · exact h
    · exact h
  | startReply reply =>
    unfold Origin.step
    dsimp only
    split
    · exact h
    · exact h.imp_right (stopped_started cfg o.lease reply now).trans
  | renewTimer =>
    unfold Origin.step
    dsimp only
    split
    · exact h
    · unfold Origin.renew
      split
      · exact h
      · exact h
  | renewReply reply =>
    unfold Origin.step
    dsimp only
    split
    · exact h
    · refine h.imp (fun hLost => ?_) (stopped_renewed cfg o.lease reply now).trans
      simp [Origin.after, hLost]
  | expiryTimer =>
    unfold Origin.step
    dsimp only
    split
    · exact h
    · refine h.imp (fun hLost => ?_) (stopped_lose _).trans
      simp [Origin.after, hLost]
  | stop =>
    unfold Origin.step PostgresSiteLease.stop
    dsimp only
    split
    · exact h
    · exact .inr rfl

end step

/-! ## Runs -/

/-- A lost lease is never resurrected exactly when no query in flight is answered with a lease after
the loss. -/
theorem never_resurrected_iff (cfg : SiteLeaseConfig) (es : List (OriginEvent × ℚ)) :
    NeverResurrected cfg es ↔ Guarded (Origin.step cfg) InTime {} es := by
  constructor
  · intro h
    refine guarded_of_forall_split fun pre ev post hSplit => ?_
    by_contra hNot
    obtain ⟨hActive, hLost⟩ := active_step cfg hNot
    have hSilent := h pre [ev] post (by rw [hSplit]; simp) (.inl hLost)
    rw [run_concat] at hSilent
    rw [hSilent.active] at hActive
    cases hActive
  · intro hGuarded pre mid post hSplit hEnd
    rw [hSplit, guarded_append, guarded_append] at hGuarded
    obtain ⟨⟨hPre, hMid⟩, -⟩ := hGuarded
    have hStart : Origin.Ended {} := by
      rintro (h | h)
      · cases h
      · cases h
    have hEnded := run_invariant_guarded Origin.Ended (fun _ _ => ended_step) hStart
      (guarded_append.mpr ⟨hPre, hMid⟩)
    -- what is over stays over
    have hOver := run_invariant (fun o : Origin => o.lost = true ∨ o.lease.stopped = true)
      (fun o ev => @over_step cfg o ev) hEnd mid
    rw [← run_append] at hOver
    exact (hEnded hOver).silent

/-! ## Late answers -/

/-- The lease of fifteen seconds that is usual. -/
def usualLease : SiteLeaseConfig where
  siteId := js "site"
  originId := js "a"
  ttlMs := 15000
  renewMs := 5000

/-- A renewal is sent after five seconds, and its answer comes half a second after the lease has
been lost. -/
def lateRenewal : List (OriginEvent × ℚ) :=
  [(.start, 0), (.startReply (.row 1 15000), 0), (.renewTimer, 5000), (.expiryTimer, 14000),
    (.renewReply (.row 1 15000), 14500)]

/-- The same with a `start` that has been called twice. -/
def lateStart : List (OriginEvent × ℚ) :=
  [(.start, 0), (.start, 0), (.startReply (.row 1 15000), 0), (.expiryTimer, 14000),
    (.startReply (.row 1 15000), 14500)]

theorem lease_resurrected :
    ¬ NeverResurrected usualLease lateRenewal ∧ ¬ NeverResurrected usualLease lateStart := by
  constructor
  · intro hNever
    have hSilent := hNever (lateRenewal.take 4) (lateRenewal.drop 4) [] rfl
      (.inl (by decide +kernel))
    exact absurd (hSilent.active 14500) (by decide +kernel)
  · intro hNever
    have hSilent := hNever (lateStart.take 4) (lateStart.drop 4) [] rfl
      (.inl (by decide +kernel))
    exact absurd (hSilent.active 14500) (by decide +kernel)

end TMEdge.Leadership
