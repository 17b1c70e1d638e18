import TMEdge.Library.Bucket
import TMEdge.NodeLink.Frame

/-!
# The rate of a session

The two token buckets of a session are drawn from together or not at all (`Tokens.charge`), and each
is a bucket of its own: a message that is refused draws nothing from either.

* `withinRate_spec`: one message.
* `rate_bounded`: the messages of a session from its beginning, over any interval.
-/

namespace TMEdge.NodeLink

open Library Function

/-! ## Messages of a session -/

/-- A message that `withinRate` was asked about: the time in milliseconds, its length and whether
it passed. -/
structure Rated where
  time : ℚ
  bytes : Nat
  passed : Bool

/-- What `withinRate` makes of the messages of a session, each with its clock and its length. -/
def Edge.rate (cfg : Config) (ref : Nat) : Edge → List (Env × Nat) → Edge × List Rated
  | e, [] => (e, [])
  | e, m :: messages =>
    let r := e.withinRate cfg m.1 ref m.2
    let rest := Edge.rate cfg ref r.1 messages
    (rest.1, ⟨m.1.mono, m.2, r.2⟩ :: rest.2)

/-- The messages that pass in an interval. -/
def passedWithin (start stop : ℚ) (rated : List Rated) : List Rated :=
  rated.filter fun r => r.passed ∧ start ≤ r.time ∧ r.time ≤ stop

/-- Two seconds deep. -/
structure Tokens.Within (limits : Limits) (tokens : Tokens) : Prop where
  msgs : 0 ≤ tokens.msgs ∧ tokens.msgs ≤ limits.messagesPerSec * 2
  bytes : 0 ≤ tokens.bytes ∧ tokens.bytes ≤ limits.bytesPerSec * 2

/-! ## The buckets -/

def Tokens.msgBucket (tokens : Tokens) : Bucket := ⟨tokens.msgs, tokens.time⟩

def Tokens.byteBucket (tokens : Tokens) : Bucket := ⟨tokens.bytes, tokens.time⟩

/-- A bucket two seconds deep, in milliseconds. -/
def refilled (rate : ℚ) (b : Bucket) (t : ℚ) : ℚ := b.refill (rate * 2) (rate / 1000) t

def Tokens.charge (limits : Limits) (tokens : Tokens) (t : ℚ) (bytes : Nat) : Tokens × Bool :=
  let msgs := refilled limits.messagesPerSec tokens.msgBucket t
  let allowed := refilled limits.bytesPerSec tokens.byteBucket t
  if 1 ≤ msgs ∧ bytes ≤ allowed then (⟨msgs - 1, allowed - bytes, t⟩, true)
  else (⟨msgs, allowed, t⟩, false)

section

variable {cfg : Config} {e : Edge} {ref : Nat} {env : Env} {bytes : Nat} {s : Session}
  {tokens : Tokens} {limits : Limits} {t : ℚ}

theorem refilled_eq (rate : ℚ) (b : Bucket) (t : ℚ) :
    refilled rate b t = min (rate * 2) (b.level + max 0 (t - b.time) / 1000 * rate) := by
  unfold refilled Bucket.refill
  rw [show max 0 (t - b.time) * (rate / 1000) = max 0 (t - b.time) / 1000 * rate by ring]

theorem tokens_updateSession {f : Session → Session} (hf : ∀ s, (f s).tokens = s.tokens)
    (k : Nat) : ((e.updateSession ref f).session? k).map Session.tokens =
      (e.session? k).map Session.tokens := by
  rw [session?_updateSession, update_apply]
  split
  · rename_i hk
    rw [hk]
    cases e.session? ref <;> simp [hf]
  · rfl

theorem tokens_closed (k : Nat) :
    ((e.closed ref).session? k).map Session.tokens = (e.session? k).map Session.tokens := by
  have hUpdate : ((e.updateSession ref fun s =>
      { s with state := .closed, timer := false }).session? k).map Session.tokens =
      (e.session? k).map Session.tokens :=
    tokens_updateSession (by intro _; rfl) k
  unfold Edge.closed
  split
  · rfl
  · split
    · rfl
    · dsimp only
      split
      · exact hUpdate
      · split <;> exact hUpdate

/-- One message. -/
theorem withinRate_spec (hs : (e.session? ref).map Session.tokens = some tokens) :
    ((e.withinRate cfg env ref bytes).1.session? ref).map Session.tokens =
        some (tokens.charge cfg.limits env.mono bytes).1 ∧
      (e.withinRate cfg env ref bytes).2 = (tokens.charge cfg.limits env.mono bytes).2 := by
  obtain ⟨s, hSession, rfl⟩ := Option.map_eq_some_iff.mp hs
  have hMsgs := refilled_eq cfg.limits.messagesPerSec s.tokens.msgBucket env.mono
  have hBytes := refilled_eq cfg.limits.bytesPerSec s.tokens.byteBucket env.mono
  unfold Edge.withinRate Tokens.charge
  rw [hSession]
  dsimp only [Tokens.msgBucket, Tokens.byteBucket] at hMsgs hBytes ⊢
  rw [hMsgs, hBytes]
  split
  · refine ⟨?_, rfl⟩
    rw [session?_updateSession, update_self, hSession]
    rfl
  · refine ⟨?_, rfl⟩
    split
    · unfold Edge.fail
      rw [tokens_closed, session?_updateSession, update_self, hSession]
      rfl
    · rw [session?_updateSession, update_self, hSession]
      rfl

/-- What a message draws from the buckets: both amounts, or nothing. -/
theorem charge_spec (hRates : 0 ≤ limits.messagesPerSec ∧ 0 ≤ limits.bytesPerSec)
    (h : tokens.Within limits) {tokens' : Tokens} {passed : Bool}
    (hCharge : tokens.charge limits t bytes = (tokens', passed)) :
    tokens'.Within limits ∧
      (0 ≤ (if passed then (1 : ℚ) else 0) ∧
        (if passed then (1 : ℚ) else 0) ≤ refilled limits.messagesPerSec tokens.msgBucket t) ∧
      (0 ≤ (if passed then (bytes : ℚ) else 0) ∧
        (if passed then (bytes : ℚ) else 0) ≤ refilled limits.bytesPerSec tokens.byteBucket t) ∧
      tokens'.msgBucket = tokens.msgBucket.draw (limits.messagesPerSec * 2)
        (limits.messagesPerSec / 1000) (t, if passed then 1 else 0) ∧
      tokens'.byteBucket = tokens.byteBucket.draw (limits.bytesPerSec * 2)
        (limits.bytesPerSec / 1000) (t, if passed then (bytes : ℚ) else 0) := by
  have hMsgs : 0 ≤ refilled limits.messagesPerSec tokens.msgBucket t :=
    Bucket.refill_nonneg (mul_nonneg hRates.1 zero_le_two) (by linarith [hRates.1]) h.msgs.1 t
  have hBytes : 0 ≤ refilled limits.bytesPerSec tokens.byteBucket t :=
    Bucket.refill_nonneg (mul_nonneg hRates.2 zero_le_two) (by linarith [hRates.2]) h.bytes.1 t
  have hMsgsTop : refilled limits.messagesPerSec tokens.msgBucket t ≤ limits.messagesPerSec * 2 :=
    Bucket.refill_le ..
  have hBytesTop : refilled limits.bytesPerSec tokens.byteBucket t ≤ limits.bytesPerSec * 2 :=
    Bucket.refill_le ..
  have hLength : (0 : ℚ) ≤ bytes := Nat.cast_nonneg bytes
  unfold Tokens.charge at hCharge
  dsimp only at hCharge
  split at hCharge
  · rename_i hEnough
    obtain ⟨rfl, rfl⟩ := Prod.mk.inj hCharge
    refine ⟨⟨⟨?_, ?_⟩, ?_, ?_⟩, ⟨zero_le_one, hEnough.1⟩, ⟨hLength, hEnough.2⟩, rfl, rfl⟩
    all_goals dsimp only; linarith [hEnough.1, hEnough.2]
  · obtain ⟨rfl, rfl⟩ := Prod.mk.inj hCharge
    refine ⟨⟨⟨hMsgs, hMsgsTop⟩, hBytes, hBytesTop⟩, ⟨le_rfl, hMsgs⟩, ⟨le_rfl, hBytes⟩, ?_, ?_⟩
    · simp [Tokens.msgBucket, Bucket.draw, refilled]
    · simp [Tokens.byteBucket, Bucket.draw, refilled]

/-! ## All messages of a session -/

/-- What the messages draw from a bucket. -/
def draws (amount : Rated → ℚ) (rated : List Rated) : List (ℚ × ℚ) :=
  rated.map fun r => (r.time, if r.passed then amount r else 0)

theorem drawnWithin_draws (amount : Rated → ℚ) (start stop : ℚ) (rated : List Rated) :
    drawnWithin start stop (draws amount rated) =
      ((passedWithin start stop rated).map amount).sum := by
  induction rated with
  | nil => rfl
  | cons r rated ih =>
    unfold draws passedWithin at ih ⊢
    rw [List.map_cons, drawnWithin_cons, ih, List.filter_cons]
    by_cases hIn : start ≤ r.time ∧ r.time ≤ stop
    · cases r.passed <;> simp [hIn]
    · simp [hIn]

theorem rate_times (cfg : Config) (ref : Nat) (e : Edge) (messages : List (Env × Nat)) :
    (e.rate cfg ref messages).2.map Rated.time = messages.map fun m => m.1.mono := by
  induction messages generalizing e with
  | nil => rfl
  | cons m messages ih => exact congrArg (m.1.mono :: ·) (ih _)

/-- What a session's messages draw from its buckets. -/
theorem rate_spec (hRates : 0 ≤ cfg.limits.messagesPerSec ∧ 0 ≤ cfg.limits.bytesPerSec)
    (messages : List (Env × Nat)) (hs : (e.session? ref).map Session.tokens = some tokens)
    (h : tokens.Within cfg.limits) :
    (∃ tokens', ((e.rate cfg ref messages).1.session? ref).map Session.tokens = some tokens' ∧
      tokens'.Within cfg.limits) ∧
    Draws (cfg.limits.messagesPerSec * 2) (cfg.limits.messagesPerSec / 1000) tokens.msgBucket
      (draws (fun _ => 1) (e.rate cfg ref messages).2) ∧
    Draws (cfg.limits.bytesPerSec * 2) (cfg.limits.bytesPerSec / 1000) tokens.byteBucket
      (draws (fun r => r.bytes) (e.rate cfg ref messages).2) := by
  induction messages generalizing e tokens with
  | nil => exact ⟨⟨tokens, hs, h⟩, trivial, trivial⟩
  | cons m messages ih =>
    rcases hCharge : tokens.charge cfg.limits m.1.mono m.2 with ⟨tokens', passed⟩
    obtain ⟨hTokens, hPassed⟩ : ((e.withinRate cfg m.1 ref m.2).1.session? ref).map Session.tokens =
        some tokens' ∧ (e.withinRate cfg m.1 ref m.2).2 = passed := by
      have hSpec : ((e.withinRate cfg m.1 ref m.2).1.session? ref).map Session.tokens =
          some (tokens.charge cfg.limits m.1.mono m.2).1 ∧
          (e.withinRate cfg m.1 ref m.2).2 = (tokens.charge cfg.limits m.1.mono m.2).2 :=
        withinRate_spec hs
      rwa [hCharge] at hSpec
    obtain ⟨hWithin, ⟨hCount, hCountTop⟩, ⟨hLength, hLengthTop⟩, hMsgs, hBytes⟩ :=
      charge_spec hRates h hCharge
    obtain ⟨hEnd, hMsgDraws, hByteDraws⟩ := ih hTokens hWithin
    rw [hMsgs] at hMsgDraws
    rw [hBytes] at hByteDraws
    refine ⟨hEnd, ?_, ?_⟩
    · unfold Edge.rate draws
      dsimp only
      rw [hPassed, List.map_cons]
      exact ⟨hCount, hCountTop, hMsgDraws⟩
    · unfold Edge.rate draws
      dsimp only
      rw [hPassed, List.map_cons]
      exact ⟨hLength, hLengthTop, hByteDraws⟩

theorem tokens_control (message : Control) (k : Nat) :
    (((e.control cfg env ref message).1).session? k).map Session.tokens =
      (e.session? k).map Session.tokens := by
  have hUpdate : ((e.updateSession ref fun s => { s with controlSeq := s.controlSeq + 1 }).session?
      k).map Session.tokens = (e.session? k).map Session.tokens :=
    tokens_updateSession (by intro _; rfl) k
  unfold Edge.control
  split
  · rfl
  · dsimp only
    split
    · rfl
    · split
      · exact tokens_closed k
      · split
        · split
          · rfl
          · split
            · exact (tokens_closed k).trans hUpdate
            · exact hUpdate
        · rfl

/-- The session that is opened, in the list of all sessions. -/
theorem open_tokens (cfg : Config) (e : Edge) (env : Env) (nonce sessionId : String) :
    ((e.open cfg env nonce sessionId).session? e.server.sessions.length).map Session.tokens =
      some ⟨cfg.limits.messagesPerSec * 2, cfg.limits.bytesPerSec * 2, env.mono⟩ := by
  unfold Edge.open
  rw [tokens_control]
  simp [Edge.session?]

end

/-- In any run of messages of a session, from its beginning and at times that do not go back, both
buckets stay between nothing and two seconds' worth, and in any interval of `T` seconds at most
`2 + T` seconds' worth passes. -/
theorem rate_bounded (cfg : Config) (e : Edge) (env : Env) (nonce sessionId : String)
    (messages : List (Env × Nat))
    (hRates : 0 ≤ cfg.limits.messagesPerSec ∧ 0 ≤ cfg.limits.bytesPerSec)
    (hTimes : messages.Pairwise fun m m' => m.1.mono ≤ m'.1.mono) :
    (∃ s, ((e.open cfg env nonce sessionId).rate cfg e.server.sessions.length messages).1.session?
        e.server.sessions.length = some s ∧ s.tokens.Within cfg.limits) ∧
    ∀ start T : ℚ, 0 ≤ T →
      ((passedWithin start (start + 1000 * T)
        ((e.open cfg env nonce sessionId).rate cfg e.server.sessions.length
          messages).2).length : ℚ) ≤
          (2 + T) * cfg.limits.messagesPerSec ∧
      ((passedWithin start (start + 1000 * T)
        ((e.open cfg env nonce sessionId).rate cfg e.server.sessions.length
          messages).2).map fun r => (r.bytes : ℚ)).sum ≤
          (2 + T) * cfg.limits.bytesPerSec := by
  have hFull : Tokens.Within cfg.limits
      ⟨cfg.limits.messagesPerSec * 2, cfg.limits.bytesPerSec * 2, env.mono⟩ :=
    ⟨⟨mul_nonneg hRates.1 zero_le_two, le_rfl⟩, mul_nonneg hRates.2 zero_le_two, le_rfl⟩
  obtain ⟨⟨tokens, hTokens, hWithin⟩, hMsgs, hBytes⟩ :=
    rate_spec hRates messages (open_tokens cfg e env nonce sessionId) hFull
  obtain ⟨s, hs, rfl⟩ := Option.map_eq_some_iff.mp hTokens
  refine ⟨⟨s, hs, hWithin⟩, fun start T hT => ?_⟩
  have hSorted : ∀ amount, (draws amount ((e.open cfg env nonce sessionId).rate cfg
      e.server.sessions.length messages).2).Pairwise fun d d' => d.1 ≤ d'.1 := by
    intro amount
    have hMap : (((e.open cfg env nonce sessionId).rate cfg
        e.server.sessions.length messages).2.map Rated.time).Pairwise (· ≤ ·) := by
      rw [rate_times]
      exact hTimes.map _ fun _ _ h => h
    unfold draws
    exact (List.pairwise_map.mp hMap).map _ fun _ _ h => h
  have hInterval : start ≤ start + 1000 * T := by linarith
  have hCount := hMsgs.interval (mul_nonneg hRates.1 zero_le_two)
    (div_nonneg hRates.1 (by norm_num)) (hSorted _) hInterval
  have hLength := hBytes.interval (mul_nonneg hRates.2 zero_le_two)
    (div_nonneg hRates.2 (by norm_num)) (hSorted _) hInterval
  rw [drawnWithin_draws] at hCount hLength
  constructor
  · have hSum : ((passedWithin start (start + 1000 * T) ((e.open cfg env nonce sessionId).rate cfg
        e.server.sessions.length messages).2).map fun _ => (1 : ℚ)).sum =
        ((passedWithin start (start + 1000 * T) ((e.open cfg env nonce sessionId).rate cfg
          e.server.sessions.length messages).2).length : ℚ) := by
      rw [List.map_const', List.sum_replicate, nsmul_one]
    rw [hSum] at hCount
    linarith
  · linarith

/-! ## A flood -/

/-- Ten messages and a thousand bytes a second. -/
def slowConfig : Config where
  limits := ⟨1, 10, 1000, 60000⟩
  keys := []
  devices := none
  crypto := ⟨fun _ _ => [], fun _ _ _ _ => [], fun _ _ _ _ _ => none⟩
  verify := ⟨[], false, none⟩
  durable := true
  heartbeatMs := 15000
  deadMs := 45000
  tokenId := id

def clockAt (mono : ℚ) : Env := ⟨mono, 0, fun _ => true, true, 0⟩

/-- Thirty messages at once, and ten more within the next second. -/
def flood : List (Env × Nat) :=
  List.replicate 30 (clockAt 0, 20) ++ (List.range 10).map fun i => (clockAt (100 * (i + 1)), 20)

def emptyEdge : Edge := ⟨.new, .new ⟨.empty, 0, 0, [], none, false, none, 0, [], false, []⟩⟩

def floodPassed : List Rated :=
  passedWithin 0 (0 + 1000 * 1)
    ((emptyEdge.open slowConfig (clockAt 0) "n" "s").rate slowConfig 0 flood).2

/-- The bound is reached. -/
theorem rate_bounded_flood :
    floodPassed.length = 30 ∧ (floodPassed.length : ℚ) ≤ (2 + 1) * 10 := by
  have hTimes : flood.Pairwise fun m m' => m.1.mono ≤ m'.1.mono := by decide +kernel
  exact ⟨by decide +kernel, ((rate_bounded slowConfig emptyEdge (clockAt 0) "n" "s" flood
    (by decide +kernel) hTimes).2 0 1 zero_le_one).1⟩

end TMEdge.NodeLink
