import TMEdge.Hpc.Gateway
import TMEdge.Library.Lists

/-!
# The HKU lockout

* `Separate`: the clock does not go back, and a login that starts finds no other of the same
  person that waits or whose session is being closed, and with those of the same HKU account
  under way no more failures than the lockout lets through.
* `Attempts`: what is under way is, but for the wait for an old session, in the map.
* `Counted`: the failures kept and the logins under way of a key are within the limit.
* `lockout_kept`: runs that keep logins separate.
* `account_locked`: four logins to one account at once.
-/

namespace TMEdge.Hpc

open Library List

/-! ## Definitions -/

def Login.keyed (c : Login) (key : FailureKey) : Bool := key ∈ keysOf c.user c.uid

namespace Gateway

/-- How many logins of a key are under way. -/
def underWay (s : Gateway) (key : FailureKey) : Nat :=
  s.logins.countP fun c => c.stage.underWay && c.keyed key

/-- How many failures of a key the lockout counts. -/
def failed (s : Gateway) (key : FailureKey) (now : Int) : Nat :=
  (recent now ((s.failures.get key).getD [])).length

/-- A call of `open` is not refused at once. -/
def starts (cfg : GatewayConfig) (s : Gateway) (user uid : Text) (now : Int) : Bool :=
  (s.lockedFor user uid now).2 ≤ 0 &&
    match s.entry user with
    | none => s.sessions.size < cfg.maxSessions
    | some (_, c) => c.state ≠ .opening

end Gateway

def Separate (cfg : GatewayConfig) (s : Gateway) : GatewayEvent → Prop
  | .open_ user uid now => s.clock ≤ now ∧ (s.starts cfg user uid now = true →
      (∀ c ∈ s.logins, c.user = user → c.stage.underWay = true →
        c.stage.isWaiting = false ∧ c.state ≠ .closing) ∧
      (s.underWay (.uid uid) = 0 ∨
        s.failed (.uid uid) now + s.underWay (.uid uid) < lockoutFailures))
  | .resume _ _ _ now => s.clock ≤ now
  | .lockedFor _ _ now => s.clock ≤ now
  | _ => True

instance (cfg : GatewayConfig) (s : Gateway) : ∀ e, Decidable (Separate cfg s e)
  | .open_ .. => inferInstanceAs (Decidable (_ ∧ (_ → _ ∧ _)))
  | .resume .. | .lockedFor .. => inferInstanceAs (Decidable (_ ≤ _))
  | .close .. | .closing .. | .live .. | .use .. | .used .. | .reap .. | .tunnelClosed .. =>
    inferInstanceAs (Decidable True)

/-- No stretch of the logins without a success of a key has too many failures of it within a
window. -/
def Limited (log : List LoginResult) : Prop :=
  ∀ key a pre seg post, log = pre ++ seg ++ post →
    (∀ r ∈ seg, r.keyed key = true → r.ok = false) →
    (seg.filter fun r => r.keyed key && decide (a ≤ r.at_ ∧ r.at_ < a + lockoutWindowMs)).length ≤
      lockoutFailures

/-- No two logins of one person are under way. -/
def Alone (logins : List Login) : Prop :=
  ∀ (i j : Nat) c d, logins[i]? = some c → logins[j]? = some d → c.stage.underWay = true →
    d.stage.underWay = true → c.user = d.user → i = j

structure Protected (s : Gateway) : Prop where
  limited : Limited s.log
  alone : Alone s.logins

/-- The failures of a key since its last success. -/
def history (key : FailureKey) (log : List LoginResult) : List Int :=
  log.foldl (fun times r =>
    if r.keyed key then if r.ok then [] else times ++ [r.at_] else times) []

structure Attempts (s : Gateway) : Prop where
  alone : Alone s.logins
  fresh : ∀ (i : Nat) c, s.logins[i]? = some c → c.stage.underWay = true → c.state ≠ .up
  placed : ∀ (i : Nat) c, s.logins[i]? = some c → c.stage.underWay = true →
    c.stage.isWaiting = false → c.state ≠ .closing → s.sessions.get c.user = some i
  closing : ∀ k ∈ s.closers, ∃ c, s.logins[k.session]? = some c ∧ c.state = .closing

structure Counted (s : Gateway) : Prop where
  within : ∀ key, s.failed key s.clock + s.underWay key ≤ lockoutFailures
  recorded : ∀ key now, s.clock ≤ now →
    Gateway.recent now ((s.failures.get key).getD []) =
      Gateway.recent now (history key s.log)
  past : ∀ r ∈ s.log, r.at_ ≤ s.clock
  limited : Limited s.log

/-- A login goes on: it is that of the same person and account. -/
def Calmer (c d : Login) : Prop :=
  d.user = c.user ∧ d.uid = c.uid ∧ (d.stage.underWay = true → c.stage.underWay = true)

/-- No login comes in, and none has come to anything. -/
structure Quiet (s t : Gateway) : Prop where
  failures : t.failures = s.failures
  log : t.log = s.log
  clock : t.clock = s.clock
  logins : List.Forall₂ Calmer s.logins t.logins

variable {cfg : GatewayConfig} {s t r : Gateway} {n : Nat} {c c' : Login} {user uid : Text}
  {key : FailureKey} {now : Int} {d : Login} {now' : Int}

/-! ## Quiet steps -/

theorem calmer_refl (c : Login) : Calmer c c := ⟨rfl, rfl, id⟩

theorem Calmer.trans (h : Calmer c c') (h' : Calmer c' d) : Calmer c d :=
  ⟨h'.1.trans h.1, h'.2.1.trans h.2.1, fun hWay => h.2.2 (h'.2.2 hWay)⟩

theorem Quiet.refl (s : Gateway) : Quiet s s :=
  ⟨rfl, rfl, rfl, forall₂_same.mpr fun c _ => calmer_refl c⟩

theorem Quiet.trans (h : Quiet r s) (h' : Quiet s t) : Quiet r t where
  failures := h'.failures.trans h.failures
  log := h'.log.trans h.log
  clock := h'.clock.trans h.clock
  logins := by
    refine forall₂_iff_get.mpr ?_
    obtain ⟨hLength, hGet⟩ := forall₂_iff_get.mp h.logins
    obtain ⟨hLength', hGet'⟩ := forall₂_iff_get.mp h'.logins
    exact ⟨hLength.trans hLength', fun i hi hi' =>
      (hGet i hi (hLength ▸ hi)).trans (hGet' i (hLength ▸ hi) hi')⟩

theorem quiet_setLogin (hc : s.logins[n]? = some c) (h : Calmer c c') : Quiet s (s.setLogin n c') :=
  ⟨rfl, rfl, rfl, forall₂_set calmer_refl hc h⟩

theorem quiet_close (s : Gateway) (user : Text) (expected : Option Nat) :
    Quiet s (s.close user expected).1 := by
  rcases s.close_cases user expected with hClose | ⟨n, c, -, hc, -, hClose⟩
  · rw [hClose]; exact .refl s
  · rw [hClose]
    obtain ⟨hFailures, hLog, hClock, hLogins⟩ :=
      quiet_setLogin hc (⟨rfl, rfl, id⟩ : Calmer c { c with state := .closing })
    exact ⟨hFailures, hLog, hClock, hLogins⟩

theorem Calmer.keyed (h : Calmer c c') (hKey : (c'.stage.underWay && c'.keyed key) = true) :
    (c.stage.underWay && c.keyed key) = true := by
  obtain ⟨hUser, hUid, hWay⟩ := h
  rw [Bool.and_eq_true] at hKey ⊢
  refine ⟨hWay hKey.1, ?_⟩
  rw [Login.keyed, ← hUser, ← hUid]
  exact hKey.2

theorem underWay_le (h : List.Forall₂ Calmer s.logins t.logins) (key : FailureKey) :
    t.underWay key ≤ s.underWay key :=
  countP_le_of_forall₂ (h.imp fun _ _ h hd => h.keyed hd)

theorem Alone.calmer (h : Alone s.logins) (hLogins : List.Forall₂ Calmer s.logins t.logins) :
    Alone t.logins := by
  intro i j d d' hd hd' hWay hWay' hSame
  obtain ⟨c, hc, hUser, -, hBack⟩ := forall₂_get hLogins hd
  obtain ⟨c', hc', hUser', -, hBack'⟩ := forall₂_get hLogins hd'
  exact h i j c c' hc hc' (hBack hWay) (hBack' hWay') (hUser ▸ hUser' ▸ hSame)

/-! ## What is under way is in the map -/

theorem Attempts.setLogin (h : Attempts s) (hc : s.logins[n]? = some c) (hCalmer : Calmer c c')
    (hClosing : c.state = .closing → c'.state = .closing)
    (hFresh : c'.stage.underWay = true → c'.state ≠ .up)
    (hPlaced : c'.stage.underWay = true → c'.stage.isWaiting = false → c'.state ≠ .closing →
      s.sessions.get c'.user = some n) : Attempts (s.setLogin n c') where
  alone := h.alone.calmer (forall₂_set calmer_refl hc hCalmer)
  fresh i d hd hWay := by
    rw [Gateway.setLogin_get hc] at hd
    split at hd
    · exact Option.some.inj hd ▸ hFresh (Option.some.inj hd ▸ hWay)
    · exact h.fresh i d hd hWay
  placed i d hd hWay hWaiting hState := by
    rw [Gateway.setLogin_get hc] at hd
    split at hd
    · rename_i hi
      obtain rfl := Option.some.inj hd
      exact hi ▸ hPlaced hWay hWaiting hState
    · exact h.placed i d hd hWay hWaiting hState
  closing k hk := by
    obtain ⟨d, hd, hState⟩ := h.closing k hk
    rw [Gateway.setLogin_get hc]
    split
    · rename_i hi
      obtain rfl := Option.some.inj (hc.symm.trans (hi ▸ hd))
      exact ⟨c', rfl, hClosing hState⟩
    · exact ⟨d, hd, hState⟩

/-- A login goes to its next stage. -/
theorem Attempts.goesOn (h : Attempts s) (hc : s.logins[n]? = some c) (hUser : c'.user = c.user)
    (hState : c'.state = c.state) (hCalmer : Calmer c c')
    (hWaiting : c'.stage.underWay = true → c.stage.isWaiting = false) :
    Attempts (s.setLogin n c') :=
  h.setLogin hc hCalmer (fun h => hState.trans h)
    (fun hWay => hState ▸ h.fresh n c hc (hCalmer.2.2 hWay))
    fun hWay _ hOpen => hUser ▸ h.placed n c hc (hCalmer.2.2 hWay) (hWaiting hWay) (hState ▸ hOpen)

theorem Attempts.close (h : Attempts s) (user : Text) (expected : Option Nat) :
    Attempts (s.close user expected).1 := by
  rcases s.close_cases user expected with hClose | ⟨n, c, -, hc, -, hClose⟩
  · rw [hClose]; exact h
  · have hSet : Attempts (s.setLogin n { c with state := .closing }) :=
      h.setLogin hc ⟨rfl, rfl, id⟩ (fun _ => rfl) (fun _ => by simp) fun _ _ hOpen =>
        absurd rfl hOpen
    rw [hClose]
    refine ⟨hSet.alone, hSet.fresh, hSet.placed, fun k hk => ?_⟩
    rcases mem_append.mp hk with hk | hk
    · exact hSet.closing k hk
    · obtain rfl := mem_singleton.mp hk
      exact ⟨_, Gateway.setLogin_get_self hc _, rfl⟩

theorem Attempts.phase {i : Nat} {closer : Closer} (h : Attempts s)
    (hCloser : s.closers[i]? = some closer) (phase : ClosePhase) :
    Attempts { s with closers := s.closers.set i { closer with phase } } := by
  refine ⟨h.alone, h.fresh, h.placed, fun k hk => ?_⟩
  rcases mem_or_eq_of_mem_set hk with hk | rfl
  · exact h.closing k hk
  · exact h.closing closer (mem_of_getElem? hCloser)

theorem attempts_catch_ (h : Attempts s) (hc : s.logins[n]? = some c) :
    Attempts (s.catch_ n c) ∧ Quiet s (s.catch_ n c) ∧
      ∃ d, (s.catch_ n c).logins[n]? = some d ∧ d.stage.underWay = false := by
  unfold Gateway.catch_
  split
  · obtain ⟨state, hd⟩ := Gateway.close_get hc c.user none
    have hQuiet := quiet_close s c.user none
    have hClose := h.close c.user none
    simp only [hd]
    refine ⟨?_, hQuiet.trans (quiet_setLogin hd ⟨rfl, rfl, by rintro ⟨⟩⟩), _,
      Gateway.setLogin_get_self hd _, rfl⟩
    exact hClose.goesOn hd rfl rfl ⟨rfl, rfl, by rintro ⟨⟩⟩ (by rintro ⟨⟩)
  · exact ⟨h.goesOn hc rfl rfl ⟨rfl, rfl, by rintro ⟨⟩⟩ (by rintro ⟨⟩),
      quiet_setLogin hc ⟨rfl, rfl, by rintro ⟨⟩⟩, _, Gateway.setLogin_get_self hc _, rfl⟩

theorem attempts_pick (cfg : GatewayConfig) (h : Attempts s) (hc : s.logins[n]? = some c)
    (hWay : c.stage.underWay = true) (hWaiting : c.stage.isWaiting = false) (used : List Nat)
    (p : Nat) : Attempts (s.pick cfg n c used p) ∧ Quiet s (s.pick cfg n c used p) := by
  unfold Gateway.pick
  split
  · exact ⟨h.goesOn hc rfl rfl ⟨rfl, rfl, fun _ => hWay⟩ fun _ => hWaiting,
      quiet_setLogin hc ⟨rfl, rfl, fun _ => hWay⟩⟩
  · obtain ⟨hAttempts, hQuiet, -⟩ := attempts_catch_ h hc
    exact ⟨hAttempts, hQuiet⟩

/-- The new session takes the place of the old one. -/
theorem attempts_enter (cfg : GatewayConfig) (now : Int) (h : Attempts s)
    (hc : s.logins[n]? = some c) (hWay : c.stage.underWay = true) :
    Attempts (s.enter cfg n c now) ∧ Quiet s (s.enter cfg n c now) := by
  unfold Gateway.enter
  split
  · exact ⟨h.goesOn hc rfl rfl ⟨rfl, rfl, nofun⟩ nofun, quiet_setLogin hc ⟨rfl, rfl, nofun⟩⟩
  · set d : Login := { c with openedAt := now, lastUsed := now, stage := .authenticating }
    set t : Gateway := { s.setLogin n d with sessions := s.sessions.set c.user n }
    have hCalmer : Calmer c d := ⟨rfl, rfl, fun _ => hWay⟩
    have hQuiet : Quiet s t := by
      obtain ⟨hFailures, hLog, hClock, hLogins⟩ := quiet_setLogin hc hCalmer
      exact ⟨hFailures, hLog, hClock, hLogins⟩
    have hd : t.logins[n]? = some d := Gateway.setLogin_get_self hc d
    have hSame : ∀ i e, t.logins[i]? = some e → i = n ∧ e = d ∨ s.logins[i]? = some e ∧ i ≠ n := by
      intro i e he
      have he' := (Gateway.setLogin_get hc d i).symm.trans he
      split at he'
      · exact .inl ⟨‹_›, (Option.some.inj he').symm⟩
      · exact .inr ⟨he', ‹_›⟩
    have hAttempts : Attempts t := by
      refine ⟨h.alone.calmer hQuiet.logins, fun i e he hWay' => ?_,
        fun i e he hWay' hIn hOpen => ?_, fun k hk => ?_⟩
      · rcases hSame i e he with ⟨-, rfl⟩ | ⟨he, -⟩
        · exact h.fresh n c hc hWay
        · exact h.fresh i e he hWay'
      · -- another login of the person is not under way
        change (s.sessions.set c.user n).get e.user = some i
        rw [JsMap.get_set]
        rcases hSame i e he with ⟨rfl, rfl⟩ | ⟨he, hi⟩
        · exact if_pos rfl
        · split
          · rename_i hUser
            exact absurd (h.alone i n e c he hc hWay' hWay hUser) hi
          · exact h.placed i e he hWay' hIn hOpen
      · obtain ⟨e, he, hState⟩ := h.closing k hk
        have hGet := Gateway.setLogin_get hc d k.session
        split at hGet
        · rename_i hk'
          obtain rfl := Option.some.inj (hc.symm.trans (hk' ▸ he))
          exact ⟨d, hGet, hState⟩
        · exact ⟨e, hGet.trans he, hState⟩
    obtain ⟨hPick, hPickQuiet⟩ :=
      attempts_pick cfg hAttempts hd rfl rfl t.usedPorts cfg.ports.1
    exact ⟨hPick, hQuiet.trans hPickQuiet⟩

theorem attempts_closing (h : Attempts s) (i : Nat) :
    Attempts (s.closing i) ∧ Quiet s (s.closing i) := by
  unfold Gateway.closing
  split
  · exact ⟨h, .refl s⟩
  · rename_i closer hCloser
    split
    · rename_i c held hc hPhase
      set d : Login := { c with ssh := if held then c.ssh.close else c.ssh }
      have hSet : Attempts (s.setLogin closer.session d) :=
        h.setLogin hc ⟨rfl, rfl, id⟩ id (h.fresh _ c hc) (h.placed _ c hc)
      obtain ⟨hFailures, hLog, hClock, hLogins⟩ :=
        quiet_setLogin hc (⟨rfl, rfl, id⟩ : Calmer c d)
      exact ⟨hSet.phase hCloser _, hFailures, hLog, hClock, hLogins⟩
    · rename_i c held hc hPhase
      set d : Login := { c with tunnel := if held then c.tunnel.close else c.tunnel }
      have hSet : Attempts (s.setLogin closer.session d) :=
        h.setLogin hc ⟨rfl, rfl, id⟩ id (h.fresh _ c hc) (h.placed _ c hc)
      obtain ⟨hFailures, hLog, hClock, hLogins⟩ :=
        quiet_setLogin hc (⟨rfl, rfl, id⟩ : Calmer c d)
      refine ⟨⟨hSet.alone, hSet.fresh, fun i e he hWay hIn hOpen => ?_,
        (hSet.phase hCloser _).closing⟩, hFailures, hLog, hClock, hLogins⟩
      -- the session that leaves the map is closing
      obtain ⟨f, hf, hState⟩ := hSet.closing closer (mem_of_getElem? hCloser)
      have hGet : s.sessions.get e.user = some i := hSet.placed i e he hWay hIn hOpen
      dsimp only
      split
      · rename_i hOwn
        rw [JsMap.get_delete]
        split
        · rename_i hUser
          rw [hUser, hOwn] at hGet
          obtain rfl := Option.some.inj hGet
          exact absurd (Option.some.inj (he.symm.trans hf) ▸ hState) hOpen
        · exact hGet
      · exact hGet
    · exact ⟨h, .refl s⟩

theorem attempts_concat (h : Attempts s) (d : Login) (hWay : d.stage.underWay = true →
    d.stage.isWaiting = true ∧ d.state ≠ .up ∧
      ∀ c ∈ s.logins, c.user = d.user → c.stage.underWay = false) :
    Attempts { s with logins := s.logins ++ [d] } := by
  have hOwn : ∀ (i : Nat) c, s.logins[i]? = some c → c.stage.underWay = true →
      d.stage.underWay = true → c.user ≠ d.user := by
    intro i c hc hc' hd' hUser
    have hNot := (hWay hd').2.2 c (mem_of_getElem? hc) hUser
    rw [hc'] at hNot
    exact nomatch hNot
  refine ⟨fun i j e f he hf hWay₁ hWay₂ hUser => ?_, fun i e he hWay' => ?_,
    fun i e he hWay' hIn hOpen => ?_, fun k hk => ?_⟩
  · rcases getElem?_concat_cases he with hOld | ⟨rfl, rfl⟩
    · rcases getElem?_concat_cases hf with hOld' | ⟨rfl, rfl⟩
      · exact h.alone i j e f hOld hOld' hWay₁ hWay₂ hUser
      · exact absurd hUser (hOwn i e hOld hWay₁ hWay₂)
    · rcases getElem?_concat_cases hf with hOld' | ⟨rfl, rfl⟩
      · exact absurd hUser.symm (hOwn j f hOld' hWay₂ hWay₁)
      · rfl
  · rcases getElem?_concat_cases he with he | ⟨rfl, rfl⟩
    · exact h.fresh i e he hWay'
    · exact (hWay hWay').2.1
  · rcases getElem?_concat_cases he with he | ⟨rfl, rfl⟩
    · exact h.placed i e he hWay' hIn hOpen
    · rw [(hWay hWay').1] at hIn
      exact nomatch hIn
  · obtain ⟨e, he, hState⟩ := h.closing k hk
    obtain ⟨hLt, -⟩ := List.getElem?_eq_some_iff.mp he
    exact ⟨e, (getElem?_append_left hLt).trans he, hState⟩

/-! ## Failures -/

theorem recent_recent (h : now ≤ now') (times : List Int) :
    Gateway.recent now' (Gateway.recent now times) = Gateway.recent now' times := by
  unfold Gateway.recent
  rw [filter_filter]
  refine filter_congr fun t _ => ?_
  simp only [← Bool.decide_and, decide_eq_decide]
  omega

theorem length_recent_le (h : now ≤ now') (times : List Int) :
    (Gateway.recent now' times).length ≤ (Gateway.recent now times).length := by
  rw [← recent_recent h]
  exact length_filter_le _ _

theorem history_concat (key : FailureKey) (log : List LoginResult) (r : LoginResult) :
    history key (log ++ [r]) =
      if r.keyed key then if r.ok then [] else history key log ++ [r.at_] else history key log := by
  simp only [history, foldl_append, foldl_cons, foldl_nil]

/-- Without a success of the key, its failures add up. -/
theorem history_append (pre seg : List LoginResult)
    (h : ∀ r ∈ seg, r.keyed key = true → r.ok = false) :
    history key (pre ++ seg) =
      history key pre ++ (seg.filter (LoginResult.keyed · key)).map LoginResult.at_ := by
  induction seg using List.reverseRecOn with
  | nil => simp
  | append_singleton seg r ih =>
    rw [← append_assoc, history_concat, ih fun q hq => h q (by simp [hq])]
    by_cases hKey : r.keyed key = true
    · simp [hKey, h r (by simp) hKey]
    · simp [hKey]

/-- A login comes to something: a failure finds fewer than the limit within the window. -/
theorem Limited.concat {log : List LoginResult} (h : Limited log) (r : LoginResult)
    (hRoom : r.ok = false → ∀ key, r.keyed key = true →
      (Gateway.recent r.at_ (history key log)).length < lockoutFailures) :
    Limited (log ++ [r]) := by
  intro key a pre seg post hLog hFail
  rcases eq_nil_or_concat post with rfl | ⟨post, q, rfl⟩
  · rw [append_nil] at hLog
    rcases eq_nil_or_concat seg with rfl | ⟨seg, q, rfl⟩
    · simp
    · rw [concat_eq_append, ← append_assoc] at hLog
      obtain ⟨rfl, hq⟩ := append_inj' hLog rfl
      obtain rfl : r = q := by simpa using hq
      rw [concat_eq_append] at hFail ⊢
      have hBefore : ∀ x ∈ seg, x.keyed key = true → x.ok = false :=
        fun x hx => hFail x (by simp [hx])
      have hLe := h key a pre seg [] (by simp) hBefore
      rw [filter_append, length_append]
      by_cases hIn : r.keyed key = true ∧ a ≤ r.at_ ∧ r.at_ < a + lockoutWindowMs
      · obtain ⟨hKey, hFrom, hTo⟩ := hIn
        have hRecent := hRoom (hFail r (by simp) hKey) key hKey
        rw [history_append pre seg hBefore, Gateway.recent, filter_append,
          length_append, filter_map, length_map, filter_filter] at hRecent
        have hSub : (seg.filter fun x => x.keyed key &&
            decide (a ≤ x.at_ ∧ x.at_ < a + lockoutWindowMs)).length ≤
            (seg.filter fun x => decide (r.at_ - x.at_ < lockoutWindowMs) && x.keyed key).length :=
          (monotone_filter_right seg fun x hx => ?_).length_le
        · have hOne : ([r].filter fun r => r.keyed key &&
              decide (a ≤ r.at_ ∧ r.at_ < a + lockoutWindowMs)).length ≤ 1 :=
            length_filter_le _ _
          simp only [Function.comp_def] at hRecent
          omega
        · simp only [Bool.and_eq_true, decide_eq_true_eq] at hx ⊢
          exact ⟨by omega, hx.1⟩
      · have hNone : ([r].filter fun r => r.keyed key &&
            decide (a ≤ r.at_ ∧ r.at_ < a + lockoutWindowMs)) = [] := by
          simpa [filter_cons] using hIn
        rw [hNone]
        simpa using hLe
  · rw [concat_eq_append, ← append_assoc] at hLog
    obtain ⟨rfl, -⟩ := append_inj' hLog rfl
    exact h key a pre seg post rfl hFail

theorem get_foldl_keys (m : JsMap FailureKey (List Int)) (f : List Int → List Int)
    (user uid : Text) (key : FailureKey) :
    (((keysOf user uid).foldl (fun m key => m.set key (f ((m.get key).getD []))) m).get key).getD
      [] = if key ∈ keysOf user uid then f ((m.get key).getD []) else (m.get key).getD [] := by
  cases key with
  | user name =>
    by_cases hName : name = user
    · simp [keysOf, hName]
    · simp [keysOf, hName]
  | uid id =>
    by_cases hId : id = uid
    · simp [keysOf, hId]
    · simp [keysOf, hId]

theorem get_foldl_delete (m : JsMap FailureKey (List Int)) (user uid : Text) (key : FailureKey) :
    ((keysOf user uid).foldl JsMap.delete m).get key =
      if key ∈ keysOf user uid then none else m.get key := by
  cases key with
  | user name => simp [keysOf]
  | uid id => simp [keysOf]

theorem get_lockedFor (s : Gateway) (user uid : Text) (now : Int) (key : FailureKey) :
    ((s.lockedFor user uid now).1.failures.get key).getD [] =
      if key ∈ keysOf user uid then Gateway.recent now ((s.failures.get key).getD [])
      else (s.failures.get key).getD [] :=
  get_foldl_keys s.failures (Gateway.recent now) user uid key

theorem recent_lockedFor (h : now ≤ now') (s : Gateway) (user uid : Text) (key : FailureKey) :
    Gateway.recent now' (((s.lockedFor user uid now).1.failures.get key).getD []) =
      Gateway.recent now' ((s.failures.get key).getD []) := by
  rw [get_lockedFor]
  split
  · exact recent_recent h _
  · rfl

/-- Where a login need not wait, neither of its keys has failed too often. -/
theorem failed_lt (hWait : (s.lockedFor user uid now).2 ≤ 0) (hKey : key ∈ keysOf user uid) :
    s.failed key now < lockoutFailures := by
  by_contra hMany
  have hLength : lockoutFailures ≤
      (Gateway.recent now ((s.failures.get key).getD [])).length := Nat.le_of_not_lt hMany
  set times := Gateway.recent now ((s.failures.get key).getD [])
  have hIndex : times.length - lockoutFailures < times.length := by
    have : 0 < lockoutFailures := by decide
    omega
  have hGet : ((s.lockedFor user uid now).1.failures.get key).getD [] = times := by
    rw [get_lockedFor, if_pos hKey]
  have hRecent := mem_filter.mp (getElem_mem hIndex)
  have hPositive : 0 < Gateway.waitFor now times := by
    unfold Gateway.waitFor
    rw [getElem?_eq_getElem hIndex]
    dsimp only
    rw [if_pos hLength]
    have hLt := of_decide_eq_true hRecent.2
    omega
  have hLe : Gateway.waitFor now times ≤ (s.lockedFor user uid now).2 := by
    refine (le_foldl_max _ 0).2 _ (mem_map.mpr ⟨key, hKey, ?_⟩)
    exact congrArg (Gateway.waitFor now) hGet
  omega

/-! ## What is counted -/

theorem Counted.quiet (h : Counted s) (hQuiet : Quiet s t) : Counted t := by
  obtain ⟨hFailures, hLog, hClock, hLogins⟩ := hQuiet
  refine ⟨fun key => ?_, fun key now hNow => ?_, ?_, ?_⟩
  · have hWithin := h.within key
    have hLe := underWay_le hLogins key
    unfold Gateway.failed at hWithin ⊢
    rw [hFailures, hClock]
    omega
  · rw [hFailures, hLog]
    exact h.recorded key now (hClock ▸ hNow)
  · rw [hLog, hClock]
    exact h.past
  · rw [hLog]
    exact h.limited

theorem Counted.lockedFor (h : Counted s) (user uid : Text) (hNow : s.clock ≤ now) :
    Counted (s.lockedFor user uid now).1 where
  within key := by
    have hWithin := h.within key
    have hFewer := length_recent_le hNow ((s.failures.get key).getD [])
    change (Gateway.recent now (((s.lockedFor user uid now).1.failures.get key).getD [])).length +
      s.underWay key ≤ lockoutFailures
    rw [recent_lockedFor le_rfl]
    unfold Gateway.failed at hWithin
    omega
  recorded key now' hNow' := by
    change now ≤ now' at hNow'
    rw [recent_lockedFor hNow']
    exact h.recorded key now' (hNow.trans hNow')
  past r hr := (h.past r hr).trans hNow
  limited := h.limited

theorem Counted.concat (h : Counted s) (d : Login)
    (hRoom : d.stage.underWay = true → ∀ key, d.keyed key = true →
      s.failed key s.clock + s.underWay key < lockoutFailures) :
    Counted { s with logins := s.logins ++ [d] } := by
  refine ⟨fun key => ?_, h.recorded, h.past, h.limited⟩
  have hWithin := h.within key
  change s.failed key s.clock + (s.logins ++ [d]).countP _ ≤ lockoutFailures
  rw [countP_append, countP_singleton]
  split
  · rename_i hOwn
    rw [Bool.and_eq_true] at hOwn
    exact hRoom hOwn.1 key hOwn.2
  · exact hWithin

/-- A login under way ends. -/
theorem underWay_lt (hLogins : List.Forall₂ Calmer s.logins t.logins) (hc : s.logins[n]? = some c)
    (hWay : c.stage.underWay = true) (hd : t.logins[n]? = some d)
    (hDone : d.stage.underWay = false) (hKey : c.keyed key = true) :
    t.underWay key < s.underWay key := by
  refine countP_lt_of_forall₂ (hLogins.imp fun _ _ h hb => h.keyed hb) hc hd ?_ ?_
  · rw [hWay, hKey]; rfl
  · rw [hDone]; rfl

theorem Counted.failure (h : Counted s) (hQuiet : Quiet s t) (hc : s.logins[n]? = some c)
    (hWay : c.stage.underWay = true) (hd : t.logins[n]? = some d)
    (hDone : d.stage.underWay = false) (hNow : s.clock ≤ now) :
    Counted (t.recordFailure c.user c.uid now) := by
  obtain ⟨hFailures, hLog, hClock, hLogins⟩ := hQuiet
  have hGet : ∀ key, ((t.recordFailure c.user c.uid now).failures.get key).getD [] =
      if key ∈ keysOf c.user c.uid then (s.failures.get key).getD [] ++ [now]
      else (s.failures.get key).getD [] := fun key =>
    hFailures ▸ get_foldl_keys t.failures (· ++ [now]) c.user c.uid key
  have hFewer : ∀ key, s.failed key now ≤ s.failed key s.clock := fun key =>
    length_recent_le hNow _
  refine ⟨fun key => ?_, fun key now' hNow' => ?_, fun r hr => ?_, ?_⟩
  · have hWithin := h.within key
    have hLess := hFewer key
    have hWays := underWay_le hLogins key
    change (Gateway.recent now _).length + t.underWay key ≤ lockoutFailures
    rw [hGet]
    split
    · rename_i hKey
      have hLt := underWay_lt hLogins hc hWay hd hDone (decide_eq_true hKey)
      have hOne : (Gateway.recent now [now]).length ≤ 1 := length_filter_le _ _
      unfold Gateway.failed at hWithin hLess
      rw [Gateway.recent, filter_append, length_append]
      unfold Gateway.recent at hWithin hLess hOne
      omega
    · unfold Gateway.failed at hWithin hLess
      omega
  · rw [hGet]
    change _ = Gateway.recent now' (history key (t.log ++ [⟨c.user, c.uid, now, false⟩]))
    rw [history_concat, hLog]
    have hRecorded := h.recorded key now' (hNow.trans hNow')
    by_cases hKey : key ∈ keysOf c.user c.uid
    · have hOwn : LoginResult.keyed ⟨c.user, c.uid, now, false⟩ key = true := decide_eq_true hKey
      rw [if_pos hKey, if_pos hOwn, if_neg (by simp)]
      unfold Gateway.recent at hRecorded ⊢
      rw [filter_append, filter_append, hRecorded]
    · rw [if_neg hKey, if_neg (by simpa [LoginResult.keyed] using hKey)]
      exact hRecorded
  · change r ∈ t.log ++ _ at hr
    rw [hLog] at hr
    rcases mem_append.mp hr with hr | hr
    · exact (h.past r hr).trans hNow
    · obtain rfl := mem_singleton.mp hr
      exact le_rfl
  · change Limited (t.log ++ _)
    rw [hLog]
    refine h.limited.concat _ fun _ key hKey => ?_
    have hLt := underWay_lt hLogins hc hWay hd hDone hKey
    have hWithin := h.within key
    have hLess := hFewer key
    have hRecorded := h.recorded key now hNow
    unfold Gateway.failed at hWithin hLess
    dsimp only
    rw [← hRecorded]
    omega

theorem Counted.succeed (h : Counted s) (hc : s.logins[n]? = some c) (hNow : s.clock ≤ now) :
    Counted (s.succeed n c now) := by
  obtain ⟨-, -, -, hLogins⟩ := quiet_setLogin hc (⟨rfl, rfl, by rintro ⟨⟩⟩ :
    Calmer c { c with state := .up, lastUsed := now, stage := .returned })
  have hGet : ∀ key, (s.succeed n c now).failures.get key =
      if key ∈ keysOf c.user c.uid then none else s.failures.get key :=
    get_foldl_delete s.failures c.user c.uid
  refine ⟨fun key => ?_, fun key now' hNow' => ?_, fun r hr => ?_, ?_⟩
  · have hWithin := h.within key
    have hLess := length_recent_le hNow ((s.failures.get key).getD [])
    have hWays := underWay_le hLogins key
    change (Gateway.recent now _).length + Gateway.underWay (s.setLogin n _) key ≤ lockoutFailures
    rw [hGet]
    unfold Gateway.failed at hWithin
    split
    · simp only [Gateway.recent, Option.getD_none, filter_nil, length_nil]
      omega
    · omega
  · rw [hGet]
    change _ = Gateway.recent now' (history key (s.log ++ [⟨c.user, c.uid, now, true⟩]))
    rw [history_concat]
    by_cases hKey : key ∈ keysOf c.user c.uid
    · have hOwn : LoginResult.keyed ⟨c.user, c.uid, now, true⟩ key = true := decide_eq_true hKey
      rw [if_pos hKey, if_pos hOwn, if_pos rfl]
      rfl
    · rw [if_neg hKey, if_neg (by simpa [LoginResult.keyed] using hKey)]
      exact h.recorded key now' (hNow.trans hNow')
  · rcases mem_append.mp hr with hr | hr
    · exact (h.past r hr).trans hNow
    · obtain rfl := mem_singleton.mp hr
      exact le_rfl
  · exact h.limited.concat _ (by rintro ⟨⟩)

/-! ## Steps -/

structure Sound (s : Gateway) : Prop where
  attempts : Attempts s
  counted : Counted s

theorem Sound.goesOn (h : Sound s) (hc : s.logins[n]? = some c) (hUser : c'.user = c.user)
    (hState : c'.state = c.state) (hCalmer : Calmer c c')
    (hWaiting : c'.stage.underWay = true → c.stage.isWaiting = false) : Sound (s.setLogin n c') :=
  ⟨h.attempts.goesOn hc hUser hState hCalmer hWaiting, h.counted.quiet (quiet_setLogin hc hCalmer)⟩

theorem Sound.catch_ (h : Sound s) (hc : s.logins[n]? = some c) : Sound (s.catch_ n c) := by
  obtain ⟨hAttempts, hQuiet, -⟩ := attempts_catch_ h.attempts hc
  exact ⟨hAttempts, h.counted.quiet hQuiet⟩

theorem Sound.close (h : Sound s) (user : Text) (expected : Option Nat) :
    Sound (s.close user expected).1 :=
  ⟨h.attempts.close user expected, h.counted.quiet (quiet_close s user expected)⟩

theorem recordFailure_close (s : Gateway) (user uid : Text) (now : Int) (name : Text) :
    (s.recordFailure user uid now).close name none =
      ((s.close name none).1.recordFailure user uid now, (s.close name none).2) := by
  have hEntry : (s.recordFailure user uid now).entry name = s.entry name := rfl
  unfold Gateway.close
  rw [hEntry]
  rcases s.entry name with - | ⟨n, c⟩
  · rfl
  · by_cases hState : c.state = .closing
    · simp [hState]
    · simp only [hState, Option.any_none, Bool.false_eq_true, or_self, if_false]
      rfl

theorem recordFailure_catch (s : Gateway) (user uid : Text) (now : Int) (n : Nat) (c : Login) :
    (s.recordFailure user uid now).catch_ n c = (s.catch_ n c).recordFailure user uid now := by
  unfold Gateway.catch_
  have hSessions : (s.recordFailure user uid now).sessions = s.sessions := rfl
  rw [hSessions]
  split
  · rw [recordFailure_close]
    have hLogins : ((s.close c.user none).1.recordFailure user uid now).logins =
        (s.close c.user none).1.logins := rfl
    dsimp only
    rw [hLogins]
    cases (s.close c.user none).1.logins[n]? with
    | none => rfl
    | some d => rfl
  · rfl

/-- HKU refuses the credentials. -/
theorem Sound.refuse (h : Sound s) (hc : s.logins[n]? = some c) (hWay : c.stage.underWay = true)
    (hNow : s.clock ≤ now) : Sound ((s.recordFailure c.user c.uid now).catch_ n c) := by
  obtain ⟨⟨hAlone, hFresh, hPlaced, hClosing⟩, hQuiet, d, hd, hDone⟩ :=
    attempts_catch_ h.attempts hc
  rw [recordFailure_catch]
  exact ⟨⟨hAlone, hFresh, hPlaced, hClosing⟩, h.counted.failure hQuiet hc hWay hd hDone hNow⟩

theorem Sound.succeed (h : Sound s) (hc : s.logins[n]? = some c) (hOpen : c.state = .opening)
    (hNow : s.clock ≤ now) : Sound (s.succeed n c now) := by
  obtain ⟨hAlone, hFresh, hPlaced, hClosing⟩ := h.attempts.setLogin hc (⟨rfl, rfl, nofun⟩ :
      Calmer c { c with state := .up, lastUsed := now, stage := .returned })
    (fun hState => absurd (hOpen.symm.trans hState) (by decide)) nofun nofun
  exact ⟨⟨hAlone, hFresh, hPlaced, hClosing⟩, h.counted.succeed hc hNow⟩

/-- The next step of a login that is in charge, or its end. -/
theorem Sound.proceed {stage : OpenStage} (h : Sound s) (hc : s.logins[n]? = some c)
    (hWay : c.stage.underWay = true) (hWaiting : c.stage.isWaiting = false) {p : Prop}
    [Decidable p] : Sound (if p then s.setLogin n { c with stage } else s.catch_ n c) := by
  split
  · exact h.goesOn hc rfl rfl ⟨rfl, rfl, fun _ => hWay⟩ fun _ => hWaiting
  · exact h.catch_ hc

theorem Sound.link (h : Sound s) (hc : s.logins[n]? = some c) (hWay : c.stage.underWay = true)
    (hWaiting : c.stage.isWaiting = false) : Sound (s.link n c) :=
  h.goesOn hc rfl rfl ⟨rfl, rfl, fun _ => hWay⟩ fun _ => hWaiting

theorem Sound.resume (h : Sound s) (n : Nat) (arrival : Arrival) (authorized : Bool)
    (hNow : s.clock ≤ now) : Sound (s.resume cfg n arrival authorized now) := by
  unfold Gateway.resume
  split
  · exact h
  rename_i c hc
  split
  · rename_i closer hStage
    split
    · obtain ⟨hAttempts, hQuiet⟩ := attempts_enter cfg now h.attempts hc
        (by rw [hStage]; rfl)
      exact ⟨hAttempts, h.counted.quiet hQuiet⟩
    · exact h
  · rename_i used p free hStage
    have hWay : c.stage.underWay = true := by rw [hStage]; rfl
    have hWaiting : c.stage.isWaiting = false := by rw [hStage]; rfl
    split
    · exact h.goesOn hc rfl rfl ⟨rfl, rfl, fun _ => hWay⟩ fun _ => hWaiting
    · obtain ⟨hAttempts, hQuiet⟩ := attempts_pick cfg h.attempts hc hWay hWaiting used
        (p + 1)
      exact ⟨hAttempts, h.counted.quiet hQuiet⟩
  · exact h.catch_ hc
  · rename_i p hStage
    have hWay : c.stage.underWay = true := by rw [hStage]; rfl
    have hWaiting : c.stage.isWaiting = false := by rw [hStage]; rfl
    have hPort : Sound (s.setLogin n { c with port := p }) :=
      h.goesOn hc rfl rfl ⟨rfl, rfl, id⟩ fun _ => hWaiting
    exact hPort.proceed (Gateway.setLogin_get_self hc _) hWay hWaiting
  · rename_i hStage
    exact h.proceed hc (by rw [hStage]; rfl) (by rw [hStage]; rfl)
  · rename_i hStage
    exact h.refuse hc (by rw [hStage]; rfl) hNow
  · exact h.catch_ hc
  · rename_i pinned hStage
    have hWay : c.stage.underWay = true := by rw [hStage]; rfl
    have hWaiting : c.stage.isWaiting = false := by rw [hStage]; rfl
    have hTunnel : Sound (s.setLogin n { c with tunnel := .live }) :=
      h.goesOn hc rfl rfl ⟨rfl, rfl, id⟩ fun _ => hWaiting
    have hd := Gateway.setLogin_get_self hc { c with tunnel := .live }
    dsimp only
    split
    · split
      · exact hTunnel.link hd hWay hWaiting
      · exact hTunnel.goesOn hd rfl rfl ⟨rfl, rfl, fun _ => hWay⟩ fun _ => hWaiting
    · exact hTunnel.catch_ hd
  · exact h.catch_ hc
  · rename_i keys hStage
    exact h.proceed hc (by rw [hStage]; rfl) (by rw [hStage]; rfl)
  · exact h.catch_ hc
  · rename_i trusted hStage
    split
    · exact h.link hc (by rw [hStage]; rfl) (by rw [hStage]; rfl)
    · exact h.catch_ hc
  · exact h.catch_ hc
  · split
    · rename_i hCharge
      exact h.succeed hc (Gateway.inCharge_iff.mp hCharge).2.1 hNow
    · exact h.catch_ hc
  · rename_i hStage
    exact h.refuse hc (by rw [hStage]; rfl) hNow
  · exact h.catch_ hc
  · split
    · exact h.goesOn hc rfl rfl ⟨rfl, rfl, nofun⟩ nofun
    · exact h
  · exact h.goesOn hc rfl rfl ⟨rfl, rfl, nofun⟩ nofun
  · exact h.goesOn hc rfl rfl ⟨rfl, rfl, nofun⟩ nofun
  · exact h

/-- A login that starts is the only one of its person. -/
theorem Sound.none_underWay (h : Sound s) (hStarts : s.starts cfg user uid now = true)
    (hSeparate : ∀ c ∈ s.logins, c.user = user → c.stage.underWay = true →
      c.stage.isWaiting = false ∧ c.state ≠ .closing) :
    ∀ c ∈ s.logins, c.user = user → c.stage.underWay = false := by
  intro c hMem hUser
  rcases hWay : c.stage.underWay
  · rfl
  obtain ⟨i, hi⟩ := getElem?_of_mem hMem
  obtain ⟨hWaiting, hState⟩ := hSeparate c hMem hUser hWay
  have hEntry : s.entry user = some (i, c) :=
    Gateway.entry_of (hUser ▸ h.attempts.placed i c hi hWay hWaiting hState) hi
  simp only [Gateway.starts, hEntry, Bool.and_eq_true, decide_eq_true_eq] at hStarts
  have hUp := h.attempts.fresh i c hi hWay
  cases hOpen : c.state with
  | opening => exact absurd hOpen hStarts.2
  | up => exact absurd hOpen hUp
  | closing => exact absurd hOpen hState

theorem Sound.open_ (h : Sound s) (hSeparate : Separate cfg s (.open_ user uid now)) :
    Sound (s.open_ cfg user uid now) := by
  obtain ⟨hNow, hSeparate⟩ := hSeparate
  set t := (s.lockedFor user uid now).1 with ht
  have hLocked : Sound t :=
    ⟨⟨h.attempts.alone, h.attempts.fresh, h.attempts.placed, h.attempts.closing⟩,
      h.counted.lockedFor user uid hNow⟩
  unfold Gateway.open_
  dsimp only
  split
  · exact hLocked
  rename_i hWait
  -- a login under way more is within the limit of its two keys
  have hRoom : ∀ r : Gateway, Quiet t r → s.starts cfg user uid now = true →
      ∀ key ∈ keysOf user uid, r.failed key r.clock + r.underWay key < lockoutFailures := by
    intro r hQuiet hStarts key hKey
    obtain ⟨hOwn, hShared⟩ := hSeparate hStarts
    have hFailed : s.failed key now < lockoutFailures := failed_lt (Int.not_lt.mp hWait) hKey
    have hSame : r.failed key r.clock = s.failed key now := by
      unfold Gateway.failed
      rw [hQuiet.failures, hQuiet.clock, recent_lockedFor (by exact le_rfl)]
      rfl
    have hFewer : r.underWay key ≤ s.underWay key := underWay_le hQuiet.logins key
    rcases mem_cons.mp hKey with rfl | hKey
    · have hNone : s.underWay (.user user) = 0 := by
        refine countP_eq_zero.mpr fun c hc hIn => ?_
        simp only [Login.keyed, keysOf, mem_cons, not_mem_nil, or_false,
          FailureKey.user.injEq, reduceCtorEq, Bool.and_eq_true, decide_eq_true_eq] at hIn
        rw [h.none_underWay hStarts hOwn c hc hIn.2.symm] at hIn
        cases hIn.1
      omega
    · obtain rfl := mem_singleton.mp hKey
      omega
  have hConcat : ∀ (r : Gateway) closer, Sound r → Quiet t r → s.starts cfg user uid now = true →
      Sound { r with logins := r.logins ++ [
        { user, uid, port := 0, state := .opening, openedAt := now, lastUsed := now
          tunnel := .absent, ssh := .absent, busy := 0, stage := .waiting closer }] } := by
    intro r closer hr hQuiet hStarts
    refine ⟨attempts_concat hr.attempts _ fun _ => ⟨rfl, by rintro ⟨⟩, fun d hd hUser => ?_⟩,
      hr.counted.concat _ fun _ key hKey => hRoom r hQuiet hStarts key (of_decide_eq_true hKey)⟩
    obtain ⟨i, hi⟩ := getElem?_of_mem hd
    obtain ⟨c, hc, hOwner, -, hBack⟩ := forall₂_get hQuiet.logins hi
    have hNone := h.none_underWay hStarts (hSeparate hStarts).1 c (mem_of_getElem? hc)
      (hOwner ▸ hUser)
    rcases hWay : d.stage.underWay
    · rfl
    · rw [hBack hWay] at hNone
      cases hNone
  split
  · rename_i hEntry
    change s.entry user = none at hEntry
    set d : Login := { user, uid, port := 0, state := .opening, openedAt := now, lastUsed := now
                       tunnel := .absent, ssh := .absent, busy := 0, stage := .waiting none }
    rcases lt_or_ge s.sessions.size cfg.maxSessions with hSpare | hFull
    · have hStarts : s.starts cfg user uid now = true := by
        simp only [Gateway.starts, hEntry, Bool.and_eq_true, decide_eq_true_eq]
        exact ⟨Int.not_lt.mp hWait, hSpare⟩
      obtain ⟨hAttempts, hCounted⟩ := hConcat t none hLocked (.refl t) hStarts
      obtain ⟨hEnter, hQuiet⟩ := attempts_enter (c := d) (n := t.logins.length) cfg now
        hAttempts (by simp [d]) rfl
      exact ⟨hEnter, hCounted.quiet hQuiet⟩
    · have hFull' : Gateway.enter cfg { t with logins := t.logins ++ [d] } t.logins.length d now =
          { t with logins := t.logins ++ [{ d with stage := .threw }] } := by
        unfold Gateway.enter
        rw [if_pos (by exact hFull)]
        simp [Gateway.setLogin]
      rw [hFull']
      exact ⟨attempts_concat hLocked.attempts _ (by rintro ⟨⟩),
        hLocked.counted.concat _ (by rintro ⟨⟩)⟩
  · rename_i n existing hEntry
    change s.entry user = some (n, existing) at hEntry
    split
    · exact hLocked
    · rename_i hOpen
      have hStarts : s.starts cfg user uid now = true := by
        simp only [Gateway.starts, hEntry, Bool.and_eq_true, decide_eq_true_eq]
        exact ⟨Int.not_lt.mp hWait, hOpen⟩
      exact hConcat _ _ (hLocked.close user none) (quiet_close t user none) hStarts

theorem Sound.live (h : Sound s) (user : Text) (alive : Bool) : Sound (s.live user alive).1 := by
  unfold Gateway.live
  split
  · exact h
  · split
    · exact h
    · split
      · exact h
      · exact h.close user none

/-- The marks of a session change. -/
theorem Sound.mark (h : Sound s) (hc : s.logins[n]? = some c) (busy : Nat) (lastUsed : Int) :
    Sound (s.setLogin n { c with busy, lastUsed }) :=
  ⟨h.attempts.setLogin hc ⟨rfl, rfl, id⟩ id (h.attempts.fresh n c hc) (h.attempts.placed n c hc),
    h.counted.quiet (quiet_setLogin hc ⟨rfl, rfl, id⟩)⟩

theorem Sound.use (h : Sound s) (user : Text) (alive touch : Bool) (now : Int) :
    Sound (s.use user alive touch now) := by
  have hLive := h.live user alive
  unfold Gateway.use
  split
  · rename_i t n hUse
    rw [hUse] at hLive
    split
    · exact hLive.mark ‹_› _ _
    · exact hLive
  · rename_i t hUse
    rw [hUse] at hLive
    exact hLive

theorem Sound.step (h : Sound s) (e : GatewayEvent) (hSeparate : Separate cfg s e) :
    Sound (gatewayStep cfg s e) := by
  cases e with
  | open_ user uid now => exact h.open_ hSeparate
  | resume n arrival authorized now => exact h.resume n arrival authorized hSeparate
  | close user expected => exact h.close user expected
  | closing i =>
    obtain ⟨hAttempts, hQuiet⟩ := attempts_closing h.attempts i
    exact ⟨hAttempts, h.counted.quiet hQuiet⟩
  | live user alive => exact h.live user alive
  | use user alive touch now => exact h.use user alive touch now
  | used n touch now =>
    simp only [gatewayStep, Gateway.used]
    split
    · exact h.mark ‹_› _ _
    · exact h
  | reap user alive now =>
    simp only [gatewayStep, Gateway.reap]
    split
    · exact h
    · split
      · exact h
      · split
        · exact h.close user none
        · exact h
  | tunnelClosed n =>
    simp only [gatewayStep, Gateway.tunnelClosed]
    split
    · exact h
    · split
      · exact h
      · split
        · exact h.close _ none
        · exact h
  | lockedFor user uid now =>
    exact ⟨⟨h.attempts.alone, h.attempts.fresh, h.attempts.placed, h.attempts.closing⟩,
      h.counted.lockedFor user uid hSeparate⟩

theorem attempts_init : Attempts {} where
  alone i j c d hc := by simp at hc
  fresh i c hc := by simp at hc
  placed i c hc := by simp at hc
  closing k hk := by simp at hk

theorem limited_nil : Limited [] := by
  intro key a pre seg post hLog _
  obtain ⟨hFront, -⟩ := append_eq_nil_iff.mp hLog.symm
  obtain ⟨-, rfl⟩ := append_eq_nil_iff.mp hFront
  exact Nat.zero_le _

theorem counted_init : Counted {} where
  within key := by simp [Gateway.failed, Gateway.recent, Gateway.underWay]
  recorded key now _ := by simp [history]
  past r hr := by simp at hr
  limited := limited_nil

theorem sound_init : Sound {} := ⟨attempts_init, counted_init⟩

/-! ## Results -/

/-- While logins keep separate, no HKU account and no person has more failures within a window
than the lockout allows, and no person has two logins under way. -/
theorem lockout_kept (cfg : GatewayConfig) (es : List GatewayEvent)
    (hSeparate : Guarded (gatewayStep cfg) (Separate cfg) {} es) :
    Protected (run (gatewayStep cfg) {} es) := by
  have hSound := run_invariant_guarded Sound (fun s e h he => h.step e he) sound_init hSeparate
  exact ⟨hSound.counted.limited, hSound.attempts.alone⟩

/-! ## One account, many people -/

/-- Four people sign in to one account at once, each with a wrong code. -/
def fourAtOnce : List GatewayEvent :=
  (List.range 4).map (fun n => .open_ (person n) account 0) ++
    (List.range 4).flatMap comesToLogin ++
    (List.range 4).map fun n => .resume n .refused true 0

theorem account_locked : ¬ ∀ cfg es, Protected (run (gatewayStep cfg) {} es) := by
  intro h
  have hLimited := (h pilotGateway fourAtOnce).limited (.uid account) 0 []
    ((List.range 4).map fun n => ⟨person n, account, 0, false⟩) [] (by decide +kernel)
    (by decide +kernel)
  exact absurd hLimited (by decide +kernel)

/-- A wrong code, and then the right one. -/
def secondTry : List GatewayEvent :=
  [.open_ (person 0) account 0] ++ comesToLogin 0 ++
    [.resume 0 .refused true 5, .closing 0, .closing 0, .resume 0 .cleaned true 5,
      .open_ (person 0) account 9] ++
    [.resume 1 (.port true) true 9, .resume 1 .picked true 9, .resume 1 .authenticated true 9,
      .resume 1 (.connected true) true 9, .resume 1 .linked true 9]

theorem lockout_kept_retry : Protected (run (gatewayStep pilotGateway) {} secondTry) :=
  lockout_kept pilotGateway secondTry (by decide +kernel)

end TMEdge.Hpc
