import TMEdge.Email.Settings
import TMEdge.Library.JsMap

/-!
# Only a proven address is written to

* `Waiting`: the last code issued to an account, and the wrong guesses since.
* `Proven`: a code was typed back in time by the account it was issued to, and the account
  has saved no other address since.
* `Backed`, `Good`: what the entries of the file owe to what happened before, kept by every
  call.
* `proven_address`: every subscriber of every run has proven the address.
-/

namespace TMEdge.Email

open Library List

variable {env : Env} {w : World} {log : List Deed} {a : AccountRef} {email : Text}
  {e : StoredSettings} {d : SettingsDocument}

/-! ## What has to have happened -/

def Deed.account : Deed → AccountRef
  | .saved a _ | .issued a _ _ _ | .wrong a | .confirmed a _ _ _ => a

/-- The last code issued to the account is `code`, for `email`, at `at_`; `n` wrong guesses
and no other address since. -/
def Waiting (log : List Deed) (a : AccountRef) (email code : Text) (at_ : Int) (n : Nat) : Prop :=
  ∃ before since, log = before ++ Deed.issued a email code at_ :: since ∧
    (∀ other c t, Deed.issued a other c t ∉ since) ∧ since.count (.wrong a) = n ∧
      ∀ address, Deed.saved a address ∈ since → address = some email

/-- The account typed the last code issued to it for this address in time, after fewer than
`codeTries` wrong guesses, and has saved no other address from the issue on. -/
def Proven (log : List Deed) (a : AccountRef) (email : Text) : Prop :=
  ∃ before after code at_ now n, log = before ++ Deed.confirmed a email code now :: after ∧
    Waiting before a email code at_ n ∧ n ≤ codeTries - 1 ∧ now < at_ + codeLifetimeMs ∧
      ∀ address, Deed.saved a address ∈ after → address = some email

/-- A deed that keeps an account's address and its code. -/
def Harmless (a : AccountRef) (email : Text) (d : Deed) : Prop :=
  d.account ≠ a ∨ d = .saved a (some email)

theorem Harmless.address {d : Deed} (h : Harmless a email d) {address : Option Text}
    (hd : d = .saved a address) : address = some email := by
  rcases h with hOther | hSame
  · exact absurd (by rw [hd]; rfl) hOther
  · rw [hSame] at hd
    exact (Deed.saved.inj hd).2.symm

theorem Waiting.snoc {code : Text} {at_ : Int} {n : Nat} (h : Waiting log a email code at_ n)
    {d : Deed} (hd : Harmless a email d) : Waiting (log ++ [d]) a email code at_ n := by
  obtain ⟨before, since, hLog, hLast, hWrong, hSaved⟩ := h
  refine ⟨before, since ++ [d], by simp [hLog], fun other c t hMem => ?_, ?_,
    fun address hMem => ?_⟩
  · rcases mem_append.mp hMem with hMem | hMem
    · exact hLast other c t hMem
    · rw [mem_singleton] at hMem
      rcases hd with hOther | hSame
      · exact hOther (by rw [← hMem]; rfl)
      · rw [hSame] at hMem
        cases hMem
  · rw [count_append, hWrong, count_singleton]
    have hNot : ¬ d = Deed.wrong a := by
      rintro rfl
      rcases hd with hOther | hSame
      · exact hOther rfl
      · cases hSame
    simp [hNot]
  · rcases mem_append.mp hMem with hMem | hMem
    · exact hSaved address hMem
    · exact hd.address (mem_singleton.mp hMem).symm

theorem Waiting.wrong {code : Text} {at_ : Int} {n : Nat} (h : Waiting log a email code at_ n) :
    Waiting (log ++ [.wrong a]) a email code at_ (n + 1) := by
  obtain ⟨before, since, hLog, hLast, hWrong, hSaved⟩ := h
  refine ⟨before, since ++ [.wrong a], by simp [hLog], fun other c t hMem => ?_, ?_,
    fun address hMem => ?_⟩
  · rcases mem_append.mp hMem with hMem | hMem
    · exact hLast other c t hMem
    · cases mem_singleton.mp hMem
  · rw [count_append, hWrong, count_singleton_self]
  · rcases mem_append.mp hMem with hMem | hMem
    · exact hSaved address hMem
    · cases mem_singleton.mp hMem

theorem waiting_issued (log : List Deed) (a : AccountRef) (email code : Text) (at_ : Int) :
    Waiting (log ++ [.issued a email code at_]) a email code at_ 0 :=
  ⟨log, [], rfl, by simp, by simp, by simp⟩

theorem Proven.snoc (h : Proven log a email) {d : Deed}
    (hd : ∀ address, d = .saved a address → address = some email) :
    Proven (log ++ [d]) a email := by
  obtain ⟨before, after, code, at_, now, n, hLog, hWaiting, hn, hTime, hSaved⟩ := h
  refine ⟨before, after ++ [d], code, at_, now, n, by simp [hLog], hWaiting, hn, hTime,
    fun address hMem => ?_⟩
  rcases mem_append.mp hMem with hMem | hMem
  · exact hSaved address hMem
  · exact hd address (mem_singleton.mp hMem).symm

/-! ## What the file says -/

/-- A stored code is the last one issued, with the tries that are left of it; a confirmed
address has been proven. -/
structure Backed (env : Env) (log : List Deed) (e : StoredSettings) : Prop where
  address : e.email.isSome
  code : ∀ email c, e.email = some email → e.code = some c → ∃ code at_ n,
    Waiting log e.account email code at_ n ∧ c.hash = env.codeHash e.account email code ∧
      c.expiresAt = at_ + codeLifetimeMs ∧ c.triesLeft + n = codeTries
  confirmed : ∀ email, e.email = some email → e.confirmedAt.isSome → Proven log e.account email

structure Good (env : Env) (log : List Deed) (d : SettingsDocument) : Prop where
  names : (d.accounts.map StoredSettings.name).Nodup
  backed : ∀ e ∈ d.accounts, Backed env log e

/-- The file is good, and the copy in the store is the file. -/
structure Sound (env : Env) (w : World) : Prop where
  good : ∀ d, w.file = some d → Good env w.log d
  copy : ∀ d, w.cached = some d → w.file = some d

theorem Backed.snoc (h : Backed env log e) {d : Deed}
    (hd : ∀ email, e.email = some email → Harmless e.account email d) :
    Backed env (log ++ [d]) e := by
  refine ⟨h.address, fun email c hEmail hCode => ?_, fun email hEmail hConfirmed => ?_⟩
  · obtain ⟨code, at_, n, hWaiting, hRest⟩ := h.code email c hEmail hCode
    exact ⟨code, at_, n, hWaiting.snoc (hd email hEmail), hRest⟩
  · exact (h.confirmed email hEmail hConfirmed).snoc fun _ => (hd email hEmail).address

/-! ## Reading -/

theorem parseEntry_keeps {U : Unicode} {seen : List Text} {e' : StoredSettings}
    (h : parseEntry U seen e = some e') (hEmail : e.email.isSome) :
    e'.account = e.account ∧ e'.email = e.email ∧ e'.code = e.code ∧
      e'.confirmedAt = e.confirmedAt ∧ e.name ∉ seen := by
  have hCode : ∀ c c', pendingCode c = some c' → c' = c := by
    intro c c' hc
    rw [pendingCode] at hc
    split at hc
    · cases hc
    · exact (Option.some.inj hc).symm
  unfold parseEntry at h
  dsimp only at h
  split at h
  · rename_i code topics hParsed hTopics
    split at h
    · cases h
    · rename_i hChecks
      cases h
      simp only [Bool.or_eq_true, not_or, Bool.not_eq_true] at hChecks
      refine ⟨rfl, rfl, ?_, ?_, by simpa using hChecks.1.2⟩
      · dsimp only
        cases hc : e.code with
        | none =>
          rw [hc] at hParsed
          exact (Option.some.inj hParsed).symm
        | some c =>
          rw [hc] at hParsed
          obtain ⟨c', hc', rfl⟩ := Option.map_eq_some_iff.mp hParsed
          rw [hCode c c' hc']
      · dsimp only
        rw [if_neg (by simpa [← Option.isSome_iff_ne_none] using hEmail)]
  · cases h

theorem parseEntries_good {U : Unicode} {seen : List Text} {es es' : List StoredSettings}
    (h : parseEntries U seen es = some es') (hBacked : ∀ e ∈ es, Backed env log e) :
    es'.map StoredSettings.name = es.map StoredSettings.name ∧ ∀ e ∈ es', Backed env log e := by
  induction es generalizing seen es' with
  | nil =>
    cases h
    exact ⟨rfl, by simp⟩
  | cons e es ih =>
    rw [parseEntries] at h
    split at h
    · cases h
    · rename_i e' hEntry
      obtain ⟨rest, hRest, rfl⟩ := Option.map_eq_some_iff.mp h
      have hHead := hBacked e (by simp)
      obtain ⟨hNames, hAll⟩ := ih hRest fun e hMem => hBacked e (by simp [hMem])
      obtain ⟨hAccount, hEmail, hCode, hConfirmed, -⟩ := parseEntry_keeps hEntry hHead.address
      have hName : e'.name = e.name := congrArg AccountRef.name hAccount
      refine ⟨by simp [hNames, hName], fun x hx => ?_⟩
      rcases mem_cons.mp hx with rfl | hx
      · refine ⟨by rw [hEmail]; exact hHead.address, ?_, ?_⟩
        · rw [hEmail, hCode, hAccount]
          exact hHead.code
        · rw [hEmail, hConfirmed, hAccount]
          exact hHead.confirmed
      · exact hAll x hx

theorem Sound.read (h : Sound env w) {io : Bool} (hRead : w.read env io = some d) :
    Good env w.log d := by
  unfold World.read at hRead
  split at hRead
  · cases hRead
  split at hRead
  · cases hRead
    exact ⟨by simp [emptySettings], by simp [emptySettings]⟩
  rename_i file hFile
  have hGood := h.good file hFile
  split at hRead
  · rename_i document hCached
    have hSame := h.copy document hCached
    rw [hFile] at hSame
    cases hSame
    cases hRead
    exact hGood
  · rw [parseSettings] at hRead
    split at hRead
    · cases hRead
    · obtain ⟨es, hEntries, rfl⟩ := Option.map_eq_some_iff.mp hRead
      obtain ⟨hNames, hAll⟩ := parseEntries_good hEntries hGood.backed
      exact ⟨by rw [hNames]; exact hGood.names, hAll⟩

/-! ## Changing one entry -/

theorem map_name_amend {f : StoredSettings → StoredSettings} (hf : ∀ e, (f e).name = e.name)
    (es : List StoredSettings) :
    (amend a f es).map StoredSettings.name = es.map StoredSettings.name := by
  induction es with
  | nil => rfl
  | cons e es ih =>
    rw [amend]
    split
    · simp [hf]
    · simp [ih]

theorem mem_amend {a : AccountRef} {f : StoredSettings → StoredSettings}
    {es : List StoredSettings} (hNames : (es.map StoredSettings.name).Nodup) {e : StoredSettings}
    (h : e ∈ amend a f es) :
    (e ∈ es ∧ e.account ≠ a) ∨ ∃ e₀, es.find? (fun e => e.account == a) = some e₀ ∧ e = f e₀ := by
  induction es with
  | nil => cases h
  | cons x es ih =>
    rw [map_cons, nodup_cons] at hNames
    rw [amend] at h
    split at h
    · rename_i hx
      rcases mem_cons.mp h with rfl | h
      · exact Or.inr ⟨x, by simp [hx], rfl⟩
      · refine Or.inl ⟨by simp [h], fun hSame => hNames.1 ?_⟩
        have hName : e.name = x.name := by
          have hAccount : e.account = x.account := hSame.trans (beq_iff_eq.mp hx).symm
          exact congrArg AccountRef.name hAccount
        rw [← hName]
        exact mem_map_of_mem h
    · rename_i hx
      rcases mem_cons.mp h with rfl | h
      · exact Or.inl ⟨by simp, by simpa using hx⟩
      · rcases ih hNames.2 h with ⟨hMem, hOther⟩ | ⟨e₀, hFind, hEq⟩
        · exact Or.inl ⟨by simp [hMem], hOther⟩
        · exact Or.inr ⟨e₀, by simpa [find?_cons, hx] using hFind, hEq⟩

/-- A change of the account's entry, if the changed entry is backed. -/
theorem Good.amend (h : Good env log d) {deed : Deed} (hDeed : deed.account = a)
    {f : StoredSettings → StoredSettings} (hf : ∀ e, (f e).name = e.name)
    (hOwn : ∀ e, own d a = some e → Backed env (log ++ [deed]) (f e)) :
    Good env (log ++ [deed]) ⟨amend a f d.accounts⟩ := by
  refine ⟨by rw [map_name_amend hf]; exact h.names, fun e he => ?_⟩
  rcases mem_amend h.names he with ⟨hMem, hOther⟩ | ⟨e₀, hFind, rfl⟩
  · refine (h.backed e hMem).snoc fun email _ => Or.inl ?_
    rw [hDeed]
    exact fun hSame => hOther hSame.symm
  · exact hOwn e₀ hFind

theorem Good.own (h : Good env log d) (hOwn : own d a = some e) :
    Backed env log e ∧ e.account = a :=
  ⟨h.backed e (mem_of_find?_eq_some hOwn), by simpa using find?_some hOwn⟩

/-! ## Steps -/

theorem good_saved (h : Good env log d) (a : AccountRef) (email : Option Text)
    (notify : List EmailTopic) (current : List AccountRef) (now : Int) :
    Good env (log ++ [.saved a email]) (World.saved d a email notify current now).1 := by
  have hOthers : ∀ e ∈ d.accounts.filter fun e => e.name != a.name && current.contains e.account,
      Backed env (log ++ [.saved a email]) e ∧ e.name ≠ a.name := by
    intro e he
    obtain ⟨hMem, hKeep⟩ := mem_filter.mp he
    rw [Bool.and_eq_true, bne_iff_ne] at hKeep
    refine ⟨(h.backed e hMem).snoc fun _ _ => Or.inl fun hSame => ?_, hKeep.1⟩
    exact hKeep.1 (congrArg AccountRef.name hSame).symm
  have hNames : ((d.accounts.filter fun e => e.name != a.name && current.contains e.account).map
      StoredSettings.name).Nodup := h.names.sublist (filter_sublist.map _)
  cases email with
  | none => exact ⟨hNames, fun e he => (hOthers e he).1⟩
  | some email =>
    refine ⟨?_, fun e he => ?_⟩
    · simp only [World.saved, Option.isSome_some, if_true, map_append, map_singleton]
      rw [← concat_eq_append]
      refine hNames.concat fun hMem => ?_
      obtain ⟨e, he, hName⟩ := mem_map.mp hMem
      exact (hOthers e he).2 hName
    · simp only [World.saved, Option.isSome_some, if_true, mem_append,
        mem_singleton] at he
      rcases he with he | rfl
      · exact (hOthers e he).1
      · refine ⟨rfl, fun email' c hEmail hCode => ?_, fun email' hEmail hConfirmed => ?_⟩
        · cases Option.some.inj hEmail
          obtain ⟨e, hKept, hCode⟩ := Option.bind_eq_some_iff.mp hCode
          obtain ⟨hFound, hSame⟩ := Option.filter_eq_some_iff.mp hKept
          obtain ⟨hBacked, hAccount⟩ := h.own hFound
          obtain ⟨code, at_, n, hWaiting, hRest⟩ :=
            hBacked.code email c (by simpa using hSame) hCode
          rw [hAccount] at hWaiting hRest
          exact ⟨code, at_, n, hWaiting.snoc (Or.inr rfl), hRest⟩
        · cases Option.some.inj hEmail
          obtain ⟨now, hConfirmed⟩ := Option.isSome_iff_exists.mp hConfirmed
          obtain ⟨e, hKept, hConfirmed⟩ := Option.bind_eq_some_iff.mp hConfirmed
          obtain ⟨hFound, hSame⟩ := Option.filter_eq_some_iff.mp hKept
          obtain ⟨hBacked, hAccount⟩ := h.own hFound
          have hProven := hBacked.confirmed email (by simpa using hSame) (by simp [hConfirmed])
          rw [hAccount] at hProven
          exact hProven.snoc fun _ => Harmless.address (Or.inr rfl)

theorem good_issued {d : SettingsDocument} (h : Good env log d) {a : AccountRef} {email : Text}
    (hEmail : (World.settingsOf d a).email = some email)
    (hOpen : (World.settingsOf d a).confirmed = false) (code : Text) (now : Int) :
    Good env (log ++ [.issued a email code now]) ⟨amend a (fun e => { e with
      code := some ⟨env.codeHash a email code, now + codeLifetimeMs, codeTries⟩ }) d.accounts⟩ := by
  refine h.amend (f := fun e => { e with
    code := some ⟨env.codeHash a email code, now + codeLifetimeMs, codeTries⟩ }) rfl (fun _ => rfl)
    fun e hOwn => ?_
  have hOwn : own d a = some e := hOwn
  obtain ⟨hBacked, hAccount⟩ := h.own hOwn
  rw [World.settingsOf, hOwn] at hEmail hOpen
  have hAccount' : ({ e with code := some (⟨env.codeHash a email code, now + codeLifetimeMs,
      codeTries⟩ : PendingCode) } : StoredSettings).account = a := hAccount
  refine ⟨hBacked.address, fun email' c hAddress hCode => ?_, fun _ _ hConfirmed => ?_⟩
  · have hSame : email' = email := Option.some.inj (hAddress.symm.trans hEmail)
    subst hSame
    cases Option.some.inj hCode
    rw [hAccount']
    exact ⟨code, now, 0, waiting_issued log a email' code now, rfl, rfl, by simp⟩
  · dsimp only at hConfirmed hOpen
    rw [hOpen] at hConfirmed
    cases hConfirmed

/-- The code an account may try is that of its entry. -/
theorem waiting_own {now : Int} {c : PendingCode} (h : World.waiting d a now = some (email, c)) :
    ∃ e, own d a = some e ∧ e.email = some email ∧ e.code = some c ∧ e.confirmedAt = none ∧
      now < c.expiresAt ∧ 0 < c.triesLeft := by
  unfold World.waiting at h
  split at h
  · cases h
  rename_i e hOwn
  split at h
  · rename_i c' email' hCode hEmail
    split at h
    · cases h
    · rename_i hOpen
      cases h
      simp only [Bool.or_eq_true, decide_eq_true_eq, not_or, not_le, Option.not_isSome_iff_eq_none]
        at hOpen
      exact ⟨e, hOwn, hEmail, hCode, hOpen.1.1, hOpen.1.2, hOpen.2⟩
  · cases h

theorem good_confirmed {d : SettingsDocument} (h : Good env log d) {a : AccountRef}
    {now : Int} {email code : Text} {c : PendingCode}
    (hHash : ∀ a email, Function.Injective (env.codeHash a email))
    (hWaiting : World.waiting d a now = some (email, c))
    (hMatch : c.hash = env.codeHash a email code) :
    Good env (log ++ [.confirmed a email code now])
      ⟨amend a (fun e => { e with confirmedAt := some now, code := none }) d.accounts⟩ := by
  obtain ⟨e₁, hOwn₁, hEmail, hCode, -, hTime, hTries⟩ := waiting_own hWaiting
  refine h.amend (f := fun e => { e with confirmedAt := some now, code := none }) rfl
    (fun _ => rfl) fun e hOwn => ?_
  cases Option.some.inj (hOwn₁.symm.trans hOwn)
  obtain ⟨hBacked, hAccount⟩ := h.own hOwn
  refine ⟨hBacked.address, fun _ _ _ hNone => (nomatch hNone), fun email' hAddress _ => ?_⟩
  have hSame : email' = email := Option.some.inj (hAddress.symm.trans hEmail)
  subst hSame
  obtain ⟨issued, at_, n, hIssued, hStored, hExpires, hLeft⟩ := hBacked.code email' c hEmail hCode
  rw [hAccount] at hIssued hStored
  have hTyped : issued = code := hHash a email' (hStored.symm.trans hMatch)
  subst hTyped
  have hAccount' : ({ e₁ with confirmedAt := some now, code := none } : StoredSettings).account =
      a := hAccount
  rw [hAccount']
  refine ⟨log, [], issued, at_, now, n, rfl, hIssued, ?_, by omega, by simp⟩
  unfold codeTries at hLeft ⊢
  omega

theorem good_wrong {d : SettingsDocument} (h : Good env log d) {a : AccountRef} {now : Int}
    {email : Text} {c : PendingCode} (hWaiting : World.waiting d a now = some (email, c)) :
    Good env (log ++ [.wrong a]) ⟨amend a (fun e => { e with
      code := some { c with triesLeft := c.triesLeft - 1 } }) d.accounts⟩ := by
  obtain ⟨e₁, hOwn₁, hEmail, hCode, hOpen, -, hTries⟩ := waiting_own hWaiting
  refine h.amend (f := fun e => { e with code := some { c with triesLeft := c.triesLeft - 1 } })
    rfl (fun _ => rfl) fun e hOwn => ?_
  cases Option.some.inj (hOwn₁.symm.trans hOwn)
  obtain ⟨hBacked, hAccount⟩ := h.own hOwn
  have hAccount' : ({ e₁ with
      code := some { c with triesLeft := c.triesLeft - 1 } } : StoredSettings).account = a :=
    hAccount
  refine ⟨hBacked.address, fun email' c' hAddress hNew => ?_, fun _ _ hConfirmed => ?_⟩
  · have hSame : email' = email := Option.some.inj (hAddress.symm.trans hEmail)
    subst hSame
    cases Option.some.inj hNew
    obtain ⟨issued, at_, n, hIssued, hStored, hExpires, hLeft⟩ := hBacked.code email' c hEmail hCode
    rw [hAccount] at hIssued hStored
    rw [hAccount']
    refine ⟨issued, at_, n + 1, hIssued.wrong, hStored, hExpires, ?_⟩
    push_cast
    omega
  · dsimp only at hConfirmed
    rw [hOpen] at hConfirmed
    cases hConfirmed

theorem sound_written {deed : Deed} (h : Good env (w.log ++ [deed]) d) :
    Sound env (w.written d deed) :=
  ⟨fun d' hd => by cases hd; exact h, fun d' hd => hd⟩

theorem sound_step (h : Sound env w) (hHash : ∀ a email, Function.Injective (env.codeHash a email))
    (e : Event) : Sound env (w.step env e).1 := by
  cases e with
  | restart => exact ⟨h.good, fun d hd => nomatch hd⟩
  | saveSettings actor body current now io =>
    simp only [World.step, World.saveSettings]
    split
    · exact h
    · exact h
    · exact h
    split
    · exact h
    split
    · exact h
    split
    · exact h
    · rename_i d hRead
      exact sound_written (good_saved (h.read hRead) _ _ _ _ _)
  | sendCode actor code now io mail =>
    simp only [World.step, World.sendCode]
    split
    · exact h
    split
    · exact h
    split
    · exact h
    rename_i d hRead
    split
    · exact h
    rename_i email hEmail
    split
    · exact h
    rename_i hOpen
    have hIssued := sound_written
      (good_issued (h.read hRead) hEmail (by simpa using hOpen) code now)
    cases mail with
    | sent => exact hIssued
    | refused => exact hIssued
    | failed => exact hIssued
  | confirmEmail actor body now io =>
    simp only [World.step, World.confirmEmail]
    split
    · exact h
    · exact h
    · exact h
    split
    · exact h
    split
    · exact h
    rename_i d hRead
    split
    · exact h
    rename_i email c hWaiting
    split
    · rename_i hMatch
      exact sound_written (good_confirmed (h.read hRead) hHash hWaiting hMatch)
    · exact sound_written (good_wrong (h.read hRead) hWaiting)

theorem sound_start : Sound env start := by
  refine ⟨fun d hd => ?_, fun d hd => ?_⟩
  · cases hd
  · cases hd

theorem sound_after (hHash : ∀ a email, Function.Injective (env.codeHash a email))
    (es : List Event) : Sound env (start.after env es) :=
  run_invariant (Sound env) (fun _ e h => sound_step h hHash e) sound_start es

/-- Whoever is written to has proven the address. -/
theorem proven_address (env : Env) (hHash : ∀ a email, Function.Injective (env.codeHash a email))
    (es : List Event) (current : List AccountRef) (io : Bool) (subs : List Subscriber)
    (hSubs : (start.after env es).subscribers env current io = some subs) (s : Subscriber)
    (hs : s ∈ subs) :
    s.account ∈ current ∧ Proven (start.after env es).log s.account s.email := by
  obtain ⟨d, hRead, rfl⟩ := Option.map_eq_some_iff.mp hSubs
  have hGood := (sound_after hHash es).read hRead
  obtain ⟨e, hMem, hEntry⟩ := List.mem_filterMap.mp hs
  split at hEntry
  · cases hEntry
  rename_i email hEmail
  split at hEntry
  · cases hEntry
  rename_i hKept
  cases hEntry
  simp only [Bool.or_eq_true, not_or, Bool.not_eq_true] at hKept
  have hCurrent : e.account ∈ current := by simpa using hKept.2
  refine ⟨hCurrent, (hGood.backed e hMem).confirmed email hEmail ?_⟩
  simpa [Option.isSome_iff_ne_none] using hKept.1.1

/-- The hash of the code `482913` for this account and its address. -/
def knownHash : Text := js "099b1fdb85d96de8114df55b2d7b19cca8550695485d623de7ca86e1c12799d0"

/-- A text that no hash is, for every code but the known one. -/
def pilotHash (a : AccountRef) (email code : Text) : Text :=
  if a = ada ∧ email = js "ada@example.com" ∧ code = js "482913" then
    knownHash
  else 0 :: code

theorem pilotHash_injective (a : AccountRef) (email : Text) :
    Function.Injective (pilotHash a email) := by
  have hHead : ∀ code, knownHash ≠ 0 :: code := by
    intro code h
    have hNot : knownHash.head? ≠ some 0 := by decide
    exact hNot (by rw [h]; rfl)
  intro c c' h
  unfold pilotHash at h
  split at h
  · rename_i hc
    split at h
    · rename_i hc'
      rw [hc.2.2, hc'.2.2]
    · exact absurd h (hHead c')
  · split at h
    · exact absurd h.symm (hHead c)
    · exact (List.cons.inj h).2

def pilot : Env := ⟨ascii, true, pilotHash⟩

/-- An address is saved, a code sent, the service restarted and the code typed. -/
def typedBack : List Event :=
  [.saveSettings (.account ada) (.fields ⟨.text (js " ada@Example.com"), some [js "mail"]⟩) [ada]
      1700000100000 true,
    .sendCode (.account ada) (js "482913") 1700000200000 true .sent,
    .restart,
    .confirmEmail (.account ada) (.fields (some (js "482913 "))) 1700000300000 true]

theorem proven_address_ada :
    ada ∈ [ada] ∧ Proven (start.after pilot typedBack).log ada (js "ada@example.com") :=
  proven_address pilot pilotHash_injective typedBack [ada] true
    [⟨js "ada", 1700000000000, js "ada@example.com", [.mail]⟩] (by decide +kernel)
    ⟨js "ada", 1700000000000, js "ada@example.com", [.mail]⟩ (by simp)

end TMEdge.Email
