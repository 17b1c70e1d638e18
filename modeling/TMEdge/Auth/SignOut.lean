import TMEdge.Auth.Sessions

/-!
# Sign-out is permanent

* `detail_spec`: both classes accept a cookie on the same grounds (`Passes`), but for the
  length of the e-mail and the account version, which only the web tier looks at.
* `good_step`: what every call keeps (`Good`): the file stays readable, and entries and
  cut-off times come from calls of `revoke`.
* `dead_step`: a revoked cookie stays refused (`Dead`) through reloads, expiries and
  overflows.
* `sign_out`: both for runs. `signed_out_again`: where the claim goes too far.
-/

namespace TMEdge.Auth

open Library List Function

variable {k : Keyring} {tier : Tier} {file : Option Disk} {now x : Int} {s s' : Sessions}
  {token key : Text} {r : Revocations} {i : Nat} {e : SessionEvent} {io : RevokeIo}
  {es : List SessionEvent}

/-! ## Reading the file -/

/-- What both classes accept as a revocations file. -/
structure ValidFile (r : Revocations) : Prop where
  bytes : r.bytes ≤ 2000000
  size : r.revoked.size ≤ 10000
  keys : ∀ key ∈ r.revoked.keys, Revocations.isMac key = true

/-- A missing file makes the reload of the instance throw. -/
def Tier.Blind : Tier → Seen → Prop
  | .web _, seen => seen ≠ .never
  | .student, seen => ∃ n, seen = .at n

theorem reload_cases (h : tier.reload file s now = some s') :
    (s' = s ∧ ∀ f ∈ file, s.seen = .at f.stamp) ∨
      ∃ f, file = some f ∧ s' = ⟨f.content.unexpired now, .at f.stamp⟩ := by
  cases file with
  | none =>
    refine Or.inl ⟨?_, by simp⟩
    cases tier with
    | web a =>
      simp only [Tier.reload, reloadWeb] at h
      split at h
      · exact (Option.some.inj h).symm
      · cases h
    | student =>
      simp only [Tier.reload, reloadStudent] at h
      split at h
      · cases h
      · exact (Option.some.inj h).symm
  | some f =>
    have hSame : s.seen = .at f.stamp → ∀ f' ∈ some f, s.seen = .at f'.stamp := by
      intro hSeen f' hf'
      cases hf'
      exact hSeen
    cases tier with
    | web a =>
      simp only [Tier.reload, reloadWeb] at h
      split at h
      · cases h
      split at h
      · rename_i hSeen
        exact Or.inl ⟨(Option.some.inj h).symm, hSame hSeen⟩
      split at h
      · cases h
      · exact Or.inr ⟨f, rfl, (Option.some.inj h).symm⟩
    | student =>
      simp only [Tier.reload, reloadStudent] at h
      split at h
      · cases h
      split at h
      · rename_i hSeen
        exact Or.inl ⟨(Option.some.inj h).symm, hSame hSeen⟩
      split at h
      · cases h
      · exact Or.inr ⟨f, rfl, (Option.some.inj h).symm⟩

theorem reload_some (now : Int) (hValid : ∀ f ∈ file, ValidFile f.content)
    (hKnown : file = none → ¬ tier.Blind s.seen) : ∃ s', tier.reload file s now = some s' := by
  cases file with
  | none =>
    have hSeen := hKnown rfl
    cases tier with
    | web a =>
      rw [Tier.Blind, not_not] at hSeen
      exact ⟨s, by simp [Tier.reload, reloadWeb, hSeen]⟩
    | student =>
      cases hs : s.seen with
      | «at» n => exact absurd ⟨n, hs⟩ hSeen
      | _ => exact ⟨s, by simp [Tier.reload, reloadStudent, hs]⟩
  | some f =>
    obtain ⟨hBytes, hSize, hKeys⟩ := hValid f rfl
    cases tier with
    | web a =>
      have hNone : f.content.revoked.keys.any (!Revocations.isMac ·) = false := by
        rw [any_eq_false]
        intro key hKey
        simp [hKeys key hKey]
      simp only [Tier.reload, reloadWeb, if_neg (not_lt.mpr hBytes), hNone,
        Bool.or_false, decide_eq_true_eq, if_neg (not_lt.mpr hSize)]
      split <;> exact ⟨_, rfl⟩
    | student =>
      simp only [Tier.reload, reloadStudent, if_neg (not_lt.mpr hBytes),
        if_neg (not_lt.mpr hSize)]
      split <;> exact ⟨_, rfl⟩

/-! ## What a cookie is accepted on -/

def Keyring.opens (k : Keyring) (token : Text) : Option Payload :=
  (k.signedBody token).bind k.decode

/-- What the web tier asks of the body beyond the times. -/
def Tier.Fits : Tier → Payload → Prop
  | .web a, p => p.e ≠ [] ∧ p.e.length ≤ 254 ∧ versionRefused a p = false
  | .student, _ => True

/-- The instance accepts the token at `now` on these revocations. -/
structure Passes (k : Keyring) (tier : Tier) (token : Text) (p : Payload) (now : Int)
    (r : Revocations) : Prop where
  opens : k.opens token = some p
  fits : tier.Fits p
  alive : now < p.x
  past : p.x ≤ now + k.ttl
  cuts : r.cuts (p.x - k.ttl) = false
  revoked : r.revoked.has (k.mac token) = false

theorem opens_of {body : Text} {p : Payload} (hBody : k.signedBody token = some body)
    (hDecode : k.decode body = some p) : k.opens token = some p := by
  rw [Keyring.opens, hBody, Option.bind_some, hDecode]

/-- What the reloaded instance answers: it accepts on `Passes`. -/
def Answered (k : Keyring) (tier : Tier) (token : Text) (now : Int) (r : Revocations)
    (answer : Option (Text × Int)) : Prop :=
  ∀ e x, answer = some (e, x) ↔ ∃ p, Passes k tier token p now r ∧ p.e = e ∧ p.x = x

theorem answers_none (h : ∀ p, ¬ Passes k tier token p now r) :
    Answered k tier token now r none := by
  intro e x
  refine ⟨fun hNone => (nomatch hNone), ?_⟩
  rintro ⟨p, hp, -⟩
  exact absurd hp (h p)

theorem answers_some {p : Payload} (h : Passes k tier token p now r) :
    Answered k tier token now r (some (p.e, p.x)) := by
  intro e x
  constructor
  · intro hEq
    cases hEq
    exact ⟨p, h, rfl, rfl⟩
  · rintro ⟨p', hp', rfl, rfl⟩
    have hEq := h.opens.symm.trans hp'.opens
    cases hEq
    rfl

theorem answers_unsigned (h : k.opens token = none) : Answered k tier token now r none :=
  answers_none fun _ hp => nomatch h.symm.trans hp.opens

theorem detailWeb_spec {a : Option (Text → Option Text)}
    (hShort : ¬ (token.isEmpty || token.length > 2048) = true)
    (hReload : reloadWeb file s now = some s') :
    (detailWeb k a file s token now).1 = s' ∧
      Answered k (.web a) token now s'.mem (detailWeb k a file s token now).2 := by
  simp only [detailWeb, hReload]
  rw [if_neg hShort]
  cases hBody : k.signedBody token with
  | none => exact ⟨rfl, answers_unsigned (by rw [Keyring.opens, hBody]; rfl)⟩
  | some body =>
    dsimp only
    cases hDecode : k.decode body with
    | none =>
      exact ⟨rfl, answers_unsigned (by rw [Keyring.opens, hBody, Option.bind_some, hDecode])⟩
    | some p =>
      have hOpens := opens_of hBody hDecode
      have hOnly : ∀ p', Passes k (.web a) token p' now s'.mem → p' = p := fun p' hp' =>
        Option.some.inj (hp'.opens.symm.trans hOpens)
      dsimp only
      split
      · rename_i hBad
        refine ⟨rfl, answers_none fun p' hp' => ?_⟩
        rw [hOnly p' hp'] at hp'
        obtain ⟨-, ⟨hEmpty, hLength, -⟩, hAlive, hPast, hCuts, hRevoked⟩ := hp'
        simp [hEmpty, not_lt.mpr hLength, hCuts, hRevoked, not_le.mpr hAlive,
          not_lt.mpr hPast] at hBad
      rename_i hGood
      simp only [Bool.or_eq_true, decide_eq_true_eq, List.isEmpty_iff, not_or, not_le, not_lt,
        gt_iff_lt, Bool.not_eq_true] at hGood
      obtain ⟨⟨⟨⟨⟨hAlive, hPast⟩, hEmpty⟩, hLength⟩, hCuts⟩, hRevoked⟩ := hGood
      split
      · rename_i hVersion
        refine ⟨rfl, answers_none fun p' hp' => ?_⟩
        rw [hOnly p' hp'] at hp'
        exact absurd hVersion (by rw [hp'.fits.2.2]; simp)
      · rename_i hVersion
        rw [Bool.not_eq_true] at hVersion
        exact ⟨rfl, answers_some
          ⟨hOpens, ⟨hEmpty, hLength, hVersion⟩, hAlive, hPast, hCuts, hRevoked⟩⟩

theorem detailStudent_spec (hShort : ¬ (token.isEmpty || token.length > 2048) = true)
    (hReload : reloadStudent file s now = some s') :
    (detailStudent k file s token now).1 = s' ∧
      Answered k .student token now s'.mem (detailStudent k file s token now).2 := by
  simp only [detailStudent, hReload]
  rw [if_neg hShort]
  cases hBody : k.signedBody token with
  | none => exact ⟨rfl, answers_unsigned (by rw [Keyring.opens, hBody]; rfl)⟩
  | some body =>
    dsimp only
    split
    · rename_i hRevoked
      refine ⟨rfl, answers_none fun p hp => ?_⟩
      rw [hp.revoked] at hRevoked
      cases hRevoked
    rename_i hRevoked
    rw [Bool.not_eq_true] at hRevoked
    cases hDecode : k.decode body with
    | none =>
      exact ⟨rfl, answers_unsigned (by rw [Keyring.opens, hBody, Option.bind_some, hDecode])⟩
    | some p =>
      have hOpens := opens_of hBody hDecode
      dsimp only
      split
      · rename_i hBad
        refine ⟨rfl, answers_none fun p' hp' => ?_⟩
        have hEq := hp'.opens.symm.trans hOpens
        cases hEq
        have hAlive := not_le.mpr hp'.alive
        have hPast := not_lt.mpr hp'.past
        simp [hAlive, hPast, hp'.cuts, hRevoked] at hBad
      · rename_i hGood
        simp only [hRevoked, Bool.or_false, Bool.or_eq_true, decide_eq_true_eq, not_or, not_le,
          not_lt, gt_iff_lt, Bool.not_eq_true] at hGood
        obtain ⟨⟨hAlive, hPast⟩, hCuts⟩ := hGood
        exact ⟨rfl, answers_some ⟨hOpens, trivial, hAlive, hPast, hCuts, hRevoked⟩⟩

/-- A check leaves the instance as it is and refuses, or it reloads and answers. -/
theorem detail_spec (tier : Tier) (k : Keyring) (file : Option Disk) (s : Sessions) (token : Text)
    (now : Int) :
    (((token = [] ∨ 2048 < token.length) ∨ tier.reload file s now = none) ∧
        tier.detail k file s token now = (s, none)) ∨
      ∃ s', (token ≠ [] ∧ token.length ≤ 2048) ∧ tier.reload file s now = some s' ∧
        (tier.detail k file s token now).1 = s' ∧
          Answered k tier token now s'.mem (tier.detail k file s token now).2 := by
  by_cases hShort : (token.isEmpty || token.length > 2048) = true
  · refine Or.inl ⟨Or.inl (by simpa using hShort), ?_⟩
    cases tier with
    | web a => simp only [Tier.detail, detailWeb, if_pos hShort]
    | student => simp only [Tier.detail, detailStudent, if_pos hShort]
  have hToken : token ≠ [] ∧ token.length ≤ 2048 := by simpa using hShort
  cases hReload : tier.reload file s now with
  | none =>
    refine Or.inl ⟨Or.inr rfl, ?_⟩
    cases tier with
    | web a =>
      simp only [Tier.reload] at hReload
      simp only [Tier.detail, detailWeb, if_neg hShort, hReload]
    | student =>
      simp only [Tier.reload] at hReload
      simp only [Tier.detail, detailStudent, if_neg hShort, hReload]
  | some s' =>
    refine Or.inr ⟨s', hToken, rfl, ?_⟩
    cases tier with
    | web a => exact detailWeb_spec hShort hReload
    | student => exact detailStudent_spec hShort hReload

/-! ## What every call keeps -/

/-- The integers a JavaScript number holds exactly. -/
def Safe (x : Int) : Prop := -2 ^ 53 ≤ x ∧ x ≤ 2 ^ 53

/-- An entry of the set is the signature of a token `revoke` was called with, under the
expiry of that token. -/
def Asked (k : Keyring) (asked : List Text) (key : Text) (x : Int) : Prop :=
  ∃ t ∈ asked, key = k.mac t ∧ ∃ p, k.opens t = some p ∧ p.x = x

/-- Where the entries and the cut-off of an instance or of the file come from. -/
structure Sane (k : Keyring) (asked : List Text) (overflow : Option Int) (r : Revocations) :
    Prop where
  size : r.revoked.size ≤ 10000
  entries : ∀ key x, r.revoked.get key = some x → Asked k asked key x ∧ Safe x
  cut : ∀ v, r.validAfter = some v → Safe v ∧ ∃ o, overflow = some o ∧ v ≤ o

variable {asked : List Text} {overflow : Option Int} {r : Revocations}

theorem sane_empty : Sane k asked overflow .empty :=
  ⟨Nat.zero_le _, fun _ _ h => (nomatch h), fun _ h => (nomatch h)⟩

/-- Asking more and overflowing later keeps the account. -/
theorem Sane.mono (h : Sane k asked overflow r) {asked' : List Text} {o : Option Int}
    (hAsked : asked ⊆ asked') (hOverflow : ∀ v, overflow = some v → ∃ w, o = some w ∧ v ≤ w) :
    Sane k asked' o r := by
  refine ⟨h.size, fun key x hx => ?_, fun v hv => ?_⟩
  · obtain ⟨⟨t, ht, hRest⟩, hSafe⟩ := h.entries key x hx
    exact ⟨⟨t, hAsked ht, hRest⟩, hSafe⟩
  · obtain ⟨hSafe, w, hw, hLe⟩ := h.cut v hv
    obtain ⟨w', hw', hLe'⟩ := hOverflow w hw
    exact ⟨hSafe, w', hw', hLe.trans hLe'⟩

theorem get_filter {m : JsMap Text Int} {f : Int → Bool} :
    (m.filter f).get key = some x ↔ m.get key = some x ∧ f x = true := by
  rw [JsMap.get_eq_some_iff, JsMap.get_eq_some_iff, JsMap.filter, mem_filter]

theorem Sane.unexpired (h : Sane k asked overflow r) (now : Int) :
    Sane k asked overflow (r.unexpired now) := by
  refine ⟨(length_filter_le _ _).trans h.size, fun key x hx => ?_, h.cut⟩
  exact h.entries key x (get_filter.mp hx).1

/-- After an overflow at `now` the cut-off is the time of that overflow. -/
theorem Sane.makeRoom (h : Sane k asked overflow r) (hNow : Safe now) {o : Option Int}
    (hFull : (r.unexpired now).full = true → o = some now)
    (hRoom : (r.unexpired now).full = false → o = overflow) :
    Sane k asked o (r.makeRoom now) ∧ (r.makeRoom now).revoked.size < 10000 := by
  unfold Revocations.makeRoom
  dsimp only
  split
  · rename_i hEq
    refine ⟨⟨Nat.zero_le _, fun _ _ h => (nomatch h), fun v hv => ?_⟩, Nat.zero_lt_succ _⟩
    cases hv
    exact ⟨hNow, now, hFull hEq, le_refl _⟩
  · rename_i hEq
    rw [Bool.not_eq_true] at hEq
    rw [hRoom hEq]
    refine ⟨h.unexpired now, ?_⟩
    rw [Revocations.full, decide_eq_false_iff_not, not_le] at hEq
    exact hEq

theorem Sane.add (h : Sane k asked overflow r) (hSize : r.revoked.size < 10000)
    (hEntry : Asked k asked key x ∧ Safe x) : Sane k asked overflow (r.add key x) := by
  refine ⟨(r.revoked.size_set_le key x).trans hSize, fun key' x' hx => ?_, h.cut⟩
  rw [Revocations.add, JsMap.get_set] at hx
  split at hx
  · rename_i hEq
    cases hx
    rw [hEq]
    exact hEntry
  · exact h.entries key' x' hx

theorem Safe.bytes (h : Safe x) : Text.integerBytes x ≤ 17 :=
  Text.integerBytes_le (by obtain ⟨hLow, hHigh⟩ := h; omega)

theorem sum_le_length {l : List (Text × Int)} {f : Text × Int → Nat} {b : Nat}
    (h : ∀ e ∈ l, f e ≤ b) : (l.map f).sum ≤ l.length * b := by
  have hSum := sum_le_card_nsmul (l.map f) b (by
    intro x hx
    obtain ⟨e, he, rfl⟩ := mem_map.mp hx
    exact h e he)
  simpa using hSum

/-- A file with such contents is one every instance reads. -/
theorem Sane.valid (h : Sane k asked overflow r)
    (hMac : ∀ t, Revocations.isMac (k.mac t) = true) : ValidFile r := by
  have hKey : ∀ key ∈ r.revoked.keys, Revocations.isMac key = true := by
    intro key hKey
    obtain ⟨x, hx⟩ := Option.isSome_iff_exists.mp (JsMap.has_iff_mem_keys.mpr hKey)
    obtain ⟨⟨t, -, rfl, -⟩, -⟩ := h.entries key x hx
    exact hMac t
  refine ⟨?_, h.size, hKey⟩
  have hEntries : (r.revoked.entries.map fun e =>
      5 + e.1.length + Text.integerBytes e.2).sum ≤ r.revoked.size * 65 := by
    refine sum_le_length fun e he => ?_
    have hLength : e.1.length = 43 := by
      have hIs := hKey e.1 (mem_map_of_mem he)
      rw [Revocations.isMac, Bool.and_eq_true, beq_iff_eq] at hIs
      exact hIs.1
    have hNumber := (h.entries e.1 e.2 (JsMap.get_eq_some_iff.mpr he)).2.bytes
    omega
  have hCut : (r.validAfter.map Text.integerBytes).getD 4 ≤ 17 := by
    cases hv : r.validAfter with
    | none => decide
    | some v => exact (h.cut v hv).1.bytes
  have hSize := h.size
  unfold Revocations.bytes
  omega

/-- The instance holds sane contents and a stamp that has been given out, and reads the file
or knows that there is none. -/
structure SaneInst (k : Keyring) (tier : Tier) (st : SessionState) (s : Sessions) : Prop where
  mem : Sane k st.asked st.overflow s.mem
  seen : ∀ n, s.seen = .at n → n < st.stamps
  blind : st.file = none → ¬ tier.Blind s.seen

structure Good (k : Keyring) (tier : Tier) (st : SessionState) : Prop where
  file : ∀ f ∈ st.file, Sane k st.asked st.overflow f.content ∧ f.stamp < st.stamps
  insts : ∀ i, SaneInst k tier st (st.insts i)
  overflow : ∀ o, st.overflow = some o → o ≤ st.clock

variable {st : SessionState}

theorem not_blind_fresh (tier : Tier) : ¬ tier.Blind tier.fresh.seen := by
  cases tier with
  | web a => exact fun h => h rfl
  | student => exact fun ⟨n, hn⟩ => nomatch hn

theorem saneInst_fresh : SaneInst k tier st tier.fresh := by
  refine ⟨?_, fun n hn => ?_, fun _ => not_blind_fresh tier⟩
  · cases tier <;> exact sane_empty
  · cases tier <;> cases hn

theorem good_init (tier : Tier) (clock : Int) : Good k tier (tier.init clock) :=
  ⟨fun _ h => (nomatch h), fun _ => saneInst_fresh, fun _ h => (nomatch h)⟩

theorem Good.setInst (h : Good k tier st) (hs : SaneInst k tier st s) :
    Good k tier (st.setInst i s) := by
  refine ⟨h.file, fun j => ?_, h.overflow⟩
  rw [SessionState.setInst]
  dsimp only
  rw [update_apply]
  split
  · exact ⟨hs.mem, hs.seen, hs.blind⟩
  · exact ⟨(h.insts j).mem, (h.insts j).seen, (h.insts j).blind⟩

/-- A later call finds everything in order too. -/
theorem Good.clock (h : Good k tier st) (hNow : st.clock ≤ now) :
    Good k tier { st with clock := now } :=
  ⟨h.file, fun i => ⟨(h.insts i).mem, (h.insts i).seen, (h.insts i).blind⟩,
    fun o ho => (h.overflow o ho).trans hNow⟩

theorem Good.ask (h : Good k tier st) (token : Text) :
    Good k tier { st with asked := st.asked ++ [token] } := by
  have hMono : ∀ {r}, Sane k st.asked st.overflow r →
      Sane k (st.asked ++ [token]) st.overflow r := fun hr =>
    hr.mono (subset_append_left _ _) fun v hv => ⟨v, hv, le_refl _⟩
  exact ⟨fun f hf => ⟨hMono (h.file f hf).1, (h.file f hf).2⟩,
    fun i => ⟨hMono (h.insts i).mem, (h.insts i).seen, (h.insts i).blind⟩, h.overflow⟩

theorem Good.valid (h : Good k tier st) (hMac : ∀ t, Revocations.isMac (k.mac t) = true) :
    ∀ f ∈ st.file, ValidFile f.content := fun f hf => (h.file f hf).1.valid hMac

/-- A reload of an instance in order succeeds and leaves it in order. -/
theorem Good.reload (h : Good k tier st) (hMac : ∀ t, Revocations.isMac (k.mac t) = true)
    (hs : SaneInst k tier st s) (now : Int) :
    ∃ s', tier.reload st.file s now = some s' ∧ SaneInst k tier st s' := by
  obtain ⟨s', hReload⟩ := reload_some now (h.valid hMac) hs.blind
  refine ⟨s', hReload, ?_⟩
  rcases reload_cases hReload with ⟨rfl, -⟩ | ⟨f, hFile, rfl⟩
  · exact hs
  · obtain ⟨hContent, hStamp⟩ := h.file f hFile
    refine ⟨hContent.unexpired now, fun n hn => ?_, fun hNone => ?_⟩
    · cases hn
      exact hStamp
    · rw [hFile] at hNone
      cases hNone

/-- The contents a commit writes. -/
def committed (r : Revocations) (now : Int) (entry : Option (Text × Int)) : Revocations :=
  match entry with
  | none => r.makeRoom now
  | some (key, expiry) => (r.makeRoom now).add key expiry

/-- The time of the last overflow after a commit. -/
def overflowAfter (overflow : Option Int) (r : Revocations) (now : Int) : Option Int :=
  if (r.unexpired now).full then some now else overflow

theorem commit_eq (st : SessionState) (i : Nat) (s : Sessions) (now : Int)
    (entry : Option (Text × Int)) (io : RevokeIo) :
    st.commit i s now entry io = ({ st with
      overflow := overflowAfter st.overflow s.mem now } : SessionState).save i
        ⟨committed s.mem now entry, s.seen⟩ io := by
  cases entry <;> rfl

theorem overflowAfter_le {v : Int} (hv : overflow = some v) (hNow : v ≤ now) :
    ∃ w, overflowAfter overflow r now = some w ∧ v ≤ w := by
  unfold overflowAfter
  split
  · exact ⟨now, rfl, hNow⟩
  · exact ⟨v, hv, le_refl _⟩

theorem Sane.committed (h : Sane k asked overflow r) (hNow : Safe now)
    {entry : Option (Text × Int)}
    (hEntry : ∀ key x, entry = some (key, x) → Asked k asked key x ∧ Safe x) :
    Sane k asked (overflowAfter overflow r now) (committed r now entry) := by
  obtain ⟨hRoom, hSize⟩ := h.makeRoom hNow (o := overflowAfter overflow r now)
    (fun hFull => by rw [overflowAfter, if_pos hFull])
    (fun hRoom => by rw [overflowAfter, hRoom]; rfl)
  cases entry with
  | none => exact hRoom
  | some e => exact hRoom.add hSize (hEntry e.1 e.2 rfl)

/-- Saving contents that are in order, whatever becomes of the write. -/
theorem Good.save (h : Good k tier st) (hs : SaneInst k tier st s) (io : RevokeIo) :
    Good k tier (st.save i s io).1 := by
  have hWritten : Good k tier
      { st with file := some ⟨s.mem, st.stamps⟩, stamps := st.stamps + 1 } := by
    refine ⟨fun f hf => ?_, fun j => ⟨(h.insts j).mem, fun n hn => ?_, fun hNone => (nomatch hNone)⟩,
      h.overflow⟩
    · cases hf
      exact ⟨hs.mem, Nat.lt_succ_self _⟩
    · exact Nat.lt_succ_of_lt ((h.insts j).seen n hn)
  cases io with
  | done =>
    exact hWritten.setInst ⟨hs.mem, fun n hn => (nomatch hn), fun hNone => (nomatch hNone)⟩
  | unsynced =>
    exact hWritten.setInst ⟨hs.mem, fun n hn => Nat.lt_succ_of_lt (hs.seen n hn),
      fun hNone => (nomatch hNone)⟩
  | failed => exact h.setInst hs
  | busy => exact h.setInst hs

theorem Good.commit (h : Good k tier st) (hs : SaneInst k tier st s) (hSafe : Safe now)
    (hNow : st.clock = now) {entry : Option (Text × Int)}
    (hEntry : ∀ key x, entry = some (key, x) → Asked k st.asked key x ∧ Safe x) (io : RevokeIo) :
    Good k tier (st.commit i s now entry io).1 := by
  have hOver : ∀ v, st.overflow = some v →
      ∃ w, overflowAfter st.overflow s.mem now = some w ∧ v ≤ w := fun v hv =>
    overflowAfter_le hv (hNow ▸ h.overflow v hv)
  have hLater : ∀ {r}, Sane k st.asked st.overflow r →
      Sane k st.asked (overflowAfter st.overflow s.mem now) r := fun hr =>
    hr.mono (List.Subset.refl _) hOver
  have hNew := hs.mem.committed hSafe hEntry
  have hOverflow : ∀ o, overflowAfter st.overflow s.mem now = some o → o ≤ st.clock := by
    intro o ho
    unfold overflowAfter at ho
    split at ho
    · cases ho
      exact hNow.ge
    · exact h.overflow o ho
  have hMid : Good k tier { st with overflow := overflowAfter st.overflow s.mem now } :=
    ⟨fun f hf => ⟨hLater (h.file f hf).1, (h.file f hf).2⟩,
      fun j => ⟨hLater (h.insts j).mem, (h.insts j).seen, (h.insts j).blind⟩, hOverflow⟩
  rw [commit_eq]
  exact hMid.save (s := ⟨committed s.mem now entry, s.seen⟩) ⟨hNew, hs.seen, hs.blind⟩ io

/-! ## What a revocation does -/

/-- The contents a reload under the lock leaves instance `i` with: those of the file, or its
own where there is no file. -/
def Forced (st : SessionState) (i : Nat) (now : Int) (r : Revocations) : Prop :=
  (st.file = none ∧ r = (st.insts i).mem) ∨ ∃ f, st.file = some f ∧ r = f.content.unexpired now

/-- The contents a check by instance `i` goes by. -/
def Viewed (st : SessionState) (i : Nat) (now : Int) (r : Revocations) : Prop :=
  Forced st i now r ∨
    ∃ f, st.file = some f ∧ (st.insts i).seen = .at f.stamp ∧ r = (st.insts i).mem

theorem viewed_of_reload (h : tier.reload st.file (st.insts i) now = some s') :
    Viewed st i now s'.mem := by
  rcases reload_cases h with ⟨rfl, hSeen⟩ | ⟨f, hFile, rfl⟩
  · cases hFile : st.file with
    | none => exact Or.inl (Or.inl ⟨hFile, rfl⟩)
    | some f => exact Or.inr ⟨f, hFile, hSeen f hFile, rfl⟩
  · exact Or.inl (Or.inr ⟨f, hFile, rfl⟩)

theorem forced_of_reload (hSeen : ∀ n, s.seen ≠ .at n)
    (hMem : st.file = none → s.mem = (st.insts i).mem) (h : tier.reload st.file s now = some s') :
    Forced st i now s'.mem := by
  rcases reload_cases h with ⟨rfl, hSame⟩ | ⟨f, hFile, rfl⟩
  · cases hFile : st.file with
    | none => exact Or.inl ⟨hFile, hMem hFile⟩
    | some f => exact absurd (hSame f hFile) (hSeen _)
  · exact Or.inr ⟨f, hFile, rfl⟩

/-- The check that made `revoke` return without a change. -/
def Declined (k : Keyring) (tier : Tier) (st : SessionState) (i : Nat) (token : Text)
    (now : Int) : Prop :=
  token = [] ∨ 2048 < token.length ∨
    ∃ r, Viewed st i now r ∧ ∀ p, ¬ Passes k tier token p now r

/-- What is entered for a token with body `p`: the student module's second look at the body
does not take an empty e-mail. -/
def Tier.entry (tier : Tier) (k : Keyring) (token : Text) (p : Payload) : Option (Text × Int) :=
  match tier with
  | .web _ => some (k.mac token, p.x)
  | .student => if p.e = [] then none else some (k.mac token, p.x)

/-- What a call that does not commit makes of instance `i`. -/
def Refreshed (st : SessionState) (i : Nat) (now : Int) (s : Sessions) : Prop :=
  (s.mem = (st.insts i).mem ∧ (s.seen = (st.insts i).seen ∨ ∀ n, s.seen ≠ .at n)) ∨
    ∃ f, st.file = some f ∧ s = ⟨f.content.unexpired now, .at f.stamp⟩

theorem refreshed_of_reload (st : SessionState) (hMem : s.mem = (st.insts i).mem)
    (hSeen : s.seen = (st.insts i).seen ∨ ∀ n, s.seen ≠ .at n)
    (h : tier.reload st.file s now = some s') : Refreshed st i now s' := by
  rcases reload_cases h with ⟨rfl, -⟩ | ⟨f, hFile, rfl⟩
  · exact Or.inl ⟨hMem, hSeen⟩
  · exact Or.inr ⟨f, hFile, rfl⟩

/-- The two ways a revocation goes: the instance may reload and nothing else, or it commits
an entry for a token that passes the check. -/
inductive Revoked (k : Keyring) (tier : Tier) (st : SessionState) (i : Nat) (token : Text)
    (now : Int) (io : RevokeIo) : SessionState × SessionOutcome → Prop
  | kept {s : Sessions} {o : SessionOutcome} (hInst : SaneInst k tier st s)
      (hRefreshed : Refreshed st i now s)
      (hWhy : o = .returned → Declined k tier st i token now) :
      Revoked k tier st i token now io (st.setInst i s, o)
  | written {s : Sessions} {p : Payload} (hInst : SaneInst k tier st s)
      (hForced : Forced st i now s.mem) (hOpens : k.opens token = some p)
      (hFits : tier.Fits p) (hAlive : now < p.x) (hPast : p.x ≤ now + k.ttl)
      (hIo : io ≠ .busy) :
      Revoked k tier st i token now io (st.commit i s now (tier.entry k token p) io)

theorem setInst_self (st : SessionState) (i : Nat) : st.setInst i (st.insts i) = st := by
  rw [SessionState.setInst, update_eq_self]

theorem revokeWeb_cases {a : Option (Text → Option Text)} (h : Good k (.web a) st)
    (hMac : ∀ t, Revocations.isMac (k.mac t) = true) (i : Nat) (token : Text) (now : Int)
    (io : RevokeIo) : Revoked k (.web a) st i token now io (st.revokeWeb k a i token now io) := by
  have hInst := h.insts i
  unfold SessionState.revokeWeb
  split
  · have hKept : Revoked k (.web a) st i token now io (st.setInst i (st.insts i), .threw) :=
      .kept hInst (Or.inl ⟨rfl, Or.inl rfl⟩) (fun ho => nomatch ho)
    rwa [setInst_self] at hKept
  rename_i hIo
  dsimp only
  -- The instance before its check: stale, unless it has not read any file.
  generalize hs : (if (st.insts i).seen = .never then st.insts i
    else (⟨(st.insts i).mem, .stale⟩ : Sessions)) = s
  have hMem : s.mem = (st.insts i).mem := by
    rw [← hs]
    split <;> rfl
  have hSeen : ∀ n, s.seen ≠ .at n := by
    intro n
    rw [← hs]
    split
    · rename_i hNever
      rw [hNever]
      exact fun hEq => nomatch hEq
    · exact fun hEq => nomatch hEq
  have hBlind : st.file = none → ¬ (Tier.web a).Blind s.seen := by
    intro hNone
    have hNot := hInst.blind hNone
    rw [Tier.Blind, not_not] at hNot
    rw [← hs, if_pos hNot, Tier.Blind, not_not]
    exact hNot
  have hSane : SaneInst k (.web a) st s :=
    ⟨by rw [hMem]; exact hInst.mem, fun n hn => absurd hn (hSeen n), hBlind⟩
  obtain ⟨s', hReload, hInst'⟩ := h.reload hMac hSane now
  have hForced := forced_of_reload hSeen (fun _ => hMem) hReload
  have hDetail := detail_spec (.web a) k st.file s token now
  rcases hDetail with ⟨hWhy, hEq⟩ | ⟨s'', -, hReload', hFirst, hAnswer⟩
  · simp only [Tier.detail] at hEq
    rw [hEq]
    refine .kept hSane (Or.inl ⟨hMem, Or.inr hSeen⟩) fun _ => ?_
    rcases hWhy with (hEmpty | hLong) | hNone
    · exact Or.inl hEmpty
    · exact Or.inr (Or.inl hLong)
    · rw [hReload] at hNone
      cases hNone
  · rw [hReload] at hReload'
    cases hReload'
    simp only [Tier.detail] at hFirst hAnswer
    cases hResult : detailWeb k a st.file s token now with
    | mk t answer =>
      rw [hResult] at hFirst hAnswer
      dsimp only at hFirst hAnswer
      subst hFirst
      cases answer with
      | none =>
        refine .kept hInst' (refreshed_of_reload _ hMem (Or.inr hSeen) hReload) fun _ => ?_
        refine Or.inr (Or.inr ⟨t.mem, Or.inl hForced, fun p hp => ?_⟩)
        cases (hAnswer p.e p.x).mpr ⟨p, hp, rfl, rfl⟩
      | some answer =>
        obtain ⟨e, x⟩ := answer
        obtain ⟨p, hp, -, rfl⟩ := (hAnswer e x).mp rfl
        exact .written hInst' hForced hp.opens hp.fits hp.alive hp.past hIo

theorem detailWithoutReload_eq {token : Text} {p : Payload} {now : Int}
    (hOpens : k.opens token = some p) (hAlive : now < p.x) :
    (detailWithoutReload k token now).map (fun x => (k.mac token, x)) =
      Tier.student.entry k token p := by
  rw [Keyring.opens] at hOpens
  cases hBody : k.signedBody token with
  | none =>
    rw [hBody] at hOpens
    cases hOpens
  | some body =>
    rw [hBody, Option.bind_some] at hOpens
    have hAlive' : p.x > now := hAlive
    simp only [detailWithoutReload, hBody, hOpens, Tier.entry, hAlive', decide_true,
      Bool.and_true, Bool.not_eq_true', isEmpty_eq_false_iff]
    by_cases hEmpty : p.e = []
    · simp [hEmpty]
    · simp [hEmpty]

theorem revokeStudent_cases (h : Good k .student st)
    (hMac : ∀ t, Revocations.isMac (k.mac t) = true) (i : Nat) (token : Text) (now : Int)
    (io : RevokeIo) : Revoked k .student st i token now io (st.revokeStudent k i token now io) := by
  have hInst := h.insts i
  unfold SessionState.revokeStudent
  have hDetail := detail_spec .student k st.file (st.insts i) token now
  obtain ⟨s', hReload, hInst'⟩ := h.reload hMac hInst now
  have hRefreshed := refreshed_of_reload _ rfl (Or.inl rfl) hReload
  rcases hDetail with ⟨hWhy, hEq⟩ | ⟨s'', -, hReload', hFirst, hAnswer⟩
  · simp only [Tier.detail] at hEq
    rw [hEq]
    refine .kept hInst (Or.inl ⟨rfl, Or.inl rfl⟩) fun _ => ?_
    rcases hWhy with (hEmpty | hLong) | hNone
    · exact Or.inl hEmpty
    · exact Or.inr (Or.inl hLong)
    · rw [hReload] at hNone
      cases hNone
  rw [hReload] at hReload'
  cases hReload'
  simp only [Tier.detail] at hFirst hAnswer
  cases hResult : detailStudent k st.file (st.insts i) token now with
  | mk t answer =>
    rw [hResult] at hFirst hAnswer
    dsimp only at hFirst hAnswer
    subst hFirst
    cases answer with
    | none =>
      refine .kept hInst' hRefreshed fun _ => ?_
      refine Or.inr (Or.inr ⟨t.mem, viewed_of_reload hReload, fun p hp => ?_⟩)
      cases (hAnswer p.e p.x).mpr ⟨p, hp, rfl, rfl⟩
    | some answer =>
      obtain ⟨e, x⟩ := answer
      obtain ⟨p, hp, -, rfl⟩ := (hAnswer e x).mp rfl
      dsimp only
      split
      · exact .kept hInst' hRefreshed fun ho => nomatch ho
      rename_i hIo
      -- Under the lock the contents are read once more.
      have hStale : SaneInst k .student st ⟨t.mem, .stale⟩ :=
        ⟨hInst'.mem, fun n hn => (nomatch hn), fun _ ⟨n, hn⟩ => (nomatch hn)⟩
      obtain ⟨u, hForce, hInst''⟩ := h.reload hMac hStale now
      have hMem : st.file = none → t.mem = (st.insts i).mem := by
        intro hNone
        rcases reload_cases hReload with ⟨rfl, -⟩ | ⟨f, hFile, -⟩
        · rfl
        · rw [hNone] at hFile
          cases hFile
      have hForced := forced_of_reload (s := ⟨t.mem, .stale⟩) (fun n hn => (nomatch hn)) hMem hForce
      simp only [Tier.reload] at hForce
      rw [hForce]
      dsimp only
      rw [detailWithoutReload_eq hp.opens hp.alive]
      exact .written hInst'' hForced hp.opens hp.fits hp.alive hp.past hIo

theorem revoke_cases (h : Good k tier st) (hMac : ∀ t, Revocations.isMac (k.mac t) = true)
    (i : Nat) (token : Text) (now : Int) (io : RevokeIo) :
    Revoked k tier st i token now io (st.revoke k tier i token now io) := by
  cases tier with
  | web a => exact revokeWeb_cases h hMac i token now io
  | student => exact revokeStudent_cases h hMac i token now io

/-! ## Every call keeps the account -/

theorem Good.revoke (h : Good k tier st) (hMac : ∀ t, Revocations.isMac (k.mac t) = true)
    (io : RevokeIo) (hToken : token ∈ st.asked) (hNow : st.clock = now) (hSafe : Safe now)
    (hLife : Safe (now + k.ttl)) : Good k tier (st.revoke k tier i token now io).1 := by
  have hCases := revoke_cases h hMac i token now io
  generalize st.revoke k tier i token now io = r at hCases
  cases hCases with
  | kept hInst => exact h.setInst hInst
  | @written s p hInst hForced hOpens hFits hAlive hPast =>
    refine h.commit hInst hSafe hNow (fun key x hEntry => ?_) io
    have hEq : key = k.mac token ∧ x = p.x := by
      cases tier with
      | web a =>
        cases hEntry
        exact ⟨rfl, rfl⟩
      | student =>
        rw [Tier.entry] at hEntry
        split at hEntry
        · cases hEntry
        · cases hEntry
          exact ⟨rfl, rfl⟩
    rw [hEq.1, hEq.2]
    exact ⟨⟨token, hToken, rfl, p, hOpens, rfl⟩, hSafe.1.trans hAlive.le, hPast.trans hLife.2⟩

theorem good_step (h : Good k tier st) (hMac : ∀ t, Revocations.isMac (k.mac t) = true)
    (hClock : st.clock ≤ e.now) (hSafe : Safe e.now) (hLife : Safe (e.now + k.ttl)) :
    Good k tier (st.step k tier e).1 := by
  have hNow := h.clock hClock
  cases e with
  | start i now =>
    cases tier with
    | student => exact hNow.setInst saneInst_fresh
    | web a =>
      simp only [SessionState.step, SessionState.start]
      obtain ⟨s, hReload, hInst⟩ := hNow.reload hMac saneInst_fresh now
      simp only [Tier.reload] at hReload
      simp only [SessionEvent.now] at hReload ⊢
      rw [hReload]
      exact hNow.setInst hInst
  | issue i email now nonce version =>
    simp only [SessionState.step]
    split <;> exact hNow
  | detail i token now =>
    simp only [SessionState.step]
    have hInst : SaneInst k tier { st with clock := now }
        (tier.detail k st.file (st.insts i) token now).1 := by
      rcases detail_spec tier k st.file (st.insts i) token now with
        ⟨-, hEq⟩ | ⟨s', -, hReload, hFirst, -⟩
      · rw [hEq]
        exact hNow.insts i
      · obtain ⟨s'', hReload', hInst⟩ := hNow.reload hMac (hNow.insts i) now
        rw [hFirst]
        cases hReload.symm.trans hReload'
        exact hInst
    cases hEq : tier.detail k st.file (st.insts i) token now with
    | mk s answer =>
      rw [hEq] at hInst
      cases answer with
      | none => exact hNow.setInst hInst
      | some answer => exact hNow.setInst hInst
  | revoke i token now io =>
    exact (hNow.ask token).revoke hMac io (by simp) rfl hSafe hLife

/-! ## A revoked cookie stays refused -/

/-- The token is refused on these contents from `clock` on. -/
def Blocked (k : Keyring) (clock : Int) (token : Text) (p : Payload) (r : Revocations) : Prop :=
  p.x ≤ clock ∨ r.cuts (p.x - k.ttl) = true ∨ r.revoked.get (k.mac token) = some p.x

/-- The token is refused by every instance: its entry or a later cut-off is in the file, and
in the memory of every instance that will not read the file again. -/
structure Dead (k : Keyring) (st : SessionState) (token : Text) (p : Payload) : Prop where
  past : p.x ≤ st.clock + k.ttl
  missing : st.file = none → p.x ≤ st.clock
  file : ∀ f ∈ st.file, Blocked k st.clock token p f.content
  insts : ∀ i f, st.file = some f → (st.insts i).seen = .at f.stamp →
    Blocked k st.clock token p (st.insts i).mem

variable {token : Text} {p : Payload} {now : Int}

theorem Blocked.not_passes (h : Blocked k now token p r) (hOpens : k.opens token = some p)
    (p' : Payload) : ¬ Passes k tier token p' now r := by
  intro hp
  cases hOpens.symm.trans hp.opens
  rcases h with hExpired | hCut | hEntry
  · exact absurd hp.alive (not_lt.mpr hExpired)
  · rw [hp.cuts] at hCut
    cases hCut
  · have hRevoked := hp.revoked
    rw [JsMap.has, hEntry] at hRevoked
    cases hRevoked

theorem Blocked.later {clock : Int} (h : Blocked k clock token p r) (hNow : clock ≤ now) :
    Blocked k now token p r := h.imp_left fun hExpired => hExpired.trans hNow

theorem Blocked.unexpired (h : Blocked k now token p r) :
    Blocked k now token p (r.unexpired now) := by
  rcases h with hExpired | hCut | hEntry
  · exact Or.inl hExpired
  · exact Or.inr (Or.inl hCut)
  · by_cases hAlive : now < p.x
    · exact Or.inr (Or.inr (get_filter.mpr ⟨hEntry, by simpa using hAlive⟩))
    · exact Or.inl (not_lt.mp hAlive)

theorem Blocked.of_unexpired (h : Blocked k now token p (r.unexpired now)) :
    Blocked k now token p r := by
  rcases h with hExpired | hCut | hEntry
  · exact Or.inl hExpired
  · exact Or.inr (Or.inl hCut)
  · exact Or.inr (Or.inr (get_filter.mp hEntry).1)

/-- An overflow cuts off every token issued so far, and other entries leave this one. -/
theorem Blocked.committed (h : Blocked k now token p r) (hPast : p.x ≤ now + k.ttl)
    {entry : Option (Text × Int)}
    (hEntry : ∀ key x, entry = some (key, x) → key = k.mac token → x = p.x) :
    Blocked k now token p (committed r now entry) := by
  have hRoom : Blocked k now token p (r.makeRoom now) := by
    unfold Revocations.makeRoom
    dsimp only
    split
    · refine Or.inr (Or.inl ?_)
      simp only [Revocations.cuts, Option.any_some, decide_eq_true_eq]
      omega
    · exact h.unexpired
  cases entry with
  | none => exact hRoom
  | some e =>
    rcases hRoom with hExpired | hCut | hGet
    · exact Or.inl hExpired
    · exact Or.inr (Or.inl hCut)
    · refine Or.inr (Or.inr ?_)
      rw [Auth.committed, Revocations.add, JsMap.get_set]
      split
      · rename_i hEq
        rw [hEntry e.1 e.2 rfl hEq.symm]
      · exact hGet

theorem Dead.clock (h : Dead k st token p) (hNow : st.clock ≤ now) :
    Dead k { st with clock := now } token p :=
  ⟨h.past.trans (by dsimp only; omega), fun hNone => (h.missing hNone).trans hNow,
    fun f hf => (h.file f hf).later hNow, fun i f hf hSeen => (h.insts i f hf hSeen).later hNow⟩

theorem Dead.forced (h : Dead k st token p) (hForced : Forced st i st.clock r) :
    Blocked k st.clock token p r := by
  rcases hForced with ⟨hNone, -⟩ | ⟨f, hFile, rfl⟩
  · exact Or.inl (h.missing hNone)
  · exact (h.file f hFile).unexpired

theorem Dead.viewed (h : Dead k st token p) (hViewed : Viewed st i st.clock r) :
    Blocked k st.clock token p r := by
  rcases hViewed with hForced | ⟨f, hFile, hSeen, rfl⟩
  · exact h.forced hForced
  · exact h.insts i f hFile hSeen

theorem Dead.setInst (h : Dead k st token p)
    (hs : ∀ f, st.file = some f → s.seen = .at f.stamp → Blocked k st.clock token p s.mem) :
    Dead k (st.setInst i s) token p := by
  refine ⟨h.past, h.missing, h.file, fun j f hFile hSeen => ?_⟩
  rw [SessionState.setInst] at hSeen ⊢
  dsimp only at hSeen ⊢
  rw [update_apply] at hSeen ⊢
  split at hSeen
  · rename_i hEq
    rw [if_pos hEq]
    exact hs f hFile hSeen
  · rename_i hEq
    rw [if_neg hEq]
    exact h.insts j f hFile hSeen

theorem Dead.refreshed (h : Dead k st token p) (hs : Refreshed st i st.clock s) :
    Dead k (st.setInst i s) token p := by
  refine h.setInst fun f hFile hSeen => ?_
  rcases hs with ⟨hMem, hOld | hNot⟩ | ⟨f', hFile', rfl⟩
  · rw [hMem]
    exact h.insts i f hFile (hOld ▸ hSeen)
  · exact absurd hSeen (hNot _)
  · exact (h.file f' hFile').unexpired

/-- Writing contents that refuse the token. -/
theorem dead_written (st : SessionState) (hStamps : ∀ i n, (st.insts i).seen = .at n → n < st.stamps)
    (hPast : p.x ≤ st.clock + k.ttl) (hBlocked : Blocked k st.clock token p r) (i : Nat)
    (seen : Seen) :
    Dead k ({ st with file := some ⟨r, st.stamps⟩, stamps := st.stamps + 1 }.setInst i ⟨r, seen⟩)
      token p := by
  have hWritten : Dead k { st with file := some ⟨r, st.stamps⟩, stamps := st.stamps + 1 }
      token p := by
    refine ⟨hPast, fun hNone => (nomatch hNone), fun f hf => ?_, fun j f hf hAt => ?_⟩
    · cases hf
      exact hBlocked
    · cases hf
      exact absurd (hStamps j _ hAt) (lt_irrefl _)
  exact hWritten.setInst fun f hf hAt => hBlocked

theorem Dead.commit (h : Dead k st token p) (hGood : Good k tier st)
    (hForced : Forced st i st.clock s.mem) {entry : Option (Text × Int)}
    (hEntry : ∀ key x, entry = some (key, x) → key = k.mac token → x = p.x) (io : RevokeIo) :
    Dead k (st.commit i s st.clock entry io).1 token p := by
  have hBlocked := (h.forced hForced).committed h.past hEntry
  have hStamps : ∀ i n, (st.insts i).seen = .at n → n < st.stamps := fun i => (hGood.insts i).seen
  have hMid : Dead k { st with overflow := overflowAfter st.overflow s.mem st.clock } token p :=
    ⟨h.past, h.missing, h.file, h.insts⟩
  rw [commit_eq]
  cases io with
  | done =>
    exact dead_written { st with overflow := overflowAfter st.overflow s.mem st.clock }
      hStamps h.past hBlocked i .stale
  | unsynced =>
    exact dead_written { st with overflow := overflowAfter st.overflow s.mem st.clock }
      hStamps h.past hBlocked i s.seen
  | failed => exact hMid.setInst fun _ _ _ => hBlocked
  | busy => exact hMid.setInst fun _ _ _ => hBlocked

/-- No other token of the run has the signature of this one. -/
def Distinct (k : Keyring) (token token' : Text) : Prop := k.mac token' = k.mac token → token' = token

theorem entry_spec {token' : Text} {p' : Payload} (h : tier.entry k token' p' = some (key, x)) :
    key = k.mac token' ∧ x = p'.x := by
  cases tier with
  | web a =>
    cases h
    exact ⟨rfl, rfl⟩
  | student =>
    rw [Tier.entry] at h
    split at h
    · cases h
    · cases h
      exact ⟨rfl, rfl⟩

theorem dead_step (h : Dead k st token p) (hGood : Good k tier st)
    (hMac : ∀ t, Revocations.isMac (k.mac t) = true) (hOpens : k.opens token = some p)
    (hClock : st.clock ≤ e.now)
    (hDistinct : ∀ i token' now io, e = .revoke i token' now io → Distinct k token token') :
    Dead k (st.step k tier e).1 token p := by
  have hNow := h.clock hClock
  have hGoodNow := hGood.clock hClock
  cases e with
  | start i now =>
    cases tier with
    | student =>
      refine hNow.setInst fun f _ hSeen => ?_
      cases hSeen
    | web a =>
      simp only [SessionState.step, SessionState.start]
      split
      · exact hNow
      · rename_i s hReload
        have hReload : Tier.reload (.web a) st.file (Tier.web a).fresh now = some s := hReload
        rcases reload_cases hReload with ⟨rfl, -⟩ | ⟨f, hFile, rfl⟩
        · refine hNow.setInst fun f _ hSeen => ?_
          cases hSeen
        · exact hNow.setInst fun _ _ _ => (hNow.file f hFile).unexpired
  | issue i email now nonce version =>
    simp only [SessionState.step]
    split <;> exact hNow
  | detail i token' now =>
    have hRefreshed : Refreshed { st with clock := now } i now
        (tier.detail k st.file (st.insts i) token' now).1 := by
      rcases detail_spec tier k st.file (st.insts i) token' now with
        ⟨-, hEq⟩ | ⟨s', -, hReload, hFirst, -⟩
      · rw [hEq]
        exact Or.inl ⟨rfl, Or.inl rfl⟩
      · rw [hFirst]
        exact refreshed_of_reload { st with clock := now } rfl (Or.inl rfl) hReload
    simp only [SessionState.step]
    cases hEq : tier.detail k st.file (st.insts i) token' now with
    | mk s answer =>
      rw [hEq] at hRefreshed
      cases answer with
      | none => exact hNow.refreshed hRefreshed
      | some answer => exact hNow.refreshed hRefreshed
  | revoke i token' now io =>
    have hAsk : Dead k { st with clock := now, asked := st.asked ++ [token'] } token p :=
      ⟨hNow.past, hNow.missing, hNow.file, hNow.insts⟩
    have hGoodAsk := hGoodNow.ask token'
    have hCases := revoke_cases hGoodAsk hMac i token' now io
    simp only [SessionState.step]
    generalize SessionState.revoke _ k tier i token' now io = result at hCases ⊢
    cases hCases with
    | kept _ hRefreshed => exact hAsk.refreshed hRefreshed
    | @written s p' _ hForced hOpens' =>
      refine hAsk.commit hGoodAsk hForced (fun key x hEntry hKey => ?_) io
      obtain ⟨hMacKey, hX⟩ := entry_spec hEntry
      have hSame := hDistinct i token' now io rfl (hMacKey ▸ hKey)
      subst hSame
      cases hOpens.symm.trans hOpens'
      exact hX

/-! ## A revocation that returns -/

/-- The memory of an instance that will not read the file again agrees with the file, but for
entries that have expired; without a file no instance remembers anything. Failed writes can
break this. -/
structure Synced (st : SessionState) (s : Sessions) : Prop where
  missing : st.file = none → s.mem = .empty
  cut : ∀ f, st.file = some f → s.seen = .at f.stamp → s.mem.validAfter = f.content.validAfter
  fewer : ∀ f, st.file = some f → s.seen = .at f.stamp → ∀ key x,
    s.mem.revoked.get key = some x → f.content.revoked.get key = some x
  more : ∀ f, st.file = some f → s.seen = .at f.stamp → ∀ key x,
    f.content.revoked.get key = some x → x ≤ st.clock ∨ s.mem.revoked.get key = some x

theorem Synced.refreshed (h : Synced st (st.insts i)) (hs : Refreshed st i st.clock s) :
    Synced st s := by
  rcases hs with ⟨hMem, hOld | hNot⟩ | ⟨f, hFile, rfl⟩
  · refine ⟨fun hNone => hMem.trans (h.missing hNone), ?_, ?_, ?_⟩ <;> rw [hOld, hMem]
    · exact h.cut
    · exact h.fewer
    · exact h.more
  · exact ⟨fun hNone => hMem.trans (h.missing hNone), fun _ _ hAt => absurd hAt (hNot _),
      fun _ _ hAt => absurd hAt (hNot _), fun _ _ hAt => absurd hAt (hNot _)⟩
  · have hOnly : ∀ f', st.file = some f' → f' = f := by
      intro f' hf'
      exact Option.some.inj (hf'.symm.trans hFile)
    refine ⟨fun hNone => ?_, fun f' hf' _ => ?_, fun f' hf' _ key x hx => ?_,
      fun f' hf' _ key x hx => ?_⟩
    · rw [hFile] at hNone
      cases hNone
    · rw [hOnly f' hf']
      rfl
    · rw [hOnly f' hf']
      exact (get_filter.mp hx).1
    · rw [hOnly f' hf'] at hx
      by_cases hAlive : st.clock < x
      · exact Or.inr (get_filter.mpr ⟨hx, by simpa using hAlive⟩)
      · exact Or.inl (not_lt.mp hAlive)

theorem Synced.blocked (h : Synced st s) {f : Disk} (hFile : st.file = some f)
    (hSeen : s.seen = .at f.stamp) :
    Blocked k st.clock token p s.mem ↔ Blocked k st.clock token p f.content := by
  have hCut : s.mem.cuts (p.x - k.ttl) = f.content.cuts (p.x - k.ttl) := by
    rw [Revocations.cuts, Revocations.cuts, h.cut f hFile hSeen]
  constructor
  · rintro (hExpired | hCuts | hEntry)
    · exact Or.inl hExpired
    · exact Or.inr (Or.inl (hCut ▸ hCuts))
    · exact Or.inr (Or.inr (h.fewer f hFile hSeen _ _ hEntry))
  · rintro (hExpired | hCuts | hEntry)
    · exact Or.inl hExpired
    · exact Or.inr (Or.inl (hCut ▸ hCuts))
    · rcases h.more f hFile hSeen _ _ hEntry with hOld | hEntry
      · exact Or.inl hOld
      · exact Or.inr (Or.inr hEntry)

/-- Contents on which the token is refused in one view refuse it everywhere. -/
theorem dead_of_viewed (hSync : ∀ i, Synced st (st.insts i)) (hPast : p.x ≤ st.clock + k.ttl)
    (hViewed : Viewed st i st.clock r) (hBlocked : Blocked k st.clock token p r) :
    Dead k st token p := by
  have hFile : ∀ f ∈ st.file, Blocked k st.clock token p f.content := by
    intro f hf
    rcases hViewed with (⟨hNone, -⟩ | ⟨f', hf', rfl⟩) | ⟨f', hf', hSeen, rfl⟩
    · rw [hNone] at hf
      cases hf
    · cases hf'.symm.trans hf
      exact hBlocked.of_unexpired
    · cases hf'.symm.trans hf
      exact ((hSync i).blocked hf hSeen).mp hBlocked
  refine ⟨hPast, fun hNone => ?_, hFile, fun j f hf hSeen => ?_⟩
  · rcases hViewed with (⟨-, rfl⟩ | ⟨f', hf', -⟩) | ⟨f', hf', -⟩
    · rw [(hSync i).missing hNone] at hBlocked
      rcases hBlocked with hExpired | hCut | hEntry
      · exact hExpired
      · cases hCut
      · cases hEntry
    · rw [hNone] at hf'
      cases hf'
    · rw [hNone] at hf'
      cases hf'
  · exact ((hSync j).blocked hf hSeen).mpr (hFile f hf)

theorem Synced.clock (h : Synced st s) (hNow : st.clock ≤ now) :
    Synced { st with clock := now } s :=
  ⟨h.missing, h.cut, h.fewer, fun f hf hSeen key x hx =>
    (h.more f hf hSeen key x hx).imp_left fun hOld => hOld.trans hNow⟩

theorem synced_setInst (h : ∀ j, Synced st (st.insts j)) (hs : Synced st s) (j : Nat) :
    Synced (st.setInst i s) ((st.setInst i s).insts j) := by
  rw [SessionState.setInst]
  dsimp only
  rw [update_apply]
  split
  · exact ⟨hs.missing, hs.cut, hs.fewer, hs.more⟩
  · exact ⟨(h j).missing, (h j).cut, (h j).fewer, (h j).more⟩

/-- An instance that knows an older file is in step with any file under a new stamp. -/
theorem synced_stale {f : Disk} (hFile : st.file = some f) (hSeen : s.seen ≠ .at f.stamp) :
    Synced st s := by
  have hNot : ∀ f', st.file = some f' → s.seen ≠ .at f'.stamp := by
    intro f' hf'
    cases hFile.symm.trans hf'
    exact hSeen
  refine ⟨fun hNone => ?_, fun f' hf' hAt => absurd hAt (hNot f' hf'),
    fun f' hf' hAt => absurd hAt (hNot f' hf'), fun f' hf' hAt => absurd hAt (hNot f' hf')⟩
  rw [hFile] at hNone
  cases hNone

theorem synced_save (st : SessionState)
    (hStamps : ∀ i n, (st.insts i).seen = .at n → n < st.stamps)
    (hSeen : ∀ n, s.seen = .at n → n < st.stamps) (hIo : io = .done ∨ io = .unsynced) (j : Nat) :
    Synced (st.save i s io).1 ((st.save i s io).1.insts j) := by
  have hOther : ∀ j, (st.insts j).seen ≠ .at st.stamps := fun j hAt =>
    lt_irrefl _ (hStamps j _ hAt)
  rcases hIo with rfl | rfl
  · refine synced_stale (f := ⟨s.mem, st.stamps⟩) rfl ?_
    simp only [SessionState.save, SessionState.setInst, update_apply]
    split
    · exact fun hAt => nomatch hAt
    · exact hOther j
  · refine synced_stale (f := ⟨s.mem, st.stamps⟩) rfl ?_
    simp only [SessionState.save, SessionState.setInst, update_apply]
    split
    · exact fun hAt => lt_irrefl _ (hSeen _ hAt)
    · exact hOther j

theorem synced_revoke (h : ∀ j, Synced st (st.insts j)) (hGood : Good k tier st)
    (hMac : ∀ t, Revocations.isMac (k.mac t) = true) (i : Nat) (token : Text) (hIo : io ≠ .failed)
    (j : Nat) :
    Synced (st.revoke k tier i token st.clock io).1
      ((st.revoke k tier i token st.clock io).1.insts j) := by
  have hCases := revoke_cases hGood hMac i token st.clock io
  generalize st.revoke k tier i token st.clock io = result at hCases ⊢
  cases hCases with
  | kept _ hRefreshed => exact synced_setInst h ((h i).refreshed hRefreshed) j
  | @written s p' hInst _ _ _ _ _ hBusy =>
    rw [commit_eq]
    refine synced_save { st with overflow := overflowAfter st.overflow s.mem st.clock }
      (s := ⟨committed s.mem st.clock (tier.entry k token p'), s.seen⟩)
      (fun i => (hGood.insts i).seen) hInst.seen ?_ j
    cases io with
    | done => exact Or.inl rfl
    | unsynced => exact Or.inr rfl
    | busy => exact absurd rfl hBusy
    | failed => exact absurd rfl hIo

theorem synced_step (h : ∀ j, Synced st (st.insts j)) (hGood : Good k tier st)
    (hMac : ∀ t, Revocations.isMac (k.mac t) = true) (hClock : st.clock ≤ e.now)
    (hWrites : ∀ i token now, e ≠ .revoke i token now .failed) (j : Nat) :
    Synced (st.step k tier e).1 ((st.step k tier e).1.insts j) := by
  have hNow : ∀ j, Synced { st with clock := e.now } (st.insts j) := fun j => (h j).clock hClock
  have hGoodNow := hGood.clock hClock
  cases e with
  | start i now =>
    have hNew : Synced { st with clock := now } tier.fresh := by
      refine ⟨fun _ => ?_, fun f _ hAt => ?_, fun f _ hAt => ?_, fun f _ hAt => ?_⟩
      · cases tier <;> rfl
      · cases tier <;> cases hAt
      · cases tier <;> cases hAt
      · cases tier <;> cases hAt
    cases tier with
    | student => exact synced_setInst hNow hNew j
    | web a =>
      simp only [SessionState.step, SessionState.start]
      split
      · exact hNow j
      · rename_i s hReload
        have hReload : Tier.reload (.web a) st.file (Tier.web a).fresh now = some s := hReload
        rcases reload_cases hReload with ⟨rfl, -⟩ | ⟨f, hFile, rfl⟩
        · exact synced_setInst hNow hNew j
        · exact synced_setInst hNow ((hNow j).refreshed (Or.inr ⟨f, hFile, rfl⟩)) j
  | issue i email now nonce version =>
    simp only [SessionState.step]
    split <;> exact hNow j
  | detail i token' now =>
    have hRefreshed : Refreshed { st with clock := now } i now
        (tier.detail k st.file (st.insts i) token' now).1 := by
      rcases detail_spec tier k st.file (st.insts i) token' now with
        ⟨-, hEq⟩ | ⟨s', -, hReload, hFirst, -⟩
      · rw [hEq]
        exact Or.inl ⟨rfl, Or.inl rfl⟩
      · rw [hFirst]
        exact refreshed_of_reload { st with clock := now } rfl (Or.inl rfl) hReload
    have hInst := (hNow i).refreshed hRefreshed
    simp only [SessionState.step]
    cases hEq : tier.detail k st.file (st.insts i) token' now with
    | mk s answer =>
      rw [hEq] at hInst
      cases answer with
      | none => exact synced_setInst hNow hInst j
      | some answer => exact synced_setInst hNow hInst j
  | revoke i token' now io =>
    have hAsk : ∀ j, Synced { st with clock := now, asked := st.asked ++ [token'] }
        (st.insts j) := fun j => ⟨(hNow j).missing, (hNow j).cut, (hNow j).fewer, (hNow j).more⟩
    have hGoodAsk := hGoodNow.ask token'
    refine synced_revoke hAsk hGoodAsk hMac i token' (fun hIo => ?_) j
    exact hWrites i token' now (by rw [hIo])

theorem Viewed.sane (h : Good k tier st) (hViewed : Viewed st i now r) :
    Sane k st.asked st.overflow r := by
  rcases hViewed with (⟨-, rfl⟩ | ⟨f, hf, rfl⟩) | ⟨f, hf, -, rfl⟩
  · exact (h.insts i).mem
  · exact (h.file f hf).1.unexpired now
  · exact (h.insts i).mem

/-- After a revocation that returns, the token is refused everywhere. -/
theorem revoke_dead (st : SessionState) (hSync : ∀ j, Synced st (st.insts j))
    (hGood : Good k tier st) (hMac : ∀ t, Revocations.isMac (k.mac t) = true)
    (hOpens : k.opens token = some p) (hFits : tier.Fits p)
    (hShort : token ≠ [] ∧ token.length ≤ 2048) (hName : tier = .student → p.e ≠ [])
    (hPast : p.x ≤ st.clock + k.ttl) (hDistinct : ∀ t ∈ st.asked, Distinct k token t)
    (hReturned : (st.revoke k tier i token st.clock io).2 = .returned) :
    Dead k (st.revoke k tier i token st.clock io).1 token p := by
  have hCases := revoke_cases hGood hMac i token st.clock io
  generalize st.revoke k tier i token st.clock io = result at hCases hReturned ⊢
  cases hCases with
  | kept _ hRefreshed hWhy =>
    rcases hWhy hReturned with hEmpty | hLong | ⟨r, hViewed, hNone⟩
    · exact absurd hEmpty hShort.1
    · exact absurd hLong (not_lt.mpr hShort.2)
    have hBlocked : Blocked k st.clock token p r := by
      by_cases hAlive : st.clock < p.x
      · cases hCuts : r.cuts (p.x - k.ttl) with
        | true => exact Or.inr (Or.inl hCuts)
        | false =>
          cases hHas : r.revoked.has (k.mac token) with
          | false => exact absurd ⟨hOpens, hFits, hAlive, hPast, hCuts, hHas⟩ (hNone p)
          | true =>
            obtain ⟨x, hx⟩ := Option.isSome_iff_exists.mp hHas
            obtain ⟨⟨t, ht, hKey, p', hp', rfl⟩, -⟩ := (hViewed.sane hGood).entries _ _ hx
            cases hDistinct t ht hKey.symm
            cases hOpens.symm.trans hp'
            exact Or.inr (Or.inr hx)
      · exact Or.inl (not_lt.mp hAlive)
    exact (dead_of_viewed hSync hPast hViewed hBlocked).refreshed hRefreshed
  | @written s p' hInst hForced hOpens' hFits' hAlive hPast' hBusy =>
    cases hOpens.symm.trans hOpens'
    have hEntry : tier.entry k token p = some (k.mac token, p.x) := by
      cases tier with
      | web a => rfl
      | student => rw [Tier.entry, if_neg (hName rfl)]
    have hBlocked : Blocked k st.clock token p (committed s.mem st.clock (tier.entry k token p)) := by
      refine Or.inr (Or.inr ?_)
      rw [hEntry]
      simp [committed, Revocations.add]
    rw [commit_eq] at hReturned ⊢
    cases io with
    | done =>
      exact dead_written { st with overflow := overflowAfter st.overflow s.mem st.clock }
        (fun i => (hGood.insts i).seen) hPast hBlocked i .stale
    | _ => cases hReturned

/-- A cookie the tier does not take, or that is refused everywhere, is not accepted. -/
theorem detail_refused (tier : Tier) (hDead : Dead k st token p) (hOpens : k.opens token = some p) :
    (tier.detail k st.file (st.insts i) token st.clock).2 = none := by
  rcases detail_spec tier k st.file (st.insts i) token st.clock with
    ⟨-, hEq⟩ | ⟨s', -, hReload, -, hAnswer⟩
  · rw [hEq]
  · have hBlocked := hDead.viewed (viewed_of_reload hReload)
    cases hResult : (tier.detail k st.file (st.insts i) token st.clock).2 with
    | none => rfl
    | some answer =>
      obtain ⟨p', hp', -⟩ := (hAnswer answer.1 answer.2).mp hResult
      exact absurd hp' (hBlocked.not_passes hOpens p')

theorem detail_unfit (hOpens : k.opens token = some p)
    (hUnfit : ¬ (tier.Fits p ∧ token ≠ [] ∧ token.length ≤ 2048)) :
    (tier.detail k st.file (st.insts i) token now).2 = none := by
  rcases detail_spec tier k st.file (st.insts i) token now with
    ⟨-, hEq⟩ | ⟨s', hShort, -, -, hAnswer⟩
  · rw [hEq]
  · cases hResult : (tier.detail k st.file (st.insts i) token now).2 with
    | none => rfl
    | some answer =>
      obtain ⟨p', hp', -⟩ := (hAnswer answer.1 answer.2).mp hResult
      cases hOpens.symm.trans hp'.opens
      exact absurd ⟨hp'.fits, hShort⟩ hUnfit

/-- A cookie that fits, is alive, was issued after the last overflow and never given to
`revoke` is accepted. -/
theorem detail_accepted (hGood : Good k tier st) (hMac : ∀ t, Revocations.isMac (k.mac t) = true)
    (hOpens : k.opens token = some p) (hFits : tier.Fits p)
    (hShort : token ≠ [] ∧ token.length ≤ 2048) (hAlive : st.clock < p.x)
    (hPast : p.x ≤ st.clock + k.ttl) (hOverflow : ∀ o, st.overflow = some o → o < p.x - k.ttl)
    (hDistinct : ∀ t ∈ st.asked, Distinct k token t) (hNever : token ∉ st.asked) :
    (tier.detail k st.file (st.insts i) token st.clock).2 = some (p.e, p.x) := by
  obtain ⟨s, hReload, hInst⟩ := hGood.reload hMac (hGood.insts i) st.clock
  rcases detail_spec tier k st.file (st.insts i) token st.clock with
    ⟨(hBad | hNone), -⟩ | ⟨s', -, hReload', -, hAnswer⟩
  · rcases hBad with hEmpty | hLong
    · exact absurd hEmpty hShort.1
    · exact absurd hLong (not_lt.mpr hShort.2)
  · rw [hReload] at hNone
    cases hNone
  · cases hReload.symm.trans hReload'
    refine (hAnswer p.e p.x).mpr ⟨p, ⟨hOpens, hFits, hAlive, hPast, ?_, ?_⟩, rfl, rfl⟩
    · cases hCut : s.mem.validAfter with
      | none => rw [Revocations.cuts, hCut, Option.any_none]
      | some v =>
        obtain ⟨-, o, ho, hLe⟩ := hInst.mem.cut v hCut
        rw [Revocations.cuts, hCut, Option.any_some, decide_eq_false_iff_not, not_le]
        exact hLe.trans_lt (hOverflow o ho)
    · rw [← Bool.not_eq_true]
      intro hHas
      obtain ⟨x, hx⟩ := Option.isSome_iff_exists.mp hHas
      obtain ⟨⟨t, ht, hKey, -⟩, -⟩ := hInst.mem.entries _ _ hx
      exact hNever (hDistinct t ht hKey.symm ▸ ht)

/-! ## Issued cookies -/

/-- The text of a body is base64url and is read back. -/
structure Keyring.Writes (k : Keyring) (p : Payload) : Prop where
  decode : k.decode (k.encode p) = some p
  nonempty : k.encode p ≠ []
  base64url : (k.encode p).all Revocations.isBase64url = true

theorem dot_not_mem {t : Text} (h : t.all Revocations.isBase64url = true) : dot ∉ t := by
  intro hMem
  have hDot := all_eq_true.mp h dot hMem
  cases hDot

theorem opens_token (hMac : ∀ t, Revocations.isMac (k.mac t) = true) (hWrites : k.Writes p) :
    k.opens (k.token p) = some p := by
  have hSignature := hMac (k.encode p)
  rw [Revocations.isMac, Bool.and_eq_true, beq_iff_eq] at hSignature
  have hSplit : (k.token p).splitOn dot = [k.encode p, k.mac (k.encode p)] :=
    Text.splitOn_eq_pair.mpr
      ⟨rfl, dot_not_mem hWrites.base64url, dot_not_mem hSignature.2⟩
  have hNonempty : k.mac (k.encode p) ≠ [] := by
    intro hEmpty
    rw [hEmpty] at hSignature
    cases hSignature.1
  have hBody : k.signedBody (k.token p) = some (k.encode p) := by
    simp only [Keyring.signedBody, hSplit, if_true, List.isEmpty_iff, Bool.or_eq_true,
      hWrites.nonempty, hNonempty, or_self, if_false]
  exact opens_of hBody hWrites.decode

theorem payload_spec {email : Text} {nonce : Text} {version : Option Text}
    (h : k.payload tier email now nonce version = some p) :
    p.e = email ∧ p.x = now + k.ttl ∧
      ((tier ≠ .student → email ≠ [] ∧ email.length ≤ 254) → tier.Fits p) := by
  cases tier with
  | student =>
    cases h
    exact ⟨rfl, rfl, fun _ => trivial⟩
  | web a =>
    cases a with
    | none =>
      cases h
      refine ⟨rfl, rfl, fun hEmail => ?_⟩
      obtain ⟨hEmpty, hLength⟩ := hEmail (by simp)
      exact ⟨hEmpty, hLength, rfl⟩
    | some accountVersion =>
      simp only [Keyring.payload] at h
      split at h
      · cases h
      · rename_i v hv
        cases h
        refine ⟨rfl, rfl, fun hEmail => ?_⟩
        obtain ⟨hEmpty, hLength⟩ := hEmail (by simp)
        obtain ⟨hVersion, -⟩ := Option.filter_eq_some_iff.mp hv
        refine ⟨hEmpty, hLength, ?_⟩
        simp [versionRefused, hVersion]

/-! ## Runs -/

/-- Times do not go back, and they and the expiries are integers a number holds. -/
def Timely (k : Keyring) (st : SessionState) (e : SessionEvent) : Prop :=
  st.clock ≤ e.now ∧ Safe e.now ∧ Safe (e.now + k.ttl)

/-- The token an event names. -/
def SessionEvent.named (k : Keyring) (tier : Tier) : SessionEvent → Option Text
  | .start _ _ => none
  | .issue _ email now nonce version => k.issue tier email now nonce version
  | .detail _ token _ | .revoke _ token _ _ => some token

theorem revoke_frame (hGood : Good k tier st) (hMac : ∀ t, Revocations.isMac (k.mac t) = true)
    (i : Nat) (token : Text) (now : Int) (io : RevokeIo) :
    (st.revoke k tier i token now io).1.asked = st.asked ∧
      (st.revoke k tier i token now io).1.clock = st.clock := by
  have hCases := revoke_cases hGood hMac i token now io
  generalize st.revoke k tier i token now io = result at hCases ⊢
  cases hCases with
  | kept => exact ⟨rfl, rfl⟩
  | written =>
    rw [commit_eq]
    cases io <;> exact ⟨rfl, rfl⟩

theorem step_frame (hGood : Good k tier st) (hMac : ∀ t, Revocations.isMac (k.mac t) = true)
    (hClock : st.clock ≤ e.now) :
    (st.step k tier e).1.clock = e.now ∧
      ∀ t ∈ (st.step k tier e).1.asked, t ∈ st.asked ∨ ∃ i now io, e = .revoke i t now io := by
  cases e with
  | start i now =>
    cases tier with
    | student => exact ⟨rfl, fun t ht => Or.inl ht⟩
    | web a =>
      simp only [SessionState.step, SessionState.start]
      split <;> exact ⟨rfl, fun t ht => Or.inl ht⟩
  | issue i email now nonce version =>
    simp only [SessionState.step]
    split <;> exact ⟨rfl, fun t ht => Or.inl ht⟩
  | detail i token now =>
    simp only [SessionState.step]
    split <;> exact ⟨rfl, fun t ht => Or.inl ht⟩
  | revoke i token now io =>
    obtain ⟨hAsked, hSame⟩ := revoke_frame ((hGood.clock hClock).ask token) hMac i token now io
    refine ⟨hSame, fun t ht => ?_⟩
    simp only [SessionState.step] at ht
    simp only [SessionEvent.now] at hAsked ht
    rw [hAsked, mem_append, mem_singleton] at ht
    rcases ht with ht | rfl
    · exact Or.inl ht
    · exact Or.inr ⟨i, now, io, rfl⟩

/-- What a run at non-decreasing times leaves: everything in order, and nothing asked for
but what its calls of `revoke` name. -/
theorem good_after (hMac : ∀ t, Revocations.isMac (k.mac t) = true) (clock : Int)
    (hTimes : Guarded (fun st e => (st.step k tier e).1) (Timely k) (tier.init clock) es) :
    Good k tier (sessionsAfter k tier (tier.init clock) es) ∧
      ∀ t ∈ (sessionsAfter k tier (tier.init clock) es).asked,
        ∃ i now io, .revoke i t now io ∈ es := by
  have hBoth := hTimes.and (guarded_of_forall_mem (P := fun e => e ∈ es) fun _ he => he)
  refine run_invariant_guarded (fun st => Good k tier st ∧
    ∀ t ∈ st.asked, ∃ i now io, SessionEvent.revoke i t now io ∈ es) ?_
    ⟨good_init tier clock, fun t ht => (nomatch ht)⟩ hBoth
  rintro st e ⟨hGood, hAsked⟩ ⟨⟨hClock, hSafe, hLife⟩, hMem⟩
  refine ⟨good_step hGood hMac hClock hSafe hLife, fun t ht => ?_⟩
  rcases (step_frame hGood hMac hClock).2 t ht with ht | ⟨i, now, io, rfl⟩
  · exact hAsked t ht
  · exact ⟨i, now, io, hMem⟩

/-- While no write fails, every instance stays in step with the file. -/
theorem synced_after (hMac : ∀ t, Revocations.isMac (k.mac t) = true) (clock : Int)
    (hTimes : Guarded (fun st e => (st.step k tier e).1) (Timely k) (tier.init clock) es)
    (hWrites : ∀ i token now, .revoke i token now .failed ∉ es) (i : Nat) :
    Synced (sessionsAfter k tier (tier.init clock) es)
      ((sessionsAfter k tier (tier.init clock) es).insts i) := by
  have hBoth := hTimes.and (guarded_of_forall_mem (P := fun e => e ∈ es) fun _ he => he)
  have hInit : ∀ j, Synced (tier.init clock) ((tier.init clock).insts j) := by
    intro j
    refine ⟨fun _ => ?_, fun f hf => (nomatch hf), fun f hf => (nomatch hf),
      fun f hf => (nomatch hf)⟩
    cases tier <;> rfl
  refine (run_invariant_guarded (fun st => Good k tier st ∧ ∀ j, Synced st (st.insts j)) ?_
    ⟨good_init tier clock, hInit⟩ hBoth).2 i
  rintro st e ⟨hGood, hSync⟩ ⟨⟨hClock, hSafe, hLife⟩, hMem⟩
  refine ⟨good_step hGood hMac hClock hSafe hLife, fun j => ?_⟩
  exact synced_step hSync hGood hMac hClock (fun i token now hEq => hWrites i token now (hEq ▸ hMem)) j

/-- A token that is refused everywhere stays so. -/
theorem dead_after (hMac : ∀ t, Revocations.isMac (k.mac t) = true) (hGood : Good k tier st)
    (hDead : Dead k st token p) (hOpens : k.opens token = some p)
    (hTimes : Guarded (fun st e => (st.step k tier e).1) (Timely k) st es)
    (hDistinct : ∀ i t now io, .revoke i t now io ∈ es → Distinct k token t) :
    Good k tier (sessionsAfter k tier st es) ∧ Dead k (sessionsAfter k tier st es) token p := by
  have hBoth := hTimes.and (guarded_of_forall_mem (P := fun e => e ∈ es) fun _ he => he)
  refine run_invariant_guarded (fun st => Good k tier st ∧ Dead k st token p) ?_
    ⟨hGood, hDead⟩ hBoth
  rintro st e ⟨hGood, hDead⟩ ⟨⟨hClock, hSafe, hLife⟩, hMem⟩
  refine ⟨good_step hGood hMac hClock hSafe hLife,
    dead_step hDead hGood hMac hOpens hClock fun i t now io hEq => ?_⟩
  exact hDistinct i t now io (hEq ▸ hMem)

/-- The times of a run do not go back. -/
theorem now_le_clock (hMac : ∀ t, Revocations.isMac (k.mac t) = true) {es : List SessionEvent}
    (hGood : Good k tier st)
    (hTimes : Guarded (fun st e => (st.step k tier e).1) (Timely k) st es) :
    st.clock ≤ (sessionsAfter k tier st es).clock ∧
      ∀ e ∈ es, e.now ≤ (sessionsAfter k tier st es).clock := by
  induction es generalizing st with
  | nil => exact ⟨le_refl _, fun _ he => (nomatch he)⟩
  | cons e es ih =>
    obtain ⟨⟨hClock, hSafe, hLife⟩, hRest⟩ := hTimes
    obtain ⟨hFirst, hAll⟩ := ih (good_step hGood hMac hClock hSafe hLife) hRest
    rw [(step_frame hGood hMac hClock).1] at hFirst
    refine ⟨hClock.trans hFirst, fun e' he' => ?_⟩
    rcases mem_cons.mp he' with rfl | he'
    · exact hFirst
    · exact hAll e' he'

theorem sessionsAfter_append (es fs : List SessionEvent) :
    sessionsAfter k tier st (es ++ fs) = sessionsAfter k tier (sessionsAfter k tier st es) fs :=
  run_append _ _ _ _

theorem detail_outcome {i : Nat} :
    (st.step k tier (.detail i token now)).2 =
      match (tier.detail k st.file (st.insts i) token now).2 with
      | none => .refused
      | some (email, expiresAt) => .accepted email expiresAt := by
  simp only [SessionState.step, SessionEvent.now]
  cases tier.detail k st.file (st.insts i) token now with
  | mk s answer =>
    cases answer <;> rfl

section Runs

variable (k tier) (clock : Int) (es : List SessionEvent)

/-- What a run assumes: signatures and bodies are what they are documented to be, no two
tokens the calls name have one signature, and times do not go back. -/
structure Fair : Prop where
  mac : ∀ t, Revocations.isMac (k.mac t) = true
  writes : ∀ i email now nonce version p, .issue i email now nonce version ∈ es →
    k.payload tier email now nonce version = some p → k.Writes p
  distinct : ∀ e ∈ es, ∀ e' ∈ es, ∀ t ∈ e.named k tier, ∀ t' ∈ e'.named k tier,
    Distinct k t t'
  times : Guarded (fun st e => (st.step k tier e).1) (Timely k) (tier.init clock) es

variable {k tier clock es} {email nonce : Text} {i : Nat} {version : Option Text}

theorem Fair.pre (h : Fair k tier clock es) {pre : List SessionEvent} (hPre : pre <+: es) :
    Fair k tier clock pre := by
  obtain ⟨post, rfl⟩ := hPre
  exact ⟨h.mac, fun i email now nonce version p hMem =>
      h.writes i email now nonce version p (mem_append_left _ hMem),
    fun e he e' he' => h.distinct e (mem_append_left _ he) e' (mem_append_left _ he'),
    (guarded_append.mp h.times).1⟩

/-- An issued token opens to what was signed. -/
theorem Fair.opens (h : Fair k tier clock es) (hMem : .issue i email now nonce version ∈ es)
    (hIssue : k.issue tier email now nonce version = some token) :
    ∃ p, k.payload tier email now nonce version = some p ∧ k.opens token = some p := by
  rw [Keyring.issue, Option.map_eq_some_iff] at hIssue
  obtain ⟨p, hPayload, rfl⟩ := hIssue
  exact ⟨p, hPayload, opens_token h.mac (h.writes i email now nonce version p hMem hPayload)⟩

/-- After a revocation of an issued token has returned, no instance accepts it. -/
theorem Fair.revoked {pre mid : List SessionEvent} {i j i' : Nat} {now now' issued : Int}
    {email nonce : Text} {version : Option Text} {io : RevokeIo}
    (h : Fair k tier clock (pre ++ .revoke i token now io :: mid ++ [.detail j token now']))
    (hIssued : .issue i' email issued nonce version ∈ pre)
    (hIssue : k.issue tier email issued nonce version = some token)
    (hEmail : tier = .student → email ≠ [])
    (hWrites : ∀ i t n, .revoke i t n .failed ∉ pre)
    (hReturned : ((sessionsAfter k tier (tier.init clock) pre).step k tier
      (.revoke i token now io)).2 = .returned) :
    ((sessionsAfter k tier (tier.init clock) (pre ++ .revoke i token now io :: mid)).step k tier
      (.detail j token now')).2 = .refused := by
  obtain ⟨p, hPayload, hOpens⟩ := h.opens (i := i') (by simp [hIssued]) hIssue
  obtain ⟨hName, hExpiry, -⟩ := payload_spec hPayload
  rw [detail_outcome]
  by_cases hFits : tier.Fits p ∧ token ≠ [] ∧ token.length ≤ 2048
  swap
  · rw [detail_unfit hOpens hFits]
  obtain ⟨hFits, hShort⟩ := hFits
  have hBefore : Fair k tier clock pre := h.pre (by simp)
  obtain ⟨hGood, hAsked⟩ := good_after h.mac clock hBefore.times
  have hTimes := guarded_append.mp (guarded_append.mp h.times).1
  obtain ⟨⟨hClock, hSafe, hLife⟩, hMid⟩ := hTimes.2
  obtain ⟨⟨hLast, -⟩, -⟩ := (guarded_append.mp h.times).2
  -- The token was issued in the past.
  have hPast : p.x ≤ now + k.ttl := by
    have hOld := (now_le_clock h.mac (good_init tier clock) hBefore.times).2 _ hIssued
    have hOrder : issued ≤ now := hOld.trans hClock
    omega
  have hDistinct : ∀ t, (∃ n u o, .revoke n t u o ∈ pre ++ .revoke i token now io :: mid) →
      Distinct k token t := by
    rintro t ⟨n, u, o, hMem⟩
    exact h.distinct (.detail j token now') (by simp) (.revoke n t u o)
      (mem_append_left _ hMem) token rfl t rfl
  have hSync := synced_after h.mac clock hBefore.times hWrites
  have hDead := revoke_dead { sessionsAfter k tier (tier.init clock) pre with
      clock := now, asked := (sessionsAfter k tier (tier.init clock) pre).asked ++ [token] }
    (fun j => ⟨((hSync j).clock hClock).missing, ((hSync j).clock hClock).cut,
      ((hSync j).clock hClock).fewer, ((hSync j).clock hClock).more⟩)
    ((hGood.clock hClock).ask token) h.mac hOpens hFits hShort
    (fun hTier => hName ▸ hEmail hTier) hPast (fun t ht => ?_) hReturned
  swap
  · rcases mem_append.mp ht with ht | ht
    · obtain ⟨n, u, o, hMem⟩ := hAsked t ht
      exact hDistinct t ⟨n, u, o, mem_append_left _ hMem⟩
    · rw [mem_singleton] at ht
      rw [ht]
      exact fun _ => rfl
  have hGood' := good_step (e := .revoke i token now io) hGood h.mac hClock hSafe hLife
  obtain ⟨-, hDead'⟩ := dead_after h.mac hGood' hDead hOpens hMid
    fun n t u o hMem => hDistinct t ⟨n, u, o, by simp [hMem]⟩
  have hSplit : sessionsAfter k tier (tier.init clock) (pre ++ .revoke i token now io :: mid) =
      sessionsAfter k tier ((sessionsAfter k tier (tier.init clock) pre).step k tier
        (.revoke i token now io)).1 mid := sessionsAfter_append _ _
  rw [← hSplit] at hDead'
  have hRefused := detail_refused tier (i := j) (hDead'.clock hLast) hOpens
  exact (congrArg (fun answer => match answer with
    | none => SessionOutcome.refused
    | some (email, expiresAt) => .accepted email expiresAt) hRefused :)

/-- An issued token that is alive, never given to `revoke` and issued after the last overflow
is accepted, when it is one the tier takes at all. -/
theorem Fair.alive {pre mid : List SessionEvent} {i j : Nat} {now now' : Int} {email nonce : Text}
    {version : Option Text}
    (h : Fair k tier clock (pre ++ .issue i email now nonce version :: mid ++
      [.detail j token now']))
    (hIssue : k.issue tier email now nonce version = some token)
    (hEmail : tier ≠ .student → email ≠ [] ∧ email.length ≤ 254) (hLength : token.length ≤ 2048)
    (hNever : ∀ n u o, .revoke n token u o ∉ pre ++ .issue i email now nonce version :: mid)
    (hOverflow : ∀ o, (sessionsAfter k tier (tier.init clock)
      (pre ++ .issue i email now nonce version :: mid)).overflow = some o → o < now)
    (hAlive : now' < now + k.ttl) :
    ((sessionsAfter k tier (tier.init clock)
      (pre ++ .issue i email now nonce version :: mid)).step k tier (.detail j token now')).2 =
        .accepted email (now + k.ttl) := by
  obtain ⟨p, hPayload, hOpens⟩ := h.opens (i := i) (by simp) hIssue
  obtain ⟨hName, hExpiry, hFits⟩ := payload_spec hPayload
  have hNonempty : token ≠ [] := by
    rintro rfl
    rw [Keyring.issue, hPayload, Option.map_some, Option.some.injEq, Keyring.token] at hIssue
    simp at hIssue
  have hBefore : Fair k tier clock (pre ++ .issue i email now nonce version :: mid) :=
    h.pre (prefix_append _ _)
  obtain ⟨hGood, hAsked⟩ := good_after h.mac clock hBefore.times
  obtain ⟨⟨hLast, -⟩, -⟩ := (guarded_append.mp h.times).2
  have hIssued : now ≤ now' := by
    have hOld := (now_le_clock h.mac (good_init tier clock) hBefore.times).2
      (.issue i email now nonce version) (by simp)
    exact hOld.trans hLast
  have hAccepted := detail_accepted (i := j) (hGood.clock hLast) h.mac hOpens (hFits hEmail)
    ⟨hNonempty, hLength⟩ (by rw [hExpiry]; exact hAlive)
    (by rw [hExpiry]; exact Int.add_le_add_right hIssued _)
    (fun o ho => ?_) (fun t ht => ?_) (fun ht => ?_)
  · rw [detail_outcome]
    rw [hName, hExpiry] at hAccepted
    exact (congrArg (fun answer => match answer with
      | none => SessionOutcome.refused
      | some (email, expiresAt) => .accepted email expiresAt) hAccepted :)
  · rw [hExpiry, Int.add_sub_cancel]
    exact hOverflow o ho
  · obtain ⟨n, u, o, hMem⟩ := hAsked t ht
    exact h.distinct (.detail j token now') (by simp) (.revoke n t u o)
      (mem_append_left _ hMem) token rfl t rfl
  · obtain ⟨n, u, o, hMem⟩ := hAsked token ht
    exact hNever n u o hMem

end Runs

def base64Digit (n : Nat) : UInt16 :=
  UInt16.ofNat (if n < 26 then 65 + n else if n < 52 then 71 + n else if n < 62 then n - 4
    else if n = 62 then 45 else 95)

/-- base64url of bytes, without padding. -/
def base64url : Text → Text
  | a :: b :: c :: t =>
    let n := a.toNat * 65536 + b.toNat * 256 + c.toNat
    base64Digit (n / 262144) :: base64Digit (n / 4096 % 64) :: base64Digit (n / 64 % 64) ::
      base64Digit (n % 64) :: base64url t
  | [a, b] =>
    let n := a.toNat * 65536 + b.toNat * 256
    [base64Digit (n / 262144), base64Digit (n / 4096 % 64), base64Digit (n / 64 % 64)]
  | [a] => [base64Digit (a.toNat / 4), base64Digit (a.toNat * 16 % 64)]
  | [] => []

def noon : Int := 1700000000000

def zeroNonce : Text := List.replicate 22 65

/-- The body of a cookie issued at noon. -/
def cookie (email : Text) : Payload := ⟨email, noon + 1209600000, zeroNonce, none⟩

def ada : Text := js "ada@connect.hku.hk"

end TMEdge.Auth
