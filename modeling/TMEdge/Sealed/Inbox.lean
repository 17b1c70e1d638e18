import TMEdge.Library.JsMap
import TMEdge.Library.Run
import TMEdge.Sealed.Codec

/-!
# Tickets for sealed credentials

The model of `SealedInbox` (`algo/train/hpc/sealed.ts`). A key pair is the number of the
call that made it; the derivation of the key and AES-GCM together are a parameter, which
gives the plaintext or nothing.

* `Inv.step`: the table stays small, and every ticket in it was issued and not opened.
* `sealed_codec`: the codec and the tickets.
-/

namespace TMEdge.Sealed

open Library List JsMap

/-- `TTL_MS`. -/
def ttlMs : ℚ := 180000

def maxTicketsPerUser : Nat := 4

def maxTickets : Nat := 256

structure Ticket where
  ecdh : Nat
  user : Text
  expires : ℚ
  deriving DecidableEq

abbrev Tickets := JsMap Text Ticket

/-- What the caller sends: the fields of the object, `none` where one is no string. -/
structure SealedBody where
  kid : Option Text
  epk : Option Text
  iv : Option Text
  ct : Option Text

/-- The agreed secret of a key pair and a public key, the key derived from it with a salt, and
decryption with an iv and additional data. -/
abbrev Decrypt := Nat → List UInt8 → Text → List UInt8 → Text → List UInt8 → Option (List UInt8)

def revoke (tickets : Tickets) (user : Text) : Tickets := tickets.filter fun t => t.user ≠ user

def sweep (tickets : Tickets) (now : ℚ) : Tickets := tickets.filter fun t => now < t.expires

/-- The ids of a user's tickets, the oldest first. -/
def mine (tickets : Tickets) (user : Text) : List Text :=
  (tickets.entries.filter fun e => e.2.user = user).map Prod.fst

/-- Delete the oldest until fewer than the most are left. -/
def evict : List Text → Tickets → Tickets
  | [], tickets => tickets
  | kid :: kids, tickets =>
    if maxTicketsPerUser ≤ (kid :: kids).length then evict kids (tickets.delete kid) else tickets

/-- `issue` with the id it draws; `now` is read before the sweep and again at the end. -/
def issue (tickets : Tickets) (user kid : Text) (ecdh : Nat) (swept now : ℚ) :
    Tickets × Option Ticket :=
  let tickets := sweep tickets swept
  let tickets := evict (mine tickets user) tickets
  if maxTickets ≤ tickets.size then (tickets, none)
  else
    let ticket : Ticket := ⟨ecdh, user, now + ttlMs⟩
    (tickets.set kid ticket, some ticket)

/-- A field of the object, decoded. -/
def field (v : Option Text) (max : Nat) : Except Text (List UInt8) :=
  match v with
  | none => .error (js "malformed sealed credentials")
  | some v =>
    if v.isEmpty || v.length > max then .error (js "malformed sealed credentials")
    else match unb64u v with
      | none => .error (js "malformed sealed credentials")
      | some bytes => .ok bytes

/-- `sealAad`, before its encoding as UTF-8. -/
def sealAad (kid user action : Text) (jobId : Option Text) : Text :=
  js "tmedge-hpc-credentials-v1|" ++ kid ++ js "|" ++ user ++ js "|" ++ action ++ js "|" ++
    jobId.getD (js "-")

/-- What happens once the ticket has been taken out. -/
def decryptSealed (decrypt : Decrypt) (ticket : Ticket) (s : SealedBody) (kid user action : Text)
    (jobId : Option Text) : Except Text Credentials := do
  let epk ← field s.epk 100
  let iv ← field s.iv 24
  let ct ← field s.ct 800
  if iv.length ≠ 12 || ct.length < 17 then throw (js "malformed sealed credentials")
  match decrypt ticket.ecdh epk kid iv (sealAad kid user action jobId) ct with
  | none =>
    throw (js "the sealed credentials did not open (expired form, or not meant for this action)")
  | some plain => credentials plain

/-- `open`; `none` stands for what is no object. -/
def openSealed (decrypt : Decrypt) (tickets : Tickets) (user : Text) (s : Option SealedBody)
    (action : Text) (jobId : Option Text) (now : ℚ) :
    Tickets × Except Text (Ticket × Credentials) :=
  match s with
  | none => (tickets, .error (js "expected sealed credentials"))
  | some s =>
    let kid := s.kid.getD []
    let left := tickets.delete kid
    match tickets.get kid with
    | none => (left, .error (js "the sign-in form expired; open it again"))
    | some ticket =>
      if ticket.user ≠ user || ticket.expires ≤ now then
        (left, .error (js "the sign-in form expired; open it again"))
      else (left, (decryptSealed decrypt ticket s kid user action jobId).map fun c => (ticket, c))

/-! ## Runs -/

inductive Event
  | issue (user kid : Text) (swept now : ℚ)
  | revoke (user : Text)
  | openSealed (user : Text) (s : Option SealedBody) (action : Text) (jobId : Option Text) (now : ℚ)

/-- A ticket that opened, for whom and when. -/
structure Opened where
  ticket : Ticket
  user : Text
  now : ℚ

/-- The table; the number of key pairs made, the tickets handed out, the tickets that opened. -/
structure World where
  tickets : Tickets
  keys : Nat
  issued : List Ticket
  opened : List Opened

def start : World := ⟨.empty, 0, [], []⟩

def step (decrypt : Decrypt) (w : World) : Event → World
  | .issue user kid swept now =>
    let (tickets, ticket) := issue w.tickets user kid w.keys swept now
    { w with tickets := tickets, keys := w.keys + 1, issued := w.issued ++ ticket.toList }
  | .revoke user => { w with tickets := revoke w.tickets user }
  | .openSealed user s action jobId now =>
    match openSealed decrypt w.tickets user s action jobId now with
    | (tickets, .ok (ticket, _)) =>
      { w with tickets := tickets, opened := w.opened ++ [⟨ticket, user, now⟩] }
    | (tickets, .error _) => { w with tickets := tickets }

def after (decrypt : Decrypt) (es : List Event) : World := run (step decrypt) start es

/-! ## The table -/

variable {tickets tickets' : Tickets} {user kid : Text} {w : World}

/-- Tickets that were in the table before, and no more of any kind. -/
structure Fewer (tickets' tickets : Tickets) : Prop where
  get : ∀ kid t, tickets'.get kid = some t → tickets.get kid = some t
  size : tickets'.size ≤ tickets.size
  count : ∀ user, tickets'.values.countP (·.user = user) ≤ tickets.values.countP (·.user = user)

theorem Fewer.refl (tickets : Tickets) : Fewer tickets tickets :=
  ⟨fun _ _ h => h, le_rfl, fun _ => le_rfl⟩

theorem Fewer.trans {tickets'' : Tickets} (h : Fewer tickets'' tickets')
    (h' : Fewer tickets' tickets) : Fewer tickets'' tickets :=
  ⟨fun kid t hGet => h'.get kid t (h.get kid t hGet), h.size.trans h'.size,
    fun user => (h.count user).trans (h'.count user)⟩

theorem fewer_filter (tickets : Tickets) (p : Ticket → Bool) :
    Fewer (tickets.filter p) tickets := by
  refine ⟨fun kid t hGet => ?_, length_filter_le _ _,
    fun user => countP_values_filter_le tickets p _⟩
  rw [JsMap.get_filter, Option.filter_eq_some_iff] at hGet
  exact hGet.1

theorem fewer_delete (tickets : Tickets) (kid : Text) : Fewer (tickets.delete kid) tickets := by
  refine ⟨fun kid' t hGet => ?_, length_filter_le _ _,
    fun user => countP_values_delete_le tickets kid _⟩
  rw [get_delete] at hGet
  split at hGet
  · cases hGet
  · exact hGet

theorem fewer_evict (kids : List Text) (tickets : Tickets) :
    Fewer (evict kids tickets) tickets := by
  induction kids generalizing tickets with
  | nil => exact .refl tickets
  | cons kid kids ih =>
    rw [evict]
    split
    · exact (ih _).trans (fewer_delete tickets kid)
    · exact .refl tickets

theorem mine_delete {kids : List Text} (h : mine tickets user = kid :: kids) :
    mine (tickets.delete kid) user = kids := by
  have hFilter : mine (tickets.delete kid) user = (mine tickets user).filter (· ≠ kid) := by
    rw [mine, mine, filter_map]
    change ((tickets.entries.filter _).filter _).map Prod.fst = _
    rw [filter_comm]
    rfl
  have hNodup : (mine tickets user).Nodup :=
    tickets.nodup.sublist (filter_sublist.map _)
  rw [h] at hNodup
  obtain ⟨hNew, -⟩ := nodup_cons.mp hNodup
  rw [hFilter, h, filter_cons_of_neg (by simp)]
  refine filter_eq_self.mpr fun k hk => ?_
  simpa using fun hEq : k = kid => hNew (hEq ▸ hk)

theorem length_mine (tickets : Tickets) (user : Text) :
    (mine tickets user).length = tickets.values.countP (·.user = user) := by
  rw [mine, length_map, JsMap.values, countP_map, countP_eq_length_filter]
  rfl

theorem mine_evict {kids : List Text} (h : mine tickets user = kids) :
    (mine (evict kids tickets) user).length < maxTicketsPerUser := by
  induction kids generalizing tickets with
  | nil =>
    rw [evict, h]
    decide
  | cons kid kids ih =>
    rw [evict]
    split
    · exact ih (mine_delete h)
    · rename_i hFew
      rw [h]
      exact not_le.mp hFew

/-! ## What every call keeps -/

structure Inv (w : World) : Prop where
  small : w.tickets.size ≤ maxTickets
  perUser : ∀ user, w.tickets.values.countP (·.user = user) ≤ maxTicketsPerUser
  known : ∀ kid t, w.tickets.get kid = some t → t ∈ w.issued
  apart : ∀ kid kid' t t', w.tickets.get kid = some t → w.tickets.get kid' = some t' →
    t.ecdh = t'.ecdh → kid = kid'
  fresh : ∀ t ∈ w.issued, t.ecdh < w.keys
  unopened : ∀ kid t, w.tickets.get kid = some t → ∀ o ∈ w.opened, o.ticket.ecdh ≠ t.ecdh
  opened : ∀ o ∈ w.opened, o.ticket ∈ w.issued ∧ o.user = o.ticket.user ∧ o.now < o.ticket.expires
  once : (w.opened.map (·.ticket.ecdh)).Nodup

theorem inv_start : Inv start := by
  refine ⟨Nat.zero_le _, fun _ => Nat.zero_le _, fun kid t h => ?_, fun kid kid' t t' h => ?_,
    nofun, nofun, nofun, .nil⟩
  · cases h
  · cases h

theorem Inv.fewer (h : Inv w) (hFewer : Fewer tickets w.tickets) :
    Inv { w with tickets := tickets } :=
  { h with
    small := hFewer.size.trans h.small
    perUser := fun user => (hFewer.count user).trans (h.perUser user)
    known := fun kid t hGet => h.known kid t (hFewer.get kid t hGet)
    apart := fun kid kid' t t' hGet hGet' =>
      h.apart kid kid' t t' (hFewer.get kid t hGet) (hFewer.get kid' t' hGet')
    unopened := fun kid t hGet => h.unopened kid t (hFewer.get kid t hGet) }

theorem Inv.set (h : Inv w) (hSize : w.tickets.size < maxTickets) {t : Ticket}
    (hUser : w.tickets.values.countP (·.user = t.user) < maxTicketsPerUser)
    (hKey : t.ecdh = w.keys) (kid : Text) :
    Inv { w with
      tickets := w.tickets.set kid t
      keys := w.keys + 1
      issued := w.issued ++ [t] } := by
  have hOld : ∀ {t'}, t' ∈ w.issued → t'.ecdh ≠ t.ecdh := fun ht' => by
    rw [hKey]
    exact (h.fresh _ ht').ne
  refine ⟨(size_set_le _ _ _).trans hSize, fun user => ?_, fun kid' t' hGet => ?_,
    fun kid₁ kid₂ t₁ t₂ h₁ h₂ hEq => ?_, fun t' ht' => ?_, fun kid' t' hGet o ho => ?_,
    fun o ho => ?_, h.once⟩
  · refine (countP_values_set_le _ _ _ _).trans ?_
    have hBefore := h.perUser user
    split
    · rename_i hEq
      rw [← of_decide_eq_true hEq]
      exact hUser
    · omega
  · dsimp only at hGet ⊢
    rw [get_set] at hGet
    split at hGet
    · cases hGet
      exact mem_append_right _ mem_cons_self
    · exact mem_append_left _ (h.known kid' t' hGet)
  · dsimp only at h₁ h₂
    rw [get_set] at h₁ h₂
    split at h₁
    · rename_i hKid₁
      cases h₁
      split at h₂
      · rename_i hKid₂
        rw [hKid₁, hKid₂]
      · exact absurd hEq.symm (hOld (h.known _ _ h₂))
    · split at h₂
      · cases h₂
        exact absurd hEq (hOld (h.known _ _ h₁))
      · exact h.apart _ _ _ _ h₁ h₂ hEq
  · rcases mem_append.mp ht' with ht' | ht'
    · exact Nat.lt_succ_of_lt (h.fresh t' ht')
    · rw [mem_singleton.mp ht', hKey]
      exact Nat.lt_succ_self _
  · dsimp only at hGet
    rw [get_set] at hGet
    split at hGet
    · cases hGet
      exact hOld (h.opened o ho).1
    · exact h.unopened kid' t' hGet o ho
  · obtain ⟨hIssued, hRest⟩ := h.opened o ho
    exact ⟨mem_append_left _ hIssued, hRest⟩

theorem Inv.issue (h : Inv w) (decrypt : Decrypt) (user kid : Text) (swept now : ℚ) :
    Inv (step decrypt w (.issue user kid swept now)) := by
  have hEvict := (fewer_evict (mine (sweep w.tickets swept) user) (sweep w.tickets swept)).trans
    (fewer_filter w.tickets _)
  have hMine := mine_evict (rfl : mine (sweep w.tickets swept) user = _)
  rw [length_mine] at hMine
  have hLeft := h.fewer hEvict
  unfold step Sealed.issue
  dsimp only
  split
  · exact { hLeft with
      known := fun kid t hGet => mem_append_left _ (hLeft.known kid t hGet)
      fresh := fun t ht => by
        rw [Option.toList_none, append_nil] at ht
        exact Nat.lt_succ_of_lt (hLeft.fresh t ht)
      opened := fun o ho =>
        ⟨mem_append_left _ (hLeft.opened o ho).1, (hLeft.opened o ho).2⟩ }
  · rename_i hRoom
    let ticket : Ticket := ⟨w.keys, user, now + ttlMs⟩
    exact hLeft.set (t := ticket) (not_le.mp hRoom) hMine rfl kid

theorem Inv.opens (h : Inv w) {ticket : Ticket} (hGet : w.tickets.get kid = some ticket) {now : ℚ}
    (hLive : now < ticket.expires) :
    Inv { w with
      tickets := w.tickets.delete kid
      opened := w.opened ++ [⟨ticket, ticket.user, now⟩] } := by
  have hLeft := h.fewer (fewer_delete w.tickets kid)
  refine { hLeft with
    unopened := fun kid' t hGet' o ho => ?_
    opened := fun o ho => ?_
    once := ?_ }
  · rcases mem_append.mp ho with ho | ho
    · exact hLeft.unopened kid' t hGet' o ho
    · rw [mem_singleton.mp ho]
      intro hEq
      have hIn := (fewer_delete w.tickets kid).get kid' t hGet'
      have hSame := h.apart _ _ _ _ hGet hIn hEq
      rw [get_delete, if_pos hSame.symm] at hGet'
      cases hGet'
  · rcases mem_append.mp ho with ho | ho
    · exact h.opened o ho
    · rw [mem_singleton.mp ho]
      exact ⟨h.known _ _ hGet, rfl, hLive⟩
  · rw [map_append]
    refine nodup_append.mpr ⟨h.once, nodup_singleton _, fun a ha b hb => ?_⟩
    obtain ⟨o, ho, rfl⟩ := mem_map.mp ha
    rw [mem_singleton.mp hb]
    exact h.unopened _ _ hGet o ho

theorem Inv.openSealed (h : Inv w) (decrypt : Decrypt) (user : Text) (s : Option SealedBody)
    (action : Text) (jobId : Option Text) (now : ℚ) :
    Inv (step decrypt w (.openSealed user s action jobId now)) := by
  unfold step Sealed.openSealed
  dsimp only
  cases s with
  | none => exact h
  | some s =>
    dsimp only
    have hLeft := h.fewer (fewer_delete w.tickets (s.kid.getD []))
    cases hGet : w.tickets.get (s.kid.getD []) with
    | none => exact hLeft
    | some ticket =>
      dsimp only
      by_cases hRefused : ticket.user ≠ user ∨ ticket.expires ≤ now
      · rw [if_pos (by simpa using hRefused)]
        exact hLeft
      · rw [if_neg (by simpa using hRefused)]
        rw [not_or, not_not, not_le] at hRefused
        obtain ⟨rfl, hLive⟩ := hRefused
        cases decryptSealed decrypt ticket s (s.kid.getD []) ticket.user action jobId with
        | error e => exact hLeft
        | ok c => exact h.opens hGet hLive

theorem Inv.step (h : Inv w) (decrypt : Decrypt) (e : Event) : Inv (step decrypt w e) := by
  cases e with
  | issue user kid swept now => exact h.issue decrypt user kid swept now
  | revoke user => exact h.fewer (fewer_filter w.tickets _)
  | openSealed user s action jobId now => exact h.openSealed decrypt user s action jobId now

theorem inv_after (decrypt : Decrypt) (es : List Event) : Inv (after decrypt es) :=
  run_invariant Inv (fun _ e h => h.step decrypt e) inv_start es

/-- What is encoded decodes to itself, the two sides of the packed form are inverse to each
other, and after any run of the inbox the table is small, no ticket has opened twice, and each
that opened was one handed out, opened for its user before it expired. -/
theorem sealed_codec :
    (∀ bytes, unb64u (b64u bytes) = some bytes) ∧
    (∀ pin otp password plain, packCredentials pin otp password = some plain →
      lineSafe pin = true → isDigits otp = true → lineSafe password = true →
      credentials plain = .ok ⟨pin, otp, if 0 < password.length then some password else none⟩) ∧
    (∀ plain c, credentials plain = .ok c → c.pin.length ≤ 128 →
      (c.password.getD []).length ≤ 128 →
      packCredentials c.pin c.otp (c.password.getD []) = some plain) ∧
    ∀ decrypt es, (after decrypt es).tickets.size ≤ maxTickets ∧
      (∀ user, (after decrypt es).tickets.values.countP (·.user = user) ≤ maxTicketsPerUser) ∧
      ((after decrypt es).opened.map (·.ticket.ecdh)).Nodup ∧
      ∀ o ∈ (after decrypt es).opened, o.ticket ∈ (after decrypt es).issued ∧
        o.user = o.ticket.user ∧ o.now < o.ticket.expires := by
  refine ⟨unb64u_b64u, fun pin otp password plain hPack => credentials_packCredentials hPack,
    fun plain c hOpen => packCredentials_of_credentials hOpen, fun decrypt es => ?_⟩
  have h := inv_after decrypt es
  exact ⟨h.small, h.perUser, h.once, h.opened⟩

/-- A PIN of four digits, a code of six and no password. -/
theorem sealed_codec_pin :
    credentials [1, 4, 49, 50, 51, 52, 6, 48, 49, 50, 51, 52, 53, 0] =
      .ok ⟨[49, 50, 51, 52], [48, 49, 50, 51, 52, 53], none⟩ :=
  sealed_codec.2.1 [49, 50, 51, 52] [48, 49, 50, 51, 52, 53] [] _ rfl (by decide) (by decide)
    (by decide)

end TMEdge.Sealed
