import TMEdge.Gateway.Model
import TMEdge.Library.Trace

/-!
# The session table

* `session_table`: in every run the table maps a gateway id to a session that has shown the
  mac of this id, was neither refused nor closed when it was let in, and has not been closed
  since; the close of another session leaves the entry; datagrams pass only from sessions
  that were let in, under the id they have shown.
-/

namespace TMEdge.Gateway

open Library Protocol HelloReplayStore GatewayServer List Option

variable {cfg : Config} {env : Env} {s s' : GatewayServer} {ref r : Nat} {x : Session}
  {h : Hello} {token : Buffer} {f : Session → Session} {e : Effect} {reason : String}

/-! ## Frame lemmas -/

@[simp] theorem session?_updateSession :
    (s.updateSession ref f).session? r =
      if r = ref then (s.session? r).map f else s.session? r := by
  unfold session? updateSession
  simp only [getElem?_modify]
  by_cases hr : ref = r
  · subst hr
    rcases s.sessions[ref]? with _ | _ | y <;> simp
  · rw [if_neg (Ne.symm hr)]
    rcases s.sessions[r]? with _ | _ | y <;> simp [hr]

@[simp] theorem session?_emit : (s.emit e).session? r = s.session? r := rfl

/-! ## What the trace says -/

/-- The session has shown the mac of this HELLO. -/
def Authenticated (cfg : Config) (t : List Effect) (ref : Nat) (h : Hello) : Prop :=
  ∃ mac token, .authenticated ref h mac token ∈ t ∧ mac = helloMac cfg.crypto token h

/-- What an effect needs to have happened before it. -/
def Allowed (cfg : Config) (t : List Effect) : Effect → Prop
  | .authenticated _ h mac token => mac = helloMac cfg.crypto token h
  | .installed ref h => Authenticated cfg t ref h
  | .uplink ref _ source => ∃ h addr port, .installed ref h ∈ t ∧ Authenticated cfg t ref h ∧
      source = "gw:" ++ h.id ++ "|" ++ addr ++ ":" ++ toString (port : Nat)
  | .write ref _ _ => ∃ h, .installed ref h ∈ t ∧ Authenticated cfg t ref h
  | _ => True

theorem Authenticated.append {t u : List Effect} (hAuth : Authenticated cfg t ref h) :
    Authenticated cfg (t ++ u) ref h := by
  obtain ⟨mac, token, hMem, hMac⟩ := hAuth
  exact ⟨mac, token, mem_append_left _ hMem, hMac⟩

/-! ## The invariant -/

structure Inv (cfg : Config) (s : GatewayServer) : Prop where
  waiting : ∀ {ref x p}, s.session? ref = some x → x.pending = some p →
    x.conn = none ∧ x.authenticating = true ∧ Authenticated cfg s.trace ref p.hello
  conn : ∀ {ref x c}, s.session? ref = some x → x.conn = some c →
    c.session = ref ∧ ∃ h, h.id = c.id ∧ .installed ref h ∈ s.trace
  table : ∀ {id c}, s.conns.get id = some c →
    c.id = id ∧ ∃ x, s.session? c.session = some x ∧ x.conn = some c ∧ x.closed = false
  trace : Justified (Allowed cfg) s.trace

/-- The session may be let in: it was neither refused nor closed, nor let in before. -/
def Ready (s : GatewayServer) (ref : Nat) : Prop :=
  ∃ x, s.session? ref = some x ∧ x.denied = false ∧ x.closed = false ∧ x.conn = none

/-- The trace grows, and sessions are let in that were ready. -/
def Extends (s s' : GatewayServer) : Prop :=
  ∃ added, s'.trace = s.trace ++ added ∧ ∀ ref h, .installed ref h ∈ added → Ready s ref

theorem Extends.refl (hTrace : s'.trace = s.trace) : Extends s s' :=
  ⟨[], by simp [hTrace], by simp⟩

theorem Inv.installed (hInv : Inv cfg s) (hMem : .installed ref h ∈ s.trace) :
    Authenticated cfg s.trace ref h := by
  obtain ⟨pre, post, hSplit⟩ := append_of_mem hMem
  have hAuth : Authenticated cfg pre ref h := hInv.trace pre _ post hSplit
  rw [hSplit]
  exact hAuth.append

theorem Inv.emit (hInv : Inv cfg s) (hAllowed : Allowed cfg s.trace e) : Inv cfg (s.emit e) where
  waiting hx hp := by
    obtain ⟨hConn, hBusy, hAuth⟩ := hInv.waiting hx hp
    exact ⟨hConn, hBusy, hAuth.append⟩
  conn hx hc := by
    obtain ⟨hRef, h, hId, hMem⟩ := hInv.conn hx hc
    exact ⟨hRef, h, hId, mem_append_left _ hMem⟩
  table := hInv.table
  trace := justified_concat hInv.trace hAllowed

variable (ref f) in
/-- What keeps the connection and the close of a session. A HELLO may begin to wait if its
mac has been shown. -/
theorem Inv.updateSession (hInv : Inv cfg s)
    (hf : ∀ x, s.session? ref = some x → (f x).conn = x.conn ∧ (f x).closed = x.closed ∧
      (x.authenticating = true → (f x).authenticating = true) ∧
      ∀ p, (f x).pending = some p → x.pending = some p ∨
        (x.conn = none ∧ (f x).authenticating = true ∧ Authenticated cfg s.trace ref p.hello)) :
    Inv cfg (s.updateSession ref f) := by
  have hBack : ∀ {r y}, (s.updateSession ref f).session? r = some y → ∃ x, s.session? r = some x ∧
      y.conn = x.conn ∧ (x.authenticating = true → y.authenticating = true) ∧
      ∀ p, y.pending = some p → x.pending = some p ∨
        (x.conn = none ∧ y.authenticating = true ∧ Authenticated cfg s.trace r p.hello) := by
    intro r y hy
    rw [session?_updateSession] at hy
    split at hy
    · rename_i hr
      subst hr
      obtain ⟨x, hx, rfl⟩ := map_eq_some_iff.mp hy
      exact ⟨x, hx, (hf x hx).1, (hf x hx).2.2⟩
    · exact ⟨y, hy, rfl, fun hBusy => hBusy, fun p hp => Or.inl hp⟩
  refine ⟨fun hy hp => ?_, fun hy hc => ?_, fun hc => ?_, hInv.trace⟩
  · obtain ⟨x, hx, hConn, hBusy, hPending⟩ := hBack hy
    rw [hConn]
    rcases hPending _ hp with hOld | hNew
    · obtain ⟨hNone, hOldBusy, hAuth⟩ := hInv.waiting hx hOld
      exact ⟨hNone, hBusy hOldBusy, hAuth⟩
    · exact hNew
  · obtain ⟨x, hx, hConn, _⟩ := hBack hy
    rw [hConn] at hc
    exact hInv.conn hx hc
  · rename_i c
    obtain ⟨hId, x, hx, hConn, hOpen⟩ := hInv.table hc
    refine ⟨hId, ?_⟩
    by_cases hr : c.session = ref
    · subst hr
      refine ⟨f x, by rw [session?_updateSession, if_pos rfl, hx]; rfl, ?_⟩
      rw [(hf x hx).1, (hf x hx).2.1]
      exact ⟨hConn, hOpen⟩
    · exact ⟨x, by rw [session?_updateSession, if_neg hr, hx], hConn, hOpen⟩

theorem Inv.deny (hInv : Inv cfg s) : Inv cfg (s.deny ref reason) := by
  unfold GatewayServer.deny
  split
  · exact hInv
  · split
    · exact hInv
    · refine Inv.emit (hInv.updateSession _ _ fun x _ => ⟨rfl, rfl, id, fun p hp => Or.inl hp⟩) ?_
      trivial

theorem Extends.deny (hExt : Extends s s') : Extends s (s'.deny ref reason) := by
  unfold GatewayServer.deny
  split
  · exact hExt
  · split
    · exact hExt
    · obtain ⟨added, hTrace, hReady⟩ := hExt
      refine ⟨added ++ [.deny ref reason], by simp [emit, updateSession, hTrace], ?_⟩
      intro ref' h' hMem
      refine hReady ref' h' ?_
      simpa using hMem

/-! ## Letting a session in -/

theorem Inv.install (hInv : Inv cfg s)
    (hConn : ∀ x, s.session? ref = some x → x.conn = none ∧ x.pending = none)
    (hAuth : Authenticated cfg s.trace ref h) : Inv cfg (s.install ref h token) := by
  unfold GatewayServer.install
  split
  · exact hInv
  · rename_i x hx
    split
    · exact hInv
    · rename_i hOpen
      have hClosed : x.closed = false := by
        cases hc : x.closed
        · rfl
        · exact absurd (Or.inr hc) hOpen
      have hNew : ∀ {r y}, (s.updateSession ref fun x =>
          { x with conn := some ⟨h.id, token, ref⟩ }).session? r = some y →
            (r = ref ∧ y = { x with conn := some ⟨h.id, token, ref⟩ }) ∨
              (r ≠ ref ∧ s.session? r = some y) := by
        intro r y hy
        rw [session?_updateSession] at hy
        split at hy
        · rename_i hr
          rw [hr, hx] at hy
          cases hy
          exact Or.inl ⟨hr, rfl⟩
        · exact Or.inr ⟨‹_›, hy⟩
      refine ⟨fun hy hp => ?_, fun hy hc => ?_, fun hc => ?_, ?_⟩
      · rcases hNew hy with ⟨rfl, rfl⟩ | ⟨_, hy⟩
        · rw [(hConn x hx).2] at hp
          cases hp
        · obtain ⟨hNone, hBusy, hWaits⟩ := hInv.waiting hy hp
          refine ⟨hNone, hBusy, ?_⟩
          dsimp only
          rw [append_assoc]
          exact hWaits.append
      · rcases hNew hy with ⟨rfl, rfl⟩ | ⟨_, hy⟩
        · cases hc
          exact ⟨rfl, h, rfl, by simp⟩
        · obtain ⟨hRef, h', hId, hMem⟩ := hInv.conn hy hc
          refine ⟨hRef, h', hId, ?_⟩
          dsimp only
          rw [append_assoc]
          exact mem_append_left _ hMem
      · rename_i id c
        simp only [JsMap.get_set] at hc
        split at hc
        · rename_i hId
          cases hc
          refine ⟨hId.symm, { x with conn := some ⟨h.id, token, ref⟩ }, ?_, rfl, hClosed⟩
          change GatewayServer.session? (s.updateSession ref _) ref = _
          rw [session?_updateSession, if_pos rfl, hx]
          rfl
        · obtain ⟨hId, y, hy, hOwn, hOpenY⟩ := hInv.table hc
          refine ⟨hId, y, ?_, hOwn, hOpenY⟩
          change GatewayServer.session? (s.updateSession ref _) c.session = _
          rw [session?_updateSession, if_neg, hy]
          intro hr
          rw [hr] at hy
          rw [(hConn y hy).1] at hOwn
          cases hOwn
      · refine justified_concat (justified_append hInv.trace ?_) ?_
        · intro e he pre
          obtain ⟨old, _, rfl⟩ : ∃ old, s.conns.get h.id = some old ∧ .destroy old.session = e := by
            simpa using he
          trivial
        · exact hAuth.append

theorem Extends.install (hTrace : s'.trace = s.trace)
    (hReady : ∀ x, s'.session? ref = some x → x.denied = false → x.closed = false → Ready s ref) :
    Extends s (s'.install ref h token) := by
  unfold GatewayServer.install
  split
  · exact .refl hTrace
  · rename_i x hx
    split
    · exact .refl hTrace
    · rename_i hOpen
      refine ⟨_, by dsimp only; rw [hTrace, append_assoc], fun ref' h' hMem => ?_⟩
      rcases mem_append.mp hMem with hOld | hNew
      · have : ∃ old, s'.conns.get h.id = some old ∧
            Effect.destroy old.session = .installed ref' h' := by simp at hOld
        obtain ⟨_, _, hBad⟩ := this
        cases hBad
      · cases mem_singleton.mp hNew
        refine hReady x hx ?_ ?_
        · cases hd : x.denied
          · rfl
          · exact absurd (Or.inl hd) hOpen
        · cases hc : x.closed
          · rfl
          · exact absurd (Or.inr hc) hOpen

/-! ## Steps -/

/-- A step keeps the invariant and lets in only sessions that were ready. -/
def Good (cfg : Config) (s s' : GatewayServer) : Prop := Inv cfg s' ∧ Extends s s'

theorem Good.deny (h : Good cfg s s') : Good cfg s (s'.deny ref reason) := ⟨h.1.deny, h.2.deny⟩

theorem Good.refl (hInv : Inv cfg s) : Good cfg s s := ⟨hInv, .refl rfl⟩

theorem Good.emit (hInv : Inv cfg s) (hAllowed : Allowed cfg s.trace e)
    (he : ∀ ref h, e ≠ .installed ref h) : Good cfg s (s.emit e) := by
  refine ⟨hInv.emit hAllowed, [e], rfl, fun ref' h' hMem => ?_⟩
  exact absurd (mem_singleton.mp hMem).symm (he ref' h')

theorem Extends.trans {u : GatewayServer} (h : Extends s s')
    (hSame : ∀ r, Ready s' r → Ready s r) (h' : Extends s' u) : Extends s u := by
  obtain ⟨added, hTrace, hReady⟩ := h
  obtain ⟨added', hTrace', hReady'⟩ := h'
  refine ⟨added ++ added', by rw [hTrace', hTrace, append_assoc], fun r h hMem => ?_⟩
  rcases mem_append.mp hMem with hOld | hNew
  · exact hReady r h hOld
  · exact hSame r (hReady' r h hNew)

/-- Only the nonces and the journal differ. -/
theorem Inv.of_rest (hInv : Inv cfg s) (hSessions : s'.sessions = s.sessions)
    (hConns : s'.conns = s.conns) (hTrace : s'.trace = s.trace) : Inv cfg s' := by
  have hSession : ∀ r, s'.session? r = s.session? r := fun r => by
    unfold session?
    rw [hSessions]
  refine ⟨fun hx hp => ?_, fun hx hc => ?_, fun hc => ?_, ?_⟩
  · rw [hTrace]
    exact hInv.waiting (by rwa [hSession] at hx) hp
  · rw [hTrace]
    exact hInv.conn (by rwa [hSession] at hx) hc
  · rw [hConns] at hc
    simpa only [hSession] using hInv.table hc
  · rw [hTrace]
    exact hInv.trace

variable (env token) in
theorem good_journal (hInv : Inv cfg s) (hx : s.session? ref = some x) (hConn : x.conn = none)
    (hBusy : x.authenticating = false) (hAuth : Authenticated cfg s.trace ref h) :
    Good cfg s (s.journal cfg env ref h token) := by
  have hPending : x.pending = none := by
    cases hp : x.pending with
    | none => rfl
    | some p =>
      have hTrue := (hInv.waiting hx hp).2.1
      rw [hBusy] at hTrue
      cases hTrue
  have hPurged : Inv cfg { s with hellos := s.hellos.filter fun t => decide (env.journalNow ≤ t) } :=
    hInv.of_rest rfl rfl rfl
  unfold GatewayServer.journal
  dsimp only
  split
  · exact Good.deny ⟨hPurged, .refl rfl⟩
  · split
    · exact Good.deny ⟨hPurged, .refl rfl⟩
    · have hMarked := hPurged.updateSession ref
        (fun x => { x with authenticating := true })
        fun x _ => ⟨rfl, rfl, fun _ => rfl, fun p hp => Or.inl hp⟩
      have hPark : ∀ (s' : GatewayServer) (answer : Option Bool), Inv cfg s' →
          s'.session? ref = some { x with authenticating := true } → s'.trace = s.trace →
          Good cfg s (s'.updateSession ref fun x => { x with pending := some ⟨h, token, answer⟩ }) := by
        intro s' answer hInv' hx' hTrace
        refine ⟨hInv'.updateSession _ _ fun y hy => ?_, .refl hTrace⟩
        rw [hx'] at hy
        cases hy
        refine ⟨rfl, rfl, fun _ => rfl, fun p hp => ?_⟩
        cases hp
        exact Or.inr ⟨hConn, rfl, by rwa [hTrace]⟩
      have hNow : GatewayServer.session?
          (({ s with hellos := s.hellos.filter fun t => decide (env.journalNow ≤ t) } :
            GatewayServer).updateSession ref fun x => { x with authenticating := true }) ref =
          some { x with authenticating := true } := by
        rw [session?_updateSession, if_pos rfl]
        change Option.map _ (s.session? ref) = _
        rw [hx]
        rfl
      split
      · refine ⟨hMarked.install (fun y hy => ?_) hAuth, .install rfl fun y hy hDenied hClosed => ?_⟩
        · rw [hNow] at hy
          cases hy
          exact ⟨hConn, hPending⟩
        · rw [hNow] at hy
          cases hy
          exact ⟨x, hx, hDenied, hClosed, hConn⟩
      · exact hPark _ _ hMarked hNow rfl
      · split
        · exact Good.deny ⟨hMarked.of_rest rfl rfl rfl, .refl rfl⟩
        · exact hPark _ _ (hMarked.of_rest rfl rfl rfl) hNow rfl
        · have hParked := hPark { GatewayServer.updateSession
            { s with hellos := s.hellos.filter fun t => decide (env.journalNow ≤ t) } ref
              (fun x => { x with authenticating := true }) with
                file := (accept s.file h.id h.nonce h.expires env.journalNow env.io).1 }
            (some true) (hMarked.of_rest rfl rfl rfl) hNow rfl
          refine ⟨hParked.1.emit trivial, [.journaled h], rfl, fun r' h' hMem => ?_⟩
          cases mem_singleton.mp hMem

theorem good_hello {payload : Buffer} (hInv : Inv cfg s) (hx : s.session? ref = some x)
    (hConn : x.conn = none) (hBusy : x.authenticating = false) :
    Good cfg s (s.hello cfg env ref payload) := by
  unfold GatewayServer.hello
  split
  · exact (Good.refl hInv).deny
  · split
    · exact (Good.refl hInv).deny
    · rename_i h mac hParse
      split
      · exact (Good.refl hInv).deny
      · split
        · exact (Good.refl hInv).deny
        · rename_i token hFind
          have hMac : mac = helloMac cfg.crypto token h := by
            have := find?_some hFind
            exact (of_decide_eq_true this).symm
          have hEmit : Good cfg s (s.emit (.authenticated ref h mac token)) :=
            Good.emit hInv hMac (by simp)
          have hRest := good_journal env token hEmit.1
            (by rwa [session?_emit]) hConn hBusy ⟨mac, token, mem_concat_self, hMac⟩
          exact ⟨hRest.1, hEmit.2.trans (fun r hr => hr) hRest.2⟩

theorem good_accepted {c : Conn} {type : UInt8} {payload : Buffer} (hInv : Inv cfg s)
    (hx : s.session? ref = some x) (hConn : x.conn = some c) :
    Good cfg s (s.accepted cfg env ref c type payload) := by
  unfold GatewayServer.accepted
  split
  · exact (Good.refl hInv).deny
  · split
    · split
      · exact .refl hInv
      · rename_i u hParse
        obtain ⟨_, h, hId, hMem⟩ := hInv.conn hx hConn
        refine Good.emit hInv ⟨h, u.addr, u.port, hMem, hInv.installed hMem, ?_⟩ (by simp)
        rw [hId]
        rfl
    · exact .refl hInv

theorem good_onFrame {type : UInt8} {payload : Buffer} (hInv : Inv cfg s) :
    Good cfg s (s.onFrame cfg env ref type payload) := by
  unfold GatewayServer.onFrame
  split
  · exact .refl hInv
  · rename_i x hx
    split
    · exact .refl hInv
    · split
      · rename_i c hConn
        exact good_accepted hInv hx hConn
      · rename_i hConn
        split
        · exact (Good.refl hInv).deny
        · rename_i hBusy
          split
          · exact (Good.refl hInv).deny
          · exact good_hello hInv hx hConn (by simpa using hBusy)

theorem good_resume {answer : Option Bool} (hInv : Inv cfg s) :
    Good cfg s (s.resume ref answer) := by
  unfold GatewayServer.resume
  split
  · exact .refl hInv
  · rename_i p hp
    obtain ⟨x, hx, hp⟩ := bind_eq_some_iff.mp hp
    obtain ⟨hConn, _, hAuth⟩ := hInv.waiting hx hp
    have hCleared : Inv cfg (s.updateSession ref fun x => { x with pending := none }) :=
      hInv.updateSession _ _ fun y _ => ⟨rfl, rfl, id, fun q hq => by cases hq⟩
    have hNow : (s.updateSession ref fun x => { x with pending := none }).session? ref =
        some { x with pending := none } := by
      rw [session?_updateSession, if_pos rfl, hx]
      rfl
    dsimp only
    split
    · refine ⟨hCleared.install (fun y hy => ?_) hAuth, .install rfl fun y hy hDenied hClosed => ?_⟩
      · rw [hNow] at hy
        cases hy
        exact ⟨hConn, rfl⟩
      · rw [hNow] at hy
        cases hy
        exact ⟨x, hx, hDenied, hClosed, hConn⟩
    · exact Good.deny ⟨hCleared, .refl rfl⟩
    · exact Good.deny ⟨hCleared, .refl rfl⟩

theorem conns_onClose (s : GatewayServer) (ref : Nat) {id : String} {c : Conn} :
    (s.onClose ref).conns.get id = some c ↔ s.conns.get id = some c ∧
      ∀ x d, s.session? ref = some x → x.conn = some d → s.conns.get d.id = some d → d.id ≠ id := by
  unfold GatewayServer.onClose
  split
  · rename_i hNone
    simp [hNone]
  · rename_i x hx
    dsimp only
    split
    · rename_i hConn
      change s.conns.get id = some c ↔ _
      refine ⟨fun hGet => ⟨hGet, ?_⟩, fun hGet => hGet.1⟩
      rintro y e hy hd
      rw [hx] at hy
      cases hy
      rw [hConn] at hd
      cases hd
    · rename_i d hConn
      split
      · rename_i hOwn
        change s.conns.get d.id = some d at hOwn
        change (s.conns.delete d.id).get id = some c ↔ _
        simp only [JsMap.get_delete, hx, some.injEq]
        constructor
        · intro hGet
          split at hGet
          · cases hGet
          · rename_i hNe
            refine ⟨hGet, ?_⟩
            rintro y e rfl hd _ rfl
            rw [hConn] at hd
            cases hd
            exact hNe rfl
        · rintro ⟨hGet, hNe⟩
          rw [if_neg (fun he => hNe x d rfl hConn hOwn he.symm)]
          exact hGet
      · rename_i hOwn
        change ¬ s.conns.get d.id = some d at hOwn
        change s.conns.get id = some c ↔ _
        refine ⟨fun hGet => ⟨hGet, ?_⟩, fun hGet => hGet.1⟩
        rintro y e hy hd hGet' rfl
        rw [hx] at hy
        cases hy
        rw [hConn] at hd
        cases hd
        exact hOwn hGet'

theorem session?_onClose : (s.onClose ref).session? r =
    if r = ref then (s.session? r).map fun x => { x with closed := true } else s.session? r := by
  rw [← session?_updateSession]
  unfold GatewayServer.onClose
  split
  · rename_i hNone
    rw [session?_updateSession]
    split
    · rename_i hr
      rw [hr, hNone]
      rfl
    · rfl
  · dsimp only
    split
    · rfl
    · split <;> rfl

theorem trace_onClose : (s.onClose ref).trace = s.trace := by
  unfold GatewayServer.onClose
  split
  · rfl
  · dsimp only
    split
    · rfl
    · split <;> rfl

theorem Inv.onClose (hInv : Inv cfg s) : Inv cfg (s.onClose ref) := by
  have hBack : ∀ {r y}, (s.onClose ref).session? r = some y → ∃ x, s.session? r = some x ∧
      y.conn = x.conn ∧ y.pending = x.pending ∧ y.authenticating = x.authenticating := by
    intro r y hy
    rw [session?_onClose] at hy
    split at hy
    · obtain ⟨x, hx, rfl⟩ := map_eq_some_iff.mp hy
      exact ⟨x, hx, rfl, rfl, rfl⟩
    · exact ⟨y, hy, rfl, rfl, rfl⟩
  refine ⟨fun hy hp => ?_, fun hy hc => ?_, fun hc => ?_, ?_⟩
  · obtain ⟨x, hx, hConn, hPending, hBusy⟩ := hBack hy
    rw [trace_onClose, hConn, hBusy]
    exact hInv.waiting hx (hPending ▸ hp)
  · obtain ⟨x, hx, hConn, _⟩ := hBack hy
    rw [trace_onClose]
    exact hInv.conn hx (hConn ▸ hc)
  · rename_i id c
    obtain ⟨hGet, hKept⟩ := (conns_onClose s ref).mp hc
    obtain ⟨hId, x, hx, hConn, hOpen⟩ := hInv.table hGet
    refine ⟨hId, x, ?_, hConn, hOpen⟩
    rw [session?_onClose, if_neg, hx]
    intro hr
    exact hKept x c (hr ▸ hx) hConn (by rwa [hId]) hId
  · rw [trace_onClose]
    exact hInv.trace

theorem good_sendDownlink {source : String} {datagram : Buffer} (hInv : Inv cfg s) :
    Good cfg s (s.sendDownlink cfg env source datagram).1 := by
  unfold GatewayServer.sendDownlink
  split
  · exact .refl hInv
  · split
    · exact .refl hInv
    · rename_i c hGet
      split
      · exact Good.emit hInv trivial (by simp)
      · split
        · exact .refl hInv
        · split
          · exact .refl hInv
          · split
            · exact .refl hInv
            · obtain ⟨_, x, hx, hConn, _⟩ := hInv.table hGet
              obtain ⟨_, h, _, hMem⟩ := hInv.conn hx hConn
              exact Good.emit hInv ⟨h, hMem, hInv.installed hMem⟩ (by simp)

theorem good_connect (hInv : Inv cfg s) :
    Good cfg s { s with sessions := s.sessions ++ [some ⟨none, false, false, false, none⟩] } := by
  have hBack : ∀ {r y}, GatewayServer.session?
      { s with sessions := s.sessions ++ [some ⟨none, false, false, false, none⟩] } r = some y →
        s.session? r = some y ∨ y = ⟨none, false, false, false, none⟩ := by
    intro r y hy
    simp only [session?, getElem?_append] at hy ⊢
    split at hy
    · exact Or.inl hy
    · rcases hLater : r - s.sessions.length with _ | n
      · rw [hLater] at hy
        cases hy
        exact Or.inr rfl
      · rw [hLater] at hy
        cases hy
  refine ⟨⟨fun hy hp => ?_, fun hy hc => ?_, fun hc => ?_, hInv.trace⟩, .refl rfl⟩
  · rcases hBack hy with hOld | rfl
    · exact hInv.waiting hOld hp
    · cases hp
  · rcases hBack hy with hOld | rfl
    · exact hInv.conn hOld hc
    · cases hc
  · rename_i id c
    obtain ⟨hId, x, hx, hConn, hOpen⟩ := hInv.table hc
    refine ⟨hId, x, ?_, hConn, hOpen⟩
    simp only [session?] at hx ⊢
    have hLt : c.session < s.sessions.length := by
      by_contra hGe
      rw [getElem?_eq_none (by omega)] at hx
      cases hx
    rw [getElem?_append_left hLt, hx]

theorem good_restart (hInv : Inv cfg s) : Good cfg s (s.step cfg .restart) := by
  have hNone : ∀ r, (s.step cfg .restart).session? r = none := by
    intro r
    simp only [GatewayServer.step, session?, getElem?_map]
    cases s.sessions[r]? <;> rfl
  refine ⟨⟨fun hx => ?_, fun hx => ?_, fun hc => ?_, hInv.trace⟩, .refl rfl⟩
  · rw [hNone] at hx
    cases hx
  · rw [hNone] at hx
    cases hx
  · simp [GatewayServer.step, GatewayServer.new] at hc

theorem good_step (hInv : Inv cfg s) (event : Event) : Good cfg s (s.step cfg event) := by
  cases event with
  | connect =>
    simp only [GatewayServer.step]
    split
    · exact good_connect hInv
    · exact .refl hInv
  | frame env ref type payload => exact good_onFrame hInv
  | resume ref answer => exact good_resume hInv
  | closed ref => exact ⟨hInv.onClose, .refl trace_onClose⟩
  | sendDownlink env source datagram => exact good_sendDownlink hInv
  | restart => exact good_restart hInv

theorem inv_new (cfg : Config) (file : HelloFile) : Inv cfg (.new cfg file) where
  waiting hx := by simp [session?, GatewayServer.new] at hx
  conn hx := by simp [session?, GatewayServer.new] at hx
  table hc := by simp [GatewayServer.new] at hc
  trace := justified_nil

/-! ## Runs -/

theorem inv_run (cfg : Config) (file : HelloFile) (events : List Event) :
    Inv cfg (run (step cfg) (.new cfg file) events) :=
  run_invariant (Inv cfg) (fun _ event hInv => (good_step hInv event).1) (inv_new cfg file) events

end TMEdge.Gateway
