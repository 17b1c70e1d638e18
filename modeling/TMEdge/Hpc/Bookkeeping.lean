import TMEdge.Hpc.Gateway

/-!
# Ports, places and links

* `Apart`: a session that comes into the map finds no other without a port and takes no open
  session's place, and no login goes on with a live link while its session is being closed.
* `Booked`: what is not closing is in the map; a port that is being chosen is free.
* `books_kept`: runs that keep sessions apart.
* `port_shared`: two people who choose a port at once.
-/

namespace TMEdge.Hpc

open Library List Option JsMap

/-! ## Definitions -/

def Arrival.isConnected : Arrival → Bool
  | .connected _ => true
  | _ => false

/-- Whose session comes into the map. -/
def Gateway.enters (cfg : GatewayConfig) (s : Gateway) : GatewayEvent → Option Text
  | .open_ user uid now =>
    if (s.lockedFor user uid now).2 ≤ 0 ∧ s.entry user = none ∧ s.sessions.size < cfg.maxSessions
    then some user else none
  | .resume n .closed _ _ =>
    match s.logins[n]? with
    | some c =>
      match c.stage with
      | .waiting closer =>
        if s.closedBy closer ∧ s.sessions.size < cfg.maxSessions then some c.user else none
      | _ => none
    | none => none
  | _ => none

/-- The session of a login that is under way is being closed, and still in the map. -/
def Gateway.interrupted (s : Gateway) (n : Nat) (c : Login) : Bool :=
  c.stage.underWay && c.state = .closing && s.sessions.get c.user = some n

def Apart (cfg : GatewayConfig) (s : Gateway) (e : GatewayEvent) : Prop :=
  (∀ user ∈ s.enters cfg e,
    (∀ d ∈ s.logins, d.stage.choosing = true → d.state = .closing) ∧
      ∀ x ∈ s.entry user, x.2.state = .closing) ∧
  match e with
  | .resume n arrival _ _ => ∀ c ∈ s.logins[n]?, s.interrupted n c = true →
      arrival.isConnected = false ∧ c.tunnel ≠ .live ∧ c.ssh ≠ .live
  | _ => True

instance (cfg : GatewayConfig) (s : Gateway) (e : GatewayEvent) : Decidable (Apart cfg s e) := by
  unfold Apart
  refine @instDecidableAnd _ _ inferInstance ?_
  split
  · infer_instance
  · infer_instance

/-- The session has been made, and is opening or up. -/
def Login.isOpen (c : Login) : Bool :=
  c.state ≠ .closing && !c.stage.isWaiting && c.stage ≠ .threw

structure BooksKept (cfg : GatewayConfig) (s : Gateway) : Prop where
  ports : ∀ (i j : Nat) c d, s.logins[i]? = some c → s.logins[j]? = some d →
    c.isOpen = true → d.isOpen = true → c.port ≠ 0 → c.port = d.port → i = j
  size : s.sessions.size ≤ cfg.maxSessions
  count : ∀ l : List Nat, l.Nodup → (∀ i ∈ l, ∃ c, s.logins[i]? = some c ∧ c.isOpen = true) →
    l.length ≤ cfg.maxSessions
  single : ∀ u v m n c d, s.sessions.get u = some m → s.sessions.get v = some n →
    s.logins[m]? = some c → s.logins[n]? = some d → c.user = d.user → m = n
  up : ∀ (i : Nat) c, s.logins[i]? = some c → c.state = .up → s.sessions.get c.user = some i
  threw : ∀ (i : Nat) c, s.logins[i]? = some c → c.stage = .threw →
    c.tunnel ≠ .live ∧ c.ssh ≠ .live

/-- The port is one no session that is not closing has. -/
def Free (logins : List Login) (p : Nat) : Prop :=
  p ≠ 0 ∧ ∀ (j : Nat) d, logins[j]? = some d → d.state ≠ .closing → d.port ≠ p

/-- A port that is being chosen: the snapshot of the ports still covers those in use. -/
def Chosen (logins : List Login) : OpenStage → Prop
  | .picking used p => p ∉ used ∧ ∀ q, q ∉ used → Free logins q
  | .picked p => Free logins p
  | _ => True

/-- What a close has done to the links of a session, or will do. -/
def Login.ClosedBy (c : Login) : ClosePhase → Prop
  | .ssh held => c.ssh = .live → held = true
  | .tunnel held => c.ssh ≠ .live ∧ (c.tunnel = .live → held = true)
  | .done => c.tunnel ≠ .live ∧ c.ssh ≠ .live

/-- The `catch` of a login waits for the close of its session. -/
def Cleaned (closers : List Closer) (i : Nat) (c : Login) : Option Nat → Prop
  | none => c.tunnel ≠ .live ∧ c.ssh ≠ .live
  | some k => ∃ closer, closers[k]? = some closer ∧ closer.session = i ∧ c.ClosedBy closer.phase

structure Fit (closers : List Closer) (i : Nat) (c : Login) : Prop where
  up : c.state = .up → c.stage = .returned
  ending : c.stage.ending = true → c.state = .closing
  portless : c.stage.isWaiting = true ∨ c.stage.choosing = true ∨ c.stage = .threw →
    c.state ≠ .closing → c.port = 0
  waiting : c.stage.isWaiting = true → c.tunnel ≠ .live ∧ c.ssh ≠ .live
  cleaning : ∀ closer, c.stage = .cleaning closer → Cleaned closers i c closer
  half : c.stage = .closingTunnel → c.ssh ≠ .live
  threw : c.stage = .threw → c.tunnel ≠ .live ∧ c.ssh ≠ .live

structure Booked (cfg : GatewayConfig) (s : Gateway) : Prop where
  fit : ∀ (i : Nat) c, s.logins[i]? = some c → Fit s.closers i c
  owner : ∀ user n, s.sessions.get user = some n → ∃ c, s.logins[n]? = some c ∧ c.user = user
  size : s.sessions.size ≤ cfg.maxSessions
  placed : ∀ (i : Nat) c, s.logins[i]? = some c → c.isOpen = true →
    s.sessions.get c.user = some i
  ports : ∀ (i j : Nat) c d, s.logins[i]? = some c → s.logins[j]? = some d →
    c.state ≠ .closing → d.state ≠ .closing → c.port ≠ 0 → c.port = d.port → i = j
  chosen : ∀ (i : Nat) c, s.logins[i]? = some c → c.state ≠ .closing → Chosen s.logins c.stage
  single : ∀ (i j : Nat) c d, s.logins[i]? = some c → s.logins[j]? = some d →
    c.state ≠ .closing → d.state ≠ .closing → c.stage.choosing = true →
    d.stage.choosing = true → i = j
  closing : ∀ k ∈ s.closers, ∃ c, s.logins[k.session]? = some c ∧ c.state = .closing

variable {cfg : GatewayConfig} {s t : Gateway} {n i : Nat} {c c' d : Login} {user uid : Text}
  {now : Int} {closers : List Closer} {logins : List Login} {stage : OpenStage}

theorem isOpen_iff :
    c.isOpen = true ↔ c.state ≠ .closing ∧ c.stage.isWaiting = false ∧ c.stage ≠ .threw := by
  simp [Login.isOpen, and_assoc]

/-! ## One login changes -/

/-- The other logins choose no port. -/
def Unchosen (logins : List Login) (n : Nat) : Prop :=
  ∀ (j : Nat) d, logins[j]? = some d → j ≠ n → d.stage.choosing = true → d.state = .closing

theorem Booked.unchosen (h : Booked cfg s) (hc : s.logins[n]? = some c)
    (hState : c.state ≠ .closing) (hChoosing : c.stage.choosing = true) : Unchosen s.logins n := by
  intro j d hd hj hChoosing'
  by_contra hOpen
  exact hj (h.single j n d c hd hc hOpen hState hChoosing' hChoosing)

theorem Free.set {p : Nat} (h : Free logins p) (hc : logins[n]? = some c)
    (hPort : c'.state ≠ .closing → c'.port ≠ p) : Free (logins.set n c') p := by
  refine ⟨h.1, fun j d hd hOpen => ?_⟩
  rw [getElem?_set_of_some hc] at hd
  split at hd
  · obtain rfl := some.inj hd
    exact hPort hOpen
  · exact h.2 j d hd hOpen

theorem Chosen.set {stage : OpenStage} (h : Chosen logins stage) (hc : logins[n]? = some c)
    (hPort : ∀ p, Free logins p → c'.state ≠ .closing → c'.port ≠ p) :
    Chosen (logins.set n c') stage := by
  cases stage with
  | picking used p => exact ⟨h.1, fun q hq => (h.2 q hq).set hc (hPort q (h.2 q hq))⟩
  | picked p => exact Free.set h hc (hPort p h)
  | _ => trivial

theorem chosen_of_not_choosing (h : stage.choosing = false) : Chosen logins stage := by
  cases stage with
  | picking used p => exact nomatch h
  | picked p => exact nomatch h
  | _ => trivial

/-- What a login may change into. -/
structure Change (s : Gateway) (n : Nat) (c c' : Login) : Prop where
  user : c'.user = c.user
  fit : Fit s.closers n c'
  state : c.state = .closing → c'.state = .closing
  placed : c'.isOpen = true → s.sessions.get c.user = some n
  port : c'.state ≠ .closing → c'.port = c.port ∨ Free s.logins c'.port ∧ Unchosen s.logins n
  chosen : c'.state ≠ .closing → c'.stage.choosing = true →
    Chosen s.logins c'.stage ∧ c'.port = 0 ∧ Unchosen s.logins n

theorem Booked.set (h : Booked cfg s) (hc : s.logins[n]? = some c) (hChange : Change s n c c') :
    Booked cfg (s.setLogin n c') := by
  obtain ⟨hUser, hFit, hState, hPlaced, hPort, hChosen⟩ := hChange
  have hGet := Gateway.setLogin_get hc c'
  have hOpen : c'.state ≠ .closing → c.state ≠ .closing := fun h hc => h (hState hc)
  have hOther : ∀ j d, s.logins[j]? = some d → j ≠ n → d.state ≠ .closing →
      c'.state ≠ .closing → d.port ≠ 0 → d.port ≠ c'.port := by
    intro j d hd hj hOpen' hState' hZero hEq
    rcases hPort hState' with hSame | ⟨hFree, -⟩
    · exact hj (h.ports j n d c hd hc hOpen' (hOpen hState') hZero (hEq.trans hSame))
    · exact hFree.2 j d hd hOpen' hEq
  refine ⟨fun i d hd => ?_, fun user m hm => ?_, h.size, fun i d hd hIs => ?_,
    fun i j d e hd he hOpenD hOpenE hZero hEq => ?_, fun i d hd hOpenD => ?_,
    fun i j d e hd he hOpenD hOpenE hD hE => ?_, fun k hk => ?_⟩
  · rw [hGet] at hd
    split at hd
    · rename_i hi
      obtain rfl := some.inj hd
      exact hi ▸ hFit
    · exact h.fit i d hd
  · obtain ⟨d, hd, hOwner⟩ := h.owner user m hm
    rw [hGet]
    split
    · rename_i hm
      obtain rfl := some.inj (hc.symm.trans (hm ▸ hd))
      exact ⟨c', rfl, hUser.trans hOwner⟩
    · exact ⟨d, hd, hOwner⟩
  · rw [hGet] at hd
    split at hd
    · rename_i hi
      obtain rfl := some.inj hd
      rw [hi, hUser]
      exact hPlaced hIs
    · exact h.placed i d hd hIs
  · rw [hGet] at hd he
    split at hd
    · rename_i hi
      obtain rfl := some.inj hd
      split at he
      · rename_i hj
        exact hi.trans hj.symm
      · rename_i hj
        exact absurd hEq.symm (hOther j e he hj hOpenE hOpenD (hEq ▸ hZero))
    · rename_i hi
      split at he
      · obtain rfl := some.inj he
        exact absurd hEq (hOther i d hd hi hOpenD hOpenE hZero)
      · exact h.ports i j d e hd he hOpenD hOpenE hZero hEq
  · rw [hGet] at hd
    split at hd
    · obtain rfl := some.inj hd
      rcases hChoosing : c'.stage.choosing
      · exact chosen_of_not_choosing hChoosing
      · obtain ⟨hOwn, hZero, -⟩ := hChosen hOpenD hChoosing
        exact hOwn.set hc fun p hp _ => hZero ▸ hp.1.symm
    · rename_i hi
      rcases hChoosing : d.stage.choosing
      · exact chosen_of_not_choosing hChoosing
      · refine (h.chosen i d hd hOpenD).set hc fun p hp hState' => ?_
        rcases hPort hState' with hSame | ⟨-, hNone⟩
        · exact hSame ▸ hp.2 n c hc (hOpen hState')
        · exact absurd (hNone i d hd hi hChoosing) hOpenD
  · rw [hGet] at hd he
    split at hd
    · rename_i hi
      obtain rfl := some.inj hd
      split at he
      · rename_i hj
        exact hi.trans hj.symm
      · rename_i hj
        exact absurd ((hChosen hOpenD hD).2.2 j e he hj hE) hOpenE
    · rename_i hi
      split at he
      · obtain rfl := some.inj he
        exact absurd ((hChosen hOpenE hE).2.2 i d hd hi hD) hOpenD
      · exact h.single i j d e hd he hOpenD hOpenE hD hE
  · obtain ⟨d, hd, hClosing⟩ := h.closing k hk
    rw [hGet]
    split
    · rename_i hk'
      obtain rfl := some.inj (hc.symm.trans (hk' ▸ hd))
      exact ⟨c', rfl, hState hClosing⟩
    · exact ⟨d, hd, hClosing⟩

/-! ## Links -/

theorem Link.close_ne_live (link : Link) : link.close ≠ .live := by
  cases link <;> decide

theorem Login.ClosedBy.fewer {phase : ClosePhase} (h : c.ClosedBy phase)
    (hSsh : d.ssh = .live → c.ssh = .live) (hTunnel : d.tunnel = .live → c.tunnel = .live) :
    d.ClosedBy phase := by
  cases phase with
  | ssh held => exact fun hLive => h (hSsh hLive)
  | tunnel held => exact ⟨fun hLive => h.1 (hSsh hLive), fun hLive => h.2 (hTunnel hLive)⟩
  | done => exact ⟨fun hLive => h.1 (hTunnel hLive), fun hLive => h.2 (hSsh hLive)⟩

theorem Cleaned.fewer {closer : Option Nat} (h : Cleaned closers n c closer)
    (hSsh : d.ssh = .live → c.ssh = .live) (hTunnel : d.tunnel = .live → c.tunnel = .live) :
    Cleaned closers n d closer := by
  cases closer with
  | none => exact ⟨fun hLive => h.1 (hTunnel hLive), fun hLive => h.2 (hSsh hLive)⟩
  | some k =>
    obtain ⟨closer, hk, hSession, hClosed⟩ := h
    exact ⟨closer, hk, hSession, hClosed.fewer hSsh hTunnel⟩

/-- A link closes, or the session. -/
theorem Fit.fewer (h : Fit closers n c) (hStage : d.stage = c.stage) (hPort : d.port = c.port)
    (hState : d.state = c.state ∨ d.state = .closing) (hSsh : d.ssh = .live → c.ssh = .live)
    (hTunnel : d.tunnel = .live → c.tunnel = .live) : Fit closers n d := by
  have hLinks : c.tunnel ≠ .live ∧ c.ssh ≠ .live → d.tunnel ≠ .live ∧ d.ssh ≠ .live := fun h =>
    ⟨fun hLive => h.1 (hTunnel hLive), fun hLive => h.2 (hSsh hLive)⟩
  constructor
  · intro hUp
    rcases hState with hState | hState
    · exact hStage.trans (h.up (hState.symm.trans hUp))
    · rw [hState] at hUp
      exact nomatch hUp
  · intro hEnding
    rcases hState with hState | hState
    · exact hState.trans (h.ending (hStage ▸ hEnding))
    · exact hState
  · intro hNew hOpen
    rcases hState with hState | hState
    · exact hPort.trans (h.portless (hStage ▸ hNew) (hState ▸ hOpen))
    · exact absurd hState hOpen
  · exact fun hWaiting => hLinks (h.waiting (hStage ▸ hWaiting))
  · exact fun closer hCleaning => (h.cleaning closer (hStage ▸ hCleaning)).fewer hSsh hTunnel
  · exact fun hHalf hLive => h.half (hStage ▸ hHalf) (hSsh hLive)
  · exact fun hThrew => hLinks (h.threw (hStage ▸ hThrew))

theorem ending_eq_false (h : stage.underWay = true) : stage.ending = false := by
  cases stage <;> simp_all [OpenStage.underWay, OpenStage.ending]

theorem isWaiting_eq_false (h : stage.ending = true) : stage.isWaiting = false := by
  cases stage <;> simp_all [OpenStage.isWaiting, OpenStage.ending]

/-- A login that goes on and has its port. -/
theorem fit_plain (hWay : c.stage.underWay = true) (hWaiting : c.stage.isWaiting = false)
    (hChoosing : c.stage.choosing = false) (hState : c.state ≠ .up) : Fit closers n c := by
  refine ⟨fun hUp => absurd hUp hState, fun hEnding => ?_, fun hNew => ?_, fun h => ?_,
    fun closer h => ?_, fun h => ?_, fun h => ?_⟩
  · rw [ending_eq_false hWay] at hEnding
    exact nomatch hEnding
  · rcases hNew with h | h | h
    · rw [hWaiting] at h
      exact nomatch h
    · rw [hChoosing] at h
      exact nomatch h
    · rw [h] at hWay
      exact nomatch hWay
  · rw [hWaiting] at h
    exact nomatch h
  · rw [h] at hWay
    exact nomatch hWay
  · rw [h] at hWay
    exact nomatch hWay
  · rw [h] at hWay
    exact nomatch hWay

/-- A login in its `catch`. -/
theorem fit_ending (hState : c.state = .closing) (hEnding : c.stage.ending = true)
    (hCleaning : ∀ closer, c.stage = .cleaning closer → Cleaned closers n c closer)
    (hHalf : c.stage = .closingTunnel → c.ssh ≠ .live) : Fit closers n c := by
  refine ⟨fun hUp => ?_, fun _ => hState, fun _ hOpen => absurd hState hOpen, fun h => ?_,
    hCleaning, hHalf, fun h => ?_⟩
  · rw [hState] at hUp
    exact nomatch hUp
  · rw [isWaiting_eq_false hEnding] at h
    exact nomatch h
  · rw [h] at hEnding
    exact nomatch hEnding

theorem change_closing (hFit : Fit s.closers n c') (hUser : c'.user = c.user)
    (hState : c'.state = .closing) : Change s n c c' where
  user := hUser
  fit := hFit
  state _ := hState
  placed hIs := absurd hState (isOpen_iff.mp hIs).1
  port hOpen := absurd hState hOpen
  chosen hOpen := absurd hState hOpen

/-- A login goes on to a stage in which it has its port. -/
theorem change_plain (h : Booked cfg s) (hc : s.logins[n]? = some c)
    (hWay : c.stage.underWay = true) (hWaiting : c.stage.isWaiting = false)
    (hUser : c'.user = c.user) (hState : c'.state = c.state) (hPort : c'.port = c.port)
    (hWay' : c'.stage.underWay = true) (hWaiting' : c'.stage.isWaiting = false)
    (hChoosing' : c'.stage.choosing = false) : Change s n c c' where
  user := hUser
  fit := fit_plain hWay' hWaiting' hChoosing' fun hUp => by
    rw [(h.fit n c hc).up (hState.symm.trans hUp)] at hWay
    exact nomatch hWay
  state hClosing := hState.trans hClosing
  placed hIs := h.placed n c hc (isOpen_iff.mpr ⟨hState ▸ (isOpen_iff.mp hIs).1, hWaiting,
    fun hThrew => by rw [hThrew] at hWay; exact nomatch hWay⟩)
  port _ := .inl hPort
  chosen _ h := by
    rw [hChoosing'] at h
    exact nomatch h

/-! ## Closing a session -/

theorem Fit.append (h : Fit closers n c) (closer : Closer) : Fit (closers ++ [closer]) n c where
  up := h.up
  ending := h.ending
  portless := h.portless
  waiting := h.waiting
  cleaning k hStage := by
    cases k with
    | none => exact h.cleaning none hStage
    | some k =>
      obtain ⟨closer', hk, hRest⟩ := h.cleaning (some k) hStage
      obtain ⟨hLt, -⟩ := List.getElem?_eq_some_iff.mp hk
      exact ⟨closer', (getElem?_append_left hLt).trans hk, hRest⟩
  half := h.half
  threw := h.threw

theorem Booked.addCloser (h : Booked cfg s) (hc : s.logins[n]? = some c)
    (hState : c.state = .closing) (phase : ClosePhase) :
    Booked cfg { s with closers := s.closers ++ [⟨n, phase⟩] } := by
  refine ⟨fun i d hd => (h.fit i d hd).append _, h.owner, h.size, h.placed, h.ports, h.chosen,
    h.single, fun k hk => ?_⟩
  rcases mem_append.mp hk with hk | hk
  · exact h.closing k hk
  · obtain rfl := mem_singleton.mp hk
    exact ⟨c, hc, hState⟩

theorem Booked.toClosing (h : Booked cfg s) (hc : s.logins[n]? = some c) (phase : ClosePhase) :
    Booked cfg { s.setLogin n { c with state := .closing } with
      closers := s.closers ++ [⟨n, phase⟩] } :=
  (h.set hc (change_closing ((h.fit n c hc).fewer rfl rfl (.inr rfl) id id) rfl rfl :
    Change s n c { c with state := .closing })).addCloser
    (Gateway.setLogin_get_self hc _) rfl phase

theorem Booked.close (h : Booked cfg s) (user : Text) (expected : Option Nat) :
    Booked cfg (s.close user expected).1 := by
  rcases s.close_cases user expected with hClose | ⟨n, c, -, hc, -, hClose⟩
  · rw [hClose]; exact h
  · rw [hClose]; exact h.toClosing hc _

theorem Booked.catch_ (h : Booked cfg s) (hc : s.logins[n]? = some c) (hUser : c'.user = c.user)
    (hState : c'.state = c.state) (hWay : c.stage.underWay = true)
    (hWaiting : c.stage.isWaiting = false)
    (hLinks : s.interrupted n c = true → c'.tunnel ≠ .live ∧ c'.ssh ≠ .live) :
    Booked cfg ((s.setLogin n c').catch_ n c') := by
  rcases Gateway.catch_cases hc hUser with
    ⟨-, -, hCatch⟩ | ⟨hGet, hClosing, hCatch⟩ | ⟨hGet, hCatch⟩
  · -- the links are closed by the close that has begun
    set d : Login := { c' with state := .closing, stage := .cleaning (some s.closers.length) }
    have hClose := h.toClosing hc (.ssh (c'.ssh ≠ .absent))
    have hd : (s.closers ++ [⟨n, .ssh (c'.ssh ≠ .absent)⟩])[s.closers.length]? =
        some (⟨n, .ssh (c'.ssh ≠ .absent)⟩ : Closer) := by simp
    have hFit : Fit (s.closers ++ [⟨n, .ssh (c'.ssh ≠ .absent)⟩]) n d := by
      refine fit_ending rfl rfl (fun closer hStage => ?_) (by rintro ⟨⟩)
      obtain rfl := OpenStage.cleaning.inj hStage
      exact ⟨_, hd, rfl, fun hLive => decide_eq_true (by rw [hLive]; decide)⟩
    have hSet := hClose.set (Gateway.setLogin_get_self hc _) (change_closing hFit hUser rfl)
    rw [hCatch]
    simpa [Gateway.setLogin] using hSet
  · rw [hCatch]
    refine h.set hc (change_closing (fit_ending hClosing rfl (fun closer hStage => ?_)
      (by rintro ⟨⟩)) hUser hClosing)
    obtain rfl := OpenStage.cleaning.inj hStage
    refine hLinks ?_
    simp [Gateway.interrupted, hWay, ← hState, hClosing, hGet]
  · have hClosing : c'.state = .closing := by
      by_contra hOpen
      refine hGet (h.placed n c hc (isOpen_iff.mpr ⟨hState ▸ hOpen, hWaiting, fun hThrew => ?_⟩))
      rw [hThrew] at hWay
      cases hWay
    rw [hCatch]
    exact h.set hc (change_closing (fit_ending hClosing rfl (by rintro _ ⟨⟩) (by rintro ⟨⟩)) hUser
      hClosing)

/-- A close goes on. -/
theorem Booked.phase {closer : Closer} (h : Booked cfg s) (hi : s.closers[i]? = some closer)
    (phase : ClosePhase)
    (hClosed : ∀ c, s.logins[closer.session]? = some c → c.ClosedBy closer.phase →
      c.ClosedBy phase) :
    Booked cfg { s with closers := s.closers.set i { closer with phase } } := by
  refine ⟨fun n c hc => ?_, h.owner, h.size, h.placed, h.ports, h.chosen, h.single, fun k hk => ?_⟩
  · obtain ⟨hUp, hEnding, hPortless, hWaiting, hCleaning, hHalf, hThrew⟩ := h.fit n c hc
    refine ⟨hUp, hEnding, hPortless, hWaiting, fun k hStage => ?_, hHalf, hThrew⟩
    cases k with
    | none => exact hCleaning none hStage
    | some k =>
      obtain ⟨closer', hk, hSession, hBy⟩ := hCleaning (some k) hStage
      have hGet := getElem?_set_of_some hi { closer with phase } k
      split at hGet
      · rename_i hki
        obtain rfl := some.inj (hi.symm.trans (hki ▸ hk))
        exact ⟨_, hGet, hSession, hClosed c (hSession ▸ hc) hBy⟩
      · exact ⟨closer', hGet.trans hk, hSession, hBy⟩
  · rcases mem_or_eq_of_mem_set hk with hk | rfl
    · exact h.closing k hk
    · exact h.closing closer (mem_of_getElem? hi)

theorem Booked.delete {m : Nat} (h : Booked cfg s) (hGet : s.sessions.get user = some m)
    (hClosing : ∃ c, s.logins[m]? = some c ∧ c.state = .closing) :
    Booked cfg { s with sessions := s.sessions.delete user } := by
  refine ⟨h.fit, fun u n hn => ?_, ?_, fun n c hc hIs => ?_, h.ports, h.chosen, h.single, h.closing⟩
  · rw [get_delete] at hn
    split at hn
    · cases hn
    · exact h.owner u n hn
  · have hLt := size_delete_lt (mem_keys_of_get hGet)
    exact hLt.le.trans h.size
  · have hPlaced := h.placed n c hc hIs
    rw [get_delete]
    split
    · rename_i hUser
      obtain ⟨d, hd, hState⟩ := hClosing
      rw [hUser, hGet] at hPlaced
      obtain rfl := some.inj hPlaced
      obtain rfl := some.inj (hc.symm.trans hd)
      exact absurd hState (isOpen_iff.mp hIs).1
    · exact hPlaced

theorem Booked.closingStep (h : Booked cfg s) (i : Nat) : Booked cfg (s.closing i) := by
  unfold Gateway.closing
  split
  · exact h
  rename_i closer hi
  have hSession := h.closing closer (mem_of_getElem? hi)
  split
  · rename_i c held hc hPhase
    obtain ⟨c₀, hc₀, hState⟩ := hSession
    obtain rfl := some.inj (hc.symm.trans hc₀)
    set d : Login := { c with ssh := if held then c.ssh.close else c.ssh }
    have hLive : d.ssh = .live → c.ssh = .live ∧ held = false := by
      intro hLive
      simp only [d] at hLive
      split at hLive
      · exact absurd hLive (Link.close_ne_live _)
      · exact ⟨hLive, by simpa using ‹¬held = true›⟩
    have hFit : Fit s.closers closer.session d :=
      (h.fit _ c hc).fewer rfl rfl (.inl rfl) (fun hd => (hLive hd).1) id
    have hSet := h.set hc (change_closing hFit rfl hState)
    refine hSet.phase hi (.tunnel (c.tunnel ≠ .absent)) fun e he hBy => ?_
    rw [Gateway.setLogin_get_self hc] at he
    obtain rfl := some.inj he
    rw [hPhase] at hBy
    refine ⟨fun hd => ?_, fun hTunnel => ?_⟩
    · rw [(hLive hd).2] at hBy
      exact nomatch hBy hd
    · have hTunnel' : c.tunnel = .live := hTunnel
      simp [hTunnel']
  · rename_i c held hc hPhase
    obtain ⟨c₀, hc₀, hState⟩ := hSession
    obtain rfl := some.inj (hc.symm.trans hc₀)
    set d : Login := { c with tunnel := if held then c.tunnel.close else c.tunnel }
    have hLive : d.tunnel = .live → c.tunnel = .live ∧ held = false := by
      intro hLive
      simp only [d] at hLive
      split at hLive
      · exact absurd hLive (Link.close_ne_live _)
      · exact ⟨hLive, by simpa using ‹¬held = true›⟩
    have hFit : Fit s.closers closer.session d :=
      (h.fit _ c hc).fewer rfl rfl (.inl rfl) id fun hd => (hLive hd).1
    have hSet := h.set hc (change_closing hFit rfl hState)
    have hDone := hSet.phase hi .done fun e he hBy => by
      rw [Gateway.setLogin_get_self hc] at he
      obtain rfl := some.inj he
      rw [hPhase] at hBy
      refine ⟨fun hd => ?_, hBy.1⟩
      have hHeld := hBy.2 hd
      rw [(hLive hd).2] at hHeld
      exact nomatch hHeld
    dsimp only
    split
    · rename_i hGet
      exact hDone.delete hGet ⟨d, Gateway.setLogin_get_self hc d, hState⟩
    · exact hDone
  · exact h

/-! ## Coming into the map -/

theorem mem_usedPorts (hGet : s.sessions.get user = some n) (hc : s.logins[n]? = some c) :
    c.port ∈ s.usedPorts :=
  mem_filterMap.mpr ⟨n, mem_values_iff.mpr ⟨user, hGet⟩, by rw [hc]; rfl⟩

theorem Booked.pick (h : Booked cfg s) (hc : s.logins[n]? = some c)
    (hWay : c.stage.underWay = true) (hWaiting : c.stage.isWaiting = false) {used : List Nat}
    (p : Nat) (hPort : c.state ≠ .closing → c.port = 0)
    (hUsed : c.state ≠ .closing → ∀ q, q ∉ used → Free s.logins q)
    (hNone : c.state ≠ .closing → Unchosen s.logins n)
    (hLinks : s.interrupted n c = true → c.tunnel ≠ .live ∧ c.ssh ≠ .live) :
    Booked cfg (s.pick cfg n c used p) := by
  have hUp : c.state ≠ .up := fun hUp => by
    rw [(h.fit n c hc).up hUp] at hWay
    exact nomatch hWay
  unfold Gateway.pick
  split
  · rename_i q hq
    have hFree : q ∉ used := by simpa using find?_some hq
    refine h.set hc ⟨rfl, ?_, id, fun hIs => ?_, fun _ => .inl rfl, fun hOpen _ =>
      ⟨⟨hFree, hUsed hOpen⟩, hPort hOpen, hNone hOpen⟩⟩
    · exact ⟨fun h => absurd h hUp, nofun, fun _ => hPort, nofun, nofun, nofun, nofun⟩
    · refine h.placed n c hc (isOpen_iff.mpr ⟨(isOpen_iff.mp hIs).1, hWaiting, fun hThrew => ?_⟩)
      rw [hThrew] at hWay
      exact nomatch hWay
  · have hCatch := h.catch_ hc rfl rfl hWay hWaiting hLinks
    rwa [Gateway.setLogin_self hc] at hCatch

theorem Booked.enter (h : Booked cfg s) (hc : s.logins[n]? = some c)
    (hWaiting : c.stage.isWaiting = true) (hReady : s.sessions.size < cfg.maxSessions →
      (∀ d ∈ s.logins, d.stage.choosing = true → d.state = .closing) ∧
        ∀ x ∈ s.entry c.user, x.2.state = .closing) :
    Booked cfg (s.enter cfg n c now) := by
  have hFit := h.fit n c hc
  have hWay : c.stage.underWay = true ∧ c.stage ≠ .returned ∧ c.stage.ending = false := by
    generalize c.stage = stage at hWaiting
    cases stage <;> simp_all [OpenStage.isWaiting, OpenStage.underWay, OpenStage.ending]
  have hUp : c.state ≠ .up := fun hUp => hWay.2.1 (hFit.up hUp)
  unfold Gateway.enter
  split
  · refine h.set hc ⟨rfl, ?_, id, fun hIs => ?_, fun _ => .inl rfl, by rintro _ ⟨⟩⟩
    · exact ⟨fun h => absurd h hUp, by rintro ⟨⟩, fun _ => hFit.portless (.inl hWaiting),
        by rintro ⟨⟩, by rintro _ ⟨⟩, by rintro ⟨⟩, fun _ => hFit.waiting hWaiting⟩
    · exact absurd rfl (isOpen_iff.mp hIs).2.2
  rename_i hSpare
  obtain ⟨hNone, hEntry⟩ := hReady (Nat.lt_of_not_le hSpare)
  set d : Login := { c with openedAt := now, lastUsed := now, stage := .authenticating }
  set t : Gateway := { s with sessions := s.sessions.set c.user n } with ht
  have hPlace : Booked cfg t := by
    refine ⟨h.fit, fun u m hm => ?_, ?_, fun i e he hIs => ?_, h.ports, h.chosen, h.single,
      h.closing⟩
    · rw [ht, get_set] at hm
      split at hm
      · rename_i hUser
        obtain rfl := some.inj hm
        exact ⟨c, hc, hUser.symm⟩
      · exact h.owner u m hm
    · have hLe := s.sessions.size_set_le c.user n
      change (s.sessions.set c.user n).size ≤ cfg.maxSessions
      omega
    · -- an open session of the person would be in the map
      have hPlaced := h.placed i e he hIs
      rw [ht, get_set]
      split
      · rename_i hUser
        rw [hUser] at hPlaced
        exact absurd (hEntry _ (Gateway.entry_of hPlaced he)) (isOpen_iff.mp hIs).1
      · exact hPlaced
  have hGet : t.sessions.get c.user = some n := by simp [ht]
  have hSet : Booked cfg (t.setLogin n d) := by
    refine hPlace.set hc ⟨rfl, fit_plain rfl rfl rfl hUp, id, fun _ => hGet, fun _ => .inl rfl,
      by rintro _ ⟨⟩⟩
  have hd : (t.setLogin n d).logins[n]? = some d := Gateway.setLogin_get_self hc d
  refine hSet.pick hd rfl rfl cfg.ports.1 (hFit.portless (.inl hWaiting)) (fun hOpen q hq => ?_)
    (fun _ j e he hj hChoosing => ?_) fun hClosing => ?_
  · have hZero : d.port = 0 := hFit.portless (.inl hWaiting) hOpen
    have hOwn : d.port ∈ (t.setLogin n d).usedPorts := mem_usedPorts hGet hd
    refine ⟨fun hq0 => hq (hq0 ▸ hZero ▸ hOwn), fun j e he hOpen' hPort => ?_⟩
    have hNew : e.isOpen = true := by
      rw [isOpen_iff]
      have hFit' := (hSet.fit j e he).portless
      have hFree : e.port ≠ 0 := fun h0 => hq (hPort ▸ h0 ▸ hZero ▸ hOwn)
      refine ⟨hOpen', ?_, fun hThrew => hFree (hFit' (.inr (.inr hThrew)) hOpen')⟩
      rcases hWait : e.stage.isWaiting
      · rfl
      · exact absurd (hFit' (.inl hWait) hOpen') hFree
    exact hq (hPort ▸ mem_usedPorts (hSet.placed j e he hNew) he)
  · rw [Gateway.setLogin_get (s := t) hc, if_neg hj] at he
    exact hNone e (mem_of_getElem? he) hChoosing
  · exact hFit.waiting hWaiting

/-- A call of `open` comes in that has no session yet. -/
theorem Booked.concat (h : Booked cfg s) (hOpen : d.state = .opening) (hPort : d.port = 0)
    (hLinks : d.tunnel = .absent ∧ d.ssh = .absent)
    (hStage : d.stage.isWaiting = true ∨ d.stage = .threw) :
    Booked cfg { s with logins := s.logins ++ [d] } := by
  have hChoosing : d.stage.choosing = false ∧ d.isOpen = false := by
    rcases hStage with h | h
    · generalize hS : d.stage = stage at h
      cases stage <;> simp_all [OpenStage.isWaiting, OpenStage.choosing, Login.isOpen]
    · simp [h, OpenStage.choosing, Login.isOpen]
  have hLinks' : d.tunnel ≠ .live ∧ d.ssh ≠ .live := by simp [hLinks]
  have hOld : ∀ {i : Nat} {e : Login}, (s.logins ++ [d])[i]? = some e →
      s.logins[i]? = some e ∨ i = s.logins.length ∧ e = d := getElem?_concat_cases
  have hNew : ∀ (i : Nat) e, s.logins[i]? = some e → (s.logins ++ [d])[i]? = some e := by
    intro i e he
    obtain ⟨hLt, -⟩ := List.getElem?_eq_some_iff.mp he
    exact (getElem?_append_left hLt).trans he
  have hFree : ∀ q, Free s.logins q → Free (s.logins ++ [d]) q := by
    refine fun q hq => ⟨hq.1, fun j e he hOpenE => ?_⟩
    rcases hOld he with he | ⟨-, rfl⟩
    · exact hq.2 j e he hOpenE
    · exact hPort ▸ hq.1.symm
  refine ⟨fun i e he => ?_, fun u m hm => ?_, h.size, fun i e he hIs => ?_,
    fun i j e f he hf hOpenE hOpenF hZero hEq => ?_, fun i e he hOpenE => ?_,
    fun i j e f he hf hOpenE hOpenF hE hF => ?_, fun k hk => ?_⟩
  · rcases hOld he with he | ⟨-, rfl⟩
    · exact h.fit i e he
    · refine ⟨fun hUp => ?_, fun hEnding => ?_, fun _ _ => hPort, fun _ => hLinks',
        fun closer hCleaning => ?_, fun _ => hLinks'.2, fun _ => hLinks'⟩
      · rw [hOpen] at hUp
        exact nomatch hUp
      · rcases hStage with hStage | hStage
        · rw [isWaiting_eq_false hEnding] at hStage
          exact nomatch hStage
        · rw [hStage] at hEnding
          exact nomatch hEnding
      · rcases hStage with hStage | hStage
        · rw [hCleaning] at hStage
          exact nomatch hStage
        · rw [hStage] at hCleaning
          exact nomatch hCleaning
  · obtain ⟨e, he, hOwner⟩ := h.owner u m hm
    exact ⟨e, hNew m e he, hOwner⟩
  · rcases hOld he with he | ⟨-, rfl⟩
    · exact h.placed i e he hIs
    · rw [hChoosing.2] at hIs
      exact nomatch hIs
  · rcases hOld he with hE | ⟨-, rfl⟩
    · rcases hOld hf with hF | ⟨-, rfl⟩
      · exact h.ports i j e f hE hF hOpenE hOpenF hZero hEq
      · exact absurd (hEq.trans hPort) hZero
    · exact absurd hPort hZero
  · rcases hOld he with he | ⟨-, rfl⟩
    · have hOwn := h.chosen i e he hOpenE
      generalize e.stage = stage at hOwn
      cases stage with
      | picking used p => exact ⟨hOwn.1, fun q hq => hFree q (hOwn.2 q hq)⟩
      | picked p => exact hFree p hOwn
      | _ => trivial
    · exact chosen_of_not_choosing hChoosing.1
  · rcases hOld he with hE' | ⟨-, rfl⟩
    · rcases hOld hf with hF' | ⟨-, rfl⟩
      · exact h.single i j e f hE' hF' hOpenE hOpenF hE hF
      · rw [hChoosing.1] at hF
        exact nomatch hF
    · rw [hChoosing.1] at hE
      exact nomatch hE
  · obtain ⟨e, he, hState⟩ := h.closing k hk
    exact ⟨e, hNew k.session e he, hState⟩

/-! ## Steps -/

theorem Booked.congr (h : Booked cfg s) (hLogins : t.logins = s.logins)
    (hSessions : t.sessions = s.sessions) (hClosers : t.closers = s.closers) : Booked cfg t := by
  obtain ⟨hFit, hOwner, hSize, hPlaced, hPorts, hChosen, hSingle, hClosing⟩ := h
  constructor
  all_goals simpa only [hLogins, hSessions, hClosers]

theorem Booked.open_ (h : Booked cfg s) (hApart : Apart cfg s (.open_ user uid now)) :
    Booked cfg (s.open_ cfg user uid now) := by
  have hLocked : Booked cfg (s.lockedFor user uid now).1 := h.congr rfl rfl rfl
  unfold Gateway.open_
  dsimp only
  split
  · exact hLocked
  rename_i hWait
  split
  · rename_i hEntry
    change s.entry user = none at hEntry
    refine (hLocked.concat rfl rfl ⟨rfl, rfl⟩ (.inl rfl)).enter (by simp) rfl fun hSpare => ?_
    have hEnters : s.enters cfg (.open_ user uid now) = some user := by
      simp only [Gateway.enters]
      exact if_pos ⟨Int.not_lt.mp hWait, hEntry, hSpare⟩
    obtain ⟨hNone, -⟩ := hApart.1 user hEnters
    refine ⟨fun d hd hChoosing => ?_, fun x hx => ?_⟩
    · rcases mem_append.mp hd with hd | hd
      · exact hNone d hd hChoosing
      · rw [mem_singleton.mp hd] at hChoosing
        exact nomatch hChoosing
    · -- the person has no session in the map
      obtain ⟨hGet, hx⟩ := Gateway.entry_spec (n := x.1) (c := x.2) hx
      obtain ⟨e, he, -⟩ := h.owner user x.1 hGet
      rw [Gateway.entry_of (s := s) hGet he] at hEntry
      exact nomatch hEntry
  · split
    · exact hLocked
    · exact (hLocked.close user none).concat rfl rfl ⟨rfl, rfl⟩ (.inl rfl)

theorem Booked.fails (h : Booked cfg s) (hc : s.logins[n]? = some c)
    (hWay : c.stage.underWay = true) (hWaiting : c.stage.isWaiting = false)
    (hLinks : s.interrupted n c = true → c.tunnel ≠ .live ∧ c.ssh ≠ .live) :
    Booked cfg (s.catch_ n c) := by
  have hCatch := h.catch_ hc rfl rfl hWay hWaiting hLinks
  rwa [Gateway.setLogin_self hc] at hCatch

theorem Booked.refused (h : Booked cfg s) (hc : s.logins[n]? = some c)
    (hWay : c.stage.underWay = true) (hWaiting : c.stage.isWaiting = false)
    (hLinks : s.interrupted n c = true → c.tunnel ≠ .live ∧ c.ssh ≠ .live) :
    Booked cfg ((s.recordFailure user uid now).catch_ n c) := by
  have hRecord : Booked cfg (s.recordFailure user uid now) := h.congr rfl rfl rfl
  exact hRecord.fails hc hWay hWaiting hLinks

/-- A login that has its port goes on. -/
theorem Booked.goesOn (h : Booked cfg s) (hc : s.logins[n]? = some c)
    (hWay : c.stage.underWay = true) (hWaiting : c.stage.isWaiting = false) (tunnel ssh : Link)
    (hStage : stage.underWay = true ∧ stage.isWaiting = false ∧ stage.choosing = false) :
    Booked cfg (s.setLogin n { c with tunnel, ssh, stage }) :=
  h.set hc (change_plain h hc hWay hWaiting rfl rfl rfl hStage.1 hStage.2.1 hStage.2.2)

/-- The port that was found becomes that of the session. -/
theorem Booked.assign {p : Nat} (h : Booked cfg s) (hc : s.logins[n]? = some c)
    (hStage : c.stage = .picked p) (hGet : s.sessions.get c.user = some n) :
    Booked cfg (s.setLogin n { c with port := p, stage := .authenticating }) := by
  have hUp : c.state ≠ .up := fun hUp => by
    have hReturned := (h.fit n c hc).up hUp
    rw [hStage] at hReturned
    exact nomatch hReturned
  refine h.set hc ⟨rfl, fit_plain rfl rfl rfl hUp, id, fun _ => hGet, fun hOpen => .inr ⟨?_, ?_⟩,
    nofun⟩
  · have hChosen := h.chosen n c hc hOpen
    rw [hStage] at hChosen
    exact hChosen
  · exact h.unchosen hc hOpen (by rw [hStage]; rfl)

theorem Booked.succeed (h : Booked cfg s) (hc : s.logins[n]? = some c)
    (hGet : s.sessions.get c.user = some n) (hOpen : c.state = .opening) :
    Booked cfg (s.succeed n c now) := by
  have hUp : Change s n c { c with state := .up, lastUsed := now, stage := .returned } :=
    ⟨rfl, ⟨fun _ => rfl, nofun, nofun, nofun, nofun, nofun, nofun⟩,
      fun hClosing => absurd (hOpen.symm.trans hClosing) (by decide), fun _ => hGet,
      fun _ => .inl rfl, nofun⟩
  exact (h.set hc hUp).congr rfl rfl rfl

theorem Booked.resume (h : Booked cfg s) {arrival : Arrival} {authorized : Bool}
    (hApart : Apart cfg s (.resume n arrival authorized now)) :
    Booked cfg (s.resume cfg n arrival authorized now) := by
  unfold Gateway.resume
  split
  · exact h
  rename_i c hc
  have hGuard : s.interrupted n c = true → arrival.isConnected = false ∧ c.tunnel ≠ .live ∧
      c.ssh ≠ .live := hApart.2 c hc
  have hLinks : s.interrupted n c = true → c.tunnel ≠ .live ∧ c.ssh ≠ .live := fun h =>
    (hGuard h).2
  have hFit := h.fit n c hc
  split
  · rename_i closer hStage
    split
    · rename_i hClosed
      refine h.enter hc (by rw [hStage]; rfl) fun hSpare => hApart.1 c.user ?_
      simp only [Gateway.enters, hc, hStage]
      exact if_pos ⟨hClosed, hSpare⟩
    · exact h
  · rename_i used p free hStage
    have hWay : c.stage.underWay = true := by rw [hStage]; rfl
    have hWaiting : c.stage.isWaiting = false := by rw [hStage]; rfl
    have hChoosing : c.stage.choosing = true := by rw [hStage]; rfl
    have hChosen := h.chosen n c hc
    rw [hStage] at hChosen
    split
    · refine h.set hc ⟨rfl, ⟨fun hUp => ?_, nofun, fun _ => hFit.portless (.inr (.inl hChoosing)),
        nofun, nofun, nofun, nofun⟩, id, fun hIs => ?_, fun _ => .inl rfl, fun hOpen _ =>
        ⟨(hChosen hOpen).2 p (hChosen hOpen).1, hFit.portless (.inr (.inl hChoosing)) hOpen,
          h.unchosen hc hOpen hChoosing⟩⟩
      · have hReturned := hFit.up hUp
        rw [hStage] at hReturned
        exact nomatch hReturned
      · refine h.placed n c hc (isOpen_iff.mpr ⟨(isOpen_iff.mp hIs).1, hWaiting, ?_⟩)
        rw [hStage]
        exact nofun
    · exact h.pick hc hWay hWaiting (p + 1) (hFit.portless (.inr (.inl hChoosing)))
        (fun hOpen => (hChosen hOpen).2) (fun hOpen => h.unchosen hc hOpen hChoosing) hLinks
  · rename_i hStage
    exact h.fails hc (by rw [hStage]; rfl) (by rw [hStage]; rfl) hLinks
  · rename_i p hStage
    dsimp only
    split
    · rename_i hCharge
      rw [Gateway.setLogin_twice]
      exact h.assign hc hStage (Gateway.inCharge_iff.mp hCharge).1
    · exact h.catch_ hc rfl rfl (by rw [hStage]; rfl) (by rw [hStage]; rfl) hLinks
  · rename_i hStage
    split
    · exact h.goesOn hc (by rw [hStage]; rfl) (by rw [hStage]; rfl) _ _ ⟨rfl, rfl, rfl⟩
    · exact h.fails hc (by rw [hStage]; rfl) (by rw [hStage]; rfl) hLinks
  · rename_i hStage
    exact h.refused hc (by rw [hStage]; rfl) (by rw [hStage]; rfl) hLinks
  · rename_i hStage
    exact h.fails hc (by rw [hStage]; rfl) (by rw [hStage]; rfl) hLinks
  · rename_i pinned hStage
    have hWay : c.stage.underWay = true := by rw [hStage]; rfl
    have hWaiting : c.stage.isWaiting = false := by rw [hStage]; rfl
    dsimp only
    split
    · split
      · unfold Gateway.link
        rw [Gateway.setLogin_twice]
        exact h.goesOn hc hWay hWaiting _ _ ⟨rfl, rfl, rfl⟩
      · rw [Gateway.setLogin_twice]
        exact h.goesOn hc hWay hWaiting _ _ ⟨rfl, rfl, rfl⟩
    · -- a tunnel that came too late is one the session's close has not seen
      refine h.catch_ hc rfl rfl hWay hWaiting fun hIn => ?_
      exact absurd (hGuard hIn).1 (by simp [Arrival.isConnected])
  · rename_i hStage
    exact h.fails hc (by rw [hStage]; rfl) (by rw [hStage]; rfl) hLinks
  · rename_i keys hStage
    split
    · exact h.goesOn hc (by rw [hStage]; rfl) (by rw [hStage]; rfl) _ _ ⟨rfl, rfl, rfl⟩
    · exact h.fails hc (by rw [hStage]; rfl) (by rw [hStage]; rfl) hLinks
  · rename_i hStage
    exact h.fails hc (by rw [hStage]; rfl) (by rw [hStage]; rfl) hLinks
  · rename_i trusted hStage
    split
    · exact h.goesOn hc (by rw [hStage]; rfl) (by rw [hStage]; rfl) _ _ ⟨rfl, rfl, rfl⟩
    · exact h.fails hc (by rw [hStage]; rfl) (by rw [hStage]; rfl) hLinks
  · rename_i hStage
    exact h.fails hc (by rw [hStage]; rfl) (by rw [hStage]; rfl) hLinks
  · rename_i hStage
    split
    · rename_i hCharge
      obtain ⟨hGet, hOpen, -⟩ := Gateway.inCharge_iff.mp hCharge
      exact h.succeed hc hGet hOpen
    · exact h.fails hc (by rw [hStage]; rfl) (by rw [hStage]; rfl) hLinks
  · rename_i hStage
    exact h.refused hc (by rw [hStage]; rfl) (by rw [hStage]; rfl) hLinks
  · rename_i hStage
    exact h.fails hc (by rw [hStage]; rfl) (by rw [hStage]; rfl) hLinks
  · rename_i closer hStage
    split
    · rename_i hClosed
      have hState : c.state = .closing := hFit.ending (by rw [hStage]; rfl)
      refine h.set hc (change_closing ⟨fun hUp => ?_, nofun, fun _ hOpen => absurd hState hOpen,
        nofun, nofun, nofun, fun _ => ?_⟩ rfl hState)
      · exact absurd (hState.symm.trans hUp) (by decide)
      · have hCleaned := hFit.cleaning closer hStage
        cases closer with
        | none => exact hCleaned
        | some k =>
          obtain ⟨closer, hk, -, hBy⟩ := hCleaned
          simp only [Gateway.closedBy, hk, any_some, decide_eq_true_eq] at hClosed
          rw [hClosed] at hBy
          exact hBy
    · exact h
  · rename_i hStage
    have hState : c.state = .closing := hFit.ending (by rw [hStage]; rfl)
    exact h.set hc (change_closing (fit_ending hState rfl nofun fun _ =>
      Link.close_ne_live _) rfl hState)
  · rename_i hStage
    have hState : c.state = .closing := hFit.ending (by rw [hStage]; rfl)
    refine h.set hc (change_closing ⟨fun hUp => ?_, nofun, fun _ hOpen => absurd hState hOpen,
      nofun, nofun, nofun, fun _ => ⟨Link.close_ne_live _, hFit.half hStage⟩⟩ rfl hState)
    exact absurd (hState.symm.trans hUp) (by decide)
  · exact h

theorem Booked.live (h : Booked cfg s) (user : Text) (alive : Bool) :
    Booked cfg (s.live user alive).1 := by
  unfold Gateway.live
  split
  · exact h
  · split
    · exact h
    · split
      · exact h
      · exact h.close user none

/-- The marks of a session change. -/
theorem Booked.mark (h : Booked cfg s) (hc : s.logins[n]? = some c) (busy : Nat) (lastUsed : Int) :
    Booked cfg (s.setLogin n { c with busy, lastUsed }) := by
  refine h.set hc ⟨rfl, (h.fit n c hc).fewer rfl rfl (.inl rfl) id id, id, h.placed n c hc,
    fun _ => .inl rfl, fun hOpen hChoosing => ⟨h.chosen n c hc hOpen, ?_, ?_⟩⟩
  · exact (h.fit n c hc).portless (.inr (.inl hChoosing)) hOpen
  · exact h.unchosen hc hOpen hChoosing

theorem Booked.step (h : Booked cfg s) (e : GatewayEvent) (hApart : Apart cfg s e) :
    Booked cfg (gatewayStep cfg s e) := by
  cases e with
  | open_ user uid now => exact h.open_ hApart
  | resume n arrival authorized now => exact h.resume hApart
  | close user expected => exact h.close user expected
  | closing i => exact h.closingStep i
  | live user alive => exact h.live user alive
  | use user alive touch now =>
    have hLive := h.live user alive
    simp only [gatewayStep, Gateway.use]
    split
    · rename_i t n hUse
      rw [hUse] at hLive
      split
      · exact hLive.mark ‹_› _ _
      · exact hLive
    · rename_i t hUse
      rw [hUse] at hLive
      exact hLive
  | used n touch now =>
    simp only [gatewayStep, Gateway.used]
    split
    · exact h.mark ‹_› _ _
    · exact h
  | reap user alive now =>
    simp only [gatewayStep, Gateway.reap]
    split
    · exact h
    · split
      · exact h
      · split
        · exact h.close user none
        · exact h
  | tunnelClosed n =>
    simp only [gatewayStep, Gateway.tunnelClosed]
    split
    · exact h
    · split
      · exact h
      · split
        · exact h.close _ none
        · exact h
  | lockedFor user uid now => exact h.congr rfl rfl rfl

theorem booked_init (cfg : GatewayConfig) : Booked cfg {} where
  fit i c hc := by simp at hc
  owner user n h := by simp at h
  size := Nat.zero_le _
  placed i c hc := by simp at hc
  ports i j c d hc := by simp at hc
  chosen i c hc := by simp at hc
  single i j c d hc := by simp at hc
  closing k hk := by simp at hk

/-! ## Results -/

theorem Booked.kept (h : Booked cfg s) : BooksKept cfg s where
  ports i j c d hc hd hOpen hOpen' :=
    h.ports i j c d hc hd (isOpen_iff.mp hOpen).1 (isOpen_iff.mp hOpen').1
  size := h.size
  count l hNodup hAll := by
    refine (subperm_of_subset hNodup fun i hi => ?_).length_le.trans
      (?_ : s.sessions.values.length ≤ _)
    · obtain ⟨c, hc, hOpen⟩ := hAll i hi
      exact mem_values_iff.mpr ⟨c.user, h.placed i c hc hOpen⟩
    · rw [JsMap.values, length_map]
      exact h.size
  single u v m n c d hu hv hc hd hUser := by
    obtain ⟨c', hc', hOwner⟩ := h.owner u m hu
    obtain ⟨d', hd', hOwner'⟩ := h.owner v n hv
    obtain rfl := some.inj (hc.symm.trans hc')
    obtain rfl := some.inj (hd.symm.trans hd')
    have hSame : u = v := hOwner.symm.trans (hUser.trans hOwner')
    exact some.inj (hu.symm.trans (hSame ▸ hv))
  up i c hc hUp := by
    refine h.placed i c hc (isOpen_iff.mpr ?_)
    rw [(h.fit i c hc).up hUp, hUp]
    exact ⟨by rintro ⟨⟩, rfl, by rintro ⟨⟩⟩
  threw i c hc hThrew := (h.fit i c hc).threw hThrew

/-- While sessions keep apart, the books are kept. -/
theorem books_kept (cfg : GatewayConfig) (es : List GatewayEvent)
    (hApart : Guarded (gatewayStep cfg) (Apart cfg) {} es) :
    BooksKept cfg (run (gatewayStep cfg) {} es) :=
  (run_invariant_guarded (Booked cfg) (fun _ e h he => h.step e he) (booked_init cfg) hApart).kept

/-! ## Two at once -/

/-- Two people choose a port at once. -/
def choosingTogether : List GatewayEvent :=
  [.open_ (person 0) (js "u1") 0, .open_ (person 1) (js "u2") 0] ++
    comesToLogin 0 ++ comesToLogin 1

theorem port_shared : ¬ ∀ cfg es, BooksKept cfg (run (gatewayStep cfg) {} es) := by
  intro h
  have hPorts := (h pilotGateway choosingTogether).ports 0 1
  have hBoth : ∃ c d, (run (gatewayStep pilotGateway) {} choosingTogether).logins = [c, d] ∧
      c.isOpen = true ∧ d.isOpen = true ∧ c.port ≠ 0 ∧ c.port = d.port :=
    ⟨_, _, rfl, by decide +kernel⟩
  obtain ⟨c, d, hLogins, hc, hd, hZero, hSame⟩ := hBoth
  exact absurd (hPorts c d (by rw [hLogins]; rfl) (by rw [hLogins]; rfl) hc hd hZero hSame)
    (by decide)

/-- One person is signed in before the next one comes, and goes idle. -/
def oneByOne : List GatewayEvent :=
  [.open_ (person 0) (js "u1") 0] ++ comesToLogin 0 ++
    [.resume 0 .authenticated true 1, .resume 0 (.connected false) true 2,
      .resume 0 (.scanned 1) true 3, .resume 0 (.confirmed true) true 4, .resume 0 .linked true 5,
      .open_ (person 1) (js "u2") 6] ++ comesToLogin 1 ++
    [.resume 1 .failed true 7, .closing 0, .closing 0, .resume 1 .cleaned true 7,
      .reap (person 0) true 700000, .closing 1, .closing 1]

theorem books_kept_twice : BooksKept pilotGateway (run (gatewayStep pilotGateway) {} oneByOne) :=
  books_kept pilotGateway oneByOne (by decide +kernel)

end TMEdge.Hpc
