import TMEdge.NodeLink.Frame

/-!
# Sessions and routes

The sets of `NodeServer`, the states of its sessions and the routes of `Ingest` say the
same after any run (`Agrees`): a direct link leads to the active session of its node.
What changes them is four moves. A session opens (`Agrees.open_`), authenticates
(`Agrees.admitted`), ends (`Agrees.closed`), or has a packet accepted (`Agrees.accept`);
everything else is `Quiet`. While an accepted packet replaces an older session, that one
is still to be closed: it is the `failing` of `Agrees`.

* `sessions_agree`: the tables after any run, and what the close of a session leaves
  alone.
-/

namespace TMEdge.NodeLink

open Library Protocol Ingest List Option Function

/-! ## The invariant -/

/-- The key of a route is one that its node could authenticate with. -/
def Authentic (cfg : Config) (d : DirectSession) : Prop :=
  ∃ keysNow keys device, authKeys cfg keysNow d.uid = .ok keys ∧ (d.key, device) ∈ keys ∧
    d.secureId = device.map DeviceKey.id

structure Agrees (cfg : Config) (failing : Option Nat) (e : Edge) : Prop where
  pending : ∀ ref, ref ∈ e.server.pending ↔ ∃ s, e.session? ref = some s ∧ s.state = .challenged
  authed : ∀ ref, ref ∈ e.server.authed ↔ ∃ s, e.session? ref = some s ∧ s.state = .authenticated
  pendingNodup : e.server.pending.Nodup
  authedNodup : e.server.authed.Nodup
  room : e.server.authed.length ≤ cfg.limits.maxSessions
  fresh : ∀ ref s, e.session? ref = some s → s.state = .challenged →
    s.route = none ∧ s.active = false
  route : ∀ ref s d, e.session? ref = some s → s.route = some d →
    d.ref = ref ∧ s.uid = some d.uid ∧ d.sessionId = s.sessionId ∧
      d.secureId = s.device.map DeviceKey.id ∧ Authentic cfg d
  active : ∀ uid ref, e.server.active.get uid = some ref → ∃ s, e.session? ref = some s ∧
    s.state = .authenticated ∧ s.uid = some uid ∧ s.active = true ∧ 0 < s.accepted
  current : ∀ ref s uid, failing ≠ some ref → e.session? ref = some s →
    s.state = .authenticated → s.active = true → s.uid = some uid →
    e.server.active.get uid = some ref
  link : ∀ uid v address d, e.ingest.linkViews uid = some v →
    v.route = some (.direct address d) → e.server.active.get uid = some d.ref ∧
      ∃ s, e.session? d.ref = some s ∧ s.route = some d
  job : ∀ j ∈ e.ingest.jobs, ∀ address d, j.prepared.route = .direct address d →
    j.uid = d.uid ∧ ∃ s, e.session? d.ref = some s ∧ s.route = some d

/-! ## Quiet steps -/

/-- What the tables and the routes say of a session is still true of it. -/
structure Session.Kept (s s' : Session) : Prop where
  state : s'.state = s.state
  uid : s'.uid = s.uid
  active : s'.active = s.active
  route : s'.route = s.route
  sessionId : s'.sessionId = s.sessionId
  device : s.route ≠ none → s'.device = s.device
  accepted : s.accepted ≤ s'.accepted

theorem Session.Kept.refl (s : Session) : s.Kept s := ⟨rfl, rfl, rfl, rfl, rfl, fun _ => rfl, le_rfl⟩

structure Quiet (e e' : Edge) : Prop where
  sessions : ∀ ref s, e.session? ref = some s → ∃ s', e'.session? ref = some s' ∧ s.Kept s'
  noNew : ∀ ref s', e'.session? ref = some s' → ∃ s, e.session? ref = some s
  pending : e'.server.pending = e.server.pending
  authed : e'.server.authed = e.server.authed
  active : e'.server.active = e.server.active
  frame : State.Frame e.ingest e'.ingest

variable {cfg : Config} {failing : Option Nat} {e e' : Edge} {ref : Nat} {s : Session}
  {ingest : State} {d : DirectSession} {address : String} {ienv : Ingest.Env}

theorem Quiet.back (h : Quiet e e') {s' : Session} (hs' : e'.session? ref = some s') :
    ∃ s, e.session? ref = some s ∧ s.Kept s' := by
  obtain ⟨s, hs⟩ := h.noNew ref s' hs'
  obtain ⟨t, ht, hKept⟩ := h.sessions ref s hs
  obtain rfl : t = s' := some.inj (ht.symm.trans hs')
  exact ⟨s, hs, hKept⟩

theorem Quiet.state_iff (h : Quiet e e') (state : SessionState) :
    (∃ s, e'.session? ref = some s ∧ s.state = state) ↔
      ∃ s, e.session? ref = some s ∧ s.state = state := by
  constructor
  · rintro ⟨s', hs', hState⟩
    obtain ⟨s, hs, hKept⟩ := h.back hs'
    exact ⟨s, hs, hKept.state ▸ hState⟩
  · rintro ⟨s, hs, hState⟩
    obtain ⟨s', hs', hKept⟩ := h.sessions ref s hs
    exact ⟨s', hs', hKept.state.trans hState⟩

theorem Agrees.quiet (h : Agrees cfg failing e) (hQuiet : Quiet e e') : Agrees cfg failing e' where
  pending ref := by rw [hQuiet.pending, h.pending, hQuiet.state_iff]
  authed ref := by rw [hQuiet.authed, h.authed, hQuiet.state_iff]
  pendingNodup := hQuiet.pending ▸ h.pendingNodup
  authedNodup := hQuiet.authed ▸ h.authedNodup
  room := hQuiet.authed ▸ h.room
  fresh := by
    intro ref s' hs' hState
    obtain ⟨s, hs, hKept⟩ := hQuiet.back hs'
    have hFresh := h.fresh ref s hs (hKept.state ▸ hState)
    exact ⟨hKept.route.trans hFresh.1, hKept.active.trans hFresh.2⟩
  route := by
    intro ref s' d hs' hRoute
    obtain ⟨s, hs, hKept⟩ := hQuiet.back hs'
    have hOld : s.route = some d := hKept.route ▸ hRoute
    rw [hKept.uid, hKept.sessionId, hKept.device (by simp [hOld])]
    exact h.route ref s d hs hOld
  active := by
    intro uid ref hActive
    obtain ⟨s, hs, hState, hUid, hIs, hAccepted⟩ := h.active uid ref (hQuiet.active ▸ hActive)
    obtain ⟨s', hs', hKept⟩ := hQuiet.sessions ref s hs
    exact ⟨s', hs', hKept.state.trans hState, hKept.uid.trans hUid, hKept.active.trans hIs,
      hAccepted.trans_le hKept.accepted⟩
  current := by
    intro ref s' uid hNot hs' hState hIs hUid
    obtain ⟨s, hs, hKept⟩ := hQuiet.back hs'
    rw [hQuiet.active]
    exact h.current ref s uid hNot hs (hKept.state ▸ hState) (hKept.active ▸ hIs) (hKept.uid ▸ hUid)
  link := by
    intro uid v address d hView hRoute
    obtain ⟨hActive, s, hs, hSession⟩ := h.link uid v address d (hQuiet.frame.links ▸ hView) hRoute
    obtain ⟨s', hs', hKept⟩ := hQuiet.sessions _ s hs
    exact ⟨hQuiet.active ▸ hActive, s', hs', hKept.route.trans hSession⟩
  job := by
    intro j' hj' address d hRoute
    obtain ⟨j, hj, -, hPrepared⟩ := hQuiet.frame.jobs j' hj'
    obtain ⟨hUid, s, hs, hSession⟩ := h.job j hj address d (hPrepared ▸ hRoute)
    obtain ⟨s', hs', hKept⟩ := hQuiet.sessions _ s hs
    refine ⟨?_, s', hs', hKept.route.trans hSession⟩
    rw [← hUid, Job.uid, Job.uid, hPrepared]

/-- Sessions and sets as they are, another `Ingest` in the same state. -/
theorem Quiet.of_frame (h : State.Frame e.ingest ingest) :
    Quiet e { e with ingest := ingest } where
  sessions _ s hs := ⟨s, hs, .refl s⟩
  noNew _ s hs := ⟨s, hs⟩
  pending := rfl
  authed := rfl
  active := rfl
  frame := h

theorem Quiet.updateSession {f : Session → Session}
    (hf : ∀ s, e.session? ref = some s → s.Kept (f s)) : Quiet e (e.updateSession ref f) where
  sessions := by
    intro k s hs
    rw [session?_updateSession, update_apply]
    split
    · rename_i hk
      subst hk
      exact ⟨f s, by rw [hs]; rfl, hf s hs⟩
    · exact ⟨s, hs, .refl s⟩
  noNew := by
    intro k s' hs'
    rw [session?_updateSession, update_apply] at hs'
    split at hs'
    · rename_i hk
      subst hk
      cases hs : e.session? k with
      | none => simp [hs] at hs'
      | some s => exact ⟨s, rfl⟩
    · exact ⟨s', hs'⟩
  pending := rfl
  authed := rfl
  active := rfl
  frame := .refl

/-! ## The end of a session -/

structure Ends (e e' : Edge) (ref : Nat) (s : Session) : Prop where
  sessions : e'.session? = Function.update e.session? ref
    (some { s with
      state := .closed
      timer := false })
  pending : e'.server.pending = e.server.pending.erase ref
  authed : e'.server.authed = e.server.authed.erase ref
  active : ∀ uid, e'.server.active.get uid =
    if s.uid = some uid ∧ e.server.active.get uid = some ref then none else e.server.active.get uid
  links : ∀ uid, e'.ingest.linkViews uid =
    if s.uid = some uid ∧ e.server.active.get uid = some ref
    then (e.ingest.linkViews uid).map (LinkView.dropped s.sessionId)
    else e.ingest.linkViews uid
  jobs : e'.ingest.jobs = e.ingest.jobs

theorem closed_eq_of_closed (hs : ∀ s, e.session? ref = some s → s.state = .closed) :
    e.closed ref = e := by
  unfold Edge.closed
  split
  · rfl
  · rename_i s hSome
    rw [if_pos (hs s hSome)]

theorem closed_ends (hs : e.session? ref = some s) (hState : s.state ≠ .closed) :
    Ends e (e.closed ref) ref s := by
  have hSessions : (e.updateSession ref fun s =>
      { s with
        state := .closed
        timer := false }).session? = Function.update e.session? ref
        (some { s with
          state := .closed
          timer := false }) := by
    rw [session?_updateSession, hs]
    rfl
  unfold Edge.closed
  rw [hs]
  dsimp only
  rw [if_neg hState]
  split
  · rename_i hUid
    exact ⟨hSessions, rfl, rfl, by simp [hUid, Edge.updateSession],
      by simp [hUid, Edge.updateSession], rfl⟩
  · rename_i uid hUid
    split
    · rename_i hActive
      have hActive : e.server.active.get uid = some ref := hActive
      refine ⟨hSessions, rfl, rfl, fun k => ?_, fun k => ?_, State.jobs_dropDirectRoute⟩
      · change (e.server.active.delete uid).get k = _
        simp only [JsMap.get_delete, hUid, some.injEq]
        by_cases hk : k = uid
        · subst hk
          simp [hActive]
        · simp [hk, Ne.symm hk]
      · change ((e.ingest.dropDirectRoute uid s.sessionId).1).linkViews k = _
        rw [State.linkViews_dropDirectRoute, update_apply, hUid]
        by_cases hk : k = uid
        · subst hk
          simp [hActive]
        · simp [hk, Ne.symm hk]
    · rename_i hActive
      have hActive : ¬ e.server.active.get uid = some ref := hActive
      have hNot : ∀ k, ¬ (s.uid = some k ∧ e.server.active.get k = some ref) := by
        rintro k ⟨hk, hGet⟩
        obtain rfl : uid = k := some.inj (hUid.symm.trans hk)
        exact hActive hGet
      exact ⟨hSessions, rfl, rfl, fun k => (if_neg (hNot k)).symm, fun k => (if_neg (hNot k)).symm,
        rfl⟩

theorem dropped_route {sessionId : String} {v : LinkView} {route : Route}
    (h : (v.dropped sessionId).route = some route) : v.route = some route ∧
      ∀ address d, route = .direct address d → d.sessionId ≠ sessionId := by
  unfold LinkView.dropped at h
  split at h
  · rename_i address d hRoute
    split at h
    · rename_i hOther
      refine ⟨h, fun address' d' hEq => ?_⟩
      rw [hRoute, hEq] at h
      obtain ⟨-, rfl⟩ := Route.direct.inj (some.inj h)
      exact hOther
    · cases h
  · rename_i hRoute
    exact ⟨h, fun address d hEq => absurd (hEq ▸ h) (hRoute address d)⟩

section ends

variable {k : Nat} {t : Session}

theorem Ends.old (hEnds : Ends e e' ref s) (ht : e'.session? k = some t)
    (hNot : t.state ≠ .closed) : k ≠ ref ∧ e.session? k = some t := by
  rw [hEnds.sessions, update_apply] at ht
  split at ht
  · obtain rfl := some.inj ht
    exact absurd rfl hNot
  · exact ⟨‹_›, ht⟩

theorem Ends.keep (hEnds : Ends e e' ref s) (hk : k ≠ ref) (ht : e.session? k = some t) :
    e'.session? k = some t := by
  rw [hEnds.sessions, update_of_ne hk]
  exact ht

theorem Ends.route (hEnds : Ends e e' ref s) (hs : e.session? ref = some s)
    (ht : e.session? k = some t) : ∃ t', e'.session? k = some t' ∧ t'.route = t.route := by
  by_cases hk : k = ref
  · subst hk
    obtain rfl := some.inj (hs.symm.trans ht)
    refine ⟨{ s with
      state := .closed
      timer := false }, ?_, rfl⟩
    rw [hEnds.sessions, update_self]
  · exact ⟨t, hEnds.keep hk ht, rfl⟩

theorem Ends.active_iff (hEnds : Ends e e' ref s) (hs : e.session? ref = some s)
    (h : Agrees cfg failing e) {uid : String} :
    e'.server.active.get uid = some k ↔ e.server.active.get uid = some k ∧ k ≠ ref := by
  rw [hEnds.active]
  split
  · rename_i hIs
    simpa [hIs.2] using Eq.symm
  · rename_i hIs
    refine ⟨fun hk => ⟨hk, ?_⟩, fun hk => hk.1⟩
    rintro rfl
    obtain ⟨t, ht, -, hUid, -⟩ := h.active uid k hk
    obtain rfl := some.inj (hs.symm.trans ht)
    exact hIs ⟨hUid, hk⟩

theorem Ends.mem_erase (hEnds : Ends e e' ref s) {l : List Nat} {state : SessionState}
    (hNodup : l.Nodup) (hNot : state ≠ .closed)
    (hl : ∀ k, k ∈ l ↔ ∃ t, e.session? k = some t ∧ t.state = state) :
    k ∈ l.erase ref ↔ ∃ t, e'.session? k = some t ∧ t.state = state := by
  rw [hNodup.mem_erase_iff, hl]
  constructor
  · rintro ⟨hk, t, ht, hState⟩
    exact ⟨t, hEnds.keep hk ht, hState⟩
  · rintro ⟨t, ht, rfl⟩
    obtain ⟨hk, ht⟩ := hEnds.old ht hNot
    exact ⟨hk, t, ht, rfl⟩

theorem Agrees.ends (h : Agrees cfg failing e) (hRef : failing = none ∨ failing = some ref)
    (hs : e.session? ref = some s) (hEnds : Ends e e' ref s) : Agrees cfg none e' where
  pending _ := by
    rw [hEnds.pending]
    exact hEnds.mem_erase h.pendingNodup (by simp) h.pending
  authed _ := by
    rw [hEnds.authed]
    exact hEnds.mem_erase h.authedNodup (by simp) h.authed
  pendingNodup := hEnds.pending ▸ h.pendingNodup.erase ref
  authedNodup := hEnds.authed ▸ h.authedNodup.erase ref
  room := by
    rw [hEnds.authed]
    exact length_erase_le.trans h.room
  fresh := by
    intro k t ht hChallenged
    exact h.fresh k t (hEnds.old ht (by simp [hChallenged])).2 hChallenged
  route := by
    intro k t d ht hD
    rw [hEnds.sessions, update_apply] at ht
    split at ht
    · rename_i hk
      obtain rfl := some.inj ht
      exact hk ▸ h.route ref s d hs hD
    · exact h.route k t d ht hD
  active := by
    intro uid k hk
    obtain ⟨hk, hNe⟩ := (hEnds.active_iff hs h).mp hk
    obtain ⟨t, ht, hRest⟩ := h.active uid k hk
    exact ⟨t, hEnds.keep hNe ht, hRest⟩
  current := by
    intro k t uid _ ht hAuthed hIs hUid
    obtain ⟨hk, ht⟩ := hEnds.old ht (by simp [hAuthed])
    refine (hEnds.active_iff hs h).mpr ⟨h.current k t uid ?_ ht hAuthed hIs hUid, hk⟩
    rcases hRef with rfl | rfl
    · simp
    · simpa using Ne.symm hk
  link := by
    intro uid v address d hView hD
    rw [hEnds.links] at hView
    split at hView
    · rename_i hIs
      -- The link led to this session, whose route is dropped.
      obtain ⟨w, hw, rfl⟩ := map_eq_some_iff.mp hView
      obtain ⟨hD, hSession⟩ := dropped_route hD
      obtain ⟨hActive, t, ht, hT⟩ := h.link uid w address d hw hD
      obtain rfl : ref = d.ref := some.inj (hIs.2.symm.trans hActive)
      obtain rfl := some.inj (hs.symm.trans ht)
      exact absurd (h.route _ s d hs hT).2.2.1 (hSession address d rfl)
    · rename_i hIs
      obtain ⟨hActive, t, ht, hT⟩ := h.link uid v address d hView hD
      have hNe : d.ref ≠ ref := by
        intro hRef
        obtain ⟨t', ht', -, hUid, -⟩ := h.active uid _ hActive
        rw [hRef] at ht' hActive
        obtain rfl := some.inj (hs.symm.trans ht')
        exact hIs ⟨hUid, hActive⟩
      exact ⟨(hEnds.active_iff hs h).mpr ⟨hActive, hNe⟩, t, hEnds.keep hNe ht, hT⟩
  job := by
    intro j hj address d hD
    obtain ⟨hUid, t, ht, hT⟩ := h.job j (hEnds.jobs ▸ hj) address d hD
    obtain ⟨t', ht', hT'⟩ := hEnds.route hs ht
    exact ⟨hUid, t', ht', hT'.trans hT⟩

end ends

/-- Closing keeps the tables, and puts right what `activate` has left to be failed. -/
theorem Agrees.closed (h : Agrees cfg failing e) (hRef : failing = none ∨ failing = some ref) :
    Agrees cfg none (e.closed ref) := by
  by_cases hOpen : ∃ s, e.session? ref = some s ∧ s.state ≠ .closed
  · obtain ⟨s, hs, hState⟩ := hOpen
    exact h.ends hRef hs (closed_ends hs hState)
  · have hClosed : ∀ s, e.session? ref = some s → s.state = .closed := by
      intro s hs
      by_contra hState
      exact hOpen ⟨s, hs, hState⟩
    rw [closed_eq_of_closed hClosed]
    refine { h with current := fun k s uid _ hs hState => ?_ }
    refine h.current k s uid ?_ hs hState
    rcases hRef with rfl | rfl
    · simp
    · intro hk
      obtain rfl := some.inj hk
      rw [hClosed s hs] at hState
      cases hState

/-! ## Opening, authentication, acceptance -/

theorem session?_lt (hs : e.session? ref = some s) : ref < e.server.sessions.length :=
  (List.getElem?_eq_some_iff.mp hs).1

/-- A new socket: its session is the last one, and challenged. -/
theorem Agrees.opened (h : Agrees cfg none e)
    (hs : s.state = .challenged ∧ s.route = none ∧ s.active = false) :
    Agrees cfg none { e with
      server := { e.server with
        sessions := e.server.sessions ++ [s]
        pending := e.server.pending ++ [e.server.sessions.length] } } := by
  let e' : Edge := { e with
    server := { e.server with
      sessions := e.server.sessions ++ [s]
      pending := e.server.pending ++ [e.server.sessions.length] } }
  have hSessions : e'.session? = Function.update e.session? e.server.sessions.length (some s) := by
    funext k
    change (e.server.sessions ++ [s])[k]? = _
    rw [update_apply]
    split
    · rename_i hk
      rw [hk, getElem?_concat_length]
    · rename_i hk
      rcases Nat.lt_or_gt_of_ne hk with hlt | hgt
      · exact getElem?_append_left hlt
      · rw [Edge.session?, getElem?_eq_none (by simp; omega), getElem?_eq_none (by omega)]
  have hNew : e.session? e.server.sessions.length = none := getElem?_eq_none le_rfl
  have hKeep : ∀ k t, e.session? k = some t → e'.session? k = some t := by
    intro k t ht
    rw [hSessions, update_of_ne (session?_lt ht).ne]
    exact ht
  have hOld : ∀ k t, e'.session? k = some t →
      k = e.server.sessions.length ∧ t = s ∨ e.session? k = some t := by
    intro k t ht
    rw [hSessions, update_apply] at ht
    split at ht
    · exact Or.inl ⟨‹_›, (some.inj ht).symm⟩
    · exact Or.inr ht
  change Agrees cfg none e'
  constructor
  case pending =>
    intro k
    change k ∈ e.server.pending ++ [_] ↔ _
    rw [mem_append, mem_singleton, h.pending, hSessions]
    constructor
    · rintro (⟨t, ht, hState⟩ | rfl)
      · exact ⟨t, hSessions ▸ hKeep k t ht, hState⟩
      · exact ⟨s, update_self .., hs.1⟩
    · rintro ⟨t, ht, hState⟩
      rcases hOld k t (hSessions ▸ ht) with ⟨hk, -⟩ | ht
      · exact Or.inr hk
      · exact Or.inl ⟨t, ht, hState⟩
  case authed =>
    intro k
    refine (h.authed k).trans ⟨?_, ?_⟩
    · rintro ⟨t, ht, hState⟩
      exact ⟨t, hKeep k t ht, hState⟩
    · rintro ⟨t, ht, hState⟩
      rcases hOld k t ht with ⟨-, rfl⟩ | ht
      · rw [hs.1] at hState
        cases hState
      · exact ⟨t, ht, hState⟩
  case pendingNodup =>
    refine List.Nodup.append h.pendingNodup (nodup_singleton _) ?_
    rw [disjoint_singleton]
    intro hMem
    obtain ⟨t, ht, -⟩ := (h.pending _).mp hMem
    rw [hNew] at ht
    cases ht
  case authedNodup => exact h.authedNodup
  case room => exact h.room
  case fresh =>
    intro k t ht hState
    rcases hOld k t ht with ⟨-, rfl⟩ | ht
    · exact hs.2
    · exact h.fresh k t ht hState
  case route =>
    intro k t d ht hD
    rcases hOld k t ht with ⟨-, rfl⟩ | ht
    · rw [hs.2.1] at hD
      cases hD
    · exact h.route k t d ht hD
  case active =>
    intro uid k hk
    obtain ⟨t, ht, hRest⟩ := h.active uid k hk
    exact ⟨t, hKeep k t ht, hRest⟩
  case current =>
    intro k t uid hNot ht hState hIs hUid
    rcases hOld k t ht with ⟨-, rfl⟩ | ht
    · rw [hs.1] at hState
      cases hState
    · exact h.current k t uid hNot ht hState hIs hUid
  case link =>
    intro uid v address d hView hD
    obtain ⟨hActive, t, ht, hT⟩ := h.link uid v address d hView hD
    exact ⟨hActive, t, hKeep _ t ht, hT⟩
  case job =>
    intro j hj address d hD
    obtain ⟨hUid, t, ht, hT⟩ := h.job j hj address d hD
    exact ⟨hUid, t, hKeep _ t ht, hT⟩

/-- What `authenticate` makes of a challenged session. -/
structure Admits (cfg : Config) (e e' : Edge) (ref : Nat) (s s' : Session) : Prop where
  sessions : e'.session? = Function.update e.session? ref (some s')
  pending : e'.server.pending = e.server.pending.erase ref
  authed : e'.server.authed = e.server.authed ++ [ref]
  active : e'.server.active = e.server.active
  ingest : e'.ingest = e.ingest
  state : s'.state = .authenticated
  still : s'.active = s.active
  route : ∃ d, s'.route = some d ∧ d.ref = ref ∧ s'.uid = some d.uid ∧
    d.sessionId = s'.sessionId ∧ d.secureId = s'.device.map DeviceKey.id ∧ Authentic cfg d

theorem Agrees.admitted (h : Agrees cfg none e) (hs : e.session? ref = some s)
    (hState : s.state = .challenged) (hRoom : e.server.authed.length < cfg.limits.maxSessions)
    {s' : Session} (hA : Admits cfg e e' ref s s') : Agrees cfg none e' := by
  obtain ⟨hRoute, hActive⟩ := h.fresh ref s hs hState
  have hKeep : ∀ k t, e.session? k = some t → t.route ≠ none ∨ t.state = .authenticated →
      k ≠ ref ∧ e'.session? k = some t := by
    intro k t ht hNot
    have hk : k ≠ ref := by
      rintro rfl
      obtain rfl := some.inj (hs.symm.trans ht)
      rcases hNot with hNot | hNot
      · exact hNot hRoute
      · rw [hState] at hNot
        cases hNot
    rw [hA.sessions, update_of_ne hk]
    exact ⟨hk, ht⟩
  have hOld : ∀ k t, e'.session? k = some t → k = ref ∧ t = s' ∨ k ≠ ref ∧ e.session? k = some t := by
    intro k t ht
    rw [hA.sessions, update_apply] at ht
    split at ht
    · exact Or.inl ⟨‹_›, (some.inj ht).symm⟩
    · exact Or.inr ⟨‹_›, ht⟩
  have hSelf : e'.session? ref = some s' := by rw [hA.sessions, update_self]
  constructor
  case pending =>
    intro k
    rw [hA.pending, h.pendingNodup.mem_erase_iff, h.pending]
    constructor
    · rintro ⟨hk, t, ht, hT⟩
      refine ⟨t, ?_, hT⟩
      rw [hA.sessions, update_of_ne hk]
      exact ht
    · rintro ⟨t, ht, hT⟩
      rcases hOld k t ht with ⟨-, rfl⟩ | ⟨hk, ht⟩
      · rw [hA.state] at hT
        cases hT
      · exact ⟨hk, t, ht, hT⟩
  case authed =>
    intro k
    rw [hA.authed, mem_append, mem_singleton, h.authed]
    constructor
    · rintro (⟨t, ht, hT⟩ | rfl)
      · exact ⟨t, (hKeep k t ht (Or.inr hT)).2, hT⟩
      · exact ⟨s', hSelf, hA.state⟩
    · rintro ⟨t, ht, hT⟩
      rcases hOld k t ht with ⟨hk, -⟩ | ⟨-, ht⟩
      · exact Or.inr hk
      · exact Or.inl ⟨t, ht, hT⟩
  case pendingNodup => exact hA.pending ▸ h.pendingNodup.erase ref
  case authedNodup =>
    rw [hA.authed]
    refine List.Nodup.append h.authedNodup (nodup_singleton _) ?_
    rw [disjoint_singleton]
    intro hMem
    obtain ⟨t, ht, hT⟩ := (h.authed _).mp hMem
    exact (hKeep ref t ht (Or.inr hT)).1 rfl
  case room =>
    rw [hA.authed, length_append, length_singleton]
    exact hRoom
  case fresh =>
    intro k t ht hT
    rcases hOld k t ht with ⟨-, rfl⟩ | ⟨-, ht⟩
    · rw [hA.state] at hT
      cases hT
    · exact h.fresh k t ht hT
  case route =>
    intro k t d ht hD
    rcases hOld k t ht with ⟨rfl, rfl⟩ | ⟨-, ht⟩
    · obtain ⟨d', hD', hRest⟩ := hA.route
      obtain rfl := some.inj (hD.symm.trans hD')
      exact hRest
    · exact h.route k t d ht hD
  case active =>
    intro uid k hk
    obtain ⟨t, ht, hT, hRest⟩ := h.active uid k (hA.active ▸ hk)
    exact ⟨t, (hKeep k t ht (Or.inr hT)).2, hT, hRest⟩
  case current =>
    intro k t uid hNot ht hT hIs hUid
    rcases hOld k t ht with ⟨-, rfl⟩ | ⟨-, ht⟩
    · rw [hA.still, hActive] at hIs
      cases hIs
    · exact hA.active ▸ h.current k t uid hNot ht hT hIs hUid
  case link =>
    intro uid v address d hView hD
    obtain ⟨hIs, t, ht, hT⟩ := h.link uid v address d (hA.ingest ▸ hView) hD
    exact ⟨hA.active ▸ hIs, t, (hKeep _ t ht (Or.inl (by simp [hT]))).2, hT⟩
  case job =>
    intro j hj address d hD
    obtain ⟨hUid, t, ht, hT⟩ := h.job j (hA.ingest ▸ hj) address d hD
    exact ⟨hUid, t, (hKeep _ t ht (Or.inl (by simp [hT]))).2, hT⟩

/-- What an accepted packet makes of its session and its node's link. -/
structure Accepts (e e' : Edge) (ref : Nat) (s : Session) (d : DirectSession) : Prop where
  sessions : e'.session? = Function.update e.session? ref
    (some { s with
      accepted := s.accepted + 1
      active := true })
  pending : e'.server.pending = e.server.pending
  authed : e'.server.authed = e.server.authed
  active : ∀ uid, e'.server.active.get uid =
    if uid = d.uid then some ref else e.server.active.get uid
  links : ∃ v address, v.route = some (.direct address d) ∧
    e'.ingest.linkViews = Function.update e.ingest.linkViews d.uid (some v)
  jobs : ∀ j' ∈ e'.ingest.jobs, ∃ j ∈ e.ingest.jobs, j'.msg = j.msg ∧ j'.prepared = j.prepared

theorem Agrees.accept (h : Agrees cfg none e) (hs : e.session? ref = some s)
    (hState : s.state = .authenticated) (hRoute : s.route = some d) (hA : Accepts e e' ref s d)
    (hFailing : ∀ old, e.server.active.get d.uid = some old → old ≠ ref → failing = some old) :
    Agrees cfg failing e' := by
  obtain ⟨hRef, hUid, -⟩ := h.route ref s d hs hRoute
  have hSelf : e'.session? ref = some { s with
      accepted := s.accepted + 1
      active := true } := by
    rw [hA.sessions, update_self]
  have hKeep : ∀ k t, e.session? k = some t → ∃ t', e'.session? k = some t' ∧
      t'.state = t.state ∧ t'.route = t.route ∧ t'.uid = t.uid ∧ t.accepted ≤ t'.accepted ∧
      (t.active = true → t'.active = true) := by
    intro k t ht
    by_cases hk : k = ref
    · subst hk
      obtain rfl := some.inj (hs.symm.trans ht)
      exact ⟨_, hSelf, rfl, rfl, rfl, Nat.le_succ _, fun _ => rfl⟩
    · refine ⟨t, ?_, rfl, rfl, rfl, le_rfl, id⟩
      rw [hA.sessions, update_of_ne hk]
      exact ht
  have hOld : ∀ k t, e'.session? k = some t →
      k = ref ∧ t.state = .authenticated ∧ t.route = s.route ∧ t.uid = s.uid ∧
        t.sessionId = s.sessionId ∧ t.device = s.device ∨ k ≠ ref ∧ e.session? k = some t := by
    intro k t ht
    rw [hA.sessions, update_apply] at ht
    split at ht
    · obtain rfl := some.inj ht
      exact Or.inl ⟨‹_›, hState, rfl, rfl, rfl, rfl⟩
    · exact Or.inr ⟨‹_›, ht⟩
  have hSetOf : ∀ k state, (∃ t, e.session? k = some t ∧ t.state = state) ↔
      ∃ t, e'.session? k = some t ∧ t.state = state := by
    intro k state
    constructor
    · rintro ⟨t, ht, rfl⟩
      obtain ⟨t', ht', hT, -⟩ := hKeep k t ht
      exact ⟨t', ht', hT⟩
    · rintro ⟨t, ht, rfl⟩
      rcases hOld k t ht with ⟨rfl, hT, -⟩ | ⟨-, ht⟩
      · exact ⟨s, hs, hState.trans hT.symm⟩
      · exact ⟨t, ht, rfl⟩
  constructor
  case pending => exact fun k => by rw [hA.pending, h.pending, hSetOf]
  case authed => exact fun k => by rw [hA.authed, h.authed, hSetOf]
  case pendingNodup => exact hA.pending ▸ h.pendingNodup
  case authedNodup => exact hA.authed ▸ h.authedNodup
  case room => exact hA.authed ▸ h.room
  case fresh =>
    intro k t ht hT
    rcases hOld k t ht with ⟨-, hAuthed, -⟩ | ⟨-, ht⟩
    · rw [hAuthed] at hT
      cases hT
    · exact h.fresh k t ht hT
  case route =>
    intro k t d' ht hD
    rcases hOld k t ht with ⟨rfl, -, hR, hU, hId, hDevice⟩ | ⟨-, ht⟩
    · rw [hU, hId, hDevice]
      exact h.route k s d' hs (hR ▸ hD)
    · exact h.route k t d' ht hD
  case active =>
    intro uid k hk
    rw [hA.active] at hk
    split at hk
    · rename_i hIs
      obtain rfl := some.inj hk
      exact ⟨_, hSelf, hState, hIs ▸ hUid, rfl, Nat.succ_pos _⟩
    · obtain ⟨t, ht, hT, hU, hIs, hAccepted⟩ := h.active uid k hk
      obtain ⟨t', ht', hT', -, hU', hLe, hIs'⟩ := hKeep k t ht
      exact ⟨t', ht', hT'.trans hT, hU'.trans hU, hIs' hIs, hAccepted.trans_le hLe⟩
  case current =>
    intro k t uid hNot ht hT hIs hU
    rw [hA.active]
    rcases hOld k t ht with ⟨rfl, -, -, hU', -⟩ | ⟨hk, ht⟩
    · obtain rfl : d.uid = uid := some.inj ((hUid.symm.trans hU'.symm).trans hU)
      rw [if_pos rfl]
    · have hGet := h.current k t uid (by simp) ht hT hIs hU
      split
      · -- An older session of this node: `activate` fails it next.
        rename_i hEq
        exact absurd (hFailing k (hEq ▸ hGet) hk) hNot
      · exact hGet
  case link =>
    intro uid v address d' hView hD
    obtain ⟨w, address', hW, hLinks⟩ := hA.links
    rw [hLinks, update_apply] at hView
    rw [hA.active]
    split at hView
    · rename_i hIs
      obtain rfl := some.inj hView
      obtain ⟨-, rfl⟩ := Route.direct.inj (some.inj (hW.symm.trans hD))
      rw [if_pos hIs, hRef]
      exact ⟨rfl, _, hSelf, hRoute⟩
    · rename_i hIs
      obtain ⟨hGet, t, ht, hT⟩ := h.link uid v address d' hView hD
      obtain ⟨t', ht', -, hT', -⟩ := hKeep _ t ht
      rw [if_neg hIs]
      exact ⟨hGet, t', ht', hT'.trans hT⟩
  case job =>
    intro j' hj' address d' hD
    obtain ⟨j, hj, -, hPrepared⟩ := hA.jobs j' hj'
    obtain ⟨hU, t, ht, hT⟩ := h.job j hj address d' (hPrepared ▸ hD)
    obtain ⟨t', ht', -, hT', -⟩ := hKeep _ t ht
    refine ⟨?_, t', ht', hT'.trans hT⟩
    rw [← hU, Job.uid, Job.uid, hPrepared]

/-- `Ingest` may drop direct links, learn others, and queue packets of sessions. -/
theorem Agrees.ingested (h : Agrees cfg failing e) {ingest : State}
    (hLinks : ∀ uid v address d, ingest.linkViews uid = some v →
      v.route = some (.direct address d) → e.ingest.linkViews uid = some v)
    (hJobs : ∀ j' ∈ ingest.jobs, (∃ j ∈ e.ingest.jobs, j'.msg = j.msg ∧ j'.prepared = j.prepared) ∨
      ∀ address d, j'.prepared.route = .direct address d →
        j'.uid = d.uid ∧ ∃ s, e.session? d.ref = some s ∧ s.route = some d) :
    Agrees cfg failing { e with ingest := ingest } :=
  { h with
    link := fun uid v address d hView hD => h.link uid v address d (hLinks uid v address d hView hD) hD
    job := by
      intro j' hj' address d hD
      rcases hJobs j' hj' with ⟨j, hj, -, hPrepared⟩ | hNew
      · have hJob := h.job j hj address d (hPrepared ▸ hD)
        rwa [Job.uid, ← hPrepared] at hJob
      · exact hNew address d hD }

/-! ## The functions of the listener -/

theorem Agrees.control (h : Agrees cfg none e) (env : Env) (message : Control) :
    Agrees cfg none (e.control cfg env ref message).1 := by
  unfold Edge.control
  split
  · exact h
  · dsimp only
    split
    · exact h
    · split
      · exact h.closed (Or.inl rfl)
      · split
        · split
          · exact h
          · have hCount : Agrees cfg none (e.updateSession ref fun s =>
                { s with controlSeq := s.controlSeq + 1 }) :=
              h.quiet (.updateSession fun _ _ => ⟨rfl, rfl, rfl, rfl, rfl, fun _ => rfl, le_rfl⟩)
            split
            · exact hCount.closed (Or.inl rfl)
            · exact hCount
        · exact h

theorem Agrees.open_ (h : Agrees cfg none e) (env : Env) (nonce sessionId : String) :
    Agrees cfg none (e.open cfg env nonce sessionId) := by
  unfold Edge.open
  exact (h.opened ⟨rfl, rfl, rfl⟩).control env _

theorem Agrees.heard (h : Agrees cfg none e) (ref : Nat) (env : Env) :
    Agrees cfg none (e.updateSession ref fun s => { s with lastHeard := env.mono }) :=
  h.quiet (.updateSession fun _ _ => ⟨rfl, rfl, rfl, rfl, rfl, fun _ => rfl, le_rfl⟩)

theorem Agrees.withinRate (h : Agrees cfg none e) (ref : Nat) (env : Env) (bytes : Nat) :
    Agrees cfg none (e.withinRate cfg env ref bytes).1 := by
  unfold Edge.withinRate
  split
  · exact h
  · dsimp only
    split
    · exact h.quiet (.updateSession fun _ _ => ⟨rfl, rfl, rfl, rfl, rfl, fun _ => rfl, le_rfl⟩)
    · have hCounted : ∀ tokens drops, Agrees cfg none (e.updateSession ref fun s =>
          { s with
            tokens := tokens
            drops := drops }) := fun _ _ =>
        h.quiet (.updateSession fun _ _ => ⟨rfl, rfl, rfl, rfl, rfl, fun _ => rfl, le_rfl⟩)
      split
      · exact (hCounted _ _).closed (Or.inl rfl)
      · exact hCounted _ _

theorem Agrees.authenticate (h : Agrees cfg none e) (hs : e.session? ref = some s)
    (hState : s.state = .challenged) (env : Env) (auth : AuthText) :
    Agrees cfg none (e.authenticate cfg env ref auth) := by
  have hSpent : Agrees cfg none (e.updateSession ref fun s => { s with nonce := "" }) :=
    h.quiet (.updateSession fun _ _ => ⟨rfl, rfl, rfl, rfl, rfl, fun _ => rfl, le_rfl⟩)
  have hSelf : (e.updateSession ref fun s => { s with nonce := "" }).session? ref =
      some { s with nonce := "" } := by
    rw [session?_updateSession, update_self, hs]
    rfl
  unfold Edge.authenticate
  rw [hs]
  split
  · exact h
  · exact h.closed (Or.inl rfl)
  · rename_i hEq hFields
    obtain rfl := some.inj hEq
    dsimp only
    split
    · exact hSpent
    · rename_i keys hKeys
      split
      · exact hSpent.closed (Or.inl rfl)
      · rename_i key device hFind
        split
        · exact hSpent.closed (Or.inl rfl)
        · split
          · refine Agrees.closed (?_ : Agrees cfg none _) (Or.inl rfl)
            refine hSpent.quiet (.updateSession fun t ht => ?_)
            obtain rfl := some.inj (hSelf.symm.trans ht)
            refine ⟨rfl, rfl, rfl, rfl, rfl, fun hRoute => ?_, le_rfl⟩
            exact absurd (h.fresh ref s hs hState).1 hRoute
          · rename_i hFull
            refine Agrees.control ?_ env _
            exact hSpent.admitted hSelf hState (not_le.mp hFull)
              ⟨(session?_updateSession _).trans (congrArg _ (congrArg _ hSelf)), rfl, rfl, rfl, rfl,
                rfl, rfl, _, rfl, rfl, rfl, rfl, rfl, env.keysNow, keys, device, hKeys,
                mem_of_find?_eq_some hFind, rfl⟩

/-- A committed packet of a session, with the `packetResult` of its promise. -/
theorem Agrees.packetAccepted (h : Agrees cfg none e) (hs : e.session? ref = some s)
    (hState : s.state = .authenticated) (hRoute : s.route = some d) {v : LinkView}
    (hDirect : v.route = some (.direct address d))
    (hLinks : ingest.linkViews = Function.update e.ingest.linkViews d.uid (some v))
    (hJobs : ∀ j' ∈ ingest.jobs, ∃ j ∈ e.ingest.jobs, j'.msg = j.msg ∧ j'.prepared = j.prepared)
    (env : Env) (packet : Packet) :
    Agrees cfg none (({ e with ingest := ingest } : Edge).packetAccepted cfg env ref packet) := by
  obtain ⟨-, hUid, -⟩ := h.route ref s d hs hRoute
  let e₁ : Edge := { e with ingest := ingest }
  let e₂ : Edge := e₁.updateSession ref fun s => { s with accepted := s.accepted + 1 }
  have hs₁ : e₁.session? ref = some s := hs
  have hs₂ : e₂.session? ref = some { s with accepted := s.accepted + 1 } := by
    rw [session?_updateSession, update_self, hs₁]
    rfl
  have hSessions₂ : e₂.session? = Function.update e.session? ref
      (some { s with accepted := s.accepted + 1 }) := by
    rw [session?_updateSession, hs₁]
    rfl
  unfold Edge.packetAccepted
  rw [show ({ e with ingest := ingest } : Edge).session? ref = some s from hs₁]
  dsimp only
  rw [if_neg (by simp [hState])]
  suffices hRest : Agrees cfg none (if s.active = true then e₂ else e₂.activate ref) by
    split
    · exact hRest.control env _
    · exact hRest.control env _
    · exact hRest
  split
  · -- The session is the node's already.
    rename_i hActive
    have hGet := h.current ref s d.uid (by simp) hs hState hActive hUid
    refine h.accept hs hState hRoute ⟨?_, rfl, rfl, fun uid => ?_, ⟨v, address, hDirect, hLinks⟩,
      hJobs⟩ fun old hOld hNe => ?_
    · rw [hSessions₂, ← hActive]
    · change e.server.active.get uid = _
      split
      · rename_i hEq
        rw [hEq, hGet]
      · rfl
    · exact absurd (some.inj (hOld.symm.trans hGet)) hNe
  · unfold Edge.activate
    rw [hs₂]
    have hUid' : s.uid.getD "" = d.uid := by rw [hUid]; rfl
    dsimp only
    rw [hUid']
    let e₃ : Edge := e₂.updateSession ref fun s => { s with active := true }
    let e₄ : Edge := { e₃ with
      server := { e₃.server with active := e₃.server.active.set d.uid ref } }
    have hAccepts : Accepts e e₄ ref s d := by
      refine ⟨?_, rfl, rfl, fun uid => ?_, ⟨v, address, hDirect, hLinks⟩, hJobs⟩
      · change e₃.session? = _
        rw [session?_updateSession, hSessions₂, update_self, update_idem]
        rfl
      · exact JsMap.get_set _ _ _ _
    rcases hOld : e.server.active.get d.uid with - | old
    · rw [show e₂.server.active.get d.uid = none from hOld]
      refine h.accept hs hState hRoute hAccepts fun old' hOld' _ => ?_
      rw [hOld] at hOld'
      cases hOld'
    · rw [show e₂.server.active.get d.uid = some old from hOld]
      change Agrees cfg none (if old ≠ ref then e₄.fail old else e₄)
      split
      · refine Agrees.closed (?_ : Agrees cfg (some old) _) (Or.inr rfl)
        refine h.accept hs hState hRoute hAccepts fun old' hOld' _ => ?_
        rw [← hOld, hOld']
      · rename_i hSame
        refine h.accept hs hState hRoute hAccepts fun old' hOld' hNe => ?_
        obtain rfl := some.inj (hOld.symm.trans hOld')
        exact absurd hNe hSame

/-- A packet that is committed finds its session authenticated. -/
theorem authenticated_of_open
    (h : State.sessionClosed (.direct address d) (e.ingestEnv ref ienv) = false) :
    ∃ s, e.session? ref = some s ∧ s.state = .authenticated := by
  have hOpen : e.isOpen ref = true := by
    simpa [State.sessionClosed, Edge.ingestEnv] using h
  unfold Edge.isOpen at hOpen
  cases hs : e.session? ref with
  | none => simp [hs] at hOpen
  | some s => exact ⟨s, rfl, by simpa [hs] using hOpen⟩

theorem sessionMismatch_direct {packet : Packet}
    (h : State.sessionMismatch (.direct address d) packet = none) :
    packet.header.secureId = d.secureId ∧ packet.uid = d.uid := by
  unfold State.sessionMismatch at h
  dsimp only at h
  split at h
  · cases h
  · rename_i hKey
    split at h
    · cases h
    · rename_i hUid
      exact ⟨not_not.mp hKey, not_not.mp hUid⟩

theorem Agrees.queued {d : DirectSession} (h : Agrees cfg none e) (hs : e.session? ref = some s)
    (hRoute : s.route = some d) {ingest : State} {data : Buffer} {address : String} {now : ℚ}
    (hLinks : ingest.linkViews = e.ingest.linkViews)
    (hJobs : ∀ j' ∈ ingest.jobs, (∃ j ∈ e.ingest.jobs, j'.msg = j.msg ∧ j'.prepared = j.prepared) ∨
      j'.msg = data ∧ j'.prepared.route = .direct address d ∧
        Verified cfg.crypto cfg.verify now data j'.prepared) :
    Agrees cfg none { e with ingest := ingest } := by
  obtain ⟨hRef, -⟩ := h.route ref s d hs hRoute
  refine h.ingested (fun uid v address d' hView _ => hLinks ▸ hView) fun j' hj' => ?_
  rcases hJobs j' hj' with hOld | ⟨-, hTo, hVerified⟩
  · exact Or.inl hOld
  · refine Or.inr fun address d' hD => ?_
    obtain ⟨-, rfl⟩ := Route.direct.inj (hTo.symm.trans hD)
    have hSession := hVerified.session
    rw [hTo] at hSession
    exact ⟨(sessionMismatch_direct hSession).2, s, hRef ▸ hs, hRoute⟩

theorem Agrees.packet (h : Agrees cfg none e) (env : Env) (ienv : Ingest.Env) (data : Buffer) :
    Agrees cfg none (e.packet cfg env ienv ref data) := by
  unfold Edge.packet
  split
  · exact h
  · rename_i d hBind
    obtain ⟨s, hs, hRoute⟩ := bind_eq_some_iff.mp hBind
    dsimp only
    split
    · split
      · rename_i ingest result hHandle
        obtain ⟨hLinks, hRefused, hJobs⟩ := State.handleDurable_jobs hHandle
        cases result with
        | ok packet route => exact absurd rfl (hRefused packet route)
        | refused uid reason => exact h.queued hs hRoute hLinks hJobs
      · rename_i hHandle
        obtain ⟨hLinks, -, hJobs⟩ := State.handleDurable_jobs hHandle
        exact h.queued hs hRoute hLinks hJobs
    · cases hHandle : e.ingest.handle cfg.crypto cfg.verify data
          (.route (.direct ("ws:" ++ d.uid ++ ":" ++ d.sessionId) d)) (e.ingestEnv ref ienv) with
      | mk ingest result =>
        cases result with
        | refused uid reason => exact h.quiet (.of_frame (State.frame_handle hHandle))
        | ok packet route =>
          obtain ⟨p, rfl, -, hTo, hVerified, hOpen, hLinks, hJobs⟩ := State.handle_ok hHandle
          have hSession := hVerified.session
          rw [hTo] at hSession hOpen
          obtain ⟨t, ht, hState⟩ := authenticated_of_open hOpen
          obtain rfl := some.inj (hs.symm.trans ht)
          rw [(sessionMismatch_direct hSession).2] at hLinks
          exact h.packetAccepted hs hState hRoute (congrArg some hTo) hLinks hJobs env p.packet

theorem Agrees.message (h : Agrees cfg none e) (env : Env) (ienv : Ingest.Env) (data : Incoming) :
    Agrees cfg none (e.message cfg env ienv ref data) := by
  unfold Edge.message
  split
  · exact h
  · rename_i s hs
    have hHeard := h.heard ref env
    split
    · exact h
    · rename_i hState
      dsimp only
      split
      · split
        · exact hHeard.closed (Or.inl rfl)
        · have hSelf : (e.updateSession ref fun s => { s with lastHeard := env.mono }).session? ref =
              some { s with lastHeard := env.mono } := by
            rw [session?_updateSession, update_self, hs]
            rfl
          exact hHeard.authenticate hSelf hState env _
      · exact hHeard.closed (Or.inl rfl)
    · dsimp only
      split
      · exact hHeard.closed (Or.inl rfl)
      · rename_i bytes
        have hRate := hHeard.withinRate ref env bytes.length
        split
        · rename_i hEq
          rw [hEq] at hRate
          exact hRate.packet env ienv bytes
        · rename_i hEq
          rw [hEq] at hRate
          exact hRate

theorem Agrees.resumeJob (h : Agrees cfg none e) (env : Env) (ienv : Ingest.Env) (id : Nat) :
    Agrees cfg none (e.resumeJob cfg env ienv id) := by
  unfold Edge.resumeJob
  split
  · exact h
  · rename_i j hHead
    split
    · rename_i address d hD
      split
      · rename_i ingest msg packet hResume
        obtain ⟨j', hHead', -, -, rfl, hOpen, hLinks, hJobs⟩ := State.resumeJob_some hResume
        obtain rfl := some.inj (hHead.symm.trans hHead')
        obtain ⟨hUid, s, hs, hRoute⟩ := h.job j (State.headJob_spec hHead).2.mem address d hD
        rw [hD] at hOpen
        obtain ⟨t, ht, hState⟩ := authenticated_of_open hOpen
        obtain rfl := some.inj (hs.symm.trans ht)
        rw [← Job.uid, hUid] at hLinks
        exact h.packetAccepted hs hState hRoute (congrArg some hD) hLinks hJobs env _
      · rename_i hResume
        exact h.quiet (.of_frame (State.resumeJob_none hResume))
    · rename_i hNot
      cases hResume : e.ingest.resumeJob id ienv with
      | mk ingest result =>
        cases result with
        | none => exact h.quiet (.of_frame (State.resumeJob_none hResume))
        | some r =>
          obtain ⟨j', hHead', -, -, -, -, hLinks, hJobs⟩ := State.resumeJob_some hResume
          obtain rfl := some.inj (hHead.symm.trans hHead')
          refine h.ingested (fun uid v address d hView hD => ?_) fun j' hj' => Or.inl (hJobs j' hj')
          rw [hLinks, update_apply] at hView
          split at hView
          · obtain rfl := some.inj hView
            exact absurd (some.inj hD) (hNot address d)
          · exact hView

theorem Agrees.downlink (h : Agrees cfg none e) (env : Env) (length : Nat) :
    Agrees cfg none (e.downlink env ref length).1 := by
  unfold Edge.downlink
  split
  · exact h
  · split
    · exact h
    · split
      · exact h.closed (Or.inl rfl)
      · exact h

/-- The grants are no part of the tables. -/
theorem Agrees.granted (h : Agrees cfg none e) (grants : JsMap String Grant) (downloads : Nat) :
    Agrees cfg none { e with
      server := { e.server with
        grants := grants
        downloads := downloads } } :=
  h.quiet ⟨fun _ s hs => ⟨s, hs, .refl s⟩, fun _ s hs => ⟨s, hs⟩, rfl, rfl, rfl, .refl⟩

theorem Agrees.beat (h : Agrees cfg none e) (env : Env) : Agrees cfg none (e.beat cfg env) := by
  unfold Edge.beat
  dsimp only
  have hExpired := h.granted (e.server.grants.filter fun g => env.mono < g.expires)
    e.server.downloads
  refine List.foldlRecOn _ _ hExpired fun e' h' ref _ => ?_
  unfold Edge.beatSession
  split
  · exact h'
  · split
    · exact h'.closed (Or.inl rfl)
    · exact h'

theorem Agrees.grant (h : Agrees cfg none e) (env : Env) (otaApproved : String → String → Bool)
    (seq : Nat) (build token : String) :
    Agrees cfg none (e.grant cfg env otaApproved ref seq build token).1 := by
  unfold Edge.grant
  split
  · exact h
  · exact (h.granted _ e.server.downloads).control env _

theorem Agrees.download (h : Agrees cfg none e) (env : Env) (otaApproved : String → String → Bool)
    (image : String → Option Buffer) (build : String) (authorization : Option String) :
    Agrees cfg none (e.download cfg env otaApproved image build authorization).1 := by
  unfold Edge.download
  split
  · exact h
  · split
    · exact h
    · split
      · exact h
      · split
        · exact h
        · split
          · exact h
          · exact h.granted e.server.grants _

/-! ## `Ingest` on its own -/

/-- A datagram that came through no session. -/
theorem Agrees.handle (h : Agrees cfg none e) {msg : Buffer} {source : Source}
    (hNot : ∀ address d, source.toRoute ≠ .direct address d) :
    Agrees cfg none
      { e with ingest := (e.ingest.handle cfg.crypto cfg.verify msg source ienv).1 } := by
  cases hHandle : e.ingest.handle cfg.crypto cfg.verify msg source ienv with
  | mk ingest result =>
    cases result with
    | refused uid reason => exact h.quiet (.of_frame (State.frame_handle hHandle))
    | ok packet route =>
      obtain ⟨p, -, -, hTo, -, -, hLinks, hJobs⟩ := State.handle_ok hHandle
      refine h.ingested (fun uid v address d hView hD => ?_) fun j' hj' => Or.inl (hJobs j' hj')
      rw [hLinks, update_apply] at hView
      split at hView
      · obtain rfl := some.inj hView
        exact absurd (hTo.symm.trans (some.inj hD)) (hNot address d)
      · exact hView

theorem Agrees.handleDurable (h : Agrees cfg none e) {msg : Buffer} {source : Source}
    (hNot : ∀ address d, source.toRoute ≠ .direct address d) :
    Agrees cfg none
      { e with ingest := (e.ingest.handleDurable cfg.crypto cfg.verify msg source ienv).1 } := by
  obtain ⟨hLinks, -, hJobs⟩ := State.handleDurable_jobs
    (Eq.refl (e.ingest.handleDurable cfg.crypto cfg.verify msg source ienv))
  refine h.ingested (fun uid v address d hView _ => hLinks ▸ hView) fun j' hj' => ?_
  rcases hJobs j' hj' with hOld | ⟨-, hTo, -⟩
  · exact Or.inl hOld
  · exact Or.inr fun address d hD => absurd (hTo.symm.trans hD) (hNot address d)

theorem Agrees.resetCursor (h : Agrees cfg none e) (uid : String) (io : Replay.Io) :
    Agrees cfg none { e with ingest := (e.ingest.resetCursor uid io).1 } := by
  refine h.ingested (fun k v address d hView _ => ?_) fun j' hj' =>
    Or.inl ⟨j', State.jobs_resetCursor (s := e.ingest) uid io ▸ hj', rfl, rfl⟩
  rcases State.linkViews_resetCursor (s := e.ingest) uid io with hSame | hGone
  · exact hSame ▸ hView
  · rw [hGone, update_apply] at hView
    split at hView
    · cases hView
    · exact hView

theorem toRoute_address (a address : String) (d : DirectSession) :
    (Source.address a).toRoute ≠ .direct address d := by
  unfold Source.toRoute
  dsimp only
  split <;> simp

theorem step_handle_fst (s : State) (config : Ingest.Config) (msg : Buffer) (source : Source)
    (ienv : Ingest.Env) : (s.step config (.handle msg source ienv)).1 =
      (s.handle config.crypto config.verify msg source ienv).1 := by
  simp only [State.step]
  split <;> rename_i hEq <;> rw [hEq]

theorem Agrees.stepIngest (h : Agrees cfg none e) (event : HostEvent) :
    Agrees cfg none (e.stepIngest cfg event) := by
  unfold Edge.stepIngest
  split
  · exact h
  · exact h
  · exact h
  · exact h
  · exact h
  · rename_i hHandle hDurable hResume hDrop hRestart
    cases event with
    | handle msg source ienv =>
      rw [step_handle_fst]
      refine h.handle fun address d => ?_
      cases source with
      | address a => exact toRoute_address a address d
      | route r => exact fun hEq => hHandle msg address d ienv (congrArg (HostEvent.handle msg · ienv) (congrArg Source.route hEq))
    | handleDurable msg source ienv =>
      refine h.handleDurable fun address d => ?_
      cases source with
      | address a => exact toRoute_address a address d
      | route r => exact fun hEq => hDurable msg address d ienv (congrArg (HostEvent.handleDurable msg · ienv) (congrArg Source.route hEq))
    | admitJob id ienv => exact h.quiet (.of_frame State.frame_admitJob)
    | resumeJob id ienv => exact absurd rfl (hResume id ienv)
    | settleJob id => exact h.quiet (.of_frame State.frame_settleJob)
    | timerFires io => exact h.quiet (.of_frame State.frame_timerFires)
    | syncDone ok => exact h.quiet (.of_frame State.frame_syncDone)
    | allocateCommandSeq now io =>
      have hFrame := State.frame_allocateCommandSeq (s := e.ingest) now io
      simp only [State.step]
      split <;> rename_i hEq <;> rw [hEq] at hFrame <;> exact h.quiet (.of_frame hFrame)
    | resetCursor uid io =>
      have hReset := h.resetCursor uid io
      simp only [State.step]
      split <;> rename_i hEq <;> rw [hEq] at hReset <;> exact hReset
    | dropDirectRoute uid sessionId => exact absurd rfl (hDrop uid sessionId)
    | stop => exact h.quiet (.of_frame (.of_eq rfl rfl))
    | restart io => exact absurd rfl (hRestart io)

/-! ## Runs -/

theorem Agrees.step (h : Agrees cfg none e) (otaApproved : String → String → Bool)
    (event : EdgeEvent) : Agrees cfg none (e.step cfg otaApproved event) := by
  cases event with
  | «open» env nonce sessionId => exact h.open_ env nonce sessionId
  | message env ienv ref data => exact h.message env ienv data
  | pong env ref => exact h.heard ref env
  | handshakeTimeout ref =>
    simp only [Edge.step]
    split
    · exact h.closed (Or.inl rfl)
    · exact h
  | closed ref => exact h.closed (Or.inl rfl)
  | beat env => exact h.beat env
  | downlink env ref length => exact h.downlink env length
  | grant env ref seq build token => exact h.grant env otaApproved seq build token
  | revokeGrants uid => exact h.granted _ e.server.downloads
  | download env image build authorization => exact h.download env otaApproved image build authorization
  | downloadClosed => exact h.granted e.server.grants _
  | resumeJob env ienv id => exact h.resumeJob env ienv id
  | ingest event => exact h.stepIngest event

def Edge.new (replay : Replay.ReplayStore) : Edge := ⟨.new, .new replay⟩

theorem agrees_new (cfg : Config) (replay : Replay.ReplayStore) :
    Agrees cfg none (Edge.new replay) := by
  constructor <;>
    simp [Edge.new, NodeServer.new, State.new, Edge.session?, State.linkViews]

/-- The table of direct sessions and the routes to them. -/
structure SessionTable (cfg : Config) (e : Edge) : Prop where
  pending : e.server.pending.Nodup ∧ ∀ ref, ref ∈ e.server.pending ↔
    ∃ s, e.session? ref = some s ∧ s.state = .challenged
  authed : e.server.authed.Nodup ∧ ∀ ref, ref ∈ e.server.authed ↔
    ∃ s, e.session? ref = some s ∧ s.state = .authenticated
  room : e.server.authed.length ≤ cfg.limits.maxSessions
  active : ∀ uid ref, e.server.active.get uid = some ref → ∃ s, e.session? ref = some s ∧
    s.state = .authenticated ∧ s.uid = some uid ∧ 0 < s.accepted
  link : ∀ uid link address d, e.ingest.links.get uid = some link →
    link.route = some (.direct address d) → e.server.active.get uid = some d.ref ∧
      ∃ s, e.session? d.ref = some s ∧ s.state = .authenticated ∧ s.route = some d
  lateClose : ∀ ref s uid, e.session? ref = some s → s.uid = some uid →
    e.server.active.get uid ≠ some ref →
    (e.closed ref).server.active = e.server.active ∧ (e.closed ref).ingest = e.ingest

theorem closed_of_not_active {uid : String} (hs : e.session? ref = some s)
    (hUid : s.uid = some uid) (hNot : e.server.active.get uid ≠ some ref) :
    (e.closed ref).server.active = e.server.active ∧ (e.closed ref).ingest = e.ingest := by
  unfold Edge.closed
  rw [hs]
  dsimp only
  split
  · exact ⟨rfl, rfl⟩
  · rw [hUid]
    dsimp only
    split
    · exact absurd ‹_› hNot
    · exact ⟨rfl, rfl⟩

/-- The tables after any run of the listener and its `Ingest`, whatever the rollouts allow
at each step. -/
theorem sessions_agree (cfg : Config) (replay : Replay.ReplayStore)
    (events : List ((String → String → Bool) × EdgeEvent)) :
    SessionTable cfg (run (fun e event => e.step cfg event.1 event.2) (Edge.new replay) events) := by
  have h : Agrees cfg none
      (run (fun e event => e.step cfg event.1 event.2) (Edge.new replay) events) :=
    run_invariant (Agrees cfg none) (fun e event he => he.step event.1 event.2)
      (agrees_new cfg replay) events
  refine ⟨⟨h.pendingNodup, h.pending⟩, ⟨h.authedNodup, h.authed⟩, h.room, ?_, ?_,
    fun ref s uid => closed_of_not_active⟩
  · intro uid ref hActive
    obtain ⟨s, hs, hState, hUid, -, hAccepted⟩ := h.active uid ref hActive
    exact ⟨s, hs, hState, hUid, hAccepted⟩
  · intro uid link address d hLink hRoute
    obtain ⟨hActive, s, hs, hD⟩ := h.link uid link.view address d
      (by simp [State.linkViews, hLink]) hRoute
    obtain ⟨t, ht, hState, -⟩ := h.active uid d.ref hActive
    obtain rfl := Option.some.inj (hs.symm.trans ht)
    exact ⟨hActive, s, hs, hState, hD⟩

end TMEdge.NodeLink
