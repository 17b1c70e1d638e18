import TMEdge.Ingest.Core

/-!
# The links, and who may change them

`LinkView` is what commands and statistics need of a link: where the node is, its cursor
and its key. Refused packets, queued jobs and everything else but a commit, a cursor reset
and the end of a direct session leave all of them alone (`Frame`). `handle_ok` and
`resumeJob_some` say what a committed packet does and how it was verified.
-/

namespace TMEdge.Ingest

open Library Replay Protocol Option JsMap Function

structure LinkView where
  route : Option Route
  address : String
  boot : Nat
  seq : Nat
  signed : Bool
  secureId : Option Nat
deriving DecidableEq

def NodeLink.view (l : NodeLink) : LinkView :=
  ⟨l.route, l.address, l.boot, l.seq, l.signed, l.secureId⟩

def PreparedPacket.view (p : PreparedPacket) : LinkView :=
  ⟨some p.route, p.route.address, p.packet.header.boot, p.packet.header.seq,
    p.packet.header.signed, p.packet.header.secureId⟩

/-- The view after the end of a direct session: the route goes when it is that session's. -/
def LinkView.dropped (sessionId : String) (v : LinkView) : LinkView :=
  match v.route with
  | some (.direct _ session) => if session.sessionId ≠ sessionId then v else { v with route := none }
  | _ => v

/-- The packet was read from the datagram with the keys of its route at that time, and it is
the session's when it came through one. -/
structure Verified (crypto : Crypto) (verify : VerifyOptions) (now : ℚ) (msg : Buffer)
    (p : PreparedPacket) : Prop where
  parsed : parsePacket crypto msg (State.verifyFor verify p.route) now = .ok p.packet
  session : State.sessionMismatch p.route p.packet = none

namespace State

def linkViews (s : State) (uid : String) : Option LinkView := (s.links.get uid).map NodeLink.view

/-- The links look the same, and no job is new. -/
structure Frame (s s' : State) : Prop where
  links : s'.linkViews = s.linkViews
  jobs : ∀ j' ∈ s'.jobs, ∃ j ∈ s.jobs, j'.msg = j.msg ∧ j'.prepared = j.prepared

section frame

variable {s s' t : State} {crypto : Crypto} {verify : VerifyOptions} {env : Env} {msg : Buffer}
  {p : PreparedPacket} {source : Source} {packet : Packet} {id : Nat}

theorem Frame.of_eq (hLinks : s'.links = s.links) (hJobs : s'.jobs = s.jobs) : Frame s s' where
  links := by funext uid; simp only [linkViews, hLinks]
  jobs := fun j' hj => ⟨j', hJobs ▸ hj, rfl, rfl⟩

theorem Frame.refl : Frame s s := .of_eq rfl rfl

theorem Frame.trans (h : Frame s s') (h' : Frame s' t) : Frame s t where
  links := h'.links.trans h.links
  jobs := by
    intro j'' hj''
    obtain ⟨j', hj', hMsg', hPrepared'⟩ := h'.jobs j'' hj''
    obtain ⟨j, hj, hMsg, hPrepared⟩ := h.jobs j' hj'
    exact ⟨j, hj, hMsg'.trans hMsg, hPrepared'.trans hPrepared⟩

theorem frame_reject (now : ℚ) (address : String) (uid : Option String) (reason : String) :
    Frame s (s.reject now address uid reason).1 := .of_eq rfl rfl

theorem frame_countRejected (uid : String) : Frame s (s.countRejected uid) := by
  unfold countRejected
  split
  · rename_i link hLink
    refine ⟨funext fun k => ?_, fun j hj => ⟨j, hj, rfl, rfl⟩⟩
    simp only [linkViews, get_set]
    split
    · rename_i hk
      rw [hk, hLink]
      rfl
    · rfl
  · exact .refl

theorem frame_prepare (crypto : Crypto) (verify : VerifyOptions) (msg : Buffer) (source : Source)
    (env : Env) : Frame s (s.prepare crypto verify msg source env).1 := by
  unfold prepare
  dsimp only
  split
  · exact .of_eq rfl rfl
  · split
    · exact .of_eq rfl rfl
    · split <;> exact .of_eq rfl rfl

theorem prepare_verified (h : s.prepare crypto verify msg source env = (s', .ok p)) :
    p.route = source.toRoute ∧ Verified crypto verify env.keysNow msg p := by
  unfold prepare at h
  dsimp only at h
  split at h
  · cases h
  · rename_i packet hParse
    split at h
    · cases h
    · rename_i hSession
      split at h
      · cases h
      · obtain ⟨-, hp⟩ := Prod.ext_iff.mp h
        obtain rfl := Except.ok.inj hp
        exact ⟨rfl, hParse, hSession⟩

theorem prepare_error {r : IngestResult}
    (h : s.prepare crypto verify msg source env = (s', .error r)) :
    ∃ uid reason, r = .refused uid reason := by
  unfold prepare at h
  dsimp only at h
  split at h
  · exact ⟨_, _, (Except.error.inj (Prod.ext_iff.mp h).2).symm⟩
  · split at h
    · exact ⟨_, _, (Except.error.inj (Prod.ext_iff.mp h).2).symm⟩
    · split at h
      · exact ⟨_, _, (Except.error.inj (Prod.ext_iff.mp h).2).symm⟩
      · cases (Prod.ext_iff.mp h).2

theorem admitPacket_some {r : IngestResult} (h : s.admitPacket p env = (s', some r)) :
    ∃ uid reason, r = .refused uid reason := by
  unfold admitPacket at h
  dsimp only at h
  split at h
  · split at h
    · exact ⟨_, _, (some.inj (Prod.ext_iff.mp h).2).symm⟩
    · split at h
      · exact ⟨_, _, (some.inj (Prod.ext_iff.mp h).2).symm⟩
      · cases (Prod.ext_iff.mp h).2
  · split at h
    · exact ⟨_, _, (some.inj (Prod.ext_iff.mp h).2).symm⟩
    · split at h
      · exact ⟨_, _, (some.inj (Prod.ext_iff.mp h).2).symm⟩
      · cases (Prod.ext_iff.mp h).2

theorem frame_admitPacket (p : PreparedPacket) (env : Env) : Frame s (s.admitPacket p env).1 := by
  unfold admitPacket
  dsimp only
  split
  · split
    · exact (frame_countRejected _).trans (frame_reject _ _ _ _)
    · split
      · exact (frame_countRejected _).trans (frame_reject _ _ _ _)
      · exact .refl
  · split
    · exact frame_reject _ _ _ _
    · split
      · exact (frame_countRejected _).trans (frame_reject _ _ _ _)
      · exact .refl

theorem frame_persist (p : PreparedPacket) (env : Env) : Frame s (s.persist p env).1 := by
  unfold persist
  split
  · exact .of_eq rfl rfl
  · dsimp only
    split
    · exact .of_eq rfl rfl
    · split
      · exact .of_eq rfl rfl
      · split <;> exact .of_eq rfl rfl

theorem jobs_commitPacket (p : PreparedPacket) (env : Env) : (s.commitPacket p env).1.jobs = s.jobs := by
  unfold commitPacket
  split <;> rfl

theorem frame_commitPacket {uid : Option String} {reason : String}
    (h : s.commitPacket p env = (s', .refused uid reason)) : Frame s s' := by
  unfold commitPacket at h
  split at h
  · obtain ⟨rfl, -⟩ := Prod.ext_iff.mp h
    exact frame_reject _ _ _ _
  · cases (Prod.ext_iff.mp h).2

theorem view_countKind (link : NodeLink) (p : PreparedPacket) :
    (countKind link p).view = link.view := by
  unfold countKind
  split <;> rfl

/-- A committed packet says where its node is. -/
theorem commitPacket_views {route : Route} (h : s.commitPacket p env = (s', .ok packet route)) :
    packet = p.packet ∧ route = p.route ∧ sessionClosed p.route env = false ∧
      s'.linkViews = Function.update s.linkViews p.packet.uid (some p.view) := by
  unfold commitPacket at h
  split at h
  · cases (Prod.ext_iff.mp h).2
  · rename_i hOpen
    obtain ⟨rfl, hResult⟩ := Prod.ext_iff.mp h
    obtain ⟨rfl, rfl⟩ := IngestResult.ok.inj hResult
    refine ⟨rfl, rfl, by simpa using hOpen, funext fun uid => ?_⟩
    simp only [linkViews, trimWindow, get_set, update_apply]
    split
    · rw [map_some]
      refine congrArg some ?_
      change (countKind _ p).view = p.view
      rw [view_countKind]
      rfl
    · rfl

/-! ## `handle` -/

theorem frame_handle {uid : Option String} {reason : String}
    (h : s.handle crypto verify msg source env = (s', .refused uid reason)) : Frame s s' := by
  unfold handle at h
  have hPrepare := frame_prepare (s := s) crypto verify msg source env
  split at h
  · rename_i s₁ r hEq
    rw [hEq] at hPrepare
    obtain ⟨rfl, -⟩ := Prod.ext_iff.mp h
    exact hPrepare
  · rename_i s₁ p hEq
    rw [hEq] at hPrepare
    have hAdmit := frame_admitPacket (s := s₁) p env
    split at h
    · rename_i s₂ r hEq₂
      rw [hEq₂] at hAdmit
      obtain ⟨rfl, -⟩ := Prod.ext_iff.mp h
      exact hPrepare.trans hAdmit
    · rename_i s₂ hEq₂
      rw [hEq₂] at hAdmit
      have hPersist := frame_persist (s := s₂) p env
      split at h
      · rename_i s₃ e hEq₃
        rw [hEq₃] at hPersist
        obtain ⟨rfl, -⟩ := Prod.ext_iff.mp h
        exact (hPrepare.trans hAdmit).trans (hPersist.trans (frame_reject _ _ _ _))
      · rename_i s₃ hEq₃
        rw [hEq₃] at hPersist
        exact (hPrepare.trans hAdmit).trans (hPersist.trans (frame_commitPacket h))

/-- What an accepted datagram was, and what it changes. -/
theorem handle_ok {route : Route}
    (h : s.handle crypto verify msg source env = (s', .ok packet route)) :
    ∃ p : PreparedPacket, packet = p.packet ∧ route = p.route ∧ p.route = source.toRoute ∧
      Verified crypto verify env.keysNow msg p ∧ sessionClosed p.route env = false ∧
      s'.linkViews = Function.update s.linkViews p.packet.uid (some p.view) ∧
      ∀ j' ∈ s'.jobs, ∃ j ∈ s.jobs, j'.msg = j.msg ∧ j'.prepared = j.prepared := by
  unfold handle at h
  have hPrepare := frame_prepare (s := s) crypto verify msg source env
  split at h
  · rename_i s₁ r hEq
    obtain ⟨uid, reason, rfl⟩ := prepare_error hEq
    cases (Prod.ext_iff.mp h).2
  · rename_i s₁ p hEq
    rw [hEq] at hPrepare
    have hAdmit := frame_admitPacket (s := s₁) p env
    split at h
    · rename_i s₂ r hEq₂
      obtain ⟨uid, reason, rfl⟩ := admitPacket_some hEq₂
      cases (Prod.ext_iff.mp h).2
    · rename_i s₂ hEq₂
      rw [hEq₂] at hAdmit
      have hPersist := frame_persist (s := s₂) p env
      split at h
      · cases (Prod.ext_iff.mp h).2
      · rename_i s₃ hEq₃
        rw [hEq₃] at hPersist
        have hFrame := (hPrepare.trans hAdmit).trans hPersist
        obtain ⟨hRoute, hVerified⟩ := prepare_verified hEq
        obtain ⟨hPacket, hRoute', hOpen, hViews⟩ := commitPacket_views h
        refine ⟨p, hPacket, hRoute', hRoute, hVerified, hOpen, ?_, fun j' hj => ?_⟩
        · rw [hViews]
          exact congrArg (fun f => Function.update f _ _) hFrame.links
        · have hJobs := jobs_commitPacket (s := s₃) p env
          rw [h] at hJobs
          exact hFrame.jobs j' (hJobs ▸ hj)

/-! ## `handleDurable` -/

/-- The links stay; the only new job is the datagram, verified. -/
theorem handleDurable_jobs {r : Option IngestResult}
    (h : s.handleDurable crypto verify msg source env = (s', r)) :
    s'.linkViews = s.linkViews ∧ (∀ packet route, r ≠ some (.ok packet route)) ∧
      ∀ j' ∈ s'.jobs, (∃ j ∈ s.jobs, j'.msg = j.msg ∧ j'.prepared = j.prepared) ∨
        j'.msg = msg ∧ j'.prepared.route = source.toRoute ∧
          Verified crypto verify env.keysNow msg j'.prepared := by
  unfold handleDurable at h
  have hPrepare := frame_prepare (s := s) crypto verify msg source env
  split at h
  · rename_i s₁ r' hEq
    rw [hEq] at hPrepare
    obtain ⟨uid, reason, rfl⟩ := prepare_error hEq
    obtain ⟨rfl, rfl⟩ := Prod.ext_iff.mp h
    exact ⟨hPrepare.links, by simp, fun j' hj => Or.inl (hPrepare.jobs j' hj)⟩
  · rename_i s₁ p hEq
    rw [hEq] at hPrepare
    split at h
    · obtain ⟨rfl, rfl⟩ := Prod.ext_iff.mp h
      exact ⟨hPrepare.links, by simp [reject], fun j' hj => Or.inl (hPrepare.jobs j' hj)⟩
    · obtain ⟨rfl, rfl⟩ := Prod.ext_iff.mp h
      refine ⟨hPrepare.links, by simp, fun j' hj => ?_⟩
      rcases List.mem_append.mp hj with hj | hj
      · exact Or.inl (hPrepare.jobs j' hj)
      · obtain rfl := List.mem_singleton.mp hj
        obtain ⟨hRoute, hVerified⟩ := prepare_verified hEq
        exact Or.inr ⟨rfl, hRoute, hVerified⟩

theorem frame_setStage (id : Nat) (stage : JobStage) : Frame s (s.setStage id stage) where
  links := rfl
  jobs := by
    intro j' hj
    obtain ⟨j, hMem, rfl⟩ := List.mem_map.mp hj
    refine ⟨j, hMem, ?_⟩
    split <;> exact ⟨rfl, rfl⟩

theorem frame_settlePromises {ts : List Settled} : Frame s (s.settlePromises ts) where
  links := rfl
  jobs := by
    intro j' hj
    obtain ⟨j, hMem, rfl⟩ := List.mem_map.mp hj
    refine ⟨j, hMem, ?_⟩
    split <;> exact ⟨rfl, rfl⟩

theorem frame_admitJob : Frame s (s.admitJob id env) := by
  unfold admitJob
  split
  · exact .refl
  · rename_i j hHead
    split
    · exact .refl
    · have hAdmit := frame_admitPacket (s := s) j.prepared env
      split
      · rename_i s₁ r hEq
        rw [hEq] at hAdmit
        exact hAdmit.trans (frame_setStage _ _)
      · rename_i s₁ hEq
        rw [hEq] at hAdmit
        dsimp only
        split
        · rename_i replay _ _
          refine hAdmit.trans (Frame.trans ?_ (frame_setStage id .rejected))
          split <;> exact .of_eq rfl rfl
        · rename_i replay _
          refine hAdmit.trans (Frame.trans ?_ (frame_setStage id .awaiting))
          split <;> exact .of_eq rfl rfl

theorem resumeJob_none (h : s.resumeJob id env = (s', none)) : Frame s s' := by
  unfold resumeJob at h
  split at h
  · obtain ⟨rfl, -⟩ := Prod.ext_iff.mp h
    exact .refl
  · rename_i j hHead
    dsimp only at h
    split at h
    · split at h
      · cases (Prod.ext_iff.mp h).2
      · rename_i s₁ uid reason hEq
        obtain ⟨rfl, -⟩ := Prod.ext_iff.mp h
        have hErase : Frame s { s with pendingNewNodes := s.pendingNewNodes.erase j.uid } :=
          .of_eq rfl rfl
        exact (hErase.trans (frame_commitPacket hEq)).trans (frame_setStage _ _)
    · obtain ⟨rfl, -⟩ := Prod.ext_iff.mp h
      have hErase : Frame s { s with pendingNewNodes := s.pendingNewNodes.erase j.uid } :=
        .of_eq rfl rfl
      exact (hErase.trans (frame_reject _ _ _ _)).trans (frame_setStage _ _)
    · obtain ⟨rfl, -⟩ := Prod.ext_iff.mp h
      exact .refl

/-- What a committed job was, and what it changes. -/
theorem resumeJob_some (h : s.resumeJob id env = (s', some (msg, packet))) :
    ∃ j, s.headJob id = some j ∧ j.stage = .persisted ∧ msg = j.msg ∧
      packet = j.prepared.packet ∧ sessionClosed j.prepared.route env = false ∧
      s'.linkViews = Function.update s.linkViews j.prepared.packet.uid (some j.prepared.view) ∧
      ∀ j' ∈ s'.jobs, ∃ j ∈ s.jobs, j'.msg = j.msg ∧ j'.prepared = j.prepared := by
  unfold resumeJob at h
  split at h
  · cases (Prod.ext_iff.mp h).2
  · rename_i j hHead
    dsimp only at h
    split at h
    · rename_i hStage
      split at h
      · rename_i s₁ packet' route hEq
        obtain ⟨rfl, hResult⟩ := Prod.ext_iff.mp h
        obtain ⟨rfl, rfl⟩ : j.msg = msg ∧ packet' = packet := by simpa using hResult
        obtain ⟨hPacket, _, hOpen, hViews⟩ := commitPacket_views hEq
        have hJobs : s₁.jobs = s.jobs := by
          have hCommit := jobs_commitPacket
            (s := { s with pendingNewNodes := s.pendingNewNodes.erase j.uid }) j.prepared env
          rwa [hEq] at hCommit
        have hStaged := frame_setStage (s := s₁) id .finished
        refine ⟨j, hHead, hStage, rfl, hPacket, hOpen, hStaged.links.trans hViews, fun j' hj => ?_⟩
        obtain ⟨k, hk, hSame⟩ := hStaged.jobs j' hj
        exact ⟨k, hJobs ▸ hk, hSame⟩
      · cases (Prod.ext_iff.mp h).2
    · cases (Prod.ext_iff.mp h).2
    · cases (Prod.ext_iff.mp h).2

theorem frame_settleJob : Frame s (s.settleJob id) := by
  unfold settleJob
  split
  · exact .refl
  · split
    · exact .refl
    · exact ⟨rfl, fun j' hj => ⟨j', List.mem_of_mem_filter hj, rfl, rfl⟩⟩

/-! ## The rest -/

theorem frame_timerFires {io : Io} : Frame s (s.timerFires io) := by
  unfold timerFires
  have hReplay : Frame s { s with replay := (s.replay.timerFires io).1 } := .of_eq rfl rfl
  exact hReplay.trans frame_settlePromises

theorem frame_syncDone {ok : Bool} : Frame s (s.syncDone ok) := by
  unfold syncDone
  have hReplay : Frame s { s with replay := (s.replay.syncDone ok).1 } := .of_eq rfl rfl
  exact hReplay.trans frame_settlePromises

theorem frame_allocateCommandSeq (now : ℚ) (io : Io) : Frame s (s.allocateCommandSeq now io).1 := by
  unfold allocateCommandSeq
  dsimp only
  split
  · exact .refl
  · split <;> exact .of_eq rfl rfl

theorem jobs_resetCursor (uid : String) (io : Io) : (s.resetCursor uid io).1.jobs = s.jobs := by
  unfold resetCursor
  split
  · rfl
  · split
    · rfl
    · split <;> rfl

/-- A reset forgets the link, or leaves all as they are. -/
theorem linkViews_resetCursor (uid : String) (io : Io) :
    (s.resetCursor uid io).1.linkViews = s.linkViews ∨
      (s.resetCursor uid io).1.linkViews = Function.update s.linkViews uid none := by
  unfold resetCursor
  split
  · exact Or.inl rfl
  · split
    · exact Or.inl rfl
    · split
      · exact Or.inl rfl
      · right
        funext k
        simp only [linkViews, get_delete, update_apply]
        split <;> rfl

theorem jobs_dropDirectRoute {uid sessionId : String} :
    (s.dropDirectRoute uid sessionId).1.jobs = s.jobs := by
  unfold dropDirectRoute
  split
  · split
    · split <;> rfl
    · rfl
  · rfl

theorem linkViews_dropDirectRoute (uid sessionId : String) :
    (s.dropDirectRoute uid sessionId).1.linkViews =
      Function.update s.linkViews uid ((s.linkViews uid).map (LinkView.dropped sessionId)) := by
  have hSame : (s.linkViews uid).map (LinkView.dropped sessionId) = s.linkViews uid →
      s.linkViews = Function.update s.linkViews uid
        ((s.linkViews uid).map (LinkView.dropped sessionId)) := by
    intro hf
    rw [hf, update_eq_self]
  unfold dropDirectRoute
  cases hLink : s.links.get uid with
  | none => exact hSame (by simp [linkViews, hLink])
  | some link =>
    dsimp only
    split
    · rename_i address session hRoute
      split
      · rename_i hOther
        exact hSame (by simp [linkViews, hLink, NodeLink.view, LinkView.dropped, hRoute, hOther])
      · rename_i hSession
        funext k
        simp only [linkViews, get_set, update_apply]
        split
        · simp [hLink, NodeLink.view, LinkView.dropped, hRoute, hSession]
        · rfl
    · rename_i hRoute
      refine hSame ?_
      rw [linkViews, hLink, map_some, map_some, LinkView.dropped]
      split
      · rename_i address session hView
        exact absurd hView (hRoute address session)
      · rfl

end frame

end State

end TMEdge.Ingest
