import TMEdge.Ingest.Links
import TMEdge.NodeLink.Model

/-!
# What the sessions leave alone

Nothing that happens to a session touches the grants or the queue of `Ingest` (`rest`); a
datagram that is handed to `Ingest` is the only job that it adds.
-/

namespace TMEdge.NodeLink

open Library Protocol

variable {cfg : Config} {e : Edge} {ref : Nat}

@[simp] theorem session?_updateSession (f : Session → Session) :
    (e.updateSession ref f).session? = Function.update e.session? ref ((e.session? ref).map f) := by
  funext k
  simp only [Edge.session?, Edge.updateSession, List.getElem?_modify, Function.update_apply]
  by_cases hk : k = ref
  · simp [hk]
  · simp [hk, Ne.symm hk]

def Edge.rest (e : Edge) : JsMap String Grant × List Ingest.Job :=
  (e.server.grants, e.ingest.jobs)

@[simp] theorem rest_updateSession (f : Session → Session) :
    (e.updateSession ref f).rest = e.rest := rfl

@[simp] theorem rest_closed : (e.closed ref).rest = e.rest := by
  unfold Edge.closed
  split
  · rfl
  · split
    · rfl
    · dsimp only
      split
      · rfl
      · split
        · exact congrArg (Prod.mk _) Ingest.State.jobs_dropDirectRoute
        · rfl

@[simp] theorem rest_fail : (e.fail ref).rest = e.rest := rest_closed

@[simp] theorem rest_control (env : Env) (message : Control) :
    (e.control cfg env ref message).1.rest = e.rest := by
  unfold Edge.control
  split
  · rfl
  · dsimp only
    split
    · rfl
    · split
      · exact rest_fail
      · split
        · split
          · rfl
          · split <;> simp
        · rfl

@[simp] theorem rest_withinRate (cfg : Config) (ref : Nat) (env : Env) (bytes : Nat) :
    (e.withinRate cfg env ref bytes).1.rest = e.rest := by
  unfold Edge.withinRate
  split
  · rfl
  · dsimp only
    split
    · rfl
    · split <;> simp

@[simp] theorem rest_authenticate (env : Env) (auth : AuthText) :
    (e.authenticate cfg env ref auth).rest = e.rest := by
  unfold Edge.authenticate
  split
  · rfl
  · exact rest_fail
  · dsimp only
    split
    · rfl
    · split
      · simp
      · split
        · simp
        · split
          · simp
          · rw [rest_control]
            rfl

@[simp] theorem rest_activate : (e.activate ref).rest = e.rest := by
  unfold Edge.activate
  split
  · rfl
  · dsimp only
    split
    · split
      · rw [rest_fail]
        rfl
      · rfl
    · rfl

@[simp] theorem rest_packetAccepted (env : Env) (packet : Packet) :
    (e.packetAccepted cfg env ref packet).rest = e.rest := by
  unfold Edge.packetAccepted
  split
  · rfl
  · split
    · rfl
    · dsimp only
      split <;> split <;> simp

@[simp] theorem rest_packetResult (env : Env) (result : Ingest.IngestResult) :
    (e.packetResult cfg env ref result).rest = e.rest := by
  cases result with
  | ok packet route => exact rest_packetAccepted env packet
  | refused uid reason => rfl


theorem route_updateSession {f : Session → Session} (hf : ∀ s, (f s).route = s.route) (k : Nat) :
    ((e.updateSession ref f).session? k).bind Session.route =
      (e.session? k).bind Session.route := by
  rw [session?_updateSession, Function.update_apply]
  split
  · rename_i hk
    rw [hk]
    cases e.session? ref <;> simp [hf]
  · rfl

theorem route_withinRate {env : Env} {bytes : Nat} {e' : Edge}
    (h : e.withinRate cfg env ref bytes = (e', true)) :
    (e'.session? ref).bind Session.route = (e.session? ref).bind Session.route := by
  unfold Edge.withinRate at h
  split at h
  · cases (Prod.ext_iff.mp h).2
  · dsimp only at h
    split at h
    · obtain ⟨rfl, -⟩ := Prod.ext_iff.mp h
      exact route_updateSession (by intro _; rfl) ref
    · cases (Prod.ext_iff.mp h).2

/-- A message either stays with the session, or is a datagram for `Ingest`. -/
theorem message_cases (cfg : Config) (e : Edge) (ref : Nat) (env : Env) (ienv : Ingest.Env)
    (data : Incoming) :
    (e.message cfg env ienv ref data).rest = e.rest ∨
      ∃ bytes, data = .binary bytes ∧ ∃ e' : Edge, e'.rest = e.rest ∧
        (e'.session? ref).bind Session.route = (e.session? ref).bind Session.route ∧
        e.message cfg env ienv ref data = e'.packet cfg env ienv ref bytes := by
  unfold Edge.message
  split
  · exact Or.inl rfl
  · split
    · exact Or.inl rfl
    · left
      dsimp only
      split
      · split <;> simp
      · simp
    · dsimp only
      split
      · left
        simp
      · rename_i bytes
        have hRate := rest_withinRate (e := e.updateSession ref fun s => { s with lastHeard := env.mono })
          cfg ref env bytes.length
        split
        · rename_i e' hEq
          rw [hEq] at hRate
          exact Or.inr ⟨bytes, rfl, e', hRate,
            (route_withinRate hEq).trans (route_updateSession (by intro _; rfl) ref), rfl⟩
        · rename_i hEq
          rw [hEq] at hRate
          exact Or.inl hRate

end TMEdge.NodeLink
