import TMEdge.Rollout.Core

/-!
# Requests held back over time

A call of `request` that waits for `beforeDispatch` looks at its node again when it goes
on. Between the two nothing makes the node sendable that was not: `sendable_back`. The
names of rollouts and nodes never change, and the ids of suspended calls are fresh.

`Held` is the invariant behind it; it is kept by every step of the core.
-/

namespace TMEdge.Rollout

open Library Relation List Option

structure Held (c : Core) : Prop where
  active_last : ∀ v, c.active = some v → v + 1 = c.size
  known : ∀ ref g, c.state ref = some g → ref.view < c.size
  requests_nodup : c.requests.Nodup
  requests : ∀ ref ∈ c.requests, ∃ g, c.state ref = some g ∧ g ≠ .queued
  fresh : ∀ id, c.nextTask ≤ id → c.task? id = none

theorem held_new : Held Rollouts.new.core := by
  constructor <;> simp [Rollouts.core, Rollouts.new, Rollouts.node?, Rollouts.task?]

theorem nodup_of_subperm {l l' : List NodeRef} (h : l.Subperm l') (hNodup : l'.Nodup) :
    l.Nodup := by
  obtain ⟨m, hPerm, hSub⟩ := h
  exact hPerm.nodup_iff.mp (hSub.nodup hNodup)

section steps

variable {A O B : Prop} {c c' : Core} {ref : NodeRef}

/-- A node is set to a state other than `queued`. -/
theorem Held.setNode (h : Held c) (trace : List Effect) {old new : NodeUpdateState}
    (hState : c.state ref = some old) (hNew : new ≠ .queued) :
    Held { c with
      state := Function.update c.state ref (some new)
      trace := trace } where
  active_last := h.active_last
  known := by
    intro r g hr
    by_cases hEq : r = ref
    · exact hEq ▸ h.known ref old hState
    · exact h.known r g (by simpa [hEq] using hr)
  requests_nodup := h.requests_nodup
  requests := by
    intro r hr
    by_cases hEq : r = ref
    · exact ⟨new, by simp [hEq], hNew⟩
    · simpa [hEq] using h.requests r hr
  fresh := h.fresh

theorem held_nodeStep (h : Held c) (hStep : NodeStep A O c c') : Held c' := by
  cases hStep with
  | set hState hOld hNew hDone => exact h.setNode _ hState hNew.1
  | @launch ref hCurrent hState hPilot =>
    have hNotHeld : ref ∉ c.requests := by
      intro hMem
      obtain ⟨g, hg, hNe⟩ := h.requests ref hMem
      exact hNe (some.inj (hg.symm.trans hState))
    have hSet := h.setNode (c.trace ++ [.set ref .sending]) hState (by simp : .sending ≠ _)
    refine ⟨hSet.active_last, hSet.known, ?_, fun r hr => ?_, hSet.fresh⟩
    · exact nodup_append'.mpr ⟨h.requests_nodup, nodup_singleton _, by simpa using hNotHeld⟩
    · rcases mem_append.mp hr with hr | hr
      · exact hSet.requests r hr
      · rw [mem_singleton.mp hr]
        exact ⟨.sending, by simp, by simp⟩
  | dropped hRequests =>
    exact ⟨h.active_last, h.known, nodup_of_subperm hRequests h.requests_nodup,
      fun r hr => h.requests r (hRequests.subset hr), h.fresh⟩
  | @requeue ref requests hRequests hState =>
    obtain ⟨hFree, hNodup⟩ := nodup_cons.mp (nodup_of_subperm hRequests h.requests_nodup)
    refine ⟨h.active_last, fun r g hr => ?_, hNodup, fun r hr => ?_, h.fresh⟩
    · by_cases hEq : r = ref
      · exact hEq ▸ h.known ref _ hState
      · exact h.known r g (by simpa [hEq] using hr)
    · have hEq : r ≠ ref := fun hEq => hFree (hEq ▸ hr)
      simpa [hEq] using h.requests r (hRequests.subset (mem_cons_of_mem _ hr))
  | ota hO hRequests hCurrent hState =>
    have hTail := (sublist_cons_self _ _).subperm.trans hRequests
    exact ⟨h.active_last, h.known, nodup_of_subperm hTail h.requests_nodup,
      fun r hr => h.requests r (hTail.subset hr), h.fresh⟩
  | push hCurrent => exact ⟨h.active_last, h.known, h.requests_nodup, h.requests, h.fresh⟩
  | tasks hNext hOld hFresh =>
    exact ⟨h.active_last, h.known, h.requests_nodup, h.requests,
      fun id hId => hFresh id hId (h.fresh id (Nat.le_trans hNext hId))⟩

theorem held_coreStep (h : Held c) (hStep : CoreStep A O B c c') : Held c' := by
  cases hStep with
  | node hNode => exact held_nodeStep h hNode
  | start hName hActive =>
    refine ⟨by simp, fun ref g hg => ?_, h.requests_nodup, fun ref hRef => ?_, h.fresh⟩
    · dsimp only at hg ⊢
      split at hg
      · omega
      · exact Nat.lt_succ_of_lt (h.known ref g hg)
    · obtain ⟨g, hg, hNe⟩ := h.requests ref hRef
      refine ⟨g, ?_, hNe⟩
      dsimp only
      rwa [if_neg (Nat.ne_of_lt (h.known ref g hg))]
  | rest _ _ => exact ⟨h.active_last, h.known, h.requests_nodup, h.requests, h.fresh⟩
  | stop _ _ => exact ⟨h.active_last, h.known, h.requests_nodup, h.requests, h.fresh⟩
  | close _ _ => exact ⟨h.active_last, h.known, h.requests_nodup, h.requests, h.fresh⟩

theorem held_coreSteps (h : Held c) (hSteps : ReflTransGen (CoreStep A O B) c c') : Held c' := by
  induction hSteps with
  | refl => exact h
  | tail _ hStep ih => exact held_coreStep ih hStep

/-! ## What never comes back -/

/-- A state other than these two is not left for one of them. -/
def Core.Left (c : Core) (ref : NodeRef) : Prop :=
  ∃ g, c.state ref = some g ∧ g ≠ .queued ∧ g ≠ .sending

theorem left_coreStep (h : Held c) (hStep : CoreStep A O B c c') (hLeft : c.Left ref) :
    c'.Left ref := by
  obtain ⟨g, hg, hQueued, hSending⟩ := hLeft
  have hOther : ∀ {r : NodeRef} {old : NodeUpdateState}, c.state r = some old →
      old = .queued ∨ old = .sending → ref ≠ r := by
    rintro r old hr hOld rfl
    obtain rfl := some.inj (hg.symm.trans hr)
    rcases hOld with rfl | rfl
    · exact hQueued rfl
    · exact hSending rfl
  cases hStep with
  | node hNode =>
    cases hNode with
    | @set r old new done hr hOld hNew hDone =>
      by_cases hEq : ref = r
      · exact ⟨new, by simp [hEq], hNew⟩
      · exact ⟨g, by simpa [hEq] using hg, hQueued, hSending⟩
    | launch _ hr _ => exact ⟨g, by simpa [hOther hr (Or.inl rfl)] using hg, hQueued, hSending⟩
    | requeue _ hr => exact ⟨g, by simpa [hOther hr (Or.inr rfl)] using hg, hQueued, hSending⟩
    | _ => exact ⟨g, hg, hQueued, hSending⟩
  | start _ _ =>
    refine ⟨g, ?_, hQueued, hSending⟩
    dsimp only
    rwa [if_neg (Nat.ne_of_lt (h.known ref g hg))]
  | _ => exact ⟨g, hg, hQueued, hSending⟩

theorem NodeStep.current_iff (hStep : NodeStep A O c c') {v : Nat} :
    c'.Current v ↔ c.Current v := by
  rw [Core.Current, Core.Current, hStep.same.active, hStep.same.stage]

theorem current_back (hStep : CoreStep A O B c c') {v : Nat} (hv : v < c.size)
    (hCurrent : c'.Current v) : c.Current v := by
  cases hStep with
  | node hNode => exact hNode.current_iff.mp hCurrent
  | start _ _ =>
    have hActive : c.size = v := some.inj hCurrent.1
    omega
  | @rest view hOld hPilot =>
    obtain rfl : view = v := some.inj (hOld.1.symm.trans hCurrent.1)
    exact hOld
  | @stop view hB hOld =>
    obtain rfl : view = v := some.inj (hOld.1.symm.trans hCurrent.1)
    exact hOld
  | @close view g n hOld hEnded =>
    obtain rfl : view = v := some.inj (hOld.1.symm.trans hCurrent.1)
    exact hOld

theorem size_coreStep (hStep : CoreStep A O B c c') : c.size ≤ c'.size := by
  cases hStep with
  | node hNode => rw [hNode.same.size]
  | start _ _ => exact Nat.le_succ _
  | _ => exact Nat.le_refl _

/-- `request` could send its OTA: its node is current and still `sending`. -/
def Core.Sendable (c : Core) (ref : NodeRef) : Prop :=
  c.Current ref.view ∧ c.state ref = some .sending

/-- The node of a held request is sendable later only if it is now. -/
theorem sendable_back (h : Held c) (hSteps : ReflTransGen (CoreStep A O B) c c')
    {g : NodeUpdateState} (hState : c.state ref = some g) (hQueued : g ≠ .queued)
    (hSendable : c'.Sendable ref) : c.Sendable ref := by
  have hView := h.known ref g hState
  constructor
  · have hCurrent : c'.Current ref.view ∧ ref.view < c'.size := by
      refine ⟨hSendable.1, ?_⟩
      have hHeld := held_coreSteps h hSteps
      exact hHeld.known ref _ hSendable.2
    clear hSendable
    induction hSteps with
    | refl => exact hCurrent.1
    | @tail b d hSteps hStep ih =>
      have hSize : ref.view < b.size := by
        clear ih hStep hCurrent
        induction hSteps with
        | refl => exact hView
        | tail _ hStep ih => exact Nat.lt_of_lt_of_le ih (size_coreStep hStep)
      exact ih ⟨current_back hStep hSize hCurrent.1, hSize⟩
  · by_contra hNot
    have hLeft : c.Left ref :=
      ⟨g, hState, hQueued, fun hSending => hNot (hSending ▸ hState)⟩
    have hStays : c'.Left ref := by
      clear hSendable
      induction hSteps with
      | refl => exact hLeft
      | tail hSteps hStep ih => exact left_coreStep (held_coreSteps h hSteps) hStep ih
    obtain ⟨g', hg', _, hNe⟩ := hStays
    exact hNe (some.inj (hg'.symm.trans hSendable.2))

theorem size_coreSteps (hSteps : ReflTransGen (CoreStep A O B) c c') : c.size ≤ c'.size := by
  induction hSteps with
  | refl => exact Nat.le_refl _
  | tail _ hStep ih => exact Nat.le_trans ih (size_coreStep hStep)

/-- Names never change. -/
theorem name_coreSteps (hSteps : ReflTransGen (CoreStep A O B) c c') (hView : ref.view < c.size) :
    c'.name ref = c.name ref := by
  induction hSteps with
  | refl => rfl
  | tail hSteps hStep ih =>
    rw [← ih]
    cases hStep with
    | node hNode => rw [hNode.same.name]
    | start hName _ => exact hName ref (Nat.ne_of_lt (Nat.lt_of_lt_of_le hView (size_coreSteps hSteps)))
    | _ => rfl

theorem nextTask_coreStep (hStep : CoreStep A O B c c') : c.nextTask ≤ c'.nextTask := by
  cases hStep with
  | node hNode =>
    cases hNode with
    | tasks hNext _ _ => exact hNext
    | _ => exact Nat.le_refl _
  | _ => exact Nat.le_refl _

theorem nextTask_coreSteps (hSteps : ReflTransGen (CoreStep A O B) c c') :
    c.nextTask ≤ c'.nextTask := by
  induction hSteps with
  | refl => exact Nat.le_refl _
  | tail _ hStep ih => exact Nat.le_trans ih (nextTask_coreStep hStep)

/-- A call that exists holds back a request later only if it does now. -/
theorem request?_back (hSteps : ReflTransGen (CoreStep A O B) c c') {id : Nat}
    (hId : id < c.nextTask) (h : c'.request? id = some ref) : c.request? id = some ref := by
  induction hSteps with
  | refl => exact h
  | @tail b d hSteps hStep ih =>
    refine ih ?_
    cases hStep with
    | node hNode =>
      cases hNode with
      | tasks _ hOld _ => exact hOld id (Nat.lt_of_lt_of_le hId (nextTask_coreSteps hSteps)) ref h
      | _ => exact h
    | _ => exact h

/-- Without leave to send, no OTA goes out. -/
theorem ota_coreSteps (hNot : ¬ O) (hSteps : ReflTransGen (CoreStep A O B) c c') {uid : String}
    {image : OtaImage} (h : .ota ref uid image ∈ c'.trace) : .ota ref uid image ∈ c.trace := by
  induction hSteps with
  | refl => exact h
  | tail _ hStep ih =>
    refine ih ?_
    cases hStep with
    | node hNode =>
      cases hNode with
      | set _ _ _ hDone =>
        rcases mem_append.mp h with h | h
        · exact h
        · rcases mem_cons.mp h with h | h
          · cases h
          · obtain ⟨u, hu⟩ := hDone _ h
            cases hu
      | ota hO _ _ _ => exact absurd hO hNot
      | dropped _ => exact h
      | tasks _ _ _ => exact h
      | _ => simpa using h
    | close _ _ =>
      rcases mem_append.mp h with h | h
      · rcases mem_append.mp h with h | h
        · exact h
        · cases eq_of_mem_replicate h
      · cases mem_singleton.mp h
    | _ => simpa using h

end steps

/-! ## What every piece of the code keeps -/

namespace Rollouts

/-- How a state of the rollouts may be followed by another. -/
structure Keeps (s s' : Rollouts) : Prop where
  held : Held s'.core
  size : s.views.length ≤ s'.views.length
  nextTask : s.nextTask ≤ s'.nextTask
  name : ∀ ref, ref.view < s.views.length → s'.name? ref = s.name? ref
  request : ∀ id ref, id < s.nextTask → s'.core.request? id = some ref →
    s.core.request? id = some ref
  sendable : ∀ ref ∈ s.core.requests, s'.core.Sendable ref → s.core.Sendable ref

variable {s : Rollouts}

theorem mem_requests {id : Nat} {ref : NodeRef} (h : s.core.request? id = some ref) :
    ref ∈ s.core.requests := by
  obtain ⟨t, hTask, hRef⟩ := bind_eq_some_iff.mp h
  exact mem_filterMap.mpr ⟨t, mem_of_find?_eq_some hTask, hRef⟩

theorem keeps_coreSteps {s' : Rollouts} {A O B : Prop} (h : Held s.core)
    (hSteps : CoreSteps A O B s s') : Keeps s s' where
  held := held_coreSteps h hSteps
  size := size_coreSteps hSteps
  nextTask := nextTask_coreSteps hSteps
  name := fun _ hView => name_coreSteps hSteps hView
  request := fun _ _ hId hRef => request?_back hSteps hId hRef
  sendable := by
    intro ref hRef hSendable
    obtain ⟨g, hg, hNe⟩ := h.requests ref hRef
    exact sendable_back h hSteps hg hNe hSendable

theorem view_lt_of_state {ref : NodeRef} {g : NodeUpdateState} (h : s.core.state ref = some g) :
    ref.view < s.views.length := by
  by_contra hNot
  simp [core, node?, getElem?_eq_none (Nat.le_of_not_lt hNot)] at h

/-- `restore` leaves the old rollouts behind. -/
theorem keeps_restore (h : Held s.core) (current : Option RolloutView)
    (history : List RolloutView) : Keeps s (s.restore current history) := by
  have hOld : ∀ v, v < s.views.length →
      (s.restore current history).views[v]? = s.views[v]? := by
    intro v hv
    simp only [restore]
    rw [append_assoc, getElem?_append_left hv]
  have hState : ∀ ref : NodeRef, ref.view < s.views.length →
      (s.restore current history).core.state ref = s.core.state ref := by
    intro ref hRef
    simp only [core, node?, hOld _ hRef]
  have hSize : s.views.length ≤ (s.restore current history).views.length := by
    simp only [restore, length_append]
    omega
  refine ⟨⟨?_, fun ref g hg => view_lt_of_state hg, h.requests_nodup, ?_, h.fresh⟩, hSize,
    Nat.le_refl _, ?_, fun _ _ _ hRef => hRef, ?_⟩
  · intro v hv
    obtain ⟨r, hCurrent, rfl⟩ := map_eq_some_iff.mp hv
    obtain rfl := hCurrent
    simp only [core, restore, length_append, toList_some, length_singleton]
  · intro ref hRef
    obtain ⟨g, hg, hNe⟩ := h.requests ref hRef
    exact ⟨g, by rw [hState ref (view_lt_of_state hg), hg], hNe⟩
  · intro ref hRef
    simp only [name?, hOld _ hRef]
  · intro ref hRef hSendable
    obtain ⟨g, hg, _⟩ := h.requests ref hRef
    have hLt := view_lt_of_state hg
    obtain ⟨r, _, hEq⟩ := map_eq_some_iff.mp hSendable.1.1
    omega

end Rollouts

end TMEdge.Rollout
