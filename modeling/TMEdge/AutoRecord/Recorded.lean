import Mathlib.Tactic.Linarith
import Mathlib.Data.List.Basic
import TMEdge.AutoRecord.Switch

/-!
# The frames around people

* `Queues.step`: what every call keeps. A frame waits only while the node is inactive.
* `written_iff`: a waiting frame is written by the first presence within the pre-roll.
* `auto_recording`: which frames are written, once and in order.
-/

namespace TMEdge.AutoRecord

open Library List JsMap

variable {w : World} {now : ℚ} {f g : Frame} {uid : Text} {e : Event} {es : List Event}
  {t people : ℚ}

/-! ## What every call keeps -/

/-- The frames a world has waiting or has written. -/
def World.Knows (w : World) (f : Frame) : Prop :=
  f ∈ w.written ∨ ∃ uid, f ∈ (w.switch.queued uid).map Prod.snd

/-- What waits and what is written after the calls up to `now`. -/
structure Queues (w : World) (now : ℚ) : Prop where
  quiet : w.switch.mode ≠ .auto → ∀ uid, w.switch.queued uid = []
  waiting : ∀ uid, ∀ item ∈ w.switch.queued uid,
    item.2.uid = uid ∧ item.2.at_ = item.1 ∧ item.1 ≤ now ∧
      ∀ last, w.switch.lastPersonAt.get uid = some last → last + holdMs < item.1
  queue : ∀ uid, (w.switch.queued uid).Pairwise fun a b => a.2.serial < b.2.serial
  later : ∀ uid, ∀ item ∈ w.switch.queued uid, ∀ f ∈ w.written, f.uid = uid →
    f.serial < item.2.serial
  order : w.written.Pairwise fun a b => a.uid = b.uid → a.serial < b.serial

/-- A number belongs to one frame. -/
structure Numbered (w : World) : Prop where
  fresh : ∀ f, w.Knows f → f.serial < w.offered
  apart : ∀ f g, w.Knows f → w.Knows g → f.serial = g.serial → f = g

theorem queues_start (mode : RecordMode) (now : ℚ) : Queues (.start mode) now := by
  have hEmpty : ∀ uid, (World.start mode).switch.queued uid = [] := fun _ => rfl
  refine ⟨fun _ => hEmpty, fun uid item hItem => ?_, fun uid => ?_, fun uid item hItem => ?_, .nil⟩
  · rw [hEmpty] at hItem
    cases hItem
  · rw [hEmpty]
    exact .nil
  · rw [hEmpty] at hItem
    cases hItem

theorem numbered_start (mode : RecordMode) : Numbered (.start mode) := by
  have hNone : ∀ f, ¬ (World.start mode).Knows f := by
    rintro f (hf | ⟨uid, hf⟩)
    · cases hf
    · cases hf
  exact ⟨fun f hf => absurd hf (hNone f), fun f _ hf => absurd hf (hNone f)⟩

/-- Nothing waits at a node that is active. -/
theorem Queues.queued_of_active (h : Queues w now) (ht : now ≤ t)
    (hActive : w.switch.active uid t = true) : w.switch.queued uid = [] := by
  refine eq_nil_iff_forall_not_mem.mpr fun item hItem => ?_
  obtain ⟨-, -, hBefore, hLast⟩ := h.waiting uid item hItem
  unfold RecordSwitch.active at hActive
  split at hActive
  · cases hActive
  · rename_i last hGet
    have hLate := hLast last hGet
    have hHeld := of_decide_eq_true hActive
    linarith

/-! ## The calls -/

theorem step_presence_none (hPeople : people ≤ 0) : w.step (.presence uid people t) = w := by
  unfold World.step RecordSwitch.presence
  dsimp only
  rw [if_pos hPeople, append_nil]

theorem step_presence_seen (hPeople : 0 < people)
    (hActive : w.switch.mode ≠ .auto ∨ w.switch.active uid t = true) :
    w.step (.presence uid people t) =
      { w with switch := { w.switch with lastPersonAt := w.switch.lastPersonAt.set uid t } } := by
  unfold World.step RecordSwitch.presence
  dsimp only
  rw [if_neg (not_le.mpr hPeople), if_pos (by simpa using hActive), append_nil]

/-- What a presence keeps of the frames that waited. -/
def World.released (w : World) (uid : Text) (t : ℚ) : List Frame :=
  ((w.switch.queued uid).filter fun item => t - item.1 ≤ prerollMs).map Prod.snd

theorem step_presence_appears (hPeople : 0 < people) (hAuto : w.switch.mode = .auto)
    (hActive : w.switch.active uid t = false) :
    w.step (.presence uid people t) =
      ⟨⟨.auto, w.switch.lastPersonAt.set uid t, w.switch.pending.delete uid⟩, w.offered,
        w.written ++ w.released uid t⟩ := by
  unfold World.step RecordSwitch.presence
  dsimp only
  rw [if_neg (not_le.mpr hPeople), if_neg (by simp [hAuto, hActive]), hAuto]
  rfl

theorem step_gate_off (hOff : w.switch.mode = .off) :
    w.step (.gate uid t) = { w with offered := w.offered + 1 } := by
  unfold World.step RecordSwitch.gate
  rw [hOff]
  dsimp only
  rw [append_nil]

theorem step_gate_written
    (hOn : w.switch.mode = .on ∨ w.switch.mode = .auto ∧ w.switch.active uid t = true) :
    w.step (.gate uid t) =
      ⟨w.switch, w.offered + 1, w.written ++ [⟨uid, t, w.offered⟩]⟩ := by
  unfold World.step RecordSwitch.gate
  rcases hOn with hOn | ⟨hAuto, hActive⟩
  · rw [hOn]
  · rw [hAuto]
    dsimp only
    rw [if_pos hActive]

/-- The frames that wait after another has joined them. -/
def World.joined (w : World) (uid : Text) (t : ℚ) : List (ℚ × Frame) :=
  ((w.switch.queued uid).filter fun item => t - item.1 ≤ prerollMs) ++ [(t, ⟨uid, t, w.offered⟩)]

theorem step_gate_waits (hAuto : w.switch.mode = .auto) (hActive : w.switch.active uid t = false) :
    w.step (.gate uid t) =
      ⟨⟨.auto, w.switch.lastPersonAt, w.switch.pending.set uid (w.joined uid t)⟩, w.offered + 1,
        w.written⟩ := by
  unfold World.step RecordSwitch.gate
  rw [hAuto]
  dsimp only
  rw [if_neg (by rw [hActive]; exact Bool.false_ne_true), append_nil]
  rfl

/-! ## Every call keeps it -/

theorem queued_set (s : RecordSwitch Frame) (mode : RecordMode) (last : JsMap Text ℚ)
    (uid : Text) (l : List (ℚ × Frame)) (u : Text) :
    (⟨mode, last, s.pending.set uid l⟩ : RecordSwitch Frame).queued u =
      if u = uid then l else s.queued u := by
  unfold RecordSwitch.queued
  rw [get_set]
  split <;> rfl

theorem queued_delete (s : RecordSwitch Frame) (mode : RecordMode) (last : JsMap Text ℚ)
    (uid u : Text) : (⟨mode, last, s.pending.delete uid⟩ : RecordSwitch Frame).queued u =
      if u = uid then [] else s.queued u := by
  unfold RecordSwitch.queued
  rw [get_delete]
  split <;> rfl

theorem mem_released :
    f ∈ w.released uid t ↔ ∃ item ∈ w.switch.queued uid, t - item.1 ≤ prerollMs ∧ item.2 = f := by
  simp [World.released, and_assoc]

theorem Queues.seen (h : Queues w now) (hEmpty : w.switch.queued uid = []) :
    Queues { w with switch := { w.switch with lastPersonAt := w.switch.lastPersonAt.set uid t } }
      now := by
  refine ⟨h.quiet, fun u item hItem => ?_, h.queue, h.later, h.order⟩
  obtain ⟨hUid, hAt, hBefore, hLast⟩ := h.waiting u item hItem
  refine ⟨hUid, hAt, hBefore, fun last hGet => hLast last ?_⟩
  dsimp only at hGet
  rwa [get_set, if_neg] at hGet
  rintro rfl
  change item ∈ w.switch.queued u at hItem
  rw [hEmpty] at hItem
  cases hItem

theorem Queues.later_clock (h : Queues w now) (ht : now ≤ t) : Queues w t :=
  { h with
    waiting := fun u item hItem =>
      let ⟨hUid, hAt, hBefore, hLast⟩ := h.waiting u item hItem
      ⟨hUid, hAt, hBefore.trans ht, hLast⟩ }

theorem Queues.appears (h : Queues w now) (t : ℚ) :
    Queues ⟨⟨.auto, w.switch.lastPersonAt.set uid t, w.switch.pending.delete uid⟩, w.offered,
      w.written ++ w.released uid t⟩ now := by
  have hQueued := queued_delete w.switch .auto (w.switch.lastPersonAt.set uid t) uid
  have hReleased : ∀ f ∈ w.released uid t, f.uid = uid := by
    intro f hf
    obtain ⟨item, hItem, -, rfl⟩ := mem_released.mp hf
    exact (h.waiting uid item hItem).1
  have hOther : ∀ {u item}, item ∈ (⟨.auto, w.switch.lastPersonAt.set uid t,
      w.switch.pending.delete uid⟩ : RecordSwitch Frame).queued u →
      u ≠ uid ∧ item ∈ w.switch.queued u := by
    intro u item hItem
    rw [hQueued] at hItem
    split at hItem
    · cases hItem
    · rename_i hNe
      exact ⟨hNe, hItem⟩
  refine ⟨fun hMode => absurd rfl hMode, fun u item hItem => ?_, fun u => ?_,
    fun u item hItem f hf hEq => ?_, ?_⟩
  · obtain ⟨hNe, hItem⟩ := hOther hItem
    obtain ⟨hUid, hAt, hBefore, hLast⟩ := h.waiting u item hItem
    refine ⟨hUid, hAt, hBefore, fun last hGet => hLast last ?_⟩
    dsimp only at hGet
    rwa [get_set, if_neg hNe] at hGet
  · rw [hQueued]
    split
    · exact .nil
    · exact h.queue u
  · obtain ⟨hNe, hItem⟩ := hOther hItem
    rcases mem_append.mp hf with hf | hf
    · exact h.later u item hItem f hf hEq
    · exact absurd (hEq.symm.trans (hReleased f hf)) hNe
  · refine pairwise_append.mpr ⟨h.order, ?_, fun a ha b hb hEq => ?_⟩
    · refine pairwise_map.mpr (((h.queue uid).sublist filter_sublist).imp ?_)
      exact fun hLt _ => hLt
    · obtain ⟨item, hItem, -, rfl⟩ := mem_released.mp hb
      exact h.later uid item hItem a ha (hEq.trans (h.waiting uid item hItem).1)

theorem Queues.written (h : Queues w now) (hNumbered : Numbered w) {t : ℚ} (hEmpty : w.switch.queued uid = []) :
    Queues ⟨w.switch, w.offered + 1, w.written ++ [⟨uid, t, w.offered⟩]⟩ now := by
  refine ⟨h.quiet, h.waiting, h.queue, fun u item hItem f hf hEq => ?_, ?_⟩
  · rcases mem_append.mp hf with hf | hf
    · exact h.later u item hItem f hf hEq
    · rw [mem_singleton.mp hf] at hEq
      change item ∈ w.switch.queued u at hItem
      rw [← hEq, hEmpty] at hItem
      cases hItem
  · refine pairwise_append.mpr ⟨h.order, pairwise_singleton _ _, fun a ha b hb _ => ?_⟩
    rw [mem_singleton.mp hb]
    exact hNumbered.fresh a (Or.inl ha)

theorem Queues.waits (h : Queues w now) (hNumbered : Numbered w) (ht : now ≤ t)
    (hActive : w.switch.active uid t = false) :
    Queues ⟨⟨.auto, w.switch.lastPersonAt, w.switch.pending.set uid (w.joined uid t)⟩, w.offered + 1,
      w.written⟩ t := by
  have hQueued := queued_set w.switch .auto w.switch.lastPersonAt uid (w.joined uid t)
  have hJoined : ∀ {u item}, item ∈ (⟨.auto, w.switch.lastPersonAt,
      w.switch.pending.set uid (w.joined uid t)⟩ : RecordSwitch Frame).queued u →
      item ∈ w.switch.queued u ∨ u = uid ∧ item = (t, ⟨uid, t, w.offered⟩) := by
    intro u item hItem
    rw [hQueued] at hItem
    split at hItem
    · rename_i hEq
      rcases mem_append.mp hItem with hItem | hItem
      · exact Or.inl (hEq ▸ (mem_filter.mp hItem).1)
      · exact Or.inr ⟨hEq, mem_singleton.mp hItem⟩
    · exact Or.inl hItem
  refine ⟨fun hMode => absurd rfl hMode, fun u item hItem => ?_, fun u => ?_,
    fun u item hItem f hf hEq => ?_, h.order⟩
  · rcases hJoined hItem with hItem | ⟨rfl, rfl⟩
    · obtain ⟨hUid, hAt, hBefore, hLast⟩ := h.waiting u item hItem
      exact ⟨hUid, hAt, hBefore.trans ht, hLast⟩
    · refine ⟨rfl, rfl, le_rfl, fun last hGet => ?_⟩
      unfold RecordSwitch.active at hActive
      dsimp only at hGet
      rw [hGet] at hActive
      have hPast := of_decide_eq_false hActive
      linarith
  · rw [hQueued]
    split
    · rename_i hEq
      refine pairwise_append.mpr ⟨(h.queue uid).sublist filter_sublist,
        pairwise_singleton _ _, fun a ha b hb => ?_⟩
      rw [mem_singleton.mp hb]
      exact hNumbered.fresh _ (Or.inr ⟨uid, mem_map_of_mem (mem_filter.mp ha).1⟩)
    · exact h.queue u
  · rcases hJoined hItem with hItem | ⟨rfl, rfl⟩
    · exact h.later u item hItem f hf hEq
    · exact hNumbered.fresh f (Or.inl hf)

theorem queued_setMode {mode : RecordMode} (hMode : mode ≠ .auto) (uid : Text) :
    (w.step (.setMode mode)).switch.queued uid = [] := by
  unfold World.step RecordSwitch.setMode RecordSwitch.queued
  dsimp only
  rw [if_neg hMode]
  rfl

theorem Queues.setMode (h : Queues w now) (mode : RecordMode) :
    Queues (w.step (.setMode mode)) now := by
  by_cases hMode : mode = .auto
  · subst hMode
    exact ⟨fun hNe => absurd rfl hNe, h.waiting, h.queue, h.later, h.order⟩
  · have hEmpty := fun uid => @queued_setMode w mode hMode uid
    refine ⟨fun _ => hEmpty, fun u item hItem => ?_, fun u => ?_, fun u item hItem => ?_, h.order⟩
    · rw [hEmpty] at hItem
      cases hItem
    · rw [hEmpty]
      exact .nil
    · rw [hEmpty] at hItem
      cases hItem

/-- The time of a call is not before `now`. -/
def Event.NotBefore (now : ℚ) (e : Event) : Prop := ∀ t, e.time = some t → now ≤ t

/-- The clock after a call. -/
def Event.clock (now : ℚ) (e : Event) : ℚ := e.time.getD now

theorem Queues.step (h : Queues w now) (hNumbered : Numbered w) (he : e.NotBefore now) :
    Queues (w.step e) (e.clock now) := by
  cases e with
  | presence uid people t =>
    have ht := he t rfl
    change Queues _ t
    by_cases hPeople : people ≤ 0
    · rw [step_presence_none hPeople]
      exact h.later_clock ht
    · rw [not_le] at hPeople
      by_cases hAuto : w.switch.mode = .auto
      · cases hActive : w.switch.active uid t with
        | true =>
          rw [step_presence_seen hPeople (Or.inr hActive)]
          exact (h.seen (h.queued_of_active ht hActive)).later_clock ht
        | false =>
          rw [step_presence_appears hPeople hAuto hActive]
          exact (h.appears t).later_clock ht
      · rw [step_presence_seen hPeople (Or.inl hAuto)]
        exact (h.seen (h.quiet hAuto uid)).later_clock ht
  | gate uid t =>
    have ht := he t rfl
    change Queues _ t
    cases hMode : w.switch.mode with
    | off =>
      rw [step_gate_off hMode]
      exact ⟨h.quiet, (h.later_clock ht).waiting, h.queue, h.later, h.order⟩
    | on =>
      rw [step_gate_written (Or.inl hMode)]
      exact (h.written hNumbered (h.quiet (by rw [hMode]; nofun) uid)).later_clock ht
    | auto =>
      cases hActive : w.switch.active uid t with
      | true =>
        rw [step_gate_written (Or.inr ⟨hMode, hActive⟩)]
        exact (h.written hNumbered (h.queued_of_active ht hActive)).later_clock ht
      | false =>
        rw [step_gate_waits hMode hActive]
        exact h.waits hNumbered ht hActive
  | setMode mode => exact h.setMode mode

/-! ## Numbers -/

/-- The frame a call offers. -/
def Event.offer (w : World) : Event → Option Frame
  | .gate uid t => some ⟨uid, t, w.offered⟩
  | _ => none

theorem offered_step (w : World) (e : Event) :
    (w.step e).offered = w.offered + (e.offer w).toList.length := by
  cases e <;> rfl

theorem knows_written
    (hf : World.Knows ⟨w.switch, w.offered + 1, w.written ++ [⟨uid, t, w.offered⟩]⟩ f) :
    w.Knows f ∨ (Event.gate uid t).offer w = some f := by
  rcases hf with hf | hf
  · rcases mem_append.mp hf with hf | hf
    · exact Or.inl (Or.inl hf)
    · rw [mem_singleton.mp hf]
      exact Or.inr rfl
  · exact Or.inl (Or.inr hf)

theorem knows_step (hf : (w.step e).Knows f) : w.Knows f ∨ e.offer w = some f := by
  cases e with
  | presence uid people t =>
    refine Or.inl ?_
    by_cases hPeople : people ≤ 0
    · rwa [step_presence_none hPeople] at hf
    · rw [not_le] at hPeople
      by_cases hActive : w.switch.mode ≠ .auto ∨ w.switch.active uid t = true
      · rw [step_presence_seen hPeople hActive] at hf
        exact hf
      · rw [not_or, not_not, Bool.not_eq_true] at hActive
        rw [step_presence_appears hPeople hActive.1 hActive.2] at hf
        rcases hf with hf | ⟨u, hf⟩
        · rcases mem_append.mp hf with hf | hf
          · exact Or.inl hf
          · obtain ⟨item, hItem, -, rfl⟩ := mem_released.mp hf
            exact Or.inr ⟨uid, mem_map_of_mem hItem⟩
        · rw [queued_delete] at hf
          split at hf
          · cases hf
          · exact Or.inr ⟨u, hf⟩
  | gate uid t =>
    cases hMode : w.switch.mode with
    | off =>
      rw [step_gate_off hMode] at hf
      exact Or.inl hf
    | on =>
      rw [step_gate_written (Or.inl hMode)] at hf
      exact knows_written hf
    | auto =>
      cases hActive : w.switch.active uid t with
      | true =>
        rw [step_gate_written (Or.inr ⟨hMode, hActive⟩)] at hf
        exact knows_written hf
      | false =>
        rw [step_gate_waits hMode hActive] at hf
        rcases hf with hf | ⟨u, hf⟩
        · exact Or.inl (Or.inl hf)
        · obtain ⟨item, hItem, rfl⟩ := mem_map.mp hf
          rw [queued_set] at hItem
          split at hItem
          · rcases mem_append.mp hItem with hItem | hItem
            · exact Or.inl (Or.inr ⟨uid, mem_map_of_mem (mem_filter.mp hItem).1⟩)
            · rw [mem_singleton.mp hItem]
              exact Or.inr rfl
          · exact Or.inl (Or.inr ⟨u, mem_map_of_mem hItem⟩)
  | setMode mode =>
    refine Or.inl (hf.imp_right fun ⟨u, hf⟩ => ⟨u, ?_⟩)
    by_cases hMode : mode = .auto
    · rwa [hMode] at hf
    · rw [queued_setMode hMode] at hf
      cases hf

theorem serial_offer (h : e.offer w = some f) : f.serial = w.offered ∧ (e.offer w).toList.length = 1 := by
  cases e with
  | gate uid t =>
    cases h
    exact ⟨rfl, rfl⟩
  | presence uid people t => cases h
  | setMode mode => cases h

theorem Numbered.step (h : Numbered w) (e : Event) : Numbered (w.step e) := by
  refine ⟨fun f hf => ?_, fun f g hf hg hEq => ?_⟩
  · rw [offered_step]
    rcases knows_step hf with hf | hf
    · exact (h.fresh f hf).trans_le (Nat.le_add_right _ _)
    · rw [(serial_offer hf).1, (serial_offer hf).2]
      exact Nat.lt_succ_self _
  · rcases knows_step hf with hf | hf <;> rcases knows_step hg with hg | hg
    · exact h.apart f g hf hg hEq
    · exact absurd (hEq.trans (serial_offer hg).1) (h.fresh f hf).ne
    · exact absurd (hEq.symm.trans (serial_offer hf).1) (h.fresh g hg).ne
    · exact Option.some.inj (hf.symm.trans hg)

/-! ## Runs -/

/-- The calls are made at non-decreasing times, from `now` on. -/
def Timely (now : ℚ) (es : List Event) : Prop := (now :: es.filterMap Event.time).Pairwise (· ≤ ·)

theorem timely_cons (h : Timely now (e :: es)) : e.NotBefore now ∧ Timely (e.clock now) es := by
  unfold Timely at h
  rw [pairwise_cons] at h
  cases hTime : e.time with
  | none =>
    rw [filterMap_cons_none hTime] at h
    refine ⟨fun t ht => ?_, ?_⟩
    · rw [hTime] at ht
      cases ht
    · rw [Event.clock, hTime]
      exact pairwise_cons.mpr h
  | some t =>
    rw [filterMap_cons_some hTime] at h
    refine ⟨fun t' ht' => ?_, ?_⟩
    · rw [hTime, Option.some.injEq] at ht'
      exact ht' ▸ h.1 t mem_cons_self
    · rw [Event.clock, hTime]
      exact h.2

theorem timely_of_sorted (h : (es.filterMap Event.time).Pairwise (· ≤ ·)) :
    ∃ now, Timely now es := by
  cases hTimes : es.filterMap Event.time with
  | nil => exact ⟨0, by rw [Timely, hTimes]; exact pairwise_singleton _ _⟩
  | cons t ts =>
    rw [hTimes] at h
    refine ⟨t, ?_⟩
    rw [Timely, hTimes]
    refine pairwise_cons.mpr ⟨fun t' ht' => ?_, h⟩
    rcases mem_cons.mp ht' with rfl | ht'
    · exact le_rfl
    · exact (pairwise_cons.mp h).1 t' ht'

theorem inv_after (hQueues : Queues w now) (hNumbered : Numbered w) (hTimely : Timely now es)
    {post : List Event} (hPost : Timely now (es ++ post)) :
    ∃ now', Queues (w.after es) now' ∧ Numbered (w.after es) ∧ Timely now' post := by
  induction es generalizing w now with
  | nil => exact ⟨now, hQueues, hNumbered, hPost⟩
  | cons e es ih =>
    obtain ⟨he, hRest⟩ := timely_cons hTimely
    exact ih (hQueues.step hNumbered he) (hNumbered.step e) hRest (timely_cons hPost).2

theorem written_grows (w : World) (es : List Event) : w.written <+: (w.after es).written := by
  induction es generalizing w with
  | nil => exact prefix_refl _
  | cons e es ih =>
    refine List.IsPrefix.trans ?_ (ih (w.step e))
    cases e with
    | presence uid people t => exact prefix_append _ _
    | gate uid t => exact prefix_append _ _
    | setMode mode => exact prefix_refl _

/-- A frame that is gone stays gone. -/
theorem gone_not_written (hOffered : f.serial < w.offered) (hGone : ¬ w.Knows f) (es : List Event) :
    f ∉ (w.after es).written := by
  induction es generalizing w with
  | nil => exact fun hf => hGone (Or.inl hf)
  | cons e es ih =>
    refine @ih (w.step e) ?_ fun hf => ?_
    · rw [offered_step]
      exact hOffered.trans_le (Nat.le_add_right _ _)
    · rcases knows_step hf with hf | hf
      · exact hGone hf
      · exact absurd (serial_offer hf).1 hOffered.ne

/-! ## The fate of a frame that waits -/

/-- A person at the frame's node within the pre-roll. -/
def Saves (f : Frame) (e : Event) : Prop :=
  ∃ people s, e = .presence f.uid people s ∧ 0 < people ∧ s ≤ f.at_ + prerollMs

/-- A frame that waits. -/
structure Waits (w : World) (f : Frame) : Prop where
  auto : w.switch.mode = .auto
  queued : (f.at_, f) ∈ w.switch.queued f.uid

theorem Waits.not_written (h : Waits w f) (hQueues : Queues w now) : f ∉ w.written := fun hf =>
  lt_irrefl _ (hQueues.later f.uid _ h.queued f hf rfl)

/-- Where a frame waits. -/
theorem Queues.eq_of_mem (h : Queues w now) {u : Text} {item : ℚ × Frame}
    (hItem : item ∈ w.switch.queued u) (hFrame : item.2 = f) : u = f.uid ∧ item.1 = f.at_ := by
  obtain ⟨hUid, hAt, -⟩ := h.waiting u item hItem
  rw [hFrame] at hUid hAt
  exact ⟨hUid.symm, hAt.symm⟩

theorem Waits.step (h : Waits w f) (hQueues : Queues w now) (hNumbered : Numbered w)
    (he : e.NotBefore now) (hModes : ∀ mode, e = .setMode mode → mode = .auto) :
    (Waits (w.step e) f ∧ ¬ Saves f e) ∨ (f ∈ (w.step e).written ∧ Saves f e) ∨
      (¬ (w.step e).Knows f ∧ ¬ Saves f e ∧ f.at_ + prerollMs < e.clock now) := by
  cases e with
  | presence uid people t =>
    have ht := he t rfl
    by_cases hPeople : people ≤ 0
    · refine Or.inl ⟨by rwa [step_presence_none hPeople], ?_⟩
      rintro ⟨people', s, hEq, hPos, -⟩
      cases hEq
      exact absurd hPeople (not_le.mpr hPos)
    · rw [not_le] at hPeople
      by_cases hUid : uid = f.uid
      · subst hUid
        have hActive : w.switch.active f.uid t = false := by
          by_contra hOn
          rw [Bool.not_eq_false] at hOn
          have hNone := hQueues.queued_of_active ht hOn
          have hMem := h.queued
          rw [hNone] at hMem
          cases hMem
        rw [step_presence_appears hPeople h.auto hActive]
        by_cases hNear : t - f.at_ ≤ prerollMs
        · refine Or.inr (Or.inl ⟨mem_append_right _ ?_, people, t, rfl, hPeople, by linarith⟩)
          exact mem_released.mpr ⟨_, h.queued, hNear, rfl⟩
        · refine Or.inr (Or.inr ⟨?_, ?_, ?_⟩)
          · rintro (hf | ⟨u, hf⟩)
            · rcases mem_append.mp hf with hf | hf
              · exact h.not_written hQueues hf
              · obtain ⟨item, hItem, hClose, hEq⟩ := mem_released.mp hf
                rw [(hQueues.eq_of_mem hItem hEq).2] at hClose
                exact hNear hClose
            · obtain ⟨item, hItem, hEq⟩ := mem_map.mp hf
              rw [queued_delete] at hItem
              split at hItem
              · cases hItem
              · rename_i hNe
                exact hNe (hQueues.eq_of_mem hItem hEq).1
          · rintro ⟨people', s, hEq, -, hClose⟩
            cases hEq
            exact hNear (by linarith)
          · change f.at_ + prerollMs < t
            linarith
      · refine Or.inl ⟨?_, ?_⟩
        · by_cases hActive : w.switch.mode ≠ .auto ∨ w.switch.active uid t = true
          · rw [step_presence_seen hPeople hActive]
            exact ⟨h.auto, h.queued⟩
          · rw [not_or, not_not, Bool.not_eq_true] at hActive
            rw [step_presence_appears hPeople hActive.1 hActive.2]
            refine ⟨rfl, ?_⟩
            rw [queued_delete, if_neg (Ne.symm hUid)]
            exact h.queued
        · rintro ⟨people', s, hEq, -⟩
          cases hEq
          exact hUid rfl
  | gate uid t =>
    have ht := he t rfl
    have hNot : ¬ Saves f (.gate uid t) := by
      rintro ⟨people, s, hEq, -⟩
      cases hEq
    cases hActive : w.switch.active uid t with
    | true =>
      rw [step_gate_written (Or.inr ⟨h.auto, hActive⟩)]
      exact Or.inl ⟨⟨h.auto, h.queued⟩, hNot⟩
    | false =>
      rw [step_gate_waits h.auto hActive]
      by_cases hUid : uid = f.uid
      · subst hUid
        by_cases hNear : t - f.at_ ≤ prerollMs
        · refine Or.inl ⟨⟨rfl, ?_⟩, hNot⟩
          rw [queued_set, if_pos rfl]
          exact mem_append_left _ (mem_filter.mpr ⟨h.queued, decide_eq_true hNear⟩)
        · refine Or.inr (Or.inr ⟨?_, hNot, ?_⟩)
          · rintro (hf | ⟨u, hf⟩)
            · exact h.not_written hQueues hf
            · obtain ⟨item, hItem, hEq⟩ := mem_map.mp hf
              rw [queued_set] at hItem
              split at hItem
              · rcases mem_append.mp hItem with hItem | hItem
                · obtain ⟨hItem, hClose⟩ := mem_filter.mp hItem
                  rw [(hQueues.eq_of_mem hItem hEq).2] at hClose
                  exact hNear (of_decide_eq_true hClose)
                · rw [mem_singleton.mp hItem] at hEq
                  have hKnown : w.Knows f := Or.inr ⟨f.uid, mem_map_of_mem h.queued⟩
                  have hLt := hNumbered.fresh f hKnown
                  rw [← hEq] at hLt
                  exact lt_irrefl _ hLt
              · rename_i hNe
                exact hNe (hQueues.eq_of_mem hItem hEq).1
          · change f.at_ + prerollMs < t
            linarith
      · refine Or.inl ⟨⟨rfl, ?_⟩, hNot⟩
        rw [queued_set, if_neg (Ne.symm hUid)]
        exact h.queued
  | setMode mode =>
    obtain rfl := hModes mode rfl
    refine Or.inl ⟨⟨rfl, h.queued⟩, ?_⟩
    rintro ⟨people, s, hEq, -⟩
    cases hEq

theorem Waits.written_iff (h : Waits w f) (hQueues : Queues w now) (hNumbered : Numbered w)
    (hTimely : Timely now es) (hModes : ∀ mode, .setMode mode ∈ es → mode = .auto) :
    f ∈ (w.after es).written ↔ ∃ e ∈ es, Saves f e := by
  induction es generalizing w now with
  | nil => exact iff_of_false (h.not_written hQueues) (by rintro ⟨e, he, -⟩; cases he)
  | cons e es ih =>
    obtain ⟨he, hRest⟩ := timely_cons hTimely
    have hModes' : ∀ mode, .setMode mode ∈ es → mode = .auto := fun mode hMem =>
      hModes mode (mem_cons_of_mem _ hMem)
    have hKnown : w.Knows f := Or.inr ⟨f.uid, mem_map_of_mem h.queued⟩
    rw [exists_mem_cons_iff]
    rcases h.step hQueues hNumbered he fun mode hEq => hModes mode (hEq ▸ mem_cons_self) with
      ⟨hWaits, hNot⟩ | ⟨hWritten, hSaves⟩ | ⟨hGone, hNot, hLate⟩
    · rw [or_iff_right hNot]
      exact ih hWaits (hQueues.step hNumbered he) (hNumbered.step e) hRest hModes'
    · exact iff_of_true ((written_grows _ es).subset hWritten) (Or.inl hSaves)
    · refine iff_of_false (gone_not_written ?_ hGone es) ?_
      · rw [offered_step]
        exact (hNumbered.fresh f hKnown).trans_le (Nat.le_add_right _ _)
      · rintro (hSaves | ⟨e', he', people, s, rfl, -, hClose⟩)
        · exact hNot hSaves
        · have hAfter := (pairwise_cons.mp hRest).1 s (mem_filterMap.mpr ⟨_, he', rfl⟩)
          linarith

/-! ## The fate of a frame offered while nobody was there -/

/-- A person at node `uid` at time `s` is among the calls. -/
def Seen (es : List Event) (uid : Text) (s : ℚ) : Prop :=
  ∃ people, 0 < people ∧ .presence uid people s ∈ es

/-- The switch remembers the last person at each node. -/
def Remembers (w : World) (es : List Event) : Prop :=
  ∀ uid s, Seen es uid s → ∃ last, w.switch.lastPersonAt.get uid = some last ∧ s ≤ last

/-- What the switch remembers it has seen. -/
def Honest (w : World) (es : List Event) : Prop :=
  ∀ uid last, w.switch.lastPersonAt.get uid = some last → Seen es uid last

theorem lastPersonAt_step (w : World) (e : Event) :
    (w.step e).switch.lastPersonAt =
      match e with
      | .presence uid people now =>
        if 0 < people then w.switch.lastPersonAt.set uid now else w.switch.lastPersonAt
      | _ => w.switch.lastPersonAt := by
  cases e with
  | presence uid people t =>
    dsimp only
    by_cases hPeople : people ≤ 0
    · rw [step_presence_none hPeople, if_neg (not_lt.mpr hPeople)]
    · rw [not_le] at hPeople
      rw [if_pos hPeople]
      by_cases hActive : w.switch.mode ≠ .auto ∨ w.switch.active uid t = true
      · rw [step_presence_seen hPeople hActive]
      · rw [not_or, not_not, Bool.not_eq_true] at hActive
        rw [step_presence_appears hPeople hActive.1 hActive.2]
  | gate uid t =>
    cases hMode : w.switch.mode with
    | off => rw [step_gate_off hMode]
    | on => rw [step_gate_written (Or.inl hMode)]
    | auto =>
      cases hActive : w.switch.active uid t with
      | true => rw [step_gate_written (Or.inr ⟨hMode, hActive⟩)]
      | false => rw [step_gate_waits hMode hActive]
  | setMode mode => rfl

theorem seen_concat {u : Text} {s : ℚ} :
    Seen (es ++ [e]) u s ↔ Seen es u s ∨ ∃ people, 0 < people ∧ e = .presence u people s := by
  simp only [Seen, mem_append, mem_singleton, and_or_left, exists_or, eq_comm]

theorem remembers_after (mode : RecordMode) (es : List Event) (hTimely : Timely now es) :
    Remembers ((World.start mode).after es) es ∧ Honest ((World.start mode).after es) es := by
  induction es using List.reverseRecOn with
  | nil =>
    refine ⟨?_, fun uid last hGet => nomatch hGet⟩
    rintro uid s ⟨people, -, hMem⟩
    cases hMem
  | append_singleton es e ih =>
    rw [Timely, filterMap_append, ← cons_append] at hTimely
    obtain ⟨hEarlier, -, hLast⟩ := pairwise_append.mp hTimely
    have hBefore : ∀ {u s t}, Seen es u s → e.time = some t → s ≤ t := by
      rintro u s t ⟨people, -, hMem⟩ hTime
      refine hLast s ?_ t ?_
      · exact mem_cons_of_mem _ (mem_filterMap.mpr ⟨_, hMem, rfl⟩)
      · exact mem_filterMap.mpr ⟨e, mem_cons_self, hTime⟩
    obtain ⟨hRemembers, hHonest⟩ := ih hEarlier
    rw [World.after, run_concat]
    change Remembers (World.step ((World.start mode).after es) e) _ ∧
      Honest (World.step ((World.start mode).after es) e) _
    have hMap := lastPersonAt_step ((World.start mode).after es) e
    refine ⟨fun u s hSeen => ?_, fun u last hGet => ?_⟩
    · rw [hMap]
      rw [seen_concat] at hSeen
      cases e with
      | presence uid people t =>
        dsimp only
        split
        · rename_i hPeople
          rw [get_set]
          split
          · refine ⟨t, rfl, ?_⟩
            rcases hSeen with hSeen | ⟨people', -, hEq⟩
            · exact hBefore hSeen rfl
            · cases hEq
              exact le_rfl
          · rename_i hNe
            rcases hSeen with hSeen | ⟨people', -, hEq⟩
            · exact hRemembers u s hSeen
            · cases hEq
              exact absurd rfl hNe
        · rename_i hPeople
          rcases hSeen with hSeen | ⟨people', hPos, hEq⟩
          · exact hRemembers u s hSeen
          · cases hEq
            exact absurd hPos hPeople
      | gate uid t =>
        rcases hSeen with hSeen | ⟨people', -, hEq⟩
        · exact hRemembers u s hSeen
        · cases hEq
      | setMode m =>
        rcases hSeen with hSeen | ⟨people', -, hEq⟩
        · exact hRemembers u s hSeen
        · cases hEq
    · rw [hMap] at hGet
      rw [seen_concat]
      cases e with
      | presence uid people t =>
        dsimp only at hGet
        split at hGet
        · rename_i hPeople
          rw [get_set] at hGet
          split at hGet
          · rename_i hEq
            cases hGet
            exact Or.inr ⟨people, hPeople, by rw [hEq]⟩
          · exact Or.inl (hHonest u last hGet)
        · exact Or.inl (hHonest u last hGet)
      | gate uid t => exact Or.inl (hHonest u last hGet)
      | setMode m => exact Or.inl (hHonest u last hGet)

/-! ## Every frame -/

/-- The frame offered after some calls. -/
def offerAfter (pre : List Event) (uid : Text) (t : ℚ) : Frame :=
  ⟨uid, t, pre.countP fun e => e matches .gate ..⟩

theorem offered_after (w : World) (es : List Event) :
    (w.after es).offered = w.offered + es.countP fun e => e matches .gate .. := by
  induction es generalizing w with
  | nil => rfl
  | cons e es ih =>
    change ((w.step e).after es).offered = _
    rw [ih, offered_step, countP_cons, Nat.add_assoc, Nat.add_comm (es.countP _)]
    cases e <;> rfl

/-- A person at the node up to the hold before the time, or up to the pre-roll after it. -/
def PersonAround (es : List Event) (uid : Text) (t : ℚ) : Prop :=
  ∃ s, Seen es uid s ∧ (s ≤ t ∧ t ≤ s + holdMs ∨ t ≤ s ∧ s ≤ t + prerollMs)

theorem written_gate {pre post : List Event} (mode : RecordMode)
    (hTimely : Timely now (pre ++ .gate uid t :: post))
    (hAuto : ((World.start mode).after pre).switch.mode = .auto)
    (hModes : ∀ m, .setMode m ∈ post → m = .auto) :
    offerAfter pre uid t ∈ ((World.start mode).after (pre ++ .gate uid t :: post)).written ↔
      PersonAround (pre ++ .gate uid t :: post) uid t := by
  have hPre : Timely now pre := by
    rw [Timely, filterMap_append, ← cons_append] at hTimely
    exact (pairwise_append.mp hTimely).1
  obtain ⟨hRemembers, hHonest⟩ := remembers_after mode pre hPre
  obtain ⟨now', hQueues, hNumbered, hRest⟩ :=
    inv_after (queues_start mode now) (numbered_start mode) hPre hTimely
  obtain ⟨hNow, hPost⟩ := timely_cons hRest
  have ht : now' ≤ t := hNow t rfl
  have hOffered : ((World.start mode).after pre).offered = (offerAfter pre uid t).serial := by
    rw [offered_after]
    exact Nat.zero_add _
  have hRun : (World.start mode).after (pre ++ .gate uid t :: post) =
      (((World.start mode).after pre).step (.gate uid t)).after post := by
    rw [World.after, run_append]
    rfl
  have hPast : ∀ {s}, Seen pre uid s → s ≤ t := by
    rintro s ⟨people, -, hMem⟩
    rw [Timely, filterMap_append, ← cons_append] at hTimely
    refine (pairwise_append.mp hTimely).2.2 s ?_ t ?_
    · exact mem_cons_of_mem _ (mem_filterMap.mpr ⟨_, hMem, rfl⟩)
    · exact mem_filterMap.mpr ⟨_, mem_cons_self, rfl⟩
  have hSplit : ∀ {s}, Seen (pre ++ .gate uid t :: post) uid s ↔ Seen pre uid s ∨ Seen post uid s := by
    intro s
    simp only [Seen, mem_append, mem_cons, reduceCtorEq, false_or, and_or_left, exists_or]
  rw [hRun]
  generalize hW : (World.start mode).after pre = w at *
  cases hActive : w.switch.active uid t with
  | true =>
    refine iff_of_true ?_ ?_
    · refine (written_grows _ post).subset ?_
      rw [step_gate_written (Or.inr ⟨hAuto, hActive⟩), hOffered]
      exact mem_append_right _ mem_cons_self
    · unfold RecordSwitch.active at hActive
      split at hActive
      · cases hActive
      · rename_i last hGet
        have hSeen := hHonest uid last hGet
        have hHeld := of_decide_eq_true hActive
        exact ⟨last, hSplit.mpr (Or.inl hSeen), Or.inl ⟨hPast hSeen, by linarith⟩⟩
  | false =>
    have hWaits : Waits (w.step (.gate uid t)) (offerAfter pre uid t) := by
      rw [step_gate_waits hAuto hActive]
      refine ⟨rfl, ?_⟩
      rw [queued_set, if_pos (show (offerAfter pre uid t).uid = uid from rfl)]
      refine mem_append_right _ ?_
      rw [hOffered]
      exact mem_cons_self
    rw [hWaits.written_iff (hQueues.step hNumbered hNow) (hNumbered.step _) hPost hModes]
    constructor
    · rintro ⟨e, he, people, s, rfl, hPeople, hClose⟩
      have hAfter := (pairwise_cons.mp hPost).1 s (mem_filterMap.mpr ⟨_, he, rfl⟩)
      exact ⟨s, hSplit.mpr (Or.inr ⟨people, hPeople, he⟩), Or.inr ⟨hAfter, hClose⟩⟩
    · rintro ⟨s, hSeen, hAround⟩
      rcases hSplit.mp hSeen with hSeen | ⟨people, hPeople, hMem⟩
      · obtain ⟨last, hGet, hLe⟩ := hRemembers uid s hSeen
        have hLast := hPast (hHonest uid last hGet)
        unfold RecordSwitch.active at hActive
        rw [hGet] at hActive
        have hPassed := of_decide_eq_false hActive
        have hHold : (0 : ℚ) < holdMs := by norm_num [holdMs]
        rcases hAround with ⟨-, hHeld⟩ | ⟨hLater, -⟩
        · linarith
        · linarith
      · have hAfter : t ≤ s :=
          (pairwise_cons.mp hPost).1 s (mem_filterMap.mpr ⟨_, hMem, rfl⟩)
        refine ⟨_, hMem, people, s, rfl, hPeople, ?_⟩
        change s ≤ t + prerollMs
        have hLonger : (0 : ℚ) < prerollMs := by norm_num [prerollMs]
        rcases hAround with ⟨hBefore, -⟩ | ⟨-, hClose⟩
        · linarith
        · exact hClose

theorem auto_recording (mode : RecordMode) (es : List Event)
    (hTimes : (es.filterMap Event.time).Pairwise (· ≤ ·)) :
    (∀ pre uid t post, es = pre ++ .gate uid t :: post →
      ((World.start mode).after pre).switch.mode = .auto → (∀ m, .setMode m ∈ post → m = .auto) →
      (offerAfter pre uid t ∈ ((World.start mode).after es).written ↔ PersonAround es uid t)) ∧
    ((World.start mode).after es).written.Nodup ∧
    ((World.start mode).after es).written.Pairwise
      (fun f g => f.uid = g.uid → f.serial < g.serial) ∧
    ∀ pre m post, es = pre ++ .setMode m :: post → m ≠ .auto →
      ∀ uid t before after, pre = before ++ .gate uid t :: after →
        offerAfter before uid t ∈ ((World.start mode).after es).written →
          offerAfter before uid t ∈ ((World.start mode).after pre).written := by
  obtain ⟨now, hTimely⟩ := timely_of_sorted hTimes
  obtain ⟨_, hQueues, -, -⟩ := inv_after (queues_start mode now) (numbered_start mode) hTimely
    (show Timely now (es ++ []) by rwa [List.append_nil])
  refine ⟨?_, ?_, hQueues.order, ?_⟩
  · rintro pre uid t post rfl hAuto hModes
    exact written_gate mode hTimely hAuto hModes
  · refine hQueues.order.imp ?_
    rintro f g hLt rfl
    exact lt_irrefl _ (hLt rfl)
  · rintro pre m post rfl hMode uid t before after hPre hMem
    by_contra hNot
    have hRun : (World.start mode).after (pre ++ .setMode m :: post) =
        (((World.start mode).after pre).step (.setMode m)).after post := by
      rw [World.after, run_append]
      rfl
    rw [hRun] at hMem
    refine gone_not_written ?_ ?_ post hMem
    · rw [offered_step, offered_after, hPre, List.countP_append, List.countP_cons]
      simp [offerAfter]
      omega
    · rintro (hWritten | ⟨u, hQueued⟩)
      · exact hNot hWritten
      · rw [queued_setMode hMode] at hQueued
        cases hQueued

/-- An empty room, somebody who comes in and leaves, an empty room again. -/
def visit : List Event :=
  [.gate (js "a") 0, .gate (js "a") 7000, .presence (js "a") 2 9000, .gate (js "a") 19001]

theorem auto_recording_visit :
    offerAfter [] (js "a") 0 ∉ ((World.start .auto).after visit).written ∧
      offerAfter [.gate (js "a") 0] (js "a") 7000 ∈ ((World.start .auto).after visit).written := by
  have hRecording := (auto_recording .auto visit (by decide +kernel)).1
  constructor
  · rw [hRecording [] (js "a") 0 _ rfl rfl (by simp)]
    rintro ⟨s, ⟨people, -, hMem⟩, hAround⟩
    obtain ⟨rfl, rfl⟩ : people = 2 ∧ s = 9000 := by simpa [visit] using hMem
    norm_num [prerollMs] at hAround
  · refine (hRecording [.gate (js "a") 0] (js "a") 7000 _ rfl (by decide) (by simp)).mpr ?_
    refine ⟨9000, ⟨2, by norm_num, by simp [visit]⟩, Or.inr ⟨by norm_num, ?_⟩⟩
    norm_num [prerollMs]

end TMEdge.AutoRecord
