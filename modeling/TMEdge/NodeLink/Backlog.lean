import TMEdge.NodeLink.Baseline

/-!
# A backlog and the baseline

The offset of a packet is its receive time minus the uptime it reports, unwrapped as `admit` counts
the wraps. The baseline's offset is never above what an admitted packet showed, the drift allowance
since then applied (`Below`), and what is admitted is within the budget above the baseline.

* `admit_spec`: what admitting a packet does to the baseline.
* `offsets_bounded`: no admitted packet is later than any earlier one by more than the budget and
  the drift allowed in between.
-/

namespace TMEdge.NodeLink

open Library List

/-- What `admit` compares of a packet: receive time minus node uptime. -/
def offsetOf (baselines : JsMap String Baseline) (t : ℚ) (packet : Arrival) : ℚ :=
  match baselines.get packet.uid with
  | none => t - packet.uptimeMs
  | some b =>
    if b.boot ≠ packet.boot then t - packet.uptimeMs
    else t - (b.wrapsAt packet.uptimeMs * 0x100000000 + packet.uptimeMs)

/-- The receive time and the offset of each packet of a node that is admitted. -/
def admittedOffsets (uid : String) : JsMap String Baseline → List Delivery → List (ℚ × ℚ)
  | _, [] => []
  | baselines, d :: ds =>
    let r := admitDirect baselines d.authenticated d.time d.packet
    if d.packet.uid = uid ∧ r.2 = none then
      (d.time, offsetOf baselines d.time d.packet) :: admittedOffsets uid r.1 ds
    else admittedOffsets uid r.1 ds

/-- The baseline is not above an earlier packet, what the clock may have drifted since allowed. -/
def Below (b : Baseline) (seen : ℚ × ℚ) : Prop :=
  b.offset ≤ seen.2 + driftAllowance * (b.time - seen.1)

variable {m : JsMap String Baseline} {authenticated : Bool} {t : ℚ} {p : Arrival} {uid : String}
  {boot : Nat} {seen : ℚ × ℚ} {b : Baseline}

/-- A refused packet changes nothing. -/
theorem admit_refused (h : (admitDirect m authenticated t p).2 ≠ none) :
    (admitDirect m authenticated t p).1 = m := by
  unfold admitDirect at h ⊢
  split
  · rfl
  · rename_i hOpen
    rw [if_neg hOpen] at h
    dsimp only at h ⊢
    split
    · rename_i hNone
      rw [hNone] at h
      exact absurd rfl h
    · rename_i b hb
      rw [hb] at h
      dsimp only at h
      split
      · rename_i hBoot
        rw [if_pos hBoot] at h
        exact absurd rfl h
      · rename_i hBoot
        rw [if_neg hBoot] at h
        split
        · rfl
        · rename_i hLag
          rw [if_neg hLag] at h
          exact absurd rfl h

/-- An admitted packet is within the budget of the baseline, and the baseline moves down to it at
once and up only by the allowance. -/
theorem admit_spec (h : (admitDirect m authenticated t p).2 = none) :
    ∃ b', (admitDirect m authenticated t p).1.get p.uid = some b' ∧ b'.boot = p.boot ∧
      b'.time = t ∧ b'.offset ≤ offsetOf m t p ∧
      ∀ b, m.get p.uid = some b → b.boot = p.boot →
        offsetOf m t p ≤ b.offset + lagBudgetMs ∧
        (b.time ≤ t → b'.offset ≤ b.offset + driftAllowance * (t - b.time)) := by
  have hGet : ∀ v, (m.set p.uid v).get p.uid = some v := fun v => by simp
  unfold admitDirect at h ⊢
  unfold offsetOf
  split
  · rename_i hClosed
    rw [if_pos hClosed] at h
    cases h
  · rename_i hOpen
    rw [if_neg hOpen] at h
    dsimp only at h ⊢
    rcases hb : m.get p.uid with - | b
    · exact ⟨_, hGet _, rfl, rfl, le_rfl, by rintro _ ⟨⟩⟩
    · rw [hb] at h
      dsimp only at h ⊢
      by_cases hBoot : b.boot = p.boot
      · rw [if_neg (not_not.mpr hBoot)] at h
        rw [if_neg (not_not.mpr hBoot), if_neg (not_not.mpr hBoot)]
        set offset := t - (b.wrapsAt p.uptimeMs * 0x100000000 + p.uptimeMs)
        split at h
        · cases h
        · rename_i hLag
          rw [if_neg hLag]
          refine ⟨_, hGet _, hBoot, rfl, ?_, fun b' hb' _ => ?_⟩
          · dsimp only
            split
            · exact le_rfl
            · have hMin := min_le_left (offset - b.offset) ((t - b.time) * driftAllowance)
              linarith
          · obtain rfl := Option.some.inj hb'
            refine ⟨by linarith [not_lt.mp hLag], fun hTime => ?_⟩
            have hDrift : 0 ≤ driftAllowance * (t - b.time) :=
              mul_nonneg (by norm_num [driftAllowance]) (sub_nonneg.mpr hTime)
            dsimp only
            split
            · linarith
            · have hMin := min_le_right (offset - b.offset) ((t - b.time) * driftAllowance)
              linarith
      · rw [if_pos hBoot, if_pos hBoot]
        refine ⟨_, hGet _, rfl, rfl, le_rfl, fun b' hb' hBoot' => ?_⟩
        obtain rfl := Option.some.inj hb'
        exact absurd hBoot' hBoot

/-- Admitting a packet keeps the baseline below an earlier one. -/
theorem Below.admitting {b' : Baseline} (h : Below b seen) (hTime : b'.time = t)
    (hOffset : b'.offset ≤ b.offset + driftAllowance * (t - b.time)) : Below b' seen := by
  unfold Below at h ⊢
  rw [hTime]
  linarith

/-- What is admitted later is within the budget of a packet the baseline is below. -/
theorem Below.later {ds : List Delivery} (hb : m.get uid = some b) (hBootOf : b.boot = boot)
    (hBelow : Below b seen) (hBoot : ∀ d ∈ ds, d.packet.uid = uid → d.packet.boot = boot)
    (hTimes : ds.Pairwise fun d d' => d.time ≤ d'.time) (hAfter : ∀ d ∈ ds, b.time ≤ d.time) :
    ∀ k ∈ admittedOffsets uid m ds,
      k.2 ≤ seen.2 + driftAllowance * (k.1 - seen.1) + lagBudgetMs := by
  induction ds generalizing m b with
  | nil => exact nofun
  | cons d ds ih =>
    obtain ⟨hFirst, hTimes⟩ := pairwise_cons.mp hTimes
    have hBootLater := fun d hd => hBoot d (mem_cons_of_mem _ hd)
    have hAfterLater := fun d hd => hAfter d (mem_cons_of_mem _ hd)
    have hNow := hAfter d mem_cons_self
    intro k hk
    unfold admittedOffsets at hk
    dsimp only at hk
    split at hk
    · rename_i hAdmitted
      obtain ⟨hUid, hNone⟩ := hAdmitted
      subst hUid
      have hSame : b.boot = d.packet.boot :=
        hBootOf.trans (hBoot d mem_cons_self rfl).symm
      obtain ⟨b', hb', hBoot', hTime', -, hOld⟩ := admit_spec hNone
      obtain ⟨hBudget, hUp⟩ := hOld b hb hSame
      rcases mem_cons.mp hk with rfl | hk
      · -- the allowance runs on from the baseline's time to the packet's
        have hDrift : 0 ≤ driftAllowance * (d.time - b.time) :=
          mul_nonneg (by norm_num [driftAllowance]) (sub_nonneg.mpr hNow)
        unfold Below at hBelow
        dsimp only
        linarith
      · exact ih hb' (hBoot'.trans (hBoot d mem_cons_self rfl))
          (hBelow.admitting hTime' (hUp hNow)) hBootLater hTimes (hTime' ▸ hFirst) k hk
    · rename_i hNot
      by_cases hUid : d.packet.uid = uid
      · rw [admit_refused fun hNone => hNot ⟨hUid, hNone⟩] at hk
        exact ih hb hBootOf hBelow hBootLater hTimes hAfterLater k hk
      · exact ih ((get_admit_of_ne hUid).trans hb) hBootOf hBelow hBootLater hTimes hAfterLater k hk

/-- A backlog cannot drag the lag baseline: of the packets of one boot, delivered in the order of
their receive times among those of other nodes. -/
theorem offsets_bounded (uid : String) (boot : Nat) (baselines : JsMap String Baseline)
    (ds : List Delivery) (hBoot : ∀ d ∈ ds, d.packet.uid = uid → d.packet.boot = boot)
    (hTimes : ds.Pairwise fun d d' => d.time ≤ d'.time) :
    (admittedOffsets uid baselines ds).Pairwise fun i k =>
      k.2 ≤ i.2 + driftAllowance * (k.1 - i.1) + lagBudgetMs := by
  induction ds generalizing baselines with
  | nil => exact .nil
  | cons d ds ih =>
    obtain ⟨hFirst, hTimes⟩ := List.pairwise_cons.mp hTimes
    have hBootLater := fun d hd => hBoot d (List.mem_cons_of_mem _ hd)
    unfold admittedOffsets
    dsimp only
    split
    · rename_i hAdmitted
      obtain ⟨hUid, hNone⟩ := hAdmitted
      subst hUid
      obtain ⟨b', hb', hBoot', hTime', hOffset, -⟩ := admit_spec hNone
      have hBelow : Below b' (d.time, offsetOf baselines d.time d.packet) := by
        unfold Below
        rw [hTime', sub_self, mul_zero, add_zero]
        exact hOffset
      exact .cons (hBelow.later hb' (hBoot'.trans (hBoot d List.mem_cons_self rfl)) hBootLater
        hTimes (hTime' ▸ hFirst)) (ih _ hBootLater hTimes)
    · exact ih _ hBootLater hTimes

/-- A slow path is followed at 200 ppm; the third packet is two seconds late and still let in. -/
theorem offsets_bounded_three :
    (admittedOffsets "a" .empty [⟨true, 0, ⟨"a", 1, 0⟩⟩, ⟨true, 5000, ⟨"a", 1, 4000⟩⟩,
      ⟨true, 9000, ⟨"a", 1, 7000⟩⟩]).length = 3 ∧
    (admittedOffsets "a" .empty [⟨true, 0, ⟨"a", 1, 0⟩⟩, ⟨true, 5000, ⟨"a", 1, 4000⟩⟩,
      ⟨true, 9000, ⟨"a", 1, 7000⟩⟩]).Pairwise fun i k =>
        k.2 ≤ i.2 + driftAllowance * (k.1 - i.1) + lagBudgetMs :=
  ⟨by decide +kernel, offsets_bounded "a" 1 .empty _ (by simp) (by norm_num)⟩

end TMEdge.NodeLink
