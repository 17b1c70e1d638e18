import TMEdge.Exports.Complete

/-!
# Exports across restarts

The constructor reads the receipts one after another, fails what was under way, cleans up and
removes the files of no job. `ReadsBack` says what has been read behind any number of receipts;
`boot_sound` puts it together with the cleanup, and `Sound.step` with the acts of a running process.

* `exports_complete`: in every run a completed export is complete.
-/

namespace TMEdge.Exports

open Library List JsMap

/-! ## Reading the receipts -/

section boot

variable {cfg : ExportConfig} {w w' : World} {d d' : Disk} {id : Nat} {job : ExportJob}
  {es : List DiskEffect} {l : List (Nat × ExportJob)} {saves : Nat → Bool}
  {acc : JsMap Nat ExportJob × List DiskEffect} {jobs : JsMap Nat ExportJob} {now : Int}

/-- An effect of reading a receipt: it belongs to a job that was under way, and tells its
failure. -/
structure Interrupts (l : List (Nat × ExportJob)) (e : DiskEffect) : Prop where
  active : ∃ p ∈ l, e.job = p.1 ∧ p.2.state.isActive = true
  failed : ∀ job, e = .writeReceipt job → job.state = .failed

/-- What has been read of the receipts `l`. -/
structure ReadsBack (cfg : ExportConfig) (w : World) (d : Disk) (l : List (Nat × ExportJob))
    (acc : JsMap Nat ExportJob × List DiskEffect) : Prop where
  safe : Safe cfg w d acc.2
  interrupts : ∀ e ∈ acc.2, Interrupts l e
  held : ∀ id job, acc.1.get id = some job →
    (d.write acc.2).receipts.get id = some job ∧ job.state.isActive = false
  listed : ∀ id job, acc.1.get id = some job → id ∈ l.map Prod.fst
  completed : ∀ p ∈ l, p.2.state = .completed → acc.1.get p.1 = some p.2

theorem Interrupts.append {e : DiskEffect} (h : Interrupts l e) (l' : List (Nat × ExportJob)) :
    Interrupts (l ++ l') e := by
  obtain ⟨⟨p, hMem, hJob, hActive⟩, hFailed⟩ := h
  exact ⟨⟨p, mem_append_left _ hMem, hJob, hActive⟩, hFailed⟩

/-- The effects on a job whose receipt comes later have not begun. -/
theorem ReadsBack.sameFiles (h : ReadsBack cfg w d l acc) (hNew : id ∉ l.map Prod.fst) :
    SameFiles d (d.write acc.2) id := by
  refine sameFiles_write d fun e he hEq => hNew ?_
  obtain ⟨p, hMem, hJob, -⟩ := (h.interrupts e he).active
  exact mem_map.mpr ⟨p, hMem, hJob.symm.trans hEq⟩

theorem readsBack_nil : ReadsBack cfg w d [] (.empty, []) where
  safe := trivial
  interrupts := by simp
  held := by simp
  listed := by simp
  completed := by simp

/-- A job that was not under way is taken as it is. -/
theorem ReadsBack.taken (h : ReadsBack cfg w d l acc) (hNew : id ∉ l.map Prod.fst)
    (hReceipt : d.receipts.get id = some job) (hState : job.state.isActive = false) :
    ReadsBack cfg w d (l ++ [(id, job)]) (acc.1.set id job, acc.2) where
  safe := h.safe
  interrupts e he := (h.interrupts e he).append _
  held i a ha := by
    rw [get_set] at ha
    split at ha
    next hi =>
      obtain rfl := Option.some.inj ha
      rw [hi, (h.sameFiles hNew).receipts]
      exact ⟨hReceipt, hState⟩
    next => exact h.held i a ha
  listed i a ha := by
    rw [get_set] at ha
    split at ha
    next hi => simp [hi]
    next =>
      rw [map_append]
      exact mem_append_left _ (h.listed i a ha)
  completed p hp hCompleted := by
    rw [get_set]
    rcases mem_append.mp hp with hp | hp
    · rw [if_neg fun hEq => hNew (mem_map.mpr ⟨p, hp, hEq⟩)]
      exact h.completed p hp hCompleted
    · obtain rfl := mem_singleton.mp hp
      rw [if_pos rfl]

/-- What is removed of a job that was under way, and what it leaves alone. -/
theorem ReadsBack.removed (h : ReadsBack cfg w d l acc) (hNew : id ∉ l.map Prod.fst)
    (hReceipt : d.receipts.get id = some job) (hState : job.state.isActive = true) :
    ReadsBack cfg w d (l ++ [(id, job)]) (acc.1, acc.2 ++ [.removePart id, .removeZip id]) where
  safe := by
    refine safe_append.mpr ⟨h.safe, trivial, fun r hr hCompleted => ?_, trivial⟩
    have hr : (d.write acc.2).receipts.get id = some r := hr
    rw [(h.sameFiles hNew).receipts, hReceipt] at hr
    obtain rfl := Option.some.inj hr
    exact absurd hCompleted (ne_completed_of_isActive hState).1
  interrupts e he := by
    rcases mem_append.mp he with he | he
    · exact (h.interrupts e he).append _
    · simp only [mem_cons, not_mem_nil, or_false] at he
      rcases he with rfl | rfl
      · exact ⟨⟨(id, job), by simp, rfl, hState⟩, nofun⟩
      · exact ⟨⟨(id, job), by simp, rfl, hState⟩, nofun⟩
  held i a ha := by
    rw [Disk.write_append]
    exact h.held i a ha
  listed i a ha := by
    rw [map_append]
    exact mem_append_left _ (h.listed i a ha)
  completed p hp hCompleted := by
    rcases mem_append.mp hp with hp | hp
    · exact h.completed p hp hCompleted
    · obtain rfl := mem_singleton.mp hp
      exact absurd hCompleted (ne_completed_of_isActive hState).1

/-- A job that was under way has failed, and its receipt says so. -/
theorem ReadsBack.failed {failed : ExportJob} (h : ReadsBack cfg w d l acc)
    (hNew : id ∉ l.map Prod.fst) (hReceipt : d.receipts.get id = some job)
    (hState : job.state.isActive = true) (hId : failed.id = id) (hMade : id < w.made)
    (hFailed : failed.state = .failed) :
    ReadsBack cfg w d (l ++ [(id, job)])
      (acc.1.set id failed, acc.2 ++ [.removePart id, .removeZip id, .writeReceipt failed]) := by
  have hRemoved := h.removed hNew hReceipt hState
  have hSplit : acc.2 ++ [.removePart id, .removeZip id, .writeReceipt failed] =
      (acc.2 ++ [.removePart id, .removeZip id]) ++ [.writeReceipt failed] := by simp
  subst hId
  rw [hSplit]
  refine ⟨safe_append.mpr ⟨hRemoved.safe, ⟨hMade, by simp [hFailed], fun _ => ?_⟩, trivial⟩,
    fun e he => ?_, fun i a ha => ?_, fun i a ha => ?_, fun p hp hCompleted => ?_⟩
  · simp [Disk.write, Disk.apply]
  · rcases mem_append.mp he with he | he
    · exact hRemoved.interrupts e he
    · obtain rfl := mem_singleton.mp he
      refine ⟨⟨(failed.id, job), by simp, rfl, hState⟩, fun job' hEq => ?_⟩
      rw [← DiskEffect.writeReceipt.inj hEq]
      exact hFailed
  · rw [Disk.write_append]
    simp only [get_set] at ha
    split at ha
    next hi =>
      obtain rfl := Option.some.inj ha
      exact ⟨by simp [Disk.write, Disk.apply, hi], by rw [hFailed]; rfl⟩
    next hi =>
      obtain ⟨hReceipt, hActive⟩ := hRemoved.held i a ha
      refine ⟨?_, hActive⟩
      have hOther : ∀ e ∈ [DiskEffect.writeReceipt failed], e.job ≠ i := by
        intro e he
        rw [mem_singleton.mp he]
        exact Ne.symm hi
      rw [(sameFiles_write _ hOther).receipts]
      exact hReceipt
  · simp only [get_set] at ha
    split at ha
    next hi => simp [hi]
    next => exact hRemoved.listed i a ha
  · have hp' := hp
    rcases mem_append.mp hp with hp | hp
    · simp only [get_set]
      rw [if_neg fun hEq => hNew (mem_map.mpr ⟨p, hp, hEq⟩)]
      exact h.completed p hp hCompleted
    · obtain rfl := mem_singleton.mp hp
      exact absurd hCompleted (ne_completed_of_isActive hState).1

/-- One more receipt is read. -/
theorem ReadsBack.read (h : ReadsBack cfg w d l acc) (hNew : id ∉ l.map Prod.fst)
    (hReceipt : d.receipts.get id = some job) (hId : job.id = id) (hMade : id < w.made) :
    ReadsBack cfg w d (l ++ [(id, job)]) (Server.readReceipt saves acc (id, job)) := by
  have hId' : ¬ job.id ≠ id := not_not.mpr hId
  simp only [Server.readReceipt, if_neg hId']
  split
  next hState =>
    split
    · exact h.failed hNew hReceipt hState hId hMade rfl
    · exact h.removed hNew hReceipt hState
  next hState => exact h.taken hNew hReceipt (by simpa using hState)

theorem readsBack_foldl (hNodup : (l.map Prod.fst).Nodup)
    (hReceipts : ∀ p ∈ l, d.receipts.get p.1 = some p.2)
    (hNamed : ∀ p ∈ l, p.2.id = p.1 ∧ p.1 < w.made) :
    ReadsBack cfg w d l (l.foldl (Server.readReceipt saves) (.empty, [])) := by
  induction l using List.reverseRecOn with
  | nil => exact readsBack_nil
  | append_singleton l p ih =>
    rw [foldl_append, foldl_cons, foldl_nil]
    rw [map_append, nodup_append] at hNodup
    obtain ⟨hNodup, -, hNew⟩ := hNodup
    obtain ⟨hId, hMade⟩ := hNamed p (by simp)
    refine (ih hNodup (fun q hq => hReceipts q (by simp [hq]))
      fun q hq => hNamed q (by simp [hq])).read ?_ (hReceipts p (by simp)) hId hMade
    exact fun hMem => hNew _ hMem _ (by simp) rfl

/-- A receipt behind some effects was there or has been written. -/
theorem receipts_write (h : (d.write es).receipts.get id = some job) :
    d.receipts.get id = some job ∨ .writeReceipt job ∈ es := by
  induction es generalizing d with
  | nil => exact Or.inl h
  | cons e es ih =>
    rcases ih h with h | h
    · cases e with
      | writeReceipt r =>
        simp only [Disk.apply, get_set] at h
        split at h
        next =>
          obtain rfl := Option.some.inj h
          exact Or.inr (by simp)
        next => exact Or.inl h
      | removeReceipt i =>
        simp only [Disk.apply, get_delete] at h
        split at h
        · cases h
        · exact Or.inl h
      | publish i =>
        simp only [Disk.apply] at h
        split at h
        · exact Or.inl h
        · exact Or.inl h
      | _ => exact Or.inl h
    · exact Or.inr (mem_cons_of_mem _ h)

/-! ## Starting again -/

/-- What the constructor has in memory: jobs that have ended, with their receipts. -/
structure Ended (w : World) (d : Disk) (jobs : JsMap Nat ExportJob) : Prop where
  sound : JobsSound w d jobs
  held : ∀ id job, jobs.get id = some job →
    d.receipts.get id = some job ∧ job.state.isActive = false

theorem ReadsBack.ended (h : ReadsBack cfg w d d.receipts.entries acc) (hDisk : DiskSound cfg w d) :
    Ended w (d.write acc.2) acc.1 where
  held := h.held
  sound := by
    refine ⟨fun i job hJob => ?_, fun i job hJob _ => (h.held i job hJob).1,
      fun i r hr hState => ?_⟩
    · exact (h.safe.sound_all hDisk).named i job (h.held i job hJob).1
    · rcases receipts_write hr with hr | hWritten
      · exact h.completed (i, r) (get_eq_some_iff.mp hr) hState
      · rw [(h.interrupts _ hWritten).failed r rfl] at hState
        cases hState

theorem Ended.safe_cleanup (h : Ended w d jobs) (hNow : now ≤ w.clock) :
    Safe cfg w d (Server.cleanup { jobs } now).2 :=
  safe_removes (@removes_cleanup w d { jobs } now h.sound hNow)

theorem Ended.cleanup (h : Ended w d jobs) (hNow : now ≤ w.clock) :
    Ended w (d.write (Server.cleanup { jobs } now).2) (Server.cleanup { jobs } now).1.jobs where
  sound := JobsSound.cleanup h.sound hNow
  held i job hJob := by
    obtain ⟨hJob, hStays⟩ := get_cleanup.mp hJob
    rw [(sameFiles_write d (cleanup_leaves h.sound hJob hStays)).receipts]
    exact h.held i job hJob

theorem mem_orphans {e : DiskEffect} (h : e ∈ Server.orphans d jobs) :
    jobs.has e.job = false ∧ (e = .removePart e.job ∨ e = .removeZip e.job) := by
  simp only [Server.orphans, mem_append, mem_map, mem_filter,
    Bool.not_eq_true'] at h
  rcases h with ⟨id, ⟨-, hOrphan⟩, rfl⟩ | ⟨id, ⟨-, hOrphan⟩, rfl⟩
  · exact ⟨hOrphan, Or.inl rfl⟩
  · exact ⟨hOrphan, Or.inr rfl⟩

/-- The files of a job that is there stay. -/
theorem orphans_leave (hJob : jobs.get id = some job) :
    ∀ e ∈ Server.orphans d jobs, e.job ≠ id := by
  rintro e he rfl
  have hOrphan := (mem_orphans he).1
  simp [JsMap.has, hJob] at hOrphan

theorem removes_orphans {jobs : JsMap Nat ExportJob} (h : JobsSound w d jobs) :
    ∀ e ∈ Server.orphans d jobs, Removes (fun id => ∀ r, d.receipts.get id = some r →
      r.state = .completed → r.expiresAt ≤ w.clock) e := by
  intro e he
  obtain ⟨hOrphan, hEffect⟩ := mem_orphans he
  rcases hEffect with hEffect | hEffect
  · rw [hEffect]
    trivial
  · rw [hEffect]
    intro r hr hState
    simp [JsMap.has, h.known _ r hr hState] at hOrphan

theorem Ended.orphans (h : Ended w d jobs) : Ended w (d.write (Server.orphans d jobs)) jobs := by
  have hHeld : ∀ i job, jobs.get i = some job →
      (d.write (Server.orphans d jobs)).receipts.get i = some job ∧
        job.state.isActive = false := by
    intro i job hJob
    rw [(sameFiles_write d (orphans_leave hJob)).receipts]
    exact h.held i job hJob
  refine ⟨⟨h.sound.named, fun i job hJob _ => (hHeld i job hJob).1, fun i r hr => ?_⟩, hHeld⟩
  exact h.sound.known i r (receipts_write_of_removes (removes_orphans h.sound) hr).1

theorem Ended.serverSound (h : Ended w d jobs) :
    ServerSound w d { jobs } where
  jobs := h.sound
  active i job hJob hActive := by
    rw [(h.held i job hJob).2] at hActive
    cases hActive
  single i j a b ha _ hActive := by
    rw [(h.held i a ha).2] at hActive
    cases hActive
  tasks i task hTask := by
    rw [get_empty] at hTask
    cases hTask
  leases i := by simp

/-- What is not there, or is removed, is gone behind removals. -/
theorem gone_of_removes {P : Nat → Prop} (h : ∀ e ∈ es, Removes P e) :
    (d.parts.get id = none ∨ .removePart id ∈ es → (d.write es).parts.get id = none) ∧
      (d.zips.get id = none ∨ .removeZip id ∈ es → (d.write es).zips.get id = none) := by
  induction es generalizing d with
  | nil => simp [Disk.write]
  | cons e es ih =>
    obtain ⟨hParts, hZips⟩ := @ih (d.apply e) fun e' he' => h e' (by simp [he'])
    have he := h e (by simp)
    constructor
    · intro hGone
      refine hParts ?_
      cases e with
      | removePart i =>
        simp only [Disk.apply, get_delete]
        split
        · exact Or.inl rfl
        next hi =>
          refine hGone.imp_right fun hMem => ?_
          simpa [hi] using hMem
      | removeZip i => simpa [Disk.apply] using hGone
      | removeReceipt i => simpa [Disk.apply] using hGone
      | _ => exact he.elim
    · intro hGone
      refine hZips ?_
      cases e with
      | removeZip i =>
        simp only [Disk.apply, get_delete]
        split
        · exact Or.inl rfl
        next hi =>
          refine hGone.imp_right fun hMem => ?_
          simpa [hi] using hMem
      | removePart i => simpa [Disk.apply] using hGone
      | removeReceipt i => simpa [Disk.apply] using hGone
      | _ => exact he.elim

/-- Nothing is left of a job that is not there. -/
theorem write_orphans (h : JobsSound w d jobs) (hOrphan : jobs.get id = none) :
    (d.write (Server.orphans d jobs)).parts.get id = none ∧
      (d.write (Server.orphans d jobs)).zips.get id = none := by
  have hHas : jobs.has id = false := by simp [JsMap.has, hOrphan]
  obtain ⟨hParts, hZips⟩ := @gone_of_removes d id _ _ (removes_orphans h)
  constructor
  · refine hParts ?_
    rcases hGet : d.parts.get id with - | bytes
    · exact Or.inl rfl
    · refine Or.inr (mem_append_left _ (mem_map.mpr ⟨id, ?_, rfl⟩))
      exact mem_filter.mpr ⟨mem_keys_of_get hGet, by simp [hHas]⟩
  · refine hZips ?_
    rcases hGet : d.zips.get id with - | bytes
    · exact Or.inl rfl
    · refine Or.inr (mem_append_right _ (mem_map.mpr ⟨id, ?_, rfl⟩))
      exact mem_filter.mpr ⟨mem_keys_of_get hGet, by simp [hHas]⟩

/-- The constructor on a sound directory. -/
structure Boots (cfg : ExportConfig) (w : World) (d : Disk) (result : Server × List DiskEffect) :
    Prop where
  safe : Safe cfg w d result.2
  sound : ServerSound w (d.write result.2) result.1
  clean : ∀ id, (d.write result.2).zips.has id = true ∨ (d.write result.2).parts.has id = true →
    ∃ job, (d.write result.2).receipts.get id = some job ∧ job.state = .completed

theorem ended_state {st : ExportState} (h : st.isActive = false) :
    st = .completed ∨ st = .failed := by
  cases st <;> simp [ExportState.isActive] at h ⊢

/-- Once the files of no job are removed. -/
theorem Ended.boots (h : Ended w (d.write es) jobs) (hSafe : Safe cfg w d es)
    (hDisk : DiskSound cfg w d) :
    Boots cfg w d ({ jobs }, es ++ Server.orphans (d.write es) jobs) := by
  have hAll : Safe cfg w d (es ++ Server.orphans (d.write es) jobs) :=
    safe_append.mpr ⟨hSafe, safe_removes (removes_orphans h.sound)⟩
  have hSound := hAll.sound_all hDisk
  have hEnded := h.orphans
  rw [← Disk.write_append] at hEnded
  refine ⟨hAll, hEnded.serverSound, fun id hFile => ?_⟩
  rcases hJob : jobs.get id with - | job
  · have hGone := write_orphans h.sound hJob
    rw [← Disk.write_append] at hGone
    simp only [JsMap.has, hGone, Option.isSome_none, Bool.false_eq_true, or_self] at hFile
  · obtain ⟨hReceipt, hState⟩ := hEnded.held id job hJob
    rcases ended_state hState with hState | hState
    · exact ⟨job, hReceipt, hState⟩
    · have hNone := hSound.failed id job hReceipt hState
      simp only [JsMap.has, hNone, Option.isSome_none, Bool.false_eq_true, or_self] at hFile

theorem readsBack_receipts (h : DiskSound cfg w d) : ReadsBack cfg w d d.receipts.entries
    (d.receipts.entries.foldl (Server.readReceipt saves) (.empty, [])) := by
  have hGet : ∀ p ∈ d.receipts.entries, d.receipts.get p.1 = some p.2 := fun p hp =>
    get_eq_some_iff.mpr hp
  exact readsBack_foldl d.receipts.nodup hGet fun p hp => h.named p.1 p.2 (hGet p hp)

theorem boot_sound (h : DiskSound cfg w d) {now : Int} (hNow : now ≤ w.clock) :
    Boots cfg w d (Server.boot d now saves) := by
  have hRead : ReadsBack cfg w d d.receipts.entries _ := @readsBack_receipts cfg w d saves h
  have hRemain := hRead.ended h
  have hClean := hRemain.cleanup hNow
  rw [← Disk.write_append] at hClean
  exact hClean.boots (safe_append.mpr ⟨hRead.safe, hRemain.safe_cleanup hNow⟩) h

/-- The archive of a completed job that has not expired is spared. -/
theorem boot_spares (h : DiskSound cfg w d) (hReceipt : d.receipts.get id = some job)
    (hState : job.state = .completed) (hBefore : now < job.expiresAt) :
    ∀ e ∈ (Server.boot d now saves).2, Spares id e := by
  have hRead : ReadsBack cfg w d d.receipts.entries _ := @readsBack_receipts cfg w d saves h
  unfold Server.boot
  dsimp only
  generalize d.receipts.entries.foldl (Server.readReceipt saves) (.empty, []) = acc at hRead ⊢
  have hJob : acc.1.get id = some job :=
    hRead.completed (id, job) (get_eq_some_iff.mp hReceipt) hState
  have hStays : Server.expired { jobs := acc.1 } now job = false := by
    simp [Server.expired, hBefore]
  have hSound := (hRead.ended h).sound
  intro e he
  refine spares_of_ne ?_
  rcases mem_append.mp he with he | he
  · rcases mem_append.mp he with he | he
    · rintro rfl
      obtain ⟨p, hMem, hEq, hActive⟩ := (hRead.interrupts e he).active
      have hGet := get_eq_some_iff.mpr hMem
      rw [← hEq, hReceipt] at hGet
      obtain rfl := Option.some.inj hGet
      exact (ne_completed_of_isActive hActive).1 hState
    · exact @cleanup_leaves w _ { jobs := acc.1 } id job now hSound hJob hStays e he
  · exact orphans_leave (get_cleanup.mpr ⟨hJob, hStays⟩) e he

end boot

/-! ## Runs -/

structure Sound (cfg : ExportConfig) (w : World) : Prop where
  disk : DiskSound cfg w w.disk
  server : ∀ s, w.server = some s → ServerSound w w.disk s

section runs

variable {cfg : ExportConfig} {w w' : World} {id : Nat} {job : ExportJob}

theorem later_clock (w : World) (now : Int) : Later w { w with clock := max w.clock now } :=
  ⟨le_rfl, fun _ h => h, fun _ h => h, le_max_left _ _⟩

theorem Sound.step (h : Sound cfg w) (e : ExportEvent) : Sound cfg (w.step cfg e) := by
  cases e with
  | act a =>
    rcases hServer : w.server with - | s
    · simpa only [World.step, hServer] using h
    · simp only [World.step, hServer]
      obtain ⟨hSafe, hSound⟩ := (h.server s hServer).act h.disk a
      have hDisk := hSafe.sound_all (h.disk.later (later_note w s _ a))
      refine ⟨hDisk.later ⟨le_rfl, fun _ h => h, fun _ h => h, le_rfl⟩, fun s' hs' => ?_⟩
      obtain rfl := Option.some.inj hs'
      exact hSound.later ⟨le_rfl, fun _ h => h, fun _ h => h, le_rfl⟩
  | cut a effects =>
    rcases hServer : w.server with - | s
    · simpa only [World.step, hServer] using h
    · simp only [World.step, hServer]
      obtain ⟨hSafe, -⟩ := (h.server s hServer).act h.disk a
      have hDisk := hSafe.sound (h.disk.later (later_note w s _ a)) effects
      exact ⟨hDisk.later ⟨le_rfl, fun _ h => h, fun _ h => h, le_rfl⟩, nofun⟩
  | boot now saves =>
    rcases hServer : w.server with - | s
    · simp only [World.step, hServer]
      have hDisk := h.disk.later (later_clock w now)
      have hBoots := @boot_sound cfg _ _ saves hDisk now (le_max_right _ _)
      refine ⟨(hBoots.safe.sound_all hDisk).later ⟨le_rfl, fun _ h => h, fun _ h => h, le_rfl⟩,
        fun s' hs' => ?_⟩
      obtain rfl := Option.some.inj hs'
      exact hBoots.sound.later ⟨le_rfl, fun _ h => h, fun _ h => h, le_rfl⟩
    · simpa only [World.step, hServer] using h
  | bootCut now saves effects =>
    rcases hServer : w.server with - | s
    · simp only [World.step, hServer]
      have hDisk := h.disk.later (later_clock w now)
      have hBoots := @boot_sound cfg _ _ saves hDisk now (le_max_right _ _)
      exact ⟨(hBoots.safe.sound hDisk effects).later
        ⟨le_rfl, fun _ h => h, fun _ h => h, le_rfl⟩, by simp⟩
    · simpa only [World.step, hServer] using h

theorem sound_init : Sound cfg {} where
  disk := ⟨by simp, by simp, by simp⟩
  server := nofun

theorem Sound.receipt (h : Sound cfg w) (hKnows : w.Knows id job)
    (hState : job.state = .completed) : w.disk.receipts.get id = some job := by
  rcases hKnows with ⟨s, hServer, hJob⟩ | hReceipt
  · exact (h.server s hServer).jobs.completed id job hJob hState
  · exact hReceipt

theorem Sound.complete (h : Sound cfg w) : Complete cfg w where
  single s hServer := (h.server s hServer).single
  genuine id job hKnows hState := (h.disk.completed id job (h.receipt hKnows hState) hState).2

theorem Sound.keepsZips (h : Sound cfg w) (e : ExportEvent) : KeepsZips cfg w e := by
  intro id job z hKnows hState hZip hForce
  have hReceipt := h.receipt hKnows hState
  rcases hServer : w.server with - | s
  · have hBefore : ∀ now, e.now = some now → now < job.expiresAt := by
      rcases hForce with hBefore | ⟨s, hSome, -⟩
      · exact hBefore
      · rw [hServer] at hSome
        cases hSome
    cases e with
    | act a => simpa only [World.step, hServer] using hZip
    | cut a effects => simpa only [World.step, hServer] using hZip
    | boot now saves =>
      simp only [World.step, hServer]
      rw [zips_write _ (boot_spares h.disk hReceipt hState (hBefore now rfl)), hZip]
    | bootCut now saves effects =>
      simp only [World.step, hServer]
      rw [zips_write _ fun e he => boot_spares h.disk hReceipt hState (hBefore now rfl) e
        (mem_of_mem_take he), hZip]
  · have hSound := h.server s hServer
    have hJob := hSound.jobs.known id job hReceipt hState
    have hForce : (∀ now, e.now = some now → now < job.expiresAt) ∨ (id, false) ∈ s.handles := by
      refine hForce.imp_right ?_
      rintro ⟨s', hSome, hHandle⟩
      rw [hServer] at hSome
      obtain rfl := Option.some.inj hSome
      exact hHandle
    cases e with
    | act a =>
      simp only [World.step, hServer]
      rw [zips_write _ (act_spares hSound hJob hState a hForce), hZip]
    | cut a effects =>
      simp only [World.step, hServer]
      rw [zips_write _ fun e he => act_spares hSound hJob hState a hForce e
        (mem_of_mem_take he), hZip]
    | boot now saves => simpa only [World.step, hServer] using hZip
    | bootCut now saves effects => simpa only [World.step, hServer] using hZip

theorem Sound.restartsClean (h : Sound cfg w) : RestartsClean cfg w := by
  intro hServer now saves id
  simp only [World.step, hServer]
  exact (boot_sound (h.disk.later (later_clock w now)) (le_max_right _ _)).clean id

/-- In every run, and whatever comes next. -/
theorem exports_complete (cfg : ExportConfig) (es : List ExportEvent) :
    Complete cfg (run (World.step cfg) {} es) ∧
      (∀ e, KeepsZips cfg (run (World.step cfg) {} es) e) ∧
      RestartsClean cfg (run (World.step cfg) {} es) := by
  have hSound : Sound cfg (run (World.step cfg) {} es) :=
    run_invariant (Sound cfg) (fun _ e h => h.step e) sound_init es
  exact ⟨hSound.complete, hSound.keepsZips, hSound.restartsClean⟩

end runs

end TMEdge.Exports
