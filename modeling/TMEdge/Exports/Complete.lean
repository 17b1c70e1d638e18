import TMEdge.Exports.Model
import TMEdge.Library.Table

/-!
# A completed export is complete

What a receipt on the disk says (`DiskSound`) is kept by every single effect that is allowed where
it stands (`Allowed`), and so by any part of a list of effects that are (`Safe`): the process may
end between any two of them. What is in memory agrees with the receipts (`ServerSound`).

* `Safe.sound`: the directory behind any part of an act's effects.
* `ServerSound.act`: what an act of a running process keeps.
* `act_spares`: the archives it leaves alone.
-/

namespace TMEdge.Exports

open Library List JsMap

/-! ## What is said -/

/-- The dump of a job has exited with 0, and its archive was written out as `z`. -/
structure Genuine (cfg : ExportConfig) (w : World) (job : ExportJob) (z : List UInt8) : Prop where
  exited : job.id ∈ w.exits
  written : (job.id, z) ∈ w.packs
  bytes : job.bytes = z.length
  sha256 : job.sha256 = some (cfg.hash z)

/-- A job in memory or in its receipt. -/
def World.Knows (w : World) (id : Nat) (job : ExportJob) : Prop :=
  (∃ s, w.server = some s ∧ s.jobs.get id = some job) ∨ w.disk.receipts.get id = some job

structure Complete (cfg : ExportConfig) (w : World) : Prop where
  single : ∀ s, w.server = some s → ∀ i j a b, s.jobs.get i = some a → s.jobs.get j = some b →
    a.state.isActive = true → b.state.isActive = true → i = j
  genuine : ∀ id job, w.Knows id job → job.state = .completed →
    ∃ z, Genuine cfg w job z ∧ (w.disk.zips.get id = some z ∨ job.expiresAt ≤ w.clock)

def World.Leased (w : World) (id : Nat) : Prop :=
  ∃ s, w.server = some s ∧ (id, false) ∈ s.handles

def ExportEvent.now : ExportEvent → Option Int
  | .act a => a.now
  | .cut a _ => a.now
  | .boot now _ => some now
  | .bootCut now _ _ => some now

/-- The archive of a completed job stays, unless the job has expired and nobody holds a lease. -/
def KeepsZips (cfg : ExportConfig) (w : World) (e : ExportEvent) : Prop :=
  ∀ id job z, w.Knows id job → job.state = .completed → w.disk.zips.get id = some z →
    ((∀ now, e.now = some now → now < job.expiresAt) ∨ w.Leased id) →
    (w.step cfg e).disk.zips.get id = some z

/-- A restart leaves no archive and no partial file without the receipt of a completed job. -/
def RestartsClean (cfg : ExportConfig) (w : World) : Prop :=
  w.server = none → ∀ now saves id,
    let d := (w.step cfg (.boot now saves)).disk
    d.zips.has id = true ∨ d.parts.has id = true →
      ∃ job, d.receipts.get id = some job ∧ job.state = .completed

/-! ## The directory -/

structure DiskSound (cfg : ExportConfig) (w : World) (d : Disk) : Prop where
  named : ∀ id r, d.receipts.get id = some r → r.id = id ∧ id < w.made
  completed : ∀ id r, d.receipts.get id = some r → r.state = .completed →
    d.parts.get id = none ∧
      ∃ z, Genuine cfg w r z ∧ (d.zips.get id = some z ∨ r.expiresAt ≤ w.clock)
  failed : ∀ id r, d.receipts.get id = some r → r.state = .failed →
    d.parts.get id = none ∧ d.zips.get id = none

/-- Where an effect may stand. -/
def Allowed (cfg : ExportConfig) (w : World) (d : Disk) : DiskEffect → Prop
  | .writeReceipt r => r.id < w.made ∧
      (r.state = .completed → d.parts.get r.id = none ∧
        ∃ z, Genuine cfg w r z ∧ d.zips.get r.id = some z) ∧
      (r.state = .failed → d.parts.get r.id = none ∧ d.zips.get r.id = none)
  | .removeZip id => ∀ r, d.receipts.get id = some r → r.state = .completed →
      r.expiresAt ≤ w.clock
  | .writePart id _ => ∀ r, d.receipts.get id = some r → r.state.isActive = true
  | .publish id => ∀ r, d.receipts.get id = some r → r.state.isActive = true
  | _ => True

/-- The job an effect belongs to. -/
def DiskEffect.job : DiskEffect → Nat
  | .writeReceipt job => job.id
  | .removeReceipt id => id
  | .removeZip id => id
  | .removePart id => id
  | .writePart id _ => id
  | .publish id => id

section disk

variable {cfg : ExportConfig} {w w' : World} {d d' : Disk} {es es' : List DiskEffect}
  {e : DiskEffect} {id : Nat}

theorem ne_completed_of_isActive {st : ExportState} (h : st.isActive = true) :
    st ≠ .completed ∧ st ≠ .failed := by
  cases st <;> simp [ExportState.isActive] at h ⊢

theorem DiskSound.apply (h : DiskSound cfg w d) (he : Allowed cfg w d e) :
    DiskSound cfg w (d.apply e) := by
  cases e with
  | writeReceipt r =>
    obtain ⟨hMade, hCompleted, hFailed⟩ := he
    constructor
    all_goals
      intro id r' hr
      simp only [Disk.apply, get_set] at hr
      split at hr
    · next hId =>
        obtain rfl := Option.some.inj hr
        exact ⟨hId.symm, hId ▸ hMade⟩
    · exact h.named id r' hr
    · next hId =>
        obtain rfl := Option.some.inj hr
        intro hState
        obtain ⟨hPart, z, hGenuine, hZip⟩ := hCompleted hState
        exact ⟨hId ▸ hPart, z, hGenuine, Or.inl (hId ▸ hZip)⟩
    · exact h.completed id r' hr
    · next hId =>
        obtain rfl := Option.some.inj hr
        intro hState
        exact hId ▸ hFailed hState
    · exact h.failed id r' hr
  | removeReceipt id =>
    have hSub : ∀ id' r, (d.apply (.removeReceipt id)).receipts.get id' = some r →
        d.receipts.get id' = some r := by
      intro id' r hr
      simp only [Disk.apply, get_delete] at hr
      split at hr
      · cases hr
      · exact hr
    exact ⟨fun id' r hr => h.named id' r (hSub id' r hr),
      fun id' r hr => h.completed id' r (hSub id' r hr),
      fun id' r hr => h.failed id' r (hSub id' r hr)⟩
  | removeZip id =>
    refine ⟨h.named, fun id' r hr hState => ?_, fun id' r hr hState => ?_⟩
    · obtain ⟨hPart, z, hGenuine, hZip⟩ := h.completed id' r hr hState
      refine ⟨hPart, z, hGenuine, ?_⟩
      simp only [Disk.apply, get_delete]
      split
      next hId => exact Or.inr (he r (hId ▸ hr) hState)
      next => exact hZip
    · obtain ⟨hPart, hZip⟩ := h.failed id' r hr hState
      refine ⟨hPart, ?_⟩
      simp only [Disk.apply, get_delete, hZip, ite_self]
  | removePart id =>
    have hPart : ∀ id', d.parts.get id' = none →
        (d.apply (.removePart id)).parts.get id' = none := by
      intro id' hPart
      simp only [Disk.apply, get_delete, hPart, ite_self]
    exact ⟨h.named,
      fun id' r hr hState => (h.completed id' r hr hState).imp_left (hPart id'),
      fun id' r hr hState => (h.failed id' r hr hState).imp_left (hPart id')⟩
  | writePart id bytes =>
    have hPart : ∀ id' r, d.receipts.get id' = some r → r.state.isActive = false →
        d.parts.get id' = none → (d.apply (.writePart id bytes)).parts.get id' = none := by
      intro id' r hr hState hPart
      simp only [Disk.apply, get_set]
      split
      next hId => simp [he r (hId ▸ hr)] at hState
      next => exact hPart
    exact ⟨h.named,
      fun id' r hr hState => (h.completed id' r hr hState).imp_left
        (hPart id' r hr (by rw [hState]; rfl)),
      fun id' r hr hState => (h.failed id' r hr hState).imp_left
        (hPart id' r hr (by rw [hState]; rfl))⟩
  | publish id =>
    simp only [Disk.apply]
    split
    next bytes hBytes =>
      have hOther : ∀ id' r, d.receipts.get id' = some r → r.state.isActive = false →
          id' ≠ id := by
        rintro id' r hr hState rfl
        simp [he r hr] at hState
      refine ⟨h.named, fun id' r hr hState => ?_, fun id' r hr hState => ?_⟩
      · obtain ⟨hPart, z, hGenuine, hZip⟩ := h.completed id' r hr hState
        have hNe := hOther id' r hr (by rw [hState]; rfl)
        simp only [get_delete, get_set, if_neg hNe]
        exact ⟨hPart, z, hGenuine, hZip⟩
      · have hNe := hOther id' r hr (by rw [hState]; rfl)
        simp only [get_delete, get_set, if_neg hNe]
        exact h.failed id' r hr hState
    next => exact h

/-- Every effect is allowed where it stands. -/
def Safe (cfg : ExportConfig) (w : World) : Disk → List DiskEffect → Prop
  | _, [] => True
  | d, e :: es => Allowed cfg w d e ∧ Safe cfg w (d.apply e) es

theorem Disk.write_append (d : Disk) (es es' : List DiskEffect) :
    d.write (es ++ es') = (d.write es).write es' := by
  simp [Disk.write]

theorem safe_append : Safe cfg w d (es ++ es') ↔ Safe cfg w d es ∧ Safe cfg w (d.write es) es' := by
  induction es generalizing d with
  | nil => simp [Safe, Disk.write]
  | cons e es ih =>
    simp only [cons_append, Safe, ih, and_assoc]
    rfl

/-- The directory is sound behind any part of the effects. -/
theorem Safe.sound (h : DiskSound cfg w d) (hSafe : Safe cfg w d es) (k : Nat) :
    DiskSound cfg w (d.write (es.take k)) := by
  induction es generalizing d k with
  | nil => simpa [Disk.write] using h
  | cons e es ih =>
    cases k with
    | zero => exact h
    | succ k => exact ih (h.apply hSafe.1) hSafe.2 k

theorem Safe.sound_all (h : DiskSound cfg w d) (hSafe : Safe cfg w d es) :
    DiskSound cfg w (d.write es) := by
  have := hSafe.sound h es.length
  rwa [take_length] at this

/-- More has been said of the world outside. -/
structure Later (w w' : World) : Prop where
  made : w.made ≤ w'.made
  exits : ∀ i ∈ w.exits, i ∈ w'.exits
  packs : ∀ p ∈ w.packs, p ∈ w'.packs
  clock : w.clock ≤ w'.clock

theorem Genuine.later {job : ExportJob} {z : List UInt8} (h : Genuine cfg w job z)
    (hLater : Later w w') : Genuine cfg w' job z :=
  ⟨hLater.exits _ h.exited, hLater.packs _ h.written, h.bytes, h.sha256⟩

theorem DiskSound.later (h : DiskSound cfg w d) (hLater : Later w w') : DiskSound cfg w' d where
  named id r hr := (h.named id r hr).imp_right fun hMade => hMade.trans_le hLater.made
  completed id r hr hState := by
    obtain ⟨hPart, z, hGenuine, hZip⟩ := h.completed id r hr hState
    exact ⟨hPart, z, hGenuine.later hLater, hZip.imp_right fun hLe => hLe.trans hLater.clock⟩
  failed := h.failed

/-! ## What effects leave alone -/

/-- The files of a job are as they were. -/
structure SameFiles (d d' : Disk) (id : Nat) : Prop where
  receipts : d'.receipts.get id = d.receipts.get id
  zips : d'.zips.get id = d.zips.get id
  parts : d'.parts.get id = d.parts.get id

theorem sameFiles_apply (d : Disk) (h : e.job ≠ id) : SameFiles d (d.apply e) id := by
  have hNe : id ≠ e.job := Ne.symm h
  cases e with
  | publish i =>
    have hNe : id ≠ i := hNe
    simp only [Disk.apply]
    split
    · exact ⟨rfl, by simp [hNe], by simp [hNe]⟩
    · exact ⟨rfl, rfl, rfl⟩
  | writeReceipt job =>
    have hNe : id ≠ job.id := hNe
    exact ⟨by simp [Disk.apply, hNe], rfl, rfl⟩
  | removeReceipt i =>
    have hNe : id ≠ i := hNe
    exact ⟨by simp [Disk.apply, hNe], rfl, rfl⟩
  | removeZip i =>
    have hNe : id ≠ i := hNe
    exact ⟨rfl, by simp [Disk.apply, hNe], rfl⟩
  | removePart i =>
    have hNe : id ≠ i := hNe
    exact ⟨rfl, rfl, by simp [Disk.apply, hNe]⟩
  | writePart i bytes =>
    have hNe : id ≠ i := hNe
    exact ⟨rfl, rfl, by simp [Disk.apply, hNe]⟩

theorem sameFiles_write (d : Disk) (h : ∀ e ∈ es, e.job ≠ id) : SameFiles d (d.write es) id := by
  induction es generalizing d with
  | nil => exact ⟨rfl, rfl, rfl⟩
  | cons e es ih =>
    have hFirst := sameFiles_apply d (h e (by simp))
    have hRest := ih (d.apply e) fun e' he' => h e' (by simp [he'])
    exact ⟨hRest.receipts.trans hFirst.receipts, hRest.zips.trans hFirst.zips,
      hRest.parts.trans hFirst.parts⟩

/-- An effect that leaves the archive of a job alone. -/
def Spares (id : Nat) (e : DiskEffect) : Prop := e ≠ .removeZip id ∧ e ≠ .publish id

theorem zips_write (d : Disk) (h : ∀ e ∈ es, Spares id e) :
    (d.write es).zips.get id = d.zips.get id := by
  induction es generalizing d with
  | nil => rfl
  | cons e es ih =>
    refine (ih (d.apply e) fun e' he' => h e' (by simp [he'])).trans ?_
    obtain ⟨hZip, hPublish⟩ := h e (by simp)
    cases e with
    | removeZip i =>
      have hNe : id ≠ i := fun hEq => hZip (hEq ▸ rfl)
      simp [Disk.apply, hNe]
    | publish i =>
      have hNe : id ≠ i := fun hEq => hPublish (hEq ▸ rfl)
      simp only [Disk.apply]
      split
      · simp [hNe]
      · rfl
    | _ => rfl

theorem spares_of_ne (h : e.job ≠ id) : Spares id e :=
  ⟨fun hEq => h (by rw [hEq]; rfl), fun hEq => h (by rw [hEq]; rfl)⟩

/-- Effects that only remove, and archives only where that is allowed. -/
def Removes (P : Nat → Prop) : DiskEffect → Prop
  | .removeZip id => P id
  | .removeReceipt _ => True
  | .removePart _ => True
  | _ => False

theorem receipts_apply_of_removes {P : Nat → Prop} (he : Removes P e) {r : ExportJob}
    (hr : (d.apply e).receipts.get id = some r) : d.receipts.get id = some r := by
  cases e with
  | removeReceipt i =>
    simp only [Disk.apply, get_delete] at hr
    split at hr
    · cases hr
    · exact hr
  | removeZip i => exact hr
  | removePart i => exact hr
  | _ => exact he.elim

theorem safe_removes (h : ∀ e ∈ es, Removes (fun id => ∀ r, d.receipts.get id = some r →
    r.state = .completed → r.expiresAt ≤ w.clock) e) : Safe cfg w d es := by
  suffices hAll : ∀ d', (∀ id r, d'.receipts.get id = some r → d.receipts.get id = some r) →
      Safe cfg w d' es from hAll d fun _ _ hr => hr
  induction es with
  | nil => exact fun _ _ => trivial
  | cons e es ih =>
    intro d' hSub
    have he := h e (by simp)
    refine ⟨?_, ih (fun e' he' => h e' (by simp [he'])) (d'.apply e) fun id r hr =>
      hSub id r (receipts_apply_of_removes he hr)⟩
    cases e with
    | removeZip id => exact fun r hr => he r (hSub id r hr)
    | removeReceipt id => trivial
    | removePart id => trivial
    | _ => exact he.elim

end disk

/-! ## Jobs in memory -/

/-- The jobs of a process agree with the receipts. -/
structure JobsSound (w : World) (d : Disk) (jobs : JsMap Nat ExportJob) : Prop where
  named : ∀ id job, jobs.get id = some job → job.id = id ∧ id < w.made
  completed : ∀ id job, jobs.get id = some job → job.state = .completed →
    d.receipts.get id = some job
  known : ∀ id r, d.receipts.get id = some r → r.state = .completed → jobs.get id = some r

/-- What a call of `generate` has seen. -/
def TaskSound (w : World) (d : Disk) (job : ExportJob) : Stage → Prop
  | .packing p => (p.refused = none → job.bytes = p.passed.length) ∧
      (p.dump = .fulfilled → job.id ∈ w.exits) ∧
      (p.packed = .fulfilled → p.refused = none ∧ (job.id, p.passed) ∈ w.packs ∧
        d.parts.get job.id = some p.passed)
  | _ => job.bytes = 0

structure ServerSound (w : World) (d : Disk) (s : Server) : Prop where
  jobs : JobsSound w d s.jobs
  active : ∀ id job, s.jobs.get id = some job → job.state.isActive = true →
    ∃ r, d.receipts.get id = some r ∧ r.state.isActive = true
  single : ∀ i j a b, s.jobs.get i = some a → s.jobs.get j = some b →
    a.state.isActive = true → b.state.isActive = true → i = j
  tasks : ∀ id task, s.tasks.get id = some task →
    ∃ job, s.jobs.get id = some job ∧ job.state.isActive = true ∧ TaskSound w d job task.stage
  leases : ∀ id, (s.leases.get id).getD 0 = s.handles.countP (· = (id, false)) ∧
    s.leases.get id ≠ some 0

section server

variable {cfg : ExportConfig} {w w' : World} {d d' : Disk} {s s' : Server} {id : Nat}
  {job job' : ExportJob} {es : List DiskEffect} {now : Int}

theorem JobsSound.later (h : JobsSound w d s.jobs) (hLater : Later w w') : JobsSound w' d s.jobs :=
  ⟨fun id job hJob => (h.named id job hJob).imp_right fun hMade => hMade.trans_le hLater.made,
    h.completed, h.known⟩

theorem TaskSound.later {stage : Stage} (h : TaskSound w d job stage) (hLater : Later w w') :
    TaskSound w' d job stage := by
  cases stage with
  | packing p =>
    obtain ⟨hBytes, hDump, hPacked⟩ := h
    refine ⟨hBytes, fun hDone => hLater.exits _ (hDump hDone), fun hDone => ?_⟩
    obtain ⟨hRefused, hWritten, hPart⟩ := hPacked hDone
    exact ⟨hRefused, hLater.packs _ hWritten, hPart⟩
  | _ => exact h

theorem ServerSound.later (h : ServerSound w d s) (hLater : Later w w') : ServerSound w' d s where
  jobs := h.jobs.later hLater
  active := h.active
  single := h.single
  tasks id task hTask := by
    obtain ⟨job, hJob, hActive, hSound⟩ := h.tasks id task hTask
    exact ⟨job, hJob, hActive, hSound.later hLater⟩
  leases := h.leases

/-- What a job under way may turn into. -/
structure Own (w : World) (d : Disk) (s : Server) (id : Nat) (job : ExportJob) : Prop where
  named : job.id = id
  completed : job.state = .completed → d.receipts.get id = some job
  known : ∀ r, d.receipts.get id = some r → r.state = .completed → job = r
  active : job.state.isActive = true → ∃ r, d.receipts.get id = some r ∧ r.state.isActive = true
  task : ∀ task, s.tasks.get id = some task →
    job.state.isActive = true ∧ TaskSound w d job task.stage

/-- Only one job changes, and its files. -/
theorem ServerSound.own (h : ServerSound w d s) (hJob : s.jobs.get id = some job)
    (hActive : job.state.isActive = true)
    (hJobs : ∀ i, s'.jobs.get i = if i = id then some job' else s.jobs.get i)
    (hTasks : ∀ i, i ≠ id → s'.tasks.get i = s.tasks.get i) (hLeases : s'.leases = s.leases)
    (hHandles : s'.handles = s.handles) (hFiles : ∀ i, i ≠ id → SameFiles d d' i)
    (hOwn : Own w d' s' id job') : ServerSound w d' s' where
  jobs := by
    constructor
    · intro i a ha
      rw [hJobs] at ha
      split at ha
      next hi =>
        obtain rfl := Option.some.inj ha
        exact ⟨hi ▸ hOwn.named, hi ▸ (h.jobs.named id job hJob).2⟩
      next => exact h.jobs.named i a ha
    · intro i a ha hState
      rw [hJobs] at ha
      split at ha
      next hi =>
        obtain rfl := Option.some.inj ha
        exact hi ▸ hOwn.completed hState
      next hi => rw [(hFiles i hi).receipts, h.jobs.completed i a ha hState]
    · intro i r hr hState
      rw [hJobs]
      split
      next hi => rw [hOwn.known r (hi ▸ hr) hState]
      next hi => exact h.jobs.known i r ((hFiles i hi).receipts ▸ hr) hState
  active i a ha hState := by
    rw [hJobs] at ha
    split at ha
    next hi =>
      obtain rfl := Option.some.inj ha
      exact hi ▸ hOwn.active hState
    next hi =>
      rw [(hFiles i hi).receipts]
      exact h.active i a ha hState
  single i j a b ha hb haState hbState := by
    rw [hJobs] at ha hb
    split at ha
    next hi =>
      split at hb
      next hj => rw [hi, hj]
      next hj => exact absurd (h.single j id b job hb hJob hbState hActive) hj
    next hi =>
      exact absurd (h.single i id a job ha hJob haState hActive) hi
  tasks i task hTask := by
    rw [hJobs]
    split
    next hi =>
      obtain ⟨hState, hSound⟩ := hOwn.task task (hi ▸ hTask)
      exact ⟨job', rfl, hState, hSound⟩
    next hi =>
      rw [hTasks i hi] at hTask
      obtain ⟨a, ha, haState, -⟩ := h.tasks i task hTask
      exact absurd (h.single i id a job ha hJob haState hActive) hi
  leases := by
    rw [hLeases, hHandles]
    exact h.leases

/-- The receipt of a job under way, if it has one, says so. -/
def UnderWay (d : Disk) (id : Nat) : Prop :=
  ∀ r, d.receipts.get id = some r → r.state.isActive = true

theorem ServerSound.underWay (h : ServerSound w d s) (hJob : s.jobs.get id = some job)
    (hActive : job.state.isActive = true) : UnderWay d id := by
  intro r hr
  obtain ⟨r', hr', hState⟩ := h.active id job hJob hActive
  obtain rfl := Option.some.inj (hr.symm.trans hr')
  exact hState

/-- An act on one job that is under way: its effects are allowed and its own. -/
structure Does (cfg : ExportConfig) (w : World) (d : Disk) (id : Nat)
    (result : Server × List DiskEffect) : Prop where
  safe : Safe cfg w d result.2
  sound : ServerSound w (d.write result.2) result.1
  own : ∀ e ∈ result.2, e.job = id

theorem does_nothing (h : ServerSound w d s) (id : Nat) : Does cfg w d id (s, []) :=
  ⟨trivial, h, by simp⟩

/-- The `catch` of `generate`, on a directory in which only the job's files have changed. -/
theorem does_fail (h : ServerSound w d s) (hJob : s.jobs.get id = some job)
    (hActive : job.state.isActive = true) (hId : job'.id = id)
    (hFiles : ∀ i, i ≠ id → SameFiles d d' i) (hUnder : UnderWay d' id) (reason : Reason)
    (saved : Bool) : Does cfg w d' id (s.fail job' reason saved) := by
  have hMade := (h.jobs.named id job hJob).2
  subst hId
  have hOwn : ∀ e ∈ (s.fail job' reason saved).2, e.job = job'.id := by
    intro e he
    simp only [Server.fail, mem_append, mem_cons, not_mem_nil, or_false] at he
    rcases he with (rfl | rfl) | he
    · rfl
    · rfl
    · split at he
      · obtain rfl := mem_singleton.mp he
        rfl
      · cases he
  have hReceipt : ∀ r, (d'.write (s.fail job' reason saved).2).receipts.get job'.id = some r →
      r.state ≠ .completed := by
    intro r hr
    unfold Server.fail at hr
    cases saved with
    | true =>
      simp only [if_true, Disk.write, foldl_append, foldl_cons, foldl_nil,
        Disk.apply, get_set] at hr
      obtain rfl := Option.some.inj hr
      simp
    | false => exact (ne_completed_of_isActive (hUnder r hr)).1
  refine ⟨?_, h.own hJob hActive (fun _ => get_set _ _ _ _) (fun i hi => ?_) rfl rfl
    (fun i hi => ?_) ?_, hOwn⟩
  · refine ⟨trivial, fun r hr hState => ?_, ?_⟩
    · exact absurd hState (ne_completed_of_isActive (hUnder r hr)).1
    · split
      · refine ⟨⟨hMade, by simp, fun _ => ?_⟩, trivial⟩
        simp [Disk.apply]
      · trivial
  · simp [Server.fail, hi]
  · have hRest := sameFiles_write d' fun e he => (hOwn e he).trans_ne (Ne.symm hi)
    exact ⟨hRest.receipts.trans (hFiles i hi).receipts, hRest.zips.trans (hFiles i hi).zips,
      hRest.parts.trans (hFiles i hi).parts⟩
  · exact ⟨rfl, by simp, fun r hr hState => absurd hState (hReceipt r hr),
      by simp [ExportState.isActive], by simp [Server.fail]⟩

/-- A failure where nothing has been written. -/
theorem does_fail_here (h : ServerSound w d s) (hJob : s.jobs.get id = some job)
    (hActive : job.state.isActive = true) (hId : job'.id = job.id) (reason : Reason)
    (saved : Bool) : Does cfg w d id (s.fail job' reason saved) :=
  does_fail h hJob hActive (hId.trans (h.jobs.named id job hJob).1) (fun _ _ => ⟨rfl, rfl, rfl⟩)
    (h.underWay hJob hActive) reason saved

/-- Writes of a job that stays under way: its receipt, and its partial file. -/
def Writes (job : ExportJob) (e : DiskEffect) : Prop :=
  e = .writeReceipt job ∨ ∃ bytes, e = .writePart job.id bytes

theorem safe_writes (hMade : job.id < w.made) (hState : job.state.isActive = true)
    (hEs : ∀ e ∈ es, Writes job e)
    (hReceipt : ∃ r, d.receipts.get job.id = some r ∧ r.state.isActive = true) :
    Safe cfg w d es ∧
      ∃ r, (d.write es).receipts.get job.id = some r ∧ r.state.isActive = true := by
  induction es generalizing d with
  | nil => exact ⟨trivial, hReceipt⟩
  | cons e es ih =>
    have hRest := fun d' => @ih d' fun e' he' => hEs e' (by simp [he'])
    obtain ⟨hNotCompleted, hNotFailed⟩ := ne_completed_of_isActive hState
    rcases hEs e (by simp) with rfl | ⟨bytes, rfl⟩
    · obtain ⟨hSafe, hActive⟩ := hRest (d.apply (.writeReceipt job))
        ⟨job, by simp [Disk.apply], hState⟩
      exact ⟨⟨⟨hMade, fun h => absurd h hNotCompleted, fun h => absurd h hNotFailed⟩, hSafe⟩,
        hActive⟩
    · obtain ⟨hSafe, hActive⟩ := hRest (d.apply (.writePart job.id bytes)) hReceipt
      refine ⟨⟨fun r hr => ?_, hSafe⟩, hActive⟩
      obtain ⟨r', hr', hState'⟩ := hReceipt
      obtain rfl := Option.some.inj (hr.symm.trans hr')
      exact hState'

/-- The job goes on. -/
theorem does_writes (h : ServerSound w d s) (hJob : s.jobs.get id = some job)
    (hActive : job.state.isActive = true) (hId : job'.id = job.id)
    (hState : job'.state.isActive = true) (hEs : ∀ e ∈ es, Writes job' e)
    (hJobs : ∀ i, s'.jobs.get i = if i = id then some job' else s.jobs.get i)
    (hTasks : ∀ i, i ≠ id → s'.tasks.get i = s.tasks.get i) (hLeases : s'.leases = s.leases)
    (hHandles : s'.handles = s.handles)
    (hTask : ∀ task, s'.tasks.get id = some task → TaskSound w (d.write es) job' task.stage) :
    Does cfg w d id (s', es) := by
  obtain ⟨rfl, hMade⟩ := h.jobs.named id job hJob
  rw [← hId] at hMade
  have hReceipt := h.active _ job hJob hActive
  rw [← hId] at hReceipt
  obtain ⟨hSafe, r, hr, hrState⟩ : Safe cfg w d es ∧ _ := safe_writes hMade hState hEs hReceipt
  rw [hId] at hr
  have hOwn : ∀ e ∈ es, e.job = job.id := by
    intro e he
    rcases hEs e he with rfl | ⟨bytes, rfl⟩
    · exact hId
    · exact hId
  refine ⟨hSafe, h.own hJob hActive hJobs hTasks hLeases hHandles (fun i hi =>
    sameFiles_write d fun e he => (hOwn e he).trans_ne (Ne.symm hi)) ?_, hOwn⟩
  refine ⟨hId, fun h => absurd h (ne_completed_of_isActive hState).1, fun r' hr' hState' => ?_,
    fun _ => ⟨r, hr, hrState⟩, fun task hTask' => ⟨hState, hTask task hTask'⟩⟩
  obtain rfl := Option.some.inj (hr.symm.trans hr')
  exact absurd hState' (ne_completed_of_isActive hrState).1

theorem does_setTask {stage : Stage} {aborted : Bool} (h : ServerSound w d s)
    (hJob : s.jobs.get id = some job) (hActive : job.state.isActive = true)
    (hId : job'.id = job.id) (hState : job'.state.isActive = true)
    (hEs : ∀ e ∈ es, Writes job' e) (hStage : TaskSound w (d.write es) job' stage) :
    Does cfg w d id (s.setTask id job' ⟨stage, aborted⟩, es) := by
  refine does_writes h hJob hActive hId hState hEs (fun i => get_set _ _ _ _)
    (fun i hi => ?_) rfl rfl
    fun task hTask => ?_
  · simp [Server.setTask, hi]
  · simp only [Server.setTask, get_set, if_true] at hTask
    obtain rfl := Option.some.inj hTask
    exact hStage

theorem does_begin (h : ServerSound w d s) (id : Nat) (saved failSaved : Bool) :
    Does cfg w d id (s.begin_ id saved failSaved) := by
  unfold Server.begin_
  split
  next aborted job hTask hJob =>
    obtain ⟨job₀, hJob₀, hActive, hSound⟩ := h.tasks id _ hTask
    obtain rfl := Option.some.inj (hJob.symm.trans hJob₀)
    split
    · exact does_fail_here h hJob hActive rfl _ _
    · dsimp only
      split
      · exact does_setTask h hJob hActive rfl rfl (by simp [Writes]) hSound
      · exact does_fail_here h hJob hActive rfl _ _
  next => exact does_nothing h id

theorem does_schema (h : ServerSound w d s) (id : Nat)
    (result : Except Reason (List (Text × Bool))) (space : Int) (spawned failSaved : Bool) :
    Does cfg w d id (s.schema cfg id result space spawned failSaved) := by
  unfold Server.schema
  split
  next aborted job hTask hJob =>
    obtain ⟨job₀, hJob₀, hActive, hSound⟩ := h.tasks id _ hTask
    obtain rfl := Option.some.inj (hJob.symm.trans hJob₀)
    have hFail : ∀ reason, Does cfg w d id (s.fail job reason failSaved) := fun reason =>
      does_fail_here h hJob hActive rfl reason failSaved
    split
    · exact hFail _
    · split
      · exact hFail _
      split
      · exact hFail _
      split
      · exact hFail _
      split
      · exact does_setTask h hJob hActive rfl hActive (by simp) ⟨fun _ => hSound, nofun, nofun⟩
      · exact hFail _
  next => exact does_nothing h id

theorem does_chunk (h : ServerSound w d s) (id : Nat) (data : List UInt8)
    (free save : Option Bool) (flushed : Nat) :
    Does cfg w d id (s.chunk id data free save flushed) := by
  unfold Server.chunk
  split
  next p aborted job hTask hJob =>
    obtain ⟨job₀, hJob₀, hActive, hBytes, hDump, hPacked⟩ := h.tasks id _ hTask
    obtain rfl := Option.some.inj (hJob.symm.trans hJob₀)
    obtain ⟨hId, -⟩ := h.jobs.named id job hJob
    split
    · exact does_nothing h id
    next hOpen =>
      simp only [not_or, not_not, Bool.not_eq_true, Option.isSome_eq_false_iff,
        Option.isNone_iff_eq_none] at hOpen
      obtain ⟨hPending, hRefused⟩ := hOpen
      have hNotPacked : p.packed ≠ .fulfilled := by simp [hPending]
      dsimp only
      split
      · exact does_setTask h hJob hActive rfl hActive (by simp)
          ⟨nofun, hDump, fun hDone => absurd hDone hNotPacked⟩
      split
      · exact does_setTask h hJob hActive rfl hActive (by simp)
          ⟨nofun, hDump, fun hDone => absurd hDone hNotPacked⟩
      split
      · exact does_setTask h hJob hActive rfl hActive (by simp)
          ⟨nofun, hDump, fun hDone => absurd hDone hNotPacked⟩
      · refine does_setTask h hJob hActive rfl hActive (fun e he => ?_)
          ⟨fun _ => ?_, hDump, fun hDone => absurd hDone hNotPacked⟩
        · rcases mem_append.mp he with he | he
          · split at he
            · exact Or.inl (mem_singleton.mp he)
            · cases he
          · exact Or.inr ⟨_, (mem_singleton.mp he).trans (by rw [hId])⟩
        · simp only [hBytes hRefused, length_append]
  next => exact does_nothing h id

/-- Only what a call has seen changes. -/
theorem does_tasks {task : Task} (h : ServerSound w d s) (hJob : s.jobs.get id = some job)
    (hActive : job.state.isActive = true) (hEs : ∀ e ∈ es, Writes job e)
    (hStage : TaskSound w (d.write es) job task.stage) :
    Does cfg w d id ({ s with tasks := s.tasks.set id task }, es) := by
  refine does_writes h hJob hActive rfl hActive hEs (fun i => ?_) (fun i hi => ?_) rfl rfl
    fun task' hTask => ?_
  · split
    next hi => rw [hi, hJob]
    next => rfl
  · simp [hi]
  · simp only [get_set, if_true] at hTask
    obtain rfl := Option.some.inj hTask
    exact hStage

theorem does_dumpEnds (h : ServerSound w d s) (id : Nat) (result : Server.DumpEnd)
    (hExit : result = .close (some 0) → ∀ p aborted,
      s.tasks.get id = some ⟨.packing p, aborted⟩ → id ∈ w.exits) :
    Does cfg w d id (s.dumpEnds id result, []) := by
  unfold Server.dumpEnds
  split
  next p aborted hTask =>
    obtain ⟨job, hJob, hActive, hBytes, -, hPacked⟩ := h.tasks id _ hTask
    split
    · refine does_tasks h hJob hActive (by simp) ⟨hBytes, fun hDone => ?_, hPacked⟩
      have hZero : result = .close (some 0) := by
        cases result with
        | error => cases hDone
        | close code =>
          simp only [Server.DumpEnd.result] at hDone
          split at hDone
          next hCode => rw [hCode]
          next => cases hDone
      rw [(h.jobs.named id job hJob).1]
      exact hExit hZero p aborted hTask
    · exact does_nothing h id
  next => exact does_nothing h id

theorem packResult_eq_fulfilled {p : Packing} {failure : Option Reason}
    (h : Server.packResult p failure = .fulfilled) : p.refused = none := by
  unfold Server.packResult at h
  split at h
  · cases h
  · cases h
  · assumption

theorem does_packEnds (h : ServerSound w d s) (id : Nat) (failure : Option Reason)
    (hPack : ∀ bytes, .writePart id bytes ∈ (s.packEnds id failure).2 → (id, bytes) ∈ w.packs) :
    Does cfg w d id (s.packEnds id failure) := by
  unfold Server.packEnds at hPack ⊢
  split
  next p aborted hTask =>
    obtain ⟨job, hJob, hActive, hBytes, hDump, -⟩ := h.tasks id _ hTask
    obtain ⟨hId, -⟩ := h.jobs.named id job hJob
    split
    next hPending =>
      dsimp only
      refine does_tasks h hJob hActive (fun e he => ?_) ⟨hBytes, hDump, fun hDone => ?_⟩
      · split at he
        · exact Or.inr ⟨p.passed, (mem_singleton.mp he).trans (by rw [hId])⟩
        · cases he
      · have hDone : Server.packResult p failure = .fulfilled := hDone
        refine ⟨packResult_eq_fulfilled hDone, ?_, ?_⟩
        · rw [hId]
          refine hPack p.passed ?_
          simp [hTask, hPending, hDone]
        · simp [hDone, Disk.write, Disk.apply, hId]
    next => exact does_nothing h id
  next => exact does_nothing h id

/-- Where nothing is told, both promises have been fulfilled. -/
theorem fulfilled_of_failure {p : Packing} (hDump : p.dump ≠ .pending)
    (hPacked : p.packed ≠ .pending) (h : Server.failure p = none) :
    p.dump = .fulfilled ∧ p.packed = .fulfilled := by
  rcases hd : p.dump with - | - | r
  · exact absurd hd hDump
  · rcases hp : p.packed with - | - | r
    · exact absurd hp hPacked
    · exact ⟨rfl, rfl⟩
    · simp [Server.failure, hd, hp] at h
  · simp [Server.failure, hd] at h

theorem does_settle (h : ServerSound w d s) (id : Nat) (now : Int)
    (renamed saved failSaved : Bool) :
    Does cfg w d id (s.settle cfg d id now renamed saved failSaved) := by
  unfold Server.settle
  split
  next p aborted job hTask hJob =>
    obtain ⟨job₀, hJob₀, hActive, hBytes, hDump, hPacked⟩ := h.tasks id _ hTask
    obtain rfl := Option.some.inj (hJob.symm.trans hJob₀)
    obtain ⟨hId, hMade⟩ := h.jobs.named id job hJob
    have hUnder := h.underWay hJob hActive
    have hFail : ∀ reason, Does cfg w d id (s.fail job reason failSaved) := fun reason =>
      does_fail_here h hJob hActive rfl reason failSaved
    split
    · exact does_nothing h id
    next hSettled =>
      split
      · exact hFail _
      next hFailure =>
        split
        · exact hFail _
        split
        · exact hFail _
        obtain ⟨hDumped, hDone⟩ := fulfilled_of_failure (fun h => hSettled (Or.inl h))
          (fun h => hSettled (Or.inr h)) hFailure
        obtain ⟨hRefused, hWritten, hPart⟩ := hPacked hDone
        subst hId
        have hPublish : d.apply (.publish job.id) = { d with
            zips := d.zips.set job.id p.passed, parts := d.parts.delete job.id } := by
          simp only [Disk.apply, hPart]
        dsimp only
        split
        · have hGenuine : Genuine cfg w { job with
              sha256 := some (cfg.hash p.passed), state := .completed
              expiresAt := now + ttl } p.passed :=
            ⟨hDump hDumped, hWritten, hBytes hRefused, rfl⟩
          refine ⟨⟨hUnder, ⟨hMade, fun _ => ?_, by simp⟩, trivial⟩,
            h.own hJob hActive (fun _ => get_set _ _ _ _) (fun i hi => by simp [hi]) rfl rfl
              (fun i hi => ?_) ?_, by simp [DiskEffect.job]⟩
          · rw [hPublish]
            exact ⟨by simp, p.passed, hGenuine, by simp⟩
          · exact sameFiles_write d (by simp [DiskEffect.job, Ne.symm hi])
          · refine ⟨rfl, fun _ => ?_, fun r hr _ => ?_, by simp [ExportState.isActive], by simp⟩
            · simp [Disk.write, Disk.apply]
            · simp only [Disk.write, foldl_cons, foldl_nil, Disk.apply, get_set,
                if_true] at hr
              exact Option.some.inj hr
        · have hFiles : ∀ i, i ≠ job.id → SameFiles d (d.apply (.publish job.id)) i :=
            fun i hi => sameFiles_apply d (Ne.symm hi)
          have hUnder' : UnderWay (d.apply (.publish job.id)) job.id := by
            rw [hPublish]
            exact hUnder
          have hFailed : Does cfg w (d.apply (.publish job.id)) job.id (s.fail { job with
              sha256 := some (cfg.hash p.passed), state := .completed
              expiresAt := now + ttl } .other failSaved) := by
            refine does_fail h hJob hActive ?_ hFiles hUnder' .other failSaved
            rfl
          exact ⟨⟨hUnder, hFailed.safe⟩, hFailed.sound,
            by simpa [DiskEffect.job] using hFailed.own⟩
  next => exact does_nothing h id

/-! ## Leases and timeouts -/

/-- Calls of `generate` are aborted where they are. -/
theorem ServerSound.aborted {tasks : JsMap Nat Task} (h : ServerSound w d s) {stopped : Bool}
    (hTasks : ∀ i task, tasks.get i = some task →
      ∃ before, s.tasks.get i = some before ∧ task.stage = before.stage) :
    ServerSound w d { s with tasks, stopped } where
  jobs := h.jobs
  active := h.active
  single := h.single
  tasks i task hTask := by
    obtain ⟨before, hBefore, hStage⟩ := hTasks i task hTask
    rw [hStage]
    exact h.tasks i before hBefore
  leases := h.leases

theorem stage_abort (task : Task) : (Server.abort task).stage = task.stage := by
  unfold Server.abort
  split <;> rfl

theorem ServerSound.timeout (h : ServerSound w d s) (id : Nat) :
    ServerSound w d (s.timeout id) := by
  unfold Server.timeout
  split
  next task hTask =>
    refine h.aborted fun i task' hTask' => ?_
    rw [get_set] at hTask'
    split at hTask'
    next hi =>
      obtain rfl := Option.some.inj hTask'
      exact ⟨task, hi ▸ hTask, stage_abort task⟩
    next => exact ⟨task', hTask', rfl⟩
  next => exact h

theorem ServerSound.stop (h : ServerSound w d s) : ServerSound w d s.stop := by
  refine h.aborted fun i task hTask => ?_
  rw [get_mapValues] at hTask
  obtain ⟨before, hBefore, rfl⟩ := Option.map_eq_some_iff.mp hTask
  exact ⟨before, hBefore, stage_abort before⟩

theorem ServerSound.lease (h : ServerSound w d s) (id : Nat) : ServerSound w d (s.lease id) where
  jobs := h.jobs
  active := h.active
  single := h.single
  tasks := h.tasks
  leases i := by
    obtain ⟨hCount, hSome⟩ := h.leases i
    simp only [Server.lease, get_set, countP_append, countP_singleton,
      decide_eq_true_eq, Prod.mk.injEq, and_true]
    split
    next hi =>
      subst hi
      rw [if_pos rfl, ← hCount]
      exact ⟨rfl, by simp⟩
    next hi =>
      rw [if_neg (Ne.symm hi), ← hCount]
      exact ⟨rfl, hSome⟩

theorem ServerSound.release (h : ServerSound w d s) (k : Nat) : ServerSound w d (s.release k) := by
  unfold Server.release
  split
  next id hHandle =>
    refine ⟨h.jobs, h.active, h.single, h.tasks, fun i => ?_⟩
    obtain ⟨hCount, hSome⟩ := h.leases i
    have hSet := countP_set_of_some hHandle (id, true) (· = (i, false))
    simp only [Prod.mk.injEq, and_true, decide_eq_true_eq, Bool.true_eq_false, and_false,
      if_false, Nat.add_zero] at hSet
    dsimp only
    by_cases hi : i = id
    · subst hi
      rw [if_pos rfl] at hSet
      have hGet : (s.leases.get i).getD 1 = (s.leases.get i).getD 0 := by
        rcases hGet : s.leases.get i with - | n
        · rw [hGet, Option.getD_none] at hCount
          omega
        · rfl
      split
      · rw [get_set, if_pos rfl]
        refine ⟨?_, ?_⟩
        · rw [Option.getD_some]
          omega
        · intro hZero
          have := Option.some.inj hZero
          omega
      · rw [get_delete, if_pos rfl]
        refine ⟨?_, by rintro ⟨⟩⟩
        rw [Option.getD_none]
        omega
    · rw [if_neg (Ne.symm hi)] at hSet
      have hSame : (if 0 < (s.leases.get id).getD 1 - 1 then
          s.leases.set id ((s.leases.get id).getD 1 - 1) else s.leases.delete id).get i =
          s.leases.get i := by
        split <;> simp [hi]
      rw [hSame]
      exact ⟨by omega, hSome⟩
  next => exact h

/-! ## Cleaning up -/

theorem receipts_write_of_removes {P : Nat → Prop} (h : ∀ e ∈ es, Removes P e) {r : ExportJob}
    (hr : (d.write es).receipts.get id = some r) :
    d.receipts.get id = some r ∧ .removeReceipt id ∉ es := by
  induction es generalizing d with
  | nil => exact ⟨hr, by simp⟩
  | cons e es ih =>
    obtain ⟨hRest, hNot⟩ := @ih (d.apply e) (fun e' he' => h e' (by simp [he'])) hr
    refine ⟨receipts_apply_of_removes (h e (by simp)) hRest, ?_⟩
    simp only [mem_cons, not_or]
    refine ⟨?_, hNot⟩
    rintro rfl
    simp [Disk.apply] at hRest

theorem mem_jobs_iff (h : JobsSound w d s.jobs) :
    job ∈ s.jobs.values ↔ s.jobs.get job.id = some job := by
  rw [mem_values_iff]
  constructor
  · rintro ⟨k, hk⟩
    rw [(h.named k job hk).1]
    exact hk
  · exact fun hJob => ⟨job.id, hJob⟩

theorem mem_cleanup {e : DiskEffect} : e ∈ (s.cleanup now).2 ↔
    ∃ job ∈ s.jobs.values, s.expired now job = true ∧ e ∈ Server.forget job.id := by
  simp only [Server.cleanup, mem_flatMap, mem_filter, and_assoc]

theorem job_of_mem_forget {e : DiskEffect} (h : e ∈ Server.forget id) : e.job = id := by
  simp only [Server.forget, mem_cons, not_mem_nil, or_false] at h
  rcases h with rfl | rfl | rfl <;> rfl

/-- What a cleanup removes is expired. -/
theorem removes_cleanup {now : Int} (h : JobsSound w d s.jobs) (hNow : now ≤ w.clock) :
    ∀ e ∈ (s.cleanup now).2, Removes (fun id => ∀ r, d.receipts.get id = some r →
      r.state = .completed → r.expiresAt ≤ w.clock) e := by
  intro e he
  obtain ⟨job, hMem, hExpired, he⟩ := mem_cleanup.mp he
  simp only [Server.forget, mem_cons, not_mem_nil, or_false] at he
  rcases he with rfl | rfl | rfl
  · intro r hr hState
    obtain rfl := Option.some.inj (((mem_jobs_iff h).mp hMem).symm.trans (h.known _ r hr hState))
    simp only [Server.expired, Bool.and_eq_true, decide_eq_true_eq] at hExpired
    exact hExpired.1.1.trans hNow
  · trivial
  · trivial

/-- The files of the jobs that stay are left alone. -/
theorem cleanup_leaves {now : Int} (h : JobsSound w d s.jobs)
    (hJob : s.jobs.get id = some job) (hStays : s.expired now job = false) :
    ∀ e ∈ (s.cleanup now).2, e.job ≠ id := by
  intro e he hEq
  obtain ⟨job', hMem, hExpired, he⟩ := mem_cleanup.mp he
  have hId : job'.id = id := (job_of_mem_forget he).symm.trans hEq
  have hJob' := (mem_jobs_iff h).mp hMem
  rw [hId] at hJob'
  obtain rfl := Option.some.inj (hJob.symm.trans hJob')
  rw [hStays] at hExpired
  cases hExpired

theorem get_cleanup : (s.cleanup now).1.jobs.get id = some job ↔
    s.jobs.get id = some job ∧ s.expired now job = false := by
  simp only [Server.cleanup, JsMap.get_filter, Option.filter_eq_some_iff, Bool.not_eq_true']

theorem JobsSound.cleanup (h : JobsSound w d s.jobs) (hNow : now ≤ w.clock) :
    JobsSound w (d.write (s.cleanup now).2) (s.cleanup now).1.jobs where
  named i job hJob := h.named i job (get_cleanup.mp hJob).1
  completed i job hJob hState := by
    obtain ⟨hJob, hStays⟩ := get_cleanup.mp hJob
    rw [(sameFiles_write d (cleanup_leaves h hJob hStays)).receipts]
    exact h.completed i job hJob hState
  known i r hr hState := by
    obtain ⟨hr, hNot⟩ := receipts_write_of_removes (removes_cleanup h hNow) hr
    have hJob := h.known i r hr hState
    refine get_cleanup.mpr ⟨hJob, ?_⟩
    by_contra hExpired
    refine hNot (mem_cleanup.mpr ⟨r, mem_values_iff.mpr ⟨i, hJob⟩, by simpa using hExpired,
      ?_⟩)
    simp [Server.forget, (h.named i r hJob).1]

theorem not_expired_of_isActive (h : job.state.isActive = true) : s.expired now job = false := by
  simp [Server.expired, h]

theorem ServerSound.cleanup (h : ServerSound w d s) (hNow : now ≤ w.clock) :
    Safe cfg w d (s.cleanup now).2 ∧
      ServerSound w (d.write (s.cleanup now).2) (s.cleanup now).1 := by
  refine ⟨safe_removes (removes_cleanup h.jobs hNow), h.jobs.cleanup hNow,
    fun i job hJob hState => ?_,
    fun i j a b ha hb => h.single i j a b (get_cleanup.mp ha).1 (get_cleanup.mp hb).1,
    fun i task hTask => ?_, h.leases⟩
  · obtain ⟨hJob, hStays⟩ := get_cleanup.mp hJob
    rw [(sameFiles_write d (cleanup_leaves h.jobs hJob hStays)).receipts]
    exact h.active i job hJob hState
  · obtain ⟨job, hJob, hState, hSound⟩ := h.tasks i task hTask
    have hStays : s.expired now job = false := not_expired_of_isActive hState
    refine ⟨job, get_cleanup.mpr ⟨hJob, hStays⟩, hState, ?_⟩
    have hFiles := sameFiles_write d (cleanup_leaves h.jobs hJob hStays)
    obtain rfl := (h.jobs.named i job hJob).1
    cases hStage : task.stage with
    | packing p =>
      rw [hStage] at hSound
      obtain ⟨hBytes, hDump, hPacked⟩ := hSound
      exact ⟨hBytes, hDump, fun hDone => by rw [hFiles.parts]; exact hPacked hDone⟩
    | _ => simpa [TaskSound, hStage] using hSound

/-! ## Starting -/

/-- A new job comes in with its receipt. -/
theorem ServerSound.added (h : ServerSound w d s) (hMade : job.id < w.made)
    (hNew : s.jobs.get job.id = none) (hReceipt : d.receipts.get job.id = none)
    (hState : job.state = .queued) (hBytes : job.bytes = 0)
    (hActive : ∀ i a, s.jobs.get i = some a → a.state.isActive = false) :
    ServerSound w (d.apply (.writeReceipt job)) { s with
      jobs := s.jobs.set job.id job, tasks := s.tasks.set job.id ⟨.queued, false⟩ } := by
  have hGet : ∀ i a, (s.jobs.set job.id job).get i = some a →
      i = job.id ∧ a = job ∨ i ≠ job.id ∧ s.jobs.get i = some a := by
    intro i a ha
    rw [get_set] at ha
    split at ha
    next hi => exact Or.inl ⟨hi, (Option.some.inj ha).symm⟩
    next hi => exact Or.inr ⟨hi, ha⟩
  have hQueued : job.state.isActive = true := by rw [hState]; rfl
  refine ⟨⟨fun i a ha => ?_, fun i a ha haState => ?_, fun i r hr hrState => ?_⟩,
    fun i a ha haState => ?_, fun i j a b ha hb haState hbState => ?_, fun i task hTask => ?_,
    h.leases⟩
  · rcases hGet i a ha with ⟨rfl, rfl⟩ | ⟨-, ha⟩
    · exact ⟨rfl, hMade⟩
    · exact h.jobs.named i a ha
  · rcases hGet i a ha with ⟨rfl, rfl⟩ | ⟨hi, ha⟩
    · rw [hState] at haState
      cases haState
    · simp only [Disk.apply, get_set, if_neg hi]
      exact h.jobs.completed i a ha haState
  · simp only [Disk.apply, get_set] at hr ⊢
    split at hr
    next =>
      obtain rfl := Option.some.inj hr
      rw [hState] at hrState
      cases hrState
    next hi => rw [if_neg hi, h.jobs.known i r hr hrState]
  · rcases hGet i a ha with ⟨rfl, rfl⟩ | ⟨-, ha⟩
    · exact ⟨a, by simp [Disk.apply], hQueued⟩
    · rw [hActive i a ha] at haState
      cases haState
  · rcases hGet i a ha with ⟨rfl, rfl⟩ | ⟨-, ha⟩
    · rcases hGet j b hb with ⟨rfl, rfl⟩ | ⟨-, hb⟩
      · rfl
      · rw [hActive j b hb] at hbState
        cases hbState
    · rw [hActive i a ha] at haState
      cases haState
  · rw [get_set] at hTask
    split at hTask
    next hi =>
      obtain rfl := Option.some.inj hTask
      exact ⟨job, by simp [hi], hQueued, hBytes⟩
    next =>
      obtain ⟨a, ha, haState, -⟩ := h.tasks i task hTask
      rw [hActive i a ha] at haState
      cases haState

theorem ServerSound.start (h : ServerSound w d s) (hId : id < w.made)
    (hNew : s.jobs.get id = none) (hReceipt : d.receipts.get id = none) (owner : Text)
    (epoch : Option Text) (tables : List Text) (hNow : now ≤ w.clock) (saved : Bool) :
    Safe cfg w d (s.start id owner epoch tables now saved).2 ∧
      ServerSound w (d.write (s.start id owner epoch tables now saved).2)
        (s.start id owner epoch tables now saved).1 := by
  unfold Server.start
  obtain ⟨hSafe, hClean⟩ : Safe cfg w d _ ∧ _ := h.cleanup hNow
  split
  · exact ⟨trivial, h⟩
  · dsimp only
    split
    · exact ⟨hSafe, hClean⟩
    next hFree =>
      split
      · have hNew' : (s.cleanup now).1.jobs.get id = none := by
          rcases hGet : (s.cleanup now).1.jobs.get id with - | a
          · rfl
          · rw [(get_cleanup.mp hGet).1] at hNew
            cases hNew
        have hReceipt' : (d.write (s.cleanup now).2).receipts.get id = none := by
          rcases hGet : (d.write (s.cleanup now).2).receipts.get id with - | r
          · rfl
          · rw [(receipts_write_of_removes (removes_cleanup h.jobs hNow) hGet).1] at hReceipt
            cases hReceipt
        have hActive : ∀ i a, (s.cleanup now).1.jobs.get i = some a →
            a.state.isActive = false := by
          intro i a ha
          by_contra hActive
          refine hFree (Or.inr (Or.inl (any_eq_true.mpr
            ⟨a, mem_values_iff.mpr ⟨i, ha⟩, ?_⟩)))
          simpa using hActive
        refine ⟨safe_append.mpr ⟨hSafe, ⟨hId, by simp, by simp⟩, trivial⟩, ?_⟩
        rw [Disk.write_append]
        exact hClean.added hId hNew' hReceipt' rfl rfl hActive
      · exact ⟨hSafe, hClean⟩

end server

/-! ## Acts -/

section acts

variable {cfg : ExportConfig} {w w' : World} {d : Disk} {s : Server} {id : Nat}
  {job : ExportJob} {es : List DiskEffect}

theorem later_note (w : World) (s : Server) (es : List DiskEffect) (a : Act) :
    Later w (w.note s es a) :=
  ⟨Nat.le_succ _, fun _ hi => mem_append_right _ hi, fun _ hp => mem_append_right _ hp,
    le_max_left _ _⟩

theorem now_le_clock (w : World) (s : Server) (es : List DiskEffect) {a : Act} {now : Int}
    (h : a.now = some now) : now ≤ (w.note s es a).clock := by
  simp only [World.note, h, Option.getD_some]
  exact le_max_right _ _

/-- What an act of a running process keeps. -/
theorem ServerSound.act (h : ServerSound w d s) (hDisk : DiskSound cfg w d) (a : Act) :
    Safe cfg (w.note s (s.act cfg d w.made a).2 a) d (s.act cfg d w.made a).2 ∧
      ServerSound (w.note s (s.act cfg d w.made a).2 a) (d.write (s.act cfg d w.made a).2)
        (s.act cfg d w.made a).1 := by
  have hLater := later_note w s (s.act cfg d w.made a).2 a
  have hNow := fun now => @now_le_clock w s (s.act cfg d w.made a).2 a now
  have h' := h.later hLater
  have hQuiet : ∀ {s'}, ServerSound (w.note s (s.act cfg d w.made a).2 a) d s' →
      Safe cfg (w.note s (s.act cfg d w.made a).2 a) d [] ∧
        ServerSound (w.note s (s.act cfg d w.made a).2 a) (d.write []) s' :=
    fun h => ⟨trivial, h⟩
  have hDoes : ∀ {id result}, Does cfg (w.note s (s.act cfg d w.made a).2 a) d id result →
      Safe cfg (w.note s (s.act cfg d w.made a).2 a) d result.2 ∧
        ServerSound (w.note s (s.act cfg d w.made a).2 a) (d.write result.2) result.1 :=
    fun h => ⟨h.safe, h.sound⟩
  cases a with
  | start owner epoch tables now saved =>
    refine h'.start (Nat.lt_succ_self _) ?_ ?_ owner epoch tables (hNow now rfl) saved
    · rcases hGet : s.jobs.get w.made with - | job
      · rfl
      · exact absurd (h.jobs.named _ job hGet).2 (lt_irrefl _)
    · rcases hGet : d.receipts.get w.made with - | r
      · rfl
      · exact absurd (hDisk.named _ r hGet).2 (lt_irrefl _)
  | begin_ id saved failSaved => exact hDoes (does_begin h' id saved failSaved)
  | schema id result space spawned failSaved =>
    exact hDoes (does_schema h' id result space spawned failSaved)
  | chunk id data free save flushed => exact hDoes (does_chunk h' id data free save flushed)
  | dumpEnds id result =>
    refine hDoes (does_dumpEnds h' id result fun hZero p aborted hTask => ?_)
    subst hZero
    exact mem_append_left _ (by simp [World.exited, hTask])
  | packEnds id failure =>
    refine hDoes (does_packEnds h' id failure fun bytes hWrite => ?_)
    exact mem_append_left _ (mem_filterMap.mpr ⟨_, hWrite, rfl⟩)
  | settle id now renamed saved failSaved =>
    exact hDoes (does_settle h' id now renamed saved failSaved)
  | timeout id => exact hQuiet (h'.timeout id)
  | cleanup now => exact h'.cleanup (hNow now rfl)
  | lease id => exact hQuiet (h'.lease id)
  | release i => exact hQuiet (h'.release i)
  | stop => exact hQuiet h'.stop

/-- A lease that is held is in the count. -/
theorem ServerSound.leased (h : ServerSound w d s) (hHandle : (id, false) ∈ s.handles) :
    s.leases.has id = true := by
  have hPos : 0 < s.handles.countP (· = (id, false)) :=
    countP_pos_iff.mpr ⟨_, hHandle, by simp⟩
  have hCount := (h.leases id).1
  rcases hGet : s.leases.get id with - | n
  · rw [hGet, Option.getD_none] at hCount
    omega
  · simp [JsMap.has, hGet]

/-- A call of `generate` spares the archive of a completed job: it is another one. -/
theorem Does.spares {i : Nat} {result : Server × List DiskEffect} (h : ServerSound w d s)
    (hDoes : Does cfg w d i result) (hIdle : s.tasks.get i = none → result.2 = [])
    (hJob : s.jobs.get id = some job) (hState : job.state = .completed) :
    ∀ e ∈ result.2, Spares id e := by
  intro e he
  refine spares_of_ne ?_
  rw [hDoes.own e he]
  rintro rfl
  rcases hTask : s.tasks.get i with - | task
  · rw [hIdle hTask] at he
    cases he
  · obtain ⟨job', hJob', hActive, -⟩ := h.tasks i task hTask
    obtain rfl := Option.some.inj (hJob.symm.trans hJob')
    exact (ne_completed_of_isActive hActive).1 hState

theorem spares_chunk (s : Server) (i id : Nat) (data : List UInt8) (free save : Option Bool)
    (flushed : Nat) : ∀ e ∈ (s.chunk i data free save flushed).2, Spares id e := by
  unfold Server.chunk
  split
  · split
    · simp
    · dsimp only
      split
      · simp
      split
      · simp
      split
      · simp
      · intro e he
        rcases mem_append.mp he with he | he
        · split at he
          · rw [mem_singleton.mp he]
            exact ⟨nofun, nofun⟩
          · cases he
        · rw [mem_singleton.mp he]
          exact ⟨nofun, nofun⟩
  · simp

theorem spares_packEnds (s : Server) (i id : Nat) (failure : Option Reason) :
    ∀ e ∈ (s.packEnds i failure).2, Spares id e := by
  unfold Server.packEnds
  split
  · split
    · intro e he
      dsimp only at he
      split at he
      · rw [mem_singleton.mp he]
        exact ⟨nofun, nofun⟩
      · cases he
    · simp
  · simp

theorem spares_start (h : ServerSound w d s) {i : Nat} (hi : i ≠ id) (owner : Text)
    (epoch : Option Text) (tables : List Text) {now : Int} (saved : Bool)
    (hJob : s.jobs.get id = some job) (hStays : s.expired now job = false) :
    ∀ e ∈ (s.start i owner epoch tables now saved).2, Spares id e := by
  have hClean : ∀ e ∈ (s.cleanup now).2, Spares id e := fun e he =>
    spares_of_ne (cleanup_leaves h.jobs hJob hStays e he)
  unfold Server.start
  split
  · simp
  · dsimp only
    split
    · exact hClean
    · split
      · intro e he
        rcases mem_append.mp he with he | he
        · exact hClean e he
        · rw [mem_singleton.mp he]
          exact spares_of_ne hi
      · exact hClean

/-- The archive of a completed job is spared, unless the job has expired and nobody holds a
lease. -/
theorem act_spares (h : ServerSound w d s) (hJob : s.jobs.get id = some job)
    (hState : job.state = .completed) (a : Act)
    (hForce : (∀ now, a.now = some now → now < job.expiresAt) ∨ (id, false) ∈ s.handles) :
    ∀ e ∈ (s.act cfg d w.made a).2, Spares id e := by
  obtain ⟨rfl, hMade⟩ := h.jobs.named id job hJob
  have hStays : ∀ now, a.now = some now → s.expired now job = false := by
    intro now hNow
    rcases hForce with hBefore | hHandle
    · simp [Server.expired, hBefore now hNow]
    · simp [Server.expired, h.leased hHandle]
  cases a with
  | start owner epoch tables now saved =>
    exact spares_start h hMade.ne' owner epoch tables saved hJob (hStays now rfl)
  | begin_ i saved failSaved =>
    exact (@does_begin cfg w d s h i saved failSaved).spares h
      (fun hTask => by simp only [Server.act, Server.begin_, hTask]) hJob hState
  | schema i result space spawned failSaved =>
    exact (does_schema h i result space spawned failSaved).spares h
      (fun hTask => by simp only [Server.act, Server.schema, hTask]) hJob hState
  | chunk i data free save flushed => exact spares_chunk s i job.id data free save flushed
  | packEnds i failure => exact spares_packEnds s i job.id failure
  | settle i now renamed saved failSaved =>
    exact (does_settle h i now renamed saved failSaved).spares h
      (fun hTask => by simp only [Server.act, Server.settle, hTask]) hJob hState
  | cleanup now =>
    exact fun e he => spares_of_ne (cleanup_leaves h.jobs hJob (hStays now rfl) e he)
  | dumpEnds i result => simp [Server.act]
  | timeout i => simp [Server.act]
  | lease i => simp [Server.act]
  | release i => simp [Server.act]
  | stop => simp [Server.act]

end acts

end TMEdge.Exports
