import TMEdge.Train.Jobs

/-!
# What the job store keeps

* `Saved`: the records of the last completed save, each with its files; `record` is what an
  operation makes of them.
* `harmless`: an operation is not stopped between putting code aside and the save, and does
  not throw behind the change in memory.
* `call_spec`: where an operation is stopped harmlessly, it is either the whole operation or
  nothing that is left.
* `store_atomic`: runs of such operations, and what a thrown operation leaves.
* `code_lost`: an update that ends between its two renames.
-/

namespace TMEdge.Train

open Library Option JsMap

/-! ## Definitions -/

abbrev Saved := JsMap Text (TrainJob × Files)

def records (m : Saved) : JsMap Text TrainJob := m.mapValues fun _ e => e.1

def record (m : Saved) : JobOp → Saved
  | .create job code => m.set job.id (job, code)
  | .createCopy job codeOf =>
    match m.get codeOf with
    | some e => m.set job.id (job, e.2)
    | none => m
  | .update job none =>
    match m.get job.id with
    | some e => m.set job.id (job, e.2)
    | none => m
  | .update job (some code) => m.set job.id (job, code)
  | .remove job => m.delete job.id

def Effect.setsAside : Effect → Bool
  | .setAside _ => true
  | _ => false

def Effect.inMemory : Effect → Bool
  | .setJob _ | .deleteJob _ => true
  | _ => false

def Effect.replaces : Effect → Bool
  | .replaceFile => true
  | _ => false

def replaced (op : JobOp) (place : Nat) : Bool := ((effects op).take place).any Effect.replaces

/-- A stop in the effect at `place` of an operation: a crash not between the moment code is
put aside and the save, an error not behind that moment and not behind a change in memory. -/
def harmless (op : JobOp) (place : Nat) (crash : Bool) : Bool :=
  if crash then !((effects op).take place).any Effect.setsAside || replaced op place
  else !((effects op).take place).any Effect.setsAside &&
    !((effects op).take (place + 1)).any Effect.inMemory

/-- What is copied, or updated without new code, is a job of the store. -/
def known (s : JobStore) : JobOp → Bool
  | .createCopy _ codeOf => s.jobs.has codeOf
  | .update job none => s.jobs.has job.id
  | _ => true

def Harmless (s : JobStore) : JobEvent → Prop
  | .call op stop => known s op = true ∧ ∀ st, stop = some st →
      st.place < (effects op).length → harmless op st.place st.crash = true
  | .restart => True

/-- Whether the operation replaced `jobs.json`. -/
def committed (op : JobOp) (stop : Option (Stop (Option Files))) : Ending → Bool
  | .done => true
  | .threw => false
  | .crashed => stop.any fun st => replaced op st.place

/-- The store behind a run, opened again and swept. -/
def reopenedAfter (es : List JobEvent) : JobStore := (run jobStep {} es).reopen.sweep

/-- The completed saves of a run. -/
def savedAfter : JobStore → Saved → List JobEvent → Saved
  | _, m, [] => m
  | s, m, .restart :: es => savedAfter (jobStep s .restart) m es
  | s, m, .call op stop :: es =>
    savedAfter (jobStep s (.call op stop))
      (if committed op stop (s.call op stop).2 then record m op else m) es

/-! ## Invariants -/

/-- Every saved record has its code. -/
structure Coded (s : JobStore) (m : Saved) : Prop where
  ids : ∀ id e, m.get id = some e → e.1.id = id ∧ isUuid id = true
  dirs : ∀ id e, m.get id = some e → ∃ old, s.dirs.get id = some ⟨some e.2, old⟩

structure Durable (s : JobStore) (m : Saved) : Prop extends Coded s m where
  file : s.file = (records m).values

structure Ready (s : JobStore) (m : Saved) : Prop extends Coded s m where
  jobs : s.jobs = records m
  readable : s.error = false

structure Faithful (s : JobStore) (m : Saved) : Prop extends Ready s m where
  file : s.file = (records m).values

variable {s t : JobStore} {m m' : Saved} {id : Text}

theorem Faithful.durable (h : Faithful s m) : Durable s m := ⟨h.toCoded, h.file⟩

theorem get_records (m : Saved) (id : Text) : (records m).get id = (m.get id).map Prod.fst :=
  get_mapValues ..

theorem Coded.indexed (h : Coded s m) : JsMap.Indexed TrainJob.id (records m) := by
  intro id job hJob
  rw [get_records, map_eq_some_iff] at hJob
  obtain ⟨e, he, rfl⟩ := hJob
  exact (h.ids id e he).1

/-- Opened again and swept, the store is in memory what it is on the disk. -/
theorem Durable.reopen (h : Durable s m) : Faithful s.reopen.sweep m := by
  have hUuids : (s.file.all fun job => isUuid job.id) = true := by
    rw [h.file]
    refine List.all_eq_true.mpr fun job hJob => ?_
    obtain ⟨id, hGet⟩ := mem_values_iff.mp hJob
    rw [get_records, map_eq_some_iff] at hGet
    obtain ⟨e, he, rfl⟩ := hGet
    obtain ⟨hId, hUuid⟩ := h.ids id e he
    exact hId ▸ hUuid
  have hReopen : s.reopen = { s with jobs := records m, error := false } := by
    unfold JobStore.reopen
    rw [if_pos hUuids, h.file, h.indexed.foldl_set_values]
  rw [hReopen]
  refine ⟨⟨⟨h.ids, fun id e he => ?_⟩, rfl, rfl⟩, h.file⟩
  obtain ⟨old, hDir⟩ := h.dirs id e he
  refine ⟨old, ?_⟩
  have hHas : (records m).has id = true := by
    rw [JsMap.has, get_records, he]
    rfl
  exact (get_filterKeys ..).trans ((if_pos hHas).trans hDir)

/-- Changes of a directory that no saved record points at. -/
theorem Coded.setCode (h : Coded s m) (hNew : m.get id = none) (code : Option Files)
    (old : List Files) : Coded (s.setCode id code old) m := by
  refine ⟨h.ids, fun id' e he => ?_⟩
  obtain ⟨old', hDir⟩ := h.dirs id' e he
  refine ⟨old', ?_⟩
  change (s.dirs.set id _).get id' = _
  rw [get_set, if_neg, hDir]
  rintro rfl
  rw [hNew] at he
  cases he

theorem Faithful.setCode (h : Faithful s m) (hNew : m.get id = none) (code : Option Files)
    (old : List Files) : Faithful (s.setCode id code old) m :=
  ⟨⟨h.toCoded.setCode hNew code old, h.jobs, h.readable⟩, h.file⟩

theorem Coded.of_eq (h : Coded s m) (hDirs : t.dirs = s.dirs) : Coded t m :=
  ⟨h.ids, fun id e he => hDirs ▸ h.dirs id e he⟩

/-! ## What effects do -/

section Effects

variable {e : Effect} {files : Files}

/-- Effects that leave the store as it is. -/
def Effect.quiet : Effect → Bool
  | .check | .codeDir _ | .writeTemp | .syncDirectory => true
  | _ => false

theorem apply_quiet (he : e.quiet = true) (h : JobStore.apply e s = some t) : t = s := by
  cases e with
  | check | codeDir =>
    unfold JobStore.apply at h
    dsimp only at h
    split at h <;> simp_all
  | writeTemp | syncDirectory => exact (some.inj h).symm
  | _ => cases he

theorem interrupt_quiet (he : e.quiet = true) (left : Option Files) :
    JobStore.interrupt e left s = s := by
  cases e with
  | check | codeDir | writeTemp | syncDirectory => rfl
  | _ => cases he

theorem apply_mkdir (h : JobStore.apply (.mkdir id) s = some t) :
    s.dirs.get id = none ∧ t = s.setCode id none [] := by
  unfold JobStore.apply at h
  dsimp only at h
  split at h
  · cases h
  · rename_i hHas
    rw [JsMap.has, Bool.not_eq_true, isSome_eq_false_iff, isNone_iff_eq_none] at hHas
    exact ⟨hHas, (some.inj h).symm⟩

theorem apply_moveIn (h : JobStore.apply (.moveIn id files) s = some t) :
    ∃ old, t = s.setCode id (some files) old := by
  unfold JobStore.apply at h
  dsimp only at h
  split at h
  · exact ⟨_, (some.inj h).symm⟩
  · cases h

theorem apply_copyIn {codeOf : Text} (h : JobStore.apply (.copyIn id codeOf) s = some t) :
    ∃ files old, (s.dirs.get codeOf).bind JobDir.code = some files ∧
      t = s.setCode id (some files) old := by
  unfold JobStore.apply at h
  dsimp only at h
  split at h
  · rename_i hCode
    exact ⟨_, _, hCode, (some.inj h).symm⟩
  · cases h

theorem apply_setAside (h : JobStore.apply (.setAside id) s = some t) :
    ∃ old, t = s.setCode id none old := by
  unfold JobStore.apply at h
  dsimp only at h
  split at h
  · exact ⟨_, (some.inj h).symm⟩
  · cases h

end Effects

/-! ## Programs of the store -/

section Programs

variable {Q T : JobStore → Prop} {allowed : Nat → Bool → Prop} {C : Nat → JobStore → Prop}
  {es : List Effect}

theorem holds_quiet {e : Effect} (he : e.quiet = true)
    (hThrow : allowed 0 false ∨ JobStore.apply e s = none → T s) (hCrash : allowed 0 true → C 0 s)
    (hNext : Holds JobStore.apply JobStore.interrupt Q T es (fun n => allowed (n + 1))
      (fun n => C (n + 1)) s) :
    Holds JobStore.apply JobStore.interrupt Q T (e :: es) allowed C s := by
  refine ⟨fun hAllowed left => ?_, fun hAllowed left => ?_, fun hFails => hThrow (Or.inr hFails),
    fun s' hApply => ?_⟩
  · rw [interrupt_quiet he]
    exact hThrow (Or.inl hAllowed)
  · rw [interrupt_quiet he]
    exact hCrash hAllowed
  · rwa [apply_quiet he hApply]

/-- The save of what is in memory, behind which `m'` is what is saved. -/
theorem holds_save (hReady : Ready s m') (hNoThrow : ∀ n < 3, ¬allowed n false)
    (hBefore : ∀ n < 2, allowed n true → C n s)
    (hAfter : ∀ t, t.dirs = s.dirs → Faithful t m' → C 2 t ∧
      Holds JobStore.apply JobStore.interrupt Q T es (fun n => allowed (n + 3))
        (fun n => C (n + 3)) t) :
    Holds JobStore.apply JobStore.interrupt Q T (save ++ es) allowed C s := by
  refine holds_quiet rfl (fun hThrow => ?_) (hBefore 0 (by omega)) ?_
  · rcases hThrow with hThrow | hFails
    · exact absurd hThrow (hNoThrow 0 (by omega))
    · cases hFails
  refine ⟨fun hThrow => absurd hThrow (hNoThrow 1 (by omega)),
    fun hAllowed _ => hBefore 1 (by omega) hAllowed, nofun, fun t ht => ?_⟩
  obtain rfl := some.inj ht
  obtain ⟨hCrash, hRest⟩ := hAfter { s with file := s.jobs.values } rfl
    ⟨⟨hReady.toCoded.of_eq rfl, hReady.jobs, hReady.readable⟩, by rw [← hReady.jobs]⟩
  refine holds_quiet rfl (fun hThrow => ?_) (fun _ => hCrash) hRest
  rcases hThrow with hThrow | hFails
  · exact absurd hThrow (hNoThrow 2 (by omega))
  · cases hFails

end Programs

/-! ## Operations -/

/-- What is saved behind a crash in the `n`-th effect. -/
def savedAt (m : Saved) (op : JobOp) (n : Nat) : Saved := if replaced op n then record m op else m

/-- What a thrown operation leaves. -/
structure Untouched (s : JobStore) (m : Saved) (t : JobStore) : Prop extends Faithful t m where
  jobs_eq : t.jobs = s.jobs
  error_eq : t.error = s.error
  file_eq : t.file = s.file

/-- The operation leaves what is saved as a whole, or as it was. -/
def Atomic (s : JobStore) (m : Saved) (op : JobOp) : Prop :=
  Holds JobStore.apply JobStore.interrupt (fun t => Faithful t (record m op)) (Untouched s m)
    (effects op) (fun n crash => harmless op n crash = true)
    (fun n t => Durable t (savedAt m op n)) s

theorem Faithful.untouched (h : Faithful s m) : Untouched s m s := ⟨h, rfl, rfl, rfl⟩

theorem Untouched.setCode (h : Untouched s m t) (hNew : m.get id = none) (code : Option Files)
    (old : List Files) : Untouched s m (t.setCode id code old) :=
  ⟨h.toFaithful.setCode hNew code old, h.jobs_eq, h.error_eq, h.file_eq⟩

/-- A record set in memory, whose code is there. -/
theorem Ready.setJob (h : Ready s m) {job : TrainJob} {files : Files} (hUuid : isUuid job.id = true)
    {old : List Files} (hDir : t.dirs.get job.id = some ⟨some files, old⟩)
    (hOther : ∀ id, id ≠ job.id → t.dirs.get id = s.dirs.get id) (hJobs : t.jobs = s.jobs)
    (hError : t.error = s.error) :
    Ready { t with jobs := t.jobs.set job.id job } (m.set job.id (job, files)) where
  ids id e he := by
    rw [get_set] at he
    split at he
    · rename_i hId
      obtain rfl := some.inj he
      exact ⟨hId.symm, hId ▸ hUuid⟩
    · exact h.ids id e he
  dirs id e he := by
    rw [get_set] at he
    split at he
    · rename_i hId
      obtain rfl := some.inj he
      exact ⟨old, hId ▸ hDir⟩
    · rename_i hId
      obtain ⟨old, hDir⟩ := h.dirs id e he
      exact ⟨old, (hOther id hId).trans hDir⟩
  jobs := by
    change t.jobs.set job.id job = _
    rw [hJobs, h.jobs, records, records, mapValues_set]
  readable := hError.trans h.readable

theorem apply_codeDir (h : JobStore.apply (.codeDir id) s = some t) : isUuid id = true := by
  unfold JobStore.apply at h
  dsimp only at h
  split at h
  · assumption
  · cases h

theorem Coded.free (h : Coded s m) (hFree : s.dirs.get id = none) : m.get id = none := by
  cases hGet : m.get id with
  | none => rfl
  | some e =>
    obtain ⟨old, hDir⟩ := h.dirs id e hGet
    rw [hFree] at hDir
    cases hDir

/-- The last part of every operation that records a job whose code is there. -/
theorem holds_record {T : JobStore → Prop} {allowed : Nat → Bool → Prop}
    {C : Nat → JobStore → Prop} {job : TrainJob}
    (h : Ready { s with jobs := s.jobs.set job.id job } m') (hNoThrow : ∀ n < 4, ¬allowed n false)
    (hBefore : ∀ n < 3, allowed n true → C n { s with jobs := s.jobs.set job.id job })
    (hAfter : ∀ t, Faithful t m' → C 3 t) :
    Holds JobStore.apply JobStore.interrupt (fun t => Faithful t m') T (.setJob job :: save) allowed
      C s := by
  refine ⟨fun hThrow => absurd hThrow (hNoThrow 0 (by omega)),
    fun hAllowed _ => hBefore 0 (by omega) hAllowed, nofun, fun t ht => ?_⟩
  obtain rfl := some.inj ht
  exact holds_save h (fun n hn => hNoThrow (n + 1) (by omega))
    (fun n hn => hBefore (n + 1) (by omega)) fun t _ ht => ⟨hAfter t ht, ht⟩

theorem get_setCode (code : Option Files) (old : List Files) :
    (s.setCode id code old).dirs.get id = some ⟨code, old⟩ :=
  (get_set ..).trans (if_pos rfl)

theorem get_setCode_ne {id' : Text} (h : id' ≠ id) (code : Option Files) (old : List Files) :
    (s.setCode id code old).dirs.get id' = s.dirs.get id' :=
  (get_set ..).trans (if_neg h)

theorem Faithful.saved_of_has (h : Faithful s m) (hKnown : s.jobs.has id = true) :
    ∃ e, m.get id = some e := by
  rw [h.jobs, JsMap.has, get_records, isSome_map, isSome_iff_exists] at hKnown
  exact hKnown

theorem atomic_create (h : Faithful s m) (job : TrainJob) (code : Files) :
    Atomic s m (.create job code) := by
  refine holds_quiet rfl (fun _ => h.untouched) (fun _ => h.durable) ?_
  refine ⟨fun _ _ => h.untouched, fun _ _ => h.durable, fun _ => h.untouched, fun s₁ hMkdir => ?_⟩
  obtain ⟨hFree, rfl⟩ := apply_mkdir hMkdir
  have hNew := h.free hFree
  have h₁ := h.untouched.setCode hNew none []
  refine ⟨fun _ _ => h₁, fun _ _ => h₁.durable, fun _ => h₁, fun s₂ hCodeDir => ?_⟩
  have hUuid := apply_codeDir hCodeDir
  obtain rfl := apply_quiet rfl hCodeDir
  refine ⟨fun _ _ => h₁, fun _ _ => h₁.durable, fun _ => h₁, fun s₃ hMoveIn => ?_⟩
  obtain ⟨old, rfl⟩ := apply_moveIn hMoveIn
  have h₂ := h₁.setCode hNew (some code) old
  have hReady := h₂.toReady.setJob hUuid (get_setCode ..) (fun _ _ => rfl) rfl rfl
  refine holds_record hReady (fun n hn => ?_) (fun n hn _ => ?_) fun t ht => ht.durable
  · interval_cases n <;> exact Bool.false_ne_true
  · interval_cases n <;> exact ⟨h₂.toCoded.of_eq rfl, h₂.file⟩

/-- Of a job of the store the code there is what is saved of it. -/
theorem atomic_createCopy (h : Faithful s m) (job : TrainJob) {codeOf : Text}
    (hKnown : s.jobs.has codeOf = true) : Atomic s m (.createCopy job codeOf) := by
  refine holds_quiet rfl (fun _ => h.untouched) (fun _ => h.durable) ?_
  refine ⟨fun _ _ => h.untouched, fun _ _ => h.durable, fun _ => h.untouched, fun s₁ hMkdir => ?_⟩
  obtain ⟨hFree, rfl⟩ := apply_mkdir hMkdir
  have hNew := h.free hFree
  have h₁ := h.untouched.setCode hNew none []
  refine ⟨fun _ _ => h₁, fun _ _ => h₁.durable, fun _ => h₁, fun s₂ hCodeDir => ?_⟩
  have hUuid := apply_codeDir hCodeDir
  obtain rfl := apply_quiet rfl hCodeDir
  refine ⟨fun _ left => h₁.setCode hNew left [], fun _ left => (h₁.setCode hNew left []).durable,
    fun _ => h₁, fun s₃ hCopyIn => ?_⟩
  obtain ⟨files, old, hCode, rfl⟩ := apply_copyIn hCopyIn
  have hSource : (s.dirs.get codeOf).bind JobDir.code = some files := by
    have hCode' : ((s.dirs.set job.id ⟨none, []⟩).get codeOf).bind JobDir.code = some files := hCode
    rw [get_set] at hCode'
    split at hCode'
    · cases hCode'
    · exact hCode'
  obtain ⟨e, he⟩ := h.saved_of_has hKnown
  have hFiles : e.2 = files := by
    obtain ⟨_, hDir⟩ := h.dirs codeOf e he
    rw [hDir] at hSource
    exact some.inj hSource
  have hRecord : record m (.createCopy job codeOf) = m.set job.id (job, files) := by
    simp only [record, he, hFiles]
  have h₂ := h₁.setCode hNew (some files) old
  have hReady := h₂.toReady.setJob hUuid (get_setCode ..) (fun _ _ => rfl) rfl rfl
  rw [hRecord]
  refine holds_record hReady (fun n hn => ?_) (fun n hn _ => ?_) fun t ht => ?_
  · interval_cases n <;> exact Bool.false_ne_true
  · interval_cases n <;> exact ⟨h₂.toCoded.of_eq rfl, h₂.file⟩
  · change Durable t (record m (.createCopy job codeOf))
    rw [hRecord]
    exact ht.durable

theorem atomic_update (h : Faithful s m) {job : TrainJob} (hKnown : s.jobs.has job.id = true) :
    Atomic s m (.update job none) := by
  obtain ⟨e, he⟩ := h.saved_of_has hKnown
  obtain ⟨old, hDir⟩ := h.dirs job.id e he
  have hRecord : record m (.update job none) = m.set job.id (job, e.2) := by
    simp only [record, he]
  unfold Atomic
  rw [hRecord]
  refine holds_quiet rfl (fun _ => h.untouched) (fun _ => h.durable) ?_
  have hReady := h.toReady.setJob (h.ids job.id e he).2 hDir (fun _ _ => rfl) rfl rfl
  refine holds_record hReady (fun n hn => ?_) (fun n hn _ => ?_) fun t ht => ?_
  · interval_cases n <;> exact Bool.false_ne_true
  · interval_cases n <;> exact ⟨h.toCoded.of_eq rfl, h.file⟩
  · change Durable t (record m (.update job none))
    rw [hRecord]
    exact ht.durable

/-- New code: what is saved is not there until `jobs.json` is replaced. -/
theorem atomic_updateCode (h : Faithful s m) (job : TrainJob) (code : Files) :
    Atomic s m (.update job (some code)) := by
  refine holds_quiet rfl (fun _ => h.untouched) (fun _ => h.durable) ?_
  refine ⟨fun _ _ => h.untouched, fun _ _ => h.durable, fun _ => h.untouched,
    fun s₁ hCodeDir => ?_⟩
  have hUuid := apply_codeDir hCodeDir
  obtain rfl := apply_quiet rfl hCodeDir
  refine ⟨fun _ _ => h.untouched, fun _ _ => h.durable, fun _ => h.untouched,
    fun s₂ hSetAside => ?_⟩
  obtain ⟨old, rfl⟩ := apply_setAside hSetAside
  refine ⟨nofun, nofun, fun hFails => ?_, fun s₃ hMoveIn => ?_⟩
  · unfold JobStore.apply at hFails
    dsimp only at hFails
    rw [get_setCode] at hFails
    cases hFails
  obtain ⟨old', rfl⟩ := apply_moveIn hMoveIn
  refine ⟨nofun, nofun, fun hFails => ?_, fun s₄ hDropOld => ?_⟩
  · unfold JobStore.apply at hFails
    dsimp only at hFails
    rw [get_setCode] at hFails
    cases hFails
  unfold JobStore.apply at hDropOld
  dsimp only at hDropOld
  rw [get_setCode] at hDropOld
  obtain rfl := some.inj hDropOld
  refine holds_record (h.toReady.setJob hUuid (get_setCode (some code) old'.tail) (fun id hId => ?_)
    rfl rfl) (fun n hn => ?_) (fun n hn hAllowed => ?_) fun t ht => ht.durable
  · rw [get_setCode_ne hId, get_setCode_ne hId, get_setCode_ne hId]
  · interval_cases n <;> exact Bool.false_ne_true
  · interval_cases n <;> cases hAllowed

theorem Coded.delete (h : Coded s m) (id : Text) : Coded s (m.delete id) := by
  refine ⟨fun id' e he => ?_, fun id' e he => ?_⟩
  · rw [get_delete] at he
    split at he
    · cases he
    · exact h.ids id' e he
  · rw [get_delete] at he
    split at he
    · cases he
    · exact h.dirs id' e he

/-- A directory goes, or a part of it, that no saved record points at. -/
theorem Faithful.setDir (h : Faithful s m) (hNew : m.get id = none) {dirs : JsMap Text JobDir}
    (hOther : ∀ id', id' ≠ id → dirs.get id' = s.dirs.get id') : Faithful { s with dirs } m := by
  refine ⟨⟨⟨h.ids, fun id' e he => ?_⟩, h.jobs, h.readable⟩, h.file⟩
  obtain ⟨old, hDir⟩ := h.dirs id' e he
  refine ⟨old, (hOther id' ?_).trans hDir⟩
  rintro rfl
  rw [hNew] at he
  cases he

theorem atomic_remove (h : Faithful s m) (job : TrainJob) : Atomic s m (.remove job) := by
  refine holds_quiet rfl (fun _ => h.untouched) (fun _ => h.durable) ?_
  have hMemory : Durable { s with jobs := s.jobs.delete job.id } m := ⟨h.toCoded.of_eq rfl, h.file⟩
  have hReady : Ready { s with jobs := s.jobs.delete job.id } (m.delete job.id) := by
    refine ⟨(h.toCoded.delete job.id).of_eq rfl, ?_, h.readable⟩
    change s.jobs.delete job.id = _
    rw [h.jobs, records, records, mapValues_delete]
  refine ⟨fun hThrow => absurd hThrow Bool.false_ne_true, fun _ _ => hMemory, nofun,
    fun s₁ hDelete => ?_⟩
  obtain rfl := some.inj hDelete
  have hGone : (m.delete job.id).get job.id = none := (get_delete ..).trans (if_pos rfl)
  refine holds_save hReady (fun n hn => ?_) (fun n hn _ => ?_)
    fun t _ ht => ⟨ht.durable, nofun, fun _ left => ?_, nofun, fun t' hRemove => ?_⟩
  · interval_cases n <;> exact Bool.false_ne_true
  · interval_cases n <;> exact hMemory
  · change Durable (JobStore.interrupt (.removeDir job.id) left t) (m.delete job.id)
    unfold JobStore.interrupt
    dsimp only
    split
    · exact (ht.setCode hGone left []).durable
    · exact ht.durable
  · obtain rfl := some.inj hRemove
    exact ht.setDir hGone fun id' hId => (get_delete ..).trans (if_neg hId)

theorem atomic (h : Faithful s m) {op : JobOp} (hKnown : known s op = true) : Atomic s m op := by
  match op with
  | .create job code => exact atomic_create h job code
  | .createCopy job codeOf => exact atomic_createCopy h job hKnown
  | .update job none => exact atomic_update h hKnown
  | .update job (some code) => exact atomic_updateCode h job code
  | .remove job => exact atomic_remove h job

/-! ## Runs -/

/-- A harmless call leaves all of the operation or nothing, and nothing at all if it
throws. -/
theorem call_spec (h : Faithful s m) {op : JobOp} {stop : Option (Stop (Option Files))}
    (hHarmless : Harmless s (.call op stop)) :
    Faithful (jobStep s (.call op stop))
        (if committed op stop (s.call op stop).2 then record m op else m) ∧
      ((s.call op stop).2 = .threw → Untouched s m (s.call op stop).1) := by
  obtain ⟨hKnown, hStop⟩ := hHarmless
  have hEnds := exec_holds JobStore.apply JobStore.interrupt (atomic h hKnown) hStop
  have hCall : s.call op stop = exec JobStore.apply JobStore.interrupt (effects op) stop s := rfl
  unfold jobStep
  dsimp only
  rw [← hCall] at hEnds
  match hResult : s.call op stop with
  | (t, .done) =>
    rw [hResult] at hEnds
    exact ⟨hEnds, nofun⟩
  | (t, .threw) =>
    rw [hResult] at hEnds
    exact ⟨hEnds.toFaithful, fun _ => hEnds⟩
  | (t, .crashed) =>
    rw [hResult] at hEnds
    obtain ⟨st, rfl, hDurable⟩ := hEnds
    exact ⟨Durable.reopen hDurable, nofun⟩

theorem faithful_run {es : List JobEvent} (h : Faithful s m) (hEs : Guarded jobStep Harmless s es) :
    Faithful (run jobStep s es) (savedAfter s m es) := by
  induction es generalizing s m with
  | nil => exact h
  | cons e es ih =>
    cases e with
    | call op stop => exact ih (call_spec h hEs.1).1 hEs.2
    | restart => exact ih h.durable.reopen hEs.2

theorem faithful_init : Faithful {} .empty where
  ids _ _ he := nomatch he
  dirs _ _ he := nomatch he
  jobs := rfl
  readable := rfl
  file := rfl

theorem list_eq (hJobs : t.jobs = s.jobs) (hError : t.error = s.error) (user : Text) :
    t.list user = s.list user := by
  unfold JobStore.list
  rw [hJobs, hError]

theorem get_eq (hJobs : t.jobs = s.jobs) (hError : t.error = s.error) (user id : Text) :
    t.get user id = s.get user id := by
  unfold JobStore.get
  rw [hJobs, hError]

/-- After a run of operations that are stopped harmlessly, if at all, the store opened again
and swept holds the records of the completed saves, each with exactly its files; and an
operation that throws leaves `list`, `get` and `jobs.json` as they were. -/
theorem store_atomic (es : List JobEvent) (h : Guarded jobStep Harmless {} es) :
    ((reopenedAfter es).jobs = records (savedAfter {} .empty es) ∧
      ∀ id e, (savedAfter {} .empty es).get id = some e →
        (reopenedAfter es).jobs.get id = some e.1 ∧
          ∃ old, (reopenedAfter es).dirs.get id = some ⟨some e.2, old⟩) ∧
    ∀ op stop thrown, Harmless (run jobStep {} es) (.call op stop) →
      (run jobStep {} es).call op stop = (thrown, .threw) →
        (∀ user, thrown.list user = (run jobStep {} es).list user) ∧
          (∀ user id, thrown.get user id = (run jobStep {} es).get user id) ∧
            thrown.file = (run jobStep {} es).file := by
  have hRun := faithful_run faithful_init h
  have hReopened := hRun.durable.reopen
  refine ⟨⟨hReopened.jobs, fun id e he => ⟨?_, hReopened.dirs id e he⟩⟩,
    fun op stop thrown hHarmless hThrew => ?_⟩
  · rw [reopenedAfter, hReopened.jobs, get_records, he]
    rfl
  · have hSame := (call_spec hRun hHarmless).2 (congrArg Prod.snd hThrew)
    rw [hThrew] at hSame
    exact ⟨list_eq hSame.jobs_eq hSame.error_eq, get_eq hSame.jobs_eq hSame.error_eq,
      hSame.file_eq⟩

/-- A job, and the script it runs. -/
def draft : TrainJob :=
  ⟨js "01234567-89ab-4cde-8f01-23456789abcd", js "ada", .draft, 3, 100, js "first"⟩

def script (byte : UInt8) : Files := [(js "train.py", [byte])]

/-- An update of the code that ends with the process behind its save, and one that throws
before it puts anything aside. -/
def stoppedUpdates : List JobEvent :=
  [.call (.create draft (script 1)) none,
    .call (.update { draft with rest := js "second" } (some (script 2))) (some ⟨8, true, none⟩),
    .call (.update draft (some (script 3))) (some ⟨2, false, none⟩)]

theorem store_atomic_draft :
    (reopenedAfter stoppedUpdates).jobs.get draft.id = some { draft with rest := js "second" } := by
  have h := store_atomic stoppedUpdates
    ⟨⟨rfl, nofun⟩, ⟨rfl, fun _ hSome _ => Option.some.inj hSome ▸ rfl⟩,
      ⟨rfl, fun _ hSome _ => Option.some.inj hSome ▸ rfl⟩, trivial⟩
  exact (h.1.2 draft.id ({ draft with rest := js "second" }, script 2) (by decide +kernel)).1

def lostUpdate : List JobEvent :=
  [.call (.create draft (script 1)) none,
    .call (.update draft (some (script 2))) (some ⟨3, true, none⟩)]

def failedCreate : JobStore × Ending :=
  ({} : JobStore).call (.create draft (script 1)) (some ⟨6, false, none⟩)

/-- An update that ends with the process between its two renames leaves the record without
code, and a `create` whose save throws leaves a job that is listed and not in `jobs.json`. -/
theorem code_lost :
    ((reopenedAfter lostUpdate).jobs.get draft.id = some draft ∧
      (reopenedAfter lostUpdate).dirs.get draft.id = some ⟨none, [script 1]⟩) ∧
    (failedCreate.2 = .threw ∧ failedCreate.1.list draft.user = some [draft] ∧
      ({} : JobStore).list draft.user = some [] ∧ failedCreate.1.file = []) := by
  decide +kernel

end TMEdge.Train
