import TMEdge.Params.Refine

/-!
# What the broker guarantees for device parameters

The rules of undo ledgers at the parameters of the nodes.

* `baseline_durable`: an open change has its baseline in the journal, in every run in which
  no save fails after it has taken an entry out of the file (`lost_by_commit`: such a save
  loses the baseline).
* `commits_hold`: a revert does not undo a commit, in every run in which a change that opens a
  slot reads a value that is not older than the last commit (`undone_by_revert`: a STATUS lags
  the commands).
* `journal_reloads`: a new process takes the journal and has the same baselines, in every run
  in which the values recorded are within the limits of their parameter (`journal_refused`: a
  node may say others).
* `reverts_reported`: a revert sends a value the node itself has reported, in every run.
-/

namespace TMEdge.Params

open Library Protocol List

namespace System

/-! ## Runs -/

theorem sound_new (cfg : Config) : (new cfg).Sound :=
  (crash_steps ⟨cfg.dataDir, True, fun _ _ _ => True⟩
    (s := ⟨⟨.empty, .empty, []⟩, true, none, .empty, cfg.occupancy, []⟩)
    ⟨JsMap.indexed_empty _, (by intro cs h; cases h), (by intro uid name v h; cases h),
      (by intro uid st h; cases h), (by intro h; cases h)⟩ 0).1

theorem ledger_new (cfg : Config) : (new cfg).ledger cfg = Ledger.empty := by
  have hSpec := boot_spec (s := ⟨⟨.empty, .empty, []⟩, true, none, .empty, cfg.occupancy, []⟩)
    (by intro cs h; cases h) cfg 0
  refine hSpec.2.trans ?_
  unfold recorded Ledger.empty
  cases cfg.dataDir <;> rfl

/-- A run whose steps keep to the rules is a run of the ledger. -/
theorem run_refines (rules : Rules Slot ℚ) {cfg : Config} (hDurable : rules.durable = cfg.dataDir)
    {G : System → Event → Prop}
    (hG : ∀ s e, s.Sound → G s e → s.Opening rules.Opens e ∧ (rules.lossy ∨ s.Retained e))
    {es : List Event} (h : Guarded (step cfg) G (new cfg) es) :
    (run (step cfg) (new cfg) es).Sound ∧
      Ledger.Steps rules .empty ((run (step cfg) (new cfg) es).ledger cfg) := by
  refine run_invariant_guarded
    (fun s => s.Sound ∧ Ledger.Steps rules .empty (s.ledger cfg)) ?_ ⟨sound_new cfg, ?_⟩ h
  · rintro s e ⟨hs, hSteps⟩ hGuard
    obtain ⟨hOpens, hLossy⟩ := hG s e hs hGuard
    obtain ⟨hSound, hNext⟩ := step_refines hDurable hs hOpens hLossy
    exact ⟨hSound, hSteps.trans hNext⟩
  · rw [ledger_new]

/-! ## The baseline of an open change is in the journal -/

/-- From the first SET_PARAM of a parameter until its change is committed, persisted or seen
restored, the journal has what the node reported before. -/
def Durable (s : System) : Prop :=
  ∀ uid name b, (witnessed s.notes).base (uid, name) = some b →
    ∃ c ∈ s.file.getD [], c.uid = uid ∧ c.param = .device name ∧ c.from_ = b

theorem baseline_durable (cfg : Config) (hDir : cfg.dataDir = true) (es : List Event)
    (h : Guarded (step cfg) Retained (new cfg) es) :
    (run (step cfg) (new cfg) es).Durable := by
  obtain ⟨_, hSteps⟩ := run_refines
    ⟨true, False, fun log k w => (witnessed log).seen k = some w⟩ hDir.symm (by
      intro s e hs hRetained
      refine ⟨?_, Or.inr hRetained⟩
      cases e with
      | apply env uid nodeId binding value =>
        cases binding with
        | device name => exact fun _ v hv => hs.reports uid name v hv
        | _ => trivial
      | _ => trivial) h
  have hKept := hSteps.kept rfl id (by intro log k w hSeen; exact hSeen) Ledger.kept_empty
  intro uid name b hBase
  have hDisk := congrFun (hKept.2.trans hKept.1) (uid, name)
  change (System.recorded cfg _) (uid, name) = (witnessed _).base (uid, name) at hDisk
  rw [recorded, if_pos hDir] at hDisk
  obtain ⟨c, hc, hFrom⟩ := Option.map_eq_some_iff.mp (hDisk.trans hBase)
  have hKey : c.key = Slot.key (uid, name) := by simpa using List.find?_some hc
  obtain ⟨hUid, hParam⟩ := of_key_eq hKey
  exact ⟨c, List.mem_of_find?_eq_some hc, hUid, hParam, hFrom⟩

section Examples

def exampleConfig : Config := ⟨true, Occupancy.defaultOccupancy⟩

def quietEnv (now : Int) : Env := ⟨now, .ok, .ok, .ok⟩

def exampleReport (v : Int) (receivedAt : Int) : StatusReport where
  uid := "0a:1b:2c:3d:4e:5f"
  wf := rfl
  params := [(.minContrast, v)]
  lastCmd := 0
  receivedAt := receivedAt

/-- A node says 10, and is told 20. -/
def exampleApply : List Event :=
  [.status (exampleReport 10 0),
    .apply (quietEnv 1) "0a:1b:2c:3d:4e:5f" "n1" (.device .minContrast) 20,
    .answered (quietEnv 2) "0a:1b:2c:3d:4e:5f" .minContrast (some 1)]

end Examples

theorem baseline_durable_apply :
    ∃ c ∈ (run (step exampleConfig) (new exampleConfig) exampleApply).file.getD [],
      c.uid = "0a:1b:2c:3d:4e:5f" ∧ c.param = .device .minContrast ∧ c.from_ = 10 :=
  baseline_durable exampleConfig rfl exampleApply
    ⟨trivial, fun _ h => (by cases h), (by intro h; cases h), trivial⟩
    "0a:1b:2c:3d:4e:5f" .minContrast 10 (by decide +kernel)

/-- A commit is told that its save has failed and keeps the change, but the file, replaced
before its directory could be flushed, has lost the baseline. -/
def exampleLost : List Event :=
  exampleApply ++
    [.commit { quietEnv 3 with io := .unsynced } "0a:1b:2c:3d:4e:5f" (.device .minContrast)]

theorem lost_by_commit :
    Effect.setParam "0a:1b:2c:3d:4e:5f" .minContrast 20 .apply ∈
        (run (step exampleConfig) (new exampleConfig) exampleLost).trace ∧
      (witnessed (run (step exampleConfig) (new exampleConfig) exampleLost).notes).base
        ("0a:1b:2c:3d:4e:5f", .minContrast) = some 10 ∧
      (run (step exampleConfig) (new exampleConfig) exampleLost).file = some [] ∧
      ¬ (run (step exampleConfig) (new exampleConfig) exampleLost).Durable := by
  have hBase : (witnessed (run (step exampleConfig) (new exampleConfig) exampleLost).notes).base
      ("0a:1b:2c:3d:4e:5f", .minContrast) = some 10 := by decide +kernel
  have hFile : (run (step exampleConfig) (new exampleConfig) exampleLost).file = some [] := by
    decide +kernel
  refine ⟨by decide +kernel, hBase, hFile, fun hDurable => ?_⟩
  obtain ⟨c, hc, _⟩ := hDurable _ _ _ hBase
  rw [hFile] at hc
  cases hc

/-! ## Commits hold -/

/-- The effect brings this value for a parameter of a node: a report of it, or a commit. -/
def Brings (e : Effect) (uid : String) (name : ParamName) (w : ℚ) : Prop :=
  match e with
  | .reported uid' params =>
    uid = uid' ∧ (params.find? fun e => e.1 = name).map (fun e => (e.2 : ℚ)) = some w
  | .committed uid' param v => uid' = uid ∧ param = .device name ∧ v = w
  | .persisted uid' kept => uid' = uid ∧ (name, w) ∈ kept
  | _ => False

/-- Of every commit of the parameter, this is the value or one that came after it. -/
def Current (trace : List Effect) (uid : String) (name : ParamName) (w : ℚ) : Prop :=
  ∀ pre v post, trace = pre ++ .committed uid (.device name) v :: post →
    w = v ∨ ∃ e ∈ post, Brings e uid name w

/-- Every value a revert sends is current. -/
def CommitsHold (trace : List Effect) : Prop :=
  ∀ pre uid name w post, trace = pre ++ .setParam uid name w .revert :: post →
    Current pre uid name w

/-- A change that opens a slot starts from a value that is current. -/
def ReadsCurrent (s : System) : Event → Prop :=
  s.Opening fun _ k w => Current s.trace k.1 k.2 w

variable {name : ParamName} {uid : String} {w : ℚ} {k : Slot} {trace : List Effect}

theorem offers_iff {e : Effect} :
    (∃ n ∈ e.notes, n.Offers (uid, name) w) ↔ Brings e uid name w := by
  match e with
  | .reported uid' params => simp [Effect.notes, Note.Offers, Brings, reportedValues]
  | .setParam uid' name' v .apply => simp [Effect.notes, Note.Offers, Brings]
  | .setParam uid' name' v .revert => simp [Effect.notes, Note.Offers, Brings]
  | .committed uid' (.device name') v =>
    simp [Effect.notes, Note.Offers, Brings, and_assoc]
  | .committed uid' (.edge path) v => simp [Effect.notes, Brings]
  | .restored uid' (.device name') => simp [Effect.notes, Note.Offers, Brings]
  | .restored uid' (.edge path) => simp [Effect.notes, Brings]
  | .saveParams uid' => simp [Effect.notes, Brings]
  | .reverted uid' param => simp [Effect.notes, Brings]
  | .persisted uid' kept =>
    simp only [Effect.notes, Brings, mem_map]
    constructor
    · rintro ⟨n, ⟨e, he, rfl⟩, hOffers⟩
      obtain ⟨hSlot, rfl⟩ := hOffers
      cases hSlot
      exact ⟨rfl, he⟩
    · rintro ⟨rfl, hKept⟩
      exact ⟨_, ⟨(name, w), hKept, rfl⟩, rfl, rfl⟩

/-- Only a commit makes the note of one. -/
theorem eq_committed {e : Effect} {v : ℚ} {a b : List (Note Slot ℚ)}
    (h : e.notes = a ++ .closed k (.committed v) :: b) :
    e = .committed k.1 (.device k.2) v ∧ b = [] := by
  have hMem : Note.closed k (.committed v) ∈ e.notes := by
    rw [h]
    simp
  match e with
  | .committed uid (.device name) v' =>
    have hSingle : a = [] ∧ b = [] := by
      have hLength := congrArg List.length h
      simp only [Effect.notes, length_append, length_cons, length_nil] at hLength
      exact ⟨length_eq_zero_iff.mp (by omega), length_eq_zero_iff.mp (by omega)⟩
    simp only [Effect.notes, mem_singleton, Note.closed.injEq, Closing.committed.injEq] at hMem
    obtain ⟨rfl, rfl⟩ := hMem
    exact ⟨rfl, hSingle.2⟩
  | .persisted uid kept => simp [Effect.notes] at hMem
  | .reported uid params => simp [Effect.notes] at hMem
  | .setParam uid name v .apply => simp [Effect.notes] at hMem
  | .setParam uid name v .revert => simp [Effect.notes] at hMem
  | .committed uid (.edge path) v => simp [Effect.notes] at hMem
  | .restored uid (.device name) => simp [Effect.notes] at hMem
  | .restored uid (.edge path) => simp [Effect.notes] at hMem
  | .saveParams uid => simp [Effect.notes] at hMem
  | .reverted uid param => simp [Effect.notes] at hMem

/-- Where the note of a commit stands, the commit stands. -/
theorem committed_of_notes {v : ℚ} {a b : List (Note Slot ℚ)}
    (h : trace.flatMap Effect.notes = a ++ .closed k (.committed v) :: b) :
    ∃ pre post, trace = pre ++ .committed k.1 (.device k.2) v :: post ∧
      b = post.flatMap Effect.notes := by
  induction trace generalizing a with
  | nil => simp at h
  | cons e trace ih =>
    rw [flatMap_cons, append_eq_append_iff] at h
    rcases h with ⟨c, rfl, hRest⟩ | ⟨c, hNotes, hRest⟩
    · obtain ⟨pre, post, rfl, hb⟩ := ih hRest
      exact ⟨e :: pre, post, rfl, hb⟩
    · cases c with
      | nil =>
        obtain ⟨pre, post, rfl, hb⟩ := ih (a := []) hRest.symm
        exact ⟨e :: pre, post, rfl, hb⟩
      | cons n c =>
        rw [cons_append, List.cons.injEq] at hRest
        obtain ⟨rfl, hb⟩ := hRest
        obtain ⟨rfl, rfl⟩ := eq_committed hNotes
        exact ⟨[], trace, rfl, hb⟩

theorem fresh_iff :
    Fresh (trace.flatMap Effect.notes) (uid, name) w ↔ Current trace uid name w := by
  have hOffers : ∀ post : List Effect, (∃ n ∈ post.flatMap Effect.notes, n.Offers (uid, name) w) ↔
      ∃ e ∈ post, Brings e uid name w := by
    intro post
    simp only [← offers_iff, mem_flatMap]
    constructor
    · rintro ⟨n, ⟨e, he, hn⟩, h⟩
      exact ⟨e, he, n, hn, h⟩
    · rintro ⟨e, he, n, hn, h⟩
      exact ⟨n, ⟨e, he, hn⟩, h⟩
  constructor
  · rintro h pre v post rfl
    have hFresh := h (pre.flatMap Effect.notes) v (post.flatMap Effect.notes) (by
      rw [flatMap_append, flatMap_cons]
      rfl)
    exact hFresh.imp_right (hOffers post).mp
  · intro h a v b hEq
    obtain ⟨pre, post, hTrace, rfl⟩ := committed_of_notes hEq
    exact (h pre v post hTrace).imp_right (hOffers post).mpr

/-- The value of every commit is current. -/
theorem current_of_committed (h : ∀ v, .committed uid (.device name) v ∈ trace → v = w) :
    Current trace uid name w := by
  rintro pre v post rfl
  exact Or.inl (h v (by simp)).symm

theorem commits_hold (cfg : Config) (es : List Event)
    (h : Guarded (step cfg) ReadsCurrent (new cfg) es) :
    CommitsHold (run (step cfg) (new cfg) es).trace := by
  have hLasting : Ledger.Lasting (@Fresh Slot ℚ) := by
    intro log k w n hFresh hn
    exact hFresh.concat hn
  obtain ⟨_, hSteps⟩ := run_refines ⟨cfg.dataDir, True, Fresh⟩ rfl (by
    intro s e _ hReads
    refine ⟨?_, Or.inl trivial⟩
    cases e with
    | apply env uid nodeId binding value =>
      cases binding with
      | device name => exact fun hNone v hv => fresh_iff.mpr (hReads hNone v hv)
      | _ => trivial
    | _ => trivial) h
  have hRecalls := hSteps.recalls hLasting (by intro log k w hFresh; exact hFresh)
    Ledger.entries_empty justified_nil
  intro pre uid name w post hTrace
  refine fresh_iff.mp (hRecalls (pre.flatMap Effect.notes) _ (post.flatMap Effect.notes) ?_
    (uid, name) w rfl)
  change (run (step cfg) (new cfg) es).trace.flatMap Effect.notes = _
  rw [hTrace, List.flatMap_append, List.flatMap_cons]
  rfl

/-- The node says 20 before the committed 20 is changed to 30. -/
def exampleHeld : List Event :=
  exampleApply ++
    [.commit (quietEnv 3) "0a:1b:2c:3d:4e:5f" (.device .minContrast),
      .status (exampleReport 20 4),
      .apply (quietEnv 5) "0a:1b:2c:3d:4e:5f" "n1" (.device .minContrast) 30,
      .answered (quietEnv 6) "0a:1b:2c:3d:4e:5f" .minContrast (some 2),
      .sweep 900005 fun _ => quietEnv 900005]

theorem commits_hold_held :
    CommitsHold (run (step exampleConfig) (new exampleConfig) exampleHeld).trace := by
  refine commits_hold exampleConfig exampleHeld
    ⟨trivial, ?_, trivial, trivial, trivial, ?_, trivial, trivial, trivial⟩
  · intro _ v _
    have hTrace : (run (step exampleConfig) (new exampleConfig) (exampleHeld.take 1)).trace =
        [.reported "0a:1b:2c:3d:4e:5f" [(.minContrast, 10)]] := by decide +kernel
    refine current_of_committed fun v' hv' => ?_
    change _ ∈ (run (step exampleConfig) (new exampleConfig) (exampleHeld.take 1)).trace at hv'
    simp [hTrace] at hv'
  · intro _ v hv
    have hTrace : (run (step exampleConfig) (new exampleConfig) (exampleHeld.take 5)).trace =
        [.reported "0a:1b:2c:3d:4e:5f" [(.minContrast, 10)],
          .setParam "0a:1b:2c:3d:4e:5f" .minContrast 20 .apply,
          .committed "0a:1b:2c:3d:4e:5f" (.device .minContrast) 20,
          .reported "0a:1b:2c:3d:4e:5f" [(.minContrast, 20)]] := by decide +kernel
    have hValue : (run (step exampleConfig) (new exampleConfig) (exampleHeld.take 5)).deviceParam
        "0a:1b:2c:3d:4e:5f" .minContrast = some 20 := by decide +kernel
    have hv₂₀ : v = 20 := Option.some.inj (hv.symm.trans hValue)
    refine current_of_committed fun v' hv' => ?_
    change _ ∈ (run (step exampleConfig) (new exampleConfig) (exampleHeld.take 5)).trace at hv'
    rw [hTrace] at hv'
    simpa [hv₂₀] using hv'

/-- The STATUS still says 10 when the committed 20 is changed to 30. -/
def exampleUndone : List Event :=
  exampleApply ++
    [.commit (quietEnv 3) "0a:1b:2c:3d:4e:5f" (.device .minContrast),
      .apply (quietEnv 4) "0a:1b:2c:3d:4e:5f" "n1" (.device .minContrast) 30,
      .answered (quietEnv 5) "0a:1b:2c:3d:4e:5f" .minContrast (some 2),
      .sweep 900004 fun _ => quietEnv 900004]

theorem undone_by_revert : ¬ ∀ (cfg : Config) (es : List Event),
    CommitsHold (run (step cfg) (new cfg) es).trace := by
  intro hAll
  have hTrace : (run (step exampleConfig) (new exampleConfig) exampleUndone).trace =
      [.reported "0a:1b:2c:3d:4e:5f" [(.minContrast, 10)],
        .setParam "0a:1b:2c:3d:4e:5f" .minContrast 20 .apply,
        .committed "0a:1b:2c:3d:4e:5f" (.device .minContrast) 20,
        .setParam "0a:1b:2c:3d:4e:5f" .minContrast 30 .apply,
        .setParam "0a:1b:2c:3d:4e:5f" .minContrast 10 .revert] := by decide +kernel
  have hHold := hAll exampleConfig exampleUndone
  rw [hTrace] at hHold
  rcases hHold [_, _, _, _] _ _ _ [] rfl [_, _] _ [_] rfl with h | ⟨e, he, hBrings⟩
  · exact absurd h (by norm_num)
  · rw [List.mem_singleton] at he
    subst he
    exact hBrings

/-! ## A new process takes the journal -/

/-- What the constructor asks of an entry. -/
def WithinLimits (k : Slot) (w : ℚ) : Prop :=
  Replay.isUid k.1 = true ∧ isInteger w = true ∧ (paramLimits k.2).lo ≤ w ∧ w ≤ (paramLimits k.2).hi

/-- The value a STATUS gives for a change that opens a slot is within the limits. -/
def ReadsWithin (s : System) : Event → Prop :=
  s.Opening fun _ k w => (paramLimits k.2).lo ≤ w ∧ w ≤ (paramLimits k.2).hi

/-- What a change is about. -/
def identity (c : PendingChange) : String × Param × ℚ := (c.uid, c.param, c.from_)

theorem validEntry_of_within {c : PendingChange} (hKey : c.key = k.key)
    (h : WithinLimits k c.from_) : validEntry c = true := by
  obtain ⟨hUid, hParam⟩ := of_key_eq hKey
  obtain ⟨hIsUid, hInteger, hLo, hHi⟩ := h
  unfold validEntry
  rw [hParam, hUid]
  simp [hIsUid, hInteger, hLo, hHi]

theorem exists_slot {c : PendingChange} (h : c.isDevice = true) : ∃ k : Slot, c.key = k.key := by
  unfold PendingChange.isDevice at h
  unfold PendingChange.key
  split at h
  · rename_i name hParam
    exact ⟨(c.uid, name), by rw [hParam]; rfl⟩
  · cases h

/-- The recorded values are within their limits. -/
theorem entries_within (cfg : Config) (es : List Event)
    (h : Guarded (step cfg) ReadsWithin (new cfg) es) :
    (run (step cfg) (new cfg) es).Sound ∧ Ledger.Entries (fun _ => WithinLimits)
      ⟨cfg.dataDir, True, fun _ => WithinLimits⟩ ((run (step cfg) (new cfg) es).ledger cfg) := by
  obtain ⟨hSound, hSteps⟩ := run_refines ⟨cfg.dataDir, True, fun _ => WithinLimits⟩ rfl (by
    intro s e hs hReads
    refine ⟨?_, Or.inl trivial⟩
    cases e with
    | apply env uid nodeId binding value =>
      cases binding with
      | device name =>
        intro hNone v hv
        obtain ⟨hLo, hHi⟩ := hReads hNone v hv
        obtain ⟨st, hst, _⟩ := Option.bind_eq_some_iff.mp hv
        exact ⟨hs.known uid st hst, by simp [isInteger], hLo, hHi⟩
      | _ => trivial
    | _ => trivial) h
  have hLasting : Ledger.Lasting fun (_ : List (Note Slot ℚ)) => WithinLimits := by
    intro log k w n hWithin _
    exact hWithin
  exact ⟨hSound, hSteps.entries hLasting (by intro log k w hWithin; exact hWithin)
    Ledger.entries_empty⟩

theorem journal_reloads (cfg : Config) (hDir : cfg.dataDir = true) (es : List Event)
    (h : Guarded (step cfg) ReadsWithin (new cfg) es) (now : Int)
    (hEntries : (deviceChanges (run (step cfg) (new cfg) es).pending).length ≤ maxJournalEntries)
    (hBytes : (journalText (deviceChanges (run (step cfg) (new cfg) es).pending)).utf8ByteSize ≤
      maxJournalBytes) :
    ∃ m, load now (savePending cfg (run (step cfg) (new cfg) es) .ok).1.file = .ok m ∧
      ∀ k, (m.get k).map identity =
        (((run (step cfg) (new cfg) es).pending.get k).filter PendingChange.isDevice).map
          identity := by
  obtain ⟨hs, hWithin⟩ := entries_within cfg es h
  generalize run (step cfg) (new cfg) es = s at *
  have hFile : (savePending cfg s .ok).1.file = some (deviceChanges s.pending) := by
    simp [savePending, hDir]
  have hValid : (deviceChanges s.pending).all validEntry = true := by
    refine List.all_eq_true.mpr fun c hc => ?_
    obtain ⟨hMem, hDevice⟩ := List.mem_filter.mp hc
    obtain ⟨k', hk'⟩ := JsMap.mem_values_iff.mp hMem
    obtain ⟨k, hk⟩ := exists_slot hDevice
    rw [← hs.indexed _ _ hk', hk] at hk'
    refine validEntry_of_within hk (hWithin.mem k c.from_ ?_)
    cases hUp : s.up with
    | true =>
      rw [ledger_up hUp]
      change (s.pending.get k.key).map PendingChange.from_ = _
      rw [hk']
      rfl
    | false =>
      rw [hs.down hUp] at hk'
      cases hk'
  rw [hFile]
  refine ⟨(deviceChanges s.pending).foldl
    (fun m c => m.set c.key { c with revertAt := now }) .empty, ?_, fun k => ?_⟩
  · unfold load
    simp only
    rw [if_neg (by omega), if_neg (by omega), if_pos hValid]
  · have hGet := JsMap.get_foldl_set PendingChange.key (fun c => { c with revertAt := now })
      (hs.indexed.nodup_filter PendingChange.isDevice) .empty k
    rw [hs.indexed.find?_filter] at hGet
    refine (congrArg (Option.map identity) hGet).trans ?_
    cases (s.pending.get k).filter PendingChange.isDevice <;> rfl

theorem journal_reloads_apply :
    ∃ m, load 4 (savePending exampleConfig
        (run (step exampleConfig) (new exampleConfig) exampleApply) .ok).1.file = .ok m ∧
      ∀ k, (m.get k).map identity = (((run (step exampleConfig) (new exampleConfig)
        exampleApply).pending.get k).filter PendingChange.isDevice).map identity := by
  refine journal_reloads exampleConfig rfl exampleApply ⟨trivial, ?_, trivial, trivial⟩ 4
    (by decide +kernel) (by decide +kernel)
  intro _ v hv
  have hValue : (run (step exampleConfig) (new exampleConfig) (exampleApply.take 1)).deviceParam
      "0a:1b:2c:3d:4e:5f" .minContrast = some 10 := by decide +kernel
  obtain rfl : v = 10 := Option.some.inj (hv.symm.trans hValue)
  exact ⟨by decide +kernel, by decide +kernel⟩

/-- A STATUS with one parameter, `min_contrast` 5, as `parsePacket` takes it unsigned. -/
def exampleDatagram : Buffer :=
  [84, 77, 1, 3, 0x0a, 0x1b, 0x2c, 0x3d, 0x4e, 0x5f, 1, 0, 1, 0, 0, 0, 0, 0, 0, 0, 52, 0] ++
    List.replicate 47 0 ++ [1, 5, 0, 0, 0] ++ List.replicate 8 0

/-- The node says 5, which it would not accept, and is told 60. -/
def exampleRefused : List Event :=
  [.status (exampleReport 5 0),
    .apply (quietEnv 1) "0a:1b:2c:3d:4e:5f" "n1" (.device .minContrast) 60]

theorem journal_refused :
    (parsePacket ⟨fun _ _ => [], fun _ _ _ _ => [], fun _ _ _ _ _ => none⟩ exampleDatagram
        ⟨[], true, none⟩ 0).toOption.map (fun p =>
          (p.uid, match p.body with
            | .status st => st.params
            | _ => [])) =
        some ((exampleReport 5 0).uid, (exampleReport 5 0).params) ∧
      (load 4 (savePending exampleConfig
        (run (step exampleConfig) (new exampleConfig) exampleRefused) .ok).1.file).toOption.isNone =
        true := by
  refine ⟨by decide +kernel, by decide +kernel⟩

/-! ## What a revert may send -/

section reverts

variable {name : ParamName} {uid : String} {w : ℚ} {k : Slot} {trace : List Effect}

/-- A STATUS of the node had this value for the parameter. -/
def Reported (trace : List Effect) (uid : String) (name : ParamName) (w : ℚ) : Prop :=
  ∃ params, .reported uid params ∈ trace ∧
    (params.find? fun e => e.1 = name).map (fun e => (e.2 : ℚ)) = some w

theorem seen_reported {log : List (Note Slot ℚ)} (h : (witnessed log).seen k = some w) :
    ∃ values, .reported values ∈ log ∧ values k = some w := by
  induction log using reverseRecOn with
  | nil => cases h
  | append_singleton log n ih =>
    rw [witnessed_concat] at h
    have hOld : (witnessed log).seen k = some w →
        ∃ values, .reported values ∈ log ++ [n] ∧ values k = some w := by
      intro hSeen
      obtain ⟨values, hMem, hValue⟩ := ih hSeen
      exact ⟨values, mem_append_left _ hMem, hValue⟩
    cases n with
    | reported values =>
      rcases Option.or_eq_some_iff.mp h with hNew | ⟨-, hSeen⟩
      · exact ⟨values, by simp, hNew⟩
      · exact hOld hSeen
    | _ => exact hOld h

theorem reported_of_notes
    (h : ∃ values, .reported values ∈ trace.flatMap Effect.notes ∧ values (uid, name) = some w) :
    Reported trace uid name w := by
  obtain ⟨values, hMem, hValue⟩ := h
  obtain ⟨e, he, hNote⟩ := mem_flatMap.mp hMem
  unfold Effect.notes at hNote
  split at hNote
  case h_1 uid' params =>
    obtain rfl : values = reportedValues uid' params := by simpa using hNote
    unfold reportedValues at hValue
    split at hValue
    · rename_i hUid
      change uid = uid' at hUid
      exact ⟨params, hUid ▸ he, hValue⟩
    · cases hValue
  all_goals simp at hNote

/-- Whatever fails, a revert only sends a value the node itself has reported, and so does every
entry of the journal. -/
theorem reverts_reported (cfg : Config) (es : List Event) :
    let s := run (step cfg) (new cfg) es
    (∀ pre uid name w post, s.trace = pre ++ .setParam uid name w .revert :: post →
      Reported pre uid name w) ∧
    ∀ cs c name, cfg.dataDir = true → s.file = some cs → c ∈ cs → c.param = .device name →
      Reported s.trace c.uid name c.from_ := by
  have hLasting : Ledger.Lasting fun (log : List (Note Slot ℚ)) k w =>
      ∃ values, .reported values ∈ log ∧ values k = some w :=
    fun log k w n ⟨values, hMem, hValue⟩ _ => ⟨values, mem_append_left _ hMem, hValue⟩
  have hAny : Guarded (step cfg) (fun _ _ => True) (new cfg) es :=
    guarded_of_forall_mem fun _ _ => trivial
  obtain ⟨hSound, hSteps⟩ := run_refines ⟨cfg.dataDir, True, fun log k w =>
      ∃ values, .reported values ∈ log ∧ values k = some w⟩ rfl (by
    intro s e hs _
    refine ⟨?_, Or.inl trivial⟩
    cases e with
    | apply env uid nodeId binding value =>
      cases binding with
      | device name => exact fun _ v hv => seen_reported (hs.reports uid name v hv)
      | _ => trivial
    | _ => trivial) hAny
  have hEntries := hSteps.entries hLasting (by intro log k w h; exact h) Ledger.entries_empty
  have hRecalls := hSteps.recalls hLasting (by intro log k w h; exact h) Ledger.entries_empty
    justified_nil
  refine ⟨fun pre uid name w post hTrace => reported_of_notes ?_,
    fun cs c name hDir hFile hc hParam => reported_of_notes ?_⟩
  · refine hRecalls (pre.flatMap Effect.notes) _ (post.flatMap Effect.notes) ?_ (uid, name) w rfl
    change (run (step cfg) (new cfg) es).trace.flatMap Effect.notes = _
    rw [hTrace, flatMap_append, flatMap_cons]
    rfl
  · have hKey : c.key = Slot.key (c.uid, name) := by rw [PendingChange.key, hParam, key_device]
    refine hEntries.disk (c.uid, name) c.from_ ?_
    change recorded cfg _ (c.uid, name) = _
    rw [recorded, if_pos hDir, hFile]
    obtain ⟨d, hFind⟩ : ∃ d, (cs.find? fun d => d.key = Slot.key (c.uid, name)) = some d :=
      Option.isSome_iff_exists.mp (find?_isSome.mpr ⟨c, hc, decide_eq_true hKey⟩)
    have hSame := inj_on_of_nodup_map (hSound.keys cs hFile) (mem_of_find?_eq_some hFind) hc
      ((of_decide_eq_true (find?_some hFind :)).trans hKey.symm)
    exact congrArg (Option.map PendingChange.from_) (hSame ▸ hFind)

end reverts

end System

end TMEdge.Params
