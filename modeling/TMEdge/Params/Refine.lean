import TMEdge.Params.Baselines

/-!
# The broker keeps an undo ledger

Every step of a system is a sequence of steps of its ledger: an operation that changes, puts
back or closes a parameter does to the ledger what its name says, and a save that fails leaves
one of the few disks a ledger allows.

* `Retained`: no save that takes an entry out of the journal fails after it has replaced the
  file, nor is a change left there that has been given up.
* `Opening`: the value an `apply` records as the baseline is one the rules allow.
* `step_refines`: the refinement.
-/

namespace TMEdge.Params

open Library Protocol List JsMap

/-! ## Slots of changes -/

def slotOf (uid : String) (param : Param) : Option Slot :=
  match param with
  | .device name => some (uid, name)
  | .edge _ => none

def PendingChange.slot (c : PendingChange) : Option Slot := slotOf c.uid c.param

theorem slot_eq_some {c : PendingChange} {k : Slot} : c.slot = some k ↔ c.key = k.key := by
  constructor
  · intro h
    unfold PendingChange.slot slotOf at h
    split at h
    · rename_i name hParam
      cases h
      rw [PendingChange.key, hParam]
      rfl
    · cases h
  · intro h
    obtain ⟨hUid, hParam⟩ := of_key_eq h
    rw [PendingChange.slot, hUid, hParam]
    rfl

theorem committed_notes (uid : String) (param : Param) (v : ℚ) :
    (Effect.committed uid param v).notes =
      ((slotOf uid param).toList.map fun k => (k, Closing.committed v)).map
        fun e => .closed e.1 e.2 := by
  cases param <;> rfl

theorem restored_notes (c : PendingChange) :
    (Effect.restored c.uid c.param).notes =
      (c.slot.toList.map fun k => (k, Closing.restored)).map fun e => .closed e.1 e.2 := by
  unfold PendingChange.slot
  cases c.param <;> rfl

section Maps

variable {m m' : JsMap Key PendingChange} {p : PendingChange → Bool}

theorem baselines_delete (m : JsMap Key PendingChange) (uid : String) (param : Param) :
    baselines (m.delete (key uid param)) = without (baselines m) (slotOf uid param).toList := by
  cases param with
  | device name => exact baselines_delete_device (uid, name)
  | edge path =>
    rw [baselines_delete_edge]
    funext k
    simp [without, slotOf]

/-- An entry put back under its key. -/
theorem baselines_set_back {k : Key} {c : PendingChange} (h : m.get k = some c)
    (hElse : ∀ k', k' ≠ k → m'.get k' = m.get k') : baselines (m'.set k c) = baselines m := by
  funext k'
  unfold baselines
  rw [JsMap.get_set]
  split
  · rename_i hk
    rw [hk, h]
  · rename_i hk
    rw [hElse _ hk]

theorem mem_slots (h : JsMap.Indexed PendingChange.key m) {k : Slot} :
    k ∈ (m.values.filter p).filterMap PendingChange.slot ↔
      ∃ c, m.get k.key = some c ∧ p c = true := by
  rw [mem_filterMap]
  constructor
  · rintro ⟨c, hc, hSlot⟩
    obtain ⟨hMem, hp⟩ := mem_filter.mp hc
    obtain ⟨k', hk'⟩ := mem_values_iff.mp hMem
    have hKey := slot_eq_some.mp hSlot
    rw [h _ _ hk'] at hKey
    exact ⟨c, hKey ▸ hk', hp⟩
  · rintro ⟨c, hGet, hp⟩
    have hMem := mem_values_iff.mpr ⟨_, hGet⟩
    exact ⟨c, mem_filter.mpr ⟨hMem, hp⟩, slot_eq_some.mpr (h _ _ hGet)⟩

theorem baselines_filter (h : JsMap.Indexed PendingChange.key m) (p : PendingChange → Bool) :
    baselines (m.filter fun c => !p c) =
      without (baselines m) ((m.values.filter p).filterMap PendingChange.slot) := by
  funext k
  unfold baselines without
  beta_reduce
  rw [JsMap.get_filter]
  cases hGet : m.get k.key with
  | none => simp
  | some c =>
    cases hp : p c with
    | true =>
      rw [if_pos ((mem_slots h).mpr ⟨c, hGet, hp⟩)]
      simp [hp]
    | false =>
      rw [if_neg fun hMem => ?_]
      · simp [hp]
      · obtain ⟨c', hc', hp'⟩ := (mem_slots h).mp hMem
        rw [hGet] at hc'
        cases hc'
        rw [hp] at hp'
        cases hp'

/-- The entries that were taken out are put back. -/
theorem baselines_refill (h : JsMap.Indexed PendingChange.key m)
    (hm' : baselines m' =
      without (baselines m) ((m.values.filter p).filterMap PendingChange.slot)) :
    baselines ((m.values.filter p).foldl (fun m c => m.set c.key c) m') = baselines m := by
  funext k
  have hGet := get_foldl_set PendingChange.key id (h.nodup_filter p) m' k.key
  rw [h.find?_filter] at hGet
  have hk := congrFun hm' k
  unfold without at hk
  unfold baselines at hk ⊢
  simp only [id_eq] at hGet
  rw [hGet]
  cases hFilter : (m.get k.key).filter p with
  | some c =>
    rw [Option.filter_eq_some_iff] at hFilter
    rw [hFilter.1]
  | none =>
    change (m'.get k.key).map PendingChange.from_ = _
    rw [hk, if_neg fun hMem => ?_]
    obtain ⟨c, hc, hp⟩ := (mem_slots h).mp hMem
    simp [hc, hp] at hFilter

end Maps

namespace System

/-! ## Sequences of steps -/

section Moves

variable {rules : Rules Slot ℚ} {cfg : Config} {s t u : System}

/-- A running system becomes a running system, and its ledger takes steps. -/
structure Moves (rules : Rules Slot ℚ) (cfg : Config) (s t : System) : Prop where
  sound : t.Sound
  up : t.up = true
  steps : Ledger.Steps rules (s.ledger cfg) (t.ledger cfg)

theorem Moves.trans (h : Moves rules cfg s t) (h' : Moves rules cfg t u) : Moves rules cfg s u :=
  ⟨h'.sound, h'.up, h.steps.trans h'.steps⟩

theorem ledger_up (h : s.up = true) :
    s.ledger cfg = ⟨baselines s.pending, s.recorded cfg, s.notes⟩ := by
  simp [ledger, h]

theorem ledger_emit (h : s.up = true) (e : Effect) :
    (s.emit e).ledger cfg = { s.ledger cfg with log := s.notes ++ e.notes } := by
  rw [ledger_up (s := s.emit e) h, ledger_up h, notes_emit]
  rfl

/-- Nothing the ledger sees has changed. -/
theorem moves_quiet (hs : s.Sound) (hUp : t.up = true) (hUp' : s.up = true)
    (hIndexed : JsMap.Indexed PendingChange.key t.pending)
    (hPending : baselines t.pending = baselines s.pending) (hFile : t.file = s.file)
    (hNodes : t.nodes = s.nodes) (hTrace : t.trace = s.trace) : Moves rules cfg s t := by
  refine ⟨hs.congr hUp hIndexed hFile hNodes hTrace, hUp, ?_⟩
  rw [ledger_congr (hUp.trans hUp'.symm) hPending hFile hTrace]

theorem moves_refl (hs : s.Sound) (hUp : s.up = true) : Moves rules cfg s s :=
  ⟨hs, hUp, .refl⟩

theorem moves_emit (hs : s.Sound) (hUp : s.up = true) {e : Effect} (hNotes : e.notes = []) :
    Moves rules cfg s (s.emit e) := by
  refine ⟨hs.emit ?_, hUp, ?_⟩
  · rintro uid params rfl
    simp [Effect.notes] at hNotes
  · have hLedger : (s.emit e).ledger cfg = s.ledger cfg := by
      rw [ledger_emit hUp, hNotes, append_nil]
      rfl
    rw [hLedger]

variable (hDurable : rules.durable = cfg.dataDir)

include hDurable

theorem ledger_written (hs : s.Sound) (hUp : s.up = true) :
    (s.written cfg).ledger cfg =
      ⟨baselines s.pending, rules.write (baselines s.pending) (s.recorded cfg), s.notes⟩ := by
  rw [ledger_up (s := s.written cfg) hUp, recorded_written cfg hs.indexed rules hDurable]
  rfl

theorem moves_written (hs : s.Sound) (hUp : s.up = true) : Moves rules cfg s (s.written cfg) := by
  refine ⟨hs.written cfg, hUp, ?_⟩
  rw [ledger_written hDurable hs hUp, ledger_up hUp]
  exact .single (.save _)

theorem moves_save (hs : s.Sound) (hUp : s.up = true) (io : SaveIo) :
    Moves rules cfg s (savePending cfg s io).1 := by
  rcases savePending_cases cfg s io with h | ⟨_, h⟩ | ⟨_, h⟩ <;> rw [h]
  · exact moves_written hDurable hs hUp
  · exact moves_refl hs hUp
  · exact moves_written hDurable hs hUp

/-- The changes of these slots are taken out of `s`, which leaves `m`, and the journal says
so. -/
theorem steps_close (hUp : s.up = true) {m : JsMap Key PendingChange}
    (hm : JsMap.Indexed PendingChange.key m) (ends : List (Slot × Closing ℚ))
    (hBaselines : baselines m = without (baselines s.pending) (ends.map Prod.fst))
    (ht : t.up = true) (hPending : t.pending = m)
    (hFile : t.file = ((s.setPending m).written cfg).file)
    (hNotes : t.notes = s.notes ++ ends.map fun e => .closed e.1 e.2) :
    Ledger.Steps rules (s.ledger cfg) (t.ledger cfg) := by
  have hRecorded : t.recorded cfg = rules.write (baselines m) (s.recorded cfg) := by
    have hWritten := recorded_written cfg (s := s.setPending m) hm rules hDurable
    unfold recorded at hWritten ⊢
    rw [hFile]
    exact hWritten
  rw [ledger_up ht, ledger_up hUp, hPending, hRecorded, hNotes, hBaselines]
  exact .single (.close _ ends)

/-- The same save fails, and the changes are put back. -/
theorem moves_lose (hs : s.Sound) (hUp : s.up = true) {m : JsMap Key PendingChange}
    (hm : JsMap.Indexed PendingChange.key m) {ks : List Slot}
    (hBaselines : baselines m = without (baselines s.pending) ks) (hLossy : rules.lossy)
    (ht : t.up = true) (hIndexed : JsMap.Indexed PendingChange.key t.pending)
    (hPending : baselines t.pending = baselines s.pending)
    (hFile : t.file = ((s.setPending m).written cfg).file) (hNodes : t.nodes = s.nodes)
    (hTrace : t.trace = s.trace) : Moves rules cfg s t := by
  have hSound : (s.setPending m).Sound := hs.congr hUp hm rfl rfl rfl
  have hRecorded : t.recorded cfg = rules.write (baselines m) (s.recorded cfg) := by
    have hWritten := recorded_written cfg (s := s.setPending m) hm rules hDurable
    unfold recorded at hWritten ⊢
    rw [hFile]
    exact hWritten
  refine ⟨(hSound.written cfg).congr ht hIndexed hFile hNodes hTrace, ht, ?_⟩
  have hNotes : t.notes = s.notes := by
    unfold notes
    rw [hTrace]
  rw [ledger_up ht, ledger_up hUp, hPending, hRecorded, hBaselines, hNotes]
  exact .single (.lose _ ks hLossy)

end Moves

/-! ## The conditions on a step -/

/-- No save that takes an entry out of the journal fails after it has replaced the file, and no
change that is given up stays there. -/
def Retained (s : System) : Event → Prop
  | .apply env uid _ (.device name) _ =>
    s.pending.has (key uid (.device name)) = false → env.io = .unsynced → env.retry ≠ .unwritten
  | .commit env _ (.device _) => env.io ≠ .unsynced
  | .saved env _ true => env.io ≠ .unsynced
  | .revert env _ _ => env.confirm ≠ .unsynced
  | .sweep _ env => ∀ k, (env k).confirm ≠ .unsynced
  | .changes env => env.confirm ≠ .unsynced
  | .answered env _ _ _ => env.confirm ≠ .unsynced
  | _ => True

/-- A change that opens a slot starts from a value the rules allow. -/
def Opening (Opens : List (Note Slot ℚ) → Slot → ℚ → Prop) (s : System) : Event → Prop
  | .apply _ uid _ (.device name) _ =>
    s.pending.has (key uid (.device name)) = false →
      ∀ v, s.deviceParam uid name = some v → Opens s.notes (uid, name) v
  | _ => True

/-! ## The operations -/

section Operations

variable {rules : Rules Slot ℚ} {cfg : Config} {s : System}
variable (hDurable : rules.durable = cfg.dataDir) {name : ParamName} {uid : String} {first : ℚ}

theorem update_quiet (hs : s.Sound) (hUp : s.up = true) (k : Key)
    {f : PendingChange → PendingChange} (hKey : ∀ c, (f c).key = c.key)
    (hFrom : ∀ c, (f c).from_ = c.from_) : Moves rules cfg s (s.update k f) := by
  unfold update
  split
  · exact moves_refl hs hUp
  · rename_i c hGet
    refine moves_quiet hs hUp hUp ?_ ?_ rfl rfl rfl
    · exact hs.indexed.set ((hKey c).trans (hs.indexed _ _ hGet))
    · funext k'
      change ((s.pending.set k (f c)).get k'.key).map _ = (s.pending.get k'.key).map _
      rw [JsMap.get_set]
      split
      · rename_i hk
        rw [hk, hGet]
        exact congrArg some (hFrom c)
      · rfl

theorem hold_quiet (hs : s.Sound) (hUp : s.up = true) (k : Key) (op : Operation) :
    Moves rules cfg s (s.hold k op) :=
  moves_quiet hs hUp hUp hs.indexed rfl rfl rfl rfl

theorem release_quiet (hs : s.Sound) (hUp : s.up = true) (k : Key) :
    Moves rules cfg s (s.release k) :=
  moves_quiet hs hUp hUp hs.indexed rfl rfl rfl rfl

/-! ### `confirm` -/

/-- What is left when the restored changes are taken out. -/
theorem baselines_confirmed (hs : s.Sound) (now : Int) :
    baselines (s.confirmed now).pending =
      without (baselines s.pending) (s.restored.filterMap PendingChange.slot) := by
  unfold restored
  rw [← baselines_filter hs.indexed]
  funext k
  unfold baselines confirmed setPending pending
  simp only [get_mapValues, Option.map_map]
  congr 1
  funext c
  simp only [Function.comp]
  split <;> rfl

theorem indexed_confirmed (hs : s.Sound) (now : Int) :
    JsMap.Indexed PendingChange.key (s.confirmed now).pending := by
  intro k c hc
  unfold confirmed setPending pending at hc
  simp only [get_mapValues] at hc
  obtain ⟨c', hc', rfl⟩ := Option.map_eq_some_iff.mp hc
  have hKey := hs.indexed.filter _ k c' hc'
  split
  · exact hKey
  · exact hKey

theorem emit_restored (gone : List PendingChange) (t : System) :
    (gone.foldl (fun t c => t.emit (.restored c.uid c.param)) t) =
      { t with trace := t.trace ++ gone.map fun c => .restored c.uid c.param } := by
  induction gone generalizing t with
  | nil => simp
  | cons c gone ih =>
    rw [foldl_cons, ih]
    simp [emit]

theorem restored_notes_flatMap (gone : List PendingChange) :
    (gone.map fun c => Effect.restored c.uid c.param).flatMap Effect.notes =
      ((gone.filterMap PendingChange.slot).map fun k => (k, Closing.restored)).map
        fun e => .closed e.1 e.2 := by
  induction gone with
  | nil => rfl
  | cons c gone ih =>
    rw [map_cons, flatMap_cons, ih, restored_notes, filterMap_cons]
    cases c.slot <;> rfl

theorem Sound.emits (hs : s.Sound) (es : List Effect)
    (hEs : ∀ e ∈ es, ∀ uid params, e ≠ .reported uid params) :
    ({ s with trace := s.trace ++ es } : System).Sound := by
  induction es generalizing s with
  | nil => simpa using hs
  | cons e es ih =>
    have hEmit := hs.emit (hEs e (by simp))
    have hRest := ih hEmit fun e' he' => hEs e' (mem_cons_of_mem e he')
    simpa [System.emit] using hRest

include hDurable

theorem confirm_moves (hs : s.Sound) (hUp : s.up = true) (now : Int) (io : SaveIo)
    (hLossy : rules.lossy ∨ io ≠ .unsynced) : Moves rules cfg s (s.confirm cfg now io) := by
  have hIndexed := indexed_confirmed hs now
  have hBaselines := baselines_confirmed hs now
  have hRefilled : baselines (s.restored.foldl (fun m c => m.set c.key c)
      (s.confirmed now).pending) = baselines s.pending := by
    refine baselines_refill hs.indexed ?_
    exact hBaselines
  unfold confirm
  simp only
  split
  · rename_i hNone
    refine moves_quiet hs hUp hUp hIndexed ?_ rfl rfl rfl
    rw [hBaselines, hNone]
    funext k
    simp [without]
  · rcases savePending_cases cfg (s.confirmed now) io with h | ⟨_, h⟩ | ⟨hIo, h⟩ <;> rw [h]
    · have hSound : (s.confirmed now).Sound := hs.congr hUp hIndexed rfl rfl rfl
      simp only [emit_restored]
      refine ⟨(hSound.written cfg).emits _ ?_, hUp, ?_⟩
      · intro e he uid params hEq
        obtain ⟨c, _, rfl⟩ := mem_map.mp he
        cases hEq
      · refine steps_close hDurable hUp hIndexed ((s.restored.filterMap PendingChange.slot).map
          fun k => (k, Closing.restored)) ?_ hUp rfl rfl ?_
        · rw [hBaselines, map_map]
          congr 1
          exact (map_id _).symm
        · unfold notes
          rw [flatMap_append, restored_notes_flatMap]
          rfl
    · exact moves_quiet hs hUp hUp (hIndexed.foldl_set _) hRefilled rfl rfl rfl
    · refine moves_lose hDurable hs hUp hIndexed hBaselines (hLossy.resolve_right (· hIo)) hUp
        (hIndexed.foldl_set _) hRefilled rfl rfl rfl

/-! ### `commit` -/

theorem commit_moves (hs : s.Sound) (hUp : s.up = true) (env : Env) (uid : String) (param : Param)
    (hLossy : rules.lossy ∨ s.Retained (.commit env uid param)) :
    Moves rules cfg s (commit cfg s env uid param).1 := by
  unfold commit
  simp only
  split
  · exact moves_refl hs hUp
  split
  · exact moves_refl hs hUp
  rename_i c hGet
  have hIndexed := hs.indexed.delete (key uid param)
  have hBaselines := baselines_delete s.pending uid param
  have hBack : baselines ((s.pending.delete (key uid param)).set (key uid param) c) =
      baselines s.pending := by
    refine baselines_set_back hGet fun k' hk' => ?_
    rw [get_delete, if_neg hk']
  have hIndexedBack : JsMap.Indexed PendingChange.key
      ((s.pending.delete (key uid param)).set (key uid param) c) :=
    hIndexed.set (hs.indexed _ _ hGet)
  have hSound : (s.setPending (s.pending.delete (key uid param))).Sound :=
    hs.congr hUp hIndexed rfl rfl rfl
  rcases savePending_cases cfg (s.setPending (s.pending.delete (key uid param))) env.io with
    h | ⟨_, h⟩ | ⟨hIo, h⟩ <;> rw [h]
  · refine ⟨(hSound.written cfg).emit ?_, hUp, ?_⟩
    · intro uid' params hEq
      cases hEq
    · refine steps_close hDurable hUp hIndexed
        ((slotOf uid param).toList.map fun k => (k, .committed c.to_)) ?_ hUp rfl rfl ?_
      · rw [hBaselines, map_map]
        congr 1
        exact (map_id _).symm
      · rw [notes_emit, committed_notes]
        rfl
  · exact moves_quiet hs hUp hUp hIndexedBack hBack rfl rfl rfl
  · cases param with
    | device name =>
      have hKept : rules.lossy := hLossy.resolve_right fun hNot => hNot hIo
      exact moves_lose hDurable hs hUp hIndexed hBaselines hKept hUp hIndexedBack hBack rfl rfl rfl
    | edge path =>
      -- An edge change is not in the journal.
      have hSame : baselines (s.pending.delete (key uid (.edge path))) = baselines s.pending :=
        baselines_delete_edge uid path
      have hDeleted : Moves rules cfg s (s.setPending (s.pending.delete (key uid (.edge path)))) :=
        moves_quiet hs hUp hUp hIndexed hSame rfl rfl rfl
      have hWritten := hDeleted.trans (moves_written hDurable hDeleted.sound hDeleted.up)
      exact hWritten.trans
        (moves_quiet hWritten.sound hUp hUp hIndexedBack (hBack.trans hSame.symm) rfl rfl rfl)

/-! ### `revert` -/

/-- The end of `revert`, once the change is out of the way. -/
theorem save_confirm_moves {g : System} (h : Moves rules cfg s g) (env : Env) (uid : String)
    (param : Param) (hLossy : rules.lossy ∨ env.confirm ≠ .unsynced) :
    Moves rules cfg s (match savePending cfg g env.io with
      | (t, false) => t
      | (t, true) => (t.confirm cfg env.now env.confirm).emit (.reverted uid param)) := by
  have hSaved := h.trans (moves_save hDurable h.sound h.up env.io)
  split
  · rename_i t hSave
    rw [hSave] at hSaved
    exact hSaved
  · rename_i t hSave
    rw [hSave] at hSaved
    have hConfirmed := hSaved.trans
      (confirm_moves hDurable hSaved.sound hSaved.up env.now env.confirm hLossy)
    exact hConfirmed.trans (moves_emit hConfirmed.sound hConfirmed.up rfl)

theorem finishRevert_moves (hs : s.Sound) (hUp : s.up = true) (env : Env) (uid : String)
    (param : Param) (hLossy : rules.lossy ∨ env.confirm ≠ .unsynced) :
    Moves rules cfg s (finishRevert cfg s env uid param) := by
  cases param with
  | device name =>
    exact save_confirm_moves hDurable (release_quiet hs hUp _) env uid _ hLossy
  | edge path =>
    have hGone : Moves rules cfg s ((s.release (key uid (.edge path))).setPending
        ((s.release (key uid (.edge path))).pending.delete (key uid (.edge path)))) :=
      moves_quiet hs hUp hUp (hs.indexed.delete _) (baselines_delete_edge uid path) rfl rfl rfl
    exact save_confirm_moves hDurable hGone env uid _ hLossy

theorem revertFails_moves (hs : s.Sound) (hUp : s.up = true) (env : Env) (k : Key) :
    Moves rules cfg s (revertFails cfg s env k) := by
  have hUpdated : Moves rules cfg s (s.update k fun c => { c with revertAt := env.now + 5000 }) :=
    update_quiet hs hUp k (by intro c; rfl) (by intro c; rfl)
  have hReleased := hUpdated.trans (release_quiet hUpdated.sound hUpdated.up k)
  exact hReleased.trans (moves_save hDurable hReleased.sound hReleased.up env.io)

omit hDurable in
theorem setEdge_quiet {t : System} {path : Occupancy.EdgeParam} {v : ℚ} (hs : s.Sound)
    (hUp : s.up = true) (h : s.setEdge path v = .ok t) : Moves rules cfg s t := by
  obtain ⟨o, _, hT⟩ := bind_eq_ok.mp h
  cases hT
  exact moves_quiet hs hUp hUp hs.indexed rfl rfl rfl rfl

omit hDurable in
theorem putBack_moves (hs : s.Sound) (hUp : s.up = true) {c : PendingChange}
    (hGet : s.pending.get (key uid (.device name)) = some c) {f : PendingChange → PendingChange}
    (hKey : ∀ c, (f c).key = c.key) (hFrom : ∀ c, (f c).from_ = c.from_) :
    Moves rules cfg s
      ((s.update (key uid (.device name)) f).emit (.setParam uid name c.from_ .revert)) := by
  have hUpdated : Moves rules cfg s (s.update (key uid (.device name)) f) :=
    update_quiet hs hUp _ hKey hFrom
  refine ⟨hUpdated.sound.emit ?_, hUpdated.up, ?_⟩
  · intro uid' params hEq
    cases hEq
  · refine hUpdated.steps.tail ?_
    rw [ledger_emit hUpdated.up, ledger_up hUpdated.up]
    refine .putBack _ (uid, name) c.from_ ?_
    have hGot : (s.update (key uid (.device name)) f).pending.get (key uid (.device name)) =
        some (f c) := by
      unfold update
      rw [hGet]
      exact (JsMap.get_set _ _ _ _).trans (if_pos rfl)
    change ((s.update (key uid (.device name)) f).pending.get (key uid (.device name))).map _ = _
    rw [hGot]
    exact congrArg some (hFrom c)

theorem revert_moves (hs : s.Sound) (hUp : s.up = true) (env : Env) (uid : String) (param : Param)
    (hLossy : rules.lossy ∨ env.confirm ≠ .unsynced) :
    Moves rules cfg s (revert cfg s env uid param) := by
  unfold revert
  simp only
  split
  · exact moves_refl hs hUp
  rename_i c hGet
  split
  · exact moves_refl hs hUp
  have hHeld : Moves rules cfg s (s.hold (key uid param) .revert) := hold_quiet hs hUp _ _
  cases param with
  | device name =>
    exact hHeld.trans
      (putBack_moves hHeld.sound hHeld.up hGet (by intro c; rfl) (by intro c; rfl))
  | edge path =>
    simp only
    split
    · exact hHeld.trans (revertFails_moves hDurable hHeld.sound hHeld.up env _)
    · rename_i t hEdge
      have hSet := hHeld.trans (setEdge_quiet hHeld.sound hHeld.up hEdge)
      exact hSet.trans (finishRevert_moves hDurable hSet.sound hSet.up env uid _ hLossy)

theorem sweep_moves (hs : s.Sound) (hUp : s.up = true) (now : Int) (env : Key → Env)
    (hLossy : rules.lossy ∨ ∀ k, (env k).confirm ≠ .unsynced) :
    Moves rules cfg s (sweep cfg s now env) := by
  unfold sweep
  generalize s.pending.entries = es
  induction es generalizing s with
  | nil => exact moves_refl hs hUp
  | cons e es ih =>
    rw [foldl_cons]
    have hOne : Moves rules cfg s (if now < e.2.revertAt ∨ s.broker.reverting.has e.1 then s
        else revert cfg s (env e.1) e.2.uid e.2.param) := by
      split
      · exact moves_refl hs hUp
      · exact revert_moves hDurable hs hUp _ _ _ (hLossy.imp_right fun h => h _)
    exact hOne.trans (ih hOne.sound hOne.up)

/-! ### `sendCommand` comes back -/

theorem answered_moves (hs : s.Sound) (hUp : s.up = true) (env : Env) (uid : String)
    (name : ParamName) (result : Option Nat) (hLossy : rules.lossy ∨ env.confirm ≠ .unsynced) :
    Moves rules cfg s (answered cfg s env uid name result) := by
  unfold answered
  simp only
  split
  · exact moves_refl hs hUp
  · rename_i seq _
    have hUpdated : Moves rules cfg s
        (s.update (key uid (.device name)) fun c => { c with cmdSeq := some seq }) :=
      update_quiet hs hUp _ (by intro c; rfl) (by intro c; rfl)
    exact hUpdated.trans (release_quiet hUpdated.sound hUpdated.up _)
  · have hUpdated : Moves rules cfg s
        (s.update (key uid (.device name)) fun c => { c with revertAt := env.now + 5000 }) :=
      update_quiet hs hUp _ (by intro c; rfl) (by intro c; rfl)
    exact hUpdated.trans (release_quiet hUpdated.sound hUpdated.up _)
  · rename_i seq _
    have hUpdated : Moves rules cfg s
        (s.update (key uid (.device name)) fun c => { c with
          cmdSeq := some seq
          restoring := true
          to_ := c.from_
          confirmedAt := none
          revertAt := env.now + 5000 }) :=
      update_quiet hs hUp _ (by intro c; rfl) (by intro c; rfl)
    exact hUpdated.trans
      (finishRevert_moves hDurable hUpdated.sound hUpdated.up env uid _ hLossy)
  · exact revertFails_moves hDurable hs hUp env _

/-! ### `persist` -/

omit hDurable in
theorem persist_moves (hs : s.Sound) (hUp : s.up = true) (uid : String) :
    Moves rules cfg s (s.persist uid).1 := by
  unfold persist
  split
  · exact moves_refl hs hUp
  split
  · exact moves_refl hs hUp
  have hHeld : Moves rules cfg s
      { s with broker := { s.broker with persisting := uid :: s.broker.persisting } } :=
    moves_quiet hs hUp hUp hs.indexed rfl rfl rfl rfl
  exact hHeld.trans (moves_emit hHeld.sound hHeld.up rfl)

omit hDurable in
/-- The changes of a node, and the slots they belong to. -/
theorem persisted_notes (uid : String) (cs : List PendingChange) (hUid : ∀ c ∈ cs, c.uid = uid) :
    ∃ ends : List (Slot × Closing ℚ), ends.map Prod.fst = cs.filterMap PendingChange.slot ∧
      (Effect.persisted uid (cs.filterMap PendingChange.target)).notes =
        ends.map fun e => .closed e.1 e.2 := by
  refine ⟨(cs.filterMap PendingChange.target).map fun e => ((uid, e.1), .persisted e.2), ?_, ?_⟩
  · rw [map_map]
    induction cs with
    | nil => rfl
    | cons c cs ih =>
      have hRest := ih fun c' hc' => hUid c' (mem_cons_of_mem c hc')
      have hc := hUid c (by simp)
      have hSlot : c.slot = c.target.map fun e => (uid, e.1) := by
        unfold PendingChange.slot slotOf PendingChange.target
        rw [hc]
        cases c.param <;> rfl
      rw [filterMap_cons, filterMap_cons, hSlot]
      cases c.target with
      | none => exact hRest
      | some e =>
        simp only [Option.map_some, map_cons, Function.comp]
        exact congrArg _ hRest
  · rw [map_map]
    rfl

theorem saved_moves (hs : s.Sound) (hUp : s.up = true) (env : Env) (uid : String) (ok : Bool)
    (hLossy : rules.lossy ∨ s.Retained (.saved env uid ok)) :
    Moves rules cfg s (saved cfg s env uid ok) := by
  unfold saved
  split
  · exact moves_refl hs hUp
  simp only
  split
  · exact moves_quiet hs hUp hUp hs.indexed rfl rfl rfl rfl
  rename_i hOk
  have hTrue : ok = true := by simpa using hOk
  subst hTrue
  have hIndexed := hs.indexed.filter fun c => !ofNode uid c
  have hBaselines := baselines_filter hs.indexed (ofNode uid)
  have hBack := baselines_refill hs.indexed hBaselines
  have hUids : ∀ c ∈ s.pending.values.filter (ofNode uid), c.uid = uid := by
    intro c hc
    have hNode := (mem_filter.mp hc).2
    simp only [ofNode, Bool.and_eq_true, decide_eq_true_eq] at hNode
    exact hNode.1
  have hSound : (s.setPending (s.pending.filter fun c => !ofNode uid c)).Sound :=
    hs.congr hUp hIndexed rfl rfl rfl
  rcases savePending_cases cfg (s.setPending (s.pending.filter fun c => !ofNode uid c)) env.io with
    h | ⟨_, h⟩ | ⟨hIo, h⟩ <;> rw [h]
  · obtain ⟨ends, hSlots, hNotes⟩ := persisted_notes uid _ hUids
    have hEmitted := (hSound.written cfg).emit
      (e := .persisted uid ((s.pending.values.filter (ofNode uid)).filterMap PendingChange.target))
      (by intro uid' params hEq; cases hEq)
    refine ⟨hEmitted.congr hUp hIndexed rfl rfl rfl, hUp, ?_⟩
    refine steps_close hDurable hUp hIndexed ends ?_ hUp rfl rfl ?_
    · rw [hSlots]
      exact hBaselines
    · rw [← hNotes]
      exact notes_emit _ _
  · exact moves_quiet hs hUp hUp (hIndexed.foldl_set _) hBack rfl rfl rfl
  · have hKept : rules.lossy := hLossy.resolve_right fun hNot => hNot hIo
    exact moves_lose hDurable hs hUp hIndexed hBaselines hKept hUp (hIndexed.foldl_set _) hBack
      rfl rfl rfl

/-! ### `apply` -/

omit hDurable in
theorem baseline_device {binding : ParamBinding} {value : ℚ}
    (h : s.baseline uid binding value = .ok (.device name, first)) :
    binding = .device name ∧ ∃ v, s.deviceParam uid name = some v ∧ first = (v : ℚ) := by
  unfold baseline at h
  split at h
  · cases h
  · split at h
    · cases h
    split at h
    · cases h
    split at h
    · cases h
    · rename_i v hv
      cases h
      exact ⟨rfl, v, hv, rfl⟩
  · cases h
  · split at h
    · cases h
    · cases h
  · cases h

omit hDurable in
/-- The first value of a slot is the one kept. -/
theorem baselines_newChange (cfg : Config) (hUp : s.up = true) (env : Env) (uid nodeId : String)
    (name : ParamName) (first value : ℚ) :
    baselines (s.pending.set (key uid (.device name))
      (s.newChange env uid nodeId (.device name) first value)) =
      (s.ledger cfg).opened (uid, name) first := by
  rw [key_device, baselines_set_device]
  unfold Ledger.opened
  rw [ledger_up hUp]
  congr 1
  unfold newChange baselines
  simp only [key_device]
  cases s.pending.get (Slot.key (uid, name)) <;> rfl

section Existing

variable {k : Key} {new : PendingChange}

omit hDurable

theorem indexed_withExisting (hs : s.Sound) (hNew : new.key = k) :
    JsMap.Indexed PendingChange.key
      (withExisting (s.pending.set k new) k (s.pending.get k)) := by
  cases hGet : s.pending.get k with
  | some c => exact (hs.indexed.set hNew).set (hs.indexed _ _ hGet)
  | none => exact (hs.indexed.set hNew).delete k

theorem baselines_withExisting (s : System) (k : Key) (new : PendingChange) :
    baselines (withExisting (s.pending.set k new) k (s.pending.get k)) =
      baselines s.pending := by
  cases hGet : s.pending.get k with
  | some c =>
    refine baselines_set_back hGet fun k' hk' => ?_
    rw [JsMap.get_set, if_neg hk']
  | none =>
    funext k'
    change (((s.pending.set k new).delete k).get k'.key).map _ = (s.pending.get k'.key).map _
    rw [get_delete]
    split
    · rename_i hk
      rw [hk, hGet]
    · rename_i hk
      rw [JsMap.get_set, if_neg hk]

end Existing

/-- A change is given up after its save: what is left of it is what the second save leaves. -/
theorem undo_moves {s₂ : System} (hs : s.Sound) (hUp : s.up = true) (env : Env) {k : Key}
    {new : PendingChange} (hNew : new.key = k) (hPending : s₂.pending = s.pending.set k new)
    (hUp₂ : s₂.up = true) (hNodes : s₂.nodes = s.nodes) (hTrace : s₂.trace = s.trace)
    (hFile : s₂.file = s.file ∨
      (s₂.file = ((s.setPending (s.pending.set k new)).written cfg).file ∧
        (env.retry = .unwritten → Ledger.Steps rules (s.ledger cfg)
          ⟨baselines s.pending, rules.write (baselines (s.pending.set k new)) (s.recorded cfg),
            s.notes⟩))) :
    Moves rules cfg s (undo cfg s₂ env k (s.pending.get k)) := by
  have hBefore := baselines_withExisting s k new
  have hIndexed := indexed_withExisting hs hNew
  have hNewIndexed : JsMap.Indexed PendingChange.key (s.pending.set k new) := hs.indexed.set hNew
  have hSetSound : (s.setPending (s.pending.set k new)).Sound := hs.congr hUp hNewIndexed rfl rfl rfl
  rw [← hPending] at hBefore hIndexed
  unfold undo
  simp only
  -- A second save that replaces the file writes the map before the change.
  have hReplaced : Moves rules cfg s
      (((s₂.setPending (withExisting s₂.pending k (s.pending.get k))).written cfg).release k) := by
    have hSet : Moves rules cfg s
        (s.setPending (withExisting s₂.pending k (s.pending.get k))) :=
      moves_quiet hs hUp hUp hIndexed hBefore rfl rfl rfl
    have hWritten := hSet.trans (moves_written hDurable hSet.sound hSet.up)
    refine hWritten.trans (moves_quiet hWritten.sound hUp₂ hUp hIndexed rfl ?_ hNodes hTrace)
    change (if cfg.dataDir then some (deviceChanges _) else s₂.file) =
      if cfg.dataDir then some (deviceChanges _) else s.file
    split
    · rfl
    · rename_i hDir
      rcases hFile with hFile | ⟨hFile, _⟩
      · exact hFile
      · exact hFile.trans (if_neg hDir)
  rcases savePending_cases cfg (s₂.setPending (withExisting s₂.pending k (s.pending.get k)))
    env.retry with h | ⟨hIo, h⟩ | ⟨_, h⟩ <;> rw [h]
  · exact hReplaced
  · rcases hFile with hFile | ⟨hFile, hSteps⟩
    · exact moves_quiet hs hUp₂ hUp hIndexed hBefore hFile hNodes hTrace
    · refine ⟨(hSetSound.written cfg).congr hUp₂ hIndexed hFile hNodes hTrace, hUp₂, ?_⟩
      have hRecorded : ((s₂.setPending
          (withExisting s₂.pending k (s.pending.get k))).release k).recorded cfg =
          rules.write (baselines (s.pending.set k new)) (s.recorded cfg) := by
        have hWritten := recorded_written cfg (s := s.setPending (s.pending.set k new))
          hNewIndexed rules hDurable
        unfold recorded at hWritten ⊢
        change (if cfg.dataDir then journalled (s₂.file.getD []) else fun _ => none) = _
        rw [hFile]
        exact hWritten
      have hNotes : ((s₂.setPending
          (withExisting s₂.pending k (s.pending.get k))).release k).notes = s.notes := by
        unfold notes
        exact congrArg _ hTrace
      have hLedger : ((s₂.setPending (withExisting s₂.pending k (s.pending.get k))).release k).ledger
          cfg = ⟨baselines s.pending, rules.write (baselines (s.pending.set k new))
            (s.recorded cfg), s.notes⟩ := by
        rw [ledger_up (s := (s₂.setPending (withExisting s₂.pending k (s.pending.get k))).release k)
          hUp₂, hRecorded, hNotes, ← hBefore]
        rfl
      exact hLedger ▸ hSteps hIo
  · exact hReplaced

omit hDurable in
theorem has_of_baselines (h : baselines s.pending (uid, name) = none) :
    s.pending.has (key uid (.device name)) = false := by
  unfold JsMap.has
  rw [Option.isSome_eq_false_iff, Option.isNone_iff_eq_none]
  exact Option.map_eq_none_iff.mp h

omit hDurable in
/-- What the journal holds once a change has been written down and given up. -/
theorem attempt_steps (hUp : s.up = true) (env : Env) (uid nodeId : String) {name : ParamName}
    {first : ℚ} (value : ℚ)
    (hOpens : s.pending.has (key uid (.device name)) = false →
      rules.Opens s.notes (uid, name) first)
    (hLossy : rules.lossy ∨ s.pending.has (key uid (.device name)) = true) :
    Ledger.Steps rules (s.ledger cfg) ⟨baselines s.pending,
      rules.write (baselines (s.pending.set (key uid (.device name))
        (s.newChange env uid nodeId (.device name) first value))) (s.recorded cfg), s.notes⟩ := by
  rw [baselines_newChange cfg hUp, ledger_up hUp]
  rcases hLossy with hLossy | hHeld
  · exact .single (.attempt _ (uid, name) first hLossy fun hNone => hOpens (has_of_baselines hNone))
  · have hSame : (⟨baselines s.pending, s.recorded cfg, s.notes⟩ : Ledger Slot ℚ).opened
        (uid, name) first = baselines s.pending := by
      unfold Ledger.opened
      cases hMem : baselines s.pending (uid, name) with
      | none =>
        rw [has_of_baselines hMem] at hHeld
        cases hHeld
      | some w =>
        funext k
        by_cases hk : k = (uid, name)
        · subst hk
          rw [Function.update_self]
          change (baselines s.pending (uid, name)).or (some first) = baselines s.pending (uid, name)
          rw [hMem]
          rfl
        · rw [Function.update_of_ne hk]
    rw [hSame]
    exact .single (.save _)

/-- The change is written down, and the command is sent. -/
theorem dispatch_moves (hs : s.Sound) (hUp : s.up = true) (env : Env) (uid nodeId : String)
    {name : ParamName} {first : ℚ} (value : ℚ)
    (hOpens : s.pending.has (key uid (.device name)) = false →
      rules.Opens s.notes (uid, name) first) :
    Moves rules cfg s ((((s.setPending (s.pending.set (key uid (.device name))
      (s.newChange env uid nodeId (.device name) first value))).hold
        (key uid (.device name)) .apply).written cfg).emit (.setParam uid name value .apply)) := by
  have hNew : (s.newChange env uid nodeId (.device name) first value).key =
      key uid (.device name) := rfl
  have hIndexed := hs.indexed.set hNew
  have hHeld : ((s.setPending (s.pending.set (key uid (.device name))
      (s.newChange env uid nodeId (.device name) first value))).hold
        (key uid (.device name)) .apply).Sound := hs.congr hUp hIndexed rfl rfl rfl
  refine ⟨(hHeld.written cfg).emit (by intro uid' params hEq; cases hEq), hUp, ?_⟩
  have hLedger := ledger_written hDurable hHeld hUp
  have hOpened := baselines_newChange cfg hUp env uid nodeId name first value
  rw [ledger_emit (by exact hUp), hLedger]
  change Ledger.Steps rules _ ⟨baselines (s.pending.set _ _),
    rules.write (baselines (s.pending.set _ _)) (s.recorded cfg), s.notes ++ _⟩
  rw [hOpened, ledger_up hUp]
  refine .single (.change _ (uid, name) first value fun hNone => hOpens ?_)
  exact has_of_baselines hNone

theorem apply_moves (hs : s.Sound) (hUp : s.up = true) (env : Env) (uid nodeId : String)
    (binding : ParamBinding) (value : ℚ)
    (hOpens : s.Opening rules.Opens (.apply env uid nodeId binding value))
    (hLossy : rules.lossy ∨ s.Retained (.apply env uid nodeId binding value)) :
    Moves rules cfg s (apply cfg s env uid nodeId binding value).1 := by
  unfold apply
  split
  · exact moves_refl hs hUp
  split
  · exact moves_refl hs hUp
  rename_i param first hBaseline
  simp only
  split
  · exact moves_refl hs hUp
  have hNew : (s.newChange env uid nodeId param first value).key = key uid param := rfl
  have hSetIndexed : JsMap.Indexed PendingChange.key
      (s.pending.set (key uid param) (s.newChange env uid nodeId param first value)) :=
    hs.indexed.set hNew
  -- An apply that has replaced the file and cannot write it again leaves the change there.
  have hAttempt : (env.io = .unsynced ∨ ∃ path, param = .edge path) → env.retry = .unwritten →
      Ledger.Steps rules (s.ledger cfg) ⟨baselines s.pending,
        rules.write (baselines (s.pending.set (key uid param)
          (s.newChange env uid nodeId param first value))) (s.recorded cfg), s.notes⟩ := by
    intro hWhen hRetry
    cases param with
    | device name =>
      obtain ⟨rfl, v, hv, rfl⟩ := baseline_device hBaseline
      have hIo : env.io = .unsynced := by
        rcases hWhen with hIo | ⟨path, hPath⟩
        · exact hIo
        · cases hPath
      refine attempt_steps hUp env uid nodeId value (fun hNone => hOpens hNone v hv) ?_
      refine hLossy.imp_right fun hRetained => ?_
      by_contra hHas
      exact hRetained (by simpa using hHas) hIo hRetry
    | edge path =>
      rw [baselines_set_edge, ledger_up hUp]
      exact .single (.save _)
  rcases savePending_cases cfg ((s.setPending (s.pending.set (key uid param)
    (s.newChange env uid nodeId param first value))).hold (key uid param) .apply) env.io with
    h | ⟨hIo, h⟩ | ⟨hIo, h⟩ <;> rw [h]
  · cases param with
    | device name =>
      obtain ⟨rfl, v, hv, rfl⟩ := baseline_device hBaseline
      exact dispatch_moves hDurable hs hUp env uid nodeId value fun hNone => hOpens hNone v hv
    | edge path =>
      simp only
      split
      · exact undo_moves hDurable hs hUp env hNew rfl hUp rfl rfl
          (Or.inr ⟨rfl, hAttempt (Or.inr ⟨path, rfl⟩)⟩)
      · rename_i t hEdge
        have hSet : Moves rules cfg s ((s.setPending (s.pending.set (key uid (.edge path))
            (s.newChange env uid nodeId (.edge path) first value))).hold (key uid (.edge path))
              .apply) :=
          moves_quiet hs hUp hUp hSetIndexed (baselines_set_edge uid path _) rfl rfl rfl
        have hWritten := hSet.trans (moves_written hDurable hSet.sound hSet.up)
        have hTuned := hWritten.trans (setEdge_quiet hWritten.sound hWritten.up hEdge)
        exact hTuned.trans (release_quiet hTuned.sound hTuned.up _)
  · exact undo_moves hDurable hs hUp env hNew rfl hUp rfl rfl (Or.inl rfl)
  · exact undo_moves hDurable hs hUp env hNew rfl hUp rfl rfl
      (Or.inr ⟨rfl, hAttempt (Or.inl hIo)⟩)

end Operations

/-! ## Nodes and processes -/

section Steps

variable {rules : Rules Slot ℚ} {cfg : Config} {s : System}

theorem node_set (s : System) (uid uid' : String) (v : NodeView) :
    ({ s with nodes := s.nodes.set uid v } : System).node uid' =
      if uid' = uid then v else s.node uid' := by
  unfold node
  rw [JsMap.get_set]
  split <;> rfl

theorem node_onStatus (s : System) (r : StatusReport) (uid : String) :
    (s.onStatus r).node uid = if uid = r.uid then
      { s.node r.uid with status := some ⟨r.params, r.lastCmd, r.receivedAt,
        (((s.node r.uid).status.map NodeStatus.generation).getD 0) + 1⟩ } else s.node uid :=
  node_set s r.uid uid _

theorem onStatus_moves (hs : s.Sound) (hUp : s.up = true) (r : StatusReport) :
    Moves rules cfg s (s.onStatus r) := by
  have hNotes : (s.onStatus r).notes =
      s.notes ++ [.reported (reportedValues r.uid r.params)] := notes_emit _ _
  have hSeen : ∀ k, (witnessed (s.onStatus r).notes).seen k =
      (reportedValues r.uid r.params k).or ((witnessed s.notes).seen k) := by
    intro k
    rw [hNotes, witnessed_concat]
    rfl
  refine ⟨⟨hs.indexed, hs.keys, fun uid name v hv => ?_, fun uid st hst => ?_, hs.down⟩, hUp, ?_⟩
  · rw [hSeen]
    rw [deviceParam, node_onStatus] at hv
    unfold reportedValues
    by_cases hUid : uid = r.uid
    · rw [if_pos hUid] at hv ⊢
      obtain ⟨e, he, hVal⟩ := Option.map_eq_some_iff.mp hv
      simp only at he
      rw [he]
      simp [hVal]
    · rw [if_neg hUid] at hv ⊢
      exact hs.reports uid name v hv
  · rw [node_onStatus] at hst
    split at hst
    · rename_i hUid
      exact hUid ▸ r.wf
    · exact hs.known uid st hst
  · rw [ledger_up (s := s.onStatus r) hUp, hNotes, ledger_up hUp]
    exact .single (.report _ (reportedValues r.uid r.params))

theorem heard_moves (hs : s.Sound) (hUp : s.up = true) (uid : String) (boot : Option Nat) :
    Moves rules cfg s { s with nodes := s.nodes.set uid { s.node uid with boot } } := by
  have hStatus : ∀ uid', (System.node { s with nodes := s.nodes.set uid { s.node uid with boot } }
      uid').status = (s.node uid').status := by
    intro uid'
    rw [node_set]
    split
    · rename_i hUid
      rw [hUid]
    · rfl
  refine ⟨⟨hs.indexed, hs.keys, fun uid' name v hv => ?_, fun uid' st hst => ?_, hs.down⟩,
    hUp, .refl⟩
  · unfold deviceParam at hv
    rw [hStatus] at hv
    exact hs.reports uid' name v hv
  · rw [hStatus] at hst
    exact hs.known uid' st hst

theorem indexed_loaded (now : Int) (cs : List PendingChange) {m : JsMap Key PendingChange}
    (h : JsMap.Indexed PendingChange.key m) :
    JsMap.Indexed PendingChange.key
      (cs.foldl (fun m c => m.set c.key { c with revertAt := now }) m) := by
  induction cs generalizing m with
  | nil => exact h
  | cons c cs ih => exact ih (h.set rfl)

/-- What a new process holds is what the journal holds. -/
theorem boot_spec (hKeys : ∀ cs, s.file = some cs → (cs.map PendingChange.key).Nodup)
    (cfg : Config) (now : Int) :
    JsMap.Indexed PendingChange.key (boot cfg now s.file s.trace).pending ∧
      (boot cfg now s.file s.trace).ledger cfg =
        ⟨s.recorded cfg, s.recorded cfg, s.notes⟩ := by
  have hEmpty : baselines .empty = fun _ => none := by
    funext k
    rfl
  unfold boot
  cases hDir : cfg.dataDir with
  | false =>
    simp only [load]
    refine ⟨indexed_empty _, ?_⟩
    simp [ledger, recorded, hDir, pending, hEmpty, notes]
  | true =>
    cases hFile : s.file with
    | none =>
      refine ⟨indexed_empty _, ?_⟩
      simp only [load, ledger, recorded, hDir, hFile, pending, notes]
      rfl
    | some cs =>
      simp only [if_true]
      cases hLoad : load now (some cs) with
      | error e =>
        refine ⟨indexed_empty _, ?_⟩
        simp [ledger, recorded, hDir, hFile, notes]
      | ok loaded =>
        obtain ⟨rfl, hBaselines⟩ := baselines_load (hKeys cs hFile) hLoad
        refine ⟨indexed_loaded now cs (indexed_empty _), ?_⟩
        simp only [ledger, recorded, hDir, hFile, notes, pending, if_true, Option.getD_some]
        rw [hBaselines]

theorem boot_file (now : Int) : (boot cfg now s.file s.trace).file = s.file := by
  unfold boot
  split <;> rfl

theorem boot_node (now : Int) (uid : String) :
    (boot cfg now s.file s.trace).node uid = ⟨none, none⟩ := by
  unfold boot
  split <;> rfl

theorem boot_down (now : Int) (h : (boot cfg now s.file s.trace).up = false) :
    (boot cfg now s.file s.trace).pending = .empty := by
  unfold boot at h ⊢
  split
  · rename_i loaded hLoad
    rw [hLoad] at h
    cases h
  · rfl

variable (rules) in
theorem crash_steps (hs : s.Sound) (now : Int) :
    (boot cfg now s.file s.trace).Sound ∧
      Ledger.Steps rules (s.ledger cfg) ((boot cfg now s.file s.trace).ledger cfg) := by
  obtain ⟨hIndexed, hLedger⟩ := boot_spec hs.keys cfg now
  refine ⟨⟨hIndexed, ?_, fun uid name v hv => ?_, fun uid st hst => ?_, boot_down now⟩, ?_⟩
  · rw [boot_file]
    exact hs.keys
  · rw [deviceParam, boot_node] at hv
    cases hv
  · rw [boot_node] at hst
    cases hst
  · rw [hLedger]
    exact .single (.crash _)

/-- A process that has not come up does nothing. -/
theorem running {t : System} (hs : s.Sound) (h : s.up = true → Moves rules cfg s t) :
    (if !s.up then s else t).Sound ∧
      Ledger.Steps rules (s.ledger cfg) ((if !s.up then s else t).ledger cfg) := by
  cases hUp : s.up with
  | false => exact ⟨hs, .refl⟩
  | true => exact ⟨(h hUp).sound, (h hUp).steps⟩

/-- Every step of a system is a sequence of steps of its ledger. -/
theorem step_refines (hDurable : rules.durable = cfg.dataDir) (hs : s.Sound) {e : Event}
    (hOpens : s.Opening rules.Opens e) (hLossy : rules.lossy ∨ s.Retained e) :
    (step cfg s e).Sound ∧ Ledger.Steps rules (s.ledger cfg) ((step cfg s e).ledger cfg) := by
  cases e with
  | crash now => exact crash_steps rules hs now
  | status report => exact running hs fun hUp => onStatus_moves hs hUp report
  | heard uid boot => exact running hs fun hUp => heard_moves hs hUp uid boot
  | apply env uid nodeId binding value =>
    exact running hs fun hUp => apply_moves hDurable hs hUp env uid nodeId binding value hOpens hLossy
  | commit env uid param =>
    exact running hs fun hUp => commit_moves hDurable hs hUp env uid param hLossy
  | revert env uid param =>
    exact running hs fun hUp => revert_moves hDurable hs hUp env uid param hLossy
  | persist uid => exact running hs fun hUp => persist_moves hs hUp uid
  | sweep now env => exact running hs fun hUp => sweep_moves hDurable hs hUp now env hLossy
  | changes env =>
    exact running hs fun hUp => confirm_moves hDurable hs hUp env.now env.confirm hLossy
  | answered env uid name result =>
    exact running hs fun hUp => answered_moves hDurable hs hUp env uid name result hLossy
  | saved env uid ok => exact running hs fun hUp => saved_moves hDurable hs hUp env uid ok hLossy

end Steps

end System

end TMEdge.Params
