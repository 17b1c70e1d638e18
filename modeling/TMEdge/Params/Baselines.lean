import TMEdge.Params.Model
import TMEdge.Library.Ledger

/-!
# The baselines of the broker

What `ParamBroker` keeps for the device parameters, in memory and in its journal, as an undo
ledger: a slot is a parameter of a node, its entry the value before the change.

* `ledger`: the ledger a system holds.
* `Sound`: the journal and what a node says are what the ledger takes them for.
* `savePending_cases`: what a save can do.
-/

namespace TMEdge.Params

open Library Protocol

/-- A parameter of a node. -/
abbrev Slot := String × ParamName

def Slot.key (k : Slot) : Key := ⟨some k.1, .device k.2⟩

/-! ## The view -/

def reportedValues (uid : String) (params : List (ParamName × Int)) : Slot → Option ℚ :=
  fun k => if k.1 = uid then (params.find? fun e => e.1 = k.2).map fun e => (e.2 : ℚ) else none

def Effect.notes : Effect → List (Note Slot ℚ)
  | .reported uid params => [.reported (reportedValues uid params)]
  | .setParam uid name value .apply => [.changed (uid, name) value]
  | .setParam uid name value .revert => [.recalled (uid, name) value]
  | .committed uid (.device name) value => [.closed (uid, name) (.committed value)]
  | .persisted uid kept => kept.map fun e => .closed (uid, e.1) (.persisted e.2)
  | .restored uid (.device name) => [.closed (uid, name) .restored]
  | _ => []

/-- The values the changes of a map started from. -/
def baselines (m : JsMap Key PendingChange) : Slot → Option ℚ :=
  fun k => (m.get k.key).map PendingChange.from_

/-- The values the entries of a journal started from. -/
def journalled (cs : List PendingChange) : Slot → Option ℚ :=
  fun k => (cs.find? fun c => c.key = k.key).map PendingChange.from_

namespace System

def recorded (cfg : Config) (s : System) : Slot → Option ℚ :=
  if cfg.dataDir then journalled (s.file.getD []) else fun _ => none

def notes (s : System) : List (Note Slot ℚ) := s.trace.flatMap Effect.notes

/-- A process that has not come up keeps what the journal keeps. -/
def ledger (cfg : Config) (s : System) : Ledger Slot ℚ where
  mem := if s.up then baselines s.pending else s.recorded cfg
  disk := s.recorded cfg
  log := s.notes

structure Sound (s : System) : Prop where
  indexed : JsMap.Indexed PendingChange.key s.pending
  keys : ∀ cs, s.file = some cs → (cs.map PendingChange.key).Nodup
  reports : ∀ uid name v, s.deviceParam uid name = some v →
    (witnessed s.notes).seen (uid, name) = some (v : ℚ)
  known : ∀ uid st, (s.node uid).status = some st → Replay.isUid uid = true
  down : s.up = false → s.pending = .empty

end System

/-! ## Keys -/

theorem key_device (uid : String) (name : ParamName) :
    key uid (.device name) = Slot.key (uid, name) := rfl

variable {k : Slot}

theorem slotKey_injective {k' : Slot} (h : k.key = k'.key) : k = k' := by
  obtain ⟨uid, name⟩ := k
  obtain ⟨uid', name'⟩ := k'
  unfold Slot.key at h
  simp only [Key.mk.injEq, Option.some.injEq, Param.device.injEq] at h
  rw [h.1, h.2]

theorem slotKey_ne_edge (k : Slot) (uid : String) (path : Occupancy.EdgeParam) :
    k.key ≠ key uid (.edge path) := by
  intro h
  simp [Slot.key, key] at h

/-- The change under the key of a slot is a change of this node and this parameter. -/
theorem of_key_eq {c : PendingChange} (h : c.key = k.key) :
    c.uid = k.1 ∧ c.param = .device k.2 := by
  unfold PendingChange.key Params.key Slot.key at h
  split at h
  · rename_i hParam
    simp only [Key.mk.injEq, Option.some.injEq] at h
    exact h
  · simp at h

theorem isDevice_of_key_eq {c : PendingChange} (h : c.key = k.key) : c.isDevice = true := by
  simp [PendingChange.isDevice, (of_key_eq h).2]

/-! ## Maps and journals -/

section Maps

variable {m : JsMap Key PendingChange}

@[simp] theorem baselines_set_device (k : Slot) (c : PendingChange) :
    baselines (m.set k.key c) = Function.update (baselines m) k (some c.from_) := by
  funext k'
  unfold baselines
  rw [JsMap.get_set]
  by_cases hk : k' = k
  · subst hk
    simp
  · rw [if_neg fun h => hk (slotKey_injective h), Function.update_of_ne hk]

@[simp] theorem baselines_set_edge (uid : String) (path : Occupancy.EdgeParam)
    (c : PendingChange) : baselines (m.set (key uid (.edge path)) c) = baselines m := by
  funext k
  unfold baselines
  rw [JsMap.get_set, if_neg (slotKey_ne_edge k uid path)]

@[simp] theorem baselines_delete_edge (uid : String) (path : Occupancy.EdgeParam) :
    baselines (m.delete (key uid (.edge path))) = baselines m := by
  funext k
  unfold baselines
  rw [JsMap.get_delete, if_neg (slotKey_ne_edge k uid path)]

theorem baselines_delete_device (k : Slot) :
    baselines (m.delete k.key) = without (baselines m) [k] := by
  funext k'
  unfold baselines without
  rw [JsMap.get_delete]
  by_cases hk : k' = k
  · subst hk
    simp
  · rw [if_neg fun h => hk (slotKey_injective h), if_neg (by simpa using hk)]

/-- The device changes are what a journal holds. -/
theorem journalled_deviceChanges (h : JsMap.Indexed PendingChange.key m) :
    journalled (System.deviceChanges m) = baselines m := by
  funext k
  unfold journalled System.deviceChanges baselines
  rw [h.find?_filter]
  cases hGet : m.get k.key with
  | none => rfl
  | some c => rw [Option.filter_some, if_pos (isDevice_of_key_eq (h _ _ hGet))]

/-- Loading a journal gives back what it holds. -/
theorem baselines_load {cs : List PendingChange} {now : Int}
    (hKeys : (cs.map PendingChange.key).Nodup) {loaded : JsMap Key PendingChange}
    (h : load now (some cs) = .ok loaded) :
    loaded = cs.foldl (fun m c => m.set c.key { c with revertAt := now }) .empty ∧
      baselines loaded = journalled cs := by
  unfold load at h
  simp only at h
  split at h
  · cases h
  split at h
  · cases h
  split at h
  · cases h
    refine ⟨rfl, ?_⟩
    funext k
    unfold baselines journalled
    rw [JsMap.get_foldl_set PendingChange.key _ hKeys]
    cases cs.find? fun c => c.key = k.key with
    | none => rfl
    | some c => rfl
  · cases h

end Maps

/-! ## Steps that leave the baselines alone -/

namespace System

variable {cfg : Config} {s t : System}

theorem notes_emit (s : System) (e : Effect) : (s.emit e).notes = s.notes ++ e.notes := by
  simp [notes, emit]

theorem seen_closed (log : List (Note Slot ℚ)) (ends : List (Slot × Closing ℚ)) :
    (witnessed (log ++ ends.map fun e => Note.closed e.1 e.2)).seen = (witnessed log).seen := by
  induction ends generalizing log with
  | nil => simp
  | cons e ends ih =>
    rw [List.map_cons, List.append_cons, ih, witnessed_concat]
    rfl

/-- Only a report changes what was last reported. -/
theorem seen_emit (s : System) {e : Effect} (h : ∀ uid params, e ≠ .reported uid params) :
    (witnessed (s.emit e).notes).seen = (witnessed s.notes).seen := by
  rw [notes_emit]
  match e with
  | .reported uid params => exact absurd rfl (h uid params)
  | .setParam uid name v .apply => simp only [Effect.notes, witnessed_concat, Witnessed.note]
  | .setParam uid name v .revert => simp only [Effect.notes, witnessed_concat, Witnessed.note]
  | .committed uid (.device name) v => simp only [Effect.notes, witnessed_concat, Witnessed.note]
  | .restored uid (.device name) => simp only [Effect.notes, witnessed_concat, Witnessed.note]
  | .persisted uid kept =>
    have hClosed := seen_closed s.notes (kept.map fun e => ((uid, e.1), .persisted e.2))
    rw [List.map_map] at hClosed
    exact hClosed
  | .committed uid (.edge path) v => simp [Effect.notes]
  | .restored uid (.edge path) => simp [Effect.notes]
  | .saveParams uid => simp [Effect.notes]
  | .reverted uid param => simp [Effect.notes]

theorem Sound.emit (h : s.Sound) {e : Effect} (he : ∀ uid params, e ≠ .reported uid params) :
    (s.emit e).Sound := by
  refine ⟨h.indexed, h.keys, fun uid name v hv => ?_, h.known, h.down⟩
  rw [seen_emit s he]
  exact h.reports uid name v hv

/-- The parts of a system that the ledger does not see may differ. -/
theorem Sound.congr (h : s.Sound) (hUp : t.up = true) (hIndexed : JsMap.Indexed PendingChange.key t.pending)
    (hFile : t.file = s.file) (hNodes : t.nodes = s.nodes) (hTrace : t.trace = s.trace) :
    t.Sound := by
  have hNode : ∀ uid, t.node uid = s.node uid := fun uid => by rw [node, hNodes]; rfl
  refine ⟨hIndexed, fun cs hcs => h.keys cs (hFile ▸ hcs), fun uid name v hv => ?_,
    fun uid st hst => h.known uid st (hNode uid ▸ hst), fun hDown => ?_⟩
  · rw [deviceParam, hNode] at hv
    rw [notes, hTrace]
    exact h.reports uid name v hv
  · rw [hUp] at hDown
    cases hDown

theorem ledger_congr (hUp : t.up = s.up) (hPending : baselines t.pending = baselines s.pending)
    (hFile : t.file = s.file) (hTrace : t.trace = s.trace) : t.ledger cfg = s.ledger cfg := by
  unfold ledger recorded notes
  rw [hUp, hPending, hFile, hTrace]

/-! ## Saving -/

/-- The journal holds the device changes. -/
def written (cfg : Config) (s : System) : System :=
  { s with file := if cfg.dataDir then some (deviceChanges s.pending) else s.file }

theorem savePending_cases (cfg : Config) (s : System) (io : SaveIo) :
    savePending cfg s io = (s.written cfg, true) ∨
      (io = .unwritten ∧ savePending cfg s io = (s, false)) ∨
      (io = .unsynced ∧ savePending cfg s io = (s.written cfg, false)) := by
  unfold savePending written
  cases hDir : cfg.dataDir with
  | false => exact Or.inl (by simp)
  | true =>
    cases io with
    | ok => exact Or.inl (by simp)
    | unwritten => exact Or.inr (Or.inl (by simp))
    | unsynced => exact Or.inr (Or.inr (by simp))

theorem Sound.written (h : s.Sound) (cfg : Config) : (s.written cfg).Sound := by
  refine ⟨h.indexed, fun cs hcs => ?_, h.reports, h.known, h.down⟩
  change (if cfg.dataDir then some (deviceChanges s.pending) else s.file) = some cs at hcs
  split at hcs
  · cases hcs
    exact h.indexed.nodup_filter _
  · exact h.keys cs hcs

theorem recorded_written (cfg : Config) (h : JsMap.Indexed PendingChange.key s.pending) (rules : Rules Slot ℚ)
    (hDurable : rules.durable = cfg.dataDir) :
    (s.written cfg).recorded cfg = rules.write (baselines s.pending) (s.recorded cfg) := by
  unfold recorded System.written Rules.write
  rw [hDurable]
  cases cfg.dataDir with
  | false => rfl
  | true => exact journalled_deviceChanges h

end System

end TMEdge.Params
