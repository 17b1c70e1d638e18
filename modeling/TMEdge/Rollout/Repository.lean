import TMEdge.Rollout.Model

/-!
# `PostgresRolloutRepository`

`src/infrastructure/postgres/rollout-repository.ts` over the tables of the migration
`1791072000000-CreateFirmwareRolloutPersistence`. `Tables` carries the constraints of the
migration, among them the unique index that admits one row in `pilot` or `rest`; a
statement that would break one fails, and with it its transaction (`none`).

The table of node events is written and never read, and its checks are those of the node
table, so it is left out. Text is ordered by the collation of the database, a parameter.

* `one_active`: an active row is the only one.
* `interruptActive_ended`: after `interruptActive` no row is in `pilot` or `rest`.
* `saveSnapshot_ended`: saving ended rollouts into ended rows leaves all rows ended.
-/

namespace TMEdge.Rollout

open Library List

/-! ## Tables -/

structure RolloutRow where
  id : String
  buildId : String
  version : String
  target : RolloutTarget
  startedBy : String
  startedAt : Nat
  finishedAt : Option Nat
  stage : Stage
  interrupted : Bool
  note : String
deriving DecidableEq

structure NodeRow where
  rolloutId : String
  node : NodeUpdate
deriving DecidableEq

/-- `length(btrim(s)) = 0` -/
def blank (s : String) : Bool := s.toList.all (· = ' ')

/-- The checks of a row of `firmware_rollouts`. -/
structure RolloutRow.Ok (r : RolloutRow) : Prop where
  id : blank r.id = false
  build_id : blank r.buildId = false
  started_by : blank r.startedBy = false
  finish_time : ∀ t ∈ r.finishedAt, r.startedAt ≤ t
  stage_time : r.stage.ended = r.finishedAt.isSome
  recovery_stopped : r.interrupted = true → r.stage = .stopped

instance (r : RolloutRow) : Decidable r.Ok :=
  decidable_of_iff
    (blank r.id = false ∧ blank r.buildId = false ∧ blank r.startedBy = false ∧
      (∀ t ∈ r.finishedAt, r.startedAt ≤ t) ∧ r.stage.ended = r.finishedAt.isSome ∧
      (r.interrupted = true → r.stage = .stopped))
    ⟨fun h => ⟨h.1, h.2.1, h.2.2.1, h.2.2.2.1, h.2.2.2.2.1, h.2.2.2.2.2⟩,
      fun h => ⟨h.id, h.build_id, h.started_by, h.finish_time, h.stage_time, h.recovery_stopped⟩⟩

structure Constraints (rollouts : List RolloutRow) (nodes : List NodeRow) : Prop where
  rollouts_pkey : (rollouts.map RolloutRow.id).Nodup
  rollouts_ok : ∀ r ∈ rollouts, r.Ok
  one_active_uq : (rollouts.filter fun r => !r.stage.ended).length ≤ 1
  nodes_pkey : (nodes.map fun n => (n.rolloutId, n.node.uid)).Nodup
  nodes_ok : ∀ n ∈ nodes, n.node.percent ≤ 100
  nodes_fkey : ∀ n ∈ nodes, n.rolloutId ∈ rollouts.map RolloutRow.id

instance (rollouts : List RolloutRow) (nodes : List NodeRow) :
    Decidable (Constraints rollouts nodes) :=
  decidable_of_iff
    ((rollouts.map RolloutRow.id).Nodup ∧ (∀ r ∈ rollouts, r.Ok) ∧
      (rollouts.filter fun r => !r.stage.ended).length ≤ 1 ∧
      (nodes.map fun n => (n.rolloutId, n.node.uid)).Nodup ∧
      (∀ n ∈ nodes, n.node.percent ≤ 100) ∧
      ∀ n ∈ nodes, n.rolloutId ∈ rollouts.map RolloutRow.id)
    ⟨fun h => ⟨h.1, h.2.1, h.2.2.1, h.2.2.2.1, h.2.2.2.2.1, h.2.2.2.2.2⟩,
      fun h => ⟨h.rollouts_pkey, h.rollouts_ok, h.one_active_uq, h.nodes_pkey, h.nodes_ok,
        h.nodes_fkey⟩⟩

structure Tables where
  rollouts : List RolloutRow
  nodes : List NodeRow
  ok : Constraints rollouts nodes

namespace Tables

def empty : Tables := ⟨[], [], by constructor <;> simp⟩

/-- The outcome of a statement. -/
def statement (rollouts : List RolloutRow) (nodes : List NodeRow) : Option Tables :=
  if h : Constraints rollouts nodes then some ⟨rollouts, nodes, h⟩ else none

/-! ## Reading -/

section reading

variable (collate : String → String → Bool)

def toView (row : RolloutRow) (nodes : List NodeUpdate) : RolloutView where
  id := row.id
  buildId := row.buildId
  version := row.version
  target := row.target
  startedBy := row.startedBy
  startedAt := row.startedAt
  finishedAt := row.finishedAt
  stage := row.stage
  interrupted := row.interrupted
  note := row.note
  nodes := nodes

def getRollout (t : Tables) (id : String) : Option RolloutView :=
  (t.rollouts.find? fun r => r.id = id).map fun row =>
    toView row (((t.nodes.filter fun n => n.rolloutId = id).map NodeRow.node).insertionSort
      fun a b => collate a.uid b.uid = true)

/-- `stage IN ('pilot', 'rest') ORDER BY started_at DESC LIMIT 1` -/
def activeRow (t : Tables) : Option RolloutRow :=
  ((t.rollouts.filter fun r => !r.stage.ended).insertionSort
    fun a b => b.startedAt ≤ a.startedAt).head?

def current (t : Tables) : Option RolloutView :=
  t.activeRow.bind fun row => t.getRollout collate row.id

def history (t : Tables) : List RolloutView :=
  (((t.rollouts.filter fun r => r.stage.ended).insertionSort fun a b =>
    b.startedAt < a.startedAt ∨ (b.startedAt = a.startedAt ∧ collate a.id b.id = true)).take
      20).filterMap fun row => t.getRollout collate row.id

end reading

/-! ## Writing -/

def toRow (r : RolloutView) : RolloutRow where
  id := r.id
  buildId := r.buildId
  version := r.version
  target := r.target
  startedBy := r.startedBy
  startedAt := r.startedAt
  finishedAt := r.finishedAt
  stage := r.stage
  interrupted := r.interrupted
  note := r.note

/-- `INSERT … ON CONFLICT (id) DO UPDATE` -/
def upsertRow (rows : List RolloutRow) (row : RolloutRow) : List RolloutRow :=
  if row.id ∈ rows.map RolloutRow.id then rows.map fun r => if r.id = row.id then row else r
  else rows ++ [row]

def insertNode (id : String) (t : Tables) (n : NodeUpdate) : Option Tables :=
  statement t.rollouts (t.nodes ++ [⟨id, n⟩])

def saveRollout (t : Tables) (r : RolloutView) : Option Tables := do
  let t ← statement (upsertRow t.rollouts (toRow r)) t.nodes
  let t ← statement t.rollouts (t.nodes.filter fun n => n.rolloutId ≠ r.id)
  r.nodes.foldlM (insertNode r.id) t

/-- The rollouts of a snapshot by id, the current one last to be set. -/
def snapshotById (current : Option RolloutView) (history : List RolloutView) :
    JsMap String RolloutView :=
  (history ++ current.toList).foldl (fun m r => m.set r.id r) .empty

def saveSnapshot (t : Tables) (current : Option RolloutView) (history : List RolloutView) :
    Option Tables :=
  (snapshotById current history).values.foldlM saveRollout t

def interruptedNote (note : String) : String :=
  if "Interrupted after restart:".toList.isPrefixOf note.toList then note
  else "Interrupted after restart: explicit operator action required. " ++ note

def interruptRow (now : Nat) (r : RolloutRow) : RolloutRow :=
  { r with
    stage := .stopped
    interrupted := true
    finishedAt := some now
    note := interruptedNote r.note }

def inFlightState : NodeUpdateState → Bool
  | .sending | .downloading | .verifying | .applying | .rebooting => true
  | _ => false

def interruptNode (now : Nat) (n : NodeUpdate) : NodeUpdate :=
  if inFlightState n.state && !n.outcomeUncertain then
    { n with
      outcomeUncertain := true
      error := some (n.error.getD "dispatch or confirmation outcome uncertain after restart")
      updatedAt := now }
  else n

def interruptActive (collate : String → String → Bool) (t : Tables) (now : Nat) :
    Option (Tables × Option RolloutView) :=
  match t.activeRow with
  | none => some (t, none)
  | some row => do
    let t ← statement
      (t.rollouts.map fun r => if r.id = row.id then interruptRow now r else r) t.nodes
    let t ← statement t.rollouts (t.nodes.map fun n =>
      if n.rolloutId = row.id then { n with node := interruptNode now n.node } else n)
    some (t, t.getRollout collate row.id)

/-! ## Ended rows -/

/-- No row is in `pilot` or `rest`. -/
def AllEnded (t : Tables) : Prop := ∀ r ∈ t.rollouts, r.stage.ended = true

variable {t t' : Tables} {collate : String → String → Bool} {row : RolloutRow} {r : RolloutView}
  {now : Nat}

theorem statement_eq_some {rollouts : List RolloutRow} {nodes : List NodeRow}
    (h : statement rollouts nodes = some t) : t.rollouts = rollouts ∧ t.nodes = nodes := by
  unfold statement at h
  split at h
  · cases h
    exact ⟨rfl, rfl⟩
  · cases h

theorem statement_of_ok {rollouts : List RolloutRow} {nodes : List NodeRow}
    (h : Constraints rollouts nodes) : statement rollouts nodes = some ⟨rollouts, nodes, h⟩ :=
  dif_pos h

theorem mem_activeRows {l : List RolloutRow} {row : RolloutRow} :
    row ∈ (l.filter fun r => !r.stage.ended).insertionSort (fun a b => b.startedAt ≤ a.startedAt) ↔
      row ∈ l ∧ row.stage.ended = false := by
  rw [mem_insertionSort, mem_filter, Bool.not_eq_true']

theorem activeRow_eq_none : t.activeRow = none ↔ t.AllEnded := by
  rw [activeRow, head?_eq_none_iff, eq_nil_iff_forall_not_mem]
  constructor
  · intro h r hr
    by_contra hOpen
    exact h r (mem_activeRows.mpr ⟨hr, by simpa using hOpen⟩)
  · intro h r hr
    obtain ⟨hMem, hOpen⟩ := mem_activeRows.mp hr
    simp [h r hMem] at hOpen

/-- The active row is the only one. -/
theorem activeRow_eq_some (h : t.activeRow = some row) :
    row ∈ t.rollouts ∧ row.stage.ended = false ∧
      ∀ r ∈ t.rollouts, r.stage.ended = false → r = row := by
  obtain ⟨hMem, hOpen⟩ := mem_activeRows.mp (mem_of_mem_head? h)
  refine ⟨hMem, hOpen, fun r hr hrOpen => ?_⟩
  have hr' : r ∈ t.rollouts.filter fun r => !r.stage.ended := by simp [hr, hrOpen]
  have hrow' : row ∈ t.rollouts.filter fun r => !r.stage.ended := by simp [hMem, hOpen]
  have hOne := t.ok.one_active_uq
  generalize t.rollouts.filter (fun r => !r.stage.ended) = l at *
  match l, hOne with
  | [x], _ => rw [mem_singleton.mp hr', mem_singleton.mp hrow']

theorem getRollout_ended (h : t.AllEnded) {id : String} (hr : t.getRollout collate id = some r) :
    r.stage.ended = true := by
  obtain ⟨row, hRow, rfl⟩ := Option.map_eq_some_iff.mp hr
  exact h row (mem_of_find?_eq_some hRow)

theorem current_eq_none (h : t.AllEnded) : t.current collate = none := by
  rw [current, activeRow_eq_none.mpr h, Option.bind_none]

theorem history_ended (h : t.AllEnded) (hr : r ∈ t.history collate) : r.stage.ended = true := by
  obtain ⟨row, _, hRow⟩ := mem_filterMap.mp hr
  exact getRollout_ended h hRow

/-! ## Interrupting and saving -/

/-- After `interruptActive` no row is in `pilot` or `rest`. -/
theorem interruptActive_ended {r : Option RolloutView}
    (h : t.interruptActive collate now = some (t', r)) :
    t'.AllEnded ∧ ∀ v ∈ r, v.stage.ended = true := by
  unfold interruptActive at h
  split at h
  · rename_i hNone
    cases h
    exact ⟨activeRow_eq_none.mp hNone, by simp⟩
  · rename_i row hRow
    obtain ⟨_, _, hOnly⟩ := activeRow_eq_some hRow
    obtain ⟨t₁, h₁, h⟩ := Option.bind_eq_some_iff.mp h
    obtain ⟨t₂, h₂, h⟩ := Option.bind_eq_some_iff.mp h
    obtain ⟨rfl, rfl⟩ := Prod.mk.inj (Option.some.inj h)
    have hRows := (statement_eq_some h₂).1.trans (statement_eq_some h₁).1
    have hEnded : t₂.AllEnded := by
      intro r hr
      rw [hRows] at hr
      obtain ⟨r₀, hr₀, rfl⟩ := mem_map.mp hr
      split
      · rfl
      · rename_i hId
        by_contra hOpen
        exact hId (congrArg RolloutRow.id (hOnly r₀ hr₀ (by simpa using hOpen)))
    exact ⟨hEnded, fun v hv => getRollout_ended hEnded hv⟩

theorem interruptRow_ok (h : row.Ok) (hNow : row.startedAt ≤ now) :
    (interruptRow now row).Ok where
  id := h.id
  build_id := h.build_id
  started_by := h.started_by
  finish_time := by
    intro t ht
    obtain rfl : now = t := by simpa [interruptRow] using ht
    exact hNow
  stage_time := rfl
  recovery_stopped := fun _ => rfl

theorem interruptNode_key {n : NodeUpdate} :
    (interruptNode now n).uid = n.uid ∧ (interruptNode now n).percent = n.percent := by
  unfold interruptNode
  split <;> exact ⟨rfl, rfl⟩

/-- `interruptActive` succeeds when the clock is not behind the start of the active rollout. -/
theorem interruptActive_isSome (collate : String → String → Bool)
    (hNow : ∀ r ∈ t.rollouts, r.stage.ended = false → r.startedAt ≤ now) :
    ∃ t' r, t.interruptActive collate now = some (t', r) := by
  unfold interruptActive
  split
  · exact ⟨t, none, rfl⟩
  · rename_i row hRow
    obtain ⟨hMem, hOpen, hOnly⟩ := activeRow_eq_some hRow
    have hOk := t.ok
    generalize hf : (fun r : RolloutRow => if r.id = row.id then interruptRow now r else r) = f
    have hId : ∀ r, (f r).id = r.id := by
      intro r
      rw [← hf]
      dsimp only
      split <;> rfl
    have hIds : (t.rollouts.map f).map RolloutRow.id = t.rollouts.map RolloutRow.id := by
      rw [map_map]
      exact map_congr_left fun r _ => hId r
    have hUpdated : Constraints (t.rollouts.map f) t.nodes := by
      refine ⟨hIds ▸ hOk.rollouts_pkey, ?_, ?_, hOk.nodes_pkey, hOk.nodes_ok, ?_⟩
      · intro r hr
        obtain ⟨r₀, hr₀, rfl⟩ := mem_map.mp hr
        rw [← hf]
        dsimp only
        split
        · rename_i hEq
          obtain rfl : r₀ = row := inj_on_of_nodup_map hOk.rollouts_pkey hr₀ hMem hEq
          exact interruptRow_ok (hOk.rollouts_ok _ hr₀) (hNow _ hr₀ hOpen)
        · exact hOk.rollouts_ok _ hr₀
      · have hNone : (t.rollouts.map f).filter (fun r => !r.stage.ended) = [] := by
          refine filter_eq_nil_iff.mpr fun r hr => ?_
          obtain ⟨r₀, hr₀, rfl⟩ := mem_map.mp hr
          rw [← hf]
          dsimp only
          split
          · simp [interruptRow, Stage.ended]
          · rename_i hNe
            intro hStill
            exact hNe (congrArg RolloutRow.id (hOnly r₀ hr₀ (by simpa using hStill)))
        simp [hNone]
      · rw [hIds]
        exact hOk.nodes_fkey
    generalize hg : (fun n : NodeRow =>
      if n.rolloutId = row.id then { n with node := interruptNode now n.node } else n) = g
    have hKey : ∀ n, (g n).rolloutId = n.rolloutId ∧ (g n).node.uid = n.node.uid ∧
        (g n).node.percent = n.node.percent := by
      intro n
      rw [← hg]
      dsimp only
      split
      · exact ⟨rfl, interruptNode_key⟩
      · exact ⟨rfl, rfl, rfl⟩
    have hNodes : Constraints (t.rollouts.map f) (t.nodes.map g) := by
      refine ⟨hUpdated.rollouts_pkey, hUpdated.rollouts_ok, hUpdated.one_active_uq, ?_, ?_, ?_⟩
      · have hKeys : (t.nodes.map g).map (fun n => (n.rolloutId, n.node.uid)) =
            t.nodes.map fun n => (n.rolloutId, n.node.uid) := by
          rw [map_map]
          refine map_congr_left fun n _ => ?_
          simp [hKey n]
        rw [hKeys]
        exact hOk.nodes_pkey
      · intro n hn
        obtain ⟨n₀, hn₀, rfl⟩ := mem_map.mp hn
        rw [(hKey n₀).2.2]
        exact hOk.nodes_ok _ hn₀
      · intro n hn
        obtain ⟨n₀, hn₀, rfl⟩ := mem_map.mp hn
        rw [(hKey n₀).1]
        exact hUpdated.nodes_fkey _ hn₀
    refine ⟨⟨_, _, hNodes⟩, getRollout collate ⟨_, _, hNodes⟩ row.id, ?_⟩
    simp only [statement_of_ok hUpdated, statement_of_ok hNodes, Option.bind_eq_bind,
      Option.bind_some]

theorem mem_upsertRow {rows : List RolloutRow} {r : RolloutRow} (h : r ∈ upsertRow rows row) :
    r ∈ rows ∨ r = row := by
  unfold upsertRow at h
  split at h
  · obtain ⟨r₀, hr₀, rfl⟩ := mem_map.mp h
    split
    · exact Or.inr rfl
    · exact Or.inl hr₀
  · simpa using h

theorem rollouts_insertNodes {id : String} {nodes : List NodeUpdate}
    (h : nodes.foldlM (insertNode id) t = some t') : t'.rollouts = t.rollouts := by
  induction nodes generalizing t with
  | nil =>
    cases h
    rfl
  | cons n nodes ih =>
    obtain ⟨t₁, h₁, h⟩ := Option.bind_eq_some_iff.mp h
    rw [ih h, (statement_eq_some h₁).1]

theorem rollouts_saveRollout (h : t.saveRollout r = some t') :
    t'.rollouts = upsertRow t.rollouts (toRow r) := by
  obtain ⟨t₁, h₁, h⟩ := Option.bind_eq_some_iff.mp h
  obtain ⟨t₂, h₂, h⟩ := Option.bind_eq_some_iff.mp h
  rw [rollouts_insertNodes h, (statement_eq_some h₂).1, (statement_eq_some h₁).1]

theorem saveRollouts_ended {rs : List RolloutView} (hEnded : t.AllEnded)
    (hrs : ∀ r ∈ rs, r.stage.ended = true) (h : rs.foldlM saveRollout t = some t') :
    t'.AllEnded := by
  induction rs generalizing t with
  | nil =>
    cases h
    exact hEnded
  | cons r rs ih =>
    obtain ⟨t₁, h₁, h⟩ := Option.bind_eq_some_iff.mp h
    refine ih (fun row hRow => ?_) (fun r' hr' => hrs r' (mem_cons_of_mem _ hr')) h
    rw [rollouts_saveRollout h₁] at hRow
    rcases mem_upsertRow hRow with hRow | rfl
    · exact hEnded row hRow
    · exact hrs r (by simp)

theorem mem_values_setAll {rs : List RolloutView} {m : JsMap String RolloutView}
    (h : r ∈ (rs.foldl (fun m r => m.set r.id r) m).values) : r ∈ rs ∨ r ∈ m.values := by
  induction rs generalizing m with
  | nil => exact Or.inr h
  | cons r₀ rs ih =>
    rcases ih h with h | h
    · exact Or.inl (mem_cons_of_mem r₀ h)
    · rcases JsMap.mem_values_set h with rfl | h
      · exact Or.inl (by simp)
      · exact Or.inr h

/-- Saving ended rollouts leaves all rows ended. -/
theorem saveSnapshot_ended {current : Option RolloutView} {history : List RolloutView}
    (hEnded : t.AllEnded) (hCurrent : ∀ r ∈ current, r.stage.ended = true)
    (hHistory : ∀ r ∈ history, r.stage.ended = true)
    (h : t.saveSnapshot current history = some t') : t'.AllEnded := by
  refine saveRollouts_ended hEnded (fun r hr => ?_) h
  rcases mem_values_setAll hr with hr | hr
  · rcases mem_append.mp hr with hr | hr
    · exact hHistory r hr
    · exact hCurrent r (by simpa using hr)
  · cases hr

end Tables

end TMEdge.Rollout
