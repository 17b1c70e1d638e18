import TMEdge.Library.Run
import TMEdge.Library.JsMap
import TMEdge.Library.JsText

/-!
# Site leadership and fenced writes

The statements of `src/infrastructure/postgres/site-leadership.ts` and of
`src/infrastructure/postgres/replay-store.ts` on the tables `site_leadership`,
`ingest_replay_cursors` and `ingest_command_cursor`. Each is atomic and reads one time
(`statement_timestamp()`), which never runs backwards.

* `origins_fenced`: what a run of the statements of any number of origins leaves.
-/

namespace TMEdge.Leadership

open Library

/-! ## The lease -/

/-- A row of `site_leadership`. -/
structure LeaseRow where
  originId : Text
  holderId : Text
  generation : Nat
  leaseUntil : ℚ
  deriving DecidableEq

structure SiteFence where
  siteId : Text
  originId : Text
  holderId : Text
  generation : Nat
  deriving DecidableEq

/-- The upsert of `start`: the row it leaves, or `none` where it leaves the one that is there. -/
def startRow (originId holderId : Text) (ttlMs now : ℚ) : Option LeaseRow → Option LeaseRow
  | none => some { originId, holderId, generation := 1, leaseUntil := now + ttlMs }
  | some current =>
    if current.leaseUntil ≤ now ∨ current.holderId = holderId then
      some { originId, holderId, leaseUntil := now + ttlMs
             generation :=
               if current.holderId = holderId ∧ now < current.leaseUntil then current.generation
               else current.generation + 1 }
    else none

/-- The row of a fence. -/
def SiteFence.Owns (f : SiteFence) (row : LeaseRow) : Prop :=
  row.originId = f.originId ∧ row.holderId = f.holderId ∧ row.generation = f.generation

instance (f : SiteFence) (row : LeaseRow) : Decidable (f.Owns row) :=
  inferInstanceAs (Decidable (_ ∧ _ ∧ _))

/-- The update of `renew`. -/
def renewRow (f : SiteFence) (ttlMs now : ℚ) : Option LeaseRow → Option LeaseRow
  | some row =>
    if f.Owns row ∧ now < row.leaseUntil then some { row with leaseUntil := now + ttlMs } else none
  | none => none

/-- The update of `stop`. -/
def stopRow (f : SiteFence) (now : ℚ) : Option LeaseRow → Option LeaseRow
  | some row => if f.Owns row then some { row with leaseUntil := now } else none
  | none => none

/-! ## The database -/

structure Cursor where
  boot : Nat
  seq : Nat
  deriving DecidableEq

/-- The cursor a write has to be above. -/
def Cursor.Below (a b : Cursor) : Prop := a.boot < b.boot ∨ b.boot = a.boot ∧ a.seq < b.seq

instance (a b : Cursor) : Decidable (a.Below b) := inferInstanceAs (Decidable (_ ∨ _))

structure Database where
  leadership : JsMap Text LeaseRow := .empty
  cursors : JsMap Text Cursor := .empty
  /-- `ingest_command_cursor`, which has one row at most -/
  command : Option Nat := none
  now : ℚ

/-- The row of `lease_guard`. -/
def Database.guard (db : Database) (f : SiteFence) : Bool :=
  (db.leadership.get f.siteId).any fun row => f.Owns row && db.now < row.leaseUntil

inductive Statement
  | start (siteId originId holderId : Text) (ttlMs : ℚ)
  | renew (f : SiteFence) (ttlMs : ℚ)
  | stop (f : SiteFence)
  | acceptAsync (f : SiteFence) (uid : Text) (cursor : Cursor) (commandSeq : Option Nat)
  | allocateCommandSeq (f : SiteFence) (floor : Nat)
  | resetAsync (f : SiteFence) (uid : Text)

inductive Answer
  /-- The row that `start`, `renew` or `stop` wrote. -/
  | lease (row : Option LeaseRow)
  | accepted (fenced accepted : Bool) (commandSequence : Nat)
  | allocated (fenced : Bool) (sequence : Option Nat)
  | reset (fenced reset : Bool)
  deriving DecidableEq

def Database.setLease (db : Database) (siteId : Text) : Option LeaseRow → Database
  | some row => { db with leadership := db.leadership.set siteId row }
  | none => db

/-- `cursor_write` has a row. -/
def Database.advances (db : Database) (uid : Text) (cursor : Cursor) : Bool :=
  (db.cursors.get uid).all fun current => current.Below cursor

/-- `command_write` of `acceptAsync` -/
def raised (command : Option Nat) (commandSeq : Option Nat) : Option Nat :=
  match commandSeq with
  | some seq => some (max (command.getD seq) seq)
  | none => command

/-- `command_write` of `allocateCommandSeq` -/
def allocated (command : Option Nat) (floor : Nat) : Nat :=
  match command with
  | some current => max floor (current + 1)
  | none => floor

def Database.exec (db : Database) : Statement → Database × Answer
  | .start siteId originId holderId ttlMs =>
    let row := startRow originId holderId ttlMs db.now (db.leadership.get siteId)
    (db.setLease siteId row, .lease row)
  | .renew f ttlMs =>
    let row := renewRow f ttlMs db.now (db.leadership.get f.siteId)
    (db.setLease f.siteId row, .lease row)
  | .stop f =>
    let row := stopRow f db.now (db.leadership.get f.siteId)
    (db.setLease f.siteId row, .lease row)
  | .acceptAsync f uid cursor commandSeq =>
    if db.guard f then
      if db.advances uid cursor then
        let command := raised db.command commandSeq
        ({ db with cursors := db.cursors.set uid cursor, command },
          .accepted true true (command.getD 0))
      else (db, .accepted true false (db.command.getD 0))
    else (db, .accepted false false (db.command.getD 0))
  | .allocateCommandSeq f floor =>
    if db.guard f then
      let sequence := allocated db.command floor
      ({ db with command := some sequence }, .allocated true (some sequence))
    else (db, .allocated false none)
  | .resetAsync f uid =>
    if db.guard f then
      ({ db with cursors := db.cursors.delete uid }, .reset true (db.cursors.has uid))
    else (db, .reset false false)

/-! ## The callers -/

inductive StoreError
  | fence
  | conflict
  | invalid
  deriving DecidableEq

def u32 (n : Nat) : Bool := n < 2 ^ 32

/-- What `acceptAsync` makes of the answer. -/
def acceptResult : Answer → Except StoreError Unit
  | .accepted fenced accepted commandSequence =>
    if !fenced then .error .fence
    else if !accepted then .error .conflict
    else if !u32 commandSequence then .error .invalid else .ok ()
  | _ => .error .fence

/-- What `allocateCommandSeq` makes of the answer. -/
def allocateResult : Answer → Except StoreError Nat
  | .allocated true (some sequence) => if u32 sequence then .ok sequence else .error .invalid
  | .allocated true none => .error .invalid
  | _ => .error .fence

/-- A statement comes to its turn at a time. -/
structure Issued where
  statement : Statement
  time : ℚ

/-- The time of a statement. -/
def Database.at_ (db : Database) (time : ℚ) : Database := { db with now := max db.now time }

def Database.step (db : Database) (ev : Issued) : Database :=
  ((db.at_ ev.time).exec ev.statement).1

def Database.answer (db : Database) (ev : Issued) : Answer :=
  ((db.at_ ev.time).exec ev.statement).2

/-! ## What a statement leaves -/

section step

variable {db : Database} {ev : Issued} {siteId uid : Text} {row row' : LeaseRow} {now : ℚ}

theorem Cursor.Below.trans {a b c : Cursor} (h : a.Below b) (h' : b.Below c) : a.Below c := by
  unfold Cursor.Below at *
  omega

/-- The fence of a write to the other two tables. -/
def Statement.fence : Statement → Option SiteFence
  | .acceptAsync f _ _ _ => some f
  | .allocateCommandSeq f _ => some f
  | .resetAsync f _ => some f
  | _ => none

/-- How a row of `site_leadership` may change at a time: the generation goes up with each holder
and when a lapsed lease is taken again. -/
def Follows (now : ℚ) (row row' : LeaseRow) : Prop :=
  row.generation ≤ row'.generation ∧
    (row'.holderId ≠ row.holderId ∨ row.leaseUntil ≤ now ∧ now < row'.leaseUntil →
      row.generation < row'.generation)

theorem Follows.refl (now : ℚ) (row : LeaseRow) : Follows now row row :=
  ⟨le_rfl, fun h => by
    rcases h with h | ⟨h, h'⟩
    · exact absurd rfl h
    · exact absurd h (not_le.mpr h')⟩

theorem follows_startRow {originId holderId : Text} {ttlMs : ℚ}
    (h : startRow originId holderId ttlMs now (some row) = some row') : Follows now row row' := by
  simp only [startRow] at h
  split at h
  · cases h
    by_cases hSame : row.holderId = holderId ∧ now < row.leaseUntil
    · refine ⟨by simp [hSame], fun hNew => ?_⟩
      rcases hNew with hNe | ⟨hLapsed, -⟩
      · exact absurd hSame.1.symm hNe
      · exact absurd hSame.2 (not_lt.mpr hLapsed)
    · simp [Follows, hSame]
  · cases h

theorem follows_renewRow {f : SiteFence} {ttlMs : ℚ}
    (h : renewRow f ttlMs now (some row) = some row') : Follows now row row' := by
  simp only [renewRow] at h
  split at h
  next hOwns =>
    cases h
    refine ⟨le_rfl, fun hNew => ?_⟩
    rcases hNew with hNe | ⟨hLapsed, -⟩
    · exact absurd rfl hNe
    · exact absurd hOwns.2 (not_lt.mpr hLapsed)
  next => cases h

theorem follows_stopRow {f : SiteFence} (h : stopRow f now (some row) = some row') :
    Follows now row row' := by
  simp only [stopRow] at h
  split at h
  next =>
    cases h
    refine ⟨le_rfl, fun hNew => ?_⟩
    rcases hNew with hNe | ⟨-, hLive⟩
    · exact absurd rfl hNe
    · exact absurd hLive (lt_irrefl now)
  next => cases h

theorem get_setLease (db : Database) (site : Text) (new : Option LeaseRow) :
    (db.setLease site new).leadership.get siteId =
      if siteId = site ∧ new.isSome = true then new else db.leadership.get siteId := by
  rcases new with - | r
  · simp [Database.setLease]
  · by_cases hSite : siteId = site
    · simp [Database.setLease, hSite]
    · simp [Database.setLease, hSite]

/-- A lease that is written follows the one that was there. -/
theorem follows_setLease {site : Text} {new : Option LeaseRow} {now : ℚ}
    (hNew : ∀ row row', db.leadership.get site = some row → new = some row' → Follows now row row')
    (hRow : db.leadership.get siteId = some row) :
    ∃ row', (db.setLease site new).leadership.get siteId = some row' ∧ Follows now row row' := by
  rw [get_setLease]
  split
  next hIf =>
    obtain ⟨rfl, hSome⟩ := hIf
    obtain ⟨row', hRow'⟩ := Option.isSome_iff_exists.mp hSome
    exact ⟨row', hRow', hNew row row' hRow hRow'⟩
  next => exact ⟨row, hRow, .refl now row⟩

theorem follows_step (hRow : db.leadership.get siteId = some row) :
    ∃ row', (db.step ev).leadership.get siteId = some row' ∧
      Follows (max db.now ev.time) row row' := by
  have hRow' : (db.at_ ev.time).leadership.get siteId = some row := hRow
  unfold Database.step
  cases ev.statement with
  | start site originId holderId ttlMs =>
    refine follows_setLease (fun row row' hGet h => ?_) hRow'
    rw [hGet] at h
    exact follows_startRow h
  | renew f ttlMs =>
    refine follows_setLease (fun row row' hGet h => ?_) hRow'
    rw [hGet] at h
    exact follows_renewRow h
  | stop f =>
    refine follows_setLease (fun row row' hGet h => ?_) hRow'
    rw [hGet] at h
    exact follows_stopRow h
  | acceptAsync f uid cursor commandSeq =>
    refine ⟨row, ?_, .refl _ row⟩
    simp only [Database.exec]
    split
    · split
      · exact hRow'
      · exact hRow'
    · exact hRow'
  | allocateCommandSeq f floor =>
    refine ⟨row, ?_, .refl _ row⟩
    simp only [Database.exec]
    split
    · exact hRow'
    · exact hRow'
  | resetAsync f uid =>
    refine ⟨row, ?_, .refl _ row⟩
    simp only [Database.exec]
    split
    · exact hRow'
    · exact hRow'

/-- The answer tells of a write to the other two tables. -/
def Answer.wrote : Answer → Bool
  | .accepted _ ok _ => ok
  | .allocated _ sequence => sequence.isSome
  | .reset fenced _ => fenced
  | .lease _ => false

/-- What a statement does to the other two tables. -/
inductive Executed (db : Database) (st : Statement) (db' : Database) (a : Answer) : Prop
  | quiet (hCursors : db'.cursors = db.cursors) (hCommand : db'.command = db.command)
      (hAnswer : a.wrote = false)
  | accept (f : SiteFence) (uid : Text) (cursor : Cursor) (commandSeq : Option Nat)
      (hStatement : st = .acceptAsync f uid cursor commandSeq) (hGuard : db.guard f = true)
      (hAdvances : db.advances uid cursor = true)
      (hCursors : db'.cursors = db.cursors.set uid cursor)
      (hCommand : db'.command = raised db.command commandSeq)
      (hAnswer : ∃ n, a = .accepted true true n)
  | allocate (f : SiteFence) (floor : Nat) (hStatement : st = .allocateCommandSeq f floor)
      (hGuard : db.guard f = true) (hCursors : db'.cursors = db.cursors)
      (hCommand : db'.command = some (allocated db.command floor))
      (hAnswer : a = .allocated true (some (allocated db.command floor)))
  | reset (f : SiteFence) (uid : Text) (hStatement : st = .resetAsync f uid)
      (hGuard : db.guard f = true) (hCursors : db'.cursors = db.cursors.delete uid)
      (hCommand : db'.command = db.command) (hAnswer : ∃ b, a = .reset true b)

theorem quiet_setLease (db : Database) (site : Text) (new : Option LeaseRow) :
    (db.setLease site new).cursors = db.cursors ∧ (db.setLease site new).command = db.command := by
  rcases new with - | r
  · exact ⟨rfl, rfl⟩
  · exact ⟨rfl, rfl⟩

theorem executed (db : Database) (st : Statement) :
    Executed db st (db.exec st).1 (db.exec st).2 := by
  cases st with
  | start site originId holderId ttlMs =>
    exact .quiet (quiet_setLease db _ _).1 (quiet_setLease db _ _).2 rfl
  | renew f ttlMs => exact .quiet (quiet_setLease db _ _).1 (quiet_setLease db _ _).2 rfl
  | stop f => exact .quiet (quiet_setLease db _ _).1 (quiet_setLease db _ _).2 rfl
  | acceptAsync f uid cursor commandSeq =>
    simp only [Database.exec]
    split
    next hGuard =>
      split
      next hAdvances =>
        exact .accept f uid cursor commandSeq rfl hGuard hAdvances rfl rfl ⟨_, rfl⟩
      next => exact .quiet rfl rfl rfl
    next => exact .quiet rfl rfl rfl
  | allocateCommandSeq f floor =>
    simp only [Database.exec]
    split
    next hGuard => exact .allocate f floor rfl hGuard rfl rfl rfl
    next => exact .quiet rfl rfl rfl
  | resetAsync f uid =>
    simp only [Database.exec]
    split
    next hGuard => exact .reset f uid rfl hGuard rfl rfl ⟨_, rfl⟩
    next => exact .quiet rfl rfl rfl

end step

/-! ## Runs -/

section runs

variable {db : Database} {ev : Issued} {es : List Issued} {siteId uid : Text} {row row' : LeaseRow}
  {cursor cursor' : Cursor} {n : Nat}

/-- The fence of a statement is that of the current lease, which has not run out. -/
def Issued.Fenced (ev : Issued) (db : Database) : Prop :=
  ∃ f, ev.statement.fence = some f ∧ ∃ row, db.leadership.get f.siteId = some row ∧ f.Owns row ∧
    max db.now ev.time < row.leaseUntil

/-- A cursor of a node is accepted. -/
def Issued.Accepts (ev : Issued) (db : Database) (uid : Text) (cursor : Cursor) : Prop :=
  ∃ f commandSeq n, ev.statement = .acceptAsync f uid cursor commandSeq ∧
    db.answer ev = .accepted true true n

/-- The cursor of a node is reset. -/
def Issued.Resets (ev : Issued) (db : Database) (uid : Text) : Prop :=
  ∃ f b, ev.statement = .resetAsync f uid ∧ db.answer ev = .reset true b

/-- The command sequences that are returned, in the order of the statements. -/
def returned : Database → List Issued → List Nat
  | _, [] => []
  | db, ev :: es =>
    match allocateResult (db.answer ev) with
    | .ok sequence => sequence :: returned (db.step ev) es
    | .error _ => returned (db.step ev) es

/-- What the statements of any origins leave, in any order. -/
structure OriginsFenced (db : Database) (es : List Issued) : Prop where
  generations : ∀ pre mid post, es = pre ++ mid ++ post → ∀ siteId row,
    (run Database.step db pre).leadership.get siteId = some row →
      ∃ row', (run Database.step db (pre ++ mid)).leadership.get siteId = some row' ∧
        row.generation ≤ row'.generation
  handover : ∀ pre ev post, es = pre ++ ev :: post → ∀ siteId row,
    (run Database.step db pre).leadership.get siteId = some row →
      ∃ row', (run Database.step db (pre ++ [ev])).leadership.get siteId = some row' ∧
        Follows (max (run Database.step db pre).now ev.time) row row'
  writes : ∀ pre ev post, es = pre ++ ev :: post →
    (run Database.step db (pre ++ [ev])).cursors ≠ (run Database.step db pre).cursors ∨
      (run Database.step db (pre ++ [ev])).command ≠ (run Database.step db pre).command ∨
        ((run Database.step db pre).answer ev).wrote = true →
    ev.Fenced (run Database.step db pre)
  cursors : ∀ pre ev mid ev' post, es = pre ++ ev :: (mid ++ ev' :: post) → ∀ uid cursor cursor',
    ev.Accepts (run Database.step db pre) uid cursor →
      ev'.Accepts (run Database.step db (pre ++ ev :: mid)) uid cursor' →
        (∀ mid₁ ev'' mid₂, mid = mid₁ ++ ev'' :: mid₂ →
          ¬ ev''.Resets (run Database.step db (pre ++ ev :: mid₁)) uid) →
          cursor.Below cursor'
  commands : (returned db es).Pairwise (· < ·)

theorem executed_step (db : Database) (ev : Issued) :
    Executed (db.at_ ev.time) ev.statement (db.step ev) (db.answer ev) :=
  executed (db.at_ ev.time) ev.statement

theorem generation_run (es : List Issued) (hRow : db.leadership.get siteId = some row) :
    ∃ row', (run Database.step db es).leadership.get siteId = some row' ∧
      row.generation ≤ row'.generation := by
  induction es generalizing db row with
  | nil => exact ⟨row, hRow, le_rfl⟩
  | cons ev es ih =>
    have hStep := @follows_step db ev _ row hRow
    obtain ⟨row', hRow', hFollows⟩ := hStep
    obtain ⟨row'', hRow'', hLe⟩ := ih hRow'
    exact ⟨row'', hRow'', hFollows.1.trans hLe⟩

theorem fenced_of_guard {f : SiteFence} (hFence : ev.statement.fence = some f)
    (hGuard : (db.at_ ev.time).guard f = true) : ev.Fenced db := by
  obtain ⟨row, hRow, hOwns⟩ := (Option.any_eq_true _ _).mp hGuard
  rw [Bool.and_eq_true, decide_eq_true_eq, decide_eq_true_eq] at hOwns
  exact ⟨f, hFence, row, hRow, hOwns⟩

theorem fenced_of_writes (h : (db.step ev).cursors ≠ db.cursors ∨
    (db.step ev).command ≠ db.command ∨ (db.answer ev).wrote = true) : ev.Fenced db := by
  cases executed_step db ev with
  | quiet hCursors hCommand hAnswer =>
    rcases h with h | h | h
    · exact absurd hCursors h
    · exact absurd hCommand h
    · exact absurd (hAnswer.symm.trans h) Bool.false_ne_true
  | accept f uid cursor commandSeq hStatement hGuard =>
    exact fenced_of_guard (by rw [hStatement]; rfl) hGuard
  | allocate f floor hStatement hGuard =>
    exact fenced_of_guard (by rw [hStatement]; rfl) hGuard
  | reset f uid hStatement hGuard => exact fenced_of_guard (by rw [hStatement]; rfl) hGuard

/-! ## Cursors -/

/-- The cursor of a node is at one it has accepted, or beyond it. -/
def Past (db : Database) (uid : Text) (cursor : Cursor) : Prop :=
  ∃ current, db.cursors.get uid = some current ∧ (cursor = current ∨ cursor.Below current)

theorem past_of_accepts (h : ev.Accepts db uid cursor) :
    Past (db.step ev) uid cursor ∧
      ∀ current, db.cursors.get uid = some current → current.Below cursor := by
  obtain ⟨f, commandSeq, n, hStatement, hAnswer⟩ := h
  cases executed_step db ev with
  | quiet hCursors hCommand hQuiet =>
    rw [hAnswer] at hQuiet
    cases hQuiet
  | accept f' uid' cursor' commandSeq' hStatement' hGuard hAdvances hCursors =>
    rw [hStatement] at hStatement'
    cases hStatement'
    refine ⟨⟨cursor, by rw [hCursors, JsMap.get_set, if_pos rfl], Or.inl rfl⟩, ?_⟩
    intro current hCurrent
    unfold Database.advances at hAdvances
    rw [show (db.at_ ev.time).cursors = db.cursors from rfl, hCurrent, Option.all_some,
      decide_eq_true_eq] at hAdvances
    exact hAdvances
  | allocate f' floor hStatement' =>
    rw [hStatement] at hStatement'
    cases hStatement'
  | reset f' uid' hStatement' =>
    rw [hStatement] at hStatement'
    cases hStatement'

theorem past_step (h : Past db uid cursor) (hKept : ¬ ev.Resets db uid) :
    Past (db.step ev) uid cursor := by
  obtain ⟨current, hCurrent, hPast⟩ := h
  cases executed_step db ev with
  | quiet hCursors => exact ⟨current, by rw [hCursors]; exact hCurrent, hPast⟩
  | accept f uid' cursor' commandSeq hStatement hGuard hAdvances hCursors =>
    by_cases hUid : uid = uid'
    · subst hUid
      refine ⟨cursor', by rw [hCursors, JsMap.get_set, if_pos rfl], Or.inr ?_⟩
      unfold Database.advances at hAdvances
      rw [show (db.at_ ev.time).cursors = db.cursors from rfl, hCurrent, Option.all_some,
        decide_eq_true_eq] at hAdvances
      rcases hPast with rfl | hPast
      · exact hAdvances
      · exact hPast.trans hAdvances
    · exact ⟨current, by rw [hCursors, JsMap.get_set, if_neg hUid]; exact hCurrent, hPast⟩
  | allocate f floor hStatement hGuard hCursors =>
    exact ⟨current, by rw [hCursors]; exact hCurrent, hPast⟩
  | reset f uid' hStatement hGuard hCursors hCommand hAnswer =>
    have hUid : uid ≠ uid' := by
      rintro rfl
      obtain ⟨b, hAnswer⟩ := hAnswer
      exact hKept ⟨f, b, hStatement, hAnswer⟩
    exact ⟨current, by rw [hCursors, JsMap.get_delete, if_neg hUid]; exact hCurrent, hPast⟩

theorem past_run (h : Past db uid cursor)
    (hKept : ∀ pre ev post, es = pre ++ ev :: post → ¬ ev.Resets (run Database.step db pre) uid) :
    Past (run Database.step db es) uid cursor := by
  induction es generalizing db with
  | nil => exact h
  | cons ev es ih =>
    refine ih (past_step h (hKept [] ev es rfl)) fun pre ev' post hSplit => ?_
    exact hKept (ev :: pre) ev' post (by rw [hSplit]; rfl)

theorem below_of_past (h : Past db uid cursor) (hAccepts : ev.Accepts db uid cursor') :
    cursor.Below cursor' := by
  obtain ⟨current, hCurrent, hPast⟩ := h
  have hBelow := (past_of_accepts hAccepts).2 current hCurrent
  rcases hPast with rfl | hPast
  · exact hBelow
  · exact hPast.trans hBelow

/-! ## Command sequences -/

/-- The command cursor is at a number or beyond it. -/
def AtLeast (db : Database) (n : Nat) : Prop := ∃ c, db.command = some c ∧ n ≤ c

theorem atLeast_step (h : AtLeast db n) (ev : Issued) : AtLeast (db.step ev) n := by
  obtain ⟨c, hc, hLe⟩ := h
  cases executed_step db ev with
  | quiet hCursors hCommand => exact ⟨c, hCommand.trans hc, hLe⟩
  | accept f uid cursor commandSeq hStatement hGuard hAdvances hCursors hCommand =>
    rw [show (db.at_ ev.time).command = db.command from rfl, hc] at hCommand
    rcases commandSeq with - | seq
    · exact ⟨c, hCommand, hLe⟩
    · exact ⟨_, hCommand, hLe.trans (le_max_left _ _)⟩
  | allocate f floor hStatement hGuard hCursors hCommand =>
    rw [show (db.at_ ev.time).command = db.command from rfl, hc] at hCommand
    exact ⟨_, hCommand, hLe.trans ((Nat.le_succ c).trans (le_max_right _ _))⟩
  | reset f uid hStatement hGuard hCursors hCommand => exact ⟨c, hCommand.trans hc, hLe⟩

/-- A sequence that is returned is the new command cursor, and above the old one. -/
theorem atLeast_of_result (h : allocateResult (db.answer ev) = .ok n) :
    AtLeast (db.step ev) n ∧ ∀ m, AtLeast db m → m < n := by
  have hAnswer : db.answer ev = .allocated true (some n) := by
    unfold allocateResult at h
    split at h
    next hEq =>
      split at h
      · cases h
        exact hEq
      · cases h
    next => cases h
    next => cases h
  cases executed_step db ev with
  | quiet hCursors hCommand hQuiet =>
    rw [hAnswer] at hQuiet
    cases hQuiet
  | accept f uid cursor commandSeq hStatement hGuard hAdvances hCursors hCommand hAccepted =>
    obtain ⟨k, hAccepted⟩ := hAccepted
    rw [hAnswer] at hAccepted
    cases hAccepted
  | allocate f floor hStatement hGuard hCursors hCommand hAllocated =>
    rw [hAnswer, Answer.allocated.injEq, Option.some.injEq] at hAllocated
    refine ⟨⟨_, hCommand, hAllocated.2.le⟩, ?_⟩
    rintro m ⟨c, hc, hLe⟩
    rw [hAllocated.2, show (db.at_ ev.time).command = db.command from rfl, hc]
    exact (Nat.lt_succ_of_le hLe).trans_le (le_max_right _ _)
  | reset f uid hStatement hGuard hCursors hCommand hReset =>
    obtain ⟨b, hReset⟩ := hReset
    rw [hAnswer] at hReset
    cases hReset

theorem returned_above (h : AtLeast db n) : ∀ m ∈ returned db es, n < m := by
  induction es generalizing db with
  | nil => simp [returned]
  | cons ev es ih =>
    intro m hm
    unfold returned at hm
    split at hm
    next sequence hResult =>
      rcases List.mem_cons.mp hm with rfl | hm
      · exact (atLeast_of_result hResult).2 n h
      · exact ih (atLeast_step h ev) m hm
    next => exact ih (atLeast_step h ev) m hm

theorem returned_increasing (db : Database) (es : List Issued) :
    (returned db es).Pairwise (· < ·) := by
  induction es generalizing db with
  | nil => exact .nil
  | cons ev es ih =>
    unfold returned
    split
    next sequence hResult =>
      exact List.pairwise_cons.mpr ⟨returned_above (atLeast_of_result hResult).1, ih _⟩
    next => exact ih _

/-- Writes are fenced, and nothing runs backwards, whatever fences the origins hold when they issue
their statements. -/
theorem origins_fenced (db : Database) (es : List Issued) : OriginsFenced db es where
  generations pre mid post _ siteId row hRow := by
    rw [run_append]
    exact generation_run mid hRow
  handover pre ev post _ siteId row hRow := by
    rw [run_concat]
    exact follows_step hRow
  writes pre ev post _ h := by
    rw [run_concat] at h
    exact fenced_of_writes h
  cursors pre ev mid ev' post _ uid cursor cursor' hAccepts hAccepts' hKept := by
    have hPast := (past_of_accepts hAccepts).1
    rw [run_append, run_cons] at hAccepts'
    refine below_of_past (past_run hPast fun mid₁ ev'' mid₂ hSplit hResets => ?_) hAccepts'
    refine hKept mid₁ ev'' mid₂ hSplit ?_
    rw [run_append, run_cons]
    exact hResets
  commands := returned_increasing db es

end runs

end TMEdge.Leadership
