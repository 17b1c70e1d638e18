import TMEdge.Library.Calendar
import TMEdge.Library.JsMap

/-!
# Finished buckets on disk

`src/infrastructure/analytics/bucket-log.ts` with a directory: JSON lines in one file for each day or
month, and small state files. A line that is appended waits in a queue until it lands in its file.
That a file cannot be read or written is left out.

* `mem_load`: where every line is in the file of its own time, `load` gives the lines of a series from
  `since` on.
* `held_prune`: `prune` takes no line at or after its bound.
-/

namespace TMEdge.Analytics

open Library List JsMap

/-! ## Objects -/

def indexValue (key : Text) : Nat := key.foldl (fun n c => 10 * n + (c.toNat - 48)) 0

/-- The decimal of a number below 2^32 - 1. -/
def isArrayIndex (key : Text) : Bool :=
  key.all (fun c => 48 ≤ c && c ≤ 57) && (key.length = 1 || key.head?.any (49 ≤ ·)) &&
    indexValue key < 4294967295

/-- The own properties of an object: array indices first, in their order, then the others. -/
def ownOrder {ν : Type} (es : List (Text × ν)) : List (Text × ν) :=
  ((es.filter fun e => isArrayIndex e.1).mergeSort fun a b => indexValue a.1 ≤ indexValue b.1) ++
    es.filter fun e => !isArrayIndex e.1

theorem ownOrder_perm {ν : Type} (es : List (Text × ν)) : (ownOrder es).Perm es :=
  ((mergeSort_perm _ _).append_right _).trans (filter_append_perm _ es)

/-- `Object.fromEntries` -/
def fromEntries {ν : Type} (m : JsMap Text ν) : JsMap Text ν :=
  ⟨ownOrder m.entries, ((ownOrder_perm m.entries).map Prod.fst).nodup_iff.mpr m.nodup⟩

@[simp] theorem get_fromEntries {ν : Type} (m : JsMap Text ν) (k : Text) :
    (fromEntries m).get k = m.get k := by
  ext v
  rw [get_eq_some_iff, get_eq_some_iff]
  exact (ownOrder_perm m.entries).mem_iff

/-! ## The log -/

inductive LogPeriod
  | day
  | month

structure BucketLine (α : Type) where
  t : Int
  v : α

variable {α σ : Type} {a b : Int}

/-- The files of lines and the state files by name, and the lines that have not landed. -/
structure BucketLog (α σ : Type) where
  files : JsMap Text (List (BucketLine α)) := .empty
  states : JsMap Text σ := .empty
  queue : List (Text × BucketLine α) := []

/-- The part of the ISO time that a file is named by. -/
def stampOf (period : LogPeriod) (time : Int) : Text :=
  match period with
  | .day => (dayText (dayOf time)).take 10
  | .month => (dayText (dayOf time)).take 7

namespace BucketLog

def file (name : Text) (period : LogPeriod) (time : Int) : Text :=
  name ++ js "-" ++ stampOf period time ++ js ".jsonl"

def isLines (name entry : Text) : Bool :=
  (name ++ js "-").isPrefixOf entry && (js ".jsonl").isSuffixOf entry

def append (log : BucketLog α σ) (name : Text) (period : LogPeriod) (line : BucketLine α) :
    BucketLog α σ :=
  { log with queue := log.queue ++ [(file name period line.t, line)] }

def linesOf (log : BucketLog α σ) (entry : Text) : List (BucketLine α) :=
  (log.files.get entry).getD []

/-- What `load` takes from one file. -/
def loadEntry (log : BucketLog α σ) (name : Text) (since : Int) (entry : Text) :
    List (BucketLine α) :=
  if !isLines name entry then []
  else
    let stamp := (entry.take (entry.length - 6)).drop (name.length + 1)
    if stamp < (dayText (dayOf since)).take stamp.length then []
    else (log.linesOf entry).filter fun line => since ≤ line.t

def load (log : BucketLog α σ) (name : Text) (since : Int) : List (BucketLine α) :=
  ((log.files.keys.mergeSort fun a b => !decide (b < a)).flatMap
    (log.loadEntry name since)).mergeSort fun a b => a.t ≤ b.t

def prune (log : BucketLog α σ) (name : Text) (period : LogPeriod) (before : Int) :
    BucketLog α σ :=
  let keepFrom := file name period before
  { log with
    files := log.files.filterKeys fun entry =>
      !isLines name entry || entry.length ≠ keepFrom.length || !decide (entry < keepFrom) }

def stateFile (name : Text) : Text := name ++ js ".state.json"

def takeState (log : BucketLog α σ) (name : Text) : Option σ × BucketLog α σ :=
  (log.states.get (stateFile name), { log with states := log.states.delete (stateFile name) })

def writeState (log : BucketLog α σ) (name : Text) (value : σ) : BucketLog α σ :=
  { log with states := log.states.set (stateFile name) value }

/-- The first line that waits is written. -/
def land (log : BucketLog α σ) : BucketLog α σ :=
  match log.queue with
  | [] => log
  | (entry, line) :: rest =>
    { log with files := log.files.set entry (log.linesOf entry ++ [line]), queue := rest }

/-- `flush`: every line that waits is written. -/
def flush (log : BucketLog α σ) : BucketLog α σ :=
  land^[log.queue.length] log

end BucketLog

/-! ## Stamps -/

/-- A time whose year has four digits. -/
def Dated (time : Int) : Prop :=
  0 ≤ (dateOf (dayOf time)).year ∧ (dateOf (dayOf time)).year ≤ 9999

theorem length_dayText {n : Int} (h : 0 ≤ (dateOf n).year ∧ (dateOf n).year ≤ 9999) :
    (dayText n).length = 10 := by
  rw [dayText_eq h]
  simp only [length_append, length_padded]
  rfl

theorem dated_between {time : Int} (ha : Dated a) (hb : Dated b) (hLe : a ≤ time)
    (hLe' : time ≤ b) : Dated time := by
  have hYear := @year_le (dayOf a) (dayOf time) (by unfold dayOf; omega)
  have hYear' := @year_le (dayOf time) (dayOf b) (by unfold dayOf; omega)
  exact ⟨ha.1.trans hYear, hYear'.trans hb.2⟩

theorem length_stampOf {time : Int} (h : Dated time) (period : LogPeriod) :
    (stampOf period time).length = match period with | .day => 10 | .month => 7 := by
  cases period
  all_goals
    rw [stampOf, length_take, length_dayText h]
    rfl

theorem stampOf_le (ha : Dated a) (hb : Dated b) (hLe : a ≤ b) (period : LogPeriod) :
    stampOf period a < stampOf period b ∨ stampOf period a = stampOf period b := by
  have hDay : dayOf a ≤ dayOf b := by unfold dayOf; omega
  rcases hDay.lt_or_eq with hLt | hEq
  · cases period
    all_goals exact take_lt (dayText_lt ha hb hLt) _
  · cases period
    all_goals exact .inr (by rw [stampOf, stampOf, hEq])

theorem stampOf_not_lt (ha : Dated a) (hb : Dated b) (hLe : a ≤ b) (period : LogPeriod) :
    ¬ stampOf period b < stampOf period a := by
  rcases stampOf_le ha hb hLe period with hLt | hEq
  · exact List.lt_asymm hLt
  · rw [hEq]
    exact List.lt_irrefl _

/-! ## Files -/

namespace BucketLog

variable {ι : Type} {series : ι → Text × LogPeriod} {log : BucketLog α σ} {entry : Text}
  {line : BucketLine α} {i j : ι} {since before : Int}

/-- A line is in a file or waits for it. -/
def Held (log : BucketLog α σ) (entry : Text) (line : BucketLine α) : Prop :=
  line ∈ log.linesOf entry ∨ (entry, line) ∈ log.queue

theorem held_append (name : Text) (period : LogPeriod) (new : BucketLine α) :
    (log.append name period new).Held entry line ↔
      log.Held entry line ∨ entry = file name period new.t ∧ line = new := by
  have hQueue : (entry, line) ∈ log.queue ++ [(file name period new.t, new)] ↔
      (entry, line) ∈ log.queue ∨ entry = file name period new.t ∧ line = new := by simp
  rw [Held, Held, or_assoc, ← hQueue]
  rfl

theorem held_land : log.land.Held entry line ↔ log.Held entry line := by
  unfold land
  split
  · rfl
  · rename_i entry' line' rest hQueue
    rw [Held, Held, hQueue, mem_cons, Prod.mk.injEq]
    change line ∈ ((log.files.set _ _).get entry).getD [] ∨ _ ↔ _
    rw [get_set]
    by_cases hEntry : entry = entry'
    · subst hEntry
      rw [if_pos rfl, Option.getD_some, mem_append, mem_singleton]
      tauto
    · rw [if_neg hEntry]
      simp only [hEntry, false_and, false_or]
      rfl

theorem queue_land : log.land.queue = log.queue.tail := by
  unfold land
  split
  · rename_i hQueue
    rw [hQueue]
    rfl
  · rename_i hQueue
    rw [hQueue]
    rfl

theorem states_land : log.land.states = log.states := by
  unfold land
  split <;> rfl

theorem flush_spec (log : BucketLog α σ) : log.flush.queue = [] ∧ log.flush.states = log.states ∧
    ∀ entry line, log.flush.Held entry line ↔ log.Held entry line := by
  have hAll : ∀ n (log : BucketLog α σ), (land^[n] log).queue = log.queue.drop n ∧
      (land^[n] log).states = log.states ∧
      ∀ entry line, (land^[n] log).Held entry line ↔ log.Held entry line := by
    intro n
    induction n with
    | zero => exact fun log => ⟨rfl, rfl, fun _ _ => Iff.rfl⟩
    | succ n ih =>
      intro log
      obtain ⟨hQueue, hStates, hHeld⟩ := ih log.land
      rw [Function.iterate_succ_apply]
      refine ⟨?_, hStates.trans states_land, fun _ _ => (hHeld _ _).trans held_land⟩
      rw [hQueue, queue_land, drop_tail]
  obtain ⟨hQueue, hRest⟩ := hAll log.queue.length log
  exact ⟨hQueue.trans drop_length, hRest⟩

theorem isLines_file (name : Text) (period : LogPeriod) (time : Int) :
    isLines name (file name period time) = true := by
  rw [isLines, Bool.and_eq_true, isPrefixOf_iff_prefix, isSuffixOf_iff_suffix]
  refine ⟨?_, suffix_append _ _⟩
  rw [file, append_assoc]
  exact prefix_append _ _

/-- A file name tells the series that it is of. -/
def Apart (series : ι → Text × LogPeriod) : Prop :=
  ∀ i j time, isLines (series i).1 (file (series j).1 (series j).2 time) = true → i = j

/-- Every line is in the file of its time in some series. -/
def Filed (series : ι → Text × LogPeriod) (log : BucketLog α σ) : Prop :=
  ∀ entry line, log.Held entry line →
    Dated line.t ∧ ∃ i, entry = file (series i).1 (series i).2 line.t

theorem stamp_file (name : Text) (period : LogPeriod) (time : Int) :
    ((file name period time).take ((file name period time).length - 6)).drop (name.length + 1) =
      stampOf period time := by
  have hSplit : file name period time = (name ++ js "-") ++ (stampOf period time ++ js ".jsonl") := by
    rw [file, append_assoc]
  have hLength : (js ".jsonl").length = 6 := rfl
  have hTake : (file name period time).take ((file name period time).length - 6) =
      (name ++ js "-") ++ stampOf period time := by
    rw [hSplit, ← append_assoc, length_append, hLength, Nat.add_sub_cancel,
      take_left']
    rfl
  rw [hTake]
  exact drop_left' (by rw [length_append]; rfl)

theorem mem_load (hFiled : log.Filed series) (hApart : Apart series) (hQueue : log.queue = [])
    (hSince : Dated since) : line ∈ log.load (series i).1 since ↔
      log.Held (file (series i).1 (series i).2 line.t) line ∧ since ≤ line.t := by
  rw [load, mem_mergeSort, mem_flatMap]
  constructor
  · rintro ⟨entry, -, hLine⟩
    unfold loadEntry at hLine
    split at hLine
    · exact absurd hLine not_mem_nil
    rename_i hLines
    dsimp only at hLine
    split at hLine
    · exact absurd hLine not_mem_nil
    obtain ⟨hMem, hSince⟩ := mem_filter.mp hLine
    obtain ⟨-, j, rfl⟩ := hFiled entry line (.inl hMem)
    have hEq : i = j := hApart i j line.t (by simpa using hLines)
    subst hEq
    exact ⟨.inl hMem, by simpa using hSince⟩
  · rintro ⟨hHeld, hLe⟩
    obtain ⟨hDated, -⟩ := hFiled _ _ hHeld
    have hMem : line ∈ log.linesOf (file (series i).1 (series i).2 line.t) := by
      rcases hHeld with hMem | hMem
      · exact hMem
      · rw [hQueue] at hMem
        exact absurd hMem not_mem_nil
    refine ⟨file (series i).1 (series i).2 line.t, ?_, ?_⟩
    · rw [mem_mergeSort, ← has_iff_mem_keys, JsMap.has]
      rcases hGet : log.files.get (file (series i).1 (series i).2 line.t) with - | lines
      · rw [linesOf, hGet] at hMem
        exact absurd hMem not_mem_nil
      · rfl
    · have hStamp : (dayText (dayOf since)).take (stampOf (series i).2 line.t).length =
          stampOf (series i).2 since := by
        rw [length_stampOf hDated]
        cases (series i).2 <;> rfl
      unfold loadEntry
      rw [isLines_file]
      dsimp only
      rw [stamp_file, hStamp, if_neg (by simp), if_neg (stampOf_not_lt hSince hDated hLe _)]
      exact mem_filter.mpr ⟨hMem, by simpa using hLe⟩

theorem held_of_prune {name : Text} {period : LogPeriod}
    (h : (log.prune name period before).Held entry line) : log.Held entry line := by
  rcases h with h | h
  · left
    rw [linesOf, prune] at h
    dsimp only at h
    rw [get_filterKeys] at h
    split at h
    · exact h
    · exact absurd h not_mem_nil
  · exact .inr h

theorem held_prune (hApart : Apart series) (hBefore : Dated before) (hDated : Dated line.t)
    (hLe : i = j → before ≤ line.t) (hHeld : log.Held (file (series i).1 (series i).2 line.t) line) :
    (log.prune (series j).1 (series j).2 before).Held (file (series i).1 (series i).2 line.t)
      line := by
  refine hHeld.imp_left fun hMem => ?_
  rw [linesOf, prune]
  dsimp only
  rw [get_filterKeys, if_pos]
  · exact hMem
  by_cases hLines : isLines (series j).1 (file (series i).1 (series i).2 line.t) = true
  · have hEq : j = i := hApart j i line.t hLines
    subst hEq
    have hNot : ¬ file (series j).1 (series j).2 line.t < file (series j).1 (series j).2 before := by
      rcases stampOf_le hBefore hDated (hLe rfl) (series j).2 with hLt | hStamp
      · refine List.lt_asymm ?_
        rw [file, file, append_assoc _ _ (js ".jsonl"), append_assoc _ _ (js ".jsonl")]
        refine append_left_lt (append_lt ?_ hLt _ _)
        rw [length_stampOf hBefore, length_stampOf hDated]
      · rw [file, file, hStamp]
        exact List.lt_irrefl _
    simp [hNot]
  · simp [hLines]

end BucketLog

end TMEdge.Analytics
