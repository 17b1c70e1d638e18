import TMEdge.Library.JsMap

/-!
# The replay journal and its reader

`src/edge/replay.ts`: the journal is a text file of one JSON array per line. This module
has the records the store writes (`Record`), their place in the file (`Record.toJson`,
`Record.bytes`), and `readReplaySnapshot`, which reads a file back.

A file is given by what the reader looks at: its size, whether its text ends in a
newline, and the value `JSON.parse` finds on each line. `journalFile` is the file that
holds a list of records; `readReplaySnapshot_journalFile` says that reading it is the
fold `replay` of the records, unless the file is larger than the reader's limit or names
more than 5000 nodes.
-/

namespace TMEdge.Replay

open Library

/-! ## JSON values -/

/-- A value as `JSON.parse` returns it. Numbers are exact. -/
inductive Json
  | null
  | bool (b : Bool)
  | num (q : ℚ)
  | str (s : String)
  | arr (items : List Json)
  | obj (fields : List (String × Json))

/-! ## Cursors -/

structure Cursor where
  boot : Nat
  seq : Nat
deriving DecidableEq

/-- A cursor's place in the replay order. -/
def Cursor.key (c : Cursor) : Nat ×ₗ Nat := toLex (c.boot, c.seq)

theorem Cursor.key_injective : Function.Injective Cursor.key := by
  rintro ⟨b, s⟩ ⟨b', s'⟩ h
  cases h
  rfl

/-- `(boot, seq)` in lexicographic order: a reboot raises `boot` and restarts `seq`. -/
instance : LinearOrder Cursor := LinearOrder.lift' Cursor.key Cursor.key_injective

/-! ## Values the reader accepts -/

def u32Max : Nat := 0xffffffff

/-- `u32` of the source: an integer `0..0xffffffff`. -/
def u32 : Json → Option Nat
  | .num q => if q.isInt ∧ 0 ≤ q ∧ q ≤ u32Max then some q.num.toNat else none
  | _ => none

def isHex (c : Char) : Bool := ('0' ≤ c && c ≤ '9') || ('a' ≤ c && c ≤ 'f')

/-- `(:[0-9a-f]{2})` repeated `n` times, up to the end of the text. -/
def uidTail : Nat → List Char → Bool
  | 0, [] => true
  | n + 1, ':' :: a :: b :: cs => isHex a && isHex b && uidTail n cs
  | _, _ => false

/-- `/^[0-9a-f]{2}(:[0-9a-f]{2}){5}$/` -/
def isUid (s : String) : Bool :=
  match s.toList with
  | a :: b :: cs => isHex a && isHex b && uidTail 5 cs
  | _ => false

variable {n : Nat}

theorem uidTail_length {cs : List Char} (h : uidTail n cs = true) : cs.length = 3 * n := by
  induction n generalizing cs with
  | zero =>
    cases cs with
    | nil => rfl
    | cons c cs => simp [uidTail] at h
  | succ n ih =>
    match cs with
    | ':' :: a :: b :: cs =>
      simp only [uidTail, Bool.and_eq_true] at h
      have := ih h.2
      simp only [List.length_cons]
      omega
    | [] => simp [uidTail] at h
    | [c] => simp [uidTail] at h
    | [c, d] => simp [uidTail] at h
    | c :: a :: b :: cs =>
      unfold uidTail at h
      split at h
      · rename_i h1 h2
        simp at h1
      · rename_i h1 h2
        simp only [Bool.and_eq_true] at h
        simp only [List.cons.injEq] at h2
        obtain ⟨rfl, rfl, rfl, rfl⟩ := h2
        cases h1
        have := ih h.2
        simp only [List.length_cons]
        omega
      · cases h

theorem isUid_length {s : String} (h : isUid s = true) : s.length = 17 := by
  unfold isUid at h
  split at h
  · rename_i a b cs hs
    simp only [Bool.and_eq_true] at h
    have hlen := uidTail_length h.2
    rw [← String.length_toList, hs]
    simp [hlen]
  · cases h

/-! ## Records -/

inductive Record
  | cmd (seq : Nat)
  | cursor (uid : String) (c : Cursor)
  | tombstone (uid : String)
deriving DecidableEq

/-- What `ReplayStore` lets into the journal (`u32`, `validate`, `UID.test`). -/
def Record.valid : Record → Bool
  | .cmd seq => seq ≤ u32Max
  | .cursor uid c => isUid uid && decide (c.boot ≤ u32Max) && decide (c.seq ≤ u32Max)
  | .tombstone uid => isUid uid

def Record.toJson : Record → Json
  | .cmd seq => .arr [.str "cmd", .num seq]
  | .cursor uid c => .arr [.str uid, .num c.boot, .num c.seq]
  | .tombstone uid => .arr [.str uid, .null]

/-- Characters of a number in decimal. -/
def decimalLength (n : Nat) : Nat := Nat.log 10 n + 1

/-- Bytes of the record's line, its newline included: `["cmd",<seq>]`,
`["<uid>",<boot>,<seq>]` and `["<uid>",null]`. A uid is ASCII. -/
def Record.bytes : Record → Nat
  | .cmd seq => 9 + decimalLength seq
  | .cursor uid c => uid.length + 7 + decimalLength c.boot + decimalLength c.seq
  | .tombstone uid => uid.length + 10

theorem decimalLength_le (h : n ≤ u32Max) : decimalLength n ≤ 10 := by
  have : Nat.log 10 n < 10 := by
    apply Nat.log_lt_of_lt_pow' (by omega)
    exact lt_of_le_of_lt h (by decide)
  unfold decimalLength
  omega

theorem Record.bytes_cmd_le {seq : Nat} (h : seq ≤ u32Max) : (Record.cmd seq).bytes ≤ 19 := by
  have := decimalLength_le h
  simp only [Record.bytes]
  omega

theorem Record.bytes_le {r : Record} (h : r.valid = true) : r.bytes ≤ 44 := by
  cases r with
  | cmd seq =>
    have hs : seq ≤ u32Max := by simpa [Record.valid] using h
    have := Record.bytes_cmd_le hs
    omega
  | cursor uid c =>
    simp only [Record.valid, Bool.and_eq_true, decide_eq_true_eq] at h
    have hu := isUid_length h.1.1
    have hb := decimalLength_le h.1.2
    have hs := decimalLength_le h.2
    simp only [Record.bytes]
    omega
  | tombstone uid =>
    have hu := isUid_length h
    simp only [Record.bytes]
    omega

/-! ## Reading a journal -/

structure ReplaySnapshot where
  cursors : JsMap String Cursor
  commandSeq : Nat
deriving DecidableEq

def ReplaySnapshot.initial : ReplaySnapshot := ⟨JsMap.empty, 0⟩

/-- One record read: command numbers only rise, the last cursor of a node wins. -/
def ReplaySnapshot.apply (s : ReplaySnapshot) : Record → ReplaySnapshot
  | .cmd seq => { s with commandSeq := max s.commandSeq seq }
  | .cursor uid c => { s with cursors := s.cursors.set uid c }
  | .tombstone uid => { s with cursors := s.cursors.delete uid }

/-- What the reader looks at. `lines` are the texts before each newline, `none` where
`JSON.parse` throws; `terminated` says that nothing follows the last newline. -/
structure JournalFile where
  size : Nat
  lines : List (Option Json)
  terminated : Bool

def journalLimit : Nat := 8 * 1024 * 1024

def nodeLimit : Nat := 5000

def limitError : String := "replay journal exceeds its limit"

def readRecord : Option Json → Except String Record
  | none => .error "SyntaxError"
  | some (.arr [a, b]) =>
    match a, u32 b, b with
    | .str "cmd", some seq, _ => .ok (.cmd seq)
    | .str uid, _, .null =>
      if isUid uid then .ok (.tombstone uid) else .error "invalid replay journal record"
    | _, _, _ => .error "invalid replay journal record"
  | some (.arr [a, b, c]) =>
    match a, u32 b, u32 c with
    | .str uid, some boot, some seq =>
      if isUid uid then .ok (.cursor uid ⟨boot, seq⟩) else .error "invalid replay journal record"
    | _, _, _ => .error "invalid replay journal record"
  | some (.arr _) => .error "invalid replay journal record"
  | some _ => .error "invalid replay journal"

def readLines (s : ReplaySnapshot) : List (Option Json) → Except String ReplaySnapshot
  | [] => .ok s
  | line :: lines => do
    let r ← readRecord line
    readLines (s.apply r) lines

def readReplaySnapshot (f : JournalFile) : Except String ReplaySnapshot := do
  if f.size > journalLimit then throw limitError
  if !f.terminated then throw "incomplete replay journal; restore it before starting"
  let s ← readLines .initial f.lines
  if s.cursors.size > nodeLimit then throw "replay journal node limit exceeded"
  return s

/-! ## Journals the store writes -/

def journalBytes (rs : List Record) : Nat := (rs.map Record.bytes).sum

/-- The file that holds exactly these records. -/
def journalFile (rs : List Record) : JournalFile :=
  ⟨journalBytes rs, rs.map fun r => some r.toJson, true⟩

def replayFrom (s : ReplaySnapshot) (rs : List Record) : ReplaySnapshot :=
  rs.foldl ReplaySnapshot.apply s

/-- The state a list of records stands for. -/
def replay (rs : List Record) : ReplaySnapshot := replayFrom .initial rs

theorem replay_append (rs rs' : List Record) : replay (rs ++ rs') = replayFrom (replay rs) rs' := by
  simp [replay, replayFrom]

theorem replay_concat (rs : List Record) (r : Record) :
    replay (rs ++ [r]) = (replay rs).apply r := by
  simp [replay, replayFrom]

theorem u32_num (h : n ≤ u32Max) : u32 (.num n) = some n := by
  have hq : ((n : ℚ)) ≤ u32Max := by exact_mod_cast h
  simp [u32, hq, Rat.isInt]

theorem readRecord_toJson {r : Record} (h : r.valid = true) :
    readRecord (some r.toJson) = .ok r := by
  cases r with
  | cmd seq =>
    have hs : seq ≤ u32Max := by simpa [Record.valid] using h
    simp [Record.toJson, readRecord, u32_num hs]
  | cursor uid c =>
    simp only [Record.valid, Bool.and_eq_true, decide_eq_true_eq] at h
    simp [Record.toJson, readRecord, u32_num h.1.2, u32_num h.2, h.1.1]
  | tombstone uid =>
    have hu : isUid uid = true := h
    simp [Record.toJson, readRecord, u32, hu]

theorem readLines_toJson {rs : List Record} (h : ∀ r ∈ rs, r.valid = true)
    (s : ReplaySnapshot) :
    readLines s (rs.map fun r => some r.toJson) = .ok (replayFrom s rs) := by
  induction rs generalizing s with
  | nil => rfl
  | cons r rs ih =>
    have hr := readRecord_toJson (h r List.mem_cons_self)
    simp only [List.map_cons, readLines, hr, bind, Except.bind]
    exact ih (fun r' hr' => h r' (List.mem_cons_of_mem _ hr')) _

/-- Reading back what the store wrote. -/
theorem readReplaySnapshot_journalFile {rs : List Record} (h : ∀ r ∈ rs, r.valid = true)
    (hNodes : (replay rs).cursors.size ≤ nodeLimit) :
    readReplaySnapshot (journalFile rs) =
      if journalBytes rs > journalLimit then .error limitError else .ok (replay rs) := by
  unfold readReplaySnapshot
  by_cases hSize : journalBytes rs > journalLimit
  · simp [journalFile, hSize, bind, Except.bind, throw, throwThe, MonadExceptOf.throw]
  · have hRead := readLines_toJson h .initial
    have hNodes' : ¬ (replayFrom .initial rs).cursors.size > nodeLimit := by
      have : (replay rs).cursors.size ≤ nodeLimit := hNodes
      unfold replay at this
      omega
    simp only [journalFile, if_neg hSize, hRead, bind, Except.bind, pure, Except.pure,
      Bool.not_true, Bool.false_eq_true, if_false, if_neg hNodes']
    rfl

end TMEdge.Replay
