import TMEdge.Protocol.DeviceKeys

/-!
# The HELLO journal

`HelloReplayStore` of `src/edge/hello-replay.ts`: the nonces of the HELLOs a gateway may
still replay, and the highest clock reading they were written at.

* `accept_cases`: what an acceptance can do to the journal.
* `Spent`: the journal still remembers a nonce, or its clock has passed the expiry. Once
  spent a nonce stays so (`Spent.kept`), and is refused up to its expiry
  (`Spent.not_accepted`).
-/

namespace TMEdge.Gateway

open Protocol

structure HelloReplaySnapshot where
  highWater : Int
  nonces : List (String × Int)

/-- The journal on disk. -/
inductive HelloFile
  | absent
  | unreadable
  | snapshot (value : HelloReplaySnapshot)

/-! ## Reading the journal -/

/-- `[A-Za-z0-9._-]` -/
def isNameChar (c : Char) : Bool := c.isAlphanum || c = '.' || c = '_' || c = '-'

/-- `/^[A-Za-z0-9._-]{1,n}$/` -/
def isName (n : Nat) (s : List Char) : Bool :=
  decide (1 ≤ s.length) && decide (s.length ≤ n) && s.all isNameChar

def isJournalKey (key : String) : Bool :=
  match key.toList.dropWhile (· ≠ '|') with
  | _ :: nonce => isName 64 (key.toList.takeWhile (· ≠ '|')) && isName 128 nonce
  | [] => false

/-- `Number.isSafeInteger(n) && n >= 0` -/
def isSafeTime (n : Int) : Bool := decide (0 ≤ n) && decide (n ≤ DeviceKeys.maxSafeInteger)

def maxNonces : Nat := 4096

def readHelloReplaySnapshot : HelloFile → Except String HelloReplaySnapshot
  | .absent => .error "ENOENT"
  | .unreadable => .error "invalid HELLO journal"
  | .snapshot v =>
    if isSafeTime v.highWater ∧ v.nonces.length ≤ maxNonces ∧
        (∀ e ∈ v.nonces, isJournalKey e.1 ∧ isSafeTime e.2) ∧ (v.nonces.map Prod.fst).Nodup then
      .ok v
    else .error "invalid HELLO journal"

namespace HelloReplayStore

def read : HelloFile → Except String HelloReplaySnapshot
  | .absent => .ok ⟨0, []⟩
  | file => readHelloReplaySnapshot file

/-- The constructor reads the journal, and throws if it cannot. -/
def opens (file : HelloFile) : Bool := (read file).toBool

/-! ## Accepting a HELLO -/

/-- How the file system behaves. An error while the lock is released shows as `locked`
where nothing was written, and as `unsynced` where something was. -/
inductive FileIo
  | ok
  /-- The lock cannot be taken. -/
  | locked
  /-- The temporary file cannot be written or renamed. -/
  | unwritten
  /-- The rename took place, the directory could not be flushed. -/
  | unsynced
deriving DecidableEq

inductive Answer
  | accepted
  | refused
  /-- `accept` throws. -/
  | failed
deriving DecidableEq

def journalKey (id nonce : String) : String := id ++ "|" ++ nonce

def accept (file : HelloFile) (id nonce : String) (expires now : Int) (io : FileIo) :
    HelloFile × Answer :=
  if io = .locked then (file, .failed)
  else
    match read file with
    | .error _ => (file, .failed)
    | .ok v =>
      if now < v.highWater then (file, .refused)
      else
        let entries := v.nonces.filter fun e => decide (now ≤ e.2)
        let key := journalKey id nonce
        if key ∈ entries.map Prod.fst ∨ maxNonces ≤ entries.length then (file, .refused)
        else
          let written := .snapshot ⟨now, entries ++ [(key, expires)]⟩
          match io with
          | .unwritten => (file, .failed)
          | .unsynced => (written, .failed)
          | _ => (written, .accepted)

end HelloReplayStore

open HelloReplayStore

variable {file : HelloFile} {id nonce : String} {expires now : Int} {io : FileIo}

theorem read_eq {v : HelloReplaySnapshot} (h : read file = .ok v) :
    file = .absent ∧ v = ⟨0, []⟩ ∨ file = .snapshot v := by
  cases file with
  | absent =>
    cases h
    exact Or.inl ⟨rfl, rfl⟩
  | unreadable => cases h
  | snapshot w =>
    simp only [HelloReplayStore.read, readHelloReplaySnapshot] at h
    split at h
    · cases h
      exact Or.inr rfl
    · cases h

/-- The journal is as it was and the HELLO was not accepted, or the HELLO was not in the
journal any more and has been written to it. -/
theorem accept_cases (file : HelloFile) (id nonce : String) (expires now : Int) (io : FileIo) :
    ((accept file id nonce expires now io).1 = file ∧
      (accept file id nonce expires now io).2 ≠ .accepted) ∨
    ∃ v, read file = .ok v ∧ v.highWater ≤ now ∧
      (∀ e ∈ v.nonces, e.1 = journalKey id nonce → e.2 < now) ∧
      (accept file id nonce expires now io).1 = .snapshot ⟨now,
        (v.nonces.filter fun e => decide (now ≤ e.2)) ++ [(journalKey id nonce, expires)]⟩ := by
  unfold accept
  split
  · exact Or.inl ⟨rfl, by simp⟩
  · cases hRead : read file with
    | error e => exact Or.inl ⟨rfl, by simp⟩
    | ok v =>
      dsimp only
      split
      · exact Or.inl ⟨rfl, by simp⟩
      · rename_i hClock
        split
        · exact Or.inl ⟨rfl, by simp⟩
        · rename_i hRoom
          have hFree : ∀ e ∈ v.nonces, e.1 = journalKey id nonce → e.2 < now := by
            intro e he hKey
            by_contra hLive
            refine hRoom (Or.inl (List.mem_map.mpr ⟨e, List.mem_filter.mpr ⟨he, ?_⟩, hKey⟩))
            exact decide_eq_true (by omega)
          cases io with
          | unwritten => exact Or.inl ⟨rfl, by simp⟩
          | locked => exact absurd rfl ‹_›
          | ok | unsynced => exact Or.inr ⟨v, rfl, by omega, hFree, rfl⟩

/-! ## Spent nonces -/

/-- The journal remembers the nonce, or was last written past its expiry. -/
def Spent (file : HelloFile) (key : String) (expires : Int) : Prop :=
  ∃ v, file = .snapshot v ∧ (expires < v.highWater ∨ (key, expires) ∈ v.nonces)

theorem spent_of_accepted (h : (accept file id nonce expires now io).2 = .accepted) :
    Spent (accept file id nonce expires now io).1 (journalKey id nonce) expires := by
  rcases accept_cases file id nonce expires now io with ⟨_, hNot⟩ | ⟨v, _, _, _, hFile⟩
  · exact absurd h hNot
  · exact ⟨_, hFile, Or.inr (by simp)⟩

theorem Spent.kept {key : String} {spentAt : Int} (h : Spent file key spentAt) :
    Spent (accept file id nonce expires now io).1 key spentAt := by
  rcases accept_cases file id nonce expires now io with ⟨hFile, _⟩ | ⟨v, hRead, hClock, _, hFile⟩
  · rwa [hFile]
  · obtain ⟨w, rfl, hSpent⟩ := h
    rcases read_eq hRead with ⟨hAbsent, _⟩ | hw
    · cases hAbsent
    · cases hw
      refine ⟨_, hFile, ?_⟩
      by_cases hPast : spentAt < now
      · exact Or.inl hPast
      · rcases hSpent with hOld | hMem
        · exact absurd hOld (by omega)
        · exact Or.inr (List.mem_append_left _ (List.mem_filter.mpr ⟨hMem, by simpa using hPast⟩))

theorem Spent.not_accepted (h : Spent file (journalKey id nonce) expires)
    (hNow : now ≤ expires) : (accept file id nonce expires now io).2 ≠ .accepted := by
  rcases accept_cases file id nonce expires now io with ⟨_, hNot⟩ | ⟨v, hRead, hClock, hFree, _⟩
  · exact hNot
  · obtain ⟨w, rfl, hSpent⟩ := h
    rcases read_eq hRead with ⟨hAbsent, _⟩ | hw
    · cases hAbsent
    · cases hw
      rcases hSpent with hOld | hMem
      · omega
      · exact absurd (hFree _ hMem rfl) (by simpa using hNow)

end TMEdge.Gateway
