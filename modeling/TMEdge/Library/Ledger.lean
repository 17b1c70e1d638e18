import Mathlib.Logic.Relation
import TMEdge.Library.Trace

/-!
# Undo ledgers

Slots hold values that are changed from outside and are to be put back. The value a slot had
before its first change is kept in memory and on disk, until the change is closed: committed,
persisted, or seen restored. A ledger takes atomic steps; a save writes all of the memory.

* `Step.kept`, `Steps.kept`: when a slot opens with the value last reported, and no failed
  save changes the disk, memory and disk hold the baselines the log tells.
* `Steps.entries`: what holds of a value when its slot opens, and lasts until the slot is
  closed, holds of every entry.
* `Steps.recalls`: so it holds of every value that is put back.
-/

namespace TMEdge.Library

open List

variable {σ ν : Type*}

/-! ## The log -/

/-- How the change of a slot ends. -/
inductive Closing (ν : Type*)
  | committed (value : ν)
  | persisted (value : ν)
  | restored

inductive Note (σ ν : Type*)
  /-- These slots hold these values. -/
  | reported (values : σ → Option ν)
  | changed (slot : σ) (value : ν)
  | recalled (slot : σ) (value : ν)
  | closed (slot : σ) (how : Closing ν)

namespace Note

def Closes (n : Note σ ν) (k : σ) : Prop := ∃ how, n = .closed k how

/-- The note brings this value for the slot. -/
def Offers (n : Note σ ν) (k : σ) (w : ν) : Prop :=
  match n with
  | .reported values => values k = some w
  | .closed k' (.committed v) => k' = k ∧ v = w
  | .closed k' (.persisted v) => k' = k ∧ v = w
  | _ => False

end Note

/-- What was last reported, and the baselines of the open changes. -/
structure Witnessed (σ ν : Type*) where
  seen : σ → Option ν
  base : σ → Option ν

section

variable [DecidableEq σ]

def Witnessed.note (w : Witnessed σ ν) : Note σ ν → Witnessed σ ν
  | .reported values => { w with seen := fun k => (values k).or (w.seen k) }
  | .changed k _ => { w with base := Function.update w.base k ((w.base k).or (w.seen k)) }
  | .recalled _ _ => w
  | .closed k _ => { w with base := Function.update w.base k none }

def witnessed (log : List (Note σ ν)) : Witnessed σ ν :=
  log.foldl Witnessed.note ⟨fun _ => none, fun _ => none⟩

theorem witnessed_concat (log : List (Note σ ν)) (n : Note σ ν) :
    witnessed (log ++ [n]) = (witnessed log).note n := by
  simp [witnessed]

def without (m : σ → Option ν) (ks : List σ) : σ → Option ν :=
  fun k => if k ∈ ks then none else m k

theorem without_cons (m : σ → Option ν) (k : σ) (ks : List σ) :
    without m (k :: ks) = without (Function.update m k none) ks := by
  funext k'
  unfold without
  by_cases hk : k' = k
  · subst hk
    simp
  · simp [hk]

theorem witnessed_closed (log : List (Note σ ν)) (ends : List (σ × Closing ν)) :
    (witnessed (log ++ ends.map fun e => Note.closed e.1 e.2)).base =
      without (witnessed log).base (ends.map Prod.fst) := by
  induction ends generalizing log with
  | nil =>
    funext k
    simp [without]
  | cons e ends ih =>
    rw [map_cons, append_cons, ih, map_cons, without_cons, witnessed_concat]
    rfl

end

/-- Since every commit of the slot, its value or a newer one. -/
def Fresh (log : List (Note σ ν)) (k : σ) (w : ν) : Prop :=
  ∀ pre v post, log = pre ++ .closed k (.committed v) :: post →
    w = v ∨ ∃ n ∈ post, n.Offers k w

theorem Fresh.concat {log : List (Note σ ν)} {k : σ} {w : ν} (h : Fresh log k w) {n : Note σ ν}
    (hn : ¬ n.Closes k) : Fresh (log ++ [n]) k w := by
  intro pre v post hEq
  rcases concat_eq_append_cons.mp hEq with ⟨_, _, hLast⟩ | ⟨post', rfl, hLog⟩
  · exact absurd ⟨_, hLast.symm⟩ hn
  · refine (h pre v post' hLog).imp_right ?_
    rintro ⟨m, hm, hOffers⟩
    exact ⟨m, mem_append_left _ hm, hOffers⟩

/-! ## Ledgers -/

structure Ledger (σ ν : Type*) where
  mem : σ → Option ν
  disk : σ → Option ν
  log : List (Note σ ν)

structure Rules (σ ν : Type*) where
  /-- Saves reach a disk. -/
  durable : Bool
  /-- A save may fail after it has changed the disk. -/
  lossy : Prop
  /-- The values with which a slot may open. -/
  Opens : List (Note σ ν) → σ → ν → Prop

def Rules.write (rules : Rules σ ν) (mem disk : σ → Option ν) : σ → Option ν :=
  if rules.durable then mem else disk

namespace Ledger

def empty : Ledger σ ν := ⟨fun _ => none, fun _ => none, []⟩

def note (l : Ledger σ ν) (n : Note σ ν) : Ledger σ ν := { l with log := l.log ++ [n] }

/-! ## Entries -/

/-- `P` holds of every entry; without a disk none is there. -/
structure Entries (P : List (Note σ ν) → σ → ν → Prop) (rules : Rules σ ν) (l : Ledger σ ν) :
    Prop where
  mem : ∀ k w, l.mem k = some w → P l.log k w
  disk : ∀ k w, l.disk k = some w → P l.log k w
  undurable : rules.durable = false → l.disk = fun _ => none

section Entries

variable {P : List (Note σ ν) → σ → ν → Prop} {rules : Rules σ ν} {l : Ledger σ ν}

/-- `P` lasts until the slot is closed. -/
def Lasting (P : List (Note σ ν) → σ → ν → Prop) : Prop :=
  ∀ log k w n, P log k w → ¬ Note.Closes n k → P (log ++ [n]) k w

theorem Lasting.closed (hP : Lasting P) {log : List (Note σ ν)} {k : σ} {w : ν} (h : P log k w)
    {ends : List (σ × Closing ν)} (hk : k ∉ ends.map Prod.fst) :
    P (log ++ ends.map fun e => .closed e.1 e.2) k w := by
  induction ends generalizing log with
  | nil => simpa using h
  | cons e ends ih =>
    rw [map_cons, mem_cons, not_or] at hk
    rw [map_cons, append_cons]
    refine ih (hP _ _ _ _ h ?_) hk.2
    rintro ⟨how, hEq⟩
    cases hEq
    exact hk.1 rfl

theorem Entries.write (h : Entries P rules l) {m : σ → Option ν} {log : List (Note σ ν)}
    (hMem : ∀ k w, m k = some w → P log k w)
    (hDisk : rules.durable = true ∨ ∀ k w, l.disk k = some w → P log k w) :
    Entries P rules ⟨m, rules.write m l.disk, log⟩ := by
  cases hDurable : rules.durable with
  | true =>
    have hWrite : rules.write m l.disk = m := by simp [Rules.write, hDurable]
    rw [hWrite]
    refine ⟨hMem, hMem, fun hFalse => ?_⟩
    simp [hDurable] at hFalse
  | false =>
    have hWrite : rules.write m l.disk = l.disk := by simp [Rules.write, hDurable]
    rw [hWrite]
    refine ⟨hMem, ?_, h.undurable⟩
    rcases hDisk with hTrue | hDisk
    · simp [hDurable] at hTrue
    · exact hDisk

theorem Entries.note (hP : Lasting P) (h : Entries P rules l) {n : Note σ ν}
    (hn : ∀ k, ¬ n.Closes k) : Entries P rules (l.note n) :=
  ⟨fun k w hk => hP _ _ _ _ (h.mem k w hk) (hn k),
    fun k w hk => hP _ _ _ _ (h.disk k w hk) (hn k), h.undurable⟩

theorem entries_empty : Entries P rules empty := by
  refine ⟨?_, ?_, fun _ => rfl⟩
  · intro k w h
    cases h
  · intro k w h
    cases h

end Entries

/-! ## Steps -/

variable [DecidableEq σ]

/-- The first value is kept. -/
def opened (l : Ledger σ ν) (k : σ) (first : ν) : σ → Option ν :=
  Function.update l.mem k ((l.mem k).or (some first))

inductive Step (rules : Rules σ ν) : Ledger σ ν → Ledger σ ν → Prop
  | report (l : Ledger σ ν) (values : σ → Option ν) : Step rules l (l.note (.reported values))
  | save (l : Ledger σ ν) : Step rules l { l with disk := rules.write l.mem l.disk }
  | change (l : Ledger σ ν) (k : σ) (first value : ν)
      (hOpens : l.mem k = none → rules.Opens l.log k first) :
      Step rules l ⟨l.opened k first, rules.write (l.opened k first) l.disk,
        l.log ++ [.changed k value]⟩
  /-- The change was written down, and then given up. -/
  | attempt (l : Ledger σ ν) (k : σ) (first : ν) (hLossy : rules.lossy)
      (hOpens : l.mem k = none → rules.Opens l.log k first) :
      Step rules l { l with disk := rules.write (l.opened k first) l.disk }
  | close (l : Ledger σ ν) (ends : List (σ × Closing ν)) :
      Step rules l ⟨without l.mem (ends.map Prod.fst),
        rules.write (without l.mem (ends.map Prod.fst)) l.disk,
        l.log ++ ends.map fun e => .closed e.1 e.2⟩
  /-- The slots were taken out of the disk, and the save has failed. -/
  | lose (l : Ledger σ ν) (ks : List σ) (hLossy : rules.lossy) :
      Step rules l { l with disk := rules.write (without l.mem ks) l.disk }
  | putBack (l : Ledger σ ν) (k : σ) (w : ν) (hMem : l.mem k = some w) :
      Step rules l (l.note (.recalled k w))
  | crash (l : Ledger σ ν) : Step rules l { l with mem := l.disk }

abbrev Steps (rules : Rules σ ν) : Ledger σ ν → Ledger σ ν → Prop :=
  Relation.ReflTransGen (Step rules)

/-! ## Baselines -/

/-- Memory and disk hold the baselines of the open changes. -/
def Kept (l : Ledger σ ν) : Prop := l.mem = (witnessed l.log).base ∧ l.disk = l.mem

variable {rules : Rules σ ν} {l l' : Ledger σ ν}

theorem Step.kept (hDurable : rules.durable = true) (hLossy : ¬ rules.lossy)
    (hSeen : ∀ log k w, rules.Opens log k w → (witnessed log).seen k = some w)
    (h : Step rules l l') (hKept : l.Kept) : l'.Kept := by
  have hWrite : ∀ m d, rules.write m d = m := by
    intro m d
    simp [Rules.write, hDurable]
  obtain ⟨hMem, hDisk⟩ := hKept
  cases h with
  | report values =>
    refine ⟨?_, hDisk⟩
    rw [note, witnessed_concat]
    exact hMem
  | save => exact ⟨hMem, hWrite _ _⟩
  | change k first value hOpens =>
    refine ⟨?_, hWrite _ _⟩
    rw [witnessed_concat]
    simp only [opened, Witnessed.note, ← hMem]
    cases hk : l.mem k with
    | some w => rfl
    | none => rw [hSeen _ _ _ (hOpens hk)]
  | attempt k first hLost => exact absurd hLost hLossy
  | close ends =>
    refine ⟨?_, hWrite _ _⟩
    rw [witnessed_closed, ← hMem]
  | lose ks hLost => exact absurd hLost hLossy
  | putBack k w =>
    refine ⟨?_, hDisk⟩
    rw [note, witnessed_concat]
    exact hMem
  | crash => exact ⟨hDisk.trans hMem, rfl⟩

theorem Steps.kept (hDurable : rules.durable = true) (hLossy : ¬ rules.lossy)
    (hSeen : ∀ log k w, rules.Opens log k w → (witnessed log).seen k = some w)
    (h : Steps rules l l') (hKept : l.Kept) : l'.Kept := by
  induction h with
  | refl => exact hKept
  | tail _ hStep ih => exact hStep.kept hDurable hLossy hSeen ih

theorem kept_empty : (empty : Ledger σ ν).Kept := ⟨rfl, rfl⟩

/-! ## What holds of the entries -/

section

variable {P : List (Note σ ν) → σ → ν → Prop}

theorem Entries.opened (h : Entries P rules l) {k : σ} {first : ν}
    (hFirst : l.mem k = none → P l.log k first) :
    ∀ k' w, l.opened k first k' = some w → P l.log k' w := by
  intro k' w hw
  unfold Ledger.opened at hw
  by_cases hk : k' = k
  · subst hk
    rw [Function.update_self] at hw
    cases hMem : l.mem k' with
    | some v =>
      rw [hMem] at hw
      exact h.mem k' w (hMem.trans hw)
    | none =>
      rw [hMem] at hw
      cases hw
      exact hFirst hMem
  · rw [Function.update_of_ne hk] at hw
    exact h.mem k' w hw

theorem Step.entries (hP : Lasting P) (hOpens : ∀ log k w, rules.Opens log k w → P log k w)
    (h : Step rules l l') (hEntries : Entries P rules l) : Entries P rules l' := by
  have hWithout : ∀ ks k w, without l.mem ks k = some w → k ∉ ks ∧ P l.log k w := by
    intro ks k w hk
    unfold without at hk
    split at hk
    · cases hk
    · rename_i hNot
      exact ⟨hNot, hEntries.mem k w hk⟩
  cases h with
  | report values => exact hEntries.note hP (by rintro k ⟨_, hEq⟩; cases hEq)
  | save => exact hEntries.write hEntries.mem (Or.inr hEntries.disk)
  | change k first value hFirst =>
    have hOpened := hEntries.opened fun hNone => hOpens _ _ _ (hFirst hNone)
    have hSaved : Entries P rules ⟨l.opened k first, rules.write (l.opened k first) l.disk, l.log⟩ :=
      hEntries.write hOpened (Or.inr hEntries.disk)
    exact hSaved.note hP (by rintro k ⟨_, hEq⟩; cases hEq)
  | attempt k first _ hFirst =>
    have hOpened := hEntries.opened fun hNone => hOpens _ _ _ (hFirst hNone)
    have hSaved := hEntries.write hOpened (Or.inr hEntries.disk)
    exact ⟨hEntries.mem, hSaved.disk, hSaved.undurable⟩
  | close ends =>
    refine hEntries.write (fun k w hk => ?_) ?_
    · obtain ⟨hNot, hPk⟩ := hWithout _ k w hk
      exact hP.closed hPk hNot
    · cases hDurable : rules.durable with
      | true => exact Or.inl rfl
      | false =>
        refine Or.inr fun k w hk => ?_
        rw [hEntries.undurable hDurable] at hk
        cases hk
  | lose ks =>
    have hSaved := hEntries.write (fun k w hk => (hWithout ks k w hk).2) (Or.inr hEntries.disk)
    exact ⟨hEntries.mem, hSaved.disk, hSaved.undurable⟩
  | putBack k w => exact hEntries.note hP (by rintro k ⟨_, hEq⟩; cases hEq)
  | crash => exact ⟨hEntries.disk, hEntries.disk, hEntries.undurable⟩

theorem Steps.entries (hP : Lasting P) (hOpens : ∀ log k w, rules.Opens log k w → P log k w)
    (h : Steps rules l l') (hEntries : Entries P rules l) : Entries P rules l' := by
  induction h with
  | refl => exact hEntries
  | tail _ hStep ih => exact hStep.entries hP hOpens ih

/-- Every value put back satisfied `P` then. -/
def Recalls (P : List (Note σ ν) → σ → ν → Prop) (log : List (Note σ ν)) : Prop :=
  Justified (fun pre n => ∀ k w, n = .recalled k w → P pre k w) log

theorem Step.recalls (h : Step rules l l') (hEntries : Entries P rules l)
    (hRecalls : Recalls P l.log) : Recalls P l'.log := by
  cases h with
  | report values => exact justified_concat hRecalls (by intro k w hEq; cases hEq)
  | change k first value => exact justified_concat hRecalls (by intro k w hEq; cases hEq)
  | close ends =>
    refine justified_append hRecalls fun n hn pre k w hEq => ?_
    obtain ⟨e, _, rfl⟩ := mem_map.mp hn
    cases hEq
  | putBack k w hMem =>
    refine justified_concat hRecalls fun k' w' hEq => ?_
    cases hEq
    exact hEntries.mem k w hMem
  | save | attempt | lose | crash => exact hRecalls

theorem Steps.recalls (hP : Lasting P) (hOpens : ∀ log k w, rules.Opens log k w → P log k w)
    (h : Steps rules l l') (hEntries : Entries P rules l) (hRecalls : Recalls P l.log) :
    Recalls P l'.log := by
  induction h with
  | refl => exact hRecalls
  | tail hSteps hStep ih => exact hStep.recalls (Steps.entries hP hOpens hSteps hEntries) ih

end

end Ledger

end TMEdge.Library
