import Mathlib

/-!
# Insertion-ordered maps

`JsMap κ ν` is the `Map` of JavaScript: at most one entry per key, iterated in the order
in which the keys were first set. Setting a present key keeps its place; deleting a key
and setting it again moves it to the end. That at most one entry has a given key is a
field of the structure.

The lookup lemmas (`get_set`, `get_delete`) are the simp set; `foldl_set_entries` says
that setting the entries of a map one after the other in an empty map gives that map
back, order included.
-/

namespace TMEdge.Library

open List

structure JsMap (κ ν : Type*) where
  entries : List (κ × ν)
  nodup : (entries.map Prod.fst).Nodup

namespace JsMap

variable {κ ν : Type*} {m : JsMap κ ν} {es : List (κ × ν)} {k k' : κ} {v w : ν} {μ : Type*}

@[ext] theorem ext {m' : JsMap κ ν} (h : m.entries = m'.entries) : m = m' := by
  cases m
  cases m'
  cases h
  rfl

instance [DecidableEq κ] [DecidableEq ν] : DecidableEq (JsMap κ ν) := fun m m' =>
  decidable_of_iff (m.entries = m'.entries) ⟨ext, fun h => h ▸ rfl⟩

def empty : JsMap κ ν := ⟨[], by simp⟩

def keys (m : JsMap κ ν) : List κ := m.entries.map Prod.fst

def values (m : JsMap κ ν) : List ν := m.entries.map Prod.snd

def size (m : JsMap κ ν) : Nat := m.entries.length

/-- Map every value, keeping keys and order. -/
def mapValues {μ : Type*} (f : κ → ν → μ) (m : JsMap κ ν) : JsMap κ μ :=
  ⟨m.entries.map fun e => (e.1, f e.1 e.2), by
    rw [List.map_map]
    exact m.nodup⟩

theorem length_keys (m : JsMap κ ν) : m.keys.length = m.size := by
  simp [keys, size]

variable [DecidableEq κ]

def lookupEntries (k : κ) : List (κ × ν) → Option ν
  | [] => none
  | e :: es => if e.1 = k then some e.2 else lookupEntries k es

def get (m : JsMap κ ν) (k : κ) : Option ν := lookupEntries k m.entries

def has (m : JsMap κ ν) (k : κ) : Bool := (m.get k).isSome

def setEntries (k : κ) (v : ν) : List (κ × ν) → List (κ × ν)
  | [] => [(k, v)]
  | e :: es => if e.1 = k then (k, v) :: es else e :: setEntries k v es

theorem mem_keys_setEntries :
    k' ∈ (setEntries k v es).map Prod.fst ↔ k' = k ∨ k' ∈ es.map Prod.fst := by
  induction es with
  | nil => simp [setEntries]
  | cons e es ih =>
    unfold setEntries
    split
    · rename_i h
      simp [h]
    · simp only [map_cons, mem_cons, ih]
      tauto

theorem nodup_setEntries (h : (es.map Prod.fst).Nodup) :
    ((setEntries k v es).map Prod.fst).Nodup := by
  induction es with
  | nil => simp [setEntries]
  | cons e es ih =>
    rw [map_cons, nodup_cons] at h
    unfold setEntries
    split
    · rename_i he
      simpa [← he] using h
    · rename_i he
      rw [map_cons, nodup_cons, mem_keys_setEntries]
      exact ⟨by tauto, ih h.2⟩

def set (m : JsMap κ ν) (k : κ) (v : ν) : JsMap κ ν :=
  ⟨setEntries k v m.entries, nodup_setEntries m.nodup⟩

def delete (m : JsMap κ ν) (k : κ) : JsMap κ ν :=
  ⟨m.entries.filter fun e => e.1 ≠ k, m.nodup.sublist (List.filter_sublist.map _)⟩

/-- `delete` of every key whose value does not meet `p`. -/
def filter (p : ν → Bool) (m : JsMap κ ν) : JsMap κ ν :=
  ⟨m.entries.filter fun e => p e.2, m.nodup.sublist (List.filter_sublist.map _)⟩

/-- `delete` of every key that does not meet `p`. -/
def filterKeys (p : κ → Bool) (m : JsMap κ ν) : JsMap κ ν :=
  ⟨m.entries.filter fun e => p e.1, m.nodup.sublist (List.filter_sublist.map _)⟩

/-! ## Lookup -/

@[simp] theorem get_empty (k : κ) : (empty : JsMap κ ν).get k = none := rfl

theorem lookupEntries_setEntries (k k' : κ) (v : ν) (es : List (κ × ν)) :
    lookupEntries k' (setEntries k v es) = if k' = k then some v else lookupEntries k' es := by
  induction es with
  | nil => simp [setEntries, lookupEntries, eq_comm]
  | cons e es ih =>
    unfold setEntries
    split
    · rename_i he
      subst he
      simp only [lookupEntries, eq_comm]
      split <;> rfl
    · rename_i he
      simp only [lookupEntries, ih]
      split
      · rename_i he'
        rw [if_neg (by rintro rfl; exact he he')]
      · rfl

@[simp] theorem get_set (m : JsMap κ ν) (k k' : κ) (v : ν) :
    (m.set k v).get k' = if k' = k then some v else m.get k' :=
  lookupEntries_setEntries k k' v m.entries

theorem lookupEntries_filter (k k' : κ) (es : List (κ × ν)) :
    lookupEntries k' (es.filter fun e => e.1 ≠ k) =
      if k' = k then none else lookupEntries k' es := by
  induction es with
  | nil => simp [lookupEntries]
  | cons e es ih =>
    rw [filter_cons]
    by_cases he : e.1 = k
    · simp only [he, ne_eq, not_true_eq_false, decide_false, Bool.false_eq_true, if_false, ih,
        lookupEntries]
      split
      · rfl
      · rw [if_neg (by rename_i h; exact fun h' => h h'.symm)]
    · simp only [ne_eq, he, not_false_eq_true, decide_true, if_true, lookupEntries, ih]
      split
      · rename_i h
        rw [if_neg (by rintro rfl; exact he h)]
      · rfl

@[simp] theorem get_delete (m : JsMap κ ν) (k k' : κ) :
    (m.delete k).get k' = if k' = k then none else m.get k' :=
  lookupEntries_filter k k' m.entries

theorem lookupEntries_isSome : (lookupEntries k es).isSome = true ↔ k ∈ es.map Prod.fst := by
  induction es with
  | nil => simp [lookupEntries]
  | cons e es ih =>
    unfold lookupEntries
    split
    · rename_i h
      simp [h]
    · rename_i h
      rw [ih, map_cons, mem_cons]
      exact ⟨Or.inr, fun h' => h'.resolve_left fun h'' => h h''.symm⟩

theorem has_iff_mem_keys : m.has k = true ↔ k ∈ m.keys :=
  lookupEntries_isSome

theorem mem_keys_of_get (h : m.get k = some v) : k ∈ m.keys :=
  has_iff_mem_keys.mp (by simp [has, h])

theorem get_eq_some_iff : m.get k = some v ↔ (k, v) ∈ m.entries := by
  obtain ⟨es, hes⟩ := m
  change lookupEntries k es = some v ↔ (k, v) ∈ es
  induction es with
  | nil => simp [lookupEntries]
  | cons e es ih =>
    rw [map_cons, nodup_cons] at hes
    unfold lookupEntries
    split
    · rename_i h
      subst h
      constructor
      · intro h'
        cases h'
        exact mem_cons_self
      · intro h'
        rcases mem_cons.mp h' with h' | h'
        · rw [← h']
        · exact absurd (mem_map.mpr ⟨_, h', rfl⟩) hes.1
    · rename_i h
      rw [ih hes.2, mem_cons]
      exact ⟨Or.inr, fun h' => h'.resolve_left fun h'' => h (by rw [← h''])⟩

@[simp] theorem get_filter (p : ν → Bool) (m : JsMap κ ν) (k : κ) :
    (m.filter p).get k = (m.get k).filter p := by
  refine Option.ext fun v => ?_
  rw [Option.filter_eq_some_iff, get_eq_some_iff, get_eq_some_iff]
  exact mem_filter

@[simp] theorem get_filterKeys (p : κ → Bool) (m : JsMap κ ν) (k : κ) :
    (m.filterKeys p).get k = if p k then m.get k else none := by
  refine Option.ext fun v => ?_
  have hMem : (m.filterKeys p).get k = some v ↔ (k, v) ∈ m.entries ∧ p k = true := by
    rw [get_eq_some_iff]
    exact mem_filter
  rw [hMem]
  split
  · rename_i hp
    rw [get_eq_some_iff]
    exact ⟨fun h => h.1, fun h => ⟨h, hp⟩⟩
  · rename_i hp
    exact ⟨fun h => absurd h.2 hp, nofun⟩

@[simp] theorem get_mapValues (f : κ → ν → μ) (m : JsMap κ ν) (k : κ) :
    (m.mapValues f).get k = (m.get k).map (f k) := by
  obtain ⟨es, hes⟩ := m
  change lookupEntries k (es.map fun e => (e.1, f e.1 e.2)) = (lookupEntries k es).map (f k)
  clear hes
  induction es with
  | nil => rfl
  | cons e es ih =>
    simp only [map_cons, lookupEntries, ih]
    split
    · rename_i h
      rw [h]
      rfl
    · rfl

theorem mapValues_set (f : κ → ν → μ) (m : JsMap κ ν) (k : κ) (v : ν) :
    (m.set k v).mapValues f = (m.mapValues f).set k (f k v) := by
  refine ext ?_
  change (setEntries k v m.entries).map _ = setEntries k (f k v) (m.entries.map _)
  generalize m.entries = es
  induction es with
  | nil => rfl
  | cons e es ih =>
    rw [map_cons, setEntries, setEntries]
    split
    · rfl
    · rw [map_cons, ih]

theorem mapValues_delete (f : κ → ν → μ) (m : JsMap κ ν) (k : κ) :
    (m.delete k).mapValues f = (m.mapValues f).delete k := by
  refine ext ?_
  change (m.entries.filter _).map _ = (m.entries.map _).filter _
  rw [filter_map]
  rfl

/-- Values set one after the other under different keys. -/
theorem get_foldl_set {α : Type*} (key : α → κ) (g : α → ν) {l : List α}
    (hNodup : (l.map key).Nodup) (m : JsMap κ ν) (k : κ) :
    (l.foldl (fun m a => m.set (key a) (g a)) m).get k =
      match l.find? fun a => key a = k with
      | some a => some (g a)
      | none => m.get k := by
  induction l generalizing m with
  | nil => rfl
  | cons a l ih =>
    rw [map_cons, nodup_cons] at hNodup
    rw [foldl_cons, ih hNodup.2, find?_cons]
    by_cases ha : key a = k
    · have hNone : (l.find? fun b => key b = k) = none := by
        refine find?_eq_none.mpr fun b hb hbk => hNodup.1 ?_
        rw [ha, ← of_decide_eq_true hbk]
        exact mem_map_of_mem hb
      simp [hNone, ha]
    · have hNe : k ≠ key a := Ne.symm ha
      simp [ha, hNe]

theorem get_foldl_set_eq_some (key : ν → κ) {l : List ν} (hNodup : (l.map key).Nodup) {k : κ}
    {v : ν} : (l.foldl (fun m v => m.set (key v) v) empty).get k = some v ↔ v ∈ l ∧ key v = k := by
  rw [get_foldl_set key (fun v => v) hNodup]
  rcases hFind : l.find? fun v => key v = k with - | w
  · have hNone := find?_eq_none.mp hFind
    constructor
    · nofun
    · rintro ⟨hv, hKey⟩
      exact absurd (decide_eq_true hKey) (hNone v hv)
  · have hw := mem_of_find?_eq_some hFind
    have hKey := find?_some hFind
    rw [decide_eq_true_eq] at hKey
    refine Option.some_inj.trans ⟨fun hEq => hEq ▸ ⟨hw, hKey⟩, fun ⟨hv, hKey'⟩ => ?_⟩
    exact inj_on_of_nodup_map hNodup hw hv (hKey.trans hKey'.symm)

/-- Values that are there, changed one after the other under different keys. -/
theorem get_foldl_modify {α : Type*} {step : JsMap κ ν → α → JsMap κ ν} (key : α → κ)
    (f : α → ν → ν)
    (hSome : ∀ m a v, m.get (key a) = some v → step m a = m.set (key a) (f a v))
    (hNone : ∀ m a, m.get (key a) = none → step m a = m) {l : List α}
    (hNodup : (l.map key).Nodup) (m : JsMap κ ν) (k : κ) :
    (l.foldl step m).get k =
      (l.find? fun a => key a = k).elim (m.get k) fun a => (m.get k).map (f a) := by
  induction l generalizing m with
  | nil => rfl
  | cons a l ih =>
    rw [map_cons, nodup_cons] at hNodup
    rw [foldl_cons, ih hNodup.2, find?_cons]
    by_cases ha : key a = k
    · have hLast : (l.find? fun b => key b = k) = none := by
        refine find?_eq_none.mpr fun b hb hbk => hNodup.1 ?_
        rw [ha, ← of_decide_eq_true hbk]
        exact mem_map_of_mem hb
      subst ha
      rcases hGet : m.get (key a) with - | v
      · simp [hLast, hNone m a hGet, hGet]
      · simp [hLast, hSome m a v hGet]
    · have hNe : k ≠ key a := Ne.symm ha
      rcases hGet : m.get (key a) with - | v
      · simp [ha, hNone m a hGet]
      · simp [ha, hSome m a v hGet, hNe]

/-! ## Values that know their key -/

/-- Every value is under its own key. -/
def Indexed (key : ν → κ) (m : JsMap κ ν) : Prop := ∀ k v, m.get k = some v → key v = k

theorem mem_values_iff : v ∈ m.values ↔ ∃ k, m.get k = some v := by
  constructor
  · intro h
    obtain ⟨e, he, rfl⟩ := mem_map.mp h
    exact ⟨e.1, get_eq_some_iff.mpr he⟩
  · rintro ⟨k, hk⟩
    exact mem_map.mpr ⟨_, get_eq_some_iff.mp hk, rfl⟩

section Indexed

variable {key : ν → κ} {m : JsMap κ ν}

theorem Indexed.map_values (h : Indexed key m) : m.values.map key = m.keys := by
  unfold values keys
  rw [map_map]
  exact map_congr_left fun e he => h e.1 e.2 (get_eq_some_iff.mpr he)

theorem Indexed.nodup_filter (h : Indexed key m) (p : ν → Bool) :
    ((m.values.filter p).map key).Nodup := by
  refine List.Nodup.sublist (filter_sublist.map key) ?_
  rw [h.map_values]
  exact m.nodup

theorem Indexed.find?_filter (h : Indexed key m) (p : ν → Bool) (k : κ) :
    ((m.values.filter p).find? fun v => key v = k) = (m.get k).filter p := by
  refine Option.ext fun v => ?_
  rw [Option.filter_eq_some_iff]
  constructor
  · intro hFind
    have hMem := mem_filter.mp (mem_of_find?_eq_some hFind)
    obtain ⟨k', hk'⟩ := mem_values_iff.mp hMem.1
    have hKey : key v = k := by simpa using find?_some hFind
    rw [h k' v hk'] at hKey
    exact ⟨hKey ▸ hk', hMem.2⟩
  · rintro ⟨hGet, hp⟩
    have hMem : v ∈ m.values.filter p :=
      mem_filter.mpr ⟨mem_values_iff.mpr ⟨k, hGet⟩, hp⟩
    cases hFind : (m.values.filter p).find? fun v => key v = k with
    | none =>
      have hNot := find?_eq_none.mp hFind v hMem
      exact absurd (h k v hGet) (by simpa using hNot)
    | some w =>
      have hw := mem_filter.mp (mem_of_find?_eq_some hFind)
      obtain ⟨k', hk'⟩ := mem_values_iff.mp hw.1
      have hKey : key w = k := by simpa using find?_some hFind
      rw [h k' w hk'] at hKey
      rw [hKey, hGet] at hk'
      exact hk'.symm

theorem Indexed.set (h : Indexed key m) {k : κ} {v : ν} (hv : key v = k) :
    Indexed key (m.set k v) := by
  intro k' w hw
  rw [get_set] at hw
  split at hw
  · rename_i hk
    cases hw
    rw [hv, hk]
  · exact h k' w hw

theorem Indexed.delete (h : Indexed key m) (k : κ) : Indexed key (m.delete k) := by
  intro k' w hw
  rw [get_delete] at hw
  split at hw
  · cases hw
  · exact h k' w hw

theorem Indexed.filter (h : Indexed key m) (p : ν → Bool) : Indexed key (m.filter p) := by
  intro k w hw
  rw [get_filter, Option.filter_eq_some_iff] at hw
  exact h k w hw.1

theorem Indexed.foldl_set (h : Indexed key m) (l : List ν) :
    Indexed key (l.foldl (fun m v => m.set (key v) v) m) := by
  induction l generalizing m with
  | nil => exact h
  | cons v l ih => exact ih (h.set rfl)

end Indexed

theorem indexed_empty (key : ν → κ) : Indexed key empty := by
  intro k v h
  simp at h

/-! ## Keys and size -/

@[simp] theorem mem_keys_set : k' ∈ (m.set k v).keys ↔ k' = k ∨ k' ∈ m.keys :=
  mem_keys_setEntries

theorem mem_keys_delete_iff : k' ∈ (m.delete k).keys ↔ k' ≠ k ∧ k' ∈ m.keys := by
  rw [← has_iff_mem_keys, ← has_iff_mem_keys, has, get_delete]
  by_cases hk : k' = k <;> simp [hk, has]

theorem mem_keys_delete (h : k' ∈ (m.delete k).keys) : k' ∈ m.keys :=
  (mem_keys_delete_iff.mp h).2

/-- Writing a key that is there adds none. -/
theorem mem_keys_set_of_get (h : m.get k = some v) (hk : k' ∈ (m.set k w).keys) : k' ∈ m.keys := by
  rcases mem_keys_set.mp hk with rfl | hk
  · exact mem_keys_of_get h
  · exact hk

theorem mem_entries_setEntries {e : κ × ν} (h : e ∈ setEntries k v es) : e = (k, v) ∨ e ∈ es := by
  induction es with
  | nil => simpa [setEntries] using h
  | cons a es ih =>
    unfold setEntries at h
    split at h
    · rcases mem_cons.mp h with h | h
      · exact Or.inl h
      · exact Or.inr (mem_cons_of_mem a h)
    · rcases mem_cons.mp h with rfl | h
      · exact Or.inr (by simp)
      · exact (ih h).imp_right (mem_cons_of_mem a)

theorem mem_values_set (h : w ∈ (m.set k v).values) : w = v ∨ w ∈ m.values := by
  obtain ⟨e, he, rfl⟩ := mem_map.mp h
  rcases mem_entries_setEntries he with rfl | he
  · exact Or.inl rfl
  · exact Or.inr (mem_map_of_mem he)

theorem mem_keys_foldl_set (key : ν → κ) (l : List ν) (m : JsMap κ ν) (k : κ) :
    k ∈ (l.foldl (fun m v => m.set (key v) v) m).keys ↔ k ∈ m.keys ∨ ∃ v ∈ l, key v = k := by
  induction l generalizing m with
  | nil => simp
  | cons v l ih =>
    rw [foldl_cons, ih, mem_keys_set]
    simp only [mem_cons, exists_eq_or_imp, eq_comm (a := k)]
    tauto

theorem mem_values_foldl_set {key : ν → κ} {l : List ν}
    (h : w ∈ (l.foldl (fun m v => m.set (key v) v) m).values) : w ∈ m.values ∨ w ∈ l := by
  induction l generalizing m with
  | nil => exact Or.inl h
  | cons v l ih =>
    rcases ih h with h | h
    · rcases mem_values_set h with rfl | h
      · exact Or.inr (by simp)
      · exact Or.inl h
    · exact Or.inr (mem_cons_of_mem _ h)

/-- What is made of some entries of a list, under the same keys. -/
theorem keys_filterMap_sublist {α β γ : Type*} {f : α → Option β} {key : α → γ} {key' : β → γ}
    (h : ∀ a b, f a = some b → key' b = key a) (as : List α) :
    ((as.filterMap f).map key').Sublist (as.map key) := by
  induction as with
  | nil => exact List.Sublist.slnil
  | cons a as ih =>
    rw [filterMap_cons]
    split
    · exact ih.cons _
    · rename_i b hb
      rw [map_cons, map_cons, h a b hb]
      exact ih.cons_cons _

/-- A map whose keys all lie in a finite set has at most that many entries. -/
theorem size_le_card {U : Finset κ} (h : ∀ k ∈ m.keys, k ∈ U) : m.size ≤ U.card := by
  rw [← m.length_keys, keys, ← toFinset_card_of_nodup m.nodup]
  exact Finset.card_le_card fun k hk => h k (mem_toFinset.mp hk)

theorem size_congr {m' : JsMap κ ν} (h : ∀ k, m.get k = m'.get k) : m.size = m'.size := by
  have hPerm : m.keys.Perm m'.keys := by
    refine (perm_ext_iff_of_nodup m.nodup m'.nodup).mpr fun k => ?_
    change k ∈ m.keys ↔ k ∈ m'.keys
    rw [← has_iff_mem_keys, ← has_iff_mem_keys, has, has, h k]
  rw [← m.length_keys, ← m'.length_keys, hPerm.length_eq]

/-! ## Rebuilding a map from its entries -/

theorem setEntries_of_not_mem (h : k ∉ es.map Prod.fst) : setEntries k v es = es ++ [(k, v)] := by
  induction es with
  | nil => rfl
  | cons e es ih =>
    rw [map_cons, mem_cons, not_or] at h
    rw [setEntries, if_neg (fun h' => h.1 h'.symm), ih h.2, cons_append]

theorem entries_set_new (h : k ∉ m.keys) (v : ν) :
    (m.set k v).entries = m.entries ++ [(k, v)] := setEntries_of_not_mem h

theorem keys_set_new (h : k ∉ m.keys) (v : ν) : (m.set k v).keys = m.keys ++ [k] := by
  simp [keys, entries_set_new h]

theorem values_set_new (h : k ∉ m.keys) (v : ν) : (m.set k v).values = m.values ++ [v] := by
  simp [values, entries_set_new h]

theorem size_set_new (h : m.get k = none) (v : ν) : (m.set k v).size = m.size + 1 := by
  have hNot : k ∉ m.keys := by
    rw [← has_iff_mem_keys, has, h]
    simp
  change (setEntries k v m.entries).length = _
  rw [setEntries_of_not_mem hNot, length_append]
  rfl

theorem length_setEntries (h : k ∈ es.map Prod.fst) : (setEntries k v es).length = es.length := by
  induction es with
  | nil => cases h
  | cons e es ih =>
    rw [setEntries]
    split
    next => rfl
    next hNe =>
      rw [map_cons, mem_cons] at h
      rw [length_cons, length_cons, ih (h.resolve_left fun hEq => hNe hEq.symm)]

/-- A key that is there is set again. -/
theorem size_set_of_get (h : m.get k = some v) : (m.set k w).size = m.size :=
  length_setEntries (mem_keys_of_get h)

theorem size_delete_lt (h : k ∈ m.keys) : (m.delete k).size < m.size := by
  obtain ⟨e, hMem, rfl⟩ := mem_map.mp h
  exact length_filter_lt_length_iff_exists.mpr ⟨e, hMem, by simp⟩

/-- Entries under new keys that differ are all kept. -/
theorem size_foldl_set {α : Type*} (key : α → κ) (g : α → ν) {l : List α} (hl : (l.map key).Nodup)
    {m : JsMap κ ν} (hNew : ∀ a ∈ l, key a ∉ m.keys) :
    (l.foldl (fun m a => m.set (key a) (g a)) m).size = m.size + l.length := by
  induction l generalizing m with
  | nil => rfl
  | cons a l ih =>
    rw [map_cons, nodup_cons] at hl
    have hKey : m.get (key a) = none := by
      rcases hGet : m.get (key a) with - | v
      · rfl
      · exact absurd (mem_keys_of_get hGet) (hNew a (by simp))
    rw [foldl_cons, ih hl.2 fun b hb hMem => ?_, size_set_new hKey, length_cons]
    · omega
    · rcases mem_keys_set.mp hMem with hEq | hMem
      · exact hl.1 (mem_map.mpr ⟨b, hb, hEq⟩)
      · exact hNew b (by simp [hb]) hMem

theorem length_setEntries_le (k : κ) (v : ν) (es : List (κ × ν)) :
    (setEntries k v es).length ≤ es.length + 1 := by
  induction es with
  | nil => simp [setEntries]
  | cons e es ih =>
    rw [setEntries]
    split
    · simp
    · rw [length_cons, length_cons]
      omega

theorem size_set_le (m : JsMap κ ν) (k : κ) (v : ν) : (m.set k v).size ≤ m.size + 1 :=
  length_setEntries_le k v m.entries

theorem foldl_set_entries_aux (es : List (κ × ν)) (m : JsMap κ ν)
    (h : (m.keys ++ es.map Prod.fst).Nodup) :
    (es.foldl (fun m e => m.set e.1 e.2) m).entries = m.entries ++ es := by
  induction es generalizing m with
  | nil => simp
  | cons e es ih =>
    have hNew : e.1 ∉ m.keys := by
      intro h'
      exact (nodup_append.mp h).2.2 _ h' _ (by simp) rfl
    have hSet : (m.set e.1 e.2).entries = m.entries ++ [e] :=
      setEntries_of_not_mem hNew
    rw [foldl_cons, ih, hSet, append_assoc, singleton_append]
    rw [show (m.set e.1 e.2).keys = m.keys ++ [e.1] by simp [keys, hSet], append_assoc]
    simpa using h

theorem foldl_set_entries (m : JsMap κ ν) :
    m.entries.foldl (fun m e => m.set e.1 e.2) empty = m := by
  apply ext
  rw [foldl_set_entries_aux]
  · rfl
  · simpa [keys, empty] using m.nodup

/-- Setting the values of a map whose values know their keys, one after the other. -/
theorem Indexed.foldl_set_values {key : ν → κ} {m : JsMap κ ν} (h : Indexed key m) :
    m.values.foldl (fun m v => m.set (key v) v) empty = m := by
  have hKeys : ∀ e ∈ m.entries, key e.2 = e.1 := fun e he => h e.1 e.2 (get_eq_some_iff.mpr he)
  rw [values, foldl_map]
  calc m.entries.foldl (fun m e => m.set (key e.2) e.2) empty
      = m.entries.foldl (fun m e => m.set e.1 e.2) empty :=
        foldl_ext _ _ _ fun _ e he => by rw [hKeys e he]
    _ = m := foldl_set_entries m

/-! ## Counting values -/

theorem countP_values_delete_le (m : JsMap κ ν) (k : κ) (p : ν → Bool) :
    (m.delete k).values.countP p ≤ m.values.countP p :=
  (filter_sublist.map Prod.snd).countP_le

omit [DecidableEq κ] in
theorem countP_values_filter_le (m : JsMap κ ν) (q p : ν → Bool) :
    (m.filter q).values.countP p ≤ m.values.countP p :=
  (filter_sublist.map Prod.snd).countP_le

theorem countP_filter_keys {k : κ} {v : ν} (p : ν → Bool) {es : List (κ × ν)}
    (hNodup : (es.map Prod.fst).Nodup) (h : (k, v) ∈ es) :
    (es.map Prod.snd).countP p =
      ((es.filter fun e => e.1 ≠ k).map Prod.snd).countP p + if p v then 1 else 0 := by
  induction es with
  | nil => cases h
  | cons e es ih =>
    obtain ⟨hNew, hNodup⟩ := nodup_cons.mp hNodup
    rcases mem_cons.mp h with rfl | h
    · have hOthers : es.filter (fun e => e.1 ≠ k) = es := by
        refine filter_eq_self.mpr fun e he => ?_
        simpa using fun hk : e.1 = k => hNew (mem_map.mpr ⟨e, he, hk⟩)
      rw [filter_cons_of_neg (by simp), hOthers, map_cons, countP_cons]
    · have hKey : e.1 ≠ k := fun hk => hNew (mem_map.mpr ⟨(k, v), h, hk.symm⟩)
      rw [filter_cons_of_pos (by simpa using hKey), map_cons, map_cons,
        countP_cons, countP_cons, ih hNodup h]
      omega

/-- A key that goes takes its value along. -/
theorem countP_values_delete (h : m.get k = some v) (p : ν → Bool) :
    m.values.countP p = (m.delete k).values.countP p + if p v then 1 else 0 :=
  countP_filter_keys p m.nodup (get_eq_some_iff.mp h)

theorem size_delete_of_get (h : m.get k = some v) : (m.delete k).size + 1 = m.size := by
  have hCount := countP_values_delete h fun _ => true
  rw [countP_true, if_pos rfl, values, values, length_map, length_map] at hCount
  exact hCount.symm

theorem countP_values_set_le (m : JsMap κ ν) (k : κ) (v : ν) (p : ν → Bool) :
    (m.set k v).values.countP p ≤ m.values.countP p + if p v then 1 else 0 := by
  change ((setEntries k v m.entries).map Prod.snd).countP p ≤ (m.entries.map Prod.snd).countP p + _
  induction m.entries with
  | nil => simp [setEntries, countP_cons]
  | cons e es ih =>
    rw [setEntries]
    split
    · simp only [map_cons, countP_cons]
      omega
    · simp only [map_cons, countP_cons]
      omega

end JsMap

end TMEdge.Library
