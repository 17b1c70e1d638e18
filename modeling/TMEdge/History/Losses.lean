import TMEdge.History.Sink
import TMEdge.Library.Table

/-!
# What the history sink loses

* `losses_counted`: in every run the last row of every key is written, pending or counted.
-/

namespace TMEdge.History

open Library Occupancy List JsMap

namespace Sink

/-! ## What holds -/

section holds

variable {s : Sink} {flight : List (Text × PendingEntry)} {k : Text} {i n : Nat}
  {e : Text × PendingEntry} {record : OccupancyHistoryRecord} {rest : List (Text × PendingEntry)}

/-- The row that came in at `i` has the key `k`. -/
def KeyAt (s : Sink) (i : Nat) (k : Text) : Prop := (s.samples[i]?).map recordKey = some k

/-- The row that is pending for a key. -/
def held (s : Sink) (k : Text) : Option Nat := (s.pending.get k).map PendingEntry.serial

/-- An entry has the row that its serial says, under its key. -/
def Genuine (s : Sink) (p : Text × PendingEntry) : Prop :=
  s.samples[p.2.serial]? = some p.2.record ∧ recordKey p.2.record = p.1

/-- `flight` is the batch that is being written. -/
structure Inv (s : Sink) (flight : List (Text × PendingEntry)) : Prop where
  positive : 0 < s.maxPendingRows
  flying : s.inFlightEntries = flight.map fun p => p.2.serial
  keys : (flight.map Prod.fst).Nodup
  known : ∀ p ∈ flight, s.Genuine p
  few : flight.length ≤ s.batchSize
  own : ∀ k e, s.pending.get k = some e → s.Genuine (k, e)
  newest : ∀ k i, s.held k = some i → ∀ j, s.KeyAt j k → j ≤ i
  wrote : ∀ w ∈ s.trace, w.serial < s.samples.length
  passed : ∀ w ∈ s.trace, w.done = true → (∀ i, s.held w.key = some i → w.serial < i) ∧
    ∀ p ∈ flight, p.1 = w.key → w.serial < p.2.serial
  ordered : s.trace.Pairwise fun a b => a.done = true → a.key = b.key → a.serial ≤ b.serial
  kept : ∀ k i, s.KeyAt i k → (∀ j, s.KeyAt j k → j ≤ i) →
    s.held k = some i ∨ i ∈ s.counted ∨ s.lastWritten k = some i
  total : s.droppedRows = s.counted.length
  once : s.counted.Nodup
  gone : ∀ n ∈ s.counted, n < s.samples.length ∧ ∀ k, s.held k ≠ some n
  room : s.pending.size ≤ s.maxPendingRows + s.batchSize

theorem Genuine.keyAt {p : Text × PendingEntry} (h : s.Genuine p) : s.KeyAt p.2.serial p.1 := by
  rw [KeyAt, h.1, Option.map_some, h.2]

theorem KeyAt.lt (h : s.KeyAt i k) : i < s.samples.length := by
  obtain ⟨r, hr, -⟩ := Option.map_eq_some_iff.mp h
  exact (List.getElem?_eq_some_iff.mp hr).1

theorem KeyAt.unique {k' : Text} (h : s.KeyAt i k) (h' : s.KeyAt i k') : k = k' :=
  Option.some_inj.mp (h.symm.trans h')

theorem Inv.keyAt (h : Inv s flight) (hHeld : s.held k = some i) : s.KeyAt i k := by
  obtain ⟨e, he, rfl⟩ := Option.map_eq_some_iff.mp hHeld
  exact (h.own k e he).keyAt

theorem Inv.held_unique (h : Inv s flight) {k' : Text} (hk : s.held k = some i)
    (hk' : s.held k' = some i) : k = k' :=
  (h.keyAt hk).unique (h.keyAt hk')

theorem Inv.flight_unique (h : Inv s flight) {p q : Text × PendingEntry} (hp : p ∈ flight)
    (hq : q ∈ flight) (hSerial : p.2.serial = q.2.serial) : p = q := by
  have hKey : p.1 = q.1 := (h.known p hp).keyAt.unique (hSerial ▸ (h.known q hq).keyAt)
  exact inj_on_of_nodup_map h.keys hp hq hKey

/-! ## Rows that go -/

/-- A pending entry is replaced by one for the same row. -/
theorem Inv.touch (h : Inv s flight) {e : PendingEntry} (hGet : s.pending.get k = some e) (n : Nat) :
    Inv { s with pending := s.pending.set k { e with attempts := n } } flight := by
  have hHeld : ∀ k', held { s with pending := s.pending.set k { e with attempts := n } } k' =
      s.held k' := by
    intro k'
    rw [held, held, JsMap.get_set]
    split
    next hEq => rw [hEq, hGet, Option.map_some, Option.map_some]
    next => rfl
  have hSize : (s.pending.set k { e with attempts := n }).size = s.pending.size :=
    size_set_of_get hGet
  exact { h with
    own := fun k' e' he' => by
      rw [JsMap.get_set] at he'
      split at he'
      next hEq =>
        cases he'
        rw [hEq]
        exact h.own k e hGet
      next => exact h.own k' e' he'
    newest := fun k' i hi => h.newest k' i (hHeld k' ▸ hi)
    passed := fun w hw hDone => ⟨fun i hi => (h.passed w hw hDone).1 i (hHeld w.key ▸ hi),
      (h.passed w hw hDone).2⟩
    kept := fun k' i hKey hLast => hHeld k' ▸ h.kept k' i hKey hLast
    gone := fun n hn => ⟨(h.gone n hn).1, fun k' => hHeld k' ▸ (h.gone n hn).2 k'⟩
    room := hSize ▸ h.room }

theorem held_delete (k' : Text) : held { s with pending := s.pending.delete k } k' =
    if k' = k then none else s.held k' := by
  rw [held, held, get_delete]
  split <;> rfl

/-- A pending row is counted and goes. -/
theorem Inv.dropped (h : Inv s flight) (hHeld : s.held k = some i) :
    Inv { s.drop [i] with pending := s.pending.delete k } flight := by
  have hLess : ∀ k' j, (if k' = k then none else s.held k') = some j →
      k' ≠ k ∧ s.held k' = some j := by
    intro k' j hj
    split at hj
    next => cases hj
    next hNe => exact ⟨hNe, hj⟩
  obtain ⟨e, he, -⟩ := Option.map_eq_some_iff.mp hHeld
  have hNew : i ∉ s.counted := fun hMem => (h.gone i hMem).2 k hHeld
  refine { h with
    own := fun k' e' he' => ?_
    newest := fun k' j hj => ?_
    passed := fun w hw hDone => ⟨fun j hj => ?_, (h.passed w hw hDone).2⟩
    kept := fun k' j hKey hLast => ?_
    total := ?_
    once := ?_
    gone := fun j hj => ?_
    room := ?_ }
  · rw [get_delete] at he'
    split at he'
    next => cases he'
    next => exact h.own k' e' he'
  · exact h.newest k' j (hLess k' j (held_delete (s := s) k' ▸ hj)).2
  · exact (h.passed w hw hDone).1 j (hLess w.key j (held_delete (s := s) w.key ▸ hj)).2
  · rcases h.kept k' j hKey hLast with hHeld' | hCounted | hWritten
    · by_cases hEq : k' = k
      · subst hEq
        obtain rfl := Option.some_inj.mp (hHeld.symm.trans hHeld')
        exact .inr (.inl (mem_append_right _ (mem_singleton_self i)))
      · refine .inl ((held_delete (s := s) k').trans ?_)
        rw [if_neg hEq]
        exact hHeld'
    · exact .inr (.inl (mem_append_left _ hCounted))
    · exact .inr (.inr hWritten)
  · change s.droppedRows + 1 = (s.counted ++ [i]).length
    rw [length_append, h.total, length_singleton]
  · exact nodup_append.mpr ⟨h.once, nodup_singleton i, fun a ha b hb hEq =>
      hNew (mem_singleton.mp hb ▸ hEq ▸ ha)⟩
  · rcases mem_append.mp hj with hj | hj
    · exact ⟨(h.gone j hj).1, fun k' hk' =>
        (h.gone j hj).2 k' (hLess k' j (held_delete (s := s) k' ▸ hk')).2⟩
    · obtain rfl := mem_singleton.mp hj
      refine ⟨(h.keyAt hHeld).lt, fun k' hk' => ?_⟩
      obtain ⟨hNe, hk'⟩ := hLess k' j (held_delete (s := s) k' ▸ hk')
      exact hNe (h.held_unique hk' hHeld)
  · have hSize := size_delete_of_get he
    have hRoom := h.room
    change (s.pending.delete k).size ≤ s.maxPendingRows + s.batchSize
    omega

theorem mem_serials {m : JsMap Text PendingEntry} (h : e ∈ m.entries) :
    m.get e.1 = some e.2 := get_eq_some_iff.mpr h

/-- The rows that wait and the rows that are being written. -/
theorem Inv.size_le (h : Inv s flight) : s.pending.size ≤ s.queuedRows + s.batchSize := by
  have hSplit := length_eq_length_filter_add (l := s.pending.values) s.waits
  have hFlight : (s.pending.values.filter fun e => !s.waits e).length ≤ flight.length := by
    have hNodup : ((s.pending.entries.filter fun e => !s.waits e.2).map
        fun e => e.2.serial).Nodup := by
      refine List.Nodup.map_on ?_ (List.Nodup.filter _ (List.Nodup.of_map _ s.pending.nodup))
      intro a ha b hb hSerial
      have hGet := get_eq_some_iff.mpr (mem_of_mem_filter ha)
      have hGet' := get_eq_some_iff.mpr (mem_of_mem_filter hb)
      have hKey : a.1 = b.1 :=
        (h.own a.1 a.2 hGet).keyAt.unique (hSerial ▸ (h.own b.1 b.2 hGet').keyAt)
      rw [hKey, hGet'] at hGet
      exact Prod.ext hKey (Option.some.inj hGet).symm
    have hSubset : ((s.pending.entries.filter fun e => !s.waits e.2).map fun e => e.2.serial) ⊆
        s.inFlightEntries := by
      intro n hn
      obtain ⟨e, he, rfl⟩ := mem_map.mp hn
      have hWaits := (mem_filter.mp he).2
      rw [waits, Bool.not_eq_true', decide_eq_false_iff_not, not_not] at hWaits
      exact hWaits
    have hLength := (hNodup.subperm hSubset).length_le
    rw [h.flying, length_map, length_map] at hLength
    rw [JsMap.values, filter_map, length_map]
    exact hLength
  have hFew := h.few
  have hSize : s.pending.values.length = s.pending.size := by rw [JsMap.values, length_map]; rfl
  have hQueued : (s.pending.values.filter s.waits).length = s.queuedRows := rfl
  omega

/-- A row makes room when the queue is full. -/
theorem Inv.evict (h : Inv s flight) (hFull : s.maxPendingRows ≤ s.queuedRows) :
    Inv s.evict.1 flight ∧ s.evict.1.pending.size + 1 ≤ s.pending.size := by
  unfold Sink.evict
  split
  next e hFind =>
    have hGet := mem_serials (mem_of_find?_eq_some hFind)
    have hHeld : s.held e.1 = some e.2.serial := by rw [held, hGet, Option.map_some]
    exact ⟨h.dropped hHeld, (size_delete_of_get hGet).le⟩
  next hFind =>
    have hNone : s.pending.values.filter s.waits = [] := by
      rw [filter_eq_nil_iff]
      intro e he
      obtain ⟨p, hp, rfl⟩ := mem_map.mp he
      exact find?_eq_none.mp hFind p hp
    have hZero : s.queuedRows = 0 := congrArg List.length hNone
    have hPositive := h.positive
    omega

theorem getElem?_concat_of_some {r : OccupancyHistoryRecord} (h : s.samples[i]? = some r) :
    (s.samples ++ [record])[i]? = some r :=
  (getElem?_append_left (List.getElem?_eq_some_iff.mp h).1).trans h

/-- A row comes in. -/
theorem Inv.added (h : Inv s flight) {record : OccupancyHistoryRecord} (n : Nat)
    (hRoom : (s.pending.get (recordKey record)).isSome ∨
      s.pending.size + 1 ≤ s.maxPendingRows + s.batchSize) :
    Inv { s with
      pending := s.pending.set (recordKey record)
        { serial := s.samples.length, record := record, attempts := n }
      samples := s.samples ++ [record] } flight := by
  generalize hKey : recordKey record = key at hRoom ⊢
  have hKeyAt : ∀ i k, ((s.samples ++ [record])[i]?).map recordKey = some k →
      s.KeyAt i k ∨ i = s.samples.length ∧ k = key := by
    intro i k hi
    obtain ⟨r, hr, hrKey⟩ := Option.map_eq_some_iff.mp hi
    rcases getElem?_concat_cases hr with hOld | ⟨hEq, rfl⟩
    · exact .inl (by rw [KeyAt, hOld, Option.map_some, hrKey])
    · exact .inr ⟨hEq, hrKey ▸ hKey⟩
  have hOld : ∀ {i k}, s.KeyAt i k → ((s.samples ++ [record])[i]?).map recordKey = some k := by
    intro i k hi
    rw [getElem?_append_left hi.lt]
    exact hi
  have hHeld : ∀ k', ((s.pending.set key
      { serial := s.samples.length, record := record, attempts := n }).get k').map
        PendingEntry.serial = if k' = key then some s.samples.length else s.held k' := by
    intro k'
    rw [JsMap.get_set]
    split <;> rfl
  have hLength : (s.samples ++ [record]).length = s.samples.length + 1 := by
    rw [length_append, length_singleton]
  refine { h with
    known := fun p hp => ⟨getElem?_concat_of_some (h.known p hp).1, (h.known p hp).2⟩
    own := fun k e he => ?_
    newest := fun k i hi j hj => ?_
    wrote := fun w hw => ?_
    passed := fun w hw hDone => ⟨fun i hi => ?_, (h.passed w hw hDone).2⟩
    kept := fun k i hi hLast => ?_
    gone := fun i hi => ⟨?_, fun k hk => ?_⟩
    room := ?_ }
  · rw [JsMap.get_set] at he
    split at he
    next hEq =>
      cases he
      exact ⟨getElem?_concat_length, hKey.trans hEq.symm⟩
    next => exact ⟨getElem?_concat_of_some (h.own k e he).1, (h.own k e he).2⟩
  · rw [held, hHeld] at hi
    split at hi
    next =>
      cases hi
      have hLt := KeyAt.lt hj
      rw [hLength] at hLt
      omega
    next hNe =>
      rcases hKeyAt j k hj with hj | ⟨-, hEq⟩
      · exact h.newest k i hi j hj
      · exact absurd hEq hNe
  · rw [hLength]
    exact Nat.lt_succ_of_lt (h.wrote w hw)
  · rw [held, hHeld] at hi
    split at hi
    next =>
      cases hi
      exact h.wrote w hw
    next => exact (h.passed w hw hDone).1 i hi
  · rw [held, hHeld]
    by_cases hEq : k = key
    · rw [if_pos hEq]
      have hNew : KeyAt { s with
          pending := s.pending.set key
            { serial := s.samples.length, record := record, attempts := n }
          samples := s.samples ++ [record] } s.samples.length k := by
        rw [KeyAt, getElem?_concat_length, Option.map_some, hKey, hEq]
      have hLe := hLast _ hNew
      have hLt := KeyAt.lt hi
      rw [hLength] at hLt
      exact .inl (congrArg some (by omega))
    · rw [if_neg hEq]
      rcases hKeyAt i k hi with hi | ⟨-, hEq'⟩
      · exact h.kept k i hi fun j hj => hLast j (hOld hj)
      · exact absurd hEq' hEq
  · rw [hLength]
    exact Nat.lt_succ_of_lt (h.gone i hi).1
  · rw [held, hHeld] at hk
    split at hk
    next =>
      cases hk
      exact Nat.lt_irrefl _ (h.gone _ hi).1
    next => exact (h.gone i hi).2 k hk
  · change (s.pending.set key _).size ≤ _
    rcases hRoom with hSome | hRoom
    · obtain ⟨e, he⟩ := Option.isSome_iff_exists.mp hSome
      rw [size_set_of_get he]
      exact h.room
    · exact (size_set_le ..).trans hRoom

/-- What the rows of a snapshot leave alone. -/
structure Framed (s s' : Sink) : Prop where
  drains : s'.drains = s.drains
  settled : s'.settled = s.settled
  flushing : s'.flushing = s.flushing

theorem Framed.trans {s' s'' : Sink} (h : Framed s s') (h' : Framed s' s'') : Framed s s'' :=
  ⟨h'.drains.trans h.drains, h'.settled.trans h.settled, h'.flushing.trans h.flushing⟩

/-- What an eviction leaves alone. -/
structure EvictFramed (s s' : Sink) : Prop extends Framed s s' where
  maxPendingRows : s'.maxPendingRows = s.maxPendingRows
  batchSize : s'.batchSize = s.batchSize
  samples : s'.samples = s.samples

theorem evict_framed (s : Sink) : EvictFramed s s.evict.1 := by
  unfold Sink.evict
  split <;> exact ⟨⟨rfl, rfl, rfl⟩, rfl, rfl, rfl⟩

theorem enqueueRow_of_some {existing : PendingEntry}
    (hGet : s.pending.get (recordKey record) = some existing) : (s.enqueueRow record).1 = { s with
      pending := s.pending.set (recordKey record)
        { serial := s.samples.length, record := record, attempts := existing.attempts }
      samples := s.samples ++ [record] } := by
  simp only [Sink.enqueueRow, hGet]

theorem enqueueRow_of_none {s' : Sink} (hGet : s.pending.get (recordKey record) = none)
    (hRoom : (if s.maxPendingRows ≤ s.queuedRows then s.evict.1 else s) = s') :
    (s.enqueueRow record).1 = { s' with
      pending := s'.pending.set (recordKey record)
        { serial := s.samples.length, record := record, attempts := 0 }
      samples := s'.samples ++ [record] } := by
  subst hRoom
  simp only [Sink.enqueueRow, hGet]
  split <;> rfl

theorem Inv.enqueueRow (h : Inv s flight) (record : OccupancyHistoryRecord) :
    Inv (s.enqueueRow record).1 flight ∧ Framed s (s.enqueueRow record).1 := by
  rcases hGet : s.pending.get (recordKey record) with - | existing
  · by_cases hFull : s.maxPendingRows ≤ s.queuedRows
    · obtain ⟨hEvict, hSize⟩ := h.evict hFull
      have hFramed := evict_framed s
      have hRoom := h.room
      rw [enqueueRow_of_none hGet (if_pos hFull), ← hFramed.samples]
      refine ⟨hEvict.added 0 (.inr ?_), hFramed.drains, hFramed.settled, hFramed.flushing⟩
      rw [hFramed.maxPendingRows, hFramed.batchSize]
      omega
    · have hLe := h.size_le
      rw [enqueueRow_of_none hGet (if_neg hFull)]
      exact ⟨h.added 0 (.inr (by omega)), rfl, rfl, rfl⟩
  · rw [enqueueRow_of_some hGet]
    exact ⟨h.added existing.attempts (.inl (by rw [hGet, Option.isSome_some])), rfl, rfl, rfl⟩

theorem Inv.enqueueRows (h : Inv s flight) (records : List OccupancyHistoryRecord) :
    Inv (s.enqueueRows records).1 flight ∧ Framed s (s.enqueueRows records).1 := by
  induction records generalizing s with
  | nil => exact ⟨h, rfl, rfl, rfl⟩
  | cons record records ih =>
    obtain ⟨hRow, hFrame⟩ := h.enqueueRow record
    obtain ⟨hRows, hFrame'⟩ := ih hRow
    exact ⟨hRows, hFrame.trans hFrame'⟩

/-! ## The end of a write -/

/-- The first row of a batch has landed. -/
theorem Inv.landed (h : Inv s flight) (hFlight : flight = e :: rest) : Inv (s.land e) rest := by
  have hMem : e ∈ flight := hFlight ▸ mem_cons_self
  have hSub : ∀ p ∈ rest, p ∈ flight := fun p hp => hFlight ▸ mem_cons_of_mem e hp
  have hKeys := h.keys
  rw [hFlight, map_cons, nodup_cons] at hKeys
  have hOther : ∀ p ∈ rest, p.2.serial ≠ e.2.serial := by
    intro p hp hSerial
    have hEq := h.flight_unique (hSub p hp) hMem hSerial
    exact hKeys.1 (hEq ▸ mem_map_of_mem hp)
  have hFew := h.few
  rw [hFlight, length_cons] at hFew
  refine { h with
    flying := ?_
    keys := hKeys.2
    known := fun p hp => h.known p (hSub p hp)
    few := Nat.le_of_succ_le hFew
    passed := fun w hw hDone => ⟨(h.passed w hw hDone).1, fun p hp =>
      (h.passed w hw hDone).2 p (hSub p hp)⟩ }
  have hFlying := h.flying
  rw [hFlight, map_cons] at hFlying
  rw [land, hFlying, filter_cons_of_neg (by simp), filter_eq_self]
  intro n hn
  obtain ⟨p, hp, rfl⟩ := mem_map.mp hn
  exact decide_eq_true (hOther p hp)

theorem Inv.rowFailed (h : Inv s flight) (hFlight : flight = e :: rest) :
    Inv (s.rowFailed e) rest := by
  have hLanded := h.landed hFlight
  unfold Sink.rowFailed
  dsimp only
  split
  next => exact hLanded
  next current hGet =>
    split
    next => exact hLanded.dropped (by rw [held, hGet, Option.map_some])
    next => exact hLanded.touch hGet _

theorem lastWritten_concat (w : Write) (hDone : w.done = true) (k : Text) :
    lastWritten { s with trace := s.trace ++ [w] } k =
      if w.key = k then some w.serial else s.lastWritten k := by
  unfold lastWritten
  rw [filter_append]
  split
  next hKey =>
    rw [filter_cons_of_pos (by simp [hDone, hKey]), filter_nil, getLast?_concat,
      Option.map_some]
  next hKey =>
    rw [filter_cons_of_neg (by simp [hKey]), filter_nil, append_nil]

/-- The first row of a batch was written, and what is still pending of it is newer. -/
theorem Inv.written_of (h : Inv s flight) {e : Text × PendingEntry}
    {rest : List (Text × PendingEntry)} (hFlight : flight = e :: rest)
    {m : JsMap Text PendingEntry}
    (hSub : ∀ k c, m.get k = some c → s.pending.get k = some c ∧ (k = e.1 → e.2.serial < c.serial))
    (hRest : ∀ k i, s.held k = some i →
      (m.get k).map PendingEntry.serial = some i ∨ k = e.1 ∧ i = e.2.serial)
    (hSize : m.size ≤ s.pending.size) :
    Inv { s.land e with trace := s.trace ++ [doneOf e], pending := m } rest := by
  have hLanded := h.landed hFlight
  have hMem : e ∈ flight := hFlight ▸ mem_cons_self
  have hKeyAt : s.KeyAt e.2.serial e.1 := (h.known e hMem).keyAt
  have hHeld : ∀ k i, (m.get k).map PendingEntry.serial = some i →
      s.held k = some i ∧ (k = e.1 → e.2.serial < i) := by
    intro k i hi
    obtain ⟨c, hc, rfl⟩ := Option.map_eq_some_iff.mp hi
    obtain ⟨hGet, hLt⟩ := hSub k c hc
    exact ⟨by rw [held, hGet, Option.map_some], hLt⟩
  have hTrace : ∀ w ∈ s.trace ++ [doneOf e], w ∈ s.trace ∨ w = doneOf e := fun w hw => by
    rcases mem_append.mp hw with hw | hw
    · exact .inl hw
    · exact .inr (mem_singleton.mp hw)
  have hKeys := h.keys
  rw [hFlight, map_cons, nodup_cons] at hKeys
  refine { hLanded with
    own := fun k c hc => h.own k c (hSub k c hc).1
    newest := fun k i hi => h.newest k i (hHeld k i hi).1
    wrote := fun w hw => ?_
    passed := fun w hw hDone => ?_
    ordered := ?_
    kept := fun k i hKey hLast => ?_
    gone := fun n hn => ⟨(h.gone n hn).1, fun k hk => (h.gone n hn).2 k (hHeld k n hk).1⟩
    room := hSize.trans h.room }
  · rcases hTrace w hw with hw | rfl
    · exact h.wrote w hw
    · exact hKeyAt.lt
  · rcases hTrace w hw with hw | rfl
    · exact ⟨fun i hi => (h.passed w hw hDone).1 i (hHeld w.key i hi).1,
        (hLanded.passed w hw hDone).2⟩
    · exact ⟨fun i hi => (hHeld e.1 i hi).2 rfl,
        fun p hp hKey => absurd (mem_map.mpr ⟨p, hp, hKey⟩) hKeys.1⟩
  · refine pairwise_append.mpr ⟨h.ordered, pairwise_singleton _ _, ?_⟩
    intro a ha b hb hDone hKey
    rw [mem_singleton.mp hb] at hKey ⊢
    exact ((h.passed a ha hDone).2 e hMem hKey.symm).le
  · have hLastWritten : lastWritten
        { s.land e with trace := s.trace ++ [doneOf e], pending := m } k =
        if e.1 = k then some e.2.serial else s.lastWritten k :=
      lastWritten_concat (s := { s.land e with pending := m }) (doneOf e) rfl k
    rw [hLastWritten]
    rcases h.kept k i hKey hLast with hHeld' | hCounted | hWritten
    · rcases hRest k i hHeld' with hStill | ⟨rfl, rfl⟩
      · exact .inl hStill
      · exact .inr (.inr (if_pos rfl))
    · exact .inr (.inl hCounted)
    · by_cases hEq : e.1 = k
      · -- an earlier write of the last row would be older than the row in flight
        subst hEq
        have hLe := hLast _ hKeyAt
        obtain ⟨w, hw, rfl⟩ := Option.map_eq_some_iff.mp hWritten
        obtain ⟨hwMem, hwDone⟩ := mem_filter.mp (mem_of_getLast? hw)
        rw [Bool.and_eq_true, decide_eq_true_eq] at hwDone
        have hLt := (h.passed w hwMem hwDone.1).2 e hMem hwDone.2.symm
        exact absurd hLe (by omega)
      · rw [if_neg hEq]
        exact .inr (.inr hWritten)

theorem Inv.rowWritten (h : Inv s flight) (hFlight : flight = e :: rest) :
    Inv (s.rowWritten e) rest := by
  have hMem : e ∈ flight := hFlight ▸ mem_cons_self
  have hKeyAt : s.KeyAt e.2.serial e.1 := (h.known e hMem).keyAt
  rcases hGet : s.pending.get e.1 with - | current
  · have hRow : s.rowWritten e = { s.land e with
        trace := s.trace ++ [doneOf e], pending := s.pending } := by
      simp only [Sink.rowWritten, land, hGet]
    rw [hRow]
    refine h.written_of hFlight (fun k c hc => ⟨hc, fun hEq => ?_⟩) (fun k i hi => .inl hi) le_rfl
    rw [hEq, hGet] at hc
    cases hc
  have hHeld : s.held e.1 = some current.serial := by rw [held, hGet, Option.map_some]
  by_cases hSame : current.serial = e.2.serial
  · have hRow : s.rowWritten e = { s.land e with
        trace := s.trace ++ [doneOf e], pending := s.pending.delete e.1 } := by
      simp only [Sink.rowWritten, land, hGet, hSame, if_true]
    rw [hRow]
    refine h.written_of hFlight (fun k c hc => ?_) (fun k i hi => ?_) ?_
    · rw [get_delete] at hc
      split at hc
      next => cases hc
      next hNe => exact ⟨hc, fun hEq => absurd hEq hNe⟩
    · by_cases hEq : k = e.1
      · subst hEq
        rw [hHeld] at hi
        exact .inr ⟨rfl, (Option.some.inj hi).symm.trans hSame⟩
      · refine .inl ?_
        rw [get_delete, if_neg hEq]
        exact hi
    · have hSize := size_delete_of_get hGet
      omega
  · have hRow : s.rowWritten e = { s.land e with
        trace := s.trace ++ [doneOf e]
        pending := s.pending.set e.1 { current with attempts := 0 } } := by
      simp only [Sink.rowWritten, land, hGet, hSame, if_false]
    rw [hRow]
    have hLe := h.newest e.1 current.serial hHeld e.2.serial hKeyAt
    have hLater : Inv { s.land e with trace := s.trace ++ [doneOf e], pending := s.pending } rest := by
      refine h.written_of hFlight (fun k c hc => ⟨hc, fun hEq => ?_⟩) (fun k i hi => .inl hi) le_rfl
      rw [hEq, hGet] at hc
      cases hc
      omega
    exact hLater.touch hGet 0

theorem rowWritten_framed (s : Sink) (e : Text × PendingEntry) : Framed s (s.rowWritten e) := by
  unfold Sink.rowWritten
  dsimp only
  split
  next =>
    split
    · exact ⟨rfl, rfl, rfl⟩
    · exact ⟨rfl, rfl, rfl⟩
  next => exact ⟨rfl, rfl, rfl⟩

theorem rowFailed_framed (s : Sink) (e : Text × PendingEntry) : Framed s (s.rowFailed e) := by
  unfold Sink.rowFailed
  dsimp only
  split
  next => exact ⟨rfl, rfl, rfl⟩
  next =>
    split
    · exact ⟨rfl, rfl, rfl⟩
    · exact ⟨rfl, rfl, rfl⟩

/-- The rows of a batch, one after the other. -/
theorem Inv.foldl {row : Sink → Text × PendingEntry → Sink}
    (hRow : ∀ s e rest, Inv s (e :: rest) → Inv (row s e) rest) (hFramed : ∀ s e, Framed s (row s e))
    (h : Inv s flight) : Inv (flight.foldl row s) [] ∧ Framed s (flight.foldl row s) := by
  induction flight generalizing s with
  | nil => exact ⟨h, rfl, rfl, rfl⟩
  | cons e rest ih =>
    obtain ⟨hInv, hFrame⟩ := ih (hRow s e rest h)
    exact ⟨hInv, (hFramed s e).trans hFrame⟩

end holds

/-! ## Between events -/

section rest

variable {s : Sink}

/-- At most one call of `drain` has not been seen through. -/
structure Rest (s : Sink) : Prop where
  inv : Inv s s.drains.flatten
  alone : s.drains.length + s.settled = if s.flushing = true then 1 else 0

theorem Rest.drains_eq (h : Rest s) {i : Nat} {entries : List (Text × PendingEntry)}
    (hGet : s.drains[i]? = some entries) :
    s.drains = [entries] ∧ s.drains.eraseIdx i = [] ∧ s.settled = 0 ∧ s.flushing = true := by
  have hAlone := h.alone
  obtain ⟨hLt, hEq⟩ := List.getElem?_eq_some_iff.mp hGet
  have hOne : s.drains.length = 1 ∧ s.settled = 0 ∧ s.flushing = true := by
    split at hAlone
    next hFlushing => exact ⟨by omega, by omega, hFlushing⟩
    next => omega
  obtain ⟨batch, hBatch⟩ := length_eq_one_iff.mp hOne.1
  rw [hBatch] at hGet ⊢
  obtain rfl : i = 0 := by omega
  cases hGet
  exact ⟨rfl, rfl, hOne.2⟩

theorem Inv.drain (h : Inv s []) (hDrains : s.drains = []) (hSettled : s.settled = 0)
    (hFlushing : s.flushing = true) : Rest s.drain := by
  have hEnded : Rest { s with settled := s.settled + 1 } := by
    refine ⟨?_, ?_⟩
    · dsimp only
      rw [hDrains]
      exact { h with }
    · dsimp only
      rw [hDrains, hSettled, hFlushing]
      rfl
  unfold Sink.drain
  split
  next => exact hEnded
  dsimp only
  split
  next => exact hEnded
  next =>
    generalize hEntries : (s.pending.entries.filter fun e => s.waits e.2).take s.batchSize = entries
    have hSub : entries.Sublist s.pending.entries :=
      hEntries ▸ (take_sublist _ _).trans filter_sublist
    have hGet : ∀ p ∈ entries, s.pending.get p.1 = some p.2 := fun p hp =>
      get_eq_some_iff.mpr (hSub.subset hp)
    have hHeld : ∀ p ∈ entries, s.held p.1 = some p.2.serial := fun p hp => by
      rw [held, hGet p hp, Option.map_some]
    have hStart : ∀ w ∈ s.trace ++ entries.map startOf, w ∈ s.trace ∨
        w.done = false ∧ ∃ p ∈ entries, w = startOf p := by
      intro w hw
      rcases mem_append.mp hw with hw | hw
      · exact .inl hw
      · obtain ⟨p, hp, rfl⟩ := mem_map.mp hw
        exact .inr ⟨rfl, p, hp, rfl⟩
    have hFlight : (s.drains ++ [entries]).flatten = entries := by
      rw [hDrains, nil_append, flatten_cons, flatten_nil, append_nil]
    refine ⟨?_, ?_⟩
    · dsimp only
      rw [hFlight]
      refine { h with
        flying := ?_
        keys := s.pending.nodup.sublist (hSub.map _)
        known := fun p hp => h.own p.1 p.2 (hGet p hp)
        few := ?_
        wrote := fun w hw => ?_
        passed := fun w hw hDone => ?_
        ordered := ?_
        kept := fun k i hKey hLast => ?_ }
      · have hNone := h.flying
        dsimp only
        rw [hNone]
        rfl
      · rw [← hEntries]
        exact length_take_le _ _
      · rcases hStart w hw with hw | ⟨-, p, hp, rfl⟩
        · exact h.wrote w hw
        · exact (h.own p.1 p.2 (hGet p hp)).keyAt.lt
      · rcases hStart w hw with hw | ⟨hFalse, -⟩
        · exact ⟨(h.passed w hw hDone).1, fun p hp hKey =>
            (h.passed w hw hDone).1 p.2.serial (hKey ▸ hHeld p hp)⟩
        · rw [hDone] at hFalse
          cases hFalse
      · refine pairwise_append.mpr ⟨h.ordered, ?_, ?_⟩
        · refine pairwise_of_forall_mem_list fun a ha b _ hDone => ?_
          obtain ⟨p, -, rfl⟩ := mem_map.mp ha
          cases hDone
        · intro a ha b hb hDone hKey
          obtain ⟨p, hp, rfl⟩ := mem_map.mp hb
          exact ((h.passed a ha hDone).1 p.2.serial (hKey ▸ hHeld p hp)).le
      · have hNone : (entries.map startOf).filter (fun w => w.done && w.key = k) = [] := by
          rw [filter_eq_nil_iff]
          intro w hw
          obtain ⟨p, -, rfl⟩ := mem_map.mp hw
          simp [startOf]
        rw [lastWritten, filter_append, hNone, append_nil]
        exact h.kept k i hKey hLast
    · dsimp only
      rw [hDrains, hSettled, hFlushing]
      rfl

theorem Rest.flush (h : Rest s) : Rest s.flush := by
  have hAlone := h.alone
  unfold Sink.flush
  split
  next => exact h
  next hNot =>
    rw [if_neg hNot] at hAlone
    have hDrains : s.drains = [] := length_eq_zero_iff.mp (by omega)
    have hInv := h.inv
    rw [hDrains] at hInv
    exact Inv.drain { hInv with } hDrains (by dsimp only; omega) rfl

theorem Rest.discard (h : Rest s) : Rest s.discard := by
  refine ⟨?_, h.alone⟩
  have hInv := h.inv
  have hHeld : ∀ n ∈ s.pending.values.map PendingEntry.serial, ∃ k, s.held k = some n := by
    intro n hn
    obtain ⟨e, he, rfl⟩ := mem_map.mp hn
    obtain ⟨k, hk⟩ := mem_values_iff.mp he
    exact ⟨k, by rw [held, hk, Option.map_some]⟩
  refine { hInv with
    own := fun k e he => nomatch he
    newest := fun k i hi => nomatch hi
    passed := fun w hw hDone => ⟨fun i hi => (nomatch hi), (hInv.passed w hw hDone).2⟩
    kept := fun k i hKey hLast => ?_
    total := ?_
    once := ?_
    gone := fun n hn => ⟨?_, fun k hk => nomatch hk⟩
    room := Nat.zero_le _ }
  · rcases hInv.kept k i hKey hLast with hHeld' | hCounted | hWritten
    · obtain ⟨e, he, rfl⟩ := Option.map_eq_some_iff.mp hHeld'
      have hMem : e ∈ s.pending.values := mem_values_iff.mpr ⟨k, he⟩
      exact .inr (.inl (mem_append_right _ (mem_map_of_mem hMem)))
    · exact .inr (.inl (mem_append_left _ hCounted))
    · exact .inr (.inr hWritten)
  · change s.droppedRows + _ = (s.counted ++ _).length
    rw [length_append, hInv.total]
  · refine nodup_append.mpr ⟨hInv.once, ?_, fun a ha b hb hEq => ?_⟩
    · rw [JsMap.values, map_map]
      refine List.Nodup.map_on (fun a ha b hb hSerial => ?_) (List.Nodup.of_map _ s.pending.nodup)
      have hGet := get_eq_some_iff.mpr ha
      have hGet' := get_eq_some_iff.mpr hb
      have hKeyAt : s.KeyAt a.2.serial b.1 := by
        rw [show a.2.serial = b.2.serial from hSerial]
        exact (hInv.own b.1 b.2 hGet').keyAt
      have hKey : a.1 = b.1 := (hInv.own a.1 a.2 hGet).keyAt.unique hKeyAt
      rw [hKey, hGet'] at hGet
      exact Prod.ext hKey (Option.some.inj hGet).symm
    · obtain ⟨k, hk⟩ := hHeld b hb
      exact (hInv.gone a ha).2 k (hEq ▸ hk)
  · rcases mem_append.mp hn with hn | hn
    · exact (hInv.gone n hn).1
    · obtain ⟨k, hk⟩ := hHeld n hn
      exact (hInv.keyAt hk).lt

theorem Rest.enqueue (h : Rest s) (snapshot : OccupancySnapshot) : Rest (s.enqueue snapshot).1 := by
  unfold Sink.enqueue
  split
  next => exact h
  next =>
    obtain ⟨hInv, hFramed⟩ := h.inv.enqueueRows (recordsOf snapshot)
    refine Rest.flush ⟨?_, ?_⟩
    · rw [hFramed.drains]
      exact hInv
    · rw [hFramed.drains, hFramed.settled, hFramed.flushing]
      exact h.alone

theorem Rest.written (h : Rest s) {i : Nat} {entries : List (Text × PendingEntry)}
    (hGet : s.drains[i]? = some entries) (now : Int) :
    Rest (batchWritten { s with drains := s.drains.eraseIdx i } entries now) := by
  obtain ⟨hOne, hNil, hSettled, hFlushing⟩ := h.drains_eq hGet
  have hInv := h.inv
  rw [hOne, flatten_cons, flatten_nil, append_nil] at hInv
  rw [hNil]
  have hBatch : Inv { s with drains := [] } entries := { hInv with }
  obtain ⟨hRows, hFramed⟩ := hBatch.foldl (fun s e rest hs => hs.rowWritten rfl) rowWritten_framed
  exact Inv.drain { hRows with } hFramed.drains (hFramed.settled.trans hSettled)
    (hFramed.flushing.trans hFlushing)

theorem Rest.failed (h : Rest s) {i : Nat} {entries : List (Text × PendingEntry)}
    (hGet : s.drains[i]? = some entries) (message : Text) :
    Rest (batchFailed { s with drains := s.drains.eraseIdx i } entries message) := by
  obtain ⟨hOne, hNil, hSettled, hFlushing⟩ := h.drains_eq hGet
  have hInv := h.inv
  rw [hOne, flatten_cons, flatten_nil, append_nil] at hInv
  rw [hNil]
  have hBatch : Inv { s with
      drains := []
      failedBatches := s.failedBatches + 1
      lastError := some message } entries := { hInv with }
  obtain ⟨hRows, hFramed⟩ := hBatch.foldl (fun s e rest hs => hs.rowFailed rfl) rowFailed_framed
  unfold batchFailed
  generalize entries.foldl Sink.rowFailed _ = s' at hRows hFramed ⊢
  have hRest : ∀ s'' : Sink, Inv s'' [] → Framed s' s'' →
      Rest { s'' with settled := s''.settled + 1 } := by
    intro s'' hs'' hFramed'
    have hAll := hFramed.trans hFramed'
    refine ⟨?_, ?_⟩
    · dsimp only
      rw [hAll.drains]
      exact { hs'' with }
    · dsimp only
      rw [hAll.drains, hAll.settled, hAll.flushing, hSettled, hFlushing]
      rfl
  dsimp only
  split
  next => exact hRest s'.scheduleRetry { hRows with } ⟨rfl, rfl, rfl⟩
  next => exact hRest s' hRows ⟨rfl, rfl, rfl⟩

theorem Rest.step (h : Rest s) (e : Event) : Rest (s.step e) := by
  cases e with
  | enqueue snapshot => exact h.enqueue snapshot
  | flush => exact h.flush
  | timer =>
    dsimp only [Sink.step]
    split
    next => exact Rest.flush ⟨{ h.inv with }, h.alone⟩
    next => exact h
  | written i now =>
    dsimp only [Sink.step]
    split
    next entries hGet => exact h.written hGet now
    next => exact h
  | failed i message =>
    dsimp only [Sink.step]
    split
    next entries hGet => exact h.failed hGet message
    next => exact h
  | ended =>
    dsimp only [Sink.step]
    split
    next hSettled =>
      have hAlone := h.alone
      refine ⟨{ h.inv with }, ?_⟩
      dsimp only
      split at hAlone
      next => rw [if_neg (by simp)]; omega
      next => omega
    next => exact h
  | dispose =>
    have hDisposed : Rest { s with disposed := true, retryTimer := false } :=
      ⟨{ h.inv with }, h.alone⟩
    dsimp only [Sink.step, Sink.dispose]
    split
    next => exact ⟨{ h.inv with }, h.alone⟩
    next => exact hDisposed.discard
  | disposed =>
    dsimp only [Sink.step]
    split
    next => exact Rest.discard ⟨{ h.inv with }, h.alone⟩
    next => exact h

theorem positiveInt_ok {value : Int} {name : Text} {n : Nat} (h : positiveInt value name = .ok n) :
    0 < n := by
  unfold positiveInt at h
  split at h
  next hPositive =>
    obtain rfl := Except.ok.inj h
    omega
  next => cases h

theorem rest_make {options : OccupancyHistorySinkOptions} (h : make options = .ok s) : Rest s := by
  unfold make at h
  rcases hRows : positiveInt (options.maxPendingRows.getD 5000) (js "maxPendingRows") with error | rows
  · rw [hRows] at h
    cases h
  rcases hBatch : positiveInt (options.batchSize.getD 250) (js "batchSize") with error | batch
  · rw [hRows, hBatch] at h
    cases h
  rcases hAttempts : positiveInt (options.maxAttempts.getD 3) (js "maxAttempts") with error | attempts
  · rw [hRows, hBatch, hAttempts] at h
    cases h
  rw [hRows, hBatch, hAttempts] at h
  obtain rfl := Except.ok.inj h
  exact {
    inv := {
      positive := positiveInt_ok hRows
      flying := rfl
      keys := nodup_nil
      known := fun p hp => (nomatch hp)
      few := Nat.zero_le _
      own := fun k e he => (nomatch he)
      newest := fun k i hi => (nomatch hi)
      wrote := fun w hw => (nomatch hw)
      passed := fun w hw => (nomatch hw)
      ordered := List.Pairwise.nil
      kept := fun k i hi => (nomatch hi)
      total := rfl
      once := nodup_nil
      gone := fun n hn => (nomatch hn)
      room := Nat.zero_le _ }
    alone := rfl }

end rest

end Sink

/-! ## Keys -/

theorem minus_not_mem (n : Nat) : (45 : UInt16) ∉ Text.decimal n := fun hMem =>
  absurd (Text.decimal_digits hMem).1 (by decide)

theorem integerText_injective : Function.Injective integerText := by
  intro m n h
  unfold integerText at h
  split at h
  next hm =>
    split at h
    next hn =>
      have hAbs := Text.decimal_injective (List.cons.inj h).2
      omega
    next => exact absurd (h ▸ mem_cons_self) (minus_not_mem n.natAbs)
  next hm =>
    split at h
    next => exact absurd (h ▸ mem_cons_self) (minus_not_mem m.natAbs)
    next hn =>
      have hAbs := Text.decimal_injective h
      omega

/-- Ids without the separator. -/
def NulFree (r : OccupancyHistoryRecord) : Prop := 0 ∉ r.edgeId ∧ 0 ∉ r.floorId ∧ 0 ∉ r.tableId

theorem split_nul {a b c d : Text} (ha : 0 ∉ a) (hc : 0 ∉ c)
    (h : a ++ (0 : UInt16) :: b = c ++ 0 :: d) : a = c ∧ b = d := by
  induction a generalizing c with
  | nil =>
    cases c with
    | nil => exact ⟨rfl, (List.cons.inj h).2⟩
    | cons x c => exact absurd ((List.cons.inj h).1 ▸ mem_cons_self) hc
  | cons x a ih =>
    cases c with
    | nil => exact absurd ((List.cons.inj h).1 ▸ mem_cons_self) ha
    | cons y c =>
      obtain ⟨hHead, hTail⟩ := List.cons.inj h
      obtain ⟨hEq, hRest⟩ := ih (fun hMem => ha (mem_cons_of_mem _ hMem))
        (fun hMem => hc (mem_cons_of_mem _ hMem)) hTail
      exact ⟨cons_eq_cons.mpr ⟨hHead, hEq⟩, hRest⟩

theorem recordKey_injective {r r' : OccupancyHistoryRecord} (h : NulFree r) (h' : NulFree r')
    (hKey : recordKey r = recordKey r') : r.edgeId = r'.edgeId ∧ r.floorId = r'.floorId ∧
      r.tableId = r'.tableId ∧ r.minuteAt = r'.minuteAt := by
  unfold recordKey at hKey
  obtain ⟨hEdge, hKey⟩ := split_nul h.1 h'.1 hKey
  obtain ⟨hFloor, hKey⟩ := split_nul h.2.1 h'.2.1 hKey
  obtain ⟨hTable, hMinute⟩ := split_nul h.2.2 h'.2.2 hKey
  exact ⟨hEdge, hFloor, hTable, integerText_injective hMinute⟩

/-! ## The accounting -/

open Sink

/-- Nothing is lost that is not counted. -/
structure Accounted (s : Sink) : Prop where
  last : ∀ key i, s.KeyAt i key → (∀ j, s.KeyAt j key → j ≤ i) →
    s.held key = some i ∨ i ∈ s.counted ∨ s.lastWritten key = some i
  counted : s.droppedRows = s.counted.length ∧ s.counted.Nodup
  genuine : ∀ batch ∈ s.drains, ∀ p ∈ batch, s.Genuine p
  order : s.trace.Pairwise fun a b => a.done = true → a.key = b.key → a.serial ≤ b.serial
  single : s.drains.length ≤ 1
  bounded : s.pending.size ≤ s.maxPendingRows + s.batchSize

theorem losses_counted (options : OccupancyHistorySinkOptions) (s : Sink)
    (hMake : make options = .ok s) (events : List Event) :
    Accounted (run Sink.step s events) ∧ ∀ r r', NulFree r → NulFree r' →
      recordKey r = recordKey r' → r.edgeId = r'.edgeId ∧ r.floorId = r'.floorId ∧
        r.tableId = r'.tableId ∧ r.minuteAt = r'.minuteAt := by
  refine ⟨?_, fun r r' => recordKey_injective⟩
  have hRest := run_invariant Rest (fun s e h => h.step e) (rest_make hMake) events
  generalize run Sink.step s events = s' at hRest
  have h := hRest.inv
  refine ⟨h.kept, ⟨h.total, h.once⟩, fun batch hBatch p hp => ?_, h.ordered, ?_, h.room⟩
  · exact h.known p (List.mem_flatten.mpr ⟨batch, hBatch, hp⟩)
  · have hAlone := hRest.alone
    split at hAlone
    next => omega
    next => omega

/-- A floor with one table. -/
def oneTable (time : Int) (occupied : Nat) : OccupancySnapshot where
  edgeId := js "edge"
  generatedAt := time
  floors := [{
    id := js "floor"
    building := js "Building"
    name := js "Floor"
    width := 1000
    height := 500
    outline := []
    zones := []
    tables := [{
      id := js "T1"
      name := js "T1"
      zoneId := js "Z1"
      rect := { x := 0, y := 0, width := 100, height := 100 }
      capacity := 4
      occupied := some occupied
      free := some (4 - occupied)
      status := .ok
      seats := [] }]
    totals := { seats := 4, free := 2, occupied := 2, unknownSeats := 0, tablesFullyFree := 0 } }]

theorem losses_counted_replaced :
    Accounted (run Sink.step { maxPendingRows := 1, batchSize := 1, maxAttempts := 3 }
      [.enqueue (oneTable 1 2), .enqueue (oneTable 10001 3), .written 0 10002, .dispose]) :=
  (losses_counted { maxPendingRows := some 1, batchSize := some 1 } _ rfl _).1

end TMEdge.History
