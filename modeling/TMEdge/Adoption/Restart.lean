import TMEdge.Adoption.Model

/-!
# Pending adoptions survive a restart

* `loadRows_ok`: the constructor takes valid rows, and keeps those that are alive and not
  registered, in order.
* `Kept`: the pending file is one the constructor takes, and its rows that are alive and
  unregistered are the pending requests, at any later time.
* `adoption_restart`: in a run with times that do not go back, opening on the same files
  gives the same requests at every moment exactly when every request queued has a label.
* `blank_label`: a request without a label, after which the constructor throws.
* `admitted_by_approval`: the nodes added are those approved in time, in every run.
-/

namespace TMEdge.Adoption

open Library List JsMap

variable {U : Unicode} {w : World} {uid id : Text} {now : Int} {io : Bool}

/-! ## The loader -/

/-- The rows the constructor keeps. -/
def survives (nodes : List Text) (now : Int) (r : JoinRequest) : Bool :=
  r.expiresAt > now && !nodes.contains r.uid

theorem loadRows_ok (nodes : List Text) (now : Int) (pending : JsMap Text JoinRequest)
    {rows : List JoinRequest} (hValid : ∀ r ∈ rows, validRow r = true)
    (hIds : (pending.keys ++ rows.map JoinRequest.id).Nodup) :
    ∃ pending', loadRows nodes now pending rows = .ok pending' ∧
      pending'.entries = pending.entries ++
        (rows.filter (survives nodes now)).map fun r => (r.id, r) := by
  induction rows generalizing pending with
  | nil => exact ⟨pending, rfl, by simp⟩
  | cons r rows ih =>
    have hRow := hValid r (by simp)
    have hRest : ∀ r' ∈ rows, validRow r' = true := fun r' hr' => hValid r' (by simp [hr'])
    have hNew : r.id ∉ pending.keys := fun hMem =>
      (nodup_append.mp hIds).2.2 _ hMem r.id (by simp) rfl
    rw [loadRows, hRow]
    simp only [Bool.not_true, Bool.false_eq_true, if_false]
    by_cases hKeep : survives nodes now r = true
    · have hEntries := entries_set_new hNew r
      have hKeys := keys_set_new hNew r
      obtain ⟨pending', hLoad, hAll⟩ := ih (pending.set r.id r) hRest (by
        rw [hKeys, append_assoc]
        simpa using hIds)
      refine ⟨pending', ?_, ?_⟩
      · rw [survives] at hKeep
        rw [if_pos hKeep]
        exact hLoad
      · rw [hAll, hEntries, filter_cons_of_pos hKeep]
        simp
    · obtain ⟨pending', hLoad, hAll⟩ := ih pending hRest (by
        rw [map_cons] at hIds
        exact hIds.sublist (List.Sublist.append_left (sublist_cons_self _ _) _))
      refine ⟨pending', ?_, ?_⟩
      · rw [survives] at hKeep
        rw [if_neg hKeep]
        exact hLoad
      · rw [hAll, filter_cons_of_neg hKeep]

theorem loadRows_error (nodes : List Text) (now : Int) (pending : JsMap Text JoinRequest)
    {rows : List JoinRequest} (h : ∃ r ∈ rows, validRow r = false) :
    ∃ e, loadRows nodes now pending rows = .error e := by
  induction rows generalizing pending with
  | nil =>
    obtain ⟨r, hr, -⟩ := h
    cases hr
  | cons r rows ih =>
    rw [loadRows]
    cases hRow : validRow r with
    | false => exact ⟨_, rfl⟩
    | true =>
      have hRest : ∃ r ∈ rows, validRow r = false := by
        obtain ⟨r', hr', hBad⟩ := h
        rcases mem_cons.mp hr' with rfl | hr'
        · rw [hRow] at hBad
          cases hBad
        · exact ⟨r', hr', hBad⟩
      simp only [Bool.not_true, Bool.false_eq_true, if_false]
      split <;> exact ih _ hRest

/-! ## The size of the file -/

theorem hexPairs_length {n : Nat} {t : Text} (h : hexPairs n t = true) : t.length = 3 * n + 2 := by
  fun_induction hexPairs n t with
  | case1 => rfl
  | case2 n a b c t ih =>
    rw [Bool.and_eq_true] at h
    have hRest := ih h.2
    simp only [length_cons]
    omega
  | case3 => cases h

theorem colon_mem_of_uid (h : uidPattern uid = true) : colon ∈ uid := by
  unfold uidPattern at h
  unfold hexPairs at h
  split at h
  · rename_i hEq
    cases hEq
  · simp only [Bool.and_eq_true, beq_iff_eq] at h
    simp [h.1.2]
  · cases h

/-- The colons of a uid are not characters of a label. -/
theorem not_label_of_uid (h : uidPattern uid = true) : labelPattern uid = false := by
  rw [← Bool.not_eq_true]
  intro hLabel
  rw [labelPattern, Bool.and_eq_true, all_eq_true] at hLabel
  have hColon := hLabel.2 colon (colon_mem_of_uid h)
  revert hColon
  decide

/-- A uid of the pattern is in lower case. -/
theorem lower_of_uid {n : Nat} (h : hexPairs n uid = true) :
    ∀ c ∈ uid, c < 128 ∧ asciiLower c = c := by
  have hHex : ∀ c, Text.isHexDigit c = true → c < 128 ∧ asciiLower c = c := by
    intro c hc
    simp only [Text.isHexDigit, Bool.or_eq_true, Bool.and_eq_true, decide_eq_true_eq,
      UInt16.le_iff_toNat_le] at hc
    have hNums : (48 : UInt16).toNat = 48 ∧ (57 : UInt16).toNat = 57 ∧ (97 : UInt16).toNat = 97 ∧
        (102 : UInt16).toNat = 102 ∧ (65 : UInt16).toNat = 65 ∧ (90 : UInt16).toNat = 90 ∧
          (128 : UInt16).toNat = 128 := by decide
    refine ⟨UInt16.lt_iff_toNat_lt.mpr (by omega), if_neg ?_⟩
    rw [UInt16.le_iff_toNat_le, UInt16.le_iff_toNat_le]
    omega
  fun_induction hexPairs n uid with
  | case1 a b =>
    rw [Bool.and_eq_true] at h
    simp [hHex a h.1, hHex b h.2]
  | case2 n a b c t ih =>
    simp only [Bool.and_eq_true, beq_iff_eq] at h
    obtain ⟨⟨⟨ha, hb⟩, hc⟩, ht⟩ := h
    intro d hd
    simp only [mem_cons] at hd
    rcases hd with rfl | rfl | rfl | hd
    · exact hHex d ha
    · exact hHex d hb
    · rw [hc]
      decide
    · exact ih ht d hd
  | case3 => cases h

theorem toLowerCase_uid (h : uidPattern uid = true) : U.toLowerCase uid = uid := by
  have hLower := lower_of_uid h
  rw [U.toLowerCase_ascii uid fun c hc => (hLower c hc).1]
  calc uid.map asciiLower = uid.map id := map_congr_left fun c hc => (hLower c hc).2
    _ = uid := map_id _

theorem rowBytes_le {r : JoinRequest} (h : validRow r = true) : rowBytes r ≤ 1800 := by
  simp only [validRow, Bool.and_eq_true, decide_eq_true_eq, idPattern, labelPattern,
    beq_iff_eq, isSafeInteger] at h
  obtain ⟨⟨⟨⟨⟨⟨⟨⟨hId, -⟩, hUid⟩, ⟨-, hLabel⟩, -⟩, hFirmware⟩, hFrom⟩, hAt⟩, hExpires⟩, -⟩ := h
  have hUid := hexPairs_length hUid
  have hIdBytes := r.id.jsonBytes_le
  have hUidBytes := r.uid.jsonBytes_le
  have hLabelBytes := r.label.jsonBytes_le
  have hFromBytes := r.from_.jsonBytes_le
  have hAtBytes := Text.integerBytes_le (x := r.at_) (by omega)
  have hExpiresBytes := Text.integerBytes_le (x := r.expiresAt) (by omega)
  have hFirmwareBytes : (r.firmware.map Text.jsonBytes).getD 4 ≤ 242 := by
    cases hf : r.firmware with
    | none => decide
    | some f =>
      rw [hf, Option.all_some, decide_eq_true_eq] at hFirmware
      have hBytes := f.jsonBytes_le
      simp only [Option.map_some, Option.getD_some]
      omega
  unfold rowBytes
  omega

theorem fileBytes_le {rows : List JoinRequest} (hValid : ∀ r ∈ rows, validRow r = true)
    (hLength : rows.length ≤ maxPending) : fileBytes rows ≤ 128 * 1024 := by
  have hSum := sum_le_card_nsmul (rows.map rowBytes) 1800 (by
    intro b hb
    obtain ⟨r, hr, rfl⟩ := mem_map.mp hb
    exact rowBytes_le (hValid r hr))
  rw [length_map, smul_eq_mul] at hSum
  unfold maxPending at hLength
  unfold fileBytes
  omega

/-! ## What the pending file says -/

/-- The rows of the pending file, none when it is missing. -/
def World.rows (w : World) : List JoinRequest := w.pendingFile.getD []

def alive (now : Int) (r : JoinRequest) : Bool := !(r.expiresAt ≤ now)

/-- The pending requests by their ids, and what the constructor makes of the pending file. -/
structure Kept (U : Unicode) (w : World) : Prop where
  nodes : w.service.nodes = w.nodesFile.map U.toLowerCase
  indexed : JsMap.Indexed JoinRequest.id w.service.pending
  unregistered : ∀ r ∈ w.service.pending.values, r.uid ∉ w.service.nodes
  uids : (w.service.pending.values.map JoinRequest.uid).Nodup
  size : w.service.pending.size ≤ maxPending
  valid : ∀ r ∈ w.service.pending.values, validRow r = true
  stored : ∀ r ∈ w.rows, validRow r = true
  length : w.rows.length ≤ maxPending
  ids : (w.rows.map JoinRequest.id).Nodup
  same : ∀ now, w.clock ≤ now → w.rows.filter (survives w.service.nodes now) =
    w.service.pending.values.filter (alive now)

/-- Opening on the same files succeeds and lists what the old instance lists of unregistered
uids. -/
def Reopens (U : Unicode) (w : World) (now : Int) : Prop :=
  ∃ p, openStore U w.nodesFile w.pendingFile now = .ok p ∧
    p.requests now = (w.service.requests now).filter fun r => !w.service.nodes.contains r.uid

theorem values_filter (m : JsMap Text JoinRequest) (f : JoinRequest → Bool) :
    (m.filter f).values = m.values.filter f := by
  simp only [JsMap.values, JsMap.filter, filter_map]
  rfl

theorem alive_alive {later : Int} (h : now ≤ later) (r : JoinRequest) :
    (alive later r && alive now r) = alive later r := by
  unfold alive
  by_cases hLate : r.expiresAt ≤ later
  · simp [hLate]
  · have hNow : ¬ r.expiresAt ≤ now := by omega
    simp [hLate, hNow]

theorem Kept.open (h : Kept U w) {now : Int} (hNow : w.clock ≤ now) :
    ∃ p, openStore U w.nodesFile w.pendingFile now = .ok p ∧ p.nodes = w.service.nodes ∧
      p.pending.entries = (w.service.pending.values.filter (alive now)).map fun r => (r.id, r) := by
  cases hFile : w.pendingFile with
  | none =>
    have hRows : w.rows = [] := by rw [World.rows, hFile]; rfl
    have hSame := h.same now hNow
    rw [hRows, filter_nil] at hSame
    refine ⟨_, rfl, h.nodes.symm, ?_⟩
    rw [← hSame]
    rfl
  | some rows =>
    have hRows : w.rows = rows := by rw [World.rows, hFile]; rfl
    have hStored := h.stored
    have hLength := h.length
    have hIds := h.ids
    have hSame := h.same now hNow
    rw [hRows] at hStored hLength hIds hSame
    obtain ⟨pending, hLoad, hEntries⟩ := loadRows_ok w.service.nodes now .empty hStored
      (by simpa [JsMap.keys, JsMap.empty] using hIds)
    refine ⟨⟨w.service.nodes, pending⟩, ?_, rfl, ?_⟩
    · have hBytes := fileBytes_le hStored hLength
      simp only [openStore, if_neg (not_lt.mpr hBytes), if_neg (not_lt.mpr hLength), ← h.nodes,
        hLoad]
    · rw [← hSame, hEntries]
      rfl

theorem Kept.reopens (h : Kept U w) (hNow : w.clock ≤ now) : Reopens U w now := by
  obtain ⟨p, hOpen, -, hEntries⟩ := h.open hNow
  have hValues : p.pending.values = w.service.pending.values.filter (alive now) := by
    rw [JsMap.values, hEntries, map_map]
    exact map_id _
  have hBoth : (p.expire now).pending.values = (w.service.expire now).pending.values := by
    simp only [Provisioning.expire, values_filter, hValues]
    rw [filter_filter]
    exact filter_congr fun r _ => alive_alive (le_refl now) r
  refine ⟨p, hOpen, ?_⟩
  rw [Provisioning.requests, Provisioning.requests, hBoth, eq_comm, filter_eq_self]
  intro r hr
  rw [mem_mergeSort] at hr
  simp only [Provisioning.expire, values_filter] at hr
  have hNot := h.unregistered r (mem_filter.mp hr).1
  simpa using hNot

/-! ## Steps -/

/-- Dropping pending requests that no later opening would keep. -/
theorem Kept.drop (h : Kept U w) (hNow : w.clock ≤ now) {pending : JsMap Text JoinRequest}
    (hValues : pending.values = w.service.pending.values.filter (alive now))
    (hIndexed : pending.Indexed JoinRequest.id) :
    Kept U { w with clock := now, service := ⟨w.service.nodes, pending⟩ } := by
  have hSub : ∀ r ∈ pending.values, r ∈ w.service.pending.values := by
    intro r hr
    rw [hValues] at hr
    exact (mem_filter.mp hr).1
  refine ⟨h.nodes, hIndexed, fun r hr => h.unregistered r (hSub r hr), ?_, ?_,
    fun r hr => h.valid r (hSub r hr), h.stored, h.length, h.ids, fun later hLater => ?_⟩
  · dsimp only
    rw [hValues]
    exact h.uids.sublist (filter_sublist.map _)
  · have hLength : ∀ m : JsMap Text JoinRequest, m.size = m.values.length := fun m => by
      simp [JsMap.size, JsMap.values]
    have hSize := h.size
    dsimp only
    rw [hLength] at hSize ⊢
    rw [hValues]
    exact (length_filter_le _ _).trans hSize
  · dsimp only at hLater ⊢
    rw [hValues, filter_filter]
    refine (h.same later (hNow.trans hLater)).trans (filter_congr fun r _ => ?_)
    exact (alive_alive hLater r).symm

theorem Kept.expire (h : Kept U w) (hNow : w.clock ≤ now) :
    Kept U ({ w with clock := now }.expire now) :=
  h.drop hNow (values_filter _ _) (h.indexed.filter _)

/-- A pending file that holds the pending requests, which are unregistered. -/
theorem Kept.written (h : Kept U w) (pending : JsMap Text JoinRequest)
    (hIndexed : pending.Indexed JoinRequest.id)
    (hUnregistered : ∀ r ∈ pending.values, r.uid ∉ w.service.nodes)
    (hUids : (pending.values.map JoinRequest.uid).Nodup) (hSize : pending.size ≤ maxPending)
    (hValid : ∀ r ∈ pending.values, validRow r = true) :
    Kept U { w with
      service := ⟨w.service.nodes, pending⟩
      pendingFile := some pending.values } := by
  refine ⟨h.nodes, hIndexed, hUnregistered, hUids, hSize, hValid, hValid, ?_, ?_, fun later _ => ?_⟩
  · simpa [World.rows, JsMap.size, JsMap.values] using hSize
  · have hKeys : (pending.values.map JoinRequest.id) = pending.keys := hIndexed.map_values
    simp only [World.rows, Option.getD_some, hKeys]
    exact pending.nodup
  · simp only [World.rows, Option.getD_some]
    refine filter_congr fun r hr => ?_
    have hNot := hUnregistered r hr
    by_cases hLate : r.expiresAt ≤ later
    · simp [survives, alive, hLate]
    · simp [survives, alive, hLate, hNot, not_le.mp hLate]

/-- What the platform promises about an event: times do not go back and are dates, a new
request gets a fresh id, and callers' addresses have at most 100 characters. -/
def Fair (w : World) (e : Event) : Prop :=
  w.clock ≤ e.now ∧ e.now.natAbs ≤ 8640000000000000 ∧
    match e with
    | .request _ _ _ caller _ id _ =>
      idPattern id = true ∧ id ∉ w.service.pending.keys ∧ caller.length ≤ 100
    | _ => True

/-- The request is one the service queues. -/
def Queues (U : Unicode) (w : World) (uidRaw labelRaw : Text) (now : Int) (io : Bool) : Prop :=
  uidPattern (U.toLowerCase uidRaw).trim = true ∧
    (labelRaw.trim = [] ∨ labelPattern labelRaw.trim = true) ∧
      (U.toLowerCase uidRaw).trim ∉ w.service.nodes ∧
        (∀ r ∈ (w.service.expire now).pending.values, r.uid ≠ (U.toLowerCase uidRaw).trim) ∧
          (w.service.expire now).pending.size < maxPending ∧ io = true

/-- A request that is queued has a label. -/
def Named (U : Unicode) (w : World) : Event → Prop
  | .request uid label _ _ now _ io => Queues U w uid label now io → label.trim ≠ []
  | _ => True

/-- The row a queued request becomes. -/
def newRow (U : Unicode) (uidRaw labelRaw firmwareRaw caller : Text) (now : Int) (id : Text) :
    JoinRequest :=
  let uid := (U.toLowerCase uidRaw).trim
  let cut := firmwareRaw.trim.take 40
  ⟨id, uid, if labelRaw.trim.isEmpty then uid else labelRaw.trim,
    if cut.isEmpty then none else some cut, caller, now, now + requestTtlMs⟩

/-- A request changes no more than what has expired, or it is queued. -/
theorem request_cases (U : Unicode) (w : World) (uidRaw labelRaw firmwareRaw caller : Text)
    (now : Int) (id : Text) (io : Bool) :
    ((w.request U uidRaw labelRaw firmwareRaw caller now id io).1 = w.expire now ∧
        ¬ Queues U w uidRaw labelRaw now io) ∨
      (Queues U w uidRaw labelRaw now io ∧
        (w.request U uidRaw labelRaw firmwareRaw caller now id io).1 =
          { w.expire now with pendingFile := some ((w.service.expire now).pending.values ++
            [newRow U uidRaw labelRaw firmwareRaw caller now id]) }.setPending
              ((w.service.expire now).pending.set id
                (newRow U uidRaw labelRaw firmwareRaw caller now id))) := by
  unfold World.request
  dsimp only
  split
  · rename_i hUid
    rw [Bool.not_eq_true'] at hUid
    exact Or.inl ⟨rfl, fun h => by rw [h.1] at hUid; cases hUid⟩
  rename_i hUid
  rw [Bool.not_eq_true', Bool.not_eq_false] at hUid
  split
  · rename_i hLabel
    refine Or.inl ⟨rfl, fun h => ?_⟩
    rcases h.2.1 with hEmpty | hPattern
    · simp [hEmpty] at hLabel
    · simp [hPattern] at hLabel
  rename_i hLabel
  have hLabel' : labelRaw.trim = [] ∨ labelPattern labelRaw.trim = true := by
    by_cases hEmpty : labelRaw.trim = []
    · exact Or.inl hEmpty
    · exact Or.inr (by simpa [hEmpty] using hLabel)
  split
  · rename_i hOld
    exact Or.inl ⟨rfl, fun h => h.2.2.1 (by simpa using hOld)⟩
  rename_i hOld
  split
  · rename_i r hFind
    refine Or.inl ⟨rfl, fun h => h.2.2.2.1 r (mem_of_find?_eq_some hFind) ?_⟩
    simpa using find?_some hFind
  rename_i hFind
  split
  · rename_i hFull
    exact Or.inl ⟨rfl, fun h => absurd hFull (not_le.mpr h.2.2.2.2.1)⟩
  rename_i hFull
  cases io with
  | false => exact Or.inl ⟨rfl, fun h => by cases h.2.2.2.2.2⟩
  | true =>
    refine Or.inr ⟨⟨hUid, hLabel', ?_, ?_, not_le.mp hFull, rfl⟩, rfl⟩
    · simpa using hOld
    · simpa using find?_eq_none.mp hFind

/-- The row of a queued request passes the constructor exactly when it has a label. -/
theorem newRow_valid {uidRaw labelRaw caller : Text} (firmwareRaw : Text)
    (hQueues : Queues U w uidRaw labelRaw now io) (hDate : now.natAbs ≤ 8640000000000000)
    (hId : idPattern id = true) (hCaller : caller.length ≤ 100) :
    validRow (newRow U uidRaw labelRaw firmwareRaw caller now id) = true ↔ labelRaw.trim ≠ [] := by
  obtain ⟨hUid, hLabel, -⟩ := hQueues
  have hFirmware : ∀ cut : Text, cut.length ≤ 40 →
      (if cut.isEmpty then none else some cut : Option Text).all fun f => f.length ≤ 40 := by
    intro cut hCut
    split
    · rfl
    · simpa using hCut
  have hCut := hFirmware (firmwareRaw.trim.take 40) (by simp)
  have hAt : isSafeInteger now = true := by
    simp only [isSafeInteger, decide_eq_true_eq]
    omega
  have hExpires : isSafeInteger (now + requestTtlMs) = true := by
    rw [isSafeInteger, requestTtlMs, decide_eq_true_eq]
    omega
  have hTtl : now + requestTtlMs - now = requestTtlMs := by omega
  have hRest : validRow (newRow U uidRaw labelRaw firmwareRaw caller now id) =
      labelPattern (newRow U uidRaw labelRaw firmwareRaw caller now id).label := by
    simp only [validRow, newRow, hId, hUid, hCut, hCaller, hAt, hExpires, hTtl, decide_true,
      Bool.true_and, Bool.and_true, beq_self_eq_true]
  rw [hRest]
  by_cases hEmpty : labelRaw.trim = []
  · simp [newRow, hEmpty, not_label_of_uid hUid]
  · simp [newRow, hEmpty, hLabel.resolve_left hEmpty]

theorem Kept.request (h : Kept U w) {uidRaw labelRaw firmwareRaw caller : Text}
    (hFair : Fair w (.request uidRaw labelRaw firmwareRaw caller now id io))
    (hNamed : Named U w (.request uidRaw labelRaw firmwareRaw caller now id io)) :
    Kept U (({ w with clock := now } : World).request U uidRaw labelRaw firmwareRaw caller now id
      io).1 := by
  obtain ⟨hNow, hDate, hId, hFresh, hCaller⟩ := hFair
  have hExpired := h.expire hNow
  rcases request_cases U { w with clock := now } uidRaw labelRaw firmwareRaw caller now id io with
    ⟨hEq, -⟩ | ⟨hQueues, hEq⟩
  · rw [hEq]
    exact hExpired
  have hLabel := hNamed hQueues
  have hValid := (newRow_valid firmwareRaw hQueues hDate hId hCaller).mpr hLabel
  obtain ⟨hUid, -, hUnregistered, hOther, hRoom, -⟩ := hQueues
  have hNew : id ∉ (w.service.expire now).pending.keys := by
    intro hMem
    obtain ⟨r, hr⟩ := Option.isSome_iff_exists.mp (has_iff_mem_keys.mpr hMem)
    have hIn := get_eq_some_iff.mp hr
    exact hFresh (mem_map_of_mem (mem_filter.mp hIn).1)
  have hValues := values_set_new hNew
    (newRow U uidRaw labelRaw firmwareRaw caller now id)
  rw [hEq]
  have hWritten := hExpired.written ((w.service.expire now).pending.set id
    (newRow U uidRaw labelRaw firmwareRaw caller now id)) (hExpired.indexed.set rfl) ?_ ?_ ?_ ?_
  · rw [hValues] at hWritten
    exact hWritten
  · intro r hr
    rw [hValues, mem_append, mem_singleton] at hr
    rcases hr with hr | rfl
    · exact hExpired.unregistered r hr
    · exact hUnregistered
  · rw [hValues, map_append, map_singleton, ← concat_eq_append]
    refine List.Nodup.concat (fun hMem => ?_) hExpired.uids
    obtain ⟨r, hr, hSame⟩ := mem_map.mp hMem
    exact hOther r hr hSame
  · exact (size_set_le _ _ _).trans hRoom
  · intro r hr
    rw [hValues, mem_append, mem_singleton] at hr
    rcases hr with hr | rfl
    · exact hExpired.valid r hr
    · exact hValid

theorem values_delete {m : JsMap Text JoinRequest} (h : m.Indexed JoinRequest.id) (id : Text) :
    (m.delete id).values = m.values.filter fun r => r.id != id := by
  have hKeys : ∀ e ∈ m.entries, e.2.id = e.1 := fun e he => h _ _ (get_eq_some_iff.mpr he)
  simp only [JsMap.values, JsMap.delete, filter_map]
  congr 1
  refine filter_congr fun e he => ?_
  simp [hKeys e he, bne, Bool.beq_eq_decide_eq]

theorem Kept.deny (h : Kept U w) (hNow : w.clock ≤ now) :
    Kept U (({ w with clock := now } : World).deny id now io).1 := by
  have hExpired := h.expire hNow
  unfold World.deny
  dsimp only
  split
  · exact hExpired
  rename_i req hGet
  cases io with
  | false => exact hExpired
  | true =>
    have hValues := values_delete hExpired.indexed id
    have hSub : ∀ r ∈ ((w.service.expire now).pending.delete id).values,
        r ∈ (w.service.expire now).pending.values := by
      intro r hr
      rw [show ((w.service.expire now).pending.delete id).values = _ from hValues] at hr
      exact (mem_filter.mp hr).1
    have hWritten := hExpired.written ((w.service.expire now).pending.delete id)
      (hExpired.indexed.delete id) (fun r hr => hExpired.unregistered r (hSub r hr)) ?_ ?_
      (fun r hr => hExpired.valid r (hSub r hr))
    · rw [show ((w.service.expire now).pending.delete id).values = _ from hValues] at hWritten
      exact hWritten
    · rw [show ((w.service.expire now).pending.delete id).values = _ from hValues]
      exact hExpired.uids.sublist (filter_sublist.map _)
    · exact (length_filter_le _ _).trans hExpired.size

theorem Kept.uid_ne (h : Kept U w) {req r : JoinRequest} (hReq : req ∈ w.service.pending.values)
    (hr : r ∈ w.service.pending.values) : (r.id != req.id) = (r.uid != req.uid) := by
  have hIds : (w.service.pending.values.map JoinRequest.id).Nodup := by
    rw [show w.service.pending.values.map JoinRequest.id = w.service.pending.keys from
      h.indexed.map_values]
    exact w.service.pending.nodup
  by_cases hSame : r = req
  · simp [hSame]
  · have hId : r.id ≠ req.id := fun hEq => hSame (inj_on_of_nodup_map hIds hr hReq hEq)
    have hUid : r.uid ≠ req.uid := fun hEq => hSame (inj_on_of_nodup_map h.uids hr hReq hEq)
    rw [bne_iff_ne.mpr hId, bne_iff_ne.mpr hUid]

/-- An approval whose pending file could not be replaced: the stored row of the new node is
one the constructor skips. -/
theorem Kept.registered (h : Kept U w) {req : JoinRequest}
    (hReq : w.service.pending.get req.id = some req) :
    Kept U { w with
      nodesFile := w.nodesFile ++ [req.uid]
      service := ⟨w.service.nodes ++ [req.uid], w.service.pending.delete req.id⟩ } := by
  have hValues := values_delete h.indexed req.id
  have hMem : req ∈ w.service.pending.values :=
    mem_map_of_mem (get_eq_some_iff.mp hReq)
  have hDelete : (w.service.pending.delete req.id).values =
      w.service.pending.values.filter fun r => r.uid != req.uid := by
    rw [hValues]
    exact filter_congr fun r hr => h.uid_ne hMem hr
  have hSub : ∀ r ∈ (w.service.pending.delete req.id).values, r ∈ w.service.pending.values := by
    intro r hr
    rw [hValues] at hr
    exact (mem_filter.mp hr).1
  refine ⟨?_, h.indexed.delete _, fun r hr => ?_, ?_, ?_, fun r hr => h.valid r (hSub r hr),
    h.stored, h.length, h.ids, fun now hNow => ?_⟩
  · have hUid : uidPattern req.uid = true := by
      have hValid := h.valid req hMem
      simp only [validRow, Bool.and_eq_true] at hValid
      exact hValid.1.1.1.1.1.1.2
    simp only [h.nodes, map_append, map_singleton, toLowerCase_uid hUid]
  · dsimp only at hr ⊢
    have hOld := h.unregistered r (hSub r hr)
    rw [hDelete, mem_filter] at hr
    simp only [mem_append, mem_singleton, not_or]
    exact ⟨hOld, by simpa using hr.2⟩
  · dsimp only
    rw [hDelete]
    exact h.uids.sublist (filter_sublist.map _)
  · exact (length_filter_le _ _).trans h.size
  · have hNodes : ∀ r, survives (w.service.nodes ++ [req.uid]) now r =
        (r.uid != req.uid && survives w.service.nodes now r) := by
      intro r
      by_cases hUid : r.uid = req.uid
      · simp [survives, hUid]
      · simp [survives, hUid, bne_iff_ne.mpr hUid]
    have hRows : World.rows { w with
        nodesFile := w.nodesFile ++ [req.uid]
        service := ⟨w.service.nodes ++ [req.uid], w.service.pending.delete req.id⟩ } =
          w.rows := rfl
    dsimp only
    rw [hRows, hDelete, filter_congr fun r _ => hNodes r, ← filter_filter,
      h.same now hNow, filter_filter, filter_filter]
    exact filter_congr fun r _ => Bool.and_comm _ _

theorem Kept.approve (h : Kept U w) {nodesIo pendingIo : Bool} (hNow : w.clock ≤ now) :
    Kept U (({ w with clock := now } : World).approve id now nodesIo pendingIo).1 := by
  have hExpired := h.expire hNow
  unfold World.approve
  dsimp only
  split
  · exact hExpired
  rename_i req hGet
  have hId : req.id = id := hExpired.indexed _ _ hGet
  subst hId
  have hMem : req ∈ (w.service.expire now).pending.values :=
    mem_map_of_mem (get_eq_some_iff.mp hGet)
  split
  · -- The pending requests are of unregistered uids.
    rename_i hOld
    exact absurd (by simpa using hOld) (hExpired.unregistered req hMem)
  split
  · exact hExpired
  cases nodesIo with
  | false => exact hExpired
  | true =>
    have hRegistered := hExpired.registered hGet
    cases pendingIo with
    | false => exact hRegistered
    | true =>
      exact hRegistered.written _ hRegistered.indexed hRegistered.unregistered hRegistered.uids
        hRegistered.size hRegistered.valid

theorem Kept.restart (h : Kept U w) (hNow : w.clock ≤ now) :
    Kept U (w.step U (.restart now)).1 := by
  obtain ⟨p, hOpen, hNodes, hEntries⟩ := h.open hNow
  have hStep : (w.step U (.restart now)).1 = { w with clock := now, service := p } := by
    simp only [World.step, Event.now, hOpen]
  have hService : p = ⟨w.service.nodes, p.pending⟩ := by rw [← hNodes]
  rw [hStep, hService]
  refine h.drop hNow ?_ ?_
  · rw [JsMap.values, hEntries, map_map]
    exact map_id _
  · intro id r hGet
    have hIn := get_eq_some_iff.mp hGet
    rw [hEntries] at hIn
    obtain ⟨r', -, hEq⟩ := mem_map.mp hIn
    cases hEq
    rfl

theorem kept_step (h : Kept U w) {e : Event} (hFair : Fair w e) (hNamed : Named U w e) :
    Kept U (w.step U e).1 := by
  cases e with
  | request uid label firmware caller now id io => exact h.request hFair hNamed
  | approve id now nodesIo pendingIo => exact h.approve hFair.1
  | deny id now io => exact h.deny hFair.1
  | requests now => exact h.expire hFair.1
  | statusOf uid now => exact h.expire hFair.1
  | restart now => exact h.restart hFair.1

theorem kept_start {nodes : List Text} {clock : Int} : Kept U (startWorld U nodes clock) := by
  refine ⟨rfl, indexed_empty _, ?_, ?_, ?_, ?_, ?_, ?_, ?_, ?_⟩
  all_goals simp [startWorld, JsMap.empty, JsMap.values, JsMap.size, World.rows]

/-! ## A request without a label -/

/-- The service takes the row in place of the label its uid, which the constructor refuses. -/
theorem unnamed_throws {e : Event} (hFair : Fair w e) (hNamed : ¬ Named U w e) (now : Int) :
    ∃ error, openStore U (w.step U e).1.nodesFile (w.step U e).1.pendingFile now = .error error := by
  cases e with
  | request uid label firmware caller at_ id io =>
    obtain ⟨-, hDate, hId, -, hCaller⟩ := hFair
    rw [Named, Classical.not_imp, not_not] at hNamed
    obtain ⟨hQueues, hEmpty⟩ := hNamed
    rcases request_cases U { w with clock := at_ } uid label firmware caller at_ id io with
      ⟨-, hNot⟩ | ⟨hQueues, hEq⟩
    · exact absurd hQueues hNot
    have hInvalid : validRow (newRow U uid label firmware caller at_ id) = false := by
      rw [← Bool.not_eq_true, newRow_valid firmware hQueues hDate hId hCaller, not_not]
      exact hEmpty
    have hFiles : (w.step U (.request uid label firmware caller at_ id io)).1 = _ := hEq
    rw [hFiles]
    simp only [World.setPending, openStore, World.expire_nodesFile]
    split
    · exact ⟨_, rfl⟩
    split
    · exact ⟨_, rfl⟩
    have hRow : ∃ r ∈ (w.service.expire at_).pending.values ++
        [newRow U uid label firmware caller at_ id], validRow r = false := ⟨_, by simp, hInvalid⟩
    obtain ⟨error, hLoad⟩ := loadRows_error (w.nodesFile.map U.toLowerCase) now .empty hRow
    exact ⟨error, by rw [hLoad]⟩
  | approve | deny | requests | statusOf | restart => exact absurd trivial hNamed

/-! ## Runs -/

theorem kept_after {nodes : List Text} {clock : Int} {es : List Event}
    (h : Guarded (fun w e => (w.step U e).1) (fun w e => Fair w e ∧ Named U w e)
      (startWorld U nodes clock) es) :
    Kept U (worldAfter U (startWorld U nodes clock) es) :=
  run_invariant_guarded (Kept U)
    (fun _ _ hKept hGood => kept_step hKept hGood.1 hGood.2) kept_start h

/-- Opening on the files at any moment of a run lists the old requests, if and only if every
request that was queued had a label. -/
theorem adoption_restart (U : Unicode) (nodes : List Text) (clock : Int) (es : List Event)
    (hFair : Guarded (fun w e => (w.step U e).1) Fair (startWorld U nodes clock) es) :
    (∀ pre, pre <+: es → ∀ now, (worldAfter U (startWorld U nodes clock) pre).clock ≤ now →
      Reopens U (worldAfter U (startWorld U nodes clock) pre) now) ↔
      Guarded (fun w e => (w.step U e).1) (Named U) (startWorld U nodes clock) es := by
  constructor
  · intro hReopens
    refine guarded_of_forall_split fun pre e rest hEq => ?_
    by_contra hNamed
    have hStep : Fair (worldAfter U (startWorld U nodes clock) pre) e := by
      rw [hEq] at hFair
      exact (guarded_append.mp hFair).2.1
    obtain ⟨error, hThrows⟩ := unnamed_throws (U := U) hStep hNamed
      ((worldAfter U (startWorld U nodes clock) pre).step U e).1.clock
    have hAfter : worldAfter U (startWorld U nodes clock) (pre ++ [e]) =
        ((worldAfter U (startWorld U nodes clock) pre).step U e).1 := run_concat _ _ _ _
    obtain ⟨p, hOpen, -⟩ := hReopens (pre ++ [e]) ⟨rest, by rw [hEq]; simp⟩ _ (le_refl _)
    rw [hAfter, hThrows] at hOpen
    cases hOpen
  · rintro hNamed pre ⟨rest, rfl⟩ now hNow
    have hGood := (hFair.and hNamed)
    exact (kept_after (guarded_append.mp hGood).1).reopens hNow

def isOk {ε α : Type} : Except ε α → Bool
  | .ok _ => true
  | .error _ => false

def tmflash : Text := js "192.168.7.20"

/-- A flasher that gives no label. -/
def blankLabel : List Event :=
  [.request (js "30:ed:a0:cb:f5:f8") (js "") (js "2.1.0") tmflash 1700000000000
    (js "0b9d3a1e-5c1f-4f35-9d53-5a4f1d2c7e10") true]

theorem blank_label :
    Guarded (fun w e => (w.step ascii e).1) Fair (startWorld ascii [] 0) blankLabel ∧
      ¬ Reopens ascii (worldAfter ascii (startWorld ascii [] 0) blankLabel) 1700000000000 := by
  refine ⟨⟨⟨by decide, by decide, by decide, by decide, by decide⟩, trivial⟩, ?_⟩
  rintro ⟨p, hOpen, -⟩
  have hRefused : isOk (openStore ascii
      (worldAfter ascii (startWorld ascii [] 0) blankLabel).nodesFile
        (worldAfter ascii (startWorld ascii [] 0) blankLabel).pendingFile 1700000000000) =
          false := by
    decide +kernel
  rw [hOpen] at hRefused
  cases hRefused

/-- Two flashers, of which the first is let in while the pending file cannot be replaced. -/
def letIn : List Event :=
  [.request (js "30:ED:A0:CB:F5:F8") (js "Desk 4 (north)") (js "2.1.0") tmflash 1700000000000
      (js "0b9d3a1e-5c1f-4f35-9d53-5a4f1d2c7e10") true,
    .request (js "30:ed:a0:cb:f5:f9") (js "Desk 5") (js "") tmflash 1700000001000
      (js "7d444840-9dc0-41d2-9e8b-4b2e5c9c8f11") true,
    .approve (js "0b9d3a1e-5c1f-4f35-9d53-5a4f1d2c7e10") 1700000002000 true false,
    .restart 1700000003000]

theorem adoption_restart_two :
    (∀ pre, pre <+: letIn → ∀ now, (worldAfter ascii (startWorld ascii [] 0) pre).clock ≤ now →
      Reopens ascii (worldAfter ascii (startWorld ascii [] 0) pre) now) ↔
      Guarded (fun w e => (w.step ascii e).1) (Named ascii) (startWorld ascii [] 0) letIn :=
  adoption_restart ascii [] 0 letIn
    ⟨⟨by decide, by decide, by decide, by decide, by decide⟩,
      ⟨by decide, by decide, by decide, by decide +kernel, by decide⟩,
      ⟨by decide, by decide, trivial⟩, ⟨by decide, by decide, trivial⟩, trivial⟩

/-! ## How a node is let in -/

section traced

variable {nodes : List Text} {es : List Event} {r : JoinRequest}

/-- The row is of a request that was made. -/
def Asked (U : Unicode) (es : List Event) (r : JoinRequest) : Prop :=
  uidPattern r.uid = true ∧ r.expiresAt = r.at_ + requestTtlMs ∧
    ∃ uid label firmware caller, (U.toLowerCase uid).trim = r.uid ∧
      .request uid label firmware caller r.at_ r.id true ∈ es

/-- A request for the node was approved before it had expired. -/
def LetIn (U : Unicode) (es : List Event) (uid : Text) : Prop :=
  ∃ pre r now io post, es = pre ++ .approve r.id now true io :: post ∧ Asked U pre r ∧
    r.uid = uid ∧ now < r.expiresAt

/-- What is pending or stored was asked for, and the nodes that are new were let in. -/
structure Traced (U : Unicode) (nodes : List Text) (es : List Event) (w : World) : Prop where
  pending : ∀ id r, w.service.pending.get id = some r → r.id = id ∧ Asked U es r
  rows : ∀ r ∈ w.rows, Asked U es r
  registry : w.service.nodes = w.nodesFile.map U.toLowerCase
  added : ∃ added, w.nodesFile = nodes ++ added ∧ added.Nodup ∧
    ∀ uid ∈ added, uid ∉ nodes.map U.toLowerCase ∧ LetIn U es uid

theorem Asked.mono (h : Asked U es r) (es' : List Event) : Asked U (es ++ es') r := by
  obtain ⟨hUid, hTime, uid, label, firmware, caller, hOwn, hMem⟩ := h
  exact ⟨hUid, hTime, uid, label, firmware, caller, hOwn, mem_append_left _ hMem⟩

theorem LetIn.mono (h : LetIn U es uid) (es' : List Event) : LetIn U (es ++ es') uid := by
  obtain ⟨pre, r, now, io, post, rfl, hRest⟩ := h
  exact ⟨pre, r, now, io, post ++ es', by simp, hRest⟩

/-- A step that lets no node in. -/
theorem Traced.keep {w' : World} (h : Traced U nodes es w) (e : Event)
    (hPending : ∀ id r, w'.service.pending.get id = some r → r.id = id ∧ Asked U (es ++ [e]) r)
    (hRows : ∀ r ∈ w'.rows, Asked U (es ++ [e]) r) (hFile : w'.nodesFile = w.nodesFile)
    (hNodes : w'.service.nodes = w.nodesFile.map U.toLowerCase) :
    Traced U nodes (es ++ [e]) w' := by
  obtain ⟨added, hAdded, hNodup, hAll⟩ := h.added
  exact ⟨hPending, hRows, hFile ▸ hNodes, added, hFile.trans hAdded, hNodup,
    fun uid hMem => ⟨(hAll uid hMem).1, (hAll uid hMem).2.mono _⟩⟩

theorem loadRows_mem {file : List Text} {m m' : JsMap Text JoinRequest} {rows : List JoinRequest}
    (h : loadRows file now m rows = .ok m') (hGet : m'.get id = some r) :
    m.get id = some r ∨ r.id = id ∧ r ∈ rows := by
  induction rows generalizing m with
  | nil =>
    cases h
    exact .inl hGet
  | cons s rows ih =>
    rw [loadRows] at h
    split at h
    · cases h
    split at h
    · rcases ih h with hSet | ⟨hId, hMem⟩
      · rw [JsMap.get_set] at hSet
        split at hSet
        · rename_i hId
          cases hSet
          exact .inr ⟨hId.symm, mem_cons_self⟩
        · exact .inl hSet
      · exact .inr ⟨hId, mem_cons_of_mem _ hMem⟩
    · exact (ih h).imp_right fun hNew => ⟨hNew.1, mem_cons_of_mem _ hNew.2⟩

theorem openStore_mem {file : List Text} {stored : Option (List JoinRequest)} {p : Provisioning}
    (h : openStore U file stored now = .ok p) : p.nodes = file.map U.toLowerCase ∧
      ∀ id r, p.pending.get id = some r → r.id = id ∧ r ∈ stored.getD [] := by
  unfold openStore at h
  split at h
  · cases h
    exact ⟨rfl, by rintro _ _ ⟨⟩⟩
  · split at h
    · cases h
    split at h
    · cases h
    split at h
    · cases h
    · rename_i hLoad
      cases h
      exact ⟨rfl, fun id r hGet => (loadRows_mem hLoad hGet).resolve_left (by rintro ⟨⟩)⟩

theorem Traced.alive (h : Traced U nodes es w)
    (hGet : (w.service.expire now).pending.get id = some r) :
    (r.id = id ∧ Asked U es r) ∧ now < r.expiresAt := by
  obtain ⟨hGet, hLate⟩ := Option.filter_eq_some_iff.mp ((get_filter _ _ _).symm.trans hGet)
  exact ⟨h.pending id r hGet, by simpa using hLate⟩

theorem Traced.old (h : Traced U nodes es w) (e : Event) (now : Int) (id : Text) (r : JoinRequest)
    (hGet : (w.service.expire now).pending.get id = some r) :
    r.id = id ∧ Asked U (es ++ [e]) r :=
  ⟨(h.alive hGet).1.1, (h.alive hGet).1.2.mono _⟩

theorem Traced.values (h : Traced U nodes es w) (e : Event)
    (hr : r ∈ (w.service.expire now).pending.values) : Asked U (es ++ [e]) r := by
  obtain ⟨k, hGet⟩ := mem_values_iff.mp hr
  exact (h.old e now k r hGet).2

theorem Traced.delete (h : Traced U nodes es w) (e : Event) (now : Int) (id k : Text)
    (r : JoinRequest) (hGet : ((w.service.expire now).pending.delete id).get k = some r) :
    r.id = k ∧ Asked U (es ++ [e]) r := by
  rw [get_delete] at hGet
  split at hGet
  · cases hGet
  · exact h.old e now k r hGet

theorem Traced.expired (h : Traced U nodes es w) (e : Event) (now : Int) :
    Traced U nodes (es ++ [e]) (({ w with clock := now } : World).expire now) :=
  h.keep e (h.old e now) (fun r hr => (h.rows r hr).mono _) rfl h.registry

/-- A request queues a row of its own. -/
theorem Traced.request (h : Traced U nodes es w) (label firmware caller : Text) :
    Traced U nodes (es ++ [.request uid label firmware caller now id io])
      (({ w with clock := now } : World).request U uid label firmware caller now id io).1 := by
  rcases request_cases U { w with clock := now } uid label firmware caller now id io with
    ⟨hSame, -⟩ | ⟨hQueues, hAfter⟩
  · rw [hSame]
    exact h.expired _ now
  · rw [hAfter]
    obtain rfl : io = true := hQueues.2.2.2.2.2
    have hNew : Asked U (es ++ [.request uid label firmware caller now id true])
        (newRow U uid label firmware caller now id) :=
      ⟨hQueues.1, rfl, uid, label, firmware, caller, rfl, mem_append_right _ mem_cons_self⟩
    refine h.keep _ (fun k r hGet => ?_) (fun r hr => ?_) rfl h.registry
    · change (JsMap.set _ id _).get k = _ at hGet
      rw [get_set] at hGet
      split at hGet
      · rename_i hId
        cases hGet
        exact ⟨hId.symm, hNew⟩
      · exact h.old _ now k r hGet
    · rcases mem_append.mp hr with hr | hr
      · exact h.values _ hr
      · rw [mem_singleton.mp hr]
        exact hNew

/-- An approval lets in a node that is new, in time. -/
theorem Traced.approve (h : Traced U nodes es w) (pendingIo : Bool) :
    Traced U nodes (es ++ [.approve id now io pendingIo])
      (({ w with clock := now } : World).approve id now io pendingIo).1 := by
  have hRows : ∀ r ∈ w.rows, Asked U (es ++ [.approve id now io pendingIo]) r :=
    fun r hr => (h.rows r hr).mono _
  unfold World.approve
  dsimp only
  split
  · exact h.expired _ now
  rename_i req hGet
  obtain ⟨⟨rfl, hAsked⟩, hLate⟩ := h.alive hGet
  split
  · exact h.keep _ (h.delete _ now req.id) hRows rfl h.registry
  rename_i hNode
  split
  · exact h.expired _ now
  rename_i hFile
  cases io with
  | false => exact h.expired _ now
  | true =>
    obtain ⟨added, hAdded, hNodup, hAll⟩ := h.added
    have hNode' : req.uid ∉ (nodes ++ added).map U.toLowerCase := by
      rw [← hAdded, ← h.registry]
      simpa using hNode
    have hNew : req.uid ∉ added := fun hMem => by
      refine hFile ?_
      change w.nodesFile.contains _ = true
      rw [hAdded]
      simp [hMem]
    refine ⟨h.delete _ now req.id, fun r hr => ?_, ?_, added ++ [req.uid], ?_, ?_,
      fun uid hMem => ?_⟩
    · cases pendingIo with
      | false => exact hRows r hr
      | true =>
        obtain ⟨k, hGet⟩ := mem_values_iff.mp hr
        exact (h.delete _ now req.id k r hGet).2
    · change w.service.nodes ++ [req.uid] = (w.nodesFile ++ [req.uid]).map U.toLowerCase
      rw [h.registry, map_append, map_singleton, toLowerCase_uid hAsked.1]
    · change w.nodesFile ++ _ = _
      rw [hAdded, append_assoc]
    · exact hNodup.append (nodup_singleton _) (disjoint_singleton.mpr hNew)
    · rcases mem_append.mp hMem with hMem | hMem
      · exact ⟨(hAll uid hMem).1, (hAll uid hMem).2.mono _⟩
      · obtain rfl := mem_singleton.mp hMem
        exact ⟨fun hIn => hNode' (by rw [map_append]; exact mem_append_left _ hIn),
          es, req, now, pendingIo, [], rfl, hAsked, rfl, hLate⟩

theorem Traced.step (h : Traced U nodes es w) (e : Event) :
    Traced U nodes (es ++ [e]) (w.step U e).1 := by
  have hRows : ∀ r ∈ w.rows, Asked U (es ++ [e]) r := fun r hr => (h.rows r hr).mono _
  cases e with
  | requests now => exact h.expired _ now
  | statusOf uid now => exact h.expired _ now
  | request uid label firmware caller now id io => exact h.request label firmware caller
  | approve id now nodesIo pendingIo => exact h.approve pendingIo
  | deny id now io =>
    change Traced U nodes _ (World.deny _ id now io).1
    unfold World.deny
    dsimp only
    split
    · exact h.expired _ now
    cases io with
    | false => exact h.expired _ now
    | true =>
      exact h.keep _ (h.delete _ now id) (fun r hr => h.values _ (mem_of_mem_filter hr)) rfl
        h.registry
  | restart now =>
    unfold World.step
    dsimp only
    split
    · exact h.keep _ (fun k r hGet => ⟨(h.pending k r hGet).1, (h.pending k r hGet).2.mono _⟩) hRows
        rfl h.registry
    · rename_i service hOpen
      obtain ⟨hNodes, hLoaded⟩ := openStore_mem hOpen
      exact h.keep _ (fun k r hGet => ⟨(hLoaded k r hGet).1, hRows r (hLoaded k r hGet).2⟩) hRows
        rfl hNodes

/-- In every run the nodes of the registry and of `nodes.json` are those it started with and,
without repetition, those for which a request was approved before it had expired. -/
theorem admitted_by_approval (U : Unicode) (nodes : List Text) (clock : Int) (es : List Event) :
    ∃ added, (worldAfter U (startWorld U nodes clock) es).nodesFile = nodes ++ added ∧
      (worldAfter U (startWorld U nodes clock) es).service.nodes =
        (nodes ++ added).map U.toLowerCase ∧
      added.Nodup ∧ ∀ uid ∈ added, uid ∉ nodes.map U.toLowerCase ∧ LetIn U es uid := by
  have hTraced : Traced U nodes es (worldAfter U (startWorld U nodes clock) es) := by
    induction es using reverseRecOn with
    | nil => exact ⟨by rintro _ _ ⟨⟩, by rintro _ ⟨⟩, rfl, [], by simp [worldAfter, startWorld]⟩
    | append_singleton es e ih =>
      rw [worldAfter, run_concat]
      exact ih.step e
  obtain ⟨added, hAdded, hNodup, hAll⟩ := hTraced.added
  exact ⟨added, hAdded, hAdded ▸ hTraced.registry, hNodup, hAll⟩

end traced

end TMEdge.Adoption
