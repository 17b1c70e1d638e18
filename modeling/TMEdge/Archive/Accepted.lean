import TMEdge.Archive.Zip
import TMEdge.Train.Uploads

/-!
# What an accepted archive is like

* `accepted_of_readZip`: an archive that is accepted has safe paths, no two entries in each other's way,
  bytes of its own for each entry, and is not too large.
-/

namespace TMEdge.Archive

open Library Protocol List

variable {bytes cd raw : Buffer} {limits : ZipLimits} {path : Text}

/-! ## Paths -/

/-- The directories on the way, and the name at the end. -/
def segments (path : Text) : List Text := path.splitOn 47

/-- A relative path to something strictly below. -/
structure SafePath (path : Text) : Prop where
  nonempty : path ≠ []
  relative : path.head? ≠ some 47
  segment : ∀ seg ∈ segments path, seg ≠ [] ∧ seg ≠ js "." ∧ seg ≠ js ".."
  plain : ∀ c ∈ path, isControl c = false ∧ isBackslash c = false

theorem intercalate_segments (path : Text) : List.intercalate [47] (segments path) = path :=
  intercalate_splitOn 47

theorem segments_injective {path' : Text} (h : segments path = segments path') : path = path' := by
  rw [← intercalate_segments path, h, intercalate_segments]

theorem isAbsolute_of_head {name : Text} (h : name.head? = some 47) : isAbsolute name = true := by
  rcases name with - | ⟨c, - | ⟨d, rest⟩⟩
  · cases h
  · rw [head?_cons, Option.some.injEq] at h
    rw [isAbsolute, h]
    rfl
  · rw [head?_cons, Option.some.injEq] at h
    rw [isAbsolute, h]
    rfl

theorem safePath_of_cleanName {slash : Bool} (h : cleanName raw = .ok (path, slash)) :
    SafePath path := by
  unfold cleanName at h
  split at h
  · cases h
  · rename_i name _
    dsimp only at h
    obtain ⟨-, h⟩ := of_ite_throw h
    obtain ⟨hPlain, h⟩ := of_ite_throw h
    obtain ⟨hAbsolute, h⟩ := of_ite_throw h
    obtain ⟨hUp, h⟩ := of_ite_throw h
    obtain ⟨hEmpty, h⟩ := of_ite_throw h
    obtain ⟨-, h⟩ := of_ite_throw h
    rw [Except.ok.injEq, Prod.mk.injEq] at h
    obtain ⟨hPath, -⟩ := h
    rw [intercalate_splitOn] at hPath
    rw [hPath] at hUp hEmpty
    push Not at hEmpty
    have hSub : ∀ c ∈ path, c ∈ name := by
      intro c hc
      rw [← hPath] at hc
      split at hc
      · exact mem_of_mem_dropLast hc
      · exact hc
    have hSome : path ≠ [] := by
      rintro rfl
      exact hEmpty.1 (by simp)
    refine ⟨hSome, fun hHead => ?_, fun seg hSeg => ⟨?_, ?_, ?_⟩, fun c hc => ?_⟩
    · have hName : name.head? = some 47 := by
        rw [← hHead, ← hPath]
        split
        · rename_i hSlash
          rcases name with - | ⟨c, - | ⟨d, rest⟩⟩
          · rfl
          · exact absurd hPath.symm (by simpa [hSlash] using hSome)
          · rfl
        · rfl
      exact hAbsolute (isAbsolute_of_head hName)
    · rintro rfl
      exact hEmpty.1 hSeg
    · rintro rfl
      exact hEmpty.2 hSeg
    · rintro rfl
      exact hUp hSeg
    · simp only [any_eq_true, not_exists, not_and, Bool.or_eq_true, not_or] at hPlain
      simpa using hPlain c (hSub c hc)

/-! ## The central directory -/

variable {e e' : CentralEntry} {entries : List CentralEntry} {p p' n unpacked unpacked' : Nat}

theorem safePath_of_readEntry (h : readEntry cd p = .ok (e, p')) : SafePath e.path := by
  unfold readEntry at h
  obtain ⟨-, h⟩ := of_ite_throw h
  dsimp only at h
  obtain ⟨-, h⟩ := of_ite_throw h
  obtain ⟨-, h⟩ := of_ite_throw h
  obtain ⟨-, h⟩ := of_ite_throw h
  obtain ⟨⟨path, slash⟩, hName, h⟩ := bind_eq_ok.mp h
  obtain ⟨-, h⟩ := of_ite_throw h
  obtain ⟨-, h⟩ := of_ite_throw h
  obtain ⟨dir, -, h⟩ := bind_eq_ok.mp h
  obtain ⟨-, h⟩ := of_ite_throw h
  rw [Except.ok.injEq, Prod.mk.injEq] at h
  rw [← h.1]
  exact safePath_of_cleanName hName

/-- What the loop over the central directory adds. -/
theorem readEntries_spec {acc : List CentralEntry}
    (h : readEntries limits cd n p unpacked acc = .ok (entries, unpacked', p'))
    (hUnpacked : unpacked ≤ limits.maxUnpackedBytes) :
    ∃ new, entries = acc ++ new ∧ new.length = n ∧ (∀ e ∈ new, SafePath e.path) ∧
      unpacked' = unpacked + (new.map fun e => e.size).sum ∧ unpacked' ≤ limits.maxUnpackedBytes := by
  induction n generalizing p unpacked acc with
  | zero =>
    rw [readEntries, Except.ok.injEq, Prod.mk.injEq, Prod.mk.injEq] at h
    obtain ⟨rfl, rfl, -⟩ := h
    exact ⟨[], by simp, rfl, nofun, rfl, hUnpacked⟩
  | succ n ih =>
    rw [readEntries, bind_eq_ok] at h
    obtain ⟨⟨e, p₁⟩, hEntry, h⟩ := h
    dsimp only at h
    obtain ⟨hLimit, h⟩ := of_ite_throw h
    obtain ⟨new, rfl, hLength, hSafe, hSum, hMax⟩ := ih h (Nat.le_of_not_lt hLimit)
    refine ⟨e :: new, by simp, by rw [length_cons, hLength],
      forall_mem_cons.mpr ⟨safePath_of_readEntry hEntry, hSafe⟩, ?_, hMax⟩
    rw [hSum, map_cons, sum_cons, Nat.add_assoc]

/-! ## Names -/

/-- A directory on the way to `path`, or `path` itself. -/
theorem mem_ancestors {path' : Text} (hPrefix : segments path <+: segments path')
    (hNe : path ≠ path') : path ∈ ancestors path' := by
  have hSegs : segments path ≠ segments path' := fun hEq => hNe (segments_injective hEq)
  have hSome : segments path ≠ [] := splitOn_ne_nil 47 path
  have hPos := length_pos_iff.mpr hSome
  have hLe := hPrefix.length_le
  have hLt : (segments path).length ≠ (segments path').length := fun hEq =>
    hSegs (hPrefix.eq_of_length hEq)
  refine mem_map.mpr ⟨(segments path).length, mem_range'_1.mpr ?_, ?_⟩
  · change 1 ≤ _ ∧ _ < 1 + ((segments path').length - 1)
    omega
  · change List.intercalate [47] ((segments path').take _) = path
    rw [← prefix_iff_eq_take.mp hPrefix, intercalate_segments]

/-- Neither of two entries is a file that is, or contains, the other. -/
def NamesApart (a b : ZipEntry) : Prop :=
  a.skip = false → b.skip = false →
    (a.dir = false → ¬segments a.path <+: segments b.path) ∧
      (b.dir = false → ¬segments b.path <+: segments a.path)

/-- What the loop over the names knows of the entries before. -/
structure Named (done : List CentralEntry) (s : Names) : Prop where
  files : ∀ e ∈ done, e.skip = false → e.dir = false → e.path ∈ s.files
  dirs : ∀ e ∈ done, e.skip = false → e.dir = true → e.path ∈ s.dirs
  above : ∀ e ∈ done, e.skip = false → ∀ f ∈ ancestors e.path, f ∈ s.dirs
  distinct : done.Pairwise fun a b => a.skip = false → b.skip = false →
    (a.dir = false ∨ b.dir = false) → a.path ≠ b.path

theorem Named.addName {done : List CentralEntry} {s s' : Names} (h : Named done s)
    (hAdd : addName s e = .ok s') : Named (done ++ [e]) s' := by
  unfold Archive.addName at hAdd
  split at hAdd
  · rename_i hSkip
    cases hAdd
    have hNot : e.skip ≠ false := by rw [hSkip]; decide
    refine ⟨fun a ha hs => ?_, fun a ha hs => ?_, fun a ha hs => ?_, ?_⟩
    · rcases mem_append.mp ha with ha | ha
      · exact h.files a ha hs
      · exact absurd (mem_singleton.mp ha ▸ hs) hNot
    · rcases mem_append.mp ha with ha | ha
      · exact h.dirs a ha hs
      · exact absurd (mem_singleton.mp ha ▸ hs) hNot
    · rcases mem_append.mp ha with ha | ha
      · exact h.above a ha hs
      · exact absurd (mem_singleton.mp ha ▸ hs) hNot
    · refine pairwise_append.mpr ⟨h.distinct, pairwise_singleton _ _,
        fun a _ b hb _ hs => ?_⟩
      exact absurd (mem_singleton.mp hb ▸ hs) hNot
  · obtain ⟨hFresh, hAdd⟩ := of_ite_throw hAdd
    push Not at hFresh
    have hKeep : s.files ⊆ s'.files ∧ s.dirs ⊆ s'.dirs ∧ (∀ f ∈ ancestors e.path, f ∈ s'.dirs) ∧
        (e.dir = false → e.path ∈ s'.files) ∧ (e.dir = true → e.path ∈ s'.dirs) := by
      split at hAdd
      · rename_i hDir
        cases hAdd
        refine ⟨List.Subset.refl _, subset_append_left _ _,
          fun f hf => mem_append_right _ (mem_cons_of_mem _ hf),
          fun hFile => absurd hDir (by rw [hFile]; decide), fun _ => ?_⟩
        exact mem_append_right _ mem_cons_self
      · rename_i hFile
        cases hAdd
        refine ⟨subset_append_left _ _, subset_append_left _ _,
          fun f hf => mem_append_right _ hf, fun _ => ?_, fun hDir => absurd hDir hFile⟩
        exact mem_append_right _ (mem_singleton_self _)
    obtain ⟨hFiles, hDirs, hAbove, hFile, hDir⟩ := hKeep
    refine ⟨fun a ha hs hd => ?_, fun a ha hs hd => ?_, fun a ha hs f hf => ?_, ?_⟩
    · rcases mem_append.mp ha with ha | ha
      · exact hFiles (h.files a ha hs hd)
      · obtain rfl := mem_singleton.mp ha
        exact hFile hd
    · rcases mem_append.mp ha with ha | ha
      · exact hDirs (h.dirs a ha hs hd)
      · obtain rfl := mem_singleton.mp ha
        exact hDir hd
    · rcases mem_append.mp ha with ha | ha
      · exact hDirs (h.above a ha hs f hf)
      · obtain rfl := mem_singleton.mp ha
        exact hAbove f hf
    · refine pairwise_append.mpr ⟨h.distinct, pairwise_singleton _ _,
        fun a ha b hb hs _ hKind hEq => ?_⟩
      obtain rfl := mem_singleton.mp hb
      -- the name is known, as a file or, if this is a file, as a directory
      cases hd : a.dir with
      | false => exact hFresh.1 (hEq ▸ h.files a ha hs hd)
      | true =>
        have hFileB := hKind.resolve_left (by rw [hd]; decide)
        exact hFresh.2 hFileB (hEq ▸ h.dirs a ha hs hd)

theorem named_foldlM {l done : List CentralEntry} {s s' : Names} (h : Named done s)
    (hFold : l.foldlM addName s = .ok s') : Named (done ++ l) s' := by
  induction l generalizing done s with
  | nil =>
    cases hFold
    rwa [append_nil]
  | cons e l ih =>
    obtain ⟨s₁, hAdd, hFold⟩ := bind_eq_ok.mp (by rwa [foldlM_cons] at hFold)
    have hRest := ih (h.addName hAdd) hFold
    rwa [append_assoc, singleton_append] at hRest

theorem namesApart_of_checkNames (h : checkNames entries = .ok ()) :
    entries.Pairwise fun a b => NamesApart a.toZipEntry b.toZipEntry := by
  obtain ⟨s, hFold, h⟩ := bind_eq_ok.mp h
  have hNamed : Named ([] ++ entries) s := named_foldlM ⟨nofun, nofun, nofun, .nil⟩ hFold
  rw [nil_append] at hNamed
  have hNone : ∀ f ∈ s.files, f ∉ s.dirs := by
    split at h
    · cases h
    · rename_i hFind
      simpa using hFind
  have hApart : ∀ a ∈ entries, ∀ b ∈ entries, a.skip = false → b.skip = false → a.dir = false →
      a.path ≠ b.path → ¬segments a.path <+: segments b.path := by
    intro a ha b hb hsa hsb hda hNe hPrefix
    exact hNone _ (hNamed.files a ha hsa hda) (hNamed.above b hb hsb _ (mem_ancestors hPrefix hNe))
  refine List.Pairwise.imp_of_mem ?_ hNamed.distinct
  intro a b ha hb hDistinct hsa hsb
  refine ⟨fun hda => ?_, fun hdb => ?_⟩
  · exact hApart a ha b hb hsa hsb hda (hDistinct hsa hsb (.inl hda))
  · exact hApart b hb a ha hsb hsa hdb (hDistinct hsa hsb (.inr hdb)).symm

/-! ## Ranges of bytes -/

variable {header : Buffer} {pos len start : Nat}

theorem readAt_eq (h : readAt bytes pos len = .ok header) :
    header = (bytes.drop pos).take len ∧ header.length = len := by
  unfold readAt at h
  obtain ⟨hLength, h⟩ := of_ite_throw h
  rw [Except.ok.injEq] at h
  rw [← h]
  exact ⟨rfl, not_not.mp hLength⟩

/-- What is read of a header is read of the file. -/
theorem subarray_readAt (h : readAt bytes pos len = .ok header) {o k : Nat} (ho : o + k ≤ len) :
    subarray header o (o + k) = subarray bytes (pos + o) (pos + o + k) := by
  rw [(readAt_eq h).1, subarray, subarray, drop_take, drop_drop, take_take]
  congr 1
  omega

/-- A local header in front of the data of an entry. -/
structure HeaderAt (bytes : Buffer) (start : Nat) (e : ZipEntry) : Prop where
  signature : readUInt32LE bytes start = localSignature
  data : e.dataOffset =
    start + 30 + readUInt16LE bytes (start + 26) + readUInt16LE bytes (start + 28)

/-- An entry that is located differs in where its data start. -/
structure Located (bytes : Buffer) (e e' : CentralEntry) : Prop where
  entry : { e.toZipEntry with dataOffset := e'.dataOffset } = e'.toZipEntry
  start : e'.localOffset = e.localOffset
  header : HeaderAt bytes e'.localOffset e'.toZipEntry

theorem located_of_locate (h : locate bytes e = .ok e') : Located bytes e e' := by
  obtain ⟨header, hHeader, h⟩ := bind_eq_ok.mp h
  obtain ⟨hSignature, h⟩ := of_ite_throw h
  obtain ⟨-, h⟩ := of_ite_throw h
  obtain ⟨name, -, h⟩ := bind_eq_ok.mp h
  obtain ⟨-, h⟩ := of_ite_throw h
  rw [Except.ok.injEq] at h
  subst h
  refine ⟨rfl, rfl, ?_, ?_⟩
  · rw [not_not, readUInt32LE, subarray_readAt hHeader (by omega)] at hSignature
    exact hSignature
  · simp only [readUInt16LE]
    rw [subarray_readAt hHeader (by omega), subarray_readAt hHeader (by omega)]

theorem Located.le_stop (h : Located bytes e e') : e'.localOffset ≤ e'.stop := by
  have hData := h.header.data
  rw [ZipEntry.stop]
  omega

/-- One after the other, and before the central directory. -/
theorem checkRanges_spec {cdOffset stop : Nat} {l : List CentralEntry}
    (h : checkRanges bytes cdOffset stop l = .ok ()) :
    ∃ located, List.Forall₂ (fun e e' => locate bytes e = .ok e') l located ∧
      (∀ e ∈ located, stop ≤ e.localOffset ∧ e.stop ≤ cdOffset) ∧
        located.Pairwise fun a b => a.stop ≤ b.localOffset := by
  induction l generalizing stop with
  | nil => exact ⟨[], .nil, nofun, .nil⟩
  | cons e l ih =>
    obtain ⟨hStart, h⟩ := of_ite_throw h
    obtain ⟨e', hLocate, h⟩ := bind_eq_ok.mp h
    obtain ⟨hStop, h⟩ := of_ite_throw h
    obtain ⟨located, hAll, hInside, hApart⟩ := ih h
    have hLocated := located_of_locate hLocate
    have hLe := hLocated.le_stop
    have hHere := hLocated.start
    refine ⟨e' :: located, .cons hLocate hAll, forall_mem_cons.mpr ⟨⟨?_, ?_⟩, ?_⟩,
      pairwise_cons.mpr ⟨fun b hb => (hInside b hb).1, hApart⟩⟩
    · omega
    · exact Nat.le_of_not_lt hStop
    · intro b hb
      have hNext := hInside b hb
      exact ⟨by omega, hNext.2⟩

/-- The entries have local headers, and each bytes of its own from there to the end of its data. -/
def RangesApart (bytes : Buffer) (cdOffset : Nat) (entries : List ZipEntry) : Prop :=
  ∃ ranges : List (Nat × ZipEntry), ranges.map Prod.snd = entries ∧
    (∀ r ∈ ranges, HeaderAt bytes r.1 r.2 ∧ r.2.stop ≤ cdOffset) ∧
      ranges.Pairwise fun a b => a.2.stop ≤ b.1 ∨ b.2.stop ≤ a.1

theorem rangesApart_of_checkRanges {cdOffset : Nat} {byOffset located : List CentralEntry}
    (hPerm : byOffset.Perm entries) (h : checkRanges bytes cdOffset 0 byOffset = .ok ())
    (hLocated : entries.mapM (locate bytes) = .ok located) :
    RangesApart bytes cdOffset (located.map CentralEntry.toZipEntry) := by
  obtain ⟨inOrder, hAll, hInside, hApart⟩ := checkRanges_spec h
  let found (e : CentralEntry) : CentralEntry :=
    match locate bytes e with
    | .ok e' => e'
    | .error _ => e
  have hFound : ∀ e e', locate bytes e = .ok e' → found e = e' := by
    intro e e' hLocate
    simp only [found, hLocate]
  have hSame : inOrder.Perm located := by
    rw [eq_map_of_forall₂ hAll hFound, eq_map_of_forall₂ (forall₂_of_mapM hLocated) hFound]
    exact hPerm.map found
  refine ⟨located.map fun e => (e.localOffset, e.toZipEntry), by rw [map_map]; rfl,
    fun r hr => ?_, ?_⟩
  · obtain ⟨e', he', rfl⟩ := mem_map.mp hr
    obtain ⟨e, -, hLocate⟩ := mem_of_mapM hLocated he'
    exact ⟨(located_of_locate hLocate).header, (hInside e' (hSame.mem_iff.mpr he')).2⟩
  · rw [pairwise_map]
    have hEither : inOrder.Pairwise fun a b : CentralEntry =>
        a.stop ≤ b.localOffset ∨ b.stop ≤ a.localOffset := hApart.imp fun hStop => .inl hStop
    exact (hSame.pairwise_iff fun hStop => hStop.symm).mp hEither

/-! ## The archive -/

structure Accepted (bytes : Buffer) (limits : ZipLimits) (c : Contents) : Prop where
  safe : ∀ e ∈ c.entries, SafePath e.path
  names : c.entries.Pairwise NamesApart
  ranges : ∃ record, readEnd bytes limits = .ok record ∧ RangesApart bytes record.cdOffset c.entries
  count : c.entries.length ≤ limits.maxEntries
  total : (c.entries.map ZipEntry.size).sum = c.unpackedBytes
  unpacked : c.unpackedBytes ≤ limits.maxUnpackedBytes

theorem total_le_of_readEnd {record : EndRecord} (h : readEnd bytes limits = .ok record) :
    record.total ≤ limits.maxEntries := by
  obtain ⟨-, h⟩ := of_ite_throw h
  obtain ⟨tail, -, h⟩ := bind_eq_ok.mp h
  split at h
  · cases h
  · dsimp only at h
    obtain ⟨-, h⟩ := of_ite_throw h
    obtain ⟨-, h⟩ := of_ite_throw h
    obtain ⟨hCount, h⟩ := of_ite_throw h
    obtain ⟨-, h⟩ := of_ite_throw h
    cases h
    exact Nat.le_of_not_lt hCount

theorem accepted_of_readZip {c : Contents} (h : readZip bytes limits = .ok c) :
    Accepted bytes limits c := by
  obtain ⟨record, hRecord, h⟩ := bind_eq_ok.mp h
  obtain ⟨cd, -, h⟩ := bind_eq_ok.mp h
  obtain ⟨⟨entries, unpackedBytes, p⟩, hEntries, h⟩ := bind_eq_ok.mp h
  obtain ⟨-, h⟩ := of_ite_throw h
  obtain ⟨⟨⟩, hNames, h⟩ := bind_eq_ok.mp h
  obtain ⟨⟨⟩, hRanges, h⟩ := bind_eq_ok.mp h
  obtain ⟨located, hLocated, h⟩ := bind_eq_ok.mp h
  rw [Except.ok.injEq] at h
  subst h
  obtain ⟨new, hNew, hLength, hSafe, hSum, hMax⟩ := readEntries_spec hEntries (Nat.zero_le _)
  rw [nil_append] at hNew
  subst hNew
  have hEntry : List.Forall₂ (fun e e' : CentralEntry => Located bytes e e') entries located :=
    (forall₂_of_mapM hLocated).imp fun _ _ hLocate => located_of_locate hLocate
  have hPath : ∀ e e' : CentralEntry, Located bytes e e' → e'.path = e.path ∧ e'.size = e.size ∧
      e'.dir = e.dir ∧ e'.skip = e.skip := fun e e' hAt => by rw [← hAt.entry]; exact ⟨rfl, rfl, rfl, rfl⟩
  refine ⟨fun e he => ?_, ?_, ⟨record, hRecord, ?_⟩, ?_, ?_, hMax⟩
  · obtain ⟨e', he', rfl⟩ := mem_map.mp he
    obtain ⟨e, he, hAt⟩ := exists_of_forall₂ hEntry he'
    rw [(hPath e e' hAt).1]
    exact hSafe e he
  · rw [pairwise_map]
    refine pairwise_of_forall₂ hEntry (fun a a' b b' ha hb hApart => ?_)
      (namesApart_of_checkNames hNames)
    obtain ⟨hPathA, -, hDirA, hSkipA⟩ := hPath a a' ha
    obtain ⟨hPathB, -, hDirB, hSkipB⟩ := hPath b b' hb
    rw [NamesApart, hPathA, hDirA, hSkipA, hPathB, hDirB, hSkipB]
    exact hApart
  · exact rangesApart_of_checkRanges (perm_insertionSort _ _) hRanges hLocated
  · rw [length_map, ← hEntry.length_eq, hLength]
    exact total_le_of_readEnd hRecord
  · dsimp only
    rw [map_map, hSum, Nat.zero_add]
    exact congrArg List.sum (map_eq_of_forall₂ (hEntry.imp fun e e' hAt => (hPath e e' hAt).2.1))

end TMEdge.Archive
