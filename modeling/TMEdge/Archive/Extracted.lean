import TMEdge.Archive.Accepted
import TMEdge.Archive.Extract

/-!
# What is extracted

* `extracted_of_extractZip`: where the extraction succeeds, there are the entries under the new
  directory, and nothing else has changed.
* `extracted_unique`: so the order of the entries does not matter.
* `extractZip_isOk`: on a host that does not refuse, it succeeds whenever the data are as declared.
* `archive_sound`: an accepted archive is extracted safely.
-/

namespace TMEdge.Archive

open Library Protocol List

variable {host : Host} {bytes : Buffer} {root target p : Path} {fs fs' : Fs} {e : ZipEntry}
  {entries done : List ZipEntry} {content : Buffer} {fs₁ : Fs} {l : List ZipEntry}

theorem mapError_eq_ok {ε ε' α : Type} {x : Except ε α} {f : ε → ε'} {a : α} :
    x.mapError f = .ok a ↔ x = .ok a := by
  cases x <;> simp [Except.mapError]

/-! ## Directories -/

theorem resolvePath_eq {segs : List Text} (h : ∀ seg ∈ segs, seg ≠ [] ∧ seg ≠ js "." ∧ seg ≠ js "..") :
    resolvePath root segs = root ++ segs := by
  induction segs generalizing root with
  | nil => exact (append_nil root).symm
  | cons seg segs ih =>
    rw [forall_mem_cons] at h
    obtain ⟨⟨hSome, hDot, hUp⟩, hRest⟩ := h
    rw [resolvePath, foldl_cons, if_neg (not_or.mpr ⟨hSome, hDot⟩), if_neg hUp]
    exact (ih hRest).trans (append_assoc root [seg] segs)

theorem create_eq_ok {n : Node} (h : host.create fs target n = .ok fs') :
    target ≠ [] ∧ fs.node target.dropLast = some .dir ∧ fs.node target = none ∧
      ∀ p, fs'.node p = if p = target then some n else fs.node p := by
  unfold Host.create at h
  split at h
  · cases h
  · split at h
    · cases h
    · split at h
      · split at h
        · cases h
          exact ⟨‹_›, ‹_›, ‹_›, fun _ => rfl⟩
        · cases h
      · cases h

/-- Everything above what is there is a directory. -/
theorem dir_of_above (hPrefix : p <+: target) (hNe : p ≠ target) (h : fs.node target ≠ none) :
    fs.node p = some .dir := by
  obtain ⟨rest, rfl⟩ := hPrefix
  induction rest using List.reverseRecOn with
  | nil => exact absurd (append_nil p).symm hNe
  | append_singleton rest seg ih =>
    have hParent := fs.closed _ (by simp) h
    rw [← append_assoc, dropLast_concat] at hParent
    by_cases hRest : rest = []
    · rwa [hRest, append_nil] at hParent
    · exact ih (by simpa using hRest) (by rw [hParent]; nofun)

/-- The directories on the way to `target` are there, and nothing else has changed. -/
structure MadeDirs (fs fs' : Fs) (target : Path) : Prop where
  dirs : ∀ p, p <+: target → fs'.node p = some .dir
  before : ∀ p, p <+: target → fs.node p = none ∨ fs.node p = some .dir
  others : ∀ p, ¬p <+: target → fs'.node p = fs.node p

theorem madeDirs_of_mkdirs {made rest : Path} (hMade : fs.node made = some .dir)
    (h : host.mkdirs fs made rest = .ok fs') : MadeDirs fs fs' (made ++ rest) := by
  induction rest generalizing made fs with
  | nil =>
    rw [Host.mkdirs, Except.ok.injEq] at h
    subst h
    rw [append_nil]
    have hAll : ∀ p, p <+: made → fs.node p = some .dir := fun p hp => by
      by_cases hEq : p = made
      · rw [hEq, hMade]
      · exact dir_of_above hp hEq (by rw [hMade]; nofun)
    exact ⟨hAll, fun p hp => .inr (hAll p hp), fun _ _ => rfl⟩
  | cons seg rest ih =>
    have hSplit : made ++ seg :: rest = made ++ [seg] ++ rest := by simp
    rw [Host.mkdirs] at h
    rw [hSplit]
    split at h
    · rename_i hDir
      exact ih hDir h
    · cases h
    · rename_i hNone
      obtain ⟨fs₁, hCreate, h⟩ := bind_eq_ok.mp h
      obtain ⟨-, -, -, hNode⟩ := create_eq_ok hCreate
      have hRest := ih (by rw [hNode, if_pos rfl]) h
      refine ⟨hRest.dirs, fun p hp => ?_, fun p hp => ?_⟩
      · have hBefore := hRest.before p hp
        rw [hNode] at hBefore
        by_cases hEq : p = made ++ [seg]
        · exact .inl (hEq ▸ hNone)
        · rwa [if_neg hEq] at hBefore
      · rw [hRest.others p hp, hNode, if_neg]
        rintro rfl
        exact hp (prefix_append _ _)

/-! ## Contents -/

/-- What the data of an entry unpack to. -/
def contentOf (host : Host) (bytes : Buffer) (e : ZipEntry) : Except String Buffer :=
  if e.compressedSize = 0 then .ok []
  else if e.method = 8 then host.inflateRaw (dataOf bytes e)
  else .ok (dataOf bytes e)

/-- The content of an entry is as the archive says. -/
structure Whole (host : Host) (bytes : Buffer) (e : ZipEntry) (content : Buffer) : Prop where
  unpacked : contentOf host bytes e = .ok content
  size : content.length = e.size
  crc : (crc32 content 0).toNat = e.crc

theorem crc32_append (a b : Buffer) (prev : BitVec 32) :
    crc32 (a ++ b) prev = crc32 b (crc32 a prev) := by
  rw [crc32, crc32, crc32, BitVec.not_not, foldl_append]

theorem crc32_nil (prev : BitVec 32) : crc32 [] prev = prev := by
  rw [crc32, foldl_nil, BitVec.not_not]

section meter

variable {max : Nat} {what : Text} {chunks : List Buffer} {m m' : Meter}

/-- How the content comes in chunks does not matter. -/
theorem foldlM_transform (h : chunks.foldlM (Meter.transform max what) m = .ok m') :
    m'.bytes = m.bytes + chunks.flatten.length ∧ m'.crc = crc32 chunks.flatten m.crc := by
  induction chunks generalizing m with
  | nil =>
    cases h
    exact ⟨rfl, (crc32_nil _).symm⟩
  | cons chunk chunks ih =>
    rw [foldlM_cons, bind_eq_ok] at h
    obtain ⟨m₁, hHead, h⟩ := h
    obtain ⟨-, hHead⟩ := of_ite_throw hHead
    cases hHead
    obtain ⟨hBytes, hCrc⟩ := ih h
    rw [flatten_cons, length_append, crc32_append, hBytes, hCrc]
    exact ⟨Nat.add_assoc _ _ _, rfl⟩

theorem foldlM_transform_of_le (h : m.bytes + chunks.flatten.length ≤ max) :
    ∃ m', chunks.foldlM (Meter.transform max what) m = .ok m' := by
  induction chunks generalizing m with
  | nil => exact ⟨m, rfl⟩
  | cons chunk chunks ih =>
    rw [flatten_cons, length_append] at h
    obtain ⟨m', hRest⟩ := @ih ⟨m.bytes + chunk.length, crc32 chunk m.crc⟩ (by dsimp only; omega)
    refine ⟨m', ?_⟩
    rw [foldlM_cons, Meter.transform, if_neg (by omega)]
    exact hRest

end meter

theorem unpack_spec {meter : Meter} (h : unpack host bytes e = .ok (content, meter)) :
    contentOf host bytes e = .ok content ∧ meter.bytes = content.length ∧
      meter.crc = crc32 content 0 := by
  unfold unpack at h
  rw [contentOf]
  split at h
  · rename_i hEmpty
    cases h
    rw [if_pos hEmpty]
    exact ⟨rfl, rfl, (crc32_nil 0).symm⟩
  · rename_i hSome
    rw [if_neg hSome]
    obtain ⟨content', hContent, h⟩ := bind_eq_ok.mp h
    obtain ⟨meter', hMeter, h⟩ := bind_eq_ok.mp h
    cases h
    obtain ⟨hBytes, hCrc⟩ := foldlM_transform hMeter
    rw [host.flatten_chunks] at hBytes hCrc
    refine ⟨?_, hBytes.trans (Nat.zero_add _), hCrc⟩
    unfold inflate at hContent
    split at hContent
    · rename_i hMethod
      rw [if_pos hMethod]
      exact mapError_eq_ok.mp hContent
    · rename_i hMethod
      rw [if_neg hMethod]
      cases hContent
      rfl

theorem unpack_of_whole (h : Whole host bytes e content) :
    ∃ meter, unpack host bytes e = .ok (content, meter) := by
  have hContent := h.unpacked
  rw [contentOf] at hContent
  unfold unpack
  split at hContent
  · rename_i hEmpty
    cases hContent
    exact ⟨{}, if_pos hEmpty⟩
  · rename_i hSome
    have hSize : (0 : Nat) + (host.chunks content).flatten.length ≤ e.size := by
      rw [host.flatten_chunks, h.size, Nat.zero_add]
    obtain ⟨meter, hMeter⟩ := @foldlM_transform_of_le e.size e.path (host.chunks content) {} hSize
    refine ⟨meter, ?_⟩
    have hInflate : inflate host bytes e = .ok content := by
      unfold inflate
      split at hContent
      · rename_i hMethod
        rw [if_pos hMethod]
        exact mapError_eq_ok.mpr hContent
      · rename_i hMethod
        cases hContent
        rw [if_neg hMethod]
    rw [if_neg hSome]
    exact bind_eq_ok.mpr ⟨content, hInflate, bind_eq_ok.mpr ⟨meter, hMeter, rfl⟩⟩

/-! ## The entries so far -/

/-- What is where when the entries have been extracted. -/
structure Extracted (host : Host) (bytes : Buffer) (root : Path) (entries : List ZipEntry)
    (fs fs' : Fs) : Prop where
  outside : ∀ p, ¬root <+: p → fs'.node p = fs.node p
  top : fs'.node root = some .dir
  file : ∀ e ∈ entries, e.skip = false → e.dir = false →
    ∃ content, Whole host bytes e content ∧ fs'.node (root ++ segments e.path) = some (.file content)
  dir : ∀ e ∈ entries, e.skip = false → ∀ path, path <+: segments e.path →
    (e.dir = true ∨ path ≠ segments e.path) → fs'.node (root ++ path) = some .dir
  only : ∀ path, path ≠ [] → fs'.node (root ++ path) ≠ none →
    ∃ e ∈ entries, e.skip = false ∧ path <+: segments e.path

/-- A file under the new directory is one of the entries. -/
theorem Extracted.entry_of_file (h : Extracted host bytes root entries fs fs') {path : Path}
    (hFile : fs'.node (root ++ path) = some (.file content)) :
    ∃ e ∈ entries, e.skip = false ∧ e.dir = false ∧ path = segments e.path := by
  have hPath : path ≠ [] := by
    rintro rfl
    rw [append_nil, h.top] at hFile
    cases hFile
  obtain ⟨e, he, hSkip, hPrefix⟩ := h.only path hPath (by rw [hFile]; nofun)
  by_cases hDir : e.dir = true ∨ path ≠ segments e.path
  · rw [h.dir e he hSkip path hPrefix hDir] at hFile
    cases hFile
  · push Not at hDir
    exact ⟨e, he, hSkip, by simpa using hDir.1, hDir.2⟩

theorem Extracted.skipped (h : Extracted host bytes root done fs fs') (hSkip : e.skip = true) :
    Extracted host bytes root (done ++ [e]) fs fs' := by
  have hMem : ∀ a ∈ done ++ [e], a.skip = false → a ∈ done := by
    intro a ha hs
    rcases mem_append.mp ha with ha | ha
    · exact ha
    · rw [mem_singleton.mp ha, hSkip] at hs
      cases hs
  refine ⟨h.outside, h.top, fun a ha hs => h.file a (hMem a ha hs) hs,
    fun a ha hs => h.dir a (hMem a ha hs) hs, fun path hPath hNode => ?_⟩
  obtain ⟨a, ha, hRest⟩ := h.only path hPath hNode
  exact ⟨a, mem_append_left _ ha, hRest⟩

/-- The directories of an entry have been made: those before it are as they were. -/
theorem Extracted.madeDirs {path : Path} (h : Extracted host bytes root done fs fs')
    (hMade : MadeDirs fs' fs₁ (root ++ path)) :
    (∀ p, ¬root <+: p → fs₁.node p = fs.node p) ∧ fs₁.node root = some .dir ∧
      (∀ p n, fs'.node p = some n → fs₁.node p = some n) ∧
        (∀ q, q <+: path → fs₁.node (root ++ q) = some .dir) ∧
          ∀ q, fs₁.node (root ++ q) ≠ none → fs'.node (root ++ q) ≠ none ∨ q <+: path := by
  have hKept : ∀ p n, fs'.node p = some n → fs₁.node p = some n := by
    intro p n hNode
    by_cases hp : p <+: root ++ path
    · rcases hMade.before p hp with hNone | hDir
      · rw [hNode] at hNone
        cases hNone
      · rw [hMade.dirs p hp, ← hNode, hDir]
    · rw [hMade.others p hp, hNode]
  refine ⟨fun p hp => ?_, hKept root _ h.top, hKept,
    fun q hq => hMade.dirs _ ((prefix_append_right_inj root).mpr hq), fun q hq => ?_⟩
  · by_cases hPrefix : p <+: root ++ path
    · -- above the root there were directories before
      have hAbove : p <+: root := by
        rcases prefix_or_prefix_of_prefix hPrefix (prefix_append root path) with hAbove | hBelow
        · exact hAbove
        · exact absurd hBelow hp
      have hNe : p ≠ root := fun hEq => hp (hEq ▸ prefix_rfl)
      have hDir := dir_of_above hAbove hNe (by rw [h.top]; nofun)
      rw [hKept p _ hDir, ← hDir, h.outside p hp]
    · rw [hMade.others p hPrefix, h.outside p hp]
  · by_cases hPrefix : q <+: path
    · exact .inr hPrefix
    · rw [hMade.others _ fun hAll => hPrefix ((prefix_append_right_inj root).mp hAll)] at hq
      exact .inl hq

theorem target_eq (hSafe : SafePath e.path) :
    resolvePath root (e.path.splitOn 47) = root ++ segments e.path := resolvePath_eq hSafe.segment

theorem segments_ne_nil (path : Text) : segments path ≠ [] := splitOn_ne_nil 47 path

theorem prefix_dropLast {q l : Path} (h : q <+: l) (hNe : q ≠ l) : q <+: l.dropLast := by
  obtain ⟨rest, rfl⟩ := h
  have hRest : rest ≠ [] := by
    rintro rfl
    exact hNe (append_nil q).symm
  rw [dropLast_append_of_ne_nil hRest]
  exact prefix_append q _

/-- One entry more. -/
theorem Extracted.extractEntry {fs₂ : Fs} (h : Extracted host bytes root done fs fs')
    (hSafe : SafePath e.path) (hEntry : extractEntry host bytes root fs' e = .ok fs₂) :
    Extracted host bytes root (done ++ [e]) fs fs₂ := by
  unfold Archive.extractEntry at hEntry
  split at hEntry
  · rename_i hSkip
    rw [Except.ok.injEq] at hEntry
    exact hEntry ▸ h.skipped hSkip
  rename_i hSkip
  rw [Bool.not_eq_true] at hSkip
  dsimp only at hEntry
  obtain ⟨-, hEntry⟩ := of_ite_throw hEntry
  rw [target_eq hSafe] at hEntry
  split at hEntry
  · rename_i hDir
    have hMade := madeDirs_of_mkdirs fs'.root (mapError_eq_ok.mp hEntry)
    rw [nil_append] at hMade
    obtain ⟨hOutside, hTop, hKept, hDirs, hOnly⟩ := h.madeDirs hMade
    refine ⟨hOutside, hTop, fun a ha hs hd => ?_, fun a ha hs path hPrefix hKind => ?_,
      fun path hPath hNode => ?_⟩
    · rcases mem_append.mp ha with ha | ha
      · obtain ⟨content, hWhole, hNode⟩ := h.file a ha hs hd
        exact ⟨content, hWhole, hKept _ _ hNode⟩
      · rw [mem_singleton.mp ha, hDir] at hd
        cases hd
    · rcases mem_append.mp ha with ha | ha
      · exact hKept _ _ (h.dir a ha hs path hPrefix hKind)
      · rw [mem_singleton.mp ha] at hPrefix
        exact hDirs path hPrefix
    · rcases hOnly path hNode with hOld | hNew
      · obtain ⟨a, ha, hRest⟩ := h.only path hPath hOld
        exact ⟨a, mem_append_left _ ha, hRest⟩
      · exact ⟨e, by simp, hSkip, hNew⟩
  · rename_i hFile
    rw [Bool.not_eq_true] at hFile
    obtain ⟨fs₁, hMkdirs, hEntry⟩ := bind_eq_ok.mp hEntry
    obtain ⟨⟨content, meter⟩, hUnpack, hEntry⟩ := bind_eq_ok.mp hEntry
    obtain ⟨fs₃, hCreate, hEntry⟩ := bind_eq_ok.mp hEntry
    obtain ⟨hSize, hEntry⟩ := of_ite_throw hEntry
    obtain ⟨hCrc, hEntry⟩ := of_ite_throw hEntry
    rw [Except.ok.injEq] at hEntry
    subst hEntry
    obtain ⟨hContent, hBytes, hMeter⟩ := unpack_spec (mapError_eq_ok.mp hUnpack)
    have hWhole : Whole host bytes e content :=
      ⟨hContent, by rw [← hBytes]; exact not_not.mp hSize, by rw [← hMeter]; exact not_not.mp hCrc⟩
    have hMade := madeDirs_of_mkdirs fs'.root (mapError_eq_ok.mp hMkdirs)
    rw [nil_append, dropLast_append_of_ne_nil (segments_ne_nil e.path)] at hMade
    obtain ⟨hOutside, hTop, hKept, hDirs, hOnly⟩ := h.madeDirs hMade
    obtain ⟨-, -, hNew, hNode⟩ := create_eq_ok (mapError_eq_ok.mp hCreate)
    have hKept' : ∀ p n, fs₁.node p = some n → fs₃.node p = some n := by
      intro p n hp
      rw [hNode, if_neg, hp]
      rintro rfl
      rw [hNew] at hp
      cases hp
    refine ⟨fun p hp => ?_, hKept' _ _ hTop, fun a ha hs hd => ?_,
      fun a ha hs path hPrefix hKind => ?_, fun path hPath hSome => ?_⟩
    · rw [hNode, if_neg, hOutside p hp]
      rintro rfl
      exact hp (prefix_append _ _)
    · rcases mem_append.mp ha with ha | ha
      · obtain ⟨content', hWhole', hOld⟩ := h.file a ha hs hd
        exact ⟨content', hWhole', hKept' _ _ (hKept _ _ hOld)⟩
      · obtain rfl := mem_singleton.mp ha
        exact ⟨content, hWhole, by rw [hNode, if_pos rfl]⟩
    · rcases mem_append.mp ha with ha | ha
      · exact hKept' _ _ (hKept _ _ (h.dir a ha hs path hPrefix hKind))
      · obtain rfl := mem_singleton.mp ha
        have hNe := hKind.resolve_left (by rw [hFile]; decide)
        exact hKept' _ _ (hDirs path (prefix_dropLast hPrefix hNe))
    · rw [hNode] at hSome
      by_cases hTarget : path = segments e.path
      · exact ⟨e, by simp, hSkip, hTarget ▸ prefix_rfl⟩
      · rw [if_neg fun hEq => hTarget (append_cancel_left hEq)] at hSome
        rcases hOnly path hSome with hOld | hAbove
        · obtain ⟨a, ha, hRest⟩ := h.only path hPath hOld
          exact ⟨a, mem_append_left _ ha, hRest⟩
        · exact ⟨e, by simp, hSkip, hAbove.trans (List.dropLast_prefix _)⟩

/-! ## The whole archive -/

theorem extracted_foldlM (h : Extracted host bytes root done fs fs₁)
    (hSafe : ∀ e ∈ l, SafePath e.path)
    (hFold : l.foldlM (extractEntry host bytes root) fs₁ = .ok fs') :
    Extracted host bytes root (done ++ l) fs fs' := by
  induction l generalizing done fs₁ with
  | nil =>
    rw [foldlM_nil] at hFold
    cases hFold
    rwa [append_nil]
  | cons e l ih =>
    rw [forall_mem_cons] at hSafe
    obtain ⟨fs₂, hEntry, hFold⟩ := bind_eq_ok.mp (by rwa [foldlM_cons] at hFold)
    have hRest := ih (h.extractEntry hSafe.1 hEntry) hSafe.2 hFold
    rwa [append_assoc, singleton_append] at hRest

/-- The new directory, with nothing in it. -/
theorem extracted_create (h : host.create fs root .dir = .ok fs') :
    Extracted host bytes root [] fs fs' := by
  obtain ⟨hRoot, -, hNew, hNode⟩ := create_eq_ok h
  refine ⟨fun p hp => ?_, by rw [hNode, if_pos rfl], nofun, nofun, fun path hPath hSome => ?_⟩
  · rw [hNode, if_neg]
    rintro rfl
    exact hp prefix_rfl
  · rw [hNode, if_neg (by simpa using hPath)] at hSome
    have hDir := dir_of_above (prefix_append root path) (by simpa using hPath) hSome
    rw [hNew] at hDir
    cases hDir

theorem extracted_of_extractZip (hSafe : ∀ e ∈ entries, SafePath e.path)
    (h : extractZip host bytes root fs entries = .ok fs') :
    Extracted host bytes root entries fs fs' := by
  obtain ⟨fs₁, hCreate, hFold⟩ := bind_eq_ok.mp h
  exact extracted_foldlM (extracted_create (mapError_eq_ok.mp hCreate)) hSafe hFold

theorem Extracted.perm (h : Extracted host bytes root l fs fs') (hPerm : l.Perm entries) :
    Extracted host bytes root entries fs fs' where
  outside := h.outside
  top := h.top
  file e he := h.file e (hPerm.mem_iff.mpr he)
  dir e he := h.dir e (hPerm.mem_iff.mpr he)
  only path hPath hNode := by
    obtain ⟨e, he, hRest⟩ := h.only path hPath hNode
    exact ⟨e, hPerm.mem_iff.mp he, hRest⟩

/-- The entries say what is where. -/
theorem extracted_unique {host' : Host} {fs₂ : Fs} (h₁ : Extracted host bytes root entries fs fs₁)
    (h₂ : Extracted host' bytes root entries fs fs₂)
    (hInflate : host'.inflateRaw = host.inflateRaw) : fs₁ = fs₂ := by
  have hSame : ∀ e, contentOf host' bytes e = contentOf host bytes e := fun e => by
    rw [contentOf, contentOf, hInflate]
  refine Fs.ext (funext fun p => ?_)
  by_cases hp : root <+: p
  · obtain ⟨path, rfl⟩ := hp
    by_cases hPath : path = []
    · rw [hPath, append_nil, h₁.top, h₂.top]
    by_cases hEntry : ∃ e ∈ entries, e.skip = false ∧ path <+: segments e.path
    · obtain ⟨e, he, hSkip, hPrefix⟩ := hEntry
      by_cases hKind : e.dir = true ∨ path ≠ segments e.path
      · rw [h₁.dir e he hSkip path hPrefix hKind, h₂.dir e he hSkip path hPrefix hKind]
      · push Not at hKind
        have hFile : e.dir = false := by simpa using hKind.1
        obtain ⟨content₁, hWhole₁, hNode₁⟩ := h₁.file e he hSkip hFile
        obtain ⟨content₂, hWhole₂, hNode₂⟩ := h₂.file e he hSkip hFile
        have hContent := hWhole₁.unpacked.symm.trans ((hSame e).symm.trans hWhole₂.unpacked)
        rw [Except.ok.injEq] at hContent
        rw [hKind.2, hNode₁, hNode₂, hContent]
    · have hNone₁ : fs₁.node (root ++ path) = none := by
        by_contra hSome
        exact hEntry (h₁.only path hPath hSome)
      have hNone₂ : fs₂.node (root ++ path) = none := by
        by_contra hSome
        exact hEntry (h₂.only path hPath hSome)
      rw [hNone₁, hNone₂]
  · rw [h₁.outside p hp, h₂.outside p hp]

/-! ## A host that does not refuse -/

def Willing (host : Host) : Prop := ∀ fs path, host.refuses fs path = none

theorem create_isOk (hWilling : Willing host) {n : Node} (hTarget : target ≠ [])
    (hParent : fs.node target.dropLast = some .dir) (hNew : fs.node target = none) :
    ∃ fs', host.create fs target n = .ok fs' := by
  refine ⟨fs.add target n hTarget hParent hNew, ?_⟩
  rw [Host.create, hWilling]
  dsimp only
  rw [dif_neg hTarget, dif_pos hParent, dif_pos hNew]

theorem mkdirs_isOk (hWilling : Willing host) {made rest : Path} (hMade : fs.node made = some .dir)
    (hFree : ∀ q, q <+: rest → ∀ content, fs.node (made ++ q) ≠ some (.file content)) :
    ∃ fs', host.mkdirs fs made rest = .ok fs' := by
  induction rest generalizing made fs with
  | nil => exact ⟨fs, rfl⟩
  | cons seg rest ih =>
    have hStep : ∀ q : Path, made ++ [seg] ++ q = made ++ seg :: q := fun q => by simp
    have hRest : ∀ q, q <+: rest → ∀ content,
        fs.node (made ++ [seg] ++ q) ≠ some (.file content) := fun q hq content => by
      rw [hStep]
      exact hFree _ (cons_prefix_cons.mpr ⟨rfl, hq⟩) content
    rw [Host.mkdirs]
    split
    · rename_i hDir
      exact ih hDir hRest
    · rename_i content hFile
      exact absurd hFile (hFree [seg] ⟨rest, rfl⟩ content)
    · rename_i hNone
      obtain ⟨fs₁, hCreate⟩ := create_isOk (n := .dir) hWilling (append_ne_nil_of_right_ne_nil made
        (cons_ne_nil seg [])) (by rwa [dropLast_concat]) hNone
      obtain ⟨-, -, -, hNode⟩ := create_eq_ok hCreate
      obtain ⟨fs', hMkdirs⟩ := ih (by rw [hNode, if_pos rfl]) fun q hq content => by
        rw [hNode]
        split
        · nofun
        · exact hRest q hq content
      exact ⟨fs', bind_eq_ok.mpr ⟨fs₁, hCreate, hMkdirs⟩⟩

theorem NamesApart.symm {a b : ZipEntry} (h : NamesApart a b) : NamesApart b a :=
  fun hb ha => (h ha hb).symm

/-- No file is in the way of an entry. -/
theorem Extracted.free (h : Extracted host bytes root done fs fs')
    (hApart : ∀ a ∈ done, NamesApart a e) (hSkip : e.skip = false) {q : Path}
    (hPrefix : q <+: root ++ segments e.path) (content : Buffer) :
    fs'.node q ≠ some (.file content) := by
  intro hFile
  rcases prefix_or_prefix_of_prefix hPrefix (prefix_append root _) with hAbove | ⟨path, rfl⟩
  · by_cases hEq : q = root
    · rw [hEq, h.top] at hFile
      cases hFile
    · rw [dir_of_above hAbove hEq (by rw [h.top]; nofun)] at hFile
      cases hFile
  · obtain ⟨a, ha, hSkipA, hDirA, rfl⟩ := h.entry_of_file hFile
    exact (hApart a ha hSkipA hSkip).1 hDirA ((prefix_append_right_inj root).mp hPrefix)

/-- Every file has the content that the archive says. -/
def AllWhole (host : Host) (bytes : Buffer) (entries : List ZipEntry) : Prop :=
  ∀ e ∈ entries, e.skip = false → e.dir = false → ∃ content, Whole host bytes e content

theorem extractEntry_isOk (hWilling : Willing host) (h : Extracted host bytes root done fs fs')
    (hSafe : SafePath e.path) (hApart : ∀ a ∈ done, NamesApart a e)
    (hWhole : e.skip = false → e.dir = false → ∃ content, Whole host bytes e content) :
    ∃ fs₂, extractEntry host bytes root fs' e = .ok fs₂ := by
  unfold Archive.extractEntry
  split
  · exact ⟨fs', rfl⟩
  rename_i hSkip
  rw [Bool.not_eq_true] at hSkip
  have hSegs := segments_ne_nil e.path
  have hBelow : root <+: root ++ segments e.path ∧ root ≠ root ++ segments e.path :=
    ⟨prefix_append root _, fun hEq => hSegs (self_eq_append_right.mp hEq)⟩
  dsimp only
  rw [target_eq hSafe, if_neg (not_not.mpr hBelow)]
  split
  · obtain ⟨fs₂, hMkdirs⟩ := mkdirs_isOk hWilling fs'.root fun q hq => h.free hApart hSkip hq
    exact ⟨fs₂, mapError_eq_ok.mpr hMkdirs⟩
  · rename_i hFile
    rw [Bool.not_eq_true] at hFile
    rw [dropLast_append_of_ne_nil hSegs]
    have hShort : root ++ (segments e.path).dropLast <+: root ++ segments e.path :=
      (prefix_append_right_inj root).mpr (List.dropLast_prefix _)
    obtain ⟨fs₁, hMkdirs⟩ := mkdirs_isOk hWilling fs'.root
      fun q (hq : q <+: root ++ (segments e.path).dropLast) => h.free hApart hSkip (hq.trans hShort)
    have hMade := madeDirs_of_mkdirs fs'.root hMkdirs
    rw [nil_append] at hMade
    obtain ⟨-, -, -, hDirs, hOnly⟩ := h.madeDirs hMade
    have hNew : fs₁.node (root ++ segments e.path) = none := by
      by_contra hSome
      rcases hOnly _ hSome with hOld | hAbove
      · obtain ⟨a, ha, hSkipA, hPrefix⟩ := h.only _ hSegs hOld
        exact (hApart a ha hSkipA hSkip).2 hFile hPrefix
      · have hPos := length_pos_iff.mpr hSegs
        have hLe := hAbove.length_le
        rw [length_dropLast] at hLe
        omega
    obtain ⟨content, hContent⟩ := hWhole hSkip hFile
    obtain ⟨meter, hUnpack⟩ := unpack_of_whole hContent
    obtain ⟨hUnpacked, hBytes, hCrc⟩ := unpack_spec hUnpack
    obtain ⟨fs₂, hCreate⟩ := create_isOk (n := .file content) hWilling (by simp [hSegs])
      (by rw [dropLast_append_of_ne_nil hSegs]; exact hDirs _ prefix_rfl) hNew
    refine ⟨fs₂, bind_eq_ok.mpr ⟨fs₁, mapError_eq_ok.mpr hMkdirs, bind_eq_ok.mpr ⟨(content, meter),
      mapError_eq_ok.mpr hUnpack, bind_eq_ok.mpr ⟨fs₂, mapError_eq_ok.mpr hCreate, ?_⟩⟩⟩⟩
    rw [if_neg (by rw [hBytes, hContent.size]; exact not_not.mpr rfl),
      if_neg (by rw [hCrc, hContent.crc]; exact not_not.mpr rfl)]

theorem foldlM_isOk (hWilling : Willing host) (h : Extracted host bytes root done fs fs')
    (hSafe : ∀ e ∈ l, SafePath e.path) (hApart : (done ++ l).Pairwise NamesApart)
    (hWhole : AllWhole host bytes l) :
    ∃ fs₂, l.foldlM (extractEntry host bytes root) fs' = .ok fs₂ := by
  induction l generalizing done fs' with
  | nil => exact ⟨fs', rfl⟩
  | cons e l ih =>
    rw [forall_mem_cons] at hSafe
    have hBefore := (pairwise_append.mp hApart).2.2
    obtain ⟨fs₁, hEntry⟩ := extractEntry_isOk hWilling h hSafe.1
      (fun a ha => hBefore a ha e mem_cons_self) (hWhole e mem_cons_self)
    obtain ⟨fs₂, hRest⟩ := ih (h.extractEntry hSafe.1 hEntry) hSafe.2
      (by rwa [append_assoc, singleton_append])
      fun a ha => hWhole a (mem_cons_of_mem e ha)
    exact ⟨fs₂, by rw [foldlM_cons]; exact bind_eq_ok.mpr ⟨fs₁, hEntry, hRest⟩⟩

theorem extractZip_isOk (hWilling : Willing host) (hSafe : ∀ e ∈ entries, SafePath e.path)
    (hApart : entries.Pairwise NamesApart) (hWhole : AllWhole host bytes entries) (hRoot : root ≠ [])
    (hParent : fs.node root.dropLast = some .dir) (hNew : fs.node root = none) :
    ∃ fs', extractZip host bytes root fs entries = .ok fs' := by
  obtain ⟨fs₁, hCreate⟩ := create_isOk (n := .dir) hWilling hRoot hParent hNew
  obtain ⟨fs', hFold⟩ := foldlM_isOk hWilling (extracted_create hCreate) hSafe hApart hWhole
  exact ⟨fs', bind_eq_ok.mpr ⟨fs₁, mapError_eq_ok.mpr hCreate, hFold⟩⟩

/-- What is accepted is extracted safely, in any order. -/
theorem archive_sound {limits : ZipLimits} {c : Contents} (h : readZip bytes limits = .ok c) :
    Accepted bytes limits c ∧
    (∀ host root fs fs' l, l.Perm c.entries → extractZip host bytes root fs l = .ok fs' →
      Extracted host bytes root c.entries fs fs') ∧
    (∀ (host host' : Host) root fs fs₁ fs₂ l l', host'.inflateRaw = host.inflateRaw →
      l.Perm c.entries → l'.Perm c.entries → extractZip host bytes root fs l = .ok fs₁ →
        extractZip host' bytes root fs l' = .ok fs₂ → fs₁ = fs₂) ∧
    ∀ host root fs fs' l l', Willing host → l.Perm c.entries → l'.Perm c.entries →
      extractZip host bytes root fs l = .ok fs' → extractZip host bytes root fs l' = .ok fs' := by
  have hAccepted := accepted_of_readZip h
  have hSafe : ∀ l : List ZipEntry, l.Perm c.entries → ∀ e ∈ l, SafePath e.path :=
    fun l hPerm e he => hAccepted.safe e (hPerm.mem_iff.mp he)
  have hExtracted : ∀ host root fs fs' l, l.Perm c.entries →
      extractZip host bytes root fs l = .ok fs' → Extracted host bytes root c.entries fs fs' :=
    fun host root fs fs' l hPerm hOk => (extracted_of_extractZip (hSafe l hPerm) hOk).perm hPerm
  refine ⟨hAccepted, hExtracted, ?_, ?_⟩
  · intro host host' root fs fs₁ fs₂ l l' hInflate hPerm hPerm' hOk hOk'
    exact extracted_unique (hExtracted host root fs fs₁ l hPerm hOk)
      (hExtracted host' root fs fs₂ l' hPerm' hOk') hInflate
  · intro host root fs fs' l l' hWilling hPerm hPerm' hOk
    have hThere := hExtracted host root fs fs' l hPerm hOk
    obtain ⟨fs₁, hCreate, -⟩ := bind_eq_ok.mp hOk
    obtain ⟨hRoot, hParent, hNew, -⟩ := create_eq_ok (mapError_eq_ok.mp hCreate)
    have hApart : l'.Pairwise NamesApart :=
      (hPerm'.pairwise_iff fun hab => hab.symm).mpr hAccepted.names
    have hAll : AllWhole host bytes l' := fun e he hSkip hDir => by
      obtain ⟨content, hWhole, -⟩ := hThere.file e (hPerm'.mem_iff.mp he) hSkip hDir
      exact ⟨content, hWhole⟩
    obtain ⟨fs'', hOk'⟩ := extractZip_isOk hWilling (hSafe l' hPerm') hApart hAll hRoot hParent hNew
    rw [hOk', extracted_unique hThere (hExtracted host root fs fs'' l' hPerm' hOk') rfl]

/-! ## A directory with a file in it -/

def libArchive : Buffer :=
  [80, 75, 3, 4, 20, 0, 0, 0, 0, 0, 0, 0, 33, 0, 0, 0, 0, 0, 0, 0, 0, 0, 0, 0, 0, 0, 4, 0, 0, 0,
    108, 105, 98, 47, 80, 75, 3, 4, 20, 0, 0, 0, 0, 0, 0, 0, 33, 0, 131, 22, 220, 140, 1, 0, 0, 0,
    1, 0, 0, 0, 8, 0, 0, 0, 108, 105, 98, 47, 97, 46, 112, 121, 120, 80, 75, 1, 2, 20, 0, 20, 0, 0,
    0, 0, 0, 0, 0, 33, 0, 0, 0, 0, 0, 0, 0, 0, 0, 0, 0, 0, 0, 4, 0, 0, 0, 0, 0, 0, 0, 0, 0, 16, 0,
    0, 0, 0, 0, 0, 0, 108, 105, 98, 47, 80, 75, 1, 2, 20, 0, 20, 0, 0, 0, 0, 0, 0, 0, 33, 0, 131,
    22, 220, 140, 1, 0, 0, 0, 1, 0, 0, 0, 8, 0, 0, 0, 0, 0, 0, 0, 0, 0, 0, 0, 128, 1, 34, 0, 0, 0,
    108, 105, 98, 47, 97, 46, 112, 121, 80, 75, 5, 6, 0, 0, 0, 0, 2, 0, 2, 0, 104, 0, 0, 0, 73, 0,
    0, 0, 0, 0]

def libContents : Contents where
  entries :=
    [{ path := js "lib", dir := true, skip := false, method := 0, crc := 0, compressedSize := 0,
       size := 0, dataOffset := 34 },
     { path := js "lib/a.py", dir := false, skip := false, method := 0, crc := 0x8CDC1683,
       compressedSize := 1, size := 1, dataOffset := 72 }]
  unpackedBytes := 1

/-- Inflates nothing, and streams in one chunk. -/
def plainHost : Host where
  inflateRaw _ := .error "invalid block type"
  chunks b := [b]
  flatten_chunks b := List.append_nil b
  refuses _ _ := none

def noFiles : Fs where
  node p := if p = [] then some .dir else none
  root := rfl
  closed _ hp h := absurd (if_neg hp) h

theorem archive_sound_lib : Accepted libArchive ⟨5000, 1000000000⟩ libContents ∧
    ∃ fs, extractZip plainHost libArchive [js "code"] noFiles libContents.entries.reverse = .ok fs ∧
      Extracted plainHost libArchive [js "code"] libContents.entries noFiles fs ∧
        fs.node [js "code", js "lib", js "a.py"] = some (.file [120]) := by
  have hRead : readZip libArchive ⟨5000, 1000000000⟩ = .ok libContents := by decide +kernel
  have hFile : ((extractZip plainHost libArchive [js "code"] noFiles
      libContents.entries.reverse).toOption.bind fun fs =>
        fs.node [js "code", js "lib", js "a.py"]) = some (.file [120]) := by decide +kernel
  obtain ⟨hAccepted, hExtracted, -⟩ := archive_sound hRead
  refine ⟨hAccepted, ?_⟩
  cases hOk : extractZip plainHost libArchive [js "code"] noFiles libContents.entries.reverse with
  | error e =>
    rw [hOk] at hFile
    cases hFile
  | ok fs =>
    rw [hOk] at hFile
    exact ⟨fs, rfl, hExtracted _ _ _ _ _ (List.reverse_perm _) hOk, hFile⟩

end TMEdge.Archive
