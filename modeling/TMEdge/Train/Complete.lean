import TMEdge.Train.Uploads

/-!
# An accepted upload is complete

* `Complete`: the directory of an upload has `upload.json` and every file, whole.
* `Progress`: what the directory of a call that goes on holds so far. A directory that was
  swept is harmless where nothing is made in it any more, or nothing was made yet.
* `threatened`: a call whose directory must not be swept.
* `uploads_complete`: runs in which no sweep meets a threatened call.
* `files_lost`: a sweep between two files of an archive.
-/

namespace TMEdge.Train

open Library List JsMap

/-! ## Definitions -/

/-- The files of an accepted upload. -/
def expected (c : Receive) : List Path :=
  match kindOf c.filename with
  | .py => [[c.filename]]
  | .zip => filesOf c.entries

def Made (dir : Option UploadDir) (files : List Path) : Prop :=
  ∀ path ∈ files, ∃ d, dir = some d ∧ (path, true) ∈ d.files

def Complete (dir : Option UploadDir) (c : Receive) (upload : Upload) : Prop :=
  ∃ d, dir = some d ∧ d.json = some upload ∧ ∀ path ∈ expected c, (path, true) ∈ d.files

/-- Something was made in the directory, and something will be. -/
def threatened (c : Receive) : Bool :=
  match c.stage with
  | .extracting made _ .making _ => filesOf made ≠ []
  | .extracting _ _ .streaming rest => rest.any fun e => !e.skip
  | _ => false

def Unswept (s : Uploads) : UploadEvent → Prop
  | .sweep _ => ∀ c ∈ s.calls, threatened c = false
  | _ => True

instance (s : Uploads) (e : UploadEvent) : Decidable (Unswept s e) :=
  match e with
  | .sweep _ => inferInstanceAs (Decidable (∀ c ∈ s.calls, threatened c = false))
  | .receive _ _ _ | .resume _ _ _ | .adopted _ | .job _ => isTrue trivial

def ExtractProgress (dir : Option UploadDir) (made : List ZipEntry) (e : ZipEntry)
    (rest : List ZipEntry) : ExtractPhase → Prop
  | .making => Made dir (filesOf made)
  | .opening => e.dir = false ∧ (Made dir (filesOf made) ∨ dir = none)
  | .streaming => e.dir = false ∧
      ((Made dir (filesOf made) ∧ ∃ d whole, dir = some d ∧ (e.path, whole) ∈ d.files) ∨
        (dir = none ∧ ∀ e' ∈ rest, e'.skip = true))

def Progress (dir : Option UploadDir) (c : Receive) : Prop :=
  match c.stage with
  | .receiving | .returned _ | .failed => True
  | .reading | .rooting => kindOf c.filename = .zip
  | .extracting made e phase rest =>
    kindOf c.filename = .zip ∧ c.entries = made ++ e :: rest ∧
      ExtractProgress dir made e rest phase
  | .finishing => kindOf c.filename = .zip ∧ (Made dir (filesOf c.entries) ∨ dir = none)

/-- A pending upload is the one its call returned. -/
structure Accepted (s : Uploads) (id : Nat) (upload : Upload) (c : Receive) : Prop where
  call : s.calls[id]? = some c
  stage : c.stage = .returned upload
  id_eq : upload.id = id
  user : upload.user = c.user
  complete : Complete (s.dirs.get id) c upload

structure Sound (s : Uploads) : Prop where
  pending : ∀ id upload, s.pending.get id = some upload → ∃ c, Accepted s id upload c
  calls : ∀ (n : Nat) c, s.calls[n]? = some c → Progress (s.dirs.get n) c

variable {s : Uploads} {n id : Nat} {c c' : Receive} {upload : Upload} {cfg : HpcConfig}
  {dir : Option UploadDir} {d d' : UploadDir} {made rest entries : List ZipEntry} {e : ZipEntry}
  {path : Path} {dirs : JsMap Nat UploadDir}

/-! ## Directories -/

theorem filesOf_append (made rest : List ZipEntry) :
    filesOf (made ++ rest) = filesOf made ++ filesOf rest := by
  simp [filesOf]

theorem filesOf_skipped (h : ∀ e ∈ rest, e.skip = true) : filesOf rest = [] := by
  unfold filesOf
  rw [map_eq_nil_iff, filter_eq_nil_iff]
  intro e he
  simp [h e he]

theorem Made.mono {files : List Path} (h : Made (some d) files)
    (hFiles : ∀ path, (path, true) ∈ d.files → (path, true) ∈ d'.files) : Made (some d') files := by
  intro path hPath
  obtain ⟨_, hDir, hMem⟩ := h path hPath
  obtain rfl := Option.some.inj hDir
  exact ⟨d', rfl, hFiles path hMem⟩

theorem mem_close {path' : Path} (h : (path', true) ∈ d.files) :
    (path', true) ∈ (d.close path).files := by
  refine mem_map.mpr ⟨(path', true), h, ?_⟩
  split
  · rename_i hPath
    rw [← show path' = path from hPath]
  · rfl

theorem mem_close_self {whole : Bool} (h : (path, whole) ∈ d.files) :
    (path, true) ∈ (d.close path).files :=
  mem_map.mpr ⟨(path, whole), h, if_pos rfl⟩

/-- What the loop goes on to keeps what was made. -/
theorem progress_next (hKind : kindOf c.filename = .zip)
    (hEntries : c.entries = made ++ rest) (hMade : Made dir (filesOf made)) :
    Progress dir { c with stage := Uploads.nextEntry made rest } := by
  induction rest generalizing made with
  | nil =>
    refine ⟨hKind, Or.inl ?_⟩
    rw [append_nil] at hEntries
    exact hEntries ▸ hMade
  | cons e rest ih =>
    unfold Uploads.nextEntry
    split
    · rename_i hSkip
      refine ih ?_ ?_
      · rw [hEntries, append_assoc]
        rfl
      · have hNone : filesOf [e] = [] := filesOf_skipped (by simpa using hSkip)
        rw [filesOf_append, hNone, append_nil]
        exact hMade
    · exact ⟨hKind, hEntries, hMade⟩

/-- Where only skipped entries are left, nothing is made any more. -/
theorem next_skipped (h : ∀ e ∈ rest, e.skip = true) :
    Uploads.nextEntry made rest = .finishing := by
  induction rest generalizing made with
  | nil => rfl
  | cons e rest ih =>
    rw [Uploads.nextEntry, if_pos (h e mem_cons_self)]
    exact ih fun e' he' => h e' (mem_cons_of_mem _ he')

/-! ## Calls that go on -/

theorem getElem?_set_call (hc : s.calls[n]? = some c) (c' : Receive) (i : Nat) :
    (s.calls.set n c')[i]? = if i = n then some c' else s.calls[i]? := by
  have hn := (List.getElem?_eq_some_iff.mp hc).1
  split
  · rename_i hi
    rw [hi, getElem?_set_self hn]
  · rename_i hi
    rw [getElem?_set_ne (Ne.symm hi)]

/-- A call that has not returned goes on, in its own directory. -/
theorem Sound.goesOn (h : Sound s) (hc : s.calls[n]? = some c)
    (hOpen : ∀ upload, c.stage ≠ .returned upload)
    (hDirs : ∀ m, m ≠ n → dirs.get m = s.dirs.get m) (hProgress : Progress (dirs.get n) c') :
    Sound { s with calls := s.calls.set n c', dirs } where
  pending id upload hPending := by
    obtain ⟨c₀, hAccepted⟩ := h.pending id upload hPending
    have hNe : id ≠ n := by
      rintro rfl
      have hCall := hAccepted.call
      rw [hc] at hCall
      obtain rfl := Option.some.inj hCall
      exact hOpen upload hAccepted.stage
    refine ⟨c₀, ?_, hAccepted.stage, hAccepted.id_eq, hAccepted.user, ?_⟩
    · exact (getElem?_set_call hc c' id).trans ((if_neg hNe).trans hAccepted.call)
    · change Complete (dirs.get id) c₀ upload
      rw [hDirs id hNe]
      exact hAccepted.complete
  calls i c₁ hc₁ := by
    have hSet : (s.calls.set n c')[i]? = some c₁ := hc₁
    rw [getElem?_set_call hc] at hSet
    split at hSet
    · rename_i hi
      obtain rfl := Option.some.inj hSet
      exact hi ▸ hProgress
    · rename_i hi
      change Progress (dirs.get i) c₁
      rw [hDirs i hi]
      exact h.calls i c₁ hSet

theorem Sound.fail (h : Sound s) (hc : s.calls[n]? = some c)
    (hOpen : ∀ upload, c.stage ≠ .returned upload) : Sound (s.fail n c) :=
  h.goesOn hc hOpen (fun _ hm => (get_delete ..).trans (if_neg hm)) trivial

theorem get_set_ne {m : Nat} (hm : m ≠ n) (d : UploadDir) : (dirs.set n d).get m = dirs.get m :=
  (get_set ..).trans (if_neg hm)

theorem get_set_self (d : UploadDir) : (dirs.set n d).get n = some d :=
  (get_set ..).trans (if_pos rfl)

/-- A call returns: its upload is pending, and complete. -/
theorem Sound.return_ (h : Sound s) (hc : s.calls[n]? = some c)
    (hOpen : ∀ upload, c.stage ≠ .returned upload)
    (hFiles : ∀ path ∈ expected c', (path, true) ∈ d.files) (files : List Text) (now : Int) :
    Sound (s.return_ n c' d files now) := by
  set upload := Uploads.uploadOf n c' files now
  have hBase : Sound { s with
      calls := s.calls.set n { c' with stage := .returned upload }
      dirs := s.dirs.set n { d with json := some upload } } :=
    h.goesOn hc hOpen (fun m hm => get_set_ne hm _) trivial
  refine ⟨fun id upload' hPending => ?_, hBase.calls⟩
  have hSet : (s.pending.set n upload).get id = some upload' := hPending
  rw [get_set] at hSet
  split at hSet
  · rename_i hId
    obtain rfl := Option.some.inj hSet
    rw [hId]
    refine ⟨{ c' with stage := .returned upload }, ?_, rfl, rfl, rfl, ?_⟩
    · exact (getElem?_set_call hc _ n).trans (if_pos rfl)
    · exact ⟨{ d with json := some upload }, get_set_self _, rfl, hFiles⟩
  · obtain ⟨c₀, hAccepted⟩ := hBase.pending id upload' hSet
    exact ⟨c₀, hAccepted.call, hAccepted.stage, hAccepted.id_eq, hAccepted.user,
      hAccepted.complete⟩

theorem Sound.received (h : Sound s) (hc : s.calls[n]? = some c) (hStage : c.stage = .receiving)
    (bytes : Nat) (isText : Bool) (now : Int) : Sound (s.received cfg n c bytes isText now) := by
  have hOpen : ∀ upload, c.stage ≠ .returned upload := by simp [hStage]
  unfold Uploads.received
  split
  · exact h.fail hc hOpen
  split
  · rename_i hKind
    split
    · exact h.fail hc hOpen
    · refine h.return_ hc hOpen (fun path hPath => ?_) _ now
      unfold expected at hPath
      dsimp only at hPath
      rw [hKind] at hPath
      rw [mem_singleton.mp hPath]
      exact mem_singleton_self _
  · rename_i hKind
    exact h.goesOn hc hOpen (fun m hm => get_set_ne hm _) hKind

theorem Sound.zipRead (h : Sound s) (hc : s.calls[n]? = some c) (hStage : c.stage = .reading)
    (entries : List ZipEntry) (unpackedBytes : Nat) :
    Sound (s.zipRead cfg n c entries unpackedBytes) := by
  have hOpen : ∀ upload, c.stage ≠ .returned upload := by simp [hStage]
  have hKind : Progress (s.dirs.get n) c := h.calls n c hc
  unfold Progress at hKind
  rw [hStage] at hKind
  unfold Uploads.zipRead
  dsimp only
  split
  · exact h.fail hc hOpen
  · exact h.goesOn hc hOpen (fun _ _ => rfl) hKind

theorem Sound.rooted (h : Sound s) (hc : s.calls[n]? = some c) (hStage : c.stage = .rooting) :
    Sound (s.rooted n c) := by
  have hOpen : ∀ upload, c.stage ≠ .returned upload := by simp [hStage]
  have hKind : Progress (s.dirs.get n) c := h.calls n c hc
  unfold Progress at hKind
  rw [hStage] at hKind
  unfold Uploads.rooted
  split
  · exact h.goesOn hc hOpen (fun m hm => get_set_ne hm _)
      (progress_next hKind (nil_append _).symm fun _ hPath => nomatch hPath)
  · exact h.fail hc hOpen

theorem files_mkdirs (h : d.mkdirs path = some d') : d'.files = d.files := by
  unfold UploadDir.mkdirs at h
  split at h
  · cases h
  · obtain rfl := Option.some.inj h
    rfl

theorem files_create (h : d.create path = some d') : d'.files = d.files ++ [(path, false)] := by
  unfold UploadDir.create at h
  split at h
  · obtain rfl := Option.some.inj h
    rfl
  · cases h

theorem filesOf_concat (hDir : e.dir = true) (made : List ZipEntry) :
    filesOf (made ++ [e]) = filesOf made := by
  rw [filesOf_append]
  simp [filesOf, hDir]

theorem Made.concat (h : Made dir (filesOf made))
    (hOwn : ∃ d, dir = some d ∧ (e.path, true) ∈ d.files) : Made dir (filesOf (made ++ [e])) := by
  intro path hPath
  rw [filesOf_append, mem_append] at hPath
  rcases hPath with hPath | hPath
  · exact h path hPath
  · obtain ⟨e', he', rfl⟩ := mem_map.mp hPath
    rw [mem_singleton.mp (mem_of_mem_filter he')]
    exact hOwn

theorem Sound.extract (h : Sound s) (hc : s.calls[n]? = some c) {phase : ExtractPhase}
    (hStage : c.stage = .extracting made e phase rest) (outcome : Nat × Nat) :
    Sound (s.extract n c made e rest outcome phase) := by
  have hOpen : ∀ upload, c.stage ≠ .returned upload := by simp [hStage]
  obtain ⟨hKind, hEntries, hPhase⟩ : kindOf c.filename = .zip ∧ c.entries = made ++ e :: rest ∧
      ExtractProgress (s.dirs.get n) made e rest phase := by
    have hProgress := h.calls n c hc
    unfold Progress at hProgress
    rwa [hStage] at hProgress
  have hEntries' : c.entries = (made ++ [e]) ++ rest := by simpa using hEntries
  cases phase with
  | making =>
    unfold Uploads.extract
    dsimp only
    split
    · rename_i d' hMkdirs
      have hMade : Made (some d') (filesOf made) := by
        intro path hPath
        obtain ⟨d, hDir, hMem⟩ := hPhase path hPath
        rw [hDir] at hMkdirs
        exact ⟨d', rfl, files_mkdirs hMkdirs ▸ hMem⟩
      have hDirs : ∀ m, m ≠ n → (s.dirs.set n d').get m = s.dirs.get m :=
        fun m hm => get_set_ne hm _
      cases hIsDir : e.dir with
      | true =>
        refine h.goesOn hc hOpen hDirs ?_
        rw [get_set_self, if_pos rfl]
        exact progress_next hKind hEntries' (by rwa [filesOf_concat hIsDir])
      | false =>
        refine h.goesOn hc hOpen hDirs ?_
        rw [get_set_self, if_neg Bool.false_ne_true]
        exact ⟨hKind, hEntries, hIsDir, Or.inl hMade⟩
    · exact h.fail hc hOpen
  | opening =>
    obtain ⟨hIsDir, hMade⟩ := hPhase
    unfold Uploads.extract
    dsimp only
    split
    · rename_i d' hCreate
      obtain ⟨d, hDir, hCreate⟩ := Option.bind_eq_some_iff.mp hCreate
      have hFiles := files_create hCreate
      refine h.goesOn hc hOpen (fun m hm => get_set_ne hm _) ?_
      rw [get_set_self]
      refine ⟨hKind, hEntries, hIsDir, Or.inl ⟨?_, d', false, rfl, ?_⟩⟩
      · rw [hDir] at hMade
        refine (hMade.resolve_right (by rintro ⟨⟨⟩, -⟩)).mono fun path hMem => ?_
        rw [hFiles]
        exact mem_append_left _ hMem
      · rw [hFiles]
        exact mem_append_right _ (mem_singleton_self _)
    · exact h.fail hc hOpen
  | streaming =>
    obtain ⟨_, hMade⟩ := hPhase
    unfold Uploads.extract
    dsimp only
    generalize (if e.compressedSize = 0 then ((0 : Nat), (0 : Nat)) else outcome) = result
    split
    · exact h.fail hc hOpen
    split
    · rename_i d hDir
      have hDir' : s.dirs.get n = some d := hDir
      rw [hDir'] at hMade
      obtain ⟨hBefore, d₀, whole, hSome, hMem⟩ := hMade.resolve_right (by rintro ⟨⟨⟩, -⟩)
      obtain rfl := Option.some.inj hSome
      refine h.goesOn hc hOpen (fun m hm => get_set_ne hm _) ?_
      rw [get_set_self]
      refine progress_next hKind hEntries' (Made.concat (hBefore.mono fun _ => mem_close) ?_)
      exact ⟨d.close e.path, rfl, mem_close_self hMem⟩
    · rename_i hDir
      have hDir' : s.dirs.get n = none := hDir
      refine h.goesOn hc hOpen (fun _ _ => rfl) ?_
      rw [hDir'] at hMade ⊢
      rcases hMade with ⟨_, _, _, hSome, _⟩ | ⟨_, hSkipped⟩
      · cases hSome
      · rw [next_skipped hSkipped]
        exact ⟨hKind, Or.inr rfl⟩

theorem Sound.finished (h : Sound s) (hc : s.calls[n]? = some c) (hStage : c.stage = .finishing)
    (now : Int) : Sound (s.finished n c now) := by
  have hOpen : ∀ upload, c.stage ≠ .returned upload := by simp [hStage]
  have hProgress := h.calls n c hc
  unfold Progress at hProgress
  rw [hStage] at hProgress
  obtain ⟨hKind, hMade⟩ := hProgress
  unfold Uploads.finished
  split
  · rename_i d hDir
    rw [hDir] at hMade
    refine h.return_ hc hOpen (fun path hPath => ?_) _ now
    unfold expected at hPath
    rw [hKind] at hPath
    obtain ⟨_, hSome, hMem⟩ := hMade.resolve_right nofun path hPath
    obtain rfl := Option.some.inj hSome
    exact hMem
  · exact h.fail hc hOpen

theorem Sound.resume (h : Sound s) (n : Nat) (arrival : Uploads.Arrival) (now : Int) :
    Sound (s.resume cfg n arrival now) := by
  unfold Uploads.resume
  split
  · exact h
  rename_i c hc
  split
  · exact h
  · exact h
  · rename_i hReturned _
    exact h.fail hc fun upload hStage => hReturned upload hStage
  · rename_i hStage
    exact h.received hc hStage _ _ now
  · rename_i hStage
    exact h.zipRead hc hStage _ _
  · rename_i hStage
    exact h.rooted hc hStage
  · rename_i hStage
    exact h.extract hc hStage _
  · rename_i hStage
    exact h.finished hc hStage now
  · exact h

/-! ## Dropping and sweeping -/

/-- Uploads are dropped whose calls have returned. -/
theorem Sound.dropAll {ids : List Nat} (h : Sound s)
    (hReturned : ∀ id ∈ ids, ∀ c, s.calls[id]? = some c → ∃ upload, c.stage = .returned upload) :
    Sound (ids.foldl Uploads.drop s) ∧ (ids.foldl Uploads.drop s).calls = s.calls ∧
      ∀ id upload, s.pending.get id = some upload →
        (ids.foldl Uploads.drop s).pending.get id = some upload ∨ id ∈ ids := by
  induction ids generalizing s with
  | nil => exact ⟨h, rfl, fun _ _ hPending => Or.inl hPending⟩
  | cons id ids ih =>
    have hDrop : Sound (s.drop id) := by
      refine ⟨fun id' upload hPending => ?_, fun n c hc => ?_⟩
      · have hGet : (s.pending.delete id).get id' = some upload := hPending
        rw [get_delete] at hGet
        split at hGet
        · cases hGet
        · rename_i hNe
          obtain ⟨c, hAccepted⟩ := h.pending id' upload hGet
          refine ⟨c, hAccepted.call, hAccepted.stage, hAccepted.id_eq, hAccepted.user, ?_⟩
          have hDir : (s.dirs.delete id).get id' = s.dirs.get id' :=
            (get_delete ..).trans (if_neg hNe)
          change Complete ((s.dirs.delete id).get id') c upload
          rw [hDir]
          exact hAccepted.complete
      · change Progress ((s.dirs.delete id).get n) c
        rw [get_delete]
        split
        · rename_i hn
          obtain ⟨upload, hStage⟩ := hReturned id mem_cons_self c (hn ▸ hc)
          unfold Progress
          rw [hStage]
          trivial
        · exact h.calls n c hc
    obtain ⟨hSound, hCalls, hPending⟩ :=
      ih hDrop fun id' hId => hReturned id' (mem_cons_of_mem _ hId)
    refine ⟨hSound, hCalls, fun id' upload hOld => ?_⟩
    by_cases hId : id' = id
    · exact Or.inr (hId ▸ mem_cons_self)
    · have hKept : (s.pending.delete id).get id' = some upload :=
        (get_delete ..).trans ((if_neg hId).trans hOld)
      exact (hPending id' upload hKept).imp_right (mem_cons_of_mem _)

theorem Sound.returned_of_pending (h : Sound s) (hId : s.pending.get id = some upload)
    (hc : s.calls[id]? = some c) : c.stage = .returned upload := by
  obtain ⟨c₀, hAccepted⟩ := h.pending id upload hId
  have hCall := hAccepted.call
  rw [hc] at hCall
  obtain rfl := Option.some.inj hCall
  exact hAccepted.stage

/-- The uploads of a person are pending ones of theirs. -/
theorem Sound.mem_mineOf (h : Sound s) {user : Text} (hId : id ∈ s.mineOf user) :
    ∃ upload, s.pending.get id = some upload ∧ upload.user = user := by
  obtain ⟨upload, hUpload, rfl⟩ := mem_map.mp hId
  rw [mem_mergeSort] at hUpload
  obtain ⟨hValue, hUser⟩ := mem_filter.mp hUpload
  obtain ⟨id, hGet⟩ := mem_values_iff.mp hValue
  obtain ⟨c, hAccepted⟩ := h.pending id upload hGet
  exact ⟨upload, hAccepted.id_eq ▸ hGet, of_decide_eq_true hUser⟩

theorem Sound.receive (h : Sound s) (user filename : Text) (declared : Option Nat) :
    Sound (s.receive cfg user filename declared) ∧
      (∀ (n : Nat) c upload, (s.receive cfg user filename declared).calls[n]? = some c →
        c.stage = .returned upload → s.calls[n]? = some c) ∧
      ∀ id upload, s.pending.get id = some upload →
        (s.receive cfg user filename declared).pending.get id = some upload ∨
          upload.user = user := by
  have hSame : Sound s ∧ (∀ (n : Nat) c upload, s.calls[n]? = some c →
      c.stage = .returned upload → s.calls[n]? = some c) ∧
        ∀ id upload, s.pending.get id = some upload →
          s.pending.get id = some upload ∨ upload.user = user :=
    ⟨h, fun _ _ _ hc _ => hc, fun _ _ hPending => Or.inl hPending⟩
  unfold Uploads.receive
  split
  · exact hSame
  split
  · exact hSame
  split
  · exact hSame
  dsimp only
  split
  · exact hSame
  rename_i stored _ _
  set surplus := (s.mineOf user).length - (maxPendingPerUser - 1)
  have hOwn : ∀ id ∈ (s.mineOf user).take surplus, ∃ upload, s.pending.get id = some upload ∧
      upload.user = user := fun id hId => h.mem_mineOf (mem_of_mem_take hId)
  obtain ⟨hDropped, hCalls, hPending⟩ := h.dropAll fun id hId c hc => by
    obtain ⟨upload, hGet, _⟩ := hOwn id hId
    exact ⟨upload, h.returned_of_pending hGet hc⟩
  set t := ((s.mineOf user).take surplus).foldl Uploads.drop s
  set call : Receive := _
  have hNew : ∀ (n : Nat) c, (t.calls ++ [call])[n]? = some c →
      t.calls[n]? = some c ∨ c = call := by
    intro n c hc
    rcases Nat.lt_or_ge n t.calls.length with hn | hn
    · rw [getElem?_append_left hn] at hc
      exact Or.inl hc
    · rw [getElem?_append_right hn, getElem?_singleton] at hc
      split at hc
      · exact Or.inr (Option.some.inj hc).symm
      · cases hc
  refine ⟨⟨fun id upload hGet => ?_, fun n c hc => ?_⟩, fun n c upload hc hStage => ?_,
    fun id upload hOld => ?_⟩
  · obtain ⟨c, hAccepted⟩ := hDropped.pending id upload hGet
    refine ⟨c, ?_, hAccepted.stage, hAccepted.id_eq, hAccepted.user, hAccepted.complete⟩
    exact (getElem?_append_left (List.getElem?_eq_some_iff.mp hAccepted.call).1).trans
      hAccepted.call
  · rcases hNew n c hc with hc | rfl
    · exact hDropped.calls n c hc
    · trivial
  · rcases hNew n c hc with hc | rfl
    · rwa [hCalls] at hc
    · cases hStage
  · rcases hPending id upload hOld with hKept | hId
    · exact Or.inl hKept
    · obtain ⟨upload', hGet, hUser⟩ := hOwn id hId
      rw [hOld] at hGet
      obtain rfl := Option.some.inj hGet
      exact Or.inr hUser

/-- A directory that is swept under an unthreatened call. -/
theorem progress_swept (h : Progress dir c) (hSafe : threatened c = false) : Progress none c := by
  unfold Progress at h ⊢
  unfold threatened at hSafe
  generalize c.stage = stage at h hSafe ⊢
  cases stage with
  | receiving | reading | rooting | returned | failed => exact h
  | finishing => exact ⟨h.1, Or.inr rfl⟩
  | extracting made e phase rest =>
    obtain ⟨hKind, hEntries, hPhase⟩ := h
    refine ⟨hKind, hEntries, ?_⟩
    cases phase with
    | making =>
      have hNone : filesOf made = [] := by simpa using hSafe
      intro path hPath
      rw [hNone] at hPath
      cases hPath
    | opening => exact ⟨hPhase.1, Or.inr rfl⟩
    | streaming => exact ⟨hPhase.1, Or.inr ⟨rfl, by simpa using hSafe⟩⟩

theorem Sound.sweep (h : Sound s) (now : Int) (hSafe : ∀ c ∈ s.calls, threatened c = false) :
    Sound (s.sweep now) ∧ (s.sweep now).calls = s.calls ∧
      ∀ id upload, s.pending.get id = some upload →
        (s.sweep now).pending.get id = some upload ∨ pendingTtlMs ≤ now - upload.createdAt := by
  unfold Uploads.sweep
  dsimp only
  set expired := s.pending.entries.filter fun e => pendingTtlMs ≤ now - e.2.createdAt
  have hReturned : ∀ id ∈ expired.map Prod.fst, ∀ c, s.calls[id]? = some c →
      ∃ upload, c.stage = .returned upload := by
    intro id hId c hc
    obtain ⟨e, he, rfl⟩ := mem_map.mp hId
    have hGet := get_eq_some_iff.mpr (mem_of_mem_filter he)
    exact ⟨e.2, h.returned_of_pending hGet hc⟩
  obtain ⟨hDropped, hCalls, hPending⟩ := h.dropAll hReturned
  set t := (expired.map Prod.fst).foldl Uploads.drop s
  refine ⟨⟨fun id upload hGet => ?_, fun n c hc => ?_⟩, hCalls, fun id upload hOld => ?_⟩
  · obtain ⟨c, hAccepted⟩ := hDropped.pending id upload hGet
    refine ⟨c, hAccepted.call, hAccepted.stage, hAccepted.id_eq, hAccepted.user, ?_⟩
    change Complete ((t.dirs.filterKeys t.pending.has).get id) c upload
    have hHas : t.pending.has id = true := by
      rw [JsMap.has, hGet]
      rfl
    rw [get_filterKeys, if_pos hHas]
    exact hAccepted.complete
  · change Progress ((t.dirs.filterKeys t.pending.has).get n) c
    rw [get_filterKeys]
    split
    · exact hDropped.calls n c hc
    · refine progress_swept (hDropped.calls n c hc) (hSafe c ?_)
      rw [← hCalls]
      exact mem_of_getElem? hc
  · rcases hPending id upload hOld with hKept | hId
    · exact Or.inl hKept
    · obtain ⟨e, he, rfl⟩ := mem_map.mp hId
      obtain ⟨hMem, hExpired⟩ := mem_filter.mp he
      rw [get_eq_some_iff.mpr hMem] at hOld
      obtain rfl := Option.some.inj hOld
      exact Or.inr (of_decide_eq_true hExpired)

/-! ## Returning and leaving -/

/-- Whoever returns is pending, and who is pending stays. -/
structure Moves (s t : Uploads) : Prop where
  returns : ∀ (n : Nat) c upload, t.calls[n]? = some c → c.stage = .returned upload →
    s.calls[n]? = some c ∨ t.pending.get n = some upload
  keeps : ∀ id upload, s.pending.get id = some upload → t.pending.get id = some upload

theorem Moves.refl (s : Uploads) : Moves s s := ⟨fun _ _ _ hc _ => Or.inl hc, fun _ _ h => h⟩

theorem moves_set (hc : s.calls[n]? = some c) (hStage : ∀ upload, c'.stage ≠ .returned upload)
    (dirs : JsMap Nat UploadDir) : Moves s { s with calls := s.calls.set n c', dirs } where
  returns i c₁ upload hc₁ hReturned := by
    have hSet : (s.calls.set n c')[i]? = some c₁ := hc₁
    rw [getElem?_set_call hc] at hSet
    split at hSet
    · obtain rfl := Option.some.inj hSet
      exact absurd hReturned (hStage upload)
    · exact Or.inl hSet
  keeps _ _ h := h

theorem moves_fail (hc : s.calls[n]? = some c) : Moves s (s.fail n c) :=
  moves_set hc (by simp) _

theorem moves_return (h : Sound s) (hc : s.calls[n]? = some c)
    (hOpen : ∀ upload, c.stage ≠ .returned upload) (c' : Receive) (d : UploadDir)
    (files : List Text) (now : Int) : Moves s (s.return_ n c' d files now) where
  returns i c₁ upload hc₁ hReturned := by
    have hSet : (s.calls.set n _)[i]? = some c₁ := hc₁
    rw [getElem?_set_call hc] at hSet
    split at hSet
    · rename_i hi
      obtain rfl := Option.some.inj hSet
      obtain rfl := ReceiveStage.returned.inj hReturned
      exact Or.inr ((get_set ..).trans (if_pos hi))
    · exact Or.inl hSet
  keeps id upload hPending := by
    refine (get_set ..).trans ((if_neg ?_).trans hPending)
    rintro rfl
    exact hOpen upload (h.returned_of_pending hPending hc)

theorem nextEntry_not_returned (made rest : List ZipEntry) (upload : Upload) :
    Uploads.nextEntry made rest ≠ .returned upload := by
  induction rest generalizing made with
  | nil => exact nofun
  | cons e rest ih =>
    unfold Uploads.nextEntry
    split
    · exact ih _
    · exact nofun

theorem moves_received (h : Sound s) (hc : s.calls[n]? = some c)
    (hOpen : ∀ upload, c.stage ≠ .returned upload) (bytes : Nat) (isText : Bool) (now : Int) :
    Moves s (s.received cfg n c bytes isText now) := by
  unfold Uploads.received
  split
  · exact moves_fail hc
  split
  · split
    · exact moves_fail hc
    · exact moves_return h hc hOpen ..
  · exact moves_set hc (by simp) _

theorem moves_extract (hc : s.calls[n]? = some c) (outcome : Nat × Nat) (phase : ExtractPhase) :
    Moves s (s.extract n c made e rest outcome phase) := by
  cases phase with
  | making =>
    unfold Uploads.extract
    dsimp only
    split
    · refine moves_set hc (fun upload => ?_) _
      dsimp only
      split
      · exact nextEntry_not_returned _ _ upload
      · exact nofun
    · exact moves_fail hc
  | opening =>
    unfold Uploads.extract
    dsimp only
    split
    · exact moves_set hc (by simp) _
    · exact moves_fail hc
  | streaming =>
    unfold Uploads.extract
    dsimp only
    generalize (if e.compressedSize = 0 then ((0 : Nat), (0 : Nat)) else outcome) = result
    split
    · exact moves_fail hc
    split
    · exact moves_set hc (nextEntry_not_returned _ _) _
    · exact moves_set hc (nextEntry_not_returned _ _) s.dirs

theorem moves_resume (h : Sound s) (n : Nat) (arrival : Uploads.Arrival) (now : Int) :
    Moves s (s.resume cfg n arrival now) := by
  unfold Uploads.resume
  split
  · exact .refl s
  rename_i c hc
  split
  · exact .refl s
  · exact .refl s
  · exact moves_fail hc
  · rename_i hStage
    exact moves_received h hc (by simp [hStage]) _ _ now
  · unfold Uploads.zipRead
    dsimp only
    split
    · exact moves_fail hc
    · exact moves_set hc (by simp) s.dirs
  · unfold Uploads.rooted
    split
    · exact moves_set hc (nextEntry_not_returned _ _) _
    · exact moves_fail hc
  · exact moves_extract hc _ _
  · rename_i hStage
    unfold Uploads.finished
    split
    · exact moves_return h hc (by simp [hStage]) ..
    · exact moves_fail hc
  · exact .refl s

/-- How an upload stops being pending. -/
inductive Leaves (id : Nat) (upload : Upload) : UploadEvent → Prop
  | adopted : Leaves id upload (.adopted id)
  | newer (filename : Text) (declared : Option Nat) :
    Leaves id upload (.receive upload.user filename declared)
  | expired (now : Int) (h : pendingTtlMs ≤ now - upload.createdAt) : Leaves id upload (.sweep now)

/-- One step: the invariant, who returns, and who leaves. -/
theorem Sound.step (h : Sound s) (e : UploadEvent) (hSafe : Unswept s e) :
    Sound (uploadStep cfg s e) ∧
      (∀ (n : Nat) c upload, (uploadStep cfg s e).calls[n]? = some c → c.stage = .returned upload →
        s.calls[n]? = some c ∨ (uploadStep cfg s e).pending.get n = some upload) ∧
      ∀ id upload, s.pending.get id = some upload →
        (uploadStep cfg s e).pending.get id = some upload ∨ Leaves id upload e := by
  cases e with
  | receive user filename declared =>
    obtain ⟨hSound, hCalls, hPending⟩ := @Sound.receive _ cfg h user filename declared
    refine ⟨hSound, fun n c upload hc hStage => Or.inl (hCalls n c upload hc hStage),
      fun id upload hOld => ?_⟩
    rcases hPending id upload hOld with hKept | rfl
    · exact Or.inl hKept
    · exact Or.inr (.newer filename declared)
  | resume n arrival now =>
    have hMoves : Moves s (s.resume cfg n arrival now) := moves_resume h n arrival now
    exact ⟨h.resume n arrival now, hMoves.returns,
      fun id upload hOld => Or.inl (hMoves.keeps id upload hOld)⟩
  | sweep now =>
    obtain ⟨hSound, hCalls, hPending⟩ := h.sweep now hSafe
    exact ⟨hSound, fun n c _ hc _ => Or.inl ((congrArg (·[n]?) hCalls).symm.trans hc),
      fun id upload hOld => (hPending id upload hOld).imp_right (.expired now)⟩
  | adopted id =>
    unfold uploadStep
    dsimp only
    split
    · rename_i hHas
      obtain ⟨upload, hUpload⟩ := Option.isSome_iff_exists.mp hHas
      obtain ⟨hSound, hCalls, hPending⟩ := h.dropAll (forall_mem_singleton.mpr fun c hc =>
        ⟨upload, h.returned_of_pending hUpload hc⟩)
      refine ⟨hSound, fun n c _ hc _ => Or.inl ((congrArg (·[n]?) hCalls).symm.trans hc),
        fun id' upload' hOld => ?_⟩
      rcases hPending id' upload' hOld with hKept | hId
      · exact Or.inl hKept
      · rw [mem_singleton.mp hId]
        exact Or.inr .adopted
    · exact ⟨h, fun _ _ _ hc _ => Or.inl hc, fun _ _ hOld => Or.inl hOld⟩
  | job op =>
    refine ⟨⟨fun id upload hPending => ?_, h.calls⟩, fun _ _ _ hc _ => Or.inl hc,
      fun _ _ hOld => Or.inl hOld⟩
    obtain ⟨c, hAccepted⟩ := h.pending id upload hPending
    exact ⟨c, hAccepted.call, hAccepted.stage, hAccepted.id_eq, hAccepted.user,
      hAccepted.complete⟩

/-! ## Runs -/

theorem sound_init : Sound {} := ⟨nofun, nofun⟩

theorem sound_run {es : List UploadEvent} (h : Guarded (uploadStep cfg) Unswept {} es) :
    Sound (run (uploadStep cfg) {} es) :=
  run_invariant_guarded Sound (fun _ e hs hSafe => (hs.step e hSafe).1) sound_init h

/-- In a run whose sweeps meet no threatened call every pending upload is complete; a call
that returns leaves its upload pending; and an upload stops being pending when it is adopted,
dropped for a newer one of its owner or expired. -/
theorem uploads_complete (cfg : HpcConfig) (es : List UploadEvent)
    (h : Guarded (uploadStep cfg) Unswept {} es) :
    (∀ id upload, (run (uploadStep cfg) {} es).pending.get id = some upload →
      ∃ c, (run (uploadStep cfg) {} es).calls[id]? = some c ∧ c.stage = .returned upload ∧
        Complete ((run (uploadStep cfg) {} es).dirs.get id) c upload) ∧
    (∀ e (n : Nat) c upload, Unswept (run (uploadStep cfg) {} es) e →
      (run (uploadStep cfg) {} (es ++ [e])).calls[n]? = some c → c.stage = .returned upload →
        (run (uploadStep cfg) {} es).calls[n]? = some c ∨
          (run (uploadStep cfg) {} (es ++ [e])).pending.get n = some upload) ∧
    ∀ e id upload, Unswept (run (uploadStep cfg) {} es) e →
      (run (uploadStep cfg) {} es).pending.get id = some upload →
        (run (uploadStep cfg) {} (es ++ [e])).pending.get id = some upload ∨
          Leaves id upload e := by
  have hSound := sound_run h
  refine ⟨fun id upload hPending => ?_, fun e n c upload hSafe hc hStage => ?_,
    fun e id upload hSafe hPending => ?_⟩
  · obtain ⟨c, hAccepted⟩ := hSound.pending id upload hPending
    exact ⟨c, hAccepted.call, hAccepted.stage, hAccepted.complete⟩
  · rw [run_concat] at hc ⊢
    exact (hSound.step e hSafe).2.1 n c upload hc hStage
  · rw [run_concat]
    exact (hSound.step e hSafe).2.2 id upload hPending

/-! ## An archive of two files -/

theorem clean_file {name : Text} (h : name ≠ [] ∧ name ≠ js "." ∧ name ≠ js "..") :
    Path.Clean [name] :=
  ⟨nofun, fun _ hSeg => mem_singleton.mp hSeg ▸ h⟩

def trainPy : ZipEntry := ⟨[js "train.py"], false, false, 7, 3, 3, clean_file (by decide)⟩

def dataCsv : ZipEntry := ⟨[js "data.csv"], false, false, 9, 5, 5, clean_file (by decide)⟩

def arrivals : List Uploads.Arrival :=
  [.stream 100 false, .archive [trainPy, dataCsv] 8, .step (0, 0), .step (0, 0), .step (0, 0),
    .step (3, 7), .step (0, 0), .step (0, 0), .step (5, 9), .step (0, 0)]

/-- One archive is received; `events` come behind its first file. -/
def receiveArchive (events : List UploadEvent) : List UploadEvent :=
  .receive (js "ada") (js "project.zip") none ::
    (arrivals.take 6).map (.resume 0 · 10) ++ events ++ (arrivals.drop 6).map (.resume 0 · 10)

theorem uploads_complete_archive :
    (run (uploadStep ⟨200, 500⟩) {} (receiveArchive [])).dirs.get 0 ≠ none := by
  have h := (uploads_complete ⟨200, 500⟩ (receiveArchive []) (by decide +kernel)).1 0
    ⟨0, js "ada", 10, .zip, js "project.zip", 100, 8, 2, [js "train.py"]⟩ (by decide +kernel)
  obtain ⟨c, _, _, d, hDir, _⟩ := h
  rw [hDir]
  exact nofun

/-- A sweep between the two files of an archive: the call returns, and the first file is
not there. -/
theorem files_lost :
    (run (uploadStep ⟨200, 500⟩) {} (receiveArchive [.sweep 10])).pending.get 0 =
        some ⟨0, js "ada", 10, .zip, js "project.zip", 100, 8, 2, [js "train.py"]⟩ ∧
      ((run (uploadStep ⟨200, 500⟩) {} (receiveArchive [.sweep 10])).dirs.get 0).map
        UploadDir.files = some [([js "data.csv"], true)] := by
  decide +kernel

end TMEdge.Train
