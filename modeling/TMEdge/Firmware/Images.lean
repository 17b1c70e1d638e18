import TMEdge.Firmware.Store

/-!
# A ready build has its image

What the passes of a cleanup and `remove` take away belongs to no build that stays (`Cleans`), and
no other call takes an image away (`Grows`). A build that becomes visible when it is built has just
had its image promoted; one that waits in `pendingBuilds` is not looked for by the cleanup, so that
its image may be gone when it is activated.

* `ready_has_image`: every ready build has its image exactly as long as every build that is
  activated finds its own; and no image goes while it is in use.
* `image_missing`: a build that is activated without its image.
-/

namespace TMEdge.Firmware

open Library Option JsMap

/-! ## What is said -/

/-- A ready build has an image whose SHA-256 begins with its id. -/
def ReadyHasImage (cfg : StoreConfig) (s : FirmwareStore) : Prop :=
  ∀ id b, s.get id = some b → b.state = .ready →
    ∃ bytes, s.bytes cfg id = some bytes ∧ (cfg.digest.hex bytes).take 16 = id

/-- A build that is activated finds its image. -/
def FindsImage (cfg : StoreConfig) (s : FirmwareStore) : StoreEvent → Prop
  | .activateBuild id saved _ => ∀ b, s.pendingBuilds.get id = some b →
      (cfg.persistMetadata = true → saved = true) →
      (Artifacts.read cfg.digest s.artifacts id b.sha256 b.size).isSome
  | _ => True

/-- The answers of `imageInUse` a call is given. -/
def StoreEvent.inUse : StoreEvent → Option (Text → Bool)
  | .remove _ inUse => some inUse
  | .cleanup inUse _ _ _ => some inUse
  | _ => none

/-- Only a call that asks takes an image away, and only one that is not in use. -/
def KeepsInUse (cfg : StoreConfig) (s : FirmwareStore) (e : StoreEvent) : Prop :=
  ∀ id, s.artifacts.has id = true → (storeStep cfg s e).artifacts.has id = false →
    ∃ inUse, e.inUse = some inUse ∧ inUse id = false

/-! ## Images -/

section images

variable {digest : Digest} {artifacts artifacts' : JsMap Text Artifact} {id sha256 : Text}
  {size : Nat} {bytes : List UInt8} {now : Int}

theorem isId_take_hex (digest : Digest) (bytes : List UInt8) :
    isId ((digest.hex bytes).take 16) = true := by
  have hLength : (digest.hex bytes).length = 64 := by
    rw [Digest.hex, Text.length_toHex, digest.length_sha256]
  have hDigits : ∀ c ∈ (digest.hex bytes).take 16, Text.isHexDigit c = true :=
    fun c hc => Text.isHexDigit_of_mem_toHex (List.mem_of_mem_take hc)
  simp only [isId, Bool.and_eq_true, decide_eq_true_eq, List.length_take, hLength,
    List.all_eq_true]
  exact ⟨rfl, hDigits⟩

theorem read_eq_some_iff : Artifacts.read digest artifacts id sha256 size = some bytes ↔
    isId id = true ∧ (∃ at_, artifacts.get id = some ⟨bytes, at_⟩) ∧ bytes.length = size ∧
      digest.hex bytes = sha256 := by
  unfold Artifacts.read
  constructor
  · intro h
    split at h
    next hId =>
      obtain ⟨a, ha, h⟩ := bind_eq_some_iff.mp h
      split at h
      next hMatch =>
        obtain rfl := some.inj h
        exact ⟨hId, ⟨a.modifiedAt, ha⟩, hMatch⟩
      next => cases h
    next => cases h
  · rintro ⟨hId, ⟨at_, ha⟩, hMatch⟩
    simp [hId, ha, hMatch]

/-- No image goes or changes. -/
def Grows (artifacts artifacts' : JsMap Text Artifact) : Prop :=
  ∀ id a, artifacts.get id = some a → artifacts'.get id = some a

theorem Grows.refl (artifacts : JsMap Text Artifact) : Grows artifacts artifacts := fun _ _ h => h

theorem Grows.read (h : Grows artifacts artifacts')
    (hRead : Artifacts.read digest artifacts id sha256 size = some bytes) :
    Artifacts.read digest artifacts' id sha256 size = some bytes := by
  rw [read_eq_some_iff] at hRead ⊢
  obtain ⟨hId, ⟨at_, ha⟩, hMatch⟩ := hRead
  exact ⟨hId, ⟨at_, h id _ ha⟩, hMatch⟩

/-- A promoted image can be read, and no other is touched. -/
theorem promote_spec
    (h : Artifacts.promote digest artifacts id sha256 bytes now = some artifacts') :
    Grows artifacts artifacts' ∧ sha256.take 16 = id ∧
      Artifacts.read digest artifacts' id sha256 bytes.length = some bytes := by
  unfold Artifacts.promote at h
  split at h
  · cases h
  next hIdentity =>
    simp only [not_or, not_not] at hIdentity
    obtain ⟨hId, hHex, hTake⟩ := hIdentity
    split at h
    next hRead =>
      obtain rfl := some.inj h
      exact ⟨Grows.refl _, hTake, hRead⟩
    next =>
      split at h
      · cases h
      next hNew =>
        obtain rfl := some.inj h
        refine ⟨fun id' a ha => ?_, hTake, ?_⟩
        · rw [get_set, if_neg]
          · exact ha
          · rintro rfl
            simp [JsMap.has, ha] at hNew
        · rw [read_eq_some_iff]
          exact ⟨hId, ⟨now, by simp⟩, rfl, hHex⟩

theorem get_remove (artifacts : JsMap Text Artifact) (id id' : Text) :
    (Artifacts.remove artifacts id).get id' = artifacts.get id' ∨
      id' = id ∧ (Artifacts.remove artifacts id).get id' = none := by
  unfold Artifacts.remove
  split
  · rw [get_delete]
    split
    next h => exact Or.inr ⟨h, rfl⟩
    next => exact Or.inl rfl
  · exact Or.inl rfl

end images

/-! ## The invariant -/

/-- The image of a build that is ready can be read under its id. -/
def Pictured (digest : Digest) (artifacts : JsMap Text Artifact) (id : Text)
    (b : FirmwareBuild) : Prop :=
  b.state = .ready → ∃ bytes, Artifacts.read digest artifacts id b.sha256 b.size = some bytes ∧
    b.sha256.take 16 = id

structure Stocked (cfg : StoreConfig) (s : FirmwareStore) : Prop where
  pictured : ∀ id b, s.builds.get id = some b → Pictured cfg.digest s.artifacts id b
  staged : ∀ id b, s.pendingBuilds.get id = some b →
    b.state = .ready ∧ b.id = id ∧ b.sha256.take 16 = id

section steps

variable {cfg : StoreConfig} {s s' s'' : FirmwareStore} {inUse : Text → Bool} {id : Text}
  {b : FirmwareBuild}

theorem Pictured.grows {digest : Digest} {artifacts artifacts' : JsMap Text Artifact}
    (h : Pictured digest artifacts id b) (hGrows : Grows artifacts artifacts') :
    Pictured digest artifacts' id b := by
  intro hReady
  obtain ⟨bytes, hRead, hTake⟩ := h hReady
  exact ⟨bytes, hGrows.read hRead, hTake⟩

theorem Stocked.readyHasImage (h : Stocked cfg s) : ReadyHasImage cfg s := by
  intro id b hb hReady
  obtain ⟨bytes, hRead, hTake⟩ := h.pictured id b hb hReady
  refine ⟨bytes, ?_, ?_⟩
  · have hb : s.builds.get id = some b := hb
    simp only [FirmwareStore.bytes, hb, hReady, if_true, hRead]
  · rw [(read_eq_some_iff.mp hRead).2.2.2, hTake]

/-! ## What cleaning up leaves -/

/-- The builds that stay keep their images, and what goes is not in use. -/
structure Cleans (inUse : Text → Bool) (s s' : FirmwareStore) : Prop where
  builds : ∀ id b, s'.builds.get id = some b →
    s.builds.get id = some b ∧ s'.artifacts.get id = s.artifacts.get id
  pending : s'.pendingBuilds = s.pendingBuilds
  artifacts : ∀ id, s'.artifacts.get id = s.artifacts.get id ∨
    s'.artifacts.get id = none ∧ inUse id = false

theorem Cleans.refl (inUse : Text → Bool) (s : FirmwareStore) : Cleans inUse s s :=
  ⟨fun _ _ hb => ⟨hb, rfl⟩, rfl, fun _ => Or.inl rfl⟩

theorem Cleans.trans (h : Cleans inUse s s') (h' : Cleans inUse s' s'') : Cleans inUse s s'' where
  builds id b hb := by
    obtain ⟨hb', hSame'⟩ := h'.builds id b hb
    obtain ⟨hb, hSame⟩ := h.builds id b hb'
    exact ⟨hb, hSame'.trans hSame⟩
  pending := h'.pending.trans h.pending
  artifacts id := by
    rcases h'.artifacts id with hSame' | hGone
    · rw [hSame']
      exact h.artifacts id
    · exact Or.inr hGone

theorem Cleans.foldl {α : Type*} {f : FirmwareStore → α → FirmwareStore}
    (hf : ∀ s a, Cleans inUse s (f s a)) (l : List α) (s : FirmwareStore) :
    Cleans inUse s (l.foldl f s) := by
  induction l generalizing s with
  | nil => exact Cleans.refl inUse s
  | cons a l ih => exact (hf s a).trans (ih (f s a))

/-- Builds and images are as they were. -/
theorem Cleans.of_eq (hBuilds : s'.builds = s.builds) (hPending : s'.pendingBuilds = s.pendingBuilds)
    (hArtifacts : s'.artifacts = s.artifacts) : Cleans inUse s s' :=
  ⟨fun _ _ hb => ⟨hBuilds ▸ hb, by rw [hArtifacts]⟩, hPending, fun _ => by simp [hArtifacts]⟩

/-- An image of no build goes. -/
theorem cleans_removeArtifact (hInUse : inUse id = false) (hBuild : s.builds.has id = false) :
    Cleans inUse s (s.removeArtifact id) where
  builds id' b hb := by
    refine ⟨hb, (get_remove s.artifacts id id').resolve_right ?_⟩
    rintro ⟨rfl, -⟩
    have hb : s.builds.get id' = some b := hb
    simp [JsMap.has, hb] at hBuild
  pending := rfl
  artifacts id' := by
    rcases get_remove s.artifacts id id' with hSame | ⟨rfl, hGone⟩
    · exact Or.inl hSame
    · exact Or.inr ⟨hGone, hInUse⟩

/-- A build goes with its image. -/
theorem cleans_forget (hInUse : inUse id = false) (hBuilds : s'.builds = s.builds.delete id)
    (hPending : s'.pendingBuilds = s.pendingBuilds)
    (hArtifacts : s'.artifacts = Artifacts.remove s.artifacts id) : Cleans inUse s s' where
  builds id' b hb := by
    rw [hBuilds, get_delete] at hb
    split at hb
    next => cases hb
    next hOther =>
      refine ⟨hb, ?_⟩
      rw [hArtifacts]
      exact (get_remove s.artifacts id id').resolve_right fun h => hOther h.1
  pending := hPending
  artifacts id' := by
    rw [hArtifacts]
    rcases get_remove s.artifacts id id' with hSame | ⟨rfl, hGone⟩
    · exact Or.inl hSame
    · exact Or.inr ⟨hGone, hInUse⟩

theorem cleans_abandonedSources (s : FirmwareStore) (cutoff : Int)
    (sources : List (Text × Int)) : Cleans inUse s (s.cleanAbandonedSources cutoff sources) := by
  refine Cleans.foldl (fun s source => ?_) sources s
  split
  · exact Cleans.refl inUse s
  · split
    · exact Cleans.refl inUse s
    · exact Cleans.of_eq rfl rfl rfl

theorem cleans_failedBuilds (s : FirmwareStore) (cutoff : Int) :
    Cleans inUse s (s.cleanFailedBuilds inUse cutoff) := by
  refine Cleans.foldl (fun s entry => ?_) _ s
  split
  · exact Cleans.refl inUse s
  · split
    · exact Cleans.refl inUse s
    next hInUse => exact cleans_forget (by simpa using hInUse) rfl rfl rfl

theorem cleans_unindexedBuildFiles (s : FirmwareStore) (cutoff : Int) :
    Cleans inUse s (s.cleanUnindexedBuildFiles inUse cutoff) := by
  refine Cleans.foldl (fun s file => ?_) _ s
  split
  · exact Cleans.refl inUse s
  next hNamed =>
    split
    · exact Cleans.refl inUse s
    next hOld =>
      have hFile : Cleans inUse s { s with buildFiles := s.buildFiles.delete file.1 } :=
        Cleans.of_eq rfl rfl rfl
      refine hFile.trans (cleans_removeArtifact ?_ ?_)
      · simpa using fun hInUse => hOld (Or.inr hInUse)
      · simpa using fun hBuild => hNamed (Or.inr hBuild)

theorem cleans_orphanArtifacts (s : FirmwareStore) (cutoff : Int) :
    Cleans inUse s (s.cleanOrphanArtifacts inUse cutoff) := by
  refine Cleans.foldl (fun s artifact => ?_) _ s
  split
  · exact Cleans.refl inUse s
  next hKept =>
    split
    · exact Cleans.refl inUse s
    next hInUse =>
      refine cleans_removeArtifact (by simpa using hInUse) ?_
      simpa using fun hBuild => hKept (Or.inl hBuild)

theorem cleans_cleanup (s : FirmwareStore) (sources : List (Text × Int)) (now olderThanMs : Int) :
    Cleans inUse s (s.cleanup inUse sources now olderThanMs) := by
  unfold FirmwareStore.cleanup
  dsimp only
  have hSources : Cleans inUse s (s.cleanAbandonedSources (now - olderThanMs) sources) :=
    cleans_abandonedSources s _ sources
  have hFailed := hSources.trans (cleans_failedBuilds _ (now - olderThanMs))
  have hUnindexed := hFailed.trans (cleans_unindexedBuildFiles _ (now - olderThanMs))
  have hOrphans := hUnindexed.trans (cleans_orphanArtifacts _ (now - olderThanMs))
  exact hOrphans.trans (Cleans.of_eq rfl rfl rfl)

theorem cleans_remove (s : FirmwareStore) (id : Text) : Cleans inUse s (s.remove cfg inUse id) := by
  unfold FirmwareStore.remove
  split
  · exact Cleans.refl inUse s
  next hInUse =>
    split
    · exact Cleans.refl inUse s
    · dsimp only
      split
      · exact cleans_forget (by simpa using hInUse) rfl rfl rfl
      · exact cleans_forget (by simpa using hInUse) rfl rfl rfl

theorem Stocked.cleaned (h : Stocked cfg s) (hCleans : Cleans inUse s s') : Stocked cfg s' where
  pictured id b hb hReady := by
    obtain ⟨hb, hSame⟩ := hCleans.builds id b hb
    obtain ⟨bytes, hRead, hTake⟩ := h.pictured id b hb hReady
    refine ⟨bytes, ?_, hTake⟩
    rw [read_eq_some_iff] at hRead ⊢
    rwa [hSame]
  staged := hCleans.pending ▸ h.staged

/-! ## What comes in -/

/-- Images come in, and builds stay as they are. -/
theorem Stocked.grown (h : Stocked cfg s) (hBuilds : s'.builds = s.builds)
    (hPending : s'.pendingBuilds = s.pendingBuilds) (hGrows : Grows s.artifacts s'.artifacts) :
    Stocked cfg s' :=
  ⟨fun id b hb => (h.pictured id b (hBuilds ▸ hb)).grows hGrows,
    fun id b hb => h.staged id b (hPending ▸ hb)⟩

/-- A build becomes visible with its image. -/
theorem Stocked.listed (h : Stocked cfg s) (hBuilds : s'.builds = s.builds.set id b)
    (hPending : ∀ id b, s'.pendingBuilds.get id = some b → s.pendingBuilds.get id = some b)
    (hArtifacts : s'.artifacts = s.artifacts) (hImage : Pictured cfg.digest s.artifacts id b) :
    Stocked cfg s' where
  pictured id' b' hb := by
    rw [hBuilds, get_set] at hb
    rw [hArtifacts]
    split at hb
    next hId =>
      obtain rfl := some.inj hb
      exact hId ▸ hImage
    next => exact h.pictured id' b' hb
  staged id' b' hb := h.staged id' b' (hPending id' b' hb)

theorem builds_publish (s : FirmwareStore) (b : FirmwareBuild) (now : Int) :
    (s.publish cfg b now).builds = s.builds.set b.id b := by
  unfold FirmwareStore.publish
  split <;> rfl

theorem pending_publish (s : FirmwareStore) (b : FirmwareBuild) (now : Int) :
    (s.publish cfg b now).pendingBuilds = s.pendingBuilds := by
  unfold FirmwareStore.publish
  split <;> rfl

theorem artifacts_publish (s : FirmwareStore) (b : FirmwareBuild) (now : Int) :
    (s.publish cfg b now).artifacts = s.artifacts := by
  unfold FirmwareStore.publish
  split <;> rfl

/-- What a call of `completeBuild` does: nothing, or it promotes an image and then stages the build,
publishes it, or fails to write its metadata. -/
theorem completeBuild_cases (cfg : StoreConfig) (s : FirmwareStore) (c : FirmwareStore.Completion) :
    s.completeBuild cfg c = s ∨
    ∃ artifacts b, Artifacts.promote cfg.digest s.artifacts b.id b.sha256 c.bytes c.now =
        some artifacts ∧ b.state = .ready ∧ b.size = c.bytes.length ∧
      (s.completeBuild cfg c).artifacts = artifacts ∧
      ((s.completeBuild cfg c).builds = s.builds ∧
          (s.completeBuild cfg c).pendingBuilds = s.pendingBuilds.set b.id b ∨
        (s.completeBuild cfg c).builds = s.builds.set b.id b ∧
          (s.completeBuild cfg c).pendingBuilds = s.pendingBuilds ∨
        (s.completeBuild cfg c).builds = s.builds ∧
          (s.completeBuild cfg c).pendingBuilds = s.pendingBuilds) := by
  unfold FirmwareStore.completeBuild
  split
  next up version _ _ =>
    dsimp only
    split
    · exact Or.inl rfl
    split
    · exact Or.inl rfl
    next artifacts hPromote =>
      refine Or.inr ⟨artifacts, c.build cfg.digest up version, hPromote, rfl, rfl, ?_⟩
      split
      · exact ⟨rfl, Or.inl ⟨rfl, rfl⟩⟩
      split
      · exact ⟨rfl, Or.inr (Or.inr ⟨rfl, rfl⟩)⟩
      · exact ⟨artifacts_publish _ _ _,
          Or.inr (Or.inl ⟨builds_publish _ _ _, pending_publish _ _ _⟩)⟩
  next => exact Or.inl rfl

theorem grows_completeBuild (s : FirmwareStore) (c : FirmwareStore.Completion) :
    Grows s.artifacts (s.completeBuild cfg c).artifacts := by
  rcases completeBuild_cases cfg s c with hSame | ⟨artifacts, b, hPromote, -, -, hArtifacts, -⟩
  · rw [hSame]
    exact Grows.refl _
  · rw [hArtifacts]
    exact (promote_spec hPromote).1

theorem Stocked.completeBuild (h : Stocked cfg s) (c : FirmwareStore.Completion) :
    Stocked cfg (s.completeBuild cfg c) := by
  rcases completeBuild_cases cfg s c with
    hSame | ⟨artifacts, b, hPromote, hReady, hSize, hArtifacts, hCases⟩
  · rwa [hSame]
  obtain ⟨hGrows, hTake, hRead⟩ := promote_spec hPromote
  have hGrown : Stocked cfg { s with artifacts } := h.grown rfl rfl hGrows
  rcases hCases with ⟨hBuilds, hPending⟩ | ⟨hBuilds, hPending⟩ | ⟨hBuilds, hPending⟩
  · refine ⟨fun id b hb => ?_, fun id b' hb => ?_⟩
    · rw [hBuilds] at hb
      rw [hArtifacts]
      exact hGrown.pictured id b hb
    · rw [hPending, get_set] at hb
      split at hb
      next hId =>
        obtain rfl := some.inj hb
        exact ⟨hReady, hId.symm, hTake.trans hId.symm⟩
      next => exact h.staged id b' hb
  · exact hGrown.listed hBuilds (fun _ _ hb => hPending ▸ hb) hArtifacts
      fun _ => ⟨c.bytes, hSize ▸ hRead, hTake⟩
  · exact h.grown hBuilds hPending (hArtifacts ▸ hGrows)

theorem artifacts_activateBuild (s : FirmwareStore) (id : Text) (saved : Bool) (now : Int) :
    (s.activateBuild cfg id saved now).artifacts = s.artifacts := by
  unfold FirmwareStore.activateBuild
  split
  · rfl
  · split
    · rfl
    · exact artifacts_publish _ _ _

theorem Stocked.activateBuild (h : Stocked cfg s) {saved : Bool} {now : Int}
    (hFinds : FindsImage cfg s (.activateBuild id saved now)) :
    Stocked cfg (s.activateBuild cfg id saved now) := by
  unfold FirmwareStore.activateBuild
  split
  · exact h
  next b hb =>
    split
    · exact h
    next hSaved =>
      obtain ⟨-, hId, hTake⟩ := h.staged id b hb
      refine h.listed (hId ▸ builds_publish s b now) (fun id' b' hb' => ?_)
        (artifacts_publish s b now) fun _ => ?_
      · have hb' : (s.pendingBuilds.delete id).get id' = some b' := hb'
        rw [get_delete] at hb'
        split at hb'
        · cases hb'
        · exact hb'
      · obtain ⟨bytes, hRead⟩ := isSome_iff_exists.mp (hFinds b hb fun hPersist => by
          simpa [hPersist] using hSaved)
        exact ⟨bytes, hRead, hTake⟩

/-- A build that is activated and shows its image had it before. -/
theorem Stocked.findsImage (h : Stocked cfg s) {e : StoreEvent}
    (hImage : ReadyHasImage cfg (storeStep cfg s e)) : FindsImage cfg s e := by
  cases e with
  | activateBuild id saved now =>
    intro b hb hSaved
    obtain ⟨hReady, hId, -⟩ := h.staged id b hb
    have hNot : ¬ (cfg.persistMetadata = true ∧ (!saved) = true) := by
      rintro ⟨hPersist, hFailed⟩
      simp [hSaved hPersist] at hFailed
    have hListed : (storeStep cfg s (.activateBuild id saved now)).builds =
        s.builds.set id b := by
      simp only [storeStep, FirmwareStore.activateBuild, hb, if_neg hNot]
      exact hId ▸ builds_publish s b now
    have hGet : (storeStep cfg s (.activateBuild id saved now)).builds.get id = some b := by
      simp [hListed]
    obtain ⟨bytes, hBytes, -⟩ := hImage id b hGet hReady
    simp only [FirmwareStore.bytes, hGet, hReady, if_true] at hBytes
    rw [storeStep, artifacts_activateBuild] at hBytes
    simp [hBytes]
  | _ => trivial

theorem Stocked.step (h : Stocked cfg s) {e : StoreEvent} (hFinds : FindsImage cfg s e) :
    Stocked cfg (storeStep cfg s e) := by
  cases e with
  | upload up => exact ⟨h.pictured, h.staged⟩
  | completeBuild c => exact h.completeBuild c
  | activateBuild id saved now => exact h.activateBuild hFinds
  | remove id inUse => exact h.cleaned (cleans_remove s id)
  | cleanup inUse sources now olderThanMs =>
    exact h.cleaned (cleans_cleanup s sources now olderThanMs)

theorem Grows.has {artifacts artifacts' : JsMap Text Artifact} (h : Grows artifacts artifacts')
    (hHas : artifacts.has id = true) : artifacts'.has id = true := by
  obtain ⟨a, ha⟩ := isSome_iff_exists.mp hHas
  simp [JsMap.has, h id a ha]

theorem Cleans.keepsInUse (h : Cleans inUse s s') (hHas : s.artifacts.has id = true)
    (hGone : s'.artifacts.has id = false) : inUse id = false := by
  rcases h.artifacts id with hSame | ⟨-, hInUse⟩
  · rw [JsMap.has, hSame] at hGone
    rw [JsMap.has, hGone] at hHas
    cases hHas
  · exact hInUse

end steps

/-! ## Loading -/

section load

variable {cfg : StoreConfig} {s : FirmwareStore}

theorem state_verified {b : FirmwareBuild} (hReady : (s.verified cfg b).state = .ready) :
    s.verified cfg b = b ∧
      (Artifacts.read cfg.digest s.artifacts b.id b.sha256 b.size).isSome := by
  unfold FirmwareStore.verified at hReady ⊢
  split at hReady
  · cases hReady
  · cases hReady
  · split at hReady
    next hRead => exact ⟨if_pos hRead, hRead⟩
    next => cases hReady
  next hFailed =>
    rw [hFailed] at hReady
    cases hReady

theorem take_of_validBuild {b : FirmwareBuild} (h : validBuild b = true) :
    b.sha256.take 16 = b.id := by
  simp only [validBuild, Bool.and_eq_true, decide_eq_true_eq] at h
  exact h.1.1.2

theorem Stocked.loadEntry (h : Stocked cfg s) (now : Int) (e : BuildEntry) :
    Stocked cfg (s.loadEntry cfg now e) := by
  cases e with
  | manifest name b =>
    simp only [FirmwareStore.loadEntry]
    split
    next hValid =>
      refine h.listed rfl (fun _ _ hb => hb) rfl fun hReady => ?_
      obtain ⟨hSame, hRead⟩ := state_verified hReady
      obtain ⟨bytes, hRead⟩ := isSome_iff_exists.mp hRead
      exact ⟨bytes, by rw [hSame]; exact hRead, by rw [hSame]; exact take_of_validBuild hValid.1⟩
    next => exact h
  | legacy name b bytes saved =>
    simp only [FirmwareStore.loadEntry]
    split
    next hValid =>
      obtain ⟨-, rfl, hSize, -⟩ := hValid
      split
      · exact h
      next artifacts hPromote =>
        obtain ⟨hGrows, hTake, hRead⟩ := promote_spec hPromote
        have hGrown : Stocked cfg { s with artifacts } := h.grown rfl rfl hGrows
        split
        · refine hGrown.listed rfl (fun _ _ hb => hb) rfl fun _ => ⟨bytes, ?_, hTake⟩
          rw [hSize]
          exact hRead
        · exact hGrown
    next => exact h
  | corrupt => exact h

theorem stocked_load (cfg : StoreConfig) (disk : Disk) (now : Int) :
    Stocked cfg (.load cfg disk now) := by
  have hEmpty : ∀ s : FirmwareStore, s.builds = .empty → s.pendingBuilds = .empty →
      Stocked cfg s := fun s hBuilds hPending =>
    ⟨fun id b hb => by simp [hBuilds] at hb, fun id b hb => by simp [hPending] at hb⟩
  unfold FirmwareStore.load
  dsimp only
  split
  · refine List.foldlRecOn _ _ (hEmpty _ rfl rfl) fun s h e _ => ?_
    exact h.loadEntry now e
  · exact hEmpty _ rfl rfl

end load

/-! ## Results -/

section results

variable {cfg : StoreConfig} {s : FirmwareStore} {es : List StoreEvent}

theorem keepsInUse (cfg : StoreConfig) (s : FirmwareStore) (e : StoreEvent) :
    KeepsInUse cfg s e := by
  intro id hHas hGone
  have hGrown : ¬ Grows s.artifacts (storeStep cfg s e).artifacts := fun hGrows =>
    absurd (hGrows.has hHas) (by simp [hGone])
  cases e with
  | upload up => exact absurd (Grows.refl _) hGrown
  | completeBuild c => exact absurd (grows_completeBuild s c) hGrown
  | activateBuild id' saved now =>
    rw [storeStep, artifacts_activateBuild] at hGrown
    exact absurd (Grows.refl _) hGrown
  | remove id' inUse => exact ⟨inUse, rfl, (cleans_remove s id').keepsInUse hHas hGone⟩
  | cleanup inUse sources now olderThanMs =>
    exact ⟨inUse, rfl, (cleans_cleanup s sources now olderThanMs).keepsInUse hHas hGone⟩

/-- Runs that show the images of their ready builds activated none without its image. -/
theorem Stocked.guarded (h : Stocked cfg s)
    (hImages : ∀ fs, fs <+: es → ReadyHasImage cfg (run (storeStep cfg) s fs)) :
    Guarded (storeStep cfg) (FindsImage cfg) s es := by
  induction es generalizing s with
  | nil => trivial
  | cons e es ih =>
    have hFinds := h.findsImage (hImages [e] (by simp))
    exact ⟨hFinds, ih (h.step hFinds) fun fs hfs => hImages (e :: fs) (by simpa using hfs)⟩

/-- In every run from a loaded store every ready build has its image, in every state passed
through, exactly as long as every build that is activated finds its own; and no call takes an image
away that is in use. -/
theorem ready_has_image (cfg : StoreConfig) (disk : Disk) (now : Int) (es : List StoreEvent) :
    ((∀ fs, fs <+: es → ReadyHasImage cfg (run (storeStep cfg) (.load cfg disk now) fs)) ↔
      Guarded (storeStep cfg) (FindsImage cfg) (.load cfg disk now) es) ∧
    ∀ pre e post, es = pre ++ e :: post →
      KeepsInUse cfg (run (storeStep cfg) (.load cfg disk now) pre) e := by
  refine ⟨⟨(stocked_load cfg disk now).guarded, ?_⟩, fun pre e _ _ => keepsInUse cfg _ e⟩
  rintro hFinds fs ⟨gs, rfl⟩
  have hStocked := run_invariant_guarded (Stocked cfg) (fun _ _ h hFinds => h.step hFinds)
    (stocked_load cfg disk now) (guarded_append.mp hFinds).1
  exact hStocked.readyHasImage

end results

/-! ## An image that is gone -/

def pilotStore (digest : Digest) : StoreConfig where
  digest
  maxArtifactBytes := 8 * 1024 * 1024
  persistMetadata := true

def emptyDisk : Disk where
  entries := []
  artifacts := .empty
  staging := .empty
  buildFiles := .empty
  metadataTemps := .empty

/-- A build of the image `[1]` that is to be activated later. -/
def staged (uploadId : Text) (now : Int) : List StoreEvent :=
  [.upload ⟨uploadId, js "admin", 1, 10, now, now⟩,
    .completeBuild ⟨uploadId, js "admin", [], [1], true, some (js "1.0"), true, now⟩]

/-- The same image is built again two hours later: its file keeps the time of the first build. -/
def stagedTwice : List StoreEvent := staged (js "up-1") 0 ++ staged (js "up-2") 7200000

/-- A cleanup comes before the activation. -/
def cleanedBetween (digest : Digest) : List StoreEvent :=
  stagedTwice ++ [.cleanup (fun _ => false) [] 7200000 3600000,
    .activateBuild ((digest.hex [1]).take 16) true 7200001]

/-- A cleanup takes the only image away, if no build is visible. -/
theorem cleanup_staged {s : FirmwareStore} {id : Text} {a : Artifact} {now olderThanMs : Int}
    (hId : isId id = true) (hBuilds : s.builds = .empty) (hFiles : s.buildFiles = .empty)
    (hArtifacts : s.artifacts = JsMap.empty.set id a) (hOld : a.modifiedAt < now - olderThanMs) :
    (s.cleanup (fun _ => false) [] now olderThanMs).artifacts.get id = none := by
  have hNone {κ ν : Type} : (JsMap.empty : JsMap κ ν).entries = [] := rfl
  have hOne : (JsMap.empty.set id a).entries = [(id, a)] := rfl
  have hNew : ¬ now ≤ a.modifiedAt + olderThanMs := by omega
  simp [FirmwareStore.cleanup, FirmwareStore.cleanAbandonedSources,
    FirmwareStore.cleanFailedBuilds, FirmwareStore.cleanUnindexedBuildFiles,
    FirmwareStore.cleanOrphanArtifacts, FirmwareStore.cleanStagedArtifacts,
    FirmwareStore.cleanMetadataTemps, FirmwareStore.removeArtifact, Artifacts.remove,
    JsMap.has, hNone, hOne, hBuilds, hFiles, hArtifacts, hId, hNew]

/-- What the two builds leave. -/
theorem stagedTwice_spec (digest : Digest) :
    let s := run (storeStep (pilotStore digest)) (.load (pilotStore digest) emptyDisk 0) stagedTwice
    s.builds = .empty ∧ s.buildFiles = .empty ∧
      s.artifacts = JsMap.empty.set ((digest.hex [1]).take 16) ⟨[1], 0⟩ ∧
      ∃ b, s.pendingBuilds.get ((digest.hex [1]).take 16) = some b ∧
        b.id = (digest.hex [1]).take 16 ∧ b.state = .ready := by
  simp [stagedTwice, staged, storeStep, FirmwareStore.load, pilotStore, emptyDisk,
    FirmwareStore.completeBuild, FirmwareStore.Completion.build, Artifacts.promote,
    isId_take_hex, Artifacts.read, JsMap.has]

theorem image_missing : ¬ ∃ digest, ∀ disk now es,
    ReadyHasImage (pilotStore digest) (run (storeStep (pilotStore digest))
      (.load (pilotStore digest) disk now) es) := by
  rintro ⟨digest, h⟩
  have hId := isId_take_hex digest [1]
  have hReady := h emptyDisk 0 (cleanedBetween digest) ((digest.hex [1]).take 16)
  obtain ⟨hBuilds, hFiles, hArtifacts, b, hb, hbId, hbReady⟩ := stagedTwice_spec digest
  rw [cleanedBetween, run_append] at hReady
  generalize run (storeStep (pilotStore digest)) (.load (pilotStore digest) emptyDisk 0)
    stagedTwice = s at *
  rw [run_cons, run_cons, run_nil, storeStep, storeStep] at hReady
  have hPending := (cleans_cleanup s [] 7200000 3600000 : Cleans (fun _ => false) s _).pending
  have hGone : (s.cleanup (fun _ => false) [] 7200000 3600000).artifacts.get
      ((digest.hex [1]).take 16) = none :=
    cleanup_staged hId hBuilds hFiles hArtifacts (by decide)
  generalize s.cleanup (fun _ => false) [] 7200000 3600000 = t at *
  have hListed : (t.activateBuild (pilotStore digest) ((digest.hex [1]).take 16) true
      7200001).builds.get ((digest.hex [1]).take 16) = some b := by
    simp [FirmwareStore.activateBuild, hPending, hb, builds_publish, hbId]
  obtain ⟨bytes, hBytes, -⟩ := hReady b hListed hbReady
  simp [FirmwareStore.bytes, hListed, hbReady, artifacts_activateBuild, Artifacts.read,
    hGone] at hBytes

end TMEdge.Firmware
