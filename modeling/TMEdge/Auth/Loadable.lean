import TMEdge.Auth.Users

/-!
# The account file stays loadable

* `loadUsers_iff`: the loader accepts a list exactly when every account passes
  `validUser` and addresses and subjects are distinct; it gives the list back in order.
* `step_file`: a step leaves the file as it is, or appends one account (`Adds`).
* `kept_step`: what every step keeps (`Kept`), whether the file is loadable or not.
* `account_file`: the file is accepted at every moment of a run exactly when no account is
  stored whose name falls back to a local part of more than 60 characters; and in every
  run addresses and subjects stay apart, no account is changed or dropped, `google` gives
  the account of its subject and `verify` none that has a subject.
* `local_part_too_long`: the run in which the file is refused.
-/

namespace TMEdge.Auth

open Library Option JsMap
open List hiding Vector

variable {env : Env} {list : List User} {u : User} {store : UserStore} {file : Option File}
  {s t : State} {i : Nat} {e : Event}

/-! ## The loader -/

/-- The accounts the loader lets in behind `keys` and `subjects`. -/
structure Accepted (env : Env) (keys subjects : List Text) (list : List User) : Prop where
  valid : ∀ u ∈ list, env.validUser u = true
  emails : (list.map User.email).Nodup
  newEmails : ∀ u ∈ list, u.email ∉ keys
  googles : (list.filterMap User.google).Nodup
  newGoogles : ∀ g ∈ list.filterMap User.google, g ∉ subjects

theorem accepted_nil (keys subjects : List Text) : Accepted env keys subjects [] :=
  ⟨by simp, by simp, by simp, by simp, by simp⟩

theorem accepted_cons {keys subjects : List Text} :
    Accepted env keys subjects (u :: list) ↔
      env.validUser u = true ∧ u.email ∉ keys ∧ (∀ g, u.google = some g → g ∉ subjects) ∧
        Accepted env (keys ++ [u.email]) (subjects ++ u.google.toList) list := by
  have hGoogle : ∀ g, g ∈ (u :: list).filterMap User.google ↔
      u.google = some g ∨ g ∈ list.filterMap User.google := by
    intro g
    simp [mem_filterMap]
  constructor
  · rintro ⟨hValid, hEmails, hNew, hSubjects, hNewSubjects⟩
    rw [map_cons, nodup_cons] at hEmails
    refine ⟨hValid u (by simp), hNew u (by simp),
      fun g hg => hNewSubjects g ((hGoogle g).mpr (Or.inl hg)), ?_⟩
    refine ⟨fun w hw => hValid w (by simp [hw]), hEmails.2, fun w hw => ?_, ?_, fun g hg => ?_⟩
    · rw [mem_append, mem_singleton, not_or]
      exact ⟨hNew w (by simp [hw]), fun hEq => hEmails.1 (hEq ▸ mem_map_of_mem hw)⟩
    · exact hSubjects.sublist (List.Sublist.filterMap _ (sublist_cons_self _ _))
    · rw [mem_append, not_or]
      refine ⟨hNewSubjects g ((hGoogle g).mpr (Or.inr hg)), fun hMem => ?_⟩
      rw [mem_toList] at hMem
      rw [filterMap_cons_some hMem, nodup_cons] at hSubjects
      exact hSubjects.1 hg
  · rintro ⟨hValid, hNew, hSubject, h⟩
    refine ⟨?_, ?_, ?_, ?_, ?_⟩
    · intro w hw
      rcases mem_cons.mp hw with rfl | hw
      · exact hValid
      · exact h.valid w hw
    · rw [map_cons, nodup_cons]
      refine ⟨fun hMem => ?_, h.emails⟩
      obtain ⟨w, hw, hEq⟩ := List.mem_map.mp hMem
      exact h.newEmails w hw (by simp [hEq])
    · intro w hw
      rcases mem_cons.mp hw with rfl | hw
      · exact hNew
      · exact fun hMem => h.newEmails w hw (mem_append_left _ hMem)
    · cases hg : u.google with
      | none =>
        rw [filterMap_cons_none hg]
        exact h.googles
      | some g =>
        rw [filterMap_cons_some hg, nodup_cons]
        exact ⟨fun hMem => h.newGoogles g hMem (by simp [hg]), h.googles⟩
    · intro g hg
      rcases (hGoogle g).mp hg with hg | hg
      · exact hSubject g hg
      · exact fun hMem => h.newGoogles g hg (mem_append_left _ hMem)

/-- The loader accepts exactly such lists, and gives them back in order. -/
theorem loadUsers_iff {m m' : JsMap Text User} {subjects : List Text} {list : List User} :
    env.loadUsers m subjects list = some m' ↔
      Accepted env m.keys subjects list ∧
        m'.entries = m.entries ++ list.map fun u => (u.email, u) := by
  induction list generalizing m subjects with
  | nil =>
    simp only [Env.loadUsers, some.injEq, map_nil, append_nil]
    exact ⟨fun h => ⟨accepted_nil _ _, h ▸ rfl⟩, fun h => (JsMap.ext h.2).symm⟩
  | cons u list ih =>
    have hSubject : u.google.any (subjects.contains ·) = false ↔
        ∀ g, u.google = some g → g ∉ subjects := by
      cases u.google <;> simp
    rw [accepted_cons, Env.loadUsers]
    by_cases hNew : u.email ∈ m.keys
    · rw [has_iff_mem_keys.mpr hNew]
      simp [hNew]
    · have hEntries := entries_set_new hNew u
      have hKeys := keys_set_new hNew u
      have hHas : m.has u.email = false := by
        rw [← Bool.not_eq_true, has_iff_mem_keys]
        exact hNew
      rw [hHas, Bool.or_false, ← hSubject]
      by_cases hValid : env.validUser u = true
      · by_cases hAny : u.google.any (subjects.contains ·) = true
        · rw [hValid, hAny]
          simp
        · rw [Bool.not_eq_true] at hAny
          rw [hValid, hAny]
          simp only [Bool.not_true, Bool.or_false, Bool.false_eq_true, if_false]
          rw [ih, hKeys, hEntries]
          simp [hNew]
      · simp [hValid]

/-! ## Reading the file -/

/-- There is no file, or it fits and the loader accepts it. -/
def Readable (env : Env) (file : Option File) : Prop :=
  ∀ f ∈ file, env.fileBytes f.users ≤ 2000000 ∧ Accepted env [] [] f.users

/-- Every store, whatever it has read before, accepts the file. -/
def Loadable (env : Env) (s : State) : Prop :=
  ∀ store, ∃ store', env.refresh s.file store = .ok store'

/-- What a store that has read `list` holds. -/
def Holds (list : List User) (store : UserStore) : Prop :=
  store.users.entries = list.map fun u => (u.email, u)

/-- What a store that has read some version of the file holds: accounts of the file, each
under its address. -/
def Cached (list : List User) (store : UserStore) : Prop :=
  ∀ e u, store.users.get e = some u → u.email = e ∧ u ∈ list

theorem Holds.keys (h : Holds list store) : store.users.keys = list.map User.email := by
  rw [JsMap.keys, h, List.map_map]
  rfl

theorem Holds.values (h : Holds list store) : store.users.values = list := by
  rw [JsMap.values, h, List.map_map]
  exact map_id _

theorem Holds.cached (h : Holds list store) : Cached list store := by
  intro e u hu
  have hMem := get_eq_some_iff.mp hu
  rw [h] at hMem
  obtain ⟨w, hw, hEq⟩ := List.mem_map.mp hMem
  cases hEq
  exact ⟨rfl, hw⟩

theorem Cached.mono {list' : List User} (h : Cached list store) (hSub : list ⊆ list') :
    Cached list' store :=
  fun e u hu => ⟨(h e u hu).1, hSub (h e u hu).2⟩

/-- A refresh that succeeds has read the file, or finds it unchanged. -/
theorem refresh_ok {store' : UserStore} (h : env.refresh file store = .ok store') :
    (Readable env file ∧ Holds ((file.map File.users).getD []) store') ∨
      (store' = store ∧ store.seen ≠ none) := by
  cases file with
  | none =>
    simp only [Env.refresh, Except.ok.injEq] at h
    subst h
    exact Or.inl ⟨by simp [Readable], rfl⟩
  | some f =>
    simp only [Env.refresh] at h
    by_cases hSize : env.fileBytes f.users > 2000000
    · simp [hSize] at h
    rw [if_neg hSize] at h
    by_cases hSeen : store.seen = some f.stamp
    · rw [if_pos hSeen, Except.ok.injEq] at h
      exact Or.inr ⟨h.symm, by simp [hSeen]⟩
    rw [if_neg hSeen] at h
    cases hLoad : env.loadUsers .empty [] f.users with
    | none => simp [hLoad] at h
    | some users =>
      simp only [hLoad, Except.ok.injEq] at h
      subst h
      obtain ⟨hAccepted, hEntries⟩ := loadUsers_iff.mp hLoad
      refine Or.inl ⟨?_, by simpa [Holds, JsMap.empty] using hEntries⟩
      intro f' hf'
      cases hf'
      exact ⟨not_lt.mp hSize, hAccepted⟩

theorem refresh_readable (h : Readable env file) (store : UserStore) :
    ∃ store', env.refresh file store = .ok store' := by
  cases file with
  | none => exact ⟨_, rfl⟩
  | some f =>
    obtain ⟨hSize, hAccepted⟩ := h f rfl
    simp only [Env.refresh, if_neg (not_lt.mpr hSize)]
    split
    · exact ⟨_, rfl⟩
    · have hEmails : (f.users.map fun u => (u.email, u)).map Prod.fst = f.users.map User.email := by
        rw [List.map_map]
        rfl
      have hLoad : env.loadUsers .empty [] f.users =
          some ⟨f.users.map fun u => (u.email, u), hEmails ▸ hAccepted.emails⟩ :=
        loadUsers_iff.mpr ⟨hAccepted, rfl⟩
      exact ⟨_, by rw [hLoad]⟩

theorem loadable_iff : Loadable env s ↔ Readable env s.file := by
  refine ⟨fun h => ?_, fun h => refresh_readable h⟩
  obtain ⟨store, hStore⟩ := h ⟨.empty, none⟩
  rcases refresh_ok hStore with ⟨hReadable, -⟩ | ⟨-, hSeen⟩
  · exact hReadable
  · exact absurd rfl hSeen

/-! ## What a step does to the file -/

/-- Whether the name an account gets has at most 60 characters. -/
def NameFits (name email : Text) : Prop :=
  Text.trim name ≠ [] ∨ ∀ p ∈ emailPart email 0, p.length ≤ 60

/-- The accounts an event may append to the file. -/
inductive Adds (env : Env) (s : State) : Event → User → Prop
  | create {c now : Nat} {io : Write} {i : Nat} {email name salt : Text}
      {hash : Vector UInt8 32} (hCall : s.calls c = some (.create i email name salt hash))
      (hNew : email ∉ s.users.map User.email) (hIo : io ≠ .failed) :
      Adds env s (.createCommit c now io)
        ⟨email, accountName name email, salt, Text.toHex hash.toList, now, none⟩
  | google {i : Nat} {id : Identity} {now : Nat} {io : Write}
      (hNone : ∀ u ∈ s.users, u.google ≠ some id.sub)
      (hEmail : validEmail (env.normalise id.email) = true) (hSub : id.sub ≠ [])
      (hLength : id.sub.length ≤ 255)
      (hNew : env.normalise id.email ∉ s.users.map User.email) (hIo : io ≠ .failed) :
      Adds env s (.google i id true now io)
        ⟨env.normalise id.email, accountName id.name (env.normalise id.email), [], [], now,
          some id.sub⟩

/-- What the stores and the suspended calls may do to one another: the file stays, a store
is refreshed, a call ends. -/
structure Frame (s t : State) : Prop where
  file : t.file = s.file
  stores : ∀ k, Cached s.users (s.stores k) → Cached s.users (t.stores k)
  calls : ∀ c, t.calls c = s.calls c ∨ t.calls c = none

theorem Frame.refl (s : State) : Frame s s := ⟨rfl, fun _ h => h, fun _ => Or.inl rfl⟩

theorem Frame.users (h : Frame s t) : t.users = s.users := by
  rw [State.users, h.file]
  rfl

theorem Frame.trans {u : State} (h : Frame s t) (h' : Frame t u) : Frame s u := by
  refine ⟨h'.file.trans h.file, fun k hk => ?_, fun c => ?_⟩
  · have hStore := h'.stores k (h.users ▸ h.stores k hk)
    rwa [h.users] at hStore
  · rcases h'.calls c with hc | hc
    · rw [hc]
      exact h.calls c
    · exact Or.inr hc

theorem frame_setCall (s : State) (c : Nat) : Frame s (s.setCall c none) := by
  refine ⟨rfl, fun _ h => h, fun c' => ?_⟩
  rw [State.setCall_calls]
  split
  · exact Or.inr rfl
  · exact Or.inl rfl

theorem frame_setStore (s : State) (i : Nat)
    (h : Cached s.users (s.stores i) → Cached s.users store) : Frame s (s.setStore i store) := by
  refine ⟨rfl, fun k hk => ?_, fun _ => Or.inl rfl⟩
  rw [State.setStore_stores]
  split
  · rename_i hEq
    exact h (hEq ▸ hk)
  · exact hk

theorem frame_refresh (h : env.refresh s.file (s.stores i) = .ok store) :
    Frame s (s.setStore i store) := by
  refine frame_setStore s i fun hCached => ?_
  rcases refresh_ok h with ⟨-, hHolds⟩ | ⟨rfl, -⟩
  · exact hHolds.cached
  · exact hCached

/-- A forced reload that succeeds leaves the store with exactly the accounts of the file. -/
theorem reload_ok (h : env.reload s i = (t, none)) :
    Readable env s.file ∧ Frame s t ∧ t.calls = s.calls ∧ Holds s.users (t.stores i) := by
  unfold Env.reload at h
  dsimp only at h
  split at h
  · simp at h
  · rename_i store hRefresh
    simp only [Prod.mk.injEq, and_true] at h
    subst h
    rcases refresh_ok hRefresh with ⟨hReadable, hHolds⟩ | ⟨-, hSeen⟩
    · refine ⟨hReadable, frame_setStore s i fun _ => hHolds.cached, rfl, ?_⟩
      rw [State.setStore_stores, if_pos rfl]
      exact hHolds
    · exact absurd rfl hSeen

/-- It fails on a file that is not readable only. -/
theorem reload_error {e : AuthError} (h : env.reload s i = (t, some e)) :
    ¬ Readable env s.file ∧ Frame s t := by
  unfold Env.reload at h
  dsimp only at h
  split at h
  · rename_i hRefresh
    simp only [Prod.mk.injEq] at h
    obtain ⟨rfl, -⟩ := h
    refine ⟨fun hReadable => ?_, frame_setStore s i fun hCached => hCached⟩
    obtain ⟨store, hStore⟩ := refresh_readable hReadable ⟨(s.stores i).users, none⟩
    rw [hRefresh] at hStore
    cases hStore
  · simp at h

/-- What adding an account does, once the store holds the accounts of the file. -/
theorem addUser_spec {s : State} {i : Nat} {u : User} (hHolds : Holds s.users (s.stores i))
    (hNew : u.email ∉ s.users.map User.email) (io : Write) :
    let t := (addUser s i u io).1
    ((io = .failed ∧ t = s) ∨
      (io ≠ .failed ∧ (∃ stamp, t.file = some ⟨s.users ++ [u], stamp⟩) ∧ t.calls = s.calls ∧
        ∀ k, t.stores k = s.stores k ∨ Holds (s.users ++ [u]) (t.stores k))) ∧
      ∀ w, (addUser s i u io).2 = .account w → w = u ∧ io ≠ .failed := by
  have hKeys : u.email ∉ (s.stores i).users.keys := by
    rw [hHolds.keys]
    exact hNew
  have hEntries : ((s.stores i).users.set u.email u).entries =
      (s.users ++ [u]).map fun u => (u.email, u) := by
    rw [map_append, ← hHolds]
    exact setEntries_of_not_mem hKeys
  have hAdded : Holds (s.users ++ [u]) ⟨(s.stores i).users.set u.email u, none⟩ := hEntries
  have hValues := hAdded.values
  dsimp only at hValues
  cases io with
  | done stamp =>
    simp only [addUser, save, hValues]
    refine ⟨Or.inr ⟨by simp, ⟨stamp, rfl⟩, rfl, fun k => ?_⟩, fun w hw => ?_⟩
    · rw [State.setStore_stores]
      split
      · exact Or.inr hAdded
      · exact Or.inl rfl
    · cases hw
      exact ⟨rfl, by simp⟩
  | failed =>
    exact ⟨Or.inl ⟨rfl, rfl⟩, fun w hw => by cases hw⟩
  | unsynced stamp =>
    refine ⟨Or.inr ⟨by simp, ⟨stamp, ?_⟩, rfl, fun _ => Or.inl rfl⟩, fun w hw => by cases hw⟩
    simp only [addUser, save, hValues]

/-! ## What every step keeps -/

/-- What holds of the accounts, the stores and the suspended calls in every run. -/
structure Kept (env : Env) (s : State) : Prop where
  emails : (s.users.map User.email).Nodup
  googles : (s.users.filterMap User.google).Nodup
  apart : ∀ u ∈ s.users, u.google.isSome = true → u.salt = [] ∧ u.hash = []
  cached : ∀ i, Cached s.users (s.stores i)
  creating : ∀ c i email name salt hash, s.calls c = some (.create i email name salt hash) →
    validEmail email = true ∧ env.normalise email = email ∧ salt.length = 32 ∧
      salt.all Text.isHexDigit = true
  verifying : ∀ c i emailRaw u hash, s.calls c = some (.verify i emailRaw (some u) hash) →
    u.email = env.normalise emailRaw ∧ u ∈ s.users

theorem Kept.frame (h : Kept env s) (hFrame : Frame s t) : Kept env t := by
  have hUsers := hFrame.users
  have hCalls : ∀ c call, t.calls c = some call → s.calls c = some call := by
    intro c call hc
    rcases hFrame.calls c with hEq | hEq
    · rwa [hEq] at hc
    · rw [hEq] at hc
      cases hc
  refine ⟨hUsers ▸ h.emails, hUsers ▸ h.googles, hUsers ▸ h.apart, fun i => ?_, ?_, ?_⟩
  · rw [hUsers]
    exact hFrame.stores i (h.cached i)
  · exact fun c i email name salt hash hc => h.creating c i email name salt hash (hCalls c _ hc)
  · intro c i emailRaw u hash hc
    rw [hUsers]
    exact h.verifying c i emailRaw u hash (hCalls c _ hc)

/-- A new account under a new address and a new subject, with a password or a subject. -/
theorem Kept.addUser (h : Kept env s) (hHolds : Holds s.users (s.stores i))
    (hNew : u.email ∉ s.users.map User.email)
    (hSubject : ∀ w ∈ s.users, ∀ g, u.google = some g → w.google ≠ some g)
    (hApart : u.google.isSome = true → u.salt = [] ∧ u.hash = []) (io : Write) :
    Kept env (addUser s i u io).1 := by
  rcases (addUser_spec hHolds hNew io).1 with ⟨-, hEq⟩ | ⟨-, ⟨stamp, hFile⟩, hCalls, hStores⟩
  · rw [hEq]
    exact h
  have hUsers : (TMEdge.Auth.addUser s i u io).1.users = s.users ++ [u] := by
    rw [State.users, hFile]
    rfl
  have hSub : s.users ⊆ s.users ++ [u] := subset_append_left _ _
  refine ⟨?_, ?_, ?_, fun k => ?_, ?_, ?_⟩
  · rw [hUsers, map_append, map_singleton, ← concat_eq_append]
    exact List.Nodup.concat hNew h.emails
  · rw [hUsers, filterMap_append]
    cases hg : u.google with
    | none => simpa [hg] using h.googles
    | some g =>
      rw [filterMap_cons_some hg, filterMap_nil, ← concat_eq_append]
      refine List.Nodup.concat (fun hMem => ?_) h.googles
      obtain ⟨w, hw, hEq⟩ := mem_filterMap.mp hMem
      exact hSubject w hw g hg hEq
  · rw [hUsers]
    intro w hw
    rcases mem_append.mp hw with hw | hw
    · exact h.apart w hw
    · rw [mem_singleton] at hw
      rw [hw]
      exact hApart
  · rw [hUsers]
    rcases hStores k with hEq | hHolds'
    · rw [hEq]
      exact (h.cached k).mono hSub
    · exact hHolds'.cached
  · rw [hCalls]
    exact h.creating
  · rw [hCalls, hUsers]
    intro c i' emailRaw w hash hc
    obtain ⟨hEmail, hw⟩ := h.verifying c i' emailRaw w hash hc
    exact ⟨hEmail, hSub hw⟩

/-! ## Steps -/

/-- The accounts of the file that an event may answer with. -/
inductive Answers (env : Env) (s : State) : Event → User → Prop
  | google {i : Nat} {id : Identity} {signupOpen : Bool} {now : Nat} {io : Write} {w : User}
      (hMem : w ∈ s.users) (hGoogle : w.google = some id.sub) :
      Answers env s (.google i id signupOpen now io) w
  | verify {c i : Nat} {emailRaw : Text} {w : User} {hash : Vector UInt8 32}
      (hCall : s.calls c = some (.verify i emailRaw (some w) hash)) (hGoogle : w.google = none) :
      Answers env s (.verifyEnd c) w

/-- The file stays, which it does on a readable file only when there is nothing to add. -/
structure Unchanged (env : Env) (s : State) (e : Event) (r : State × Outcome) : Prop where
  file : r.1.file = s.file
  kept : Kept env r.1
  adds : Readable env s.file → ∀ u, ¬ Adds env s e u
  answers : ∀ w, r.2 = .account w → Answers env s e w

/-- One account is appended to a file the store has read. -/
structure Extended (env : Env) (s : State) (e : Event) (r : State × Outcome) (u : User) :
    Prop where
  readable : Readable env s.file
  adds : Adds env s e u
  file : ∃ stamp, r.1.file = some ⟨s.users ++ [u], stamp⟩
  kept : Kept env r.1
  answers : ∀ w, r.2 = .account w → w = u

variable {s : State}

theorem unchanged_of_frame (h : Kept env s) {r : State × Outcome} (hFrame : Frame s r.1)
    (hAdds : Readable env s.file → ∀ u, ¬ Adds env s e u)
    (hAnswers : ∀ w, r.2 = .account w → Answers env s e w) : Unchanged env s e r :=
  ⟨hFrame.file, h.frame hFrame, hAdds, hAnswers⟩

theorem createCommit_cases (h : Kept env s) (c now : Nat) (io : Write) :
    Unchanged env s (.createCommit c now io) (env.createCommit s c now io) ∨
      ∃ u, Extended env s (.createCommit c now io) (env.createCommit s c now io) u := by
  unfold Env.createCommit
  split
  · rename_i i email name salt hash hCall
    have hEnd := frame_setCall s c
    split
    · rename_i t e hReload
      obtain ⟨hNot, hFrame⟩ := reload_error hReload
      exact Or.inl (unchanged_of_frame h (hEnd.trans hFrame)
        (fun hReadable => absurd hReadable hNot) fun w hw => by cases hw)
    · rename_i t hReload
      obtain ⟨hReadable, hFrame, -, hHolds⟩ := reload_ok hReload
      have hFrame := hEnd.trans hFrame
      have hHolds : Holds t.users (t.stores i) := by
        rw [hFrame.users]
        exact hHolds
      have hHas : (t.stores i).users.has email = true ↔ email ∈ s.users.map User.email := by
        rw [has_iff_mem_keys, hHolds.keys, hFrame.users]
      split
      · rename_i hOld
        refine Or.inl (unchanged_of_frame h hFrame (fun _ u hAdds => ?_) fun w hw => by cases hw)
        cases hAdds with
        | create hCall' hNew =>
          rw [hCall] at hCall'
          cases hCall'
          exact hNew (hHas.mp hOld)
      · rename_i hNew
        rw [hHas] at hNew
        have hNew' : email ∉ t.users.map User.email := by
          rw [hFrame.users]
          exact hNew
        obtain ⟨hCases, hAnswers⟩ := addUser_spec (u := ⟨email, accountName name email, salt,
          Text.toHex hash.toList, now, none⟩) hHolds hNew' io
        have hKept := (h.frame hFrame).addUser (u := ⟨email, accountName name email, salt,
          Text.toHex hash.toList, now, none⟩) hHolds hNew' (by simp) (by simp) io
        rcases hCases with ⟨hIo, hEq⟩ | ⟨hIo, hFile, -⟩
        · refine Or.inl ⟨by rw [hEq, hFrame.file], hKept, fun _ u hAdds => ?_, fun w hw => ?_⟩
          · cases hAdds with
            | create _ _ hIo' => exact hIo' hIo
          · exact absurd hIo (hAnswers w hw).2
        · rw [hFrame.users] at hFile
          exact Or.inr ⟨_, hReadable, .create hCall hNew hIo, hFile, hKept,
            fun w hw => (hAnswers w hw).1⟩
  · rename_i hCall
    refine Or.inl (unchanged_of_frame h (.refl s) (fun _ u hAdds => ?_) fun w hw => by cases hw)
    cases hAdds with
    | create hCall' => exact hCall _ _ _ _ _ hCall'

theorem google_cases (h : Kept env s) (i : Nat) (id : Identity) (signupOpen : Bool) (now : Nat)
    (io : Write) :
    Unchanged env s (.google i id signupOpen now io) (env.google s i id signupOpen now io) ∨
      ∃ u, Extended env s (.google i id signupOpen now io)
        (env.google s i id signupOpen now io) u := by
  unfold Env.google
  split
  · rename_i t e hReload
    obtain ⟨hNot, hFrame⟩ := reload_error hReload
    exact Or.inl (unchanged_of_frame h hFrame
      (fun hReadable => absurd hReadable hNot) fun w hw => by cases hw)
  · rename_i t hReload
    obtain ⟨hReadable, hFrame, -, hHolds⟩ := reload_ok hReload
    rw [hHolds.values]
    split
    · rename_i u hFind
      have hMem := mem_of_find?_eq_some hFind
      have hGoogle : u.google = some id.sub := by simpa using find?_some hFind
      refine Or.inl (unchanged_of_frame h hFrame (fun _ w hAdds => ?_) fun w hw => ?_)
      · cases hAdds with
        | google hNone => exact hNone u hMem hGoogle
      · cases hw
        exact .google hMem hGoogle
    · rename_i hFind
      have hNone : ∀ u ∈ s.users, u.google ≠ some id.sub := by
        simpa using find?_eq_none.mp hFind
      have hHolds : Holds t.users (t.stores i) := by
        rw [hFrame.users]
        exact hHolds
      have hHas : (t.stores i).users.has (env.normalise id.email) = true ↔
          env.normalise id.email ∈ s.users.map User.email := by
        rw [has_iff_mem_keys, hHolds.keys, hFrame.users]
      dsimp only
      split
      · rename_i hBad
        refine Or.inl (unchanged_of_frame h hFrame (fun _ u hAdds => ?_) fun w hw => by cases hw)
        cases hAdds with
        | google _ hEmail hSub hLength =>
          simp only [hEmail, Bool.not_true, Bool.false_or, Bool.or_eq_true,
            List.isEmpty_iff, decide_eq_true_eq] at hBad
          exact hBad.elim hSub (not_lt.mpr hLength)
      rename_i hGood
      simp only [Bool.or_eq_true, Bool.not_eq_true', List.isEmpty_iff, decide_eq_true_eq, not_or,
        Bool.not_eq_false, not_lt] at hGood
      obtain ⟨⟨hEmail, hSub⟩, hLength⟩ := hGood
      split
      · rename_i hOld
        refine Or.inl (unchanged_of_frame h hFrame (fun _ u hAdds => ?_) fun w hw => by cases hw)
        cases hAdds with
        | google _ _ _ _ hNew => exact hNew (hHas.mp hOld)
      rename_i hNew
      rw [hHas] at hNew
      cases signupOpen with
      | false =>
        refine Or.inl (unchanged_of_frame h hFrame (fun _ u hAdds => ?_) fun w hw => by cases hw)
        cases hAdds
      | true =>
        have hNew' : env.normalise id.email ∉ t.users.map User.email := by
          rw [hFrame.users]
          exact hNew
        have hSubject : ∀ w ∈ t.users, ∀ g, some id.sub = some g → w.google ≠ some g := by
          rw [hFrame.users]
          intro w hw g hg
          cases hg
          exact hNone w hw
        obtain ⟨hCases, hAnswers⟩ := addUser_spec (u := ⟨env.normalise id.email,
          accountName id.name (env.normalise id.email), [], [], now, some id.sub⟩)
          hHolds hNew' io
        have hKept := (h.frame hFrame).addUser (u := ⟨env.normalise id.email,
          accountName id.name (env.normalise id.email), [], [], now, some id.sub⟩)
          hHolds hNew' hSubject (fun _ => ⟨rfl, rfl⟩) io
        simp only [Bool.not_true, Bool.false_eq_true, if_false]
        rcases hCases with ⟨hIo, hEq⟩ | ⟨hIo, hFile, -⟩
        · refine Or.inl ⟨by rw [hEq, hFrame.file], hKept, fun _ u hAdds => ?_, fun w hw => ?_⟩
          · cases hAdds with
            | google _ _ _ _ _ hIo' => exact hIo' hIo
          · exact absurd hIo (hAnswers w hw).2
        · rw [hFrame.users] at hFile
          exact Or.inr ⟨_, hReadable, .google hNone hEmail hSub hLength hNew hIo, hFile, hKept,
            fun w hw => (hAnswers w hw).1⟩

/-- A call whose password is hashed next. -/
theorem kept_setCall (h : Kept env s) (c : Nat) {call : Call}
    (hCreate : ∀ i email name salt hash, call = .create i email name salt hash →
      validEmail email = true ∧ env.normalise email = email ∧ salt.length = 32 ∧
        salt.all Text.isHexDigit = true)
    (hVerify : ∀ i emailRaw u hash, call = .verify i emailRaw (some u) hash →
      u.email = env.normalise emailRaw ∧ u ∈ s.users) :
    Kept env (s.setCall c (some call)) := by
  refine ⟨h.emails, h.googles, h.apart, h.cached, ?_, ?_⟩
  · intro d i email name salt hash hc
    rw [State.setCall_calls] at hc
    split at hc
    · exact hCreate i email name salt hash (some.inj hc)
    · exact h.creating d i email name salt hash hc
  · intro d i emailRaw u hash hc
    rw [State.setCall_calls] at hc
    split at hc
    · exact hVerify i emailRaw u hash (some.inj hc)
    · exact h.verifying d i emailRaw u hash hc

theorem validEmail_split {email : Text} (h : validEmail email = true) :
    ∃ a d, email.splitOn atSign = [a, d] ∧ a ≠ [] ∧ ∀ c ∈ email, Text.isSpace c = false := by
  rw [validEmail, Bool.and_eq_true] at h
  have hPattern := h.2
  unfold emailPattern at hPattern
  split at hPattern
  · rename_i a d hSplit
    simp only [Bool.and_eq_true, Bool.not_eq_true', isEmpty_eq_false_iff] at hPattern
    obtain ⟨⟨hLocal, -⟩, hSpace⟩ := hPattern
    exact ⟨a, d, hSplit, hLocal, by simpa using hSpace⟩
  · cases hPattern

/-- An address that was normalised once and is valid is normalised. -/
theorem normalise_normalise {raw : Text} (h : validEmail (env.normalise raw) = true) :
    env.normalise (env.normalise raw) = env.normalise raw := by
  obtain ⟨_, _, _, _, hSpace⟩ := validEmail_split h
  calc env.normalise (env.normalise raw)
      = env.unicode.toLowerCase (env.normalise raw) := by
        rw [Env.normalise, Text.trim_eq_self hSpace]
    _ = env.normalise raw := env.unicode.toLowerCase_idem _

theorem nameFits_iff {name email : Text} (h : validEmail email = true) :
    (accountName name email).length ≤ 60 ↔ NameFits name email := by
  obtain ⟨a, d, hSplit, hLocal, -⟩ := validEmail_split h
  have hPart : emailPart email 0 = some a := by
    rw [emailPart, hSplit]
    rfl
  have hTake : ((Text.trim name).take 60).length ≤ 60 := by
    rw [length_take]
    exact Nat.min_le_left _ _
  have hEmpty : (Text.trim name).take 60 = [] ↔ Text.trim name = [] := by
    simp [take_eq_nil_iff]
  rw [accountName, NameFits, hPart]
  by_cases hName : Text.trim name = []
  · simp [orText, hName, hLocal]
  · have hTaken := mt hEmpty.mp hName
    have hOr : orText (orText ((Text.trim name).take 60) a) email = (Text.trim name).take 60 := by
      simp [orText, hName]
    simp only [getD_some, hOr, hTake, true_iff]
    exact Or.inl hName

/-! ## Every step -/

theorem createBegin_kept (h : Kept env s) (i c : Nat) (emailRaw name password : Text)
    (salt : Vector UInt8 16) :
    let r := env.createBegin s i c emailRaw name password salt
    r.1.file = s.file ∧ Kept env r.1 ∧ ∀ w, r.2 ≠ .account w := by
  unfold Env.createBegin
  dsimp only
  split
  · exact ⟨rfl, h, by simp⟩
  rename_i hEmail
  rw [Bool.not_eq_true', Bool.not_eq_false] at hEmail
  split
  · exact ⟨rfl, h, by simp⟩
  split
  · exact ⟨rfl, h, by simp⟩
  split
  · exact ⟨rfl, h, by simp⟩
  split
  · exact ⟨rfl, h, by simp⟩
  rename_i store hRefresh
  have hStore := h.frame (frame_refresh hRefresh)
  split
  · exact ⟨rfl, hStore, by simp⟩
  · refine ⟨rfl, kept_setCall hStore c (fun i' email' name' salt' hash' hEq => ?_)
      (fun _ _ _ _ hEq => by cases hEq), by simp⟩
    cases hEq
    refine ⟨hEmail, normalise_normalise hEmail, ?_, ?_⟩
    · rw [Text.length_toHex]
      simp
    · rw [List.all_eq_true]
      exact fun d hd => Text.isHexDigit_of_mem_toHex hd

theorem verifyBegin_kept (h : Kept env s) (i c : Nat) (emailRaw password : Text)
    (salt : Vector UInt8 16) :
    let r := env.verifyBegin s i c emailRaw password salt
    r.1.file = s.file ∧ Kept env r.1 ∧ ∀ w, r.2 ≠ .account w := by
  unfold Env.verifyBegin
  dsimp only
  split
  · exact ⟨rfl, h, by simp⟩
  split
  · exact ⟨rfl, h, by simp⟩
  rename_i store hRefresh
  have hStore := h.frame (frame_refresh hRefresh)
  refine ⟨rfl, kept_setCall hStore c (fun _ _ _ _ _ hEq => by cases hEq)
    (fun i' emailRaw' u hash' hEq => ?_), by simp⟩
  simp only [Call.verify.injEq] at hEq
  obtain ⟨rfl, rfl, hUser, -⟩ := hEq
  have hCached := hStore.cached i
  rw [State.setStore_stores, if_pos rfl] at hCached
  exact hCached _ u hUser

theorem verifyEnd_cases (h : Kept env s) (c : Nat) :
    Unchanged env s (.verifyEnd c) (env.verifyEnd s c) := by
  have hAdds : Readable env s.file → ∀ u, ¬ Adds env s (.verifyEnd c) u := by
    intro _ u hAdds
    cases hAdds
  unfold Env.verifyEnd
  split
  · rename_i i emailRaw user hash hCall
    have hEnd := frame_setCall s c
    dsimp only
    split
    · exact unchanged_of_frame h hEnd hAdds fun w hw => by cases hw
    rename_i store hRefresh
    have hFrame := hEnd.trans (frame_refresh hRefresh)
    cases user with
    | none => exact unchanged_of_frame h hFrame hAdds fun w hw => by cases hw
    | some u =>
      dsimp only
      split
      · exact unchanged_of_frame h hFrame hAdds fun w hw => by cases hw
      rename_i hOk
      split
      · refine unchanged_of_frame h hFrame hAdds fun w hw => ?_
        cases hw
        refine .verify hCall ?_
        simp only [Bool.or_eq_true, not_or, isSome_iff_ne_none, not_not] at hOk
        exact hOk.1.1
      · exact unchanged_of_frame h hFrame hAdds fun w hw => by cases hw
  · exact unchanged_of_frame h (.refl s) hAdds fun w hw => by cases hw

/-- What every event does. -/
theorem step_cases (h : Kept env s) (e : Event) :
    Unchanged env s e (env.step s e) ∨ ∃ u, Extended env s e (env.step s e) u := by
  cases e with
  | refresh i =>
    have hAdds : Readable env s.file → ∀ u, ¬ Adds env s (.refresh i) u := by
      intro _ u hAdds
      cases hAdds
    simp only [Env.step]
    split
    · exact Or.inl (unchanged_of_frame h (.refl s) hAdds fun w hw => by cases hw)
    · rename_i hRefresh
      exact Or.inl (unchanged_of_frame h (frame_refresh hRefresh) hAdds fun w hw => by cases hw)
  | createBegin i c emailRaw name password salt =>
    obtain ⟨hFile, hKept, hNot⟩ := createBegin_kept h i c emailRaw name password salt
    exact Or.inl ⟨hFile, hKept, fun _ u hAdds => (by cases hAdds),
      fun w hw => absurd hw (hNot w)⟩
  | createCommit c now io => exact createCommit_cases h c now io
  | google i id signupOpen now io => exact google_cases h i id signupOpen now io
  | verifyBegin i c emailRaw password salt =>
    obtain ⟨hFile, hKept, hNot⟩ := verifyBegin_kept h i c emailRaw password salt
    exact Or.inl ⟨hFile, hKept, fun _ u hAdds => (by cases hAdds),
      fun w hw => absurd hw (hNot w)⟩
  | verifyEnd c => exact Or.inl (verifyEnd_cases h c)
  | abandon c =>
    exact Or.inl (unchanged_of_frame h (frame_setCall s c) (fun _ u hAdds => by cases hAdds)
      fun w hw => by cases hw)

/-! ## New accounts and the loader -/

theorem adds_unique {u' : User} (h : Adds env s e u) (h' : Adds env s e u') : u = u' := by
  cases h with
  | create hCall =>
    cases h' with
    | create hCall' =>
      rw [hCall] at hCall'
      cases hCall'
      rfl
  | google =>
    cases h' with
    | google => rfl

/-- A new account passes `validUser` but perhaps for its name. -/
theorem adds_valid (h : Kept env s) (hAdds : Adds env s e u) :
    env.validUser u = true ↔ u.name.length ≤ 60 := by
  cases hAdds with
  | @create c now io i email name salt hash hCall =>
    obtain ⟨hEmail, hNormal, hSalt, hDigits⟩ := h.creating c i email name salt hash hCall
    have hHash : (Text.toHex hash.toList).length = 64 := by
      rw [Text.length_toHex]
      simp
    have hHashDigits : (Text.toHex hash.toList).all Text.isHexDigit = true := by
      rw [List.all_eq_true]
      exact fun d hd => Text.isHexDigit_of_mem_toHex hd
    simp [Env.validUser, hEmail, hNormal, hSalt, hDigits, hHash, hHashDigits]
  | @google i id now io hNone hEmail hSub hLength =>
    have hNormal := normalise_normalise hEmail
    have hPositive : 0 < id.sub.length := length_pos_iff.mpr hSub
    simp [Env.validUser, hEmail, hNormal, hPositive, hLength]

/-- The call stores no account, or one whose name fits: the name given is not blank, or the
part of the address that stands in for it has at most 60 characters. -/
def Env.Named (env : Env) (s : State) : Event → Prop
  | .createCommit c _ io =>
    ∀ i email name salt hash, s.calls c = some (.create i email name salt hash) →
      email ∉ s.users.map User.email → io ≠ .failed → NameFits name email
  | .google _ id signupOpen _ io =>
    (∀ u ∈ s.users, u.google ≠ some id.sub) → validEmail (env.normalise id.email) = true →
      id.sub ≠ [] → id.sub.length ≤ 255 → env.normalise id.email ∉ s.users.map User.email →
        signupOpen = true → io ≠ .failed → NameFits id.name (env.normalise id.email)
  | _ => True

theorem named_iff (h : Kept env s) : env.Named s e ↔ ∀ u, Adds env s e u → u.name.length ≤ 60 := by
  constructor
  · intro hNamed u hAdds
    cases hAdds with
    | @create c now io i email name salt hash hCall hNew hIo =>
      obtain ⟨hEmail, -⟩ := h.creating c i email name salt hash hCall
      exact (nameFits_iff hEmail).mpr (hNamed i email name salt hash hCall hNew hIo)
    | google hNone hEmail hSub hLength hNew hIo =>
      exact (nameFits_iff hEmail).mpr (hNamed hNone hEmail hSub hLength hNew rfl hIo)
  · intro hAll
    cases e with
    | createCommit c now io =>
      intro i email name salt hash hCall hNew hIo
      obtain ⟨hEmail, -⟩ := h.creating c i email name salt hash hCall
      exact (nameFits_iff hEmail).mp (hAll _ (.create hCall hNew hIo))
    | google i id signupOpen now io =>
      intro hNone hEmail hSub hLength hNew hOpen hIo
      subst hOpen
      exact (nameFits_iff hEmail).mp (hAll _ (.google hNone hEmail hSub hLength hNew hIo))
    | _ => trivial

/-- The file is at most as large as a store reads. -/
def Env.Fits (env : Env) (s : State) : Prop := ∀ f ∈ s.file, env.fileBytes f.users ≤ 2000000

theorem users_of_file {stamp : Stamp} (h : t.file = some ⟨list, stamp⟩) : t.users = list := by
  rw [State.users, h]
  rfl

/-- A step keeps the file readable exactly when the account it may store has a name that
fits. -/
theorem step_readable (h : Kept env s) (hReadable : Readable env s.file) (e : Event)
    (hFits : env.Fits (env.step s e).1) : Readable env (env.step s e).1.file ↔ env.Named s e := by
  rw [named_iff h]
  rcases step_cases h e with hSame | ⟨u, hExtended⟩
  · rw [hSame.file]
    exact ⟨fun _ u hAdds => absurd hAdds (hSame.adds hReadable u), fun _ => hReadable⟩
  obtain ⟨stamp, hFile⟩ := hExtended.file
  have hUsers := users_of_file hFile
  constructor
  · intro hNext w hAdds
    rw [adds_unique hAdds hExtended.adds, ← adds_valid h hExtended.adds]
    exact (hNext _ hFile).2.valid u (by simp)
  · intro hAll f hf
    refine ⟨hFits f hf, ?_⟩
    rw [hFile, mem_some_iff] at hf
    subst hf
    have hKept := hExtended.kept
    have hValid := (adds_valid h hExtended.adds).mpr (hAll u hExtended.adds)
    refine ⟨fun w hw => ?_, hUsers ▸ hKept.emails, by simp, hUsers ▸ hKept.googles, by simp⟩
    rcases mem_append.mp hw with hw | hw
    · cases hOld : s.file with
      | none =>
        rw [State.users, hOld] at hw
        cases hw
      | some f =>
        rw [State.users, hOld] at hw
        exact (hReadable f hOld).2.valid w hw
    · rw [mem_singleton] at hw
      rw [hw]
      exact hValid

/-! ## Runs -/

theorem kept_step (h : Kept env s) (e : Event) : Kept env (env.step s e).1 := by
  rcases step_cases h e with hSame | ⟨_, hExtended⟩
  · exact hSame.kept
  · exact hExtended.kept

theorem kept_after (h : Kept env s) (es : List Event) : Kept env (env.after s es) :=
  run_invariant (Kept env) (fun _ e hs => kept_step hs e) h es

theorem after_concat (s : State) (es : List Event) (e : Event) :
    env.after s (es ++ [e]) = (env.step (env.after s es) e).1 := run_concat _ _ _ _

theorem users_step (h : Kept env s) (e : Event) : s.users <+: (env.step s e).1.users := by
  rcases step_cases h e with hSame | ⟨u, hExtended⟩
  · rw [State.users, State.users, hSame.file]
  · obtain ⟨stamp, hFile⟩ := hExtended.file
    rw [users_of_file hFile]
    exact prefix_append _ _

theorem users_after (h : Kept env s) {pre post : List Event} (hPrefix : pre <+: post) :
    (env.after s pre).users <+: (env.after s post).users := by
  obtain ⟨es, rfl⟩ := hPrefix
  induction es using List.reverseRecOn with
  | nil => rw [append_nil]
  | append_singleton es e ih =>
    rw [← append_assoc, after_concat]
    exact ih.trans (users_step (kept_after h _) e)

/-- A run whose file is readable at the start and never outgrows the limit keeps it readable
exactly when every step is `Named`. -/
theorem after_readable (h : Kept env s) (hReadable : Readable env s.file) (es : List Event)
    (hFits : ∀ pre, pre <+: es → env.Fits (env.after s pre)) :
    (∀ pre, pre <+: es → Loadable env (env.after s pre)) ↔
      Guarded (fun s e => (env.step s e).1) env.Named s es := by
  induction es generalizing s with
  | nil =>
    refine ⟨fun _ => trivial, fun _ pre hPre => ?_⟩
    rw [prefix_nil] at hPre
    subst hPre
    exact loadable_iff.mpr hReadable
  | cons e es ih =>
    have hStep := step_readable h hReadable e (hFits [e] (by simp))
    have hTail : ∀ pre, pre <+: es → env.Fits (env.after (env.step s e).1 pre) := fun pre hPre =>
      hFits (e :: pre) (by simpa using hPre)
    constructor
    · intro hAll
      have hNext := loadable_iff.mp (hAll [e] (by simp))
      refine ⟨hStep.mp hNext, (ih (kept_step h e) hNext hTail).mp fun pre hPre => ?_⟩
      exact hAll (e :: pre) (by simpa using hPre)
    · rintro ⟨hNamed, hRest⟩ pre hPre
      cases pre with
      | nil => exact loadable_iff.mpr hReadable
      | cons e' pre =>
        obtain ⟨rfl, hRestPre⟩ := cons_prefix_cons.mp hPre
        exact (ih (kept_step h e') (hStep.mpr hNamed) hTail).mpr hRest pre hRestPre

/-- A file the stores have written: what has a subject has no password. -/
def Written (file : Option File) : Prop :=
  ∀ f ∈ file, ∀ u ∈ f.users, u.google.isSome = true → u.salt = [] ∧ u.hash = []

theorem kept_start (hReadable : Readable env file) (hWritten : Written file) :
    Kept env (start file) := by
  have hUsers : ∀ u ∈ (start file).users, ∃ f ∈ file, u ∈ f.users := by
    intro u hu
    cases file with
    | none => cases hu
    | some f => exact ⟨f, rfl, hu⟩
  refine ⟨?_, ?_, fun u hu => ?_, fun i e u hu => ?_, fun c i email name salt hash hc => ?_,
    fun c i emailRaw u hash hc => ?_⟩
  · cases file with
    | none => exact nodup_nil
    | some f => exact (hReadable f rfl).2.emails
  · cases file with
    | none => exact nodup_nil
    | some f => exact (hReadable f rfl).2.googles
  · obtain ⟨f, hf, hu⟩ := hUsers u hu
    exact hWritten f hf u hu
  · cases hu
  · cases hc
  · cases hc

/-- Two accounts of one subject are one account. -/
theorem eq_of_google (h : (list.filterMap User.google).Nodup) {w : User} {g : Text}
    (hu : u ∈ list) (hw : w ∈ list) (hug : u.google = some g) (hwg : w.google = some g) :
    u = w := by
  induction list with
  | nil => cases hu
  | cons v list ih =>
    have hRest : (list.filterMap User.google).Nodup :=
      h.sublist (List.Sublist.filterMap _ (sublist_cons_self _ _))
    have hHead : ∀ x ∈ list, v.google = some g → x.google ≠ some g := by
      intro x hx hv hxg
      rw [filterMap_cons_some hv, nodup_cons] at h
      exact h.1 (mem_filterMap.mpr ⟨x, hx, hxg⟩)
    rcases mem_cons.mp hu with rfl | hu'
    · rcases mem_cons.mp hw with rfl | hw'
      · rfl
      · exact absurd hwg (hHead w hw' hug)
    · rcases mem_cons.mp hw with rfl | hw'
      · exact absurd hug (hHead u hu' hwg)
      · exact ih hRest hu' hw'

/-- What `google` answers is the account of the subject, which no other call than `google`
for that subject has stored, and which has no password. -/
theorem google_answer (h : Kept env s) {id : Identity} {signupOpen : Bool} {now : Nat}
    {io : Write} (hAnswer : (env.step s (.google i id signupOpen now io)).2 = .account u) :
    u.google = some id.sub ∧ u ∈ (env.step s (.google i id signupOpen now io)).1.users := by
  rcases step_cases h (.google i id signupOpen now io) with hSame | ⟨w, hExtended⟩
  · cases hSame.answers u hAnswer with
    | google hMem hGoogle =>
      refine ⟨hGoogle, ?_⟩
      rw [State.users, hSame.file]
      exact hMem
  · obtain ⟨stamp, hFile⟩ := hExtended.file
    rw [hExtended.answers u hAnswer, users_of_file hFile]
    cases hExtended.adds with
    | google => exact ⟨rfl, by simp⟩

theorem verify_answer (h : Kept env s) {c : Nat}
    (hAnswer : (env.step s (.verifyEnd c)).2 = .account u) :
    u.google = none ∧ u ∈ s.users ∧ ∃ i emailRaw hash,
      s.calls c = some (.verify i emailRaw (some u) hash) ∧ u.email = env.normalise emailRaw := by
  rcases step_cases h (.verifyEnd c) with hSame | ⟨w, hExtended⟩
  · cases hSame.answers u hAnswer with
    | verify hCall hGoogle =>
      obtain ⟨hEmail, hMem⟩ := h.verifying _ _ _ _ _ hCall
      exact ⟨hGoogle, hMem, _, _, _, hCall, hEmail⟩
  · cases hExtended.adds

/-- Who stores an account with which subject. -/
theorem step_origin (h : Kept env s) (e : Event) (hNew : u ∈ (env.step s e).1.users)
    (hOld : u ∉ s.users) :
    (u.google = none ∧ ∃ c now io, e = .createCommit c now io) ∨
      ∃ i id signupOpen now io, e = .google i id signupOpen now io ∧ u.google = some id.sub := by
  rcases step_cases h e with hSame | ⟨w, hExtended⟩
  · rw [State.users, hSame.file] at hNew
    exact absurd hNew hOld
  · obtain ⟨stamp, hFile⟩ := hExtended.file
    rw [users_of_file hFile, mem_append, mem_singleton] at hNew
    obtain rfl := hNew.resolve_left hOld
    cases hExtended.adds with
    | create => exact Or.inl ⟨rfl, _, _, _, rfl⟩
    | google => exact Or.inr ⟨_, _, _, _, _, rfl, rfl⟩

/-- Any calls by any number of stores on one file the stores have written and that stays
below 2 MB. The file is accepted at every moment exactly when every account is stored under
a name that fits. In every run, addresses and subjects are unique, no account is changed or
dropped, `google` answers with the first account of its subject, never with one that
`create` has stored, and `verify` with no account that `google` has stored. -/
theorem account_file (env : Env) (file : Option File) (hReadable : Readable env file)
    (hWritten : Written file) (es : List Event)
    (hFits : ∀ pre, pre <+: es → env.Fits (env.after (start file) pre)) :
    ((∀ pre, pre <+: es → Loadable env (env.after (start file) pre)) ↔
        Guarded (fun s e => (env.step s e).1) env.Named (start file) es) ∧
      (∀ pre, pre <+: es →
        ((env.after (start file) pre).users.map User.email).Nodup ∧
          ((env.after (start file) pre).users.filterMap User.google).Nodup) ∧
      (∀ pre post, pre <+: post → post <+: es →
        (env.after (start file) pre).users <+: (env.after (start file) post).users) ∧
      (∀ pre e u, pre ++ [e] <+: es → u ∈ (env.after (start file) (pre ++ [e])).users →
        u ∉ (env.after (start file) pre).users →
          (u.google = none ∧ ∃ c now io, e = .createCommit c now io) ∨
            ∃ i id signupOpen now io,
              e = .google i id signupOpen now io ∧ u.google = some id.sub) ∧
      (∀ pre i id signupOpen now io u, pre ++ [.google i id signupOpen now io] <+: es →
        (env.step (env.after (start file) pre) (.google i id signupOpen now io)).2 =
          .account u →
            u.google = some id.sub ∧ u.hash = [] ∧
              ∀ old, old <+: pre → ∀ w ∈ (env.after (start file) old).users,
                w.google = some id.sub → w = u) ∧
      ∀ pre c u, pre ++ [.verifyEnd c] <+: es →
        (env.step (env.after (start file) pre) (.verifyEnd c)).2 = .account u →
          u.google = none ∧ u ∈ (env.after (start file) pre).users ∧ ∃ i emailRaw hash,
            (env.after (start file) pre).calls c = some (.verify i emailRaw (some u) hash) ∧
              u.email = env.normalise emailRaw := by
  have hStart := kept_start hReadable hWritten
  have hKept : ∀ pre, Kept env (env.after (start file) pre) := fun pre => kept_after hStart pre
  refine ⟨after_readable hStart hReadable es hFits,
    fun pre _ => ⟨(hKept pre).emails, (hKept pre).googles⟩,
    fun pre post hPrefix _ => users_after hStart hPrefix, ?_, ?_, ?_⟩
  · intro pre e u _ hNew hOld
    rw [after_concat] at hNew
    exact step_origin (hKept pre) e hNew hOld
  · intro pre i id signupOpen now io u _ hAnswer
    obtain ⟨hGoogle, hMem⟩ := google_answer (hKept pre) hAnswer
    have hNext := kept_step (hKept pre) (.google i id signupOpen now io)
    have hNone := hNext.apart u hMem (by rw [hGoogle]; rfl)
    refine ⟨hGoogle, hNone.2, fun old hOld w hw hwg => ?_⟩
    have hLater := (users_after hStart hOld).trans
      (users_step (hKept pre) (.google i id signupOpen now io))
    exact eq_of_google hNext.googles (hLater.subset hw) hMem hwg hGoogle
  · exact fun pre c u _ hAnswer => verify_answer (hKept pre) hAnswer

/-- The JSON text of an account without characters that have to be escaped. -/
def jsonBytes (u : User) : Nat :=
  55 + u.email.length + u.name.length + u.salt.length + u.hash.length +
    (Nat.toDigits 10 u.createdAt).length + (u.google.map fun g => 12 + g.length).getD 0

def pilot : Env where
  unicode := ascii
  scrypt _ _ := Vector.replicate 32 0
  fileBytes users := 1 + (users.map fun u => jsonBytes u + 1).sum
  allowedDomains := [js "connect.hku.hk"]

/-- A sign-up with a blank name and an address of 61 characters before the `@`. -/
def blankName : List Event :=
  [.createBegin 0 0 (List.replicate 61 97 ++ js "@connect.hku.hk") (js "  ") (js "Abcdefg1!")
      (Vector.replicate 16 7),
    .createCommit 0 1700000000000 (.done 1)]

/-- The account is stored, and from then on no store reads the file. -/
theorem local_part_too_long :
    (pilot.after (start none) blankName).users.length = 1 ∧
      pilot.fileBytes (pilot.after (start none) blankName).users ≤ 2000000 ∧
        ¬ Loadable pilot (pilot.after (start none) blankName) := by
  have hUsers : (pilot.after (start none) blankName).users.length = 1 := by decide +kernel
  have hBytes : pilot.fileBytes (pilot.after (start none) blankName).users ≤ 2000000 := by
    decide +kernel
  refine ⟨hUsers, hBytes, fun h => ?_⟩
  have hRefused : (pilot.refresh (pilot.after (start none) blankName).file ⟨.empty, none⟩).isOk =
      false := by decide +kernel
  obtain ⟨store, hStore⟩ := h ⟨.empty, none⟩
  rw [hStore] at hRefused
  cases hRefused

/-- A sign-up, and a sign-in with Google. -/
def twoAccounts : List Event :=
  [.createBegin 0 0 (js "ada@connect.hku.hk") (js "Ada") (js "Abcdefg1!") (Vector.replicate 16 7),
    .createCommit 0 1700000000000 (.done 1),
    .google 1 ⟨js "1081", js "Grace@gmail.com", js ""⟩ true 1700000000001 (.done 2)]

theorem account_file_two :
    (∀ pre, pre <+: twoAccounts → Loadable pilot (pilot.after (start none) pre)) ↔
      Guarded (fun s e => (pilot.step s e).1) pilot.Named (start none) twoAccounts :=
  (account_file pilot none (by simp [Readable]) (by simp [Written]) twoAccounts (by
    intro pre hPre f hf
    have hAll : ∀ n ≤ 3, ∀ f ∈ (pilot.after (start none) (twoAccounts.take n)).file,
        pilot.fileBytes f.users ≤ 2000000 := by decide +kernel
    have hLength : pre.length ≤ 3 := hPre.length_le
    rw [List.prefix_iff_eq_take.mp hPre] at hf
    exact hAll _ hLength f hf)).1

end TMEdge.Auth
