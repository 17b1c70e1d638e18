import TMEdge.Workspace.Mailbox

/-!
# Whose mail it is

* `SameMail`: two documents with the same messages of a person since their account was made.
* `Posted`: ids are those that were given out, each once, and who is hidden from has removed.
* `same_list`, `same_found`: what a person is shown depends on their messages alone.
* `mailbox_private`: runs whose new ids are fresh; a message leaves when all parties have removed
  it, or when it is in the way of the retained number of others.
* `crowded_out`: a message leaves with no more than that number newer.
-/

namespace TMEdge.Workspace

open Library List

/-! ## Definitions -/

/-- The message is one the person sent or received, since the account was made. -/
def concerns (actor : Actor) (m : StoredMessage) : Bool :=
  actor.since ≤ m.sentAt && (m.from_ = actor.name || m.to_.contains actor.name)

def SameMail (actor : Actor) (d d' : MailDocument) : Prop :=
  (d.filter (concerns actor)).Perm (d'.filter (concerns actor))

/-- A new id is twelve characters, and no other. -/
def FreshId (s : MailRun) : MailEvent → Prop
  | .send _ newId _ _ _ _ => isMessageId newId = true ∧ newId ∉ s.ids
  | _ => True

instance (s : MailRun) (e : MailEvent) : Decidable (FreshId s e) := by
  cases e <;> unfold FreshId <;> infer_instance

instance (actor : Actor) (d d' : MailDocument) : Decidable (SameMail actor d d') :=
  inferInstanceAs (Decidable (List.Perm _ _))

/-- The person cannot tell the documents apart. -/
structure Indistinguishable (locale : Locale) (actor : Actor) (d d' : MailDocument) : Prop where
  list : list locale d actor = list locale d' actor
  open_ : ∀ id, open_ d actor id = open_ d' actor id
  mark : ∀ id input, (mark d actor id input).map Prod.fst = (mark d' actor id input).map Prod.fst
  remove : ∀ id, (remove d actor id).map Prod.fst = (remove d' actor id).map Prod.fst
  send : ∀ members newId now input,
    (send locale members newId now d actor input).map Prod.fst =
      (send locale members newId now d' actor input).map Prod.fst

/-- The store keeps the message, as it was sent. -/
def Stays (m : StoredMessage) (d : MailDocument) : Prop :=
  ∃ m' ∈ d, m'.id = m.id ∧ m'.from_ = m.from_ ∧ m'.to_ = m.to_ ∧ m'.subject = m.subject ∧
    m'.body = m.body ∧ m'.sentAt = m.sentAt ∧ m'.replyTo = m.replyTo

/-- Everybody the message belongs to has removed it. -/
def RemovedByAll (m : StoredMessage) (removed : List (Text × Text)) : Prop :=
  ∀ name ∈ m.from_ :: m.to_, (m.id, name) ∈ removed

/-- The store holds the retained number of other messages, none of them older. -/
def CrowdedOut (m : StoredMessage) (d : MailDocument) : Prop :=
  d.length = Limits.messages ∧ ∀ m' ∈ d, m'.id ≠ m.id ∧ m.sentAt ≤ m'.sentAt

structure Posted (s : MailRun) : Prop where
  nodup : (s.document.map StoredMessage.id).Nodup
  known : ∀ m ∈ s.document, m.id ∈ s.ids
  shaped : ∀ id ∈ s.ids, isMessageId id = true
  hidden : ∀ m ∈ s.document, ∀ name ∈ m.hiddenFor, (m.id, name) ∈ s.removed

variable {locale : Locale} {actor : Actor} {d d' : MailDocument} {m m' : StoredMessage} {id : Text}
  {box : Box} {i : Nat} {s : MailRun} {e : MailEvent} {l : MailDocument} {n : Nat}

/-! ## Boxes -/

theorem concerns_of_boxOf (h : boxOf m actor = some box) : concerns actor m = true := by
  unfold boxOf at h
  split at h
  · exact nomatch h
  · rename_i hOwn
    have hSince : actor.since ≤ m.sentAt := not_lt.mp fun hLt => hOwn (.inl hLt)
    split at h
    · rename_i hFrom
      simp [concerns, hSince, hFrom]
    · split at h
      · rename_i hTo
        simp [concerns, hSince, hTo]
      · exact nomatch h

theorem SameMail.symm (h : SameMail actor d d') : SameMail actor d' d := List.Perm.symm h

theorem SameMail.mem (h : SameMail actor d d') (hm : m ∈ d) (hBox : boxOf m actor = some box) :
    m ∈ d' :=
  (mem_filter.mp (h.subset (mem_filter.mpr ⟨hm, concerns_of_boxOf hBox⟩))).1

/-! ## Finding a message -/

theorem findMessage_error {thrown : Thrown} (h : findMessage d actor id = .error thrown) :
    thrown = notInMailbox := by
  unfold findMessage at h
  split at h
  · split at h
    · split at h
      · split at h
        · exact nomatch h
        · exact (Except.error.inj h).symm
      · exact (Except.error.inj h).symm
    · exact (Except.error.inj h).symm
  · exact (Except.error.inj h).symm

theorem findMessage_ok (h : findMessage d actor id = .ok (i, m, box)) :
    isMessageId id = true ∧ d[i]? = some m ∧ m.id = id ∧ boxOf m actor = some box := by
  unfold findMessage at h
  split at h
  · rename_i hId
    split at h
    · rename_i j hj
      split at h
      · rename_i m₀ hm
        split at h
        · rename_i box₀ hBox
          obtain ⟨rfl, rfl, rfl⟩ : j = i ∧ m₀ = m ∧ box₀ = box := by
            simpa using Except.ok.inj h
          obtain ⟨hLt, hFound, -⟩ := findIdx?_eq_some_iff_getElem.mp hj
          obtain ⟨hLt', rfl⟩ := List.getElem?_eq_some_iff.mp hm
          exact ⟨hId, hm, of_decide_eq_true hFound, hBox⟩
        · exact nomatch h
      · exact nomatch h
    · exact nomatch h
  · exact nomatch h

/-- Where ids are given once, a message in a box of the person is the one that is found. -/
theorem findMessage_of_mem (hNodup : (d.map StoredMessage.id).Nodup)
    (hId : isMessageId id = true) (hm : m ∈ d) (hOwn : m.id = id)
    (hBox : boxOf m actor = some box) : ∃ i, findMessage d actor id = .ok (i, m, box) := by
  unfold findMessage
  rw [if_pos hId]
  rcases hj : d.findIdx? (·.id = id) with - | j
  · rw [findIdx?_eq_none_iff] at hj
    exact absurd hOwn (by simpa using hj m hm)
  · obtain ⟨hLt, hFound, -⟩ := findIdx?_eq_some_iff_getElem.mp hj
    have hSame : d[j] = m := inj_on_of_nodup_map hNodup (getElem_mem hLt) hm
      ((of_decide_eq_true hFound).trans hOwn.symm)
    refine ⟨j, ?_⟩
    simp only [hj, getElem?_eq_getElem hLt, hSame, hBox]
    rfl

/-- What is found depends on the person's messages alone. -/
theorem same_found (h : SameMail actor d d') (hNodup : (d.map StoredMessage.id).Nodup)
    (hNodup' : (d'.map StoredMessage.id).Nodup) (id : Text) :
    (findMessage d actor id).map Prod.snd = (findMessage d' actor id).map Prod.snd := by
  rcases hFound : findMessage d actor id with thrown | ⟨i, m, box⟩
  · rcases hFound' : findMessage d' actor id with thrown' | ⟨i, m, box⟩
    · rw [findMessage_error hFound, findMessage_error hFound']
    · obtain ⟨hId, hGet, hOwn, hBox⟩ := findMessage_ok hFound'
      obtain ⟨j, hj⟩ := findMessage_of_mem hNodup hId
        (h.symm.mem (mem_of_getElem? hGet) hBox) hOwn hBox
      rw [hj] at hFound
      exact nomatch hFound
  · obtain ⟨hId, hGet, hOwn, hBox⟩ := findMessage_ok hFound
    obtain ⟨j, hj⟩ := findMessage_of_mem hNodup' hId
      (h.mem (mem_of_getElem? hGet) hBox) hOwn hBox
    rw [hj]
    rfl

/-! ## Listing -/

theorem rowsOf_filter (d : MailDocument) (actor : Actor) :
    rowsOf d actor = rowsOf (d.filter (concerns actor)) actor := by
  unfold rowsOf
  rw [filterMap_filter]
  refine filterMap_congr fun m _ => ?_
  split
  · rfl
  · rename_i hNot
    rcases hBox : boxOf m actor with - | box
    · rfl
    · exact absurd (concerns_of_boxOf hBox) hNot

theorem SameMail.rows (h : SameMail actor d d') : (rowsOf d actor).Perm (rowsOf d' actor) := by
  rw [rowsOf_filter d, rowsOf_filter d']
  exact h.filterMap _

theorem rowsOf_ids (d : MailDocument) (actor : Actor) :
    ((rowsOf d actor).map MessageHeader.id).Sublist (d.map StoredMessage.id) := by
  induction d with
  | nil => exact .slnil
  | cons m d ih =>
    unfold rowsOf at ih ⊢
    rw [filterMap_cons]
    rcases boxOf m actor with - | box
    · exact ih.cons _
    · exact ih.cons_cons _

/-- Rows in the order of a listing are determined by which they are. -/
theorem newest_perm {rows rows' : List MessageHeader} (h : rows.Perm rows')
    (hNodup : (rows.map MessageHeader.id).Nodup)
    (hAscii : ∀ r ∈ rows, ∀ c ∈ r.id, c < 128) : newest locale rows = newest locale rows' := by
  unfold newest
  set le : MessageHeader → MessageHeader → Bool := fun a b =>
    b.sentAt < a.sentAt ∨ a.sentAt = b.sentAt ∧ locale.compare a.id b.id ≤ 0
  have hTrans : ∀ a b c, le a b = true → le b c = true → le a c = true := by
    intro a b c hab hbc
    simp only [le, decide_eq_true_eq] at hab hbc ⊢
    rcases hab with hab | ⟨hab, hab'⟩
    · rcases hbc with hbc | ⟨hbc, -⟩
      · exact .inl (hbc.trans hab)
      · exact .inl (hbc ▸ hab)
    · rcases hbc with hbc | ⟨hbc, hbc'⟩
      · exact .inl (hab ▸ hbc)
      · exact .inr ⟨hab.trans hbc, locale.trans _ _ _ hab' hbc'⟩
  have hTotal : ∀ a b, (le a b || le b a) = true := by
    intro a b
    simp only [le, Bool.or_eq_true, decide_eq_true_eq]
    rcases lt_trichotomy a.sentAt b.sentAt with hLt | hEq | hLt
    · exact .inr (.inl hLt)
    · rcases locale.total a.id b.id with hLe | hLe
      · exact .inl (.inr ⟨hEq, hLe⟩)
      · exact .inr (.inr ⟨hEq.symm, hLe⟩)
    · exact .inl (.inl hLt)
  have hPerm := (mergeSort_perm rows le).trans (h.trans (mergeSort_perm rows' le).symm)
  refine congrArg (List.take Limits.listed) (List.Perm.eq_of_pairwise
    (fun a b ha hb hab hba => ?_) (pairwise_mergeSort hTrans hTotal rows)
    (pairwise_mergeSort hTrans hTotal rows') hPerm)
  rw [mem_mergeSort] at ha hb
  have hb' := h.symm.subset hb
  simp only [le, decide_eq_true_eq] at hab hba
  refine inj_on_of_nodup_map hNodup ha hb' ?_
  rcases hab with hab | ⟨hab, hab'⟩
  · rcases hba with hba | ⟨hba, -⟩
    · exact absurd hab hba.asymm
    · exact absurd hba hab.ne
  · rcases hba with hba | ⟨-, hba'⟩
    · exact absurd hab hba.ne
    · exact locale.antisymm _ _ (hAscii a ha) (hAscii b hb') hab' hba'

theorem same_list (h : SameMail actor d d') (hNodup : (d.map StoredMessage.id).Nodup)
    (hAscii : ∀ m ∈ d, ∀ c ∈ m.id, c < 128) : list locale d actor = list locale d' actor := by
  have hRows := h.rows
  have hNodupRows := hNodup.sublist (rowsOf_ids d actor)
  have hAsciiRows : ∀ r ∈ rowsOf d actor, ∀ c ∈ r.id, c < 128 := by
    intro r hr
    obtain ⟨m, hm, hOwn⟩ := mem_map.mp
      ((rowsOf_ids d actor).subset (mem_map.mpr ⟨r, hr, rfl⟩))
    exact hOwn ▸ hAscii m hm
  have hNewest : ∀ p : MessageHeader → Bool,
      newest locale ((rowsOf d actor).filter p) = newest locale ((rowsOf d' actor).filter p) :=
    fun p => newest_perm (hRows.filter p)
      (hNodupRows.sublist ((filter_sublist).map _))
      fun r hr => hAsciiRows r (mem_filter.mp hr).1
  unfold list
  simp only [hNewest, hRows.countP_eq, (hRows.filter _).length_eq]

/-! ## Results of a call -/

theorem same_open (h : SameMail actor d d') (hNodup : (d.map StoredMessage.id).Nodup)
    (hNodup' : (d'.map StoredMessage.id).Nodup) (id : Text) :
    open_ d actor id = open_ d' actor id := by
  have hOpen : ∀ d, open_ d actor id =
      ((findMessage d actor id).map Prod.snd).map fun x => viewOf x.1 x.2 actor := by
    intro d
    unfold open_
    rcases findMessage d actor id with thrown | ⟨i, m, box⟩
    · rfl
    · rfl
  rw [hOpen, hOpen, same_found h hNodup hNodup']

theorem same_mark (h : SameMail actor d d') (hNodup : (d.map StoredMessage.id).Nodup)
    (hNodup' : (d'.map StoredMessage.id).Nodup) (id : Text) (input : Option Value) :
    (mark d actor id input).map Prod.fst = (mark d' actor id input).map Prod.fst := by
  have hFound := same_found h hNodup hNodup' id
  unfold mark
  rcases fields input [js "read"] with thrown | body
  · rfl
  · simp only [bind, Except.bind]
    split
    · rcases hOne : findMessage d actor id with thrown | ⟨i, m, box⟩
      · rcases hTwo : findMessage d' actor id with thrown' | ⟨j, m', box'⟩
        · rw [findMessage_error hOne, findMessage_error hTwo]
        · rw [hOne, hTwo] at hFound
          exact nomatch hFound
      · rcases hTwo : findMessage d' actor id with thrown' | ⟨j, m', box'⟩
        · rw [hOne, hTwo] at hFound
          exact nomatch hFound
        · rw [hOne, hTwo] at hFound
          obtain ⟨rfl, rfl⟩ := Prod.mk.inj (Except.ok.inj hFound)
          rfl
    · rfl

theorem same_remove (h : SameMail actor d d') (hNodup : (d.map StoredMessage.id).Nodup)
    (hNodup' : (d'.map StoredMessage.id).Nodup) (id : Text) :
    (remove d actor id).map Prod.fst = (remove d' actor id).map Prod.fst := by
  have hRemove : ∀ d, (remove d actor id).map Prod.fst =
      ((findMessage d actor id).map Prod.snd).map fun _ => id := by
    intro d
    unfold remove
    rcases findMessage d actor id with thrown | ⟨i, m, box⟩
    · rfl
    · simp only [bind, Except.bind]
      split
      · rfl
      · rfl
  rw [hRemove, hRemove, same_found h hNodup hNodup']

/-- A reply is accepted where what it answers is in a box of the sender. -/
theorem same_answered (h : SameMail actor d d') (replyTo : Text) :
    (d.any fun m => m.id = replyTo && (boxOf m actor).isSome) =
      d'.any fun m => m.id = replyTo && (boxOf m actor).isSome := by
  have hOne : ∀ {d d' : MailDocument}, SameMail actor d d' →
      (d.any fun m => m.id = replyTo && (boxOf m actor).isSome) = true →
      (d'.any fun m => m.id = replyTo && (boxOf m actor).isSome) = true := by
    intro d d' h hAny
    obtain ⟨m, hm, hOwn⟩ := any_eq_true.mp hAny
    have hBox := (Bool.and_eq_true_iff.mp hOwn).2
    obtain ⟨box, hBox⟩ := Option.isSome_iff_exists.mp hBox
    exact any_eq_true.mpr ⟨m, h.mem hm hBox, hOwn⟩
  exact Bool.eq_iff_iff.mpr ⟨hOne h, hOne h.symm⟩

theorem same_send (h : SameMail actor d d') (members : List Member) (newId : Text) (now : ℚ)
    (input : Option Value) :
    (send locale members newId now d actor input).map Prod.fst =
      (send locale members newId now d' actor input).map Prod.fst := by
  unfold send
  rcases letterOf locale members actor input with thrown | letter
  · rfl
  · simp only [bind, Except.bind, same_answered h]
    split
    · rfl
    · rfl

/-! ## What a call does to the document -/

theorem bounded_subset (h : m ∈ bounded l) : m ∈ l := by
  unfold bounded at h
  split at h
  · exact mem_mergeSort.mp (mem_of_mem_drop h)
  · exact h

theorem bounded_nodup (h : (l.map StoredMessage.id).Nodup) :
    ((bounded l).map StoredMessage.id).Nodup := by
  unfold bounded
  split
  · refine List.Nodup.sublist ((List.drop_sublist _ _).map _) ?_
    exact ((mergeSort_perm l _).map _).nodup_iff.mpr h
  · exact h

/-- What makes room is older than what stays. -/
theorem crowdedOut_of_dropped (hNodup : (l.map StoredMessage.id).Nodup) (hm : m ∈ l)
    (hOut : m ∉ bounded l) : CrowdedOut m (bounded l) := by
  have hIds := bounded_nodup hNodup
  unfold bounded at hOut ⊢
  split at hOut
  · rename_i hMany
    rw [if_pos hMany]
    set sorted := l.mergeSort fun a b => a.sentAt ≤ b.sentAt
    have hSorted : sorted.Pairwise fun a b => a.sentAt ≤ b.sentAt := by
      have hPairwise := @pairwise_mergeSort StoredMessage
        (fun a b => decide (a.sentAt ≤ b.sentAt)) (fun a b c hab hbc => ?_) (fun a b => ?_) l
      · exact hPairwise.imp fun h => of_decide_eq_true h
      · exact decide_eq_true ((of_decide_eq_true hab).trans (of_decide_eq_true hbc))
      · simpa using le_total a.sentAt b.sentAt
    have hLength : sorted.length = l.length := length_mergeSort l
    refine ⟨by rw [length_drop, hLength]; omega, fun m' hm' => ?_⟩
    have hTake : m ∈ sorted.take (l.length - Limits.messages) := by
      have hAll : m ∈ sorted.take (l.length - Limits.messages) ++
          sorted.drop (l.length - Limits.messages) := by
        rw [take_append_drop]
        exact mem_mergeSort.mpr hm
      exact (mem_append.mp hAll).resolve_right hOut
    refine ⟨fun hId => hOut ?_, ?_⟩
    · have hSame : m' = m := inj_on_of_nodup_map hNodup
        (mem_mergeSort.mp (mem_of_mem_drop hm')) hm hId
      exact hSame ▸ hm'
    · rw [← take_append_drop (l.length - Limits.messages) sorted] at hSorted
      exact (pairwise_append.mp hSorted).2.2 m hTake m' hm'
  · exact absurd hm hOut

theorem send_ok {members : List Member} {newId : Text} {now : ℚ} {input : Option Value}
    {view : MessageView} (h : send locale members newId now d actor input = .ok (view, d')) :
    ∃ m, m.id = newId ∧ m.hiddenFor = [] ∧ d' = bounded (d ++ [m]) := by
  unfold send at h
  rcases hLetter : letterOf locale members actor input with thrown | letter
  · rw [hLetter] at h
    exact nomatch h
  · rw [hLetter] at h
    simp only [bind, Except.bind] at h
    split at h
    · exact nomatch h
    · obtain ⟨-, rfl⟩ := Prod.mk.inj (Except.ok.inj h)
      exact ⟨_, rfl, rfl, rfl⟩

theorem mark_ok {input : Option Value} {view : MessageView}
    (h : mark d actor id input = .ok (view, d')) :
    ∃ i m readBy, d[i]? = some m ∧ d' = d.set i { m with readBy } := by
  unfold mark at h
  rcases hFields : fields input [js "read"] with thrown | body
  · rw [hFields] at h
    exact nomatch h
  · rw [hFields] at h
    simp only [bind, Except.bind] at h
    split at h
    · rcases hFound : findMessage d actor id with thrown | ⟨i, m, box⟩
      · rw [hFound] at h
        exact nomatch h
      · rw [hFound] at h
        obtain ⟨-, rfl⟩ := Prod.mk.inj (Except.ok.inj h)
        obtain ⟨-, hGet, -, -⟩ := findMessage_ok hFound
        split
        · exact ⟨i, m, _, hGet, rfl⟩
        · exact ⟨i, m, m.readBy, hGet, rfl⟩
    · exact nomatch h

theorem remove_ok {removed : Text} (h : remove d actor id = .ok (removed, d')) :
    ∃ (i : Nat) (m : StoredMessage), d[i]? = some m ∧ m.id = id ∧
      (d' = d.set i { m with hiddenFor := m.hiddenFor ++ [actor.name] } ∨
        d' = d.eraseIdx i ∧ ∀ name ∈ m.from_ :: m.to_, name ∈ m.hiddenFor ++ [actor.name]) := by
  unfold remove at h
  rcases hFound : findMessage d actor id with thrown | ⟨i, m, box⟩
  · rw [hFound] at h
    cases h
  · rw [hFound] at h
    simp only [bind, Except.bind] at h
    obtain ⟨-, hGet, hOwn, -⟩ := findMessage_ok hFound
    refine ⟨i, m, hGet, hOwn, ?_⟩
    split at h
    · obtain ⟨-, rfl⟩ := Prod.mk.inj (Except.ok.inj h)
      exact .inl rfl
    · rename_i hAll
      obtain ⟨-, rfl⟩ := Prod.mk.inj (Except.ok.inj h)
      refine .inr ⟨rfl, fun name hName => ?_⟩
      by_contra hNot
      exact hAll (any_eq_true.mpr ⟨name, hName, decide_eq_true hNot⟩)

theorem nodup_set (h : (d.map StoredMessage.id).Nodup) (hm : d[i]? = some m) (hId : m'.id = m.id) :
    ((d.set i m').map StoredMessage.id).Nodup := by
  obtain ⟨hLt, rfl⟩ := List.getElem?_eq_some_iff.mp hm
  rw [map_set, hId, ← getElem_map (f := StoredMessage.id) (h := by simpa using hLt),
    set_getElem_self]
  exact h

/-! ## Runs -/

theorem Stays.refl (hm : m ∈ d) : Stays m d := ⟨m, hm, rfl, rfl, rfl, rfl, rfl, rfl, rfl⟩

theorem stays_set {readBy hiddenFor : List Text} {m₀ : StoredMessage} (hm₀ : d[i]? = some m₀)
    (hm : m ∈ d) : Stays m (d.set i { m₀ with readBy, hiddenFor }) := by
  obtain ⟨j, hj⟩ := getElem?_of_mem hm
  by_cases hij : j = i
  · subst hij
    obtain rfl := Option.some.inj (hm₀.symm.trans hj)
    obtain ⟨hLt, -⟩ := List.getElem?_eq_some_iff.mp hj
    exact ⟨_, mem_set hLt _, rfl, rfl, rfl, rfl, rfl, rfl, rfl⟩
  · refine Stays.refl (mem_of_getElem? (i := j) ?_)
    rw [getElem?_set_ne (Ne.symm hij)]
    exact hj

theorem posted_init : Posted {} := ⟨nodup_nil, nofun, nofun, nofun⟩

theorem Posted.write {α : Type} (h : Posted s) {written : Bool}
    {outcome : Outcome (α × MailDocument)} {note : MailRun → MailRun}
    (hOk : ∀ a d, outcome = .ok (a, d) → Posted (note { s with document := d })) :
    Posted (s.write written outcome note) := by
  unfold MailRun.write
  split
  · split
    · exact hOk _ _ rfl
    · exact h
  · exact h

theorem Posted.step (h : Posted s) (hFresh : FreshId s e) : Posted (mailStep locale s e) := by
  cases e with
  | send members newId now actor input written =>
    obtain ⟨hShape, hNew⟩ := hFresh
    have hIds : Posted { s with ids := newId :: s.ids } :=
      ⟨h.nodup, fun m hm => mem_cons_of_mem _ (h.known m hm),
        forall_mem_cons.mpr ⟨hShape, h.shaped⟩, h.hidden⟩
    refine hIds.write fun view d hOk => ?_
    obtain ⟨m₀, hId, hHidden, rfl⟩ := send_ok hOk
    have hSub : ∀ m ∈ bounded (s.document ++ [m₀]), m ∈ s.document ∨ m = m₀ := fun m hm => by
      simpa using bounded_subset hm
    refine ⟨bounded_nodup ?_, fun m hm => ?_, hIds.shaped, fun m hm name hName => ?_⟩
    · rw [map_append, nodup_append]
      refine ⟨h.nodup, nodup_singleton _, fun a ha b hb => ?_⟩
      obtain ⟨m, hm, rfl⟩ := mem_map.mp ha
      rw [mem_singleton.mp hb, hId]
      exact fun hSame => hNew (hSame ▸ h.known m hm)
    · rcases hSub m hm with hm | rfl
      · exact mem_cons_of_mem _ (h.known m hm)
      · exact hId ▸ mem_cons_self
    · rcases hSub m hm with hm | rfl
      · exact h.hidden m hm name hName
      · rw [hHidden] at hName
        exact nomatch hName
  | mark actor id input written =>
    change Posted (s.write written (mark s.document actor id input) fun s => s)
    refine h.write fun view d hOk => ?_
    obtain ⟨i, m₀, readBy, hm₀, rfl⟩ := mark_ok hOk
    have hMem : ∀ m ∈ s.document.set i { m₀ with readBy }, m ∈ s.document ∨
        m = { m₀ with readBy } := fun m hm => mem_or_eq_of_mem_set hm
    refine ⟨nodup_set h.nodup hm₀ rfl, fun m hm => ?_, h.shaped,
      fun m hm name hName => ?_⟩
    · rcases hMem m hm with hm | rfl
      · exact h.known m hm
      · exact h.known m₀ (mem_of_getElem? hm₀)
    · rcases hMem m hm with hm | rfl
      · exact h.hidden m hm name hName
      · exact h.hidden m₀ (mem_of_getElem? hm₀) name hName
  | remove actor id written =>
    change Posted (s.write written (remove s.document actor id) fun s =>
      { s with removed := (id, actor.name) :: s.removed })
    refine h.write fun removed d hOk => ?_
    obtain ⟨i, m₀, hm₀, hOwn, rfl | ⟨rfl, -⟩⟩ := remove_ok hOk
    · have hMem := fun m (hm : m ∈ s.document.set i { m₀ with
          hiddenFor := m₀.hiddenFor ++ [actor.name] }) => mem_or_eq_of_mem_set hm
      refine ⟨nodup_set h.nodup hm₀ rfl, fun m hm => ?_, h.shaped,
        fun m hm name hName => ?_⟩
      · rcases hMem m hm with hm | rfl
        · exact h.known m hm
        · exact h.known m₀ (mem_of_getElem? hm₀)
      · rcases hMem m hm with hm | rfl
        · exact mem_cons_of_mem _ (h.hidden m hm name hName)
        · rcases mem_append.mp hName with hName | hName
          · exact mem_cons_of_mem _ (h.hidden m₀ (mem_of_getElem? hm₀) name hName)
          · rw [mem_singleton.mp hName]
            exact hOwn ▸ mem_cons_self
    · have hSub := eraseIdx_sublist s.document i
      exact ⟨h.nodup.sublist (hSub.map _), fun m hm => h.known m (hSub.subset hm), h.shaped,
        fun m hm name hName => mem_cons_of_mem _ (h.hidden m (hSub.subset hm) name hName)⟩

/-- A message leaves when all it belongs to have removed it, or when it is in the way of the
retained number of others. -/
theorem Posted.leaves (h : Posted s) (hFresh : FreshId s e) (hm : m ∈ s.document) :
    Stays m (mailStep locale s e).document ∨
      RemovedByAll m (mailStep locale s e).removed ∨
      CrowdedOut m (mailStep locale s e).document := by
  cases e with
  | send members newId now actor input written =>
    obtain ⟨-, hNew⟩ := hFresh
    simp only [mailStep, MailRun.write]
    split
    · rename_i view d hOk
      split
      · obtain ⟨m₀, hId, -, rfl⟩ := send_ok hOk
        by_cases hIn : m ∈ bounded (s.document ++ [m₀])
        · exact .inl (.refl hIn)
        · refine .inr (.inr (crowdedOut_of_dropped ?_ (mem_append_left _ hm) hIn))
          rw [map_append, nodup_append]
          refine ⟨h.nodup, nodup_singleton _, fun a ha b hb => ?_⟩
          obtain ⟨m, hm, rfl⟩ := mem_map.mp ha
          rw [mem_singleton.mp hb, hId]
          exact fun hSame => hNew (hSame ▸ h.known m hm)
      · exact .inl (.refl hm)
    · exact .inl (.refl hm)
  | mark actor id input written =>
    simp only [mailStep, MailRun.write]
    split
    · rename_i view d hOk
      split
      · obtain ⟨i, m₀, readBy, hm₀, rfl⟩ := mark_ok hOk
        exact .inl (stays_set hm₀ hm)
      · exact .inl (.refl hm)
    · exact .inl (.refl hm)
  | remove actor id written =>
    simp only [mailStep, MailRun.write]
    split
    · rename_i removed d hOk
      split
      · obtain ⟨i, m₀, hm₀, hOwn, rfl | ⟨rfl, hAll⟩⟩ := remove_ok hOk
        · exact .inl (stays_set hm₀ hm)
        · by_cases hSame : m = m₀
          · subst hSame
            refine .inr (.inl fun name hName => ?_)
            rcases mem_append.mp (hAll name hName) with hHidden | hHidden
            · exact mem_cons_of_mem _ (h.hidden m hm name hHidden)
            · rw [mem_singleton.mp hHidden]
              exact hOwn ▸ mem_cons_self
          · refine .inl (.refl ((mem_eraseIdx_iff_getElem?).mpr ?_))
            obtain ⟨j, hj⟩ := getElem?_of_mem hm
            refine ⟨j, fun hij => hSame ?_, hj⟩
            exact Option.some.inj (hj.symm.trans (hij ▸ hm₀))
      · exact .inl (.refl hm)
    · exact .inl (.refl hm)

/-! ## A pilot -/

theorem posix_iff {a b : Text} :
    (if a ≤ b then if b ≤ a then (0 : Int) else -1 else 1) ≤ 0 ↔ a ≤ b := by
  split
  · rename_i h
    split
    · simp [h]
    · simp [h]
  · rename_i h
    simp [h]

/-- ASCII lower-casing, and the order of the code units. -/
def posix : Locale where
  toLowerCase := List.map asciiLower
  numberText q := js (toString q)
  compare a b := if a ≤ b then if b ≤ a then 0 else -1 else 1
  total a b := by
    rw [posix_iff, posix_iff]
    exact List.le_total a b
  trans a b c := by
    rw [posix_iff, posix_iff, posix_iff]
    exact List.le_trans
  antisymm a b _ _ := by
    rw [posix_iff, posix_iff]
    exact List.le_antisymm

def ada : Actor := { name := js "ada", since := 0, canTriage := true, isAdmin := true }

def greeting (to_ : Text) : Value :=
  .object [(js "to", .array [.string to_]), (js "subject", .string (js "hi")),
    (js "body", .string (js "hello"))]

def idOf (n : Nat) : Text :=
  [n / 1000 % 10, n / 100 % 10, n / 10 % 10, n % 10].map (fun d => UInt16.ofNat (48 + d)) ++
    List.replicate 8 97

def sendAt (n : Nat) : MailEvent :=
  .send [⟨js "bob", 0⟩] (idOf n) n ada (some (greeting (js "bob"))) true

def messageAt (n : Nat) : StoredMessage :=
  { id := idOf n, from_ := js "ada", to_ := [js "bob"], subject := js "hi", body := js "hello"
    sentAt := n, replyTo := none, readBy := [], hiddenFor := [] }

def bob : Actor := { name := js "bob", since := 0, canTriage := false, isAdmin := false }

def carol : Actor := { name := js "carol", since := 0, canTriage := false, isAdmin := false }

/-- A letter that is not Bob's. -/
def elsewhere : MailEvent :=
  .send [⟨js "ada", 0⟩] (idOf 7) 7 carol (some (greeting (js "ada"))) true

/-! ## Results -/

theorem ascii_of_isMessageId (h : isMessageId id = true) : ∀ c ∈ id, c < 128 := by
  intro c hc
  simp only [isMessageId, isDigit, Bool.and_eq_true, all_eq_true, Bool.or_eq_true,
    decide_eq_true_eq] at h
  have hChar := h.2 c hc
  rw [UInt16.lt_iff_toNat_lt]
  simp only [UInt16.le_iff_toNat_le, ← UInt16.toNat_inj] at hChar
  change _ < 128
  have h90 : (90 : UInt16).toNat = 90 := rfl
  have h122 : (122 : UInt16).toNat = 122 := rfl
  have h57 : (57 : UInt16).toNat = 57 := rfl
  have h95 : (95 : UInt16).toNat = 95 := rfl
  have h45 : (45 : UInt16).toNat = 45 := rfl
  omega

/-- What a person is shown and told is the same whatever mail others have, and a message leaves
when all it belongs to have removed it, or when the store holds the retained number of others,
none of them older. -/
theorem mailbox_private (locale : Locale) :
    (∀ actor es es', Guarded (mailStep locale) FreshId {} es →
      Guarded (mailStep locale) FreshId {} es' →
      SameMail actor (run (mailStep locale) {} es).document
        (run (mailStep locale) {} es').document →
      Indistinguishable locale actor (run (mailStep locale) {} es).document
        (run (mailStep locale) {} es').document) ∧
    ∀ es e, Guarded (mailStep locale) FreshId {} (es ++ [e]) →
      ∀ m ∈ (run (mailStep locale) {} es).document,
        Stays m (run (mailStep locale) {} (es ++ [e])).document ∨
        RemovedByAll m (run (mailStep locale) {} (es ++ [e])).removed ∨
        CrowdedOut m (run (mailStep locale) {} (es ++ [e])).document := by
  have hPosted : ∀ es, Guarded (mailStep locale) FreshId {} es →
      Posted (run (mailStep locale) {} es) := fun es hFresh =>
    run_invariant_guarded Posted (fun s e h he => h.step he) posted_init hFresh
  refine ⟨fun actor es es' hFresh hFresh' hSame => ?_, fun es e hFresh m hm => ?_⟩
  · have hOne := hPosted es hFresh
    have hTwo := hPosted es' hFresh'
    exact ⟨same_list hSame hOne.nodup fun m hm =>
        ascii_of_isMessageId (hOne.shaped _ (hOne.known m hm)),
      same_open hSame hOne.nodup hTwo.nodup, same_mark hSame hOne.nodup hTwo.nodup,
      same_remove hSame hOne.nodup hTwo.nodup, same_send hSame⟩
  · obtain ⟨hBefore, hNow, -⟩ := guarded_append.mp hFresh
    rw [run_concat]
    exact (hPosted es hBefore).leaves hNow hm

theorem mailbox_private_bob :
    Indistinguishable posix bob (run (mailStep posix) {} [sendAt 0]).document
      (run (mailStep posix) {} [sendAt 0, elsewhere]).document ∧
    (Stays (messageAt 0) (run (mailStep posix) {} ([sendAt 0] ++ [elsewhere])).document ∨
      RemovedByAll (messageAt 0) (run (mailStep posix) {} ([sendAt 0] ++ [elsewhere])).removed ∨
      CrowdedOut (messageAt 0) (run (mailStep posix) {} ([sendAt 0] ++ [elsewhere])).document) :=
  ⟨(mailbox_private posix).1 bob [sendAt 0] [sendAt 0, elsewhere]
      ⟨by decide +kernel, trivial⟩ ⟨by decide +kernel, by decide +kernel, trivial⟩
      (by decide +kernel),
    (mailbox_private posix).2 [sendAt 0] elsewhere ⟨by decide +kernel, by decide +kernel, trivial⟩
      (messageAt 0) (by decide +kernel)⟩

/-! ## A full mailbox -/

/-- More than the retained number of messages, all newer, are in the store before or after. -/
def Outnumbered (m : StoredMessage) (d d' : MailDocument) : Prop :=
  ∃ l : MailDocument, l.Nodup ∧ Limits.messages < l.length ∧
    ∀ m' ∈ l, (m' ∈ d ∨ m' ∈ d') ∧ m.sentAt < m'.sentAt

theorem idOf_spec : ∀ n < 1001, isMessageId (idOf n) = true ∧ digits ((idOf n).take 4) = n := by
  decide +kernel

theorem idOf_inj {k : Nat} (hn : n < 1001) (hk : k < 1001) (h : idOf n = idOf k) : n = k := by
  rw [← (idOf_spec n hn).2, h, (idOf_spec k hk).2]

theorem letterOf_greeting : letterOf posix [⟨js "bob", 0⟩] ada (some (greeting (js "bob"))) =
    .ok ⟨[js "bob"], js "hi", js "hello", none⟩ := by
  decide +kernel

theorem step_sendAt (s : MailRun) (n : Nat) : mailStep posix s (sendAt n) =
    { s with document := bounded (s.document ++ [messageAt n]), ids := idOf n :: s.ids } := by
  simp only [mailStep, sendAt, send, letterOf_greeting]
  rfl

theorem sentAt_increasing (n : Nat) :
    ((List.range n).map messageAt).Pairwise fun a b => a.sentAt ≤ b.sentAt := by
  refine pairwise_map.mpr (pairwise_lt_range.imp fun {a b} h => ?_)
  exact Nat.cast_le.mpr h.le

theorem fresh_sendAt (hn : n ≤ 1000) : idOf n ∉ ((List.range n).map idOf).reverse := by
  rw [mem_reverse]
  intro hMem
  obtain ⟨k, hk, hSame⟩ := mem_map.mp hMem
  have hLt := mem_range.mp hk
  have hEq := idOf_inj (by omega) (by omega) hSame
  omega

/-- As long as the mailbox is not full, one message after the other stays. -/
theorem run_sendAt (hn : n ≤ 1000) :
    Guarded (mailStep posix) FreshId {} ((List.range n).map sendAt) ∧
      run (mailStep posix) {} ((List.range n).map sendAt) =
        { document := (List.range n).map messageAt, ids := ((List.range n).map idOf).reverse
          removed := [] } := by
  induction n with
  | zero => exact ⟨trivial, rfl⟩
  | succ n ih =>
    obtain ⟨hGuard, hRun⟩ := ih (by omega)
    rw [range_succ, map_append, map_singleton]
    refine ⟨guarded_append.mpr ⟨hGuard, ⟨(idOf_spec n (by omega)).1, ?_⟩, trivial⟩, ?_⟩
    · rw [hRun]
      exact fresh_sendAt (by omega)
    · rw [run_concat, hRun, step_sendAt]
      have hFits : bounded ((List.range n).map messageAt ++ [messageAt n]) =
          (List.range n).map messageAt ++ [messageAt n] :=
        if_neg (by simp [Limits.messages]; omega)
      simp [hFits, map_append]

theorem run_full (hn : n = 1000) :
    run (mailStep posix) {} ((List.range n).map sendAt ++ [sendAt n]) =
      { document := ((List.range (n + 1)).map messageAt).drop 1
        ids := idOf n :: ((List.range n).map idOf).reverse, removed := [] } := by
  obtain ⟨-, hRun⟩ := run_sendAt hn.le
  rw [run_concat, hRun, step_sendAt]
  have hAll : (List.range n).map messageAt ++ [messageAt n] =
      (List.range (n + 1)).map messageAt := by
    rw [range_succ, map_append, map_singleton]
  have hDrop : bounded ((List.range (n + 1)).map messageAt) =
      ((List.range (n + 1)).map messageAt).drop 1 := by
    unfold bounded
    rw [if_pos (by simp [Limits.messages, hn]), mergeSort_of_pairwise]
    · simp [Limits.messages, hn]
    · exact (sentAt_increasing (n + 1)).imp fun h => decide_eq_true h
  rw [← hDrop, ← hAll]

/-- The thousand and first message takes the first one's place. -/
theorem crowded_out : ¬ ∀ (locale : Locale) es e,
    Guarded (mailStep locale) FreshId {} (es ++ [e]) →
    ∀ m ∈ (run (mailStep locale) {} es).document,
      Stays m (run (mailStep locale) {} (es ++ [e])).document ∨
      RemovedByAll m (run (mailStep locale) {} (es ++ [e])).removed ∨
      Outnumbered m (run (mailStep locale) {} es).document
        (run (mailStep locale) {} (es ++ [e])).document := by
  intro h
  obtain ⟨n, hn⟩ : ∃ n, n = 1000 := ⟨_, rfl⟩
  obtain ⟨hGuard, hRun⟩ := run_sendAt hn.le
  have hLast : Guarded (mailStep posix) FreshId {} ((List.range n).map sendAt ++ [sendAt n]) := by
    refine guarded_append.mpr ⟨hGuard, ⟨(idOf_spec n (by omega)).1, ?_⟩, trivial⟩
    rw [hRun]
    exact fresh_sendAt hn.le
  have hAfter : ∀ m ∈ ((List.range (n + 1)).map messageAt).drop 1, ∃ k, k < n ∧
      messageAt (k + 1) = m := by
    intro m hm
    rw [← List.map_drop, List.range_eq_range', List.drop_range'] at hm
    obtain ⟨k, hk, rfl⟩ := List.mem_map.mp hm
    rw [List.mem_range'_1] at hk
    exact ⟨k - 1, by omega, by rw [Nat.sub_add_cancel (by omega)]⟩
  have hOne := h posix ((List.range n).map sendAt) (sendAt n) hLast (messageAt 0)
    (by rw [hRun]; exact List.mem_map.mpr ⟨0, List.mem_range.mpr (by omega), rfl⟩)
  rw [run_full hn, hRun] at hOne
  rcases hOne with ⟨m, hm, hId, -⟩ | hRemoved | ⟨l, hNodup, hLength, hNewer⟩
  · obtain ⟨k, hk, rfl⟩ := hAfter m hm
    have hEq := idOf_inj (by omega) (by omega) hId
    omega
  · exact nomatch hRemoved _ List.mem_cons_self
  · have hSub : l ⊆ (List.range n).map fun k => messageAt (k + 1) := by
      intro m hm
      obtain ⟨hIn, hLater⟩ := hNewer m hm
      rcases hIn with hIn | hIn
      · obtain ⟨k, hk, rfl⟩ := List.mem_map.mp hIn
        have hk' := List.mem_range.mp hk
        have hPos : 0 < k := Nat.cast_pos.mp hLater
        exact List.mem_map.mpr ⟨k - 1, List.mem_range.mpr (by omega),
          by rw [Nat.sub_add_cancel hPos]⟩
      · obtain ⟨k, hk, rfl⟩ := hAfter m hIn
        exact List.mem_map.mpr ⟨k, List.mem_range.mpr hk, rfl⟩
    have hLe := (List.subperm_of_subset hNodup hSub).length_le
    simp only [List.length_map, List.length_range, Limits.messages] at hLe hLength
    omega

end TMEdge.Workspace
