import TMEdge.Library.Run
import TMEdge.Workspace.Domain

/-!
# The mailbox

The model of `Mailbox` (`modules/workspace/application/mailbox.ts`) over the document its store
holds. What a call throws leaves the document; what it changes is written, or is not
(`MailEvent`). Message ids, the clock, the members and the order of the locale are given.

`MailRun` keeps the removals that went through, for the statements.
-/

namespace TMEdge.Workspace

open Library

/-! ## Documents -/

structure StoredMessage where
  id : Text
  from_ : Text
  to_ : List Text
  subject : Text
  body : Text
  sentAt : ℚ
  replyTo : Option Text
  readBy : List Text
  hiddenFor : List Text
  deriving DecidableEq

abbrev MailDocument := List StoredMessage

def emptyMail : MailDocument := []

inductive Box
  | inbox
  | sent
  deriving DecidableEq

structure MessageHeader where
  id : Text
  box : Box
  from_ : Text
  to_ : List Text
  subject : Text
  preview : Text
  sentAt : ℚ
  read : Bool
  replyTo : Option Text
  deriving DecidableEq

structure MessageView where
  header : MessageHeader
  body : Text
  deriving DecidableEq

structure MailboxView where
  unread : Nat
  inbox : List MessageHeader
  sent : List MessageHeader
  omitted : Nat × Nat
  deriving DecidableEq

/-- `ID` -/
def isMessageId (t : Text) : Bool :=
  t.length = 12 && t.all fun c =>
    (65 ≤ c && c ≤ 90) || (97 ≤ c && c ≤ 122) || isDigit c || c = 95 || c = 45

/-- What the standard library takes from the locale: a comparison of texts that tells ASCII
texts apart. -/
structure Locale where
  toLowerCase : Text → Text
  numberText : ℚ → Text
  compare : Text → Text → Int
  total : ∀ a b, compare a b ≤ 0 ∨ compare b a ≤ 0
  trans : ∀ a b c, compare a b ≤ 0 → compare b c ≤ 0 → compare a c ≤ 0
  antisymm : ∀ a b : Text, (∀ c ∈ a, c < 128) → (∀ c ∈ b, c < 128) → compare a b ≤ 0 →
    compare b a ≤ 0 → a = b

/-! ## Reading -/

/-- `boxOf`: which box, if any, a message is in for this person. -/
def boxOf (message : StoredMessage) (actor : Actor) : Option Box :=
  if message.sentAt < actor.since ∨ actor.name ∈ message.hiddenFor then none
  else if message.from_ = actor.name then some .sent
  else if actor.name ∈ message.to_ then some .inbox
  else none

def header (message : StoredMessage) (box : Box) (actor : Actor) : MessageHeader :=
  let flat := collapse false message.body
  { id := message.id, box, from_ := message.from_, to_ := message.to_, subject := message.subject
    preview := if Limits.preview < flat.length then flat.take (Limits.preview - 1) ++ [0x2026]
      else flat
    sentAt := message.sentAt, replyTo := message.replyTo
    read := box = .sent || message.readBy.contains actor.name }

def viewOf (message : StoredMessage) (box : Box) (actor : Actor) : MessageView :=
  ⟨header message box actor, message.body⟩

def notInMailbox : Thrown :=
  .workspace .notFound 404 (js "That message is not in your mailbox.")

/-- `find`: the place of the message too, in this model. -/
def findMessage (document : MailDocument) (actor : Actor) (id : Text) :
    Outcome (Nat × StoredMessage × Box) :=
  if isMessageId id then
    match document.findIdx? (·.id = id) with
    | some i =>
      match document[i]? with
      | some message =>
        match boxOf message actor with
        | some box => return (i, message, box)
        | none => throw notInMailbox
      | none => throw notInMailbox
    | none => throw notInMailbox
  else throw notInMailbox

/-- The headers of what is in the boxes of a person. -/
def rowsOf (document : MailDocument) (actor : Actor) : List MessageHeader :=
  document.filterMap fun message => (boxOf message actor).map (header message · actor)

def newest (locale : Locale) (rows : List MessageHeader) : List MessageHeader :=
  (rows.mergeSort fun a b =>
    b.sentAt < a.sentAt ∨ a.sentAt = b.sentAt ∧ locale.compare a.id b.id ≤ 0).take Limits.listed

def list (locale : Locale) (document : MailDocument) (actor : Actor) : MailboxView :=
  let rows := rowsOf document actor
  let inbox := rows.filter (·.box = .inbox)
  let sent := rows.filter (·.box ≠ .inbox)
  { unread := rows.countP (!·.read)
    inbox := newest locale inbox, sent := newest locale sent
    omitted := (inbox.length - Limits.listed, sent.length - Limits.listed) }

def open_ (document : MailDocument) (actor : Actor) (id : Text) : Outcome MessageView := do
  let (_, message, box) ← findMessage document actor id
  return viewOf message box actor

/-! ## Sending -/

structure Letter where
  to_ : List Text
  subject : Text
  body : Text
  replyTo : Option Text
  deriving DecidableEq

def stringOf : Value → Option Text
  | .string t => some t
  | _ => none

/-- `send` up to the store: who it goes to, and what. -/
def letterOf (locale : Locale) (members : List Member) (actor : Actor) (input : Option Value) :
    Outcome Letter := do
  let body ← fields input [js "to", js "subject", js "body", js "replyTo"]
  match property body (js "to") with
  | some (.array names) =>
    if names = [] then throw (invalid (js "Choose at least one person to send this to."))
    if Limits.recipients < names.length ∨ names.any (fun name => (stringOf name).isNone) then
      throw (invalid (js "A message can go to at most 32 people."))
    let to_ := ((names.filterMap stringOf).map fun name =>
      locale.toLowerCase (Text.trim name)).eraseDups.mergeSort fun a b => a ≤ b
    if actor.name ∈ to_ then throw (invalid (js "You cannot send a message to yourself."))
    match to_.find? fun name => name ∉ members.map Member.name with
    | some missing =>
      throw (invalid (if isName missing then missing ++ js " is not a member of this console."
        else js "A recipient is not a member of this console."))
    | none =>
      let subject ← oneLine (property body (js "subject")) Limits.subject (js "A subject")
      let text ← paragraphs (property body (js "body")) Limits.body (js "A message") true
      match property body (js "replyTo") with
      | none => return ⟨to_, subject, text, none⟩
      | some .null => return ⟨to_, subject, text, none⟩
      | some value =>
        match textOf locale.numberText value with
        | some replyTo => return ⟨to_, subject, text, some replyTo⟩
        | none => throw .typeError
  | _ => throw (invalid (js "Choose at least one person to send this to."))

/-- The oldest mail makes room. -/
def bounded (messages : MailDocument) : MailDocument :=
  if Limits.messages < messages.length then
    (messages.mergeSort fun a b => a.sentAt ≤ b.sentAt).drop (messages.length - Limits.messages)
  else messages

def send (locale : Locale) (members : List Member) (newId : Text) (now : ℚ)
    (document : MailDocument) (actor : Actor) (input : Option Value) :
    Outcome (MessageView × MailDocument) := do
  let letter ← letterOf locale members actor input
  if letter.replyTo.any fun replyTo =>
      !document.any fun m => m.id = replyTo && (boxOf m actor).isSome then
    throw (invalid (js "The message being answered is not in your mailbox."))
  let message : StoredMessage :=
    { id := newId, from_ := actor.name, to_ := letter.to_, subject := letter.subject
      body := letter.body, sentAt := now, replyTo := letter.replyTo, readBy := [], hiddenFor := [] }
  return (viewOf message .sent actor, bounded (document ++ [message]))

/-! ## Marking and removing -/

def mark (document : MailDocument) (actor : Actor) (id : Text) (input : Option Value) :
    Outcome (MessageView × MailDocument) := do
  let body ← fields input [js "read"]
  match property body (js "read") with
  | some (.bool read) =>
    let (i, message, box) ← findMessage document actor id
    let others := message.readBy.filter (· ≠ actor.name)
    let message := if box = .inbox then
        { message with readBy := if read then others ++ [actor.name] else others }
      else message
    return (viewOf message box actor, document.set i message)
  | _ => throw (invalid (js "Read must be true or false."))

/-- `remove`: the id that is removed, and the document. -/
def remove (document : MailDocument) (actor : Actor) (id : Text) :
    Outcome (Text × MailDocument) := do
  let (i, message, _) ← findMessage document actor id
  let message := { message with hiddenFor := message.hiddenFor ++ [actor.name] }
  if (message.from_ :: message.to_).any (· ∉ message.hiddenFor) then
    return (id, document.set i message)
  else return (id, document.eraseIdx i)

/-! ## Runs -/

/-- A call that changes the document; the store writes what it makes, or does not. -/
inductive MailEvent
  | send (members : List Member) (newId : Text) (now : ℚ) (actor : Actor) (input : Option Value)
      (written : Bool)
  | mark (actor : Actor) (id : Text) (input : Option Value) (written : Bool)
  | remove (actor : Actor) (id : Text) (written : Bool)

structure MailRun where
  document : MailDocument := emptyMail
  /-- The ids given to messages so far. -/
  ids : List Text := []
  /-- Who has removed which message. -/
  removed : List (Text × Text) := []

def MailRun.write {α : Type} (s : MailRun) (written : Bool) (outcome : Outcome (α × MailDocument))
    (note : MailRun → MailRun) : MailRun :=
  match outcome with
  | .ok (_, document) => if written then note { s with document } else s
  | .error _ => s

def mailStep (locale : Locale) (s : MailRun) : MailEvent → MailRun
  | .send members newId now actor input written =>
    let s' := { s with ids := newId :: s.ids }
    s'.write written (send locale members newId now s.document actor input) id
  | .mark actor id input written => s.write written (mark s.document actor id input) fun s => s
  | .remove actor id written =>
    s.write written (remove s.document actor id) fun s =>
      { s with removed := (id, actor.name) :: s.removed }

end TMEdge.Workspace
