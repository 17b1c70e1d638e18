import TMEdge.Library.JsText
import TMEdge.Library.Run

/-!
# Addresses of accounts

The model of `ManageOwnAccount` (`algo-admin/use-cases/manage-own-account.ts`) as far as it
is about addresses, over `FileAccountSettings` (`algo-admin/file-own-account.ts`) and its
`JsonDocumentStore`. An address is written to once a code that was sent to it has been typed
back; its entry belongs to one account, by name and time of creation.

The accounts that exist, the clock, the code that is drawn, what becomes of the message and
whether the storage can be used during a call are part of the event. A code is stored as a
hash over the account, the address and the code.
-/

namespace TMEdge.Email

open Library

/-! ## Domain -/

/-- `EMAIL_TOPICS`. -/
inductive EmailTopic
  | sensor
  | training
  | firmware
  | parameter
  | mail
  | task
  deriving DecidableEq

def emailTopicList : List EmailTopic := [.sensor, .training, .firmware, .parameter, .mail, .task]

namespace EmailTopic

def text : EmailTopic → Text
  | .sensor => js "sensor"
  | .training => js "training"
  | .firmware => js "firmware"
  | .parameter => js "parameter"
  | .mail => js "mail"
  | .task => js "task"

end EmailTopic

def maxEmail : Nat := 254

def codeLifetimeMs : Int := 30 * 60000

def codeTries : Nat := 5

structure AccountRef where
  name : Text
  createdAt : Int
  deriving DecidableEq

structure PendingCode where
  hash : Text
  expiresAt : Int
  triesLeft : Int
  deriving DecidableEq

structure StoredSettings where
  name : Text
  accountCreatedAt : Int
  updatedAt : Int
  email : Option Text
  notify : List EmailTopic
  confirmedAt : Option Int
  code : Option PendingCode
  deriving DecidableEq

/-- The account an entry belongs to. -/
def StoredSettings.account (e : StoredSettings) : AccountRef := ⟨e.name, e.accountCreatedAt⟩

structure SettingsDocument where
  accounts : List StoredSettings
  deriving DecidableEq

structure AccountSettings where
  email : Option Text
  notify : List EmailTopic
  confirmed : Bool
  deriving DecidableEq

def noSettings : AccountSettings := ⟨none, [], false⟩

structure Subscriber where
  name : Text
  createdAt : Int
  email : Text
  notify : List EmailTopic
  deriving DecidableEq

def Subscriber.account (s : Subscriber) : AccountRef := ⟨s.name, s.createdAt⟩

/-- The code of an `AccountError`, its status and its message. -/
structure AccountError where
  code : Text
  status : Nat
  message : Text
  deriving DecidableEq

def validation (message : String) : AccountError := ⟨js "VALIDATION", 400, js message⟩

def unavailable : AccountError :=
  ⟨js "STORAGE_UNAVAILABLE", 503, js "Account storage is unavailable."⟩

/-- What the service is set up with: a mailer or none, and the hash of a code. -/
structure Env where
  unicode : Unicode
  mailer : Bool
  codeHash : AccountRef → Text → Text → Text

/-! ## Addresses and topics -/

/-- A character before the `@`: no blank, no control character, none of `@<>(),;:"\`. -/
def isLocalUnit (c : UInt16) : Bool :=
  !Text.isSpace c && !(js "@<>(),;:\"\\").contains c && 31 < c && c != 127

def isAlnum (c : UInt16) : Bool :=
  (48 ≤ c && c ≤ 57) || (65 ≤ c && c ≤ 90) || (97 ≤ c && c ≤ 122)

/-- A label of a domain name: 1 to 63 letters, digits and inner dashes. -/
def isDomainLabel (l : Text) : Bool :=
  l.length ≤ 63 && l.all (fun c => isAlnum c || c == 45) && l.head?.any isAlnum &&
    l.getLast?.any isAlnum

def addressPattern (t : Text) : Bool :=
  match t.splitOn 64 with
  | [name, domain] =>
    1 ≤ name.length && name.length ≤ 64 && name.all isLocalUnit &&
      2 ≤ (domain.splitOn 46).length && (domain.splitOn 46).all isDomainLabel
  | _ => false

/-- A JSON value where an address is expected. -/
inductive EmailValue
  | null
  | text (t : Text)
  | other
  deriving DecidableEq

def EmailValue.blank : EmailValue → Bool
  | .null => true
  | .text t => t.trim.isEmpty
  | .other => false

/-- Trimmed, with the domain in lower case. -/
def emailAddress (U : Unicode) : EmailValue → Option Text
  | .text value =>
    let text := value.trim
    if maxEmail < text.length || !addressPattern text then none
    else some (text.takeWhile (· != 64) ++ U.toLowerCase (text.dropWhile (· != 64)))
  | _ => none

/-- The address a settings request asks for: none at all, or a valid one. -/
def EmailValue.wanted (U : Unicode) (v : EmailValue) : Option Text :=
  if v.blank then none else emailAddress U v

/-- The topics in canonical order, without repeats; `none` if any is not a topic. -/
def emailTopics (value : List Text) : Option (List EmailTopic) :=
  if emailTopicList.length < value.length ||
      !value.all (fun v => emailTopicList.any fun t => t.text == v) then none
  else some (emailTopicList.filter fun t => value.contains t.text)

/-! ## The stored document -/

def isNameStart (c : UInt16) : Bool := (48 ≤ c && c ≤ 57) || (97 ≤ c && c ≤ 122)

/-- `/^[a-z0-9][a-z0-9_.-]{1,31}$/`. -/
def namePattern : Text → Bool
  | [] => false
  | c :: rest => isNameStart c && 1 ≤ rest.length && rest.length ≤ 31 &&
      rest.all fun d => isNameStart d || d == 95 || d == 46 || d == 45

/-- A code of the file that is refused keeps the whole file from being read. -/
def pendingCode (code : PendingCode) : Option PendingCode :=
  if code.hash.length != 64 || !code.hash.all Text.isHexDigit || code.triesLeft < 0 ||
      codeTries < code.triesLeft then none
  else some code

/-- One entry of `parseSettings`, which has seen the names before it. -/
def parseEntry (U : Unicode) (seen : List Text) (e : StoredSettings) : Option StoredSettings :=
  let code : Option (Option PendingCode) :=
    match e.code with
    | none => some none
    | some c => (pendingCode c).map some
  match code, emailTopics (e.notify.map EmailTopic.text) with
  | some code, some topics =>
    if !namePattern e.name || seen.contains e.name ||
        e.email.any (fun t => emailAddress U (.text t) != some t) then none
    else some { e with
      notify := topics
      confirmedAt := if e.email.isNone then none else e.confirmedAt
      code := code }
  | _, _ => none

def parseEntries (U : Unicode) : List Text → List StoredSettings → Option (List StoredSettings)
  | _, [] => some []
  | seen, e :: rest =>
    match parseEntry U seen e with
    | none => none
    | some e' => (parseEntries U (e.name :: seen) rest).map (e' :: ·)

/-- `parseSettings` on a document of the right JSON types. -/
def parseSettings (U : Unicode) (d : SettingsDocument) : Option SettingsDocument :=
  if 10000 < d.accounts.length then none
  else (parseEntries U [] d.accounts).map SettingsDocument.mk

/-! ## The world -/

/-- What happened to the address of an account, kept for the statements. -/
inductive Deed
  | saved (account : AccountRef) (email : Option Text)
  | issued (account : AccountRef) (email code : Text) (at_ : Int)
  | wrong (account : AccountRef)
  | confirmed (account : AccountRef) (email code : Text) (at_ : Int)
  deriving DecidableEq

/-- The file, the copy of it the store holds, and the deeds so far. -/
structure World where
  file : Option SettingsDocument
  cached : Option SettingsDocument
  log : List Deed

def start : World := ⟨none, none, []⟩

/-- Who asks: nobody by name, a session whose account is gone or disabled, or an account. -/
inductive Actor
  | localMode
  | unknown
  | account (ref : AccountRef)

/-- The body of a request. -/
inductive Body (α : Type)
  | notAnObject
  | unknownFields
  | fields (value : α)

/-- The fields of a settings request; `notify` is `none` when it is no list of texts. -/
structure SettingsBody where
  email : EmailValue
  notify : Option (List Text)

inductive MailOutcome
  | sent
  | refused
  | failed

inductive Event
  | saveSettings (actor : Actor) (body : Body SettingsBody) (current : List AccountRef)
      (now : Int) (io : Bool)
  | sendCode (actor : Actor) (code : Text) (now : Int) (io : Bool) (mail : MailOutcome)
  | confirmEmail (actor : Actor) (body : Body (Option Text)) (now : Int) (io : Bool)
  | restart

inductive Outcome
  | account (ref : AccountRef) (settings : AccountSettings)
  | sent (email : Text) (expiresAt : Int)
  | threw (error : AccountError)
  | restarted
  deriving DecidableEq

def profileOf : Actor → Except AccountError AccountRef
  | .localMode => .error ⟨js "LOCAL_MODE", 403,
      js "Account settings are unavailable in local mode: there is no account to keep them for."⟩
  | .unknown => .error ⟨js "UNAUTHENTICATED", 401, js "Sign in again."⟩
  | .account ref => .ok ref

/-- The entry that is this account's. -/
def own (d : SettingsDocument) (a : AccountRef) : Option StoredSettings :=
  d.accounts.find? fun e => e.account == a

/-- The document with the entry of the account changed in place. -/
def amend (a : AccountRef) (f : StoredSettings → StoredSettings) :
    List StoredSettings → List StoredSettings
  | [] => []
  | e :: rest => if e.account == a then f e :: rest else e :: amend a f rest

def emptySettings : SettingsDocument := ⟨[]⟩

namespace World

/-- `JsonDocumentStore.read`; `none` when the file cannot be read or is refused. -/
def read (env : Env) (w : World) (io : Bool) : Option SettingsDocument :=
  if !io then none
  else match w.file with
    | none => some emptySettings
    | some file => match w.cached with
      | some document => some document
      | none => parseSettings env.unicode file

/-- A document that replaced the file. -/
def written (w : World) (d : SettingsDocument) (deed : Deed) : World :=
  ⟨some d, some d, w.log ++ [deed]⟩

/-- `FileAccountSettings.read` on a document. -/
def settingsOf (d : SettingsDocument) (a : AccountRef) : AccountSettings :=
  match own d a with
  | none => noSettings
  | some e => ⟨e.email, e.notify, e.confirmedAt.isSome⟩

/-- `FileAccountSettings.save` on a document. -/
def saved (d : SettingsDocument) (a : AccountRef) (email : Option Text)
    (notify : List EmailTopic) (current : List AccountRef) (now : Int) :
    SettingsDocument × Option Int :=
  let before := (own d a).filter fun e => e.email == email
  let others := d.accounts.filter fun e => e.name != a.name && current.contains e.account
  (⟨if email.isSome then
      others ++ [⟨a.name, a.createdAt, now, email, notify, before.bind StoredSettings.confirmedAt,
        before.bind StoredSettings.code⟩]
    else others⟩, before.bind StoredSettings.confirmedAt)

def saveSettings (env : Env) (w : World) (actor : Actor) (body : Body SettingsBody)
    (current : List AccountRef) (now : Int) (io : Bool) : World × Outcome :=
  match profileOf actor, body with
  | .error e, _ => (w, .threw e)
  | .ok _, .notAnObject => (w, .threw (validation "A JSON object is required."))
  | .ok _, .unknownFields => (w, .threw (validation "Unknown settings fields."))
  | .ok a, .fields body =>
    let email := body.email.wanted env.unicode
    if !body.email.blank && email.isNone then
      (w, .threw (validation "Enter one email address, such as name@example.com."))
    else match body.notify.bind emailTopics with
      | none => (w, .threw (validation "Notification choices must come from the list."))
      | some topics =>
        let notify := if email.isNone then [] else topics
        match w.read env io with
        | none => (w, .threw unavailable)
        | some d =>
          let next := saved d a email notify current now
          (w.written next.1 (.saved a email), .account a ⟨email, notify, next.2.isSome⟩)

def sendCode (env : Env) (w : World) (actor : Actor) (code : Text) (now : Int) (io : Bool)
    (mail : MailOutcome) : World × Outcome :=
  match profileOf actor with
  | .error e => (w, .threw e)
  | .ok a =>
    if !env.mailer then
      (w, .threw ⟨js "EMAIL_OFF", 409, js "This server is not set up to send email."⟩)
    else match w.read env io with
      | none => (w, .threw unavailable)
      | some d => match (settingsOf d a).email with
        | none => (w, .threw (validation "Save an email address first."))
        | some email =>
          if (settingsOf d a).confirmed then
            (w, .threw ⟨js "ALREADY_CONFIRMED", 409, js "This address is already confirmed."⟩)
          else
            -- `expectCode` finds the entry just read.
            let pending : PendingCode :=
              ⟨env.codeHash a email code, now + codeLifetimeMs, codeTries⟩
            let w := w.written ⟨amend a (fun e => { e with code := some pending }) d.accounts⟩
              (.issued a email code now)
            match mail with
            | .sent => (w, .sent email (now + codeLifetimeMs))
            | .refused => (w, .threw ⟨js "MAIL_REFUSED", 502, js ("The mail service would not " ++
                "send to this address. Check it, or ask an admin whether the mail service is " ++
                  "still restricted to approved addresses.")⟩)
            | .failed => (w, .threw ⟨js "MAIL_UNAVAILABLE", 503,
                js "The mail service could not be reached. Try again in a few minutes."⟩)

def isSixDigits (t : Text) : Bool := t.length == 6 && t.all fun c => 48 ≤ c && c ≤ 57

/-- There is a code the account can try at this time. -/
def waiting (d : SettingsDocument) (a : AccountRef) (now : Int) :
    Option (Text × PendingCode) :=
  match own d a with
  | none => none
  | some e => match e.code, e.email with
    | some c, some email =>
      if e.confirmedAt.isSome || c.expiresAt ≤ now || c.triesLeft ≤ 0 then none
      else some (email, c)
    | _, _ => none

def confirmEmail (env : Env) (w : World) (actor : Actor) (body : Body (Option Text)) (now : Int)
    (io : Bool) : World × Outcome :=
  match profileOf actor, body with
  | .error e, _ => (w, .threw e)
  | .ok _, .notAnObject => (w, .threw (validation "A JSON object is required."))
  | .ok _, .unknownFields => (w, .threw (validation "Unknown confirmation fields."))
  | .ok a, .fields input =>
    let code := (input.getD []).trim
    if !isSixDigits code then (w, .threw (validation "The code is six digits."))
    else match w.read env io with
      | none => (w, .threw unavailable)
      | some d => match waiting d a now with
        | none => (w, .threw ⟨js "NO_CODE", 409, js ("There is no code to check: it expired, " ++
            "or was tried too many times. Send a new one.")⟩)
        | some (email, c) =>
          if c.hash = env.codeHash a email code then
            let next : SettingsDocument :=
              ⟨amend a (fun e => { e with confirmedAt := some now, code := none }) d.accounts⟩
            (w.written next (.confirmed a email code now), .account a (settingsOf next a))
          else
            (w.written ⟨amend a (fun e => { e with
              code := some { c with triesLeft := c.triesLeft - 1 } }) d.accounts⟩ (.wrong a),
              .threw ⟨js "WRONG_CODE", 400, js "That code is not right."⟩)

/-- `FileAccountSettings.subscribers`. -/
def subscribers (env : Env) (w : World) (current : List AccountRef) (io : Bool) :
    Option (List Subscriber) :=
  (w.read env io).map fun d => d.accounts.filterMap fun e =>
    match e.email with
    | none => none
    | some email =>
      if e.confirmedAt.isNone || e.notify.isEmpty || !current.contains e.account then none
      else some ⟨e.name, e.accountCreatedAt, email, e.notify⟩

def step (env : Env) (w : World) : Event → World × Outcome
  | .saveSettings actor body current now io => w.saveSettings env actor body current now io
  | .sendCode actor code now io mail => w.sendCode env actor code now io mail
  | .confirmEmail actor body now io => w.confirmEmail env actor body now io
  | .restart => ({ w with cached := none }, .restarted)

def after (env : Env) (w : World) (es : List Event) : World :=
  run (fun w e => (w.step env e).1) w es

end World

def ada : AccountRef := ⟨js "ada", 1700000000000⟩

end TMEdge.Email
