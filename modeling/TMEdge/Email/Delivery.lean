import TMEdge.Email.Settings
import TMEdge.Library.JsMap

/-!
# What is emailed to a person, and when

The model of `plan` and `afterSending` (`algo-admin/domain/email-delivery.ts`) and of a pass
of `DeliverEmailNotifications` (`algo-admin/use-cases/deliver-email-notifications.ts`) over
the ledger of what was sent. Of a news item the model keeps what decides whether it is sent;
the text of a message is left out. The hash of a key is a parameter.

`Watch` is one person with the messages delivered so far; `Office` is every subscriber with
the ledger. What the sources answer, the clock, the fate of each message and whether the
ledger could be written are part of the event.
-/

namespace TMEdge.Email

open Library

def holdMs : Int := 10 * 60000

def minGapMs : Int := 15 * 60000

def dailyLimit : Nat := 12

def rememberMs : Int := 24 * 60 * 60000

def maxRemembered : Nat := 1000

def touchMs : Int := 60 * 60000

structure NewsItem where
  key : Text
  topic : EmailTopic
  ongoing : Bool
  deriving DecidableEq

/-- What is true for one person now, and the topics whose source could be asked. -/
structure News where
  items : List NewsItem
  answered : List EmailTopic

structure Remembered where
  key : Text
  topic : EmailTopic
  settled : Bool
  since : Int
  lastPresentAt : Int
  deriving DecidableEq

/-- `day` is the UTC day as a number. -/
structure DeliveryRecord where
  name : Text
  accountCreatedAt : Int
  items : List Remembered
  lastTriedAt : Int
  day : Int
  sentToday : Nat
  deriving DecidableEq

def DeliveryRecord.account (r : DeliveryRecord) : AccountRef := ⟨r.name, r.accountCreatedAt⟩

def dayOf (now : Int) : Int := now / (24 * 60 * 60000)

/-- The messages of today; a new day starts again. -/
def DeliveryRecord.sentBy (r : DeliveryRecord) (now : Int) : Nat :=
  if r.day = dayOf now then r.sentToday else 0

def DeliveryRecord.due (r : DeliveryRecord) (now : Int) : Bool :=
  minGapMs ≤ now - r.lastTriedAt && r.sentBy now < dailyLimit

/-! ## One step for one person -/

section Plan

variable (hashed : Text → Text)

/-- The news by hashed key. -/
def present (news : News) : JsMap Text NewsItem :=
  news.items.foldl (fun m item => m.set (hashed item.key) item) .empty

/-- What becomes of a remembered item; `none` when it is forgotten. -/
def keep (seen : JsMap Text NewsItem) (answered notify : List EmailTopic) (now : Int)
    (kept : Remembered) : Option Remembered :=
  let settled := kept.settled || !notify.contains kept.topic || rememberMs ≤ now - kept.since
  if seen.has kept.key then
    some { kept with
      settled := settled
      lastPresentAt := if touchMs ≤ now - kept.lastPresentAt then now else kept.lastPresentAt }
  else if !answered.contains kept.topic then some { kept with settled := settled }
  else if kept.settled && now - kept.lastPresentAt < rememberMs then some kept
  else none

/-- The remembered items that are kept, and behind them the items that are new. -/
def noted (previous : List Remembered) (news : News) (notify : List EmailTopic) (now : Int) :
    List Remembered :=
  let items := previous.filterMap (keep (present hashed news) news.answered notify now)
  items ++ (present hashed news).entries.filterMap fun e =>
    if (items.map Remembered.key).contains e.1 then none
    else some ⟨e.1, e.2.topic, !notify.contains e.2.topic, now, now⟩

/-- Bounded, oldest first to go. -/
def bounded (items : List Remembered) : List Remembered :=
  if maxRemembered < items.length then
    (items.mergeSort fun a b => a.lastPresentAt ≤ b.lastPresentAt).drop
      (items.length - maxRemembered)
  else items

/-- What is remembered of somebody email starts for. -/
def baseline (news : News) (now : Int) : List Remembered :=
  ((present hashed news).entries.map fun e => ⟨e.1, e.2.topic, true, now, now⟩).take maxRemembered

/-- The news item an entry makes ready. -/
def readyItem (seen : JsMap Text NewsItem) (now : Int) (kept : Remembered) : Option NewsItem :=
  (seen.get kept.key).filter fun item =>
    !kept.settled && (!item.ongoing || holdMs ≤ now - kept.since)

def plan (previous : Option DeliveryRecord) (account : AccountRef) (news : News)
    (notify : List EmailTopic) (now : Int) : Option DeliveryRecord × List NewsItem :=
  match previous with
  | none =>
    if emailTopicList.any fun t => !news.answered.contains t then (none, [])
    else (some ⟨account.name, account.createdAt, baseline hashed news now, 0, dayOf now, 0⟩, [])
  | some r =>
    let items := bounded (noted hashed r.items news notify now)
    (some ⟨account.name, account.createdAt, items, r.lastTriedAt, dayOf now, r.sentBy now⟩,
      if r.due now then items.filterMap (readyItem (present hashed news) now) else [])

def afterSending (r : DeliveryRecord) (tried : List NewsItem) (delivered : Bool) (now : Int) :
    DeliveryRecord :=
  let keys := tried.map fun item => hashed item.key
  { r with
    lastTriedAt := now
    sentToday := r.sentToday + if delivered then 1 else 0
    items := if delivered then
        r.items.map fun item =>
          if keys.contains item.key then { item with settled := true } else item
      else r.items }

/-! ## One person -/

/-- One look at the news of one person. -/
structure Look where
  news : News
  notify : List EmailTopic
  now : Int
  delivered : Bool

/-- The record of one person, with the hashed keys that were delivered and when. -/
structure Watch where
  record : Option DeliveryRecord
  log : List (Text × Int)

variable (account : AccountRef)

/-- The news sent in this look. -/
def Watch.ready (w : Watch) (l : Look) : List NewsItem :=
  (plan hashed w.record account l.news l.notify l.now).2

/-- Every list that is ready is sent, and delivered or not. -/
def Watch.step (w : Watch) (l : Look) : Watch :=
  let ready := w.ready hashed account l
  let record := (plan hashed w.record account l.news l.notify l.now).1
  if ready.isEmpty then ⟨record, w.log⟩
  else ⟨record.map fun r => afterSending hashed r ready l.delivered l.now,
    if l.delivered then w.log ++ ready.map fun item => (hashed item.key, l.now) else w.log⟩

def Watch.after (w : Watch) (ls : List Look) : Watch := run (Watch.step hashed account) w ls

end Plan

def Watch.start : Watch := ⟨none, []⟩

/-! ## A pass over everybody -/

/-- What `accounts.profile` answers: it throws, there is no such account, or its time of
creation. -/
inductive Profile
  | threw
  | missing
  | found (createdAt : Int)
  deriving DecidableEq

/-- One subscriber of a pass; `news` is `none` when the source failed. -/
structure Visit where
  subscriber : Subscriber
  profile : Profile
  news : Option News
  now : Int
  delivered : Bool

structure Attempt where
  account : AccountRef
  at_ : Int
  delivered : Bool
  deriving DecidableEq

/-- The subscribers of a pass, `none` when they or the ledger could not be read; and whether
the ledger could be written. -/
structure Pass where
  visits : Option (List Visit)
  stored : Bool

/-- The accounts of the ledger, and every message tried so far. -/
structure Office where
  ledger : List DeliveryRecord
  attempts : List Attempt

section Passes

variable (hashed : Text → Text)

/-- What a visit leaves for the ledger, and the message it tried. -/
def Visit.result (before : List DeliveryRecord) (v : Visit) :
    Option DeliveryRecord × Option Attempt :=
  let account := v.subscriber.account
  if v.profile ≠ .found account.createdAt then (none, none)
  else
    let previous := before.find? fun r => r.account == account
    match v.news with
    | none => (previous, none)
    | some news =>
      match plan hashed previous account news v.subscriber.notify v.now with
      | (none, _) => (none, none)
      | (some r, ready) =>
        if ready.isEmpty then (some r, none)
        else (some (afterSending hashed r ready v.delivered v.now),
          some ⟨account, v.now, v.delivered⟩)

/-- The visits of a pass until one throws: the records left, the messages tried, and whether
the end was reached. -/
def visitAll (before : List DeliveryRecord) :
    List Visit → List DeliveryRecord × List Attempt × Bool
  | [] => ([], [], true)
  | v :: vs =>
    if v.profile = .threw then ([], [], false)
    else
      let rest := visitAll before vs
      ((v.result hashed before).1.toList ++ rest.1,
        (v.result hashed before).2.toList ++ rest.2.1, rest.2.2)

/-- `DeliverEmailNotifications.run`. -/
def Office.pass (o : Office) (p : Pass) : Office :=
  match p.visits with
  | none => o
  | some visits =>
    let next := visitAll hashed o.ledger visits
    ⟨if next.2.2 && next.1 ≠ o.ledger && p.stored then next.1 else o.ledger,
      o.attempts ++ next.2.1⟩

def Office.after (o : Office) (ps : List Pass) : Office := run (Office.pass hashed) o ps

end Passes

def Office.start : Office := ⟨[], []⟩

end TMEdge.Email
