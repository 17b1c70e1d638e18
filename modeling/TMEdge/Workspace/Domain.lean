import TMEdge.Library.JsText

/-!
# The team's side of the console

The model of `modules/workspace/domain/workspace.ts`: the limits, the errors, and the readers of
what a request carries (`fields`, `oneLine`, `paragraphs`). A value that comes as JSON is a
`Value`; an absent one is `none`.
-/

namespace TMEdge.Workspace

open Library

/-! ## Values -/

/-- A value as `JSON.parse` returns it; the names of an object are in the order of
`Object.keys`. -/
inductive Value
  | null
  | bool (b : Bool)
  | number (q : ℚ)
  | infinity (negative : Bool)
  | string (t : Text)
  | array (items : List Value)
  | object (members : List (Text × Value))

/-- A property; `none` is `undefined`. -/
def property (members : List (Text × Value)) (name : Text) : Option Value :=
  (members.find? fun m => m.1 = name).map Prod.snd

/-! ## Limits -/

namespace Limits

def subject : Nat := 120
def body : Nat := 4000
def recipients : Nat := 32
def messages : Nat := 1000
/-- Rows a listing returns for each box. -/
def listed : Nat := 100
def preview : Nat := 140

end Limits

/-! ## People -/

structure Member where
  name : Text
  since : ℚ
  deriving DecidableEq

/-- The person a request is made by. -/
structure Actor extends Member where
  canTriage : Bool
  isAdmin : Bool
  deriving DecidableEq

def isLowerAlnum (c : UInt16) : Bool := (97 ≤ c && c ≤ 122) || (48 ≤ c && c ≤ 57)

/-- `NAME` -/
def isName : Text → Bool
  | c :: rest => isLowerAlnum c && 1 ≤ rest.length && rest.length ≤ 31 &&
      rest.all fun c => isLowerAlnum c || c = 95 || c = 46 || c = 45
  | [] => false

/-! ## Errors -/

inductive WorkspaceErrorCode
  | forbidden
  | validation
  | notFound
  | staleRevision
  | closed
  | full
  | storageUnavailable
  deriving DecidableEq

/-- What a call throws: a `WorkspaceError`, or what `String` throws. -/
inductive Thrown
  | workspace (code : WorkspaceErrorCode) (status : Nat) (message : Text)
  | typeError
  deriving DecidableEq

abbrev Outcome (α : Type) := Except Thrown α

def invalid (message : Text) : Thrown := .workspace .validation 400 message

/-! ## Readers -/

/-- `fields`: a plain object with only the named keys. -/
def fields (input : Option Value) (allowed : List Text) : Outcome (List (Text × Value)) :=
  match input with
  | some (.object members) =>
    match (members.map Prod.fst).find? fun key => key ∉ allowed with
    | some extra =>
      -- an empty name is falsy, and passes
      if extra ≠ [] then throw (invalid (js "Unknown field: " ++ extra.take 40 ++ js "."))
      else return members
    | none => return members
  | _ => throw (invalid (js "A JSON object is required."))

/-- `CONTROL` -/
def isControl (c : UInt16) : Bool :=
  c ≤ 8 || c = 11 || c = 12 || (14 ≤ c && c ≤ 31) || c = 127 || c = 0x2028 || c = 0x2029

/-- `replace(/\s+/g, ' ')`; `inSpace` says that a run of white space goes on. -/
def collapse (inSpace : Bool) : Text → Text
  | [] => []
  | c :: t =>
    if Text.isSpace c then if inSpace then collapse true t else 32 :: collapse true t
    else c :: collapse false t

/-- `replace(/\r\n?/g, '\n')` -/
def newlines : Text → Text
  | [] => []
  | [c] => [if c = 13 then 10 else c]
  | c :: d :: t =>
    if c = 13 then if d = 10 then 10 :: newlines t else 10 :: newlines (d :: t)
    else c :: newlines (d :: t)

def oneLine (value : Option Value) (max : Nat) (what : Text) : Outcome Text :=
  match value with
  | some (.string t) =>
    let cleaned := Text.trim (collapse false (t.filter fun c => !isControl c))
    if cleaned = [] then throw (invalid (what ++ js " is required."))
    else if max < cleaned.length then
      throw (invalid (what ++ js " can be at most " ++ js (toString max) ++ js " characters."))
    else return cleaned
  | _ => throw (invalid (what ++ js " is required."))

def paragraphs (value : Option Value) (max : Nat) (what : Text) (required : Bool) :
    Outcome Text :=
  match value with
  | some (.string t) =>
    let cleaned := Text.trim ((newlines t).filter fun c => !isControl c)
    if cleaned = [] ∧ required then throw (invalid (what ++ js " is required."))
    else if max < cleaned.length then
      throw (invalid (what ++ js " can be at most " ++ js (toString max) ++ js " characters."))
    else return cleaned
  | none => if required then throw (invalid (what ++ js " must be text.")) else return []
  | _ => throw (invalid (what ++ js " must be text."))

def isDigit (c : UInt16) : Bool := 48 ≤ c && c ≤ 57

def digits (t : Text) : Nat := t.foldl (fun n c => 10 * n + (c.toNat - 48)) 0

mutual

/-- `String` of a value; it throws where an object brings a `toString` of its own. The text of a
number is a parameter. -/
def textOf (numberText : ℚ → Text) : Value → Option Text
  | .null => some (js "null")
  | .bool b => some (if b then js "true" else js "false")
  | .number q => some (numberText q)
  | .infinity negative => some (if negative then js "-Infinity" else js "Infinity")
  | .string t => some t
  | .array items => (elementTexts numberText items).map (List.intercalate (js ","))
  | .object members =>
    if (property members (js "toString")).isSome then none else some (js "[object Object]")

/-- The elements as `join` writes them. -/
def elementTexts (numberText : ℚ → Text) : List Value → Option (List Text)
  | [] => some []
  | .null :: items => (elementTexts numberText items).map ([] :: ·)
  | item :: items =>
    match textOf numberText item, elementTexts numberText items with
    | some t, some ts => some (t :: ts)
    | _, _ => none

end

end TMEdge.Workspace
