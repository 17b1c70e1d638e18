import TMEdge.Library.JsText

/-!
# JSON values

What `JSON.parse` gives: a number of the text may be too large to be finite, and an object has
each of its keys once.
-/

namespace TMEdge.Library

inductive Json
  | null
  | bool (b : Bool)
  | number (x : ℚ)
  /-- A number too large for a finite one. -/
  | infinite (negative : Bool)
  | string (t : Text)
  | array (elements : List Json)
  | object (entries : List (Text × Json))

namespace Json

/-- A property of an object; `none` is `undefined`. -/
def field? (es : List (Text × Json)) (k : Text) : Option Json :=
  (es.find? fun e => e.1 = k).map Prod.snd

end Json

end TMEdge.Library
