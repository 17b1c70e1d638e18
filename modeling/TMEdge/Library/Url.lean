import TMEdge.Library.JsText

/-!
# References and URLs

How a browser reads a URL reference on a page with the scheme `https`: which origin it has
(`ownOrigin`), and what the path, the query and the fragment become when it begins with a single
slash (`ofPath`).

* `ownOrigin_slash`: a reference that begins with a slash.
* `ownOrigin_ofPath`: what is put together from a parsed path.
-/

namespace TMEdge.Library.Url

open Library List

def isTabOrNewline (c : UInt16) : Bool := c = 9 || c = 10 || c = 13

def isControlOrSpace (c : UInt16) : Bool := c ≤ 32

/-- A backslash is a slash. -/
def isSlash (c : UInt16) : Bool := c = 47 || c = 92

/-- A reference without the controls and spaces around it, and without tabs and line ends. -/
def cleaned (ref : Text) : Text :=
  ((ref.dropWhile isControlOrSpace).rdropWhile isControlOrSpace).filter fun c => !isTabOrNewline c

/-! ## The origin -/

def isAlpha (c : UInt16) : Bool := (65 ≤ c && c ≤ 90) || (97 ≤ c && c ≤ 122)

def isSchemeUnit (c : UInt16) : Bool :=
  isAlpha c || (48 ≤ c && c ≤ 57) || c = 43 || c = 45 || c = 46

/-- The scheme of a reference and what follows its colon. -/
def splitScheme (t : Text) : Option (Text × Text) :=
  if (t.head?).any isAlpha then
    match t.dropWhile isSchemeUnit with
    | c :: rest => if c = 58 then some (t.takeWhile isSchemeUnit, rest) else none
    | [] => none
  else none

/-- Two slashes name a host. -/
def namesHost : Text → Bool
  | c :: d :: _ => isSlash c && isSlash d
  | _ => false

/-- A reference has the origin of the page: it names neither a host nor another scheme. -/
def ownOrigin (ref : Text) : Bool :=
  let t := cleaned ref
  match splitScheme t with
  | some (scheme, rest) => scheme.map asciiLower = js "https" && !namesHost rest
  | none => !namesHost t

/-! ## Percent encoding -/

/-- The bytes of a code point; a lone surrogate is read as U+FFFD. -/
def utf8 (p : Nat) : List Nat :=
  let p := if 0xD800 ≤ p ∧ p < 0xE000 then 0xFFFD else p
  if p < 0x80 then [p]
  else if p < 0x800 then [0xC0 + p / 0x40, 0x80 + p % 0x40]
  else if p < 0x10000 then [0xE0 + p / 0x1000, 0x80 + p / 0x40 % 0x40, 0x80 + p % 0x40]
  else [0xF0 + p / 0x40000, 0x80 + p / 0x1000 % 0x40, 0x80 + p / 0x40 % 0x40, 0x80 + p % 0x40]

/-- How many bytes a text has. -/
def byteLength (t : Text) : Nat := ((Text.codePoints t).flatMap utf8).length

def upperHexDigit (n : Nat) : UInt16 := UInt16.ofNat (if n < 10 then 48 + n else 55 + n)

def percentByte (b : Nat) : Text := [37, upperHexDigit (b / 16 % 16), upperHexDigit (b % 16)]

def percentEncode (inSet : Nat → Bool) (p : Nat) : Text :=
  if inSet p then (utf8 p).flatMap percentByte else [UInt16.ofNat p]

/-- The C0 control percent-encode set. -/
def controlSet (p : Nat) : Bool := p ≤ 0x1F || 0x7E < p

def querySet (p : Nat) : Bool := controlSet p || [0x20, 0x22, 0x23, 0x3C, 0x3E].contains p

def specialQuerySet (p : Nat) : Bool := querySet p || p = 0x27

def pathSet (p : Nat) : Bool := querySet p || [0x3F, 0x5E, 0x60, 0x7B, 0x7D].contains p

def fragmentSet (p : Nat) : Bool := controlSet p || [0x20, 0x22, 0x3C, 0x3E, 0x60].contains p

/-! ## The path -/

def isDoubleDot (segment : Text) : Bool :=
  [js "..", js ".%2e", js "%2e.", js "%2e%2e"].contains (segment.map asciiLower)

def isSingleDot (segment : Text) : Bool := [js ".", js "%2e"].contains (segment.map asciiLower)

/-- A segment ends, with a slash or with the path. -/
def closeSegment (path : List Text) (segment : Text) (slash : Bool) : List Text :=
  if isDoubleDot segment then
    if slash then path.dropLast else path.dropLast ++ [[]]
  else if isSingleDot segment then
    if slash then path else path ++ [[]]
  else path ++ [segment]

/-- The path state: the segments, and the input from the query or the fragment on. -/
def readPath : List Nat → List Text → Text → List Text × List Nat
  | [], path, segment => (closeSegment path segment false, [])
  | p :: rest, path, segment =>
    if p = 47 ∨ p = 92 then readPath rest (closeSegment path segment true) []
    else if p = 63 ∨ p = 35 then (closeSegment path segment false, p :: rest)
    else readPath rest path (segment ++ percentEncode pathSet p)

structure Parts where
  pathname : Text
  search : Text
  hash : Text
  deriving DecidableEq

/-- `search`: the query with its question mark, if there is any. -/
def searchOf (rest : List Nat) : Text :=
  match rest with
  | p :: query =>
    let query := query.takeWhile (· ≠ 35)
    if p = 63 ∧ query ≠ [] then 63 :: query.flatMap (percentEncode specialQuerySet) else []
  | [] => []

def hashOf (rest : List Nat) : Text :=
  match rest.dropWhile (· ≠ 35) with
  | _ :: fragment =>
    if fragment ≠ [] then 35 :: fragment.flatMap (percentEncode fragmentSet) else []
  | [] => []

/-- The URL of a reference that begins with a single slash. -/
def ofPath (ref : Text) : Parts :=
  let (path, rest) := readPath (Text.codePoints (cleaned ref)).tail [] []
  { pathname := path.flatMap fun segment => 47 :: segment
    search := searchOf rest
    hash := hashOf rest }

/-! ## References that begin with a slash -/

section slash

variable {c d : UInt16} {rest t : Text}

theorem isSlash_visible (h : isSlash c = true) :
    isControlOrSpace c = false ∧ isTabOrNewline c = false := by
  simp only [isSlash, Bool.or_eq_true, decide_eq_true_eq] at h
  rcases h with rfl | rfl
  · decide
  · decide

theorem rdropWhile_cons (h : isControlOrSpace c = false) :
    (c :: rest).rdropWhile isControlOrSpace = c :: rest.rdropWhile isControlOrSpace := by
  induction rest using List.reverseRecOn with
  | nil => simp [List.rdropWhile, h]
  | append_singleton l d ih =>
    rw [← cons_append]
    by_cases hd : isControlOrSpace d = true
    · rw [rdropWhile_concat_pos _ _ _ hd, rdropWhile_concat_pos _ _ _ hd, ih]
    · rw [rdropWhile_concat_neg _ _ _ hd, rdropWhile_concat_neg _ _ _ hd]
      rfl

theorem cleaned_slash (rest : Text) : cleaned (47 :: rest) =
    47 :: (rest.rdropWhile isControlOrSpace).filter fun c => !isTabOrNewline c := by
  unfold cleaned
  rw [dropWhile_cons_of_neg (by decide), rdropWhile_cons (by decide),
    filter_cons_of_pos (by decide)]

/-- A first slash is not among what is dropped from the end. -/
theorem find?_rdropWhile (t : Text) :
    ((t.rdropWhile isControlOrSpace).find? fun c => !isTabOrNewline c).any isSlash =
      (t.find? fun c => !isTabOrNewline c).any isSlash := by
  induction t using List.reverseRecOn with
  | nil => rfl
  | append_singleton l d ih =>
    by_cases hd : isControlOrSpace d = true
    · rw [rdropWhile_concat_pos _ _ _ hd, ih, find?_append]
      rcases l.find? fun c => !isTabOrNewline c with - | x
      · have hNot : isSlash d = false := by
          by_contra hSlash
          rw [Bool.not_eq_false] at hSlash
          rw [(isSlash_visible hSlash).1] at hd
          cases hd
        by_cases hTab : isTabOrNewline d = true
        · simp [hTab]
        · simp [hTab, hNot]
      · rfl
    · rw [rdropWhile_concat_neg _ _ _ hd]

/-- A reference that begins with a slash has the page's origin, unless the next unit that is not a
tab or a line end is another. -/
theorem ownOrigin_slash (rest : Text) : ownOrigin (47 :: rest) =
    !((rest.find? fun c => !isTabOrNewline c).any isSlash) := by
  have hScheme : splitScheme (cleaned (47 :: rest)) = none := by
    rw [cleaned_slash]
    rfl
  unfold ownOrigin
  dsimp only
  rw [hScheme]
  dsimp only
  rw [← find?_rdropWhile, cleaned_slash, ← head?_filter]
  rcases (rest.rdropWhile isControlOrSpace).filter fun c => !isTabOrNewline c with - | ⟨d, l⟩
  · rfl
  · rfl

end slash

/-! ## Parsed paths -/

section parsed

variable {path : List Text} {segment : Text} {input rest : List Nat}

/-- A segment holds no slash, no tab and no line end. -/
def Plain (segment : Text) : Prop := ∀ c ∈ segment, isTabOrNewline c = false ∧ isSlash c = false

theorem plain_upperHexDigit : ∀ n < 16,
    isTabOrNewline (upperHexDigit n) = false ∧ isSlash (upperHexDigit n) = false := by
  decide

theorem plain_percentByte (b : Nat) : Plain (percentByte b) := by
  intro c hc
  simp only [percentByte, mem_cons, not_mem_nil, or_false] at hc
  rcases hc with rfl | rfl | rfl
  · decide
  · exact plain_upperHexDigit _ (Nat.mod_lt _ (by decide))
  · exact plain_upperHexDigit _ (Nat.mod_lt _ (by decide))

theorem plain_percentEncode {p : Nat} (hSlash : p ≠ 47) (hBackslash : p ≠ 92) :
    Plain (percentEncode pathSet p) := by
  unfold percentEncode
  split
  next =>
    intro c hc
    obtain ⟨b, -, hc⟩ := mem_flatMap.mp hc
    exact plain_percentByte b c hc
  next hNot =>
    have hRange : 0x1F < p ∧ p ≤ 0x7E := by
      simp only [pathSet, querySet, controlSet, Bool.or_eq_true, decide_eq_true_eq, not_or] at hNot
      omega
    intro c hc
    obtain rfl := mem_singleton.mp hc
    have hNat : (UInt16.ofNat p).toNat = p := UInt16.toNat_ofNat_of_lt' (by
      rw [UInt16.size]
      omega)
    have hNe : ∀ n : UInt16, n.toNat ≠ p → UInt16.ofNat p ≠ n := fun n hn hEq =>
      hn (by rw [← hEq, hNat])
    simp only [isTabOrNewline, isSlash, Bool.or_eq_false_iff, decide_eq_false_iff_not]
    refine ⟨⟨⟨hNe 9 ?_, hNe 10 ?_⟩, hNe 13 ?_⟩, hNe 47 hSlash.symm, hNe 92 hBackslash.symm⟩
    · exact fun hEq => absurd hRange.1 (by rw [← hEq]; decide)
    · exact fun hEq => absurd hRange.1 (by rw [← hEq]; decide)
    · exact fun hEq => absurd hRange.1 (by rw [← hEq]; decide)

theorem plain_closeSegment (hPath : ∀ s ∈ path, Plain s) (hSegment : Plain segment) (slash : Bool) :
    ∀ s ∈ closeSegment path segment slash, Plain s := by
  have hEmpty : Plain [] := fun c hc => absurd hc not_mem_nil
  have hInit : ∀ s ∈ path.dropLast, Plain s := fun s hs => hPath s (mem_of_mem_dropLast hs)
  have hAppend : ∀ {path : List Text} {last : Text}, (∀ s ∈ path, Plain s) → Plain last →
      ∀ s ∈ path ++ [last], Plain s := by
    intro path last hPath hLast s hs
    rcases mem_append.mp hs with hs | hs
    · exact hPath s hs
    · exact mem_singleton.mp hs ▸ hLast
  unfold closeSegment
  split
  next =>
    split
    next => exact hInit
    next => exact hAppend hInit hEmpty
  next =>
    split
    next =>
      split
      next => exact hPath
      next => exact hAppend hPath hEmpty
    next => exact hAppend hPath hSegment

theorem closeSegment_ne_nil : closeSegment path segment false ≠ [] := by
  unfold closeSegment
  split
  next => simp
  next =>
    split
    next => simp
    next => simp

/-- A parsed path has a segment, and its segments are plain. -/
theorem readPath_spec (hPath : ∀ s ∈ path, Plain s) (hSegment : Plain segment) :
    (readPath input path segment).1 ≠ [] ∧ ∀ s ∈ (readPath input path segment).1, Plain s := by
  induction input generalizing path segment with
  | nil => exact ⟨closeSegment_ne_nil, plain_closeSegment hPath hSegment false⟩
  | cons p rest ih =>
    rw [readPath]
    split
    next =>
      exact ih (plain_closeSegment hPath hSegment true) fun c hc => absurd hc not_mem_nil
    next hSlash =>
      rw [not_or] at hSlash
      split
      next => exact ⟨closeSegment_ne_nil, plain_closeSegment hPath hSegment false⟩
      next =>
        refine ih hPath fun c hc => ?_
        rcases mem_append.mp hc with hc | hc
        · exact hSegment c hc
        · exact plain_percentEncode hSlash.1 hSlash.2 c hc

theorem head_searchOf (rest : List Nat) : searchOf rest = [] ∨ ∃ t, searchOf rest = 63 :: t := by
  unfold searchOf
  split
  next =>
    dsimp only
    split
    next => exact .inr ⟨_, rfl⟩
    next => exact .inl rfl
  next => exact .inl rfl

theorem head_hashOf (rest : List Nat) : hashOf rest = [] ∨ ∃ t, hashOf rest = 35 :: t := by
  unfold hashOf
  split
  next =>
    split
    next => exact .inr ⟨_, rfl⟩
    next => exact .inl rfl
  next => exact .inl rfl

/-- What is put together from a parsed path that does not begin with two slashes has the page's
origin. -/
theorem ownOrigin_ofPath (ref : Text) (h : (js "//").isPrefixOf (ofPath ref).pathname = false) :
    ownOrigin ((ofPath ref).pathname ++ (ofPath ref).search ++ (ofPath ref).hash) = true := by
  have hNone : ∀ s ∈ ([] : List Text), Plain s := fun s hs => absurd hs not_mem_nil
  have hEmpty : Plain [] := fun c hc => absurd hc not_mem_nil
  obtain ⟨hNe, hPlain⟩ := @readPath_spec _ _ (Text.codePoints (cleaned ref)).tail hNone hEmpty
  unfold ofPath at h ⊢
  generalize readPath (Text.codePoints (cleaned ref)).tail [] [] = parsed at hNe hPlain h ⊢
  obtain ⟨path, rest⟩ := parsed
  dsimp only at hNe hPlain h ⊢
  obtain ⟨first, others, rfl⟩ := exists_cons_of_ne_nil hNe
  rw [flatMap_cons, cons_append, cons_append, cons_append, ownOrigin_slash,
    Bool.not_eq_true']
  rw [flatMap_cons, cons_append] at h
  rcases first with - | ⟨c, first⟩
  · -- the path is a single slash, and the query or the fragment follows
    rcases others with - | ⟨second, others⟩
    · rcases head_searchOf rest with hSearch | ⟨t, hSearch⟩
      · rcases head_hashOf rest with hHash | ⟨t, hHash⟩
        · simp [hSearch, hHash]
        · rw [hSearch, hHash]
          rfl
      · rw [hSearch]
        rfl
    · exact absurd h (by rw [flatMap_cons]; simp [js])
  · have hFirst := hPlain (c :: first) mem_cons_self c mem_cons_self
    simp [hFirst.1, hFirst.2]

end parsed

end TMEdge.Library.Url
