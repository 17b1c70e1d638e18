import TMEdge.Library.JsText

/-!
# Tokens of a shell script

How a POSIX shell splits a text into words and operators, and removes quotes. A character that the shell
may still expand is `active`, so a word of literal characters stays one word, whatever they are. In a
substitution all is active. Line continuations, here-documents and `$` in front of a quote are not read.

* `run_append`: a text is read from where the reading of another one ends.
* `commands_append`: what is separated by a newline are different commands.
-/

namespace TMEdge.Library.Shell

/-! ## Reading -/

inductive Piece
  | lit (c : UInt16)
  | active (c : UInt16)
  deriving DecidableEq

abbrev Word := List Piece

inductive Token
  | word (w : Word)
  | operator (o : Text)
  | newline
  deriving DecidableEq

/-- The text that a word is, if nothing in it is expanded. -/
def value (w : Word) : Option Text :=
  w.mapM fun
    | .lit c => some c
    | .active _ => none

/-- What a character is inside of. -/
inductive Quote
  | single
  | double
  | paren
  | brace
  | back
  deriving DecidableEq

inductive Mode
  | start
  | comment
  | operator (o : Text)
  /-- `pending` is a backslash or a dollar sign in front. -/
  | word (w : Word) (quotes : List Quote) (pending : Option UInt16)
  deriving DecidableEq

def isBlank (c : UInt16) : Bool := c == 32 || c == 9

def isOperator (c : UInt16) : Bool := [38, 40, 41, 59, 60, 62, 124].contains c

/-- Patterns, tildes, braces and history, where they are not quoted. -/
def isActive (c : UInt16) : Bool := [33, 42, 63, 91, 93, 94, 123, 125, 126].contains c

def operators : List Text := ["&&", "||", ";;", "<<", ">>", "<&", ">&", "<>", ">|"].map js

def isSubstitution : Quote → Bool
  | .single | .double => false
  | .paren | .brace | .back => true

/-- A quoted character. -/
def piece (quotes : List Quote) (c : UInt16) : Piece :=
  if quotes.any isSubstitution then .active c else .lit c

abbrev Step := Option (List Token × Mode)

/-- One more character of a word. -/
def wordStep (w : Word) (quotes : List Quote) (c : UInt16) : Step :=
  match quotes with
  | .single :: rest =>
    if c = 39 then some ([], .word w rest none)
    else some ([], .word (w ++ [piece rest c]) quotes none)
  | .double :: rest =>
    if c = 34 then some ([], .word w rest none)
    else if c = 92 ∨ c = 36 then some ([], .word w quotes (some c))
    else if c = 96 then some ([], .word (w ++ [.active c]) (.back :: quotes) none)
    else some ([], .word (w ++ [piece rest c]) quotes none)
  | .paren :: rest =>
    if c = 41 then some ([], .word (w ++ [.active c]) rest none)
    else if c = 40 then some ([], .word (w ++ [.active c]) (.paren :: quotes) none)
    else if c = 39 then some ([], .word w (.single :: quotes) none)
    else if c = 34 then some ([], .word w (.double :: quotes) none)
    else if c = 92 ∨ c = 36 then some ([], .word w quotes (some c))
    else if c = 96 then some ([], .word (w ++ [.active c]) (.back :: quotes) none)
    else some ([], .word (w ++ [.active c]) quotes none)
  | .brace :: rest =>
    if c = 125 then some ([], .word (w ++ [.active c]) rest none)
    else if c = 34 then some ([], .word w (.double :: quotes) none)
    else if c = 92 ∨ c = 36 then some ([], .word w quotes (some c))
    else if c = 96 then some ([], .word (w ++ [.active c]) (.back :: quotes) none)
    else some ([], .word (w ++ [.active c]) quotes none)
  | .back :: rest =>
    if c = 96 then some ([], .word (w ++ [.active c]) rest none)
    else if c = 92 then some ([], .word w quotes (some c))
    else some ([], .word (w ++ [.active c]) quotes none)
  | [] =>
    if isBlank c then some ([.word w], .start)
    else if c = 10 then some ([.word w, .newline], .start)
    else if isOperator c then some ([.word w], .operator [c])
    else if c = 39 then some ([], .word w [.single] none)
    else if c = 34 then some ([], .word w [.double] none)
    else if c = 92 ∨ c = 36 then some ([], .word w [] (some c))
    else if c = 96 then some ([], .word (w ++ [.active c]) [.back] none)
    else if isActive c then some ([], .word (w ++ [.active c]) [] none)
    else some ([], .word (w ++ [.lit c]) [] none)

/-- After a backslash. -/
def escaped (w : Word) (quotes : List Quote) (c : UInt16) : Step :=
  match quotes with
  | [] => if c = 10 then none else some ([], .word (w ++ [.lit c]) [] none)
  | .double :: rest =>
    if c = 36 ∨ c = 96 ∨ c = 34 ∨ c = 92 then some ([], .word (w ++ [piece rest c]) quotes none)
    else if c = 10 then some ([], .word w quotes none)
    else some ([], .word (w ++ [piece rest 92, piece rest c]) quotes none)
  | _ => some ([], .word (w ++ [.active 92, .active c]) quotes none)

/-- After a dollar sign. -/
def expanded (w : Word) (quotes : List Quote) (c : UInt16) : Step :=
  if c = 40 then some ([], .word (w ++ [.active 36, .active c]) (.paren :: quotes) none)
  else if c = 123 then some ([], .word (w ++ [.active 36, .active c]) (.brace :: quotes) none)
  else if (c = 39 ∨ c = 34) ∧ quotes.head? ≠ some .double then none
  else wordStep (w ++ [.active 36]) quotes c

/-- A character that no token goes on with. -/
def startStep (c : UInt16) : Step :=
  if isBlank c then some ([], .start)
  else if c = 10 then some ([.newline], .start)
  else if c = 35 then some ([], .comment)
  else if isOperator c then some ([], .operator [c])
  else wordStep [] [] c

def step (m : Mode) (c : UInt16) : Step :=
  match m with
  | .start => startStep c
  | .comment => if c = 10 then some ([.newline], .start) else some ([], .comment)
  | .operator o =>
    if o ++ [c] = js "<<" then none
    else if o ++ [c] ∈ operators then some ([], .operator (o ++ [c]))
    else (startStep c).map fun r => (.operator o :: r.1, r.2)
  | .word w quotes none => wordStep w quotes c
  | .word w quotes (some p) => if p = 92 then escaped w quotes c else expanded w quotes c

def run (m : Mode) : Text → Step
  | [] => some ([], m)
  | c :: t => (step m c).bind fun r => (run r.2 t).map fun r' => (r.1 ++ r'.1, r'.2)

/-- The end of the text. -/
def finish : Mode → Option (List Token)
  | .start | .comment => some []
  | .operator o => some [.operator o]
  | .word w [] none => some [.word w]
  | .word _ _ _ => none

def tokens (t : Text) : Option (List Token) :=
  (run .start t).bind fun r => (finish r.2).map fun ts => r.1 ++ ts

/-! ## Commands -/

/-- A newline, or a control operator. -/
def isSeparator : Token → Bool
  | .word _ => false
  | .operator o => (["&", "&&", "|", "||", ";", ";;", "(", ")"].map js).contains o
  | .newline => true

/-- The words and redirections of each command. -/
def commands (ts : List Token) : List (List Token) := (ts.splitOnP isSeparator).filter (· ≠ [])

def commandsOf (t : Text) : Option (List (List Token)) := (tokens t).map commands

/-! ## Laws -/

variable {m m' : Mode} {t t' : Text} {ts ts' : List Token}

theorem run_append (h : run m t = some (ts, m')) :
    run m (t ++ t') = (run m' t').map fun r => (ts ++ r.1, r.2) := by
  induction t generalizing m ts with
  | nil =>
    rw [run, Option.some.injEq, Prod.mk.injEq] at h
    obtain ⟨rfl, rfl⟩ := h
    simp
  | cons c t ih =>
    rw [run, Option.bind_eq_some_iff] at h
    obtain ⟨⟨new, m₁⟩, hStep, h⟩ := h
    obtain ⟨⟨rest, m₂⟩, hRun, h⟩ := Option.map_eq_some_iff.mp h
    rw [Prod.mk.injEq] at h
    obtain ⟨rfl, rfl⟩ := h
    rw [List.cons_append, run, hStep, Option.bind_some, ih hRun, Option.map_map]
    congr 1
    funext r
    exact congrArg (Prod.mk · r.2) (List.append_assoc new rest r.1).symm

theorem run_trans {m'' : Mode} (h : run m t = some (ts, m')) (h' : run m' t' = some (ts', m'')) :
    run m (t ++ t') = some (ts ++ ts', m'') := by
  rw [run_append h, h']
  rfl

theorem run_singleton (m : Mode) (c : UInt16) : run m [c] = step m c := by
  rw [run]
  cases step m c with
  | none => rfl
  | some r => simp [run]

theorem commands_append (ts ts' : List Token) :
    commands (ts ++ .newline :: ts') = commands ts ++ commands ts' := by
  have hNewline : isSeparator .newline = true := rfl
  rw [commands, List.splitOnP_append_cons ts ts' hNewline, List.filter_append]
  rfl

end TMEdge.Library.Shell
