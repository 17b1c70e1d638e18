import TMEdge.Library.Shell
import TMEdge.Sbatch.Render

/-!
# What the shell makes of a batch script

* `run_shQuote`: a quoted text is read as one word, wherever a word may start or go on.
* `reads_bodyLines`: the commands of a script, with the values in their places.
* `batch_script_sound`: the script of an accepted specification carries its values and nothing else.
-/

namespace TMEdge.Sbatch

open Library Library.Shell List

variable {m : Mode} {w : Word} {c d : UInt16} {s t : Text} {ts : List Token}

/-! ## Quoting -/

/-- A word that is this text, whatever is in it. -/
def literal (s : Text) : Word := s.map Piece.lit

theorem value_literal (s : Text) : value (literal s) = some s := by
  induction s with
  | nil => rfl
  | cons c s ih =>
    rw [literal, value, map_cons, mapM_cons]
    rw [literal, value] at ih
    rw [ih]
    rfl

theorem ne_of_isSafe (hc : isSafe c = true) (hd : isSafe d = false) : c ≠ d := by
  rintro rfl
  rw [hc] at hd
  cases hd

theorem wordStep_safe (hc : isSafe c = true) :
    wordStep w [] c = some ([], .word (w ++ [.lit c]) [] none) := by
  have hNe : ∀ d, isSafe d = false → c ≠ d := fun d => ne_of_isSafe hc
  have hBlank : isBlank c = false := by simp [isBlank, hNe 32 rfl, hNe 9 rfl]
  have hOperator : isOperator c = false := by
    simp [isOperator, hNe 38 rfl, hNe 40 rfl, hNe 41 rfl, hNe 59 rfl, hNe 60 rfl, hNe 62 rfl,
      hNe 124 rfl]
  have hActive : isActive c = false := by
    simp [isActive, hNe 33 rfl, hNe 42 rfl, hNe 63 rfl, hNe 91 rfl, hNe 93 rfl, hNe 94 rfl,
      hNe 123 rfl, hNe 125 rfl, hNe 126 rfl]
  simp [wordStep, hBlank, hOperator, hActive, hNe 10 rfl, hNe 39 rfl, hNe 34 rfl, hNe 92 rfl,
    hNe 36 rfl, hNe 96 rfl]

theorem run_safe (hs : s.all isSafe = true) :
    Shell.run (.word w [] none) s = some ([], .word (w ++ literal s) [] none) := by
  induction s generalizing w with
  | nil => simp [Shell.run, literal]
  | cons c s ih =>
    rw [all_cons, Bool.and_eq_true] at hs
    rw [Shell.run, step, wordStep_safe hs.1, Option.bind_some, ih hs.2]
    simp [literal]

/-- In single quotes, with the quotes themselves quoted otherwise. -/
theorem run_quoted (s : Text) :
    Shell.run (.word w [.single] none) (s.flatMap fun c => if c = 39 then quotedQuote else [c]) =
      some ([], .word (w ++ literal s) [.single] none) := by
  induction s generalizing w with
  | nil => simp [Shell.run, literal]
  | cons c s ih =>
    have hHead : Shell.run (.word w [.single] none) (if c = 39 then quotedQuote else [c]) =
        some ([], .word (w ++ [.lit c]) [.single] none) := by
      split
      · rename_i hQuote
        rw [hQuote]
        rfl
      · rename_i hOther
        rw [run_singleton, step, wordStep, if_neg hOther]
        rfl
    rw [flatMap_cons, run_trans hHead ih]
    simp [literal]

/-- From `m` on, the word `w` may go on. -/
def Enters (m : Mode) (w : Word) : Prop :=
  ∀ c, isBlank c = false → c ≠ 10 → c ≠ 35 → isOperator c = false → step m c = wordStep w [] c

theorem enters_start : Enters .start [] := by
  intro c hBlank hNewline hComment hOperator
  simp [step, startStep, hBlank, hNewline, hComment, hOperator]

theorem enters_word : Enters (.word w [] none) w := fun _ _ _ _ _ => rfl

theorem Enters.safe (hm : Enters m w) (hc : isSafe c = true) :
    step m c = some ([], .word (w ++ [.lit c]) [] none) := by
  have hNe : ∀ d, isSafe d = false → c ≠ d := fun d => ne_of_isSafe hc
  rw [hm c (by simp [isBlank, hNe 32 rfl, hNe 9 rfl]) (hNe 10 rfl) (hNe 35 rfl)
    (by simp [isOperator, hNe 38 rfl, hNe 40 rfl, hNe 41 rfl, hNe 59 rfl, hNe 60 rfl, hNe 62 rfl,
      hNe 124 rfl]), wordStep_safe hc]

theorem Enters.run_safe (hm : Enters m w) (hSome : s ≠ []) (hs : s.all isSafe = true) :
    Shell.run m s = some ([], .word (w ++ literal s) [] none) := by
  cases s with
  | nil => exact absurd rfl hSome
  | cons c s =>
    rw [all_cons, Bool.and_eq_true] at hs
    rw [Shell.run, hm.safe hs.1, Option.bind_some, Sbatch.run_safe hs.2]
    simp [literal]

theorem run_shQuote (hm : Enters m w) (s : Text) :
    Shell.run m (shQuote s) = some ([], .word (w ++ literal s) [] none) := by
  have hOpen : Shell.run m [39] = some ([], .word w [.single] none) := by
    rw [run_singleton, hm 39 rfl (by decide) (by decide) rfl]
    rfl
  rw [shQuote]
  split
  · rename_i hEmpty
    rw [hEmpty, literal, map_nil, append_nil]
    have hShut : Shell.run (.word w [.single] none) [39] = some ([], .word w [] none) := rfl
    exact run_trans hOpen hShut
  · rename_i hSome
    split
    · rename_i hSafe
      exact hm.run_safe hSome hSafe
    · exact run_trans (run_trans hOpen (run_quoted s)) rfl

/-! ## Lines -/

/-- The lines of a script, each with its end. -/
def joined (lines : List Text) : Text := lines.flatMap (· ++ [10])

theorem joined_append (l l' : List Text) : joined (l ++ l') = joined l ++ joined l' :=
  flatMap_append

theorem intercalate_end (lines : List Text) : List.intercalate [10] (lines ++ [[]]) = joined lines := by
  induction lines with
  | nil => rfl
  | cons l lines ih =>
    have hSome : lines ++ [[]] ≠ [] := append_ne_nil_of_right_ne_nil lines (cons_ne_nil _ _)
    obtain ⟨l', rest, hRest⟩ := exists_cons_of_ne_nil hSome
    rw [cons_append, hRest, intercalate_cons_cons, ← hRest, ih, joined, joined,
      flatMap_cons]

/-- Lines are read as commands, and what comes after them as further ones. -/
def Reads (lines : List Text) (cmds : List (List Token)) : Prop :=
  ∃ ts, Shell.run .start (joined lines) = some (ts, .start) ∧
    ∀ rest, commands (ts ++ rest) = cmds ++ commands rest

theorem Reads.append {l l' : List Text} {cmds cmds' : List (List Token)} (h : Reads l cmds)
    (h' : Reads l' cmds') : Reads (l ++ l') (cmds ++ cmds') := by
  obtain ⟨ts, hRun, hCommands⟩ := h
  obtain ⟨ts', hRun', hCommands'⟩ := h'
  refine ⟨ts ++ ts', by rw [joined_append]; exact run_trans hRun hRun', fun rest => ?_⟩
  rw [append_assoc, hCommands, hCommands', append_assoc]

theorem reads_nil : Reads [] [] := ⟨[], rfl, fun _ => rfl⟩

theorem reads_map {α : Type} {line : α → Text} {command : α → List Token} {l : List α}
    (h : ∀ a ∈ l, Reads [line a] [command a]) : Reads (l.map line) (l.map command) := by
  induction l with
  | nil => exact reads_nil
  | cons a l ih =>
    rw [forall_mem_cons] at h
    exact h.1.append (ih h.2)

theorem reads_line {line : Text} (ts : List Token)
    (h : Shell.run .start (line ++ [10]) = some (ts ++ [.newline], .start)) :
    Reads [line] (commands ts) := by
  refine ⟨ts ++ [.newline], by rwa [joined, flatMap_singleton], fun rest => ?_⟩
  rw [append_assoc, singleton_append, commands_append]

/-- The commands of lines that do not depend on a specification. -/
def fixed (lines : List Text) : List (List Token) :=
  match Shell.run .start (joined lines) with
  | some (ts, _) => commands ts
  | none => []

/-- Between two tokens at the end, after a newline. -/
def Complete (lines : List Text) : Bool :=
  match Shell.run .start (joined lines) with
  | some (ts, m) => ts.getLast? = some .newline && m = .start
  | none => false

theorem reads_fixed {lines : List Text} (h : Complete lines = true) : Reads lines (fixed lines) := by
  unfold Complete at h
  split at h
  · rename_i ts m hRun
    rw [Bool.and_eq_true, decide_eq_true_iff, decide_eq_true_iff] at h
    obtain ⟨hLast, rfl⟩ := h
    refine ⟨ts, hRun, fun rest => ?_⟩
    obtain ⟨front, rfl⟩ := getLast?_eq_some_iff.mp hLast
    have hFront : commands (front ++ [.newline]) = commands front := by
      rw [commands_append]
      exact append_nil _
    rw [fixed, hRun, append_assoc, singleton_append, commands_append]
    exact congrArg (· ++ commands rest) hFront.symm
  · cases h

/-- A comment is no command. -/
theorem reads_comment (h : 10 ∉ t) : Reads [35 :: t] [] := by
  have hComment : ∀ u : Text, 10 ∉ u → Shell.run .comment u = some ([], .comment) := by
    intro u hu
    induction u with
    | nil => rfl
    | cons c u ih =>
      rw [mem_cons, not_or] at hu
      rw [Shell.run, step, if_neg (Ne.symm hu.1), Option.bind_some, ih hu.2]
      rfl
  refine reads_line [] ?_
  have hOpen : Shell.run .start [35] = some ([], .comment) := rfl
  exact run_trans (run_trans hOpen (hComment t h)) rfl

/-! ## Commands with values -/

/-- A word of the script itself. -/
def plain (s : String) : Token := .word (literal (js s))

def loadCommand (module_ : Text) : List Token := [plain "module", plain "load", .word (literal module_)]

theorem commands_words (h : ∀ tok ∈ ts, isSeparator tok = false) (hSome : ts ≠ []) :
    commands ts = [ts] := by
  rw [commands, splitOnP_eq_singleton h]
  simp [hSome]

/-- One quoted value at the end of a line. -/
theorem reads_value {front : Text} (ts : List Token)
    (hFront : Shell.run .start front = some (ts, m)) (hm : Enters m w)
    (hWords : ∀ tok ∈ ts, isSeparator tok = false) (v : Text) :
    Reads [front ++ shQuote v] [ts ++ [.word (w ++ literal v)]] := by
  have hEnd : Shell.run m (shQuote v ++ [10]) = some ([.word (w ++ literal v), .newline], .start) :=
    run_trans (run_shQuote hm v) rfl
  have hLine : Shell.run .start (front ++ shQuote v ++ [10]) =
      some (ts ++ [.word (w ++ literal v)] ++ [.newline], .start) := by
    rw [append_assoc, append_assoc]
    exact run_trans hFront hEnd
  have hAll : ∀ tok ∈ ts ++ [.word (w ++ literal v)], isSeparator tok = false := by
    intro tok hTok
    rcases mem_append.mp hTok with hTok | hTok
    · exact hWords tok hTok
    · rw [mem_singleton.mp hTok]
      rfl
  have hReads := reads_line _ hLine
  rwa [commands_words hAll (by simp)] at hReads

theorem reads_load (v : Text) : Reads [js "module load " ++ shQuote v] [loadCommand v] :=
  reads_value [plain "module", plain "load"] (by decide +kernel) enters_start
    (by simp [plain, isSeparator]) v

def activateCommand (e : Text) : List Token :=
  [plain "conda", plain "activate", .word (literal e)]

theorem reads_activate (v : Text) : Reads [js "conda activate " ++ shQuote v] [activateCommand v] :=
  reads_value [plain "conda", plain "activate"] (by decide +kernel) enters_start
    (by simp [plain, isSeparator]) v

def exportCommand (e : Text × Text) : List Token :=
  [plain "export", .word (literal (e.1 ++ [61] ++ e.2))]

theorem reads_export {e : Text × Text} (hSafe : e.1.all isSafe = true) :
    Reads [exportLine e] [exportCommand e] := by
  have hKey : (e.1 ++ [61]).all isSafe = true := by
    rw [all_append, hSafe]
    rfl
  have hExport : Shell.run .start (js "export ") = some ([plain "export"], .start) := by decide +kernel
  have hFront : Shell.run .start (js "export " ++ e.1 ++ [61]) =
      some ([plain "export"], .word (literal (e.1 ++ [61])) [] none) := by
    rw [append_assoc]
    exact run_trans hExport (enters_start.run_safe (by simp) hKey)
  have hReads := reads_value _ hFront enters_word (by simp [plain, isSeparator]) e.2
  have hWord : literal (e.1 ++ [61]) ++ literal e.2 = literal (e.1 ++ [61] ++ e.2) :=
    map_append.symm
  rw [hWord] at hReads
  exact hReads

/-- Each value after a blank, up to the end of the line. -/
theorem run_values (values : List Text) :
    Shell.run (.word w [] none) (values.flatMap (fun v => 32 :: shQuote v) ++ [10]) =
      some (.word w :: values.map (fun v => .word (literal v)) ++ [.newline], .start) := by
  induction values generalizing w with
  | nil => rfl
  | cons v values ih =>
    have hBlank : Shell.run (.word w [] none) [32] = some ([.word w], .start) := rfl
    have hRest := run_trans hBlank (run_trans (run_shQuote enters_start v) (ih (w := literal v)))
    rw [flatMap_cons, append_assoc]
    exact hRest

theorem intercalate_blank (l : Text) (rest : List Text) :
    List.intercalate [32] (l :: rest) = l ++ rest.flatMap fun t => 32 :: t := by
  induction rest generalizing l with
  | nil => simp
  | cons t rest ih =>
    rw [intercalate_cons_cons, ih, flatMap_cons]
    simp

/-- The variable that the script has found the interpreter for. -/
def pythonBin : Token := .word (.active 36 :: literal (js "python_bin"))

def srunCommand (entrypoint : Text) (args : List Text) : List Token :=
  [plain "srun", plain "--ntasks=1", pythonBin, plain "-u"] ++
    (entrypoint :: args).map fun v => .word (literal v)

theorem reads_srun (entrypoint : Text) (args : List Text) :
    Reads [srunLine entrypoint args] [srunCommand entrypoint args] := by
  have hFront : Shell.run .start (js "srun --ntasks=1 \"$python_bin\" -u") =
      some ([plain "srun", plain "--ntasks=1", pythonBin], .word (literal (js "-u")) [] none) := by
    decide +kernel
  have hSplit : srunLine entrypoint args = js "srun --ntasks=1 \"$python_bin\" -u" ++
      (entrypoint :: args).flatMap fun v => 32 :: shQuote v := by
    rw [srunLine, cons_append, intercalate_blank, flatMap_def, flatMap_def]
    simp [Function.comp_def]
  have hLine := run_trans hFront (run_values (w := literal (js "-u")) (entrypoint :: args))
  rw [← append_assoc, ← hSplit] at hLine
  have hReads := reads_line (srunCommand entrypoint args) hLine
  rwa [commands_words ?_ (by simp [srunCommand])] at hReads
  intro tok hTok
  rcases mem_append.mp hTok with hTok | hTok
  · have hFixed : ∀ tok ∈ [plain "srun", plain "--ntasks=1", pythonBin, plain "-u"],
        isSeparator tok = false := by decide +kernel
    exact hFixed tok hTok
  · obtain ⟨v, -, rfl⟩ := mem_map.mp hTok
    rfl

/-! ## The script -/

def moduleCommands (modules : List Text) : List (List Token) :=
  if 0 < modules.length then fixed [js "module purge"] ++ modules.map loadCommand else []

def sourceLine : Text := js "source \"$(conda info --base)/etc/profile.d/conda.sh\""

def condaCommands : Option Text → List (List Token)
  | some e => fixed [sourceLine] ++ [activateCommand e]
  | none => []

def environmentCommands (spec : JobSpec) : List (List Token) :=
  if 0 < spec.modules.length ∨ spec.condaEnv.isSome then
    fixed softLines ++ moduleCommands spec.modules ++ condaCommands spec.condaEnv ++
      fixed [js "set -u"]
  else []

/-- The commands of a specification, with its values as words. -/
def scriptCommands (spec : JobSpec) : List (List Token) :=
  fixed strictLines ++ environmentCommands spec ++ spec.env.map exportCommand ++
    fixed pythonLines ++ [srunCommand spec.entrypoint spec.args]

theorem reads_moduleLines (modules : List Text) :
    Reads (moduleLines modules) (moduleCommands modules) := by
  have hPurge : Reads [js "module purge"] (fixed [js "module purge"]) :=
    reads_fixed (by decide +kernel)
  rw [moduleLines, moduleCommands]
  split
  · exact hPurge.append (reads_map fun v _ => reads_load v)
  · exact reads_nil

theorem reads_condaLines (condaEnv : Option Text) :
    Reads (condaLines condaEnv) (condaCommands condaEnv) := by
  have hSource : Reads [sourceLine] (fixed [sourceLine]) := reads_fixed (by decide +kernel)
  cases condaEnv with
  | none => exact reads_nil
  | some e => exact hSource.append (reads_activate e)

theorem reads_environmentLines (spec : JobSpec) :
    Reads (environmentLines spec) (environmentCommands spec) := by
  have hSoft : Reads softLines (fixed softLines) := reads_fixed (by decide +kernel)
  have hStrict : Reads [js "set -u"] (fixed [js "set -u"]) := reads_fixed (by decide +kernel)
  rw [environmentLines, environmentCommands]
  split
  · exact ((hSoft.append (reads_moduleLines _)).append (reads_condaLines _)).append hStrict
  · exact reads_nil

theorem reads_bodyLines {spec : JobSpec} (hEnv : ∀ e ∈ spec.env, e.1.all isSafe = true) :
    Reads (bodyLines spec) (scriptCommands spec) := by
  have hStrict : Reads strictLines (fixed strictLines) := reads_fixed (by decide +kernel)
  have hPython : Reads pythonLines (fixed pythonLines) := reads_fixed (by decide +kernel)
  have hExports : Reads (spec.env.map exportLine) (spec.env.map exportCommand) :=
    reads_map fun e he => reads_export (hEnv e he)
  exact (((hStrict.append (reads_environmentLines spec)).append hExports).append hPython).append
    (reads_srun _ _)

/-! ## What a specification may have -/

/-- What the script relies on, beside the quotes. -/
structure Inert (spec : JobSpec) : Prop where
  name : isName spec.name = true
  partition : isPartition spec.partition = true
  timeLimit : (parseTimeLimit spec.timeLimit).isSome
  env : ∀ e ∈ spec.env, isEnvKey e.1 = true
  notifyEmail : spec.notifyEmail = false

theorem all_of_matchesHead {first rest kind : UInt16 → Bool} {n : Nat}
    (h : matchesHead first rest n t = true) (hFirst : ∀ c, first c = true → kind c = true)
    (hRest : ∀ c, rest c = true → kind c = true) : t.all kind = true := by
  cases t with
  | nil => rfl
  | cons c t =>
    rw [matchesHead, Bool.and_eq_true, Bool.and_eq_true] at h
    rw [all_cons, hFirst c h.1.1, Bool.true_and, all_eq_true]
    exact fun d hd => hRest d (all_eq_true.mp h.2 d hd)

theorem env_safe {key : Text} (h : isEnvKey key = true) : key.all isSafe = true := by
  refine all_of_matchesHead h (fun c hc => ?_) fun c hc => ?_
  · simp only [isSafe, isWordChar, isLetter, Bool.or_eq_true] at hc ⊢
    tauto
  · simp only [isSafe, isWordChar, isLetter, Bool.or_eq_true] at hc ⊢
    tauto

theorem newline_notMem (h : t.all isSafe = true) : 10 ∉ t := fun hMem => by
  have hNewline := all_eq_true.mp h 10 hMem
  cases hNewline

theorem name_safe (h : isName t = true) : t.all isSafe = true := by
  refine all_of_matchesHead h (fun c hc => ?_) fun c hc => ?_ <;>
  · simp only [isSafe, Bool.or_eq_true, beq_iff_eq] at hc ⊢
    rcases hc with hc | rfl
    · exact .inl hc
    · exact .inr rfl

theorem partition_safe (h : isPartition t = true) : t.all isSafe = true := by
  refine all_of_matchesHead h (fun c hc => ?_) fun c hc => ?_
  · simp only [isSafe, isWordChar, Bool.or_eq_true] at hc ⊢
    tauto
  · simp only [isSafe, Bool.or_eq_true, beq_iff_eq] at hc ⊢
    rcases hc with hc | rfl
    · exact .inl hc
    · exact .inr rfl

theorem digits_of_readDigits {lo hi n : Nat} (h : readDigits lo hi t = some n) :
    t.all isDigit = true := by
  unfold readDigits at h
  split at h
  · rename_i hAll
    exact hAll.2.2
  · cases h

theorem timeLimit_newline (h : (parseTimeLimit t).isSome) : 10 ∉ t := by
  obtain ⟨seconds, h⟩ := Option.isSome_iff_exists.mp h
  have hDigits : ∀ {u : Text}, u.all isDigit = true → 10 ∉ u := fun hu hMem => by
    have hNewline := all_eq_true.mp hu 10 hMem
    cases hNewline
  unfold parseTimeLimit at h
  split at h
  · rename_i front minutes secs hSplit
    obtain ⟨mi, hMinutes, h⟩ := Option.bind_eq_some_iff.mp h
    obtain ⟨se, hSeconds, h⟩ := Option.bind_eq_some_iff.mp h
    split at h
    · cases h
    have hFront : 10 ∉ front := by
      split at h
      · rename_i days hours hDays
        obtain ⟨d, hD, h⟩ := Option.bind_eq_some_iff.mp h
        obtain ⟨hh, hH, -⟩ := Option.bind_eq_some_iff.mp h
        intro hMem
        obtain ⟨part, hPart, hIn⟩ := Text.exists_mem_splitOn (d := 45) hMem (by decide)
        rw [hDays, mem_cons, mem_singleton] at hPart
        rcases hPart with rfl | rfl
        · exact hDigits (digits_of_readDigits hD) hIn
        · exact hDigits (digits_of_readDigits hH) hIn
      · rename_i hours hHours
        obtain ⟨hh, hH, -⟩ := Option.bind_eq_some_iff.mp h
        intro hMem
        obtain ⟨part, hPart, hIn⟩ := Text.exists_mem_splitOn (d := 45) hMem (by decide)
        rw [hHours, mem_singleton] at hPart
        exact hDigits (digits_of_readDigits hH) (hPart ▸ hIn)
      · cases h
    intro hMem
    obtain ⟨part, hPart, hIn⟩ := Text.exists_mem_splitOn (d := 58) hMem (by decide)
    rw [hSplit, mem_cons, mem_cons, mem_singleton] at hPart
    rcases hPart with rfl | rfl | rfl
    · exact hFront hIn
    · exact hDigits (digits_of_readDigits hMinutes) hIn
    · exact hDigits (digits_of_readDigits hSeconds) hIn
  · cases h

section accepted

variable {stringify : Json → Text} {cfg : HpcConfig} {files : List Text} {o : List (Text × Json)}
  {raw : Json} {spec : JobSpec}

theorem name_of_check (h : checkName o = []) : isName (asText (field o "name")) = true := by
  unfold checkName at h
  split at h
  · rename_i name hName
    rw [hName, asText]
    by_contra hNot
    rw [if_neg hNot] at h
    cases h
  · cases h

theorem partition_of_check (h : checkPartition cfg o = []) :
    isPartition (asText (field o "partition")) = true := by
  unfold checkPartition at h
  split at h
  · rename_i p hp
    unfold partitionOf at hp
    split at hp
    · rename_i name hName
      rw [hName, asText]
      have hEq := find?_some hp
      rw [decide_eq_true_iff] at hEq
      exact hEq ▸ p.name_ok
    · cases hp
  · cases h

theorem timeLimit_of_check (h : checkTimeLimit cfg o = []) :
    (parseTimeLimit (asText (field o "timeLimit"))).isSome := by
  unfold checkTimeLimit at h
  split at h
  · cases h
  · rename_i hTime _
    rw [hTime]
    rfl
  · rename_i hTime _
    rw [hTime]
    rfl

theorem env_of_check (h : checkEnv stringify o = []) : ∀ e ∈ envOf o, isEnvKey e.1 = true := by
  have hVariables : ∀ l : List (Text × Json), checkVariables stringify l = [] →
      ∀ e ∈ l, isEnvKey e.1 = true := by
    intro l hl
    induction l with
    | nil => nofun
    | cons e l ih =>
      rw [checkVariables] at hl
      split at hl
      · cases hl
      · rename_i hKey
        split at hl
        · cases hl
        · exact forall_mem_cons.mpr ⟨by simpa using hKey, ih hl⟩
  unfold checkEnv at h
  unfold envOf
  split at h
  · intro e he
    obtain ⟨entry, hEntry, rfl⟩ := mem_map.mp he
    exact hVariables _ (append_eq_nil_iff.mp h).2 entry hEntry
  · cases h

theorem notifyEmail_of_check (h : checkNotifyEmail o = []) : (specOf o).notifyEmail = false := by
  unfold checkNotifyEmail at h
  rw [specOf]
  split at h
  · cases h
  · rename_i hMail
    simp only [hMail]
  · cases h

theorem inert_of_validateSpec (h : validateSpec stringify raw cfg files = .ok spec) : Inert spec := by
  unfold validateSpec at h
  split at h
  · dsimp only at h
    split at h
    · rename_i o hNone
      cases h
      simp only [problemsOf, append_eq_nil_iff] at hNone
      obtain ⟨⟨⟨⟨⟨⟨⟨⟨⟨⟨⟨⟨-, hName⟩, hPartition⟩, -⟩, -⟩, -⟩, hTime⟩, -⟩, -⟩, -⟩, -⟩, hEnv⟩, hMail⟩ := hNone
      exact ⟨name_of_check hName, partition_of_check hPartition, timeLimit_of_check hTime,
        env_of_check hEnv, notifyEmail_of_check hMail⟩
    · cases h
  · cases h

end accepted

/-! ## Directives -/

/-- The directives that `sbatch` reads: those before the first line that is no comment. -/
def directives (script : Text) : List Text :=
  ((script.splitOn 10).takeWhile fun l => l.all isBlank || l.head? == some 35).filter fun l =>
    (js "#SBATCH").isPrefixOf l

theorem splitOn_joined {lines : List Text} (h : ∀ l ∈ lines, 10 ∉ l) (rest : Text) :
    (joined lines ++ rest).splitOn 10 = lines ++ rest.splitOn 10 := by
  induction lines with
  | nil => rfl
  | cons l lines ih =>
    rw [forall_mem_cons] at h
    have hSplit : joined (l :: lines) ++ rest = l ++ 10 :: (joined lines ++ rest) := by
      simp [joined]
    rw [hSplit, splitOn_eq_splitOnP, splitOnP_append_cons _ _ (by simp),
      ← splitOn_eq_splitOnP, ← splitOn_eq_splitOnP, ih h.2]
    have hAlone : l.splitOn 10 = [l] := by
      rw [splitOn_eq_splitOnP]
      exact splitOnP_eq_singleton fun c hc => beq_eq_false_iff_ne.mpr fun hEq => h.1 (hEq ▸ hc)
    rw [hAlone]
    rfl

theorem directives_joined {header : List Text} {command : Text} {rest : List Text}
    (hHeader : ∀ l ∈ header, 10 ∉ l ∧ (l.all isBlank || l.head? == some 35) = true)
    (hNewline : 10 ∉ command) (hCommand : (command.all isBlank || command.head? == some 35) = false) :
    directives (joined (header ++ command :: rest)) =
      header.filter fun l => (js "#SBATCH").isPrefixOf l := by
  have hSplit : joined (header ++ command :: rest) = joined (header ++ [command]) ++ joined rest := by
    rw [← joined_append, append_assoc]
    rfl
  have hLines : ∀ l ∈ header ++ [command], 10 ∉ l := by
    intro l hl
    rcases mem_append.mp hl with hl | hl
    · exact (hHeader l hl).1
    · exact mem_singleton.mp hl ▸ hNewline
  rw [directives, hSplit, splitOn_joined hLines, append_assoc,
    takeWhile_append_of_pos fun l hl => (hHeader l hl).2, singleton_append,
    takeWhile_cons_of_neg (by rw [hCommand]; decide), append_nil]

/-- A line that `sbatch` reads, and a comment to the shell. -/
def IsDirective (l : Text) : Prop := js "#SBATCH" <+: l ∧ 10 ∉ l

theorem isDirective_append {front v : Text} (hFront : IsDirective front) (hv : 10 ∉ v) :
    IsDirective (front ++ v) := by
  refine ⟨hFront.1.trans (prefix_append front v), fun hMem => ?_⟩
  rcases mem_append.mp hMem with hMem | hMem
  · exact hFront.2 hMem
  · exact hv hMem

instance (l : Text) : Decidable (IsDirective l) := inferInstanceAs (Decidable (_ ∧ _))

theorem isDirective_directivesOf {name partition timeLimit : Text} (cpusPerTask memGb gpus : Nat)
    (hName : 10 ∉ name) (hPartition : 10 ∉ partition) (hTime : 10 ∉ timeLimit) :
    ∀ l ∈ directivesOf name partition timeLimit cpusPerTask memGb gpus, IsDirective l := by
  have hDecimal : ∀ n, 10 ∉ Text.decimal n := fun n hMem =>
    absurd (Text.decimal_digits hMem).1 (by decide)
  have hGpus : ∀ l ∈ (if 0 < gpus then [js "#SBATCH --gres=gpu:" ++ Text.decimal gpus] else []),
      IsDirective l := by
    intro l hl
    split at hl
    · rw [mem_singleton.mp hl]
      exact isDirective_append (by decide +kernel) (hDecimal gpus)
    · cases hl
  simp only [directivesOf, forall_mem_append, forall_mem_cons]
  refine ⟨⟨⟨?_, ?_, ?_, ?_, ?_, ?_, ?_, nofun⟩, hGpus⟩, ?_, ?_, nofun⟩
  · exact isDirective_append (by decide +kernel) hName
  · exact isDirective_append (by decide +kernel) hPartition
  · exact isDirective_append (by decide +kernel) hTime
  · decide +kernel
  · decide +kernel
  · exact isDirective_append (by decide +kernel) (hDecimal cpusPerTask)
  · exact isDirective_append (isDirective_append (by decide +kernel) (hDecimal memGb))
      (by decide +kernel)
  · decide +kernel
  · decide +kernel

theorem IsDirective.comment {l : Text} (h : IsDirective l) : ∃ t, l = 35 :: t ∧ 10 ∉ t := by
  obtain ⟨⟨t, rfl⟩, hNewline⟩ := h
  refine ⟨_, rfl, fun hMem => hNewline (mem_cons_of_mem 35 hMem)⟩

/-! ## Kinds of commands -/

/-- The first word of a command, and how many words and redirections it has. -/
def kind (command : List Token) : Option Token × Nat := (command.head?, command.length)

/-- The commands of a script, by how many of each there are. -/
def kindsOf (modules : Nat) (conda : Bool) (env args : Nat) : List (Option Token × Nat) :=
  (fixed strictLines).map kind ++
  (if 0 < modules ∨ conda then
    (fixed softLines).map kind ++
    (if 0 < modules then
      (fixed [js "module purge"]).map kind ++ List.replicate modules (some (plain "module"), 3)
    else []) ++
    (if conda then (fixed [sourceLine]).map kind ++ [(some (plain "conda"), 3)] else []) ++
    (fixed [js "set -u"]).map kind
  else []) ++
  List.replicate env (some (plain "export"), 2) ++ (fixed pythonLines).map kind ++
  [(some (plain "srun"), 5 + args)]

theorem map_kind_const {α : Type} {command : α → List Token} {k : Option Token × Nat} (l : List α)
    (h : ∀ a, kind (command a) = k) : (l.map command).map kind = List.replicate l.length k := by
  rw [map_map, ← map_const']
  exact map_congr_left fun a _ => h a

theorem kinds_scriptCommands (spec : JobSpec) : (scriptCommands spec).map kind =
    kindsOf spec.modules.length spec.condaEnv.isSome spec.env.length spec.args.length := by
  have hLoad : ∀ v, kind (loadCommand v) = (some (plain "module"), 3) := fun _ => rfl
  have hExport : ∀ e, kind (exportCommand e) = (some (plain "export"), 2) := fun _ => rfl
  have hModules : (moduleCommands spec.modules).map kind = if 0 < spec.modules.length then
      (fixed [js "module purge"]).map kind ++
        List.replicate spec.modules.length (some (plain "module"), 3) else [] := by
    rw [moduleCommands]
    split
    · rw [map_append, map_kind_const _ hLoad]
    · rfl
  have hConda : (condaCommands spec.condaEnv).map kind = if spec.condaEnv.isSome = true then
      (fixed [sourceLine]).map kind ++ [(some (plain "conda"), 3)] else [] := by
    cases spec.condaEnv with
    | none => rfl
    | some e => exact map_append
  have hEnvironment : (environmentCommands spec).map kind =
      if 0 < spec.modules.length ∨ spec.condaEnv.isSome = true then
        (fixed softLines).map kind ++ (moduleCommands spec.modules).map kind ++
          (condaCommands spec.condaEnv).map kind ++ (fixed [js "set -u"]).map kind
      else [] := by
    rw [environmentCommands]
    split
    · rw [map_append, map_append, map_append]
    · rfl
  have hSrun : kind (srunCommand spec.entrypoint spec.args) =
      (some (plain "srun"), 5 + spec.args.length) := by
    rw [kind, srunCommand, length_append, length_map, length_cons]
    simp only [length_cons, length_nil, cons_append, head?_cons, Prod.mk.injEq,
      true_and]
    omega
  rw [scriptCommands, map_append, map_append, map_append, map_append,
    hEnvironment, hModules, hConda, map_kind_const _ hExport,
    map_singleton, hSrun]
  rfl

/-! ## The whole script -/

/-- Any script of an accepted specification. -/
structure Carries (spec : JobSpec) (script : Text) : Prop where
  commands : commandsOf script = some (scriptCommands spec)
  kinds : (scriptCommands spec).map kind =
    kindsOf spec.modules.length spec.condaEnv.isSome spec.env.length spec.args.length
  directives : directives script = directivesOf spec.name spec.partition spec.timeLimit
    spec.cpusPerTask spec.memGb spec.gpus

theorem carries_of_inert {spec : JobSpec} (h : Inert spec) (mailUser : Option Text) :
    ∃ script, renderSbatch spec mailUser = some script ∧ Carries spec script := by
  let header := js "#!/bin/bash" :: directivesOf spec.name spec.partition spec.timeLimit
    spec.cpusPerTask spec.memGb spec.gpus ++ [[]]
  have hDirectives := isDirective_directivesOf spec.cpusPerTask spec.memGb spec.gpus
    (newline_notMem (name_safe h.name)) (newline_notMem (partition_safe h.partition))
    (timeLimit_newline h.timeLimit)
  have hRender : renderSbatch spec mailUser = some (joined (header ++ bodyLines spec)) := by
    have hMail : mailLines spec mailUser = some [] := by
      unfold mailLines
      rw [h.notifyEmail]
      rfl
    rw [renderSbatch, hMail, ← intercalate_end]
    simp only [header, Option.bind_eq_bind, Option.bind_some, append_assoc,
      cons_append, nil_append]
  have hReads : Reads header [] := by
    have hComments : ∀ l : List Text, (∀ a ∈ l, IsDirective a) → Reads l [] := by
      intro l hl
      induction l with
      | nil => exact reads_nil
      | cons a l ih =>
        rw [forall_mem_cons] at hl
        obtain ⟨t, rfl, hNewline⟩ := hl.1.comment
        exact (reads_comment hNewline).append (ih hl.2)
    have hBang : Reads [js "#!/bin/bash"] [] := reads_fixed (by decide +kernel)
    have hEmpty : Reads [[]] [] := reads_fixed (by decide +kernel)
    exact (hBang.append (hComments _ hDirectives)).append hEmpty
  obtain ⟨ts, hRun, hCommands⟩ := hReads.append (reads_bodyLines fun e he => env_safe (h.env e he))
  refine ⟨_, hRender, ?_, kinds_scriptCommands spec, ?_⟩
  · rw [commandsOf, tokens, hRun]
    have hAll := hCommands []
    rw [append_nil, nil_append] at hAll
    change some (commands (ts ++ [])) = _
    rw [append_nil, hAll]
    exact congrArg some (append_nil _)
  · have hFirst : bodyLines spec = js "set -euo pipefail" :: (bodyLines spec).tail := rfl
    rw [hFirst, directives_joined ?_ (by decide +kernel) (by decide +kernel)]
    · have hBang : (js "#SBATCH").isPrefixOf (js "#!/bin/bash") = false := by decide +kernel
      rw [filter_append, filter_cons_of_neg (by rw [hBang]; decide), filter_eq_self.mpr
        fun l hl => isPrefixOf_iff_prefix.mpr (hDirectives l hl).1]
      exact append_nil _
    · intro l hl
      rw [mem_append, mem_cons, mem_singleton] at hl
      rcases hl with (rfl | hl) | rfl
      · decide +kernel
      · obtain ⟨t, rfl, hNewline⟩ := (hDirectives l hl).comment
        exact ⟨(hDirectives _ hl).2, Bool.or_true _⟩
      · decide +kernel

/-- A quoted text is one word, and the script of an accepted specification carries its values. -/
theorem batch_script_sound {stringify : Json → Text} {raw : Json} {cfg : HpcConfig}
    {files : List Text} {spec : JobSpec} (h : validateSpec stringify raw cfg files = .ok spec) :
    (∀ (s front : Text) (ts : List Token), Shell.run .start front = some (ts, .start) →
      (∀ c, isBlank c = true →
        Shell.run .start (front ++ shQuote s ++ [c]) = some (ts ++ [.word (literal s)], .start)) ∧
      Shell.run .start (front ++ shQuote s ++ [10]) = some (ts ++ [.word (literal s), .newline], .start) ∧
      tokens (front ++ shQuote s) = some (ts ++ [.word (literal s)]) ∧
      value (literal s) = some s) ∧
    ∀ mailUser, ∃ script, renderSbatch spec mailUser = some script ∧ Carries spec script := by
  refine ⟨fun s front ts hFront => ?_, carries_of_inert (inert_of_validateSpec h)⟩
  have hQuote : Shell.run .start (front ++ shQuote s) = some (ts, .word (literal s) [] none) := by
    have hRun := run_trans hFront (run_shQuote enters_start s)
    rwa [List.append_nil, List.nil_append] at hRun
  refine ⟨fun c hc => ?_, run_trans hQuote rfl, ?_, value_literal s⟩
  · refine run_trans hQuote ?_
    rw [run_singleton, step, wordStep, if_pos hc]
  · rw [tokens, hQuote]
    rfl

/-! ## A job with hostile values -/

def cpuConfig : HpcConfig where
  partitions :=
    [{ name := js "cpu", maxSeconds := 172800, maxTime := js "2-00:00:00", gpu := false,
       maxGpus := 0, name_ok := by decide }]
  modules := [js "anaconda3"]
  modules_ok := by decide

def hostileFields : List (Text × Json) :=
  [(js "name", .string (js "occupancy_gbc")), (js "partition", .string (js "cpu")),
    (js "cpusPerTask", .number 4), (js "memGb", .number 16), (js "gpus", .number 0),
    (js "timeLimit", .string (js "2:00:00")), (js "modules", .array [.string (js "anaconda3")]),
    (js "condaEnv", .null), (js "entrypoint", .string (js "we'ird $(x).py")),
    (js "args", .array [.string (js "'; id #\n#SBATCH --gres=gpu:8")]),
    (js "env", .object [(js "NOTE", .string (js "`id`"))]), (js "notifyEmail", .bool false)]

theorem batch_script_sound_hostile : ∃ script,
    validateSpec (fun _ => []) (.object hostileFields) cpuConfig [js "we'ird $(x).py"] =
        .ok (specOf hostileFields) ∧
      renderSbatch (specOf hostileFields) none = some script ∧
      Carries (specOf hostileFields) script ∧
      srunCommand (js "we'ird $(x).py") [js "'; id #\n#SBATCH --gres=gpu:8"] ∈
        scriptCommands (specOf hostileFields) := by
  have hAccepted : validateSpec (fun _ => []) (.object hostileFields) cpuConfig
      [js "we'ird $(x).py"] = .ok (specOf hostileFields) := by
    rw [validateSpec]
    exact if_pos (by decide +kernel)
  obtain ⟨script, hScript, hCarries⟩ := (batch_script_sound hAccepted).2 none
  have hArgs : (specOf hostileFields).args = [js "'; id #\n#SBATCH --gres=gpu:8"] := by
    decide +kernel
  have hEntrypoint : (specOf hostileFields).entrypoint = js "we'ird $(x).py" := by decide +kernel
  refine ⟨script, hAccepted, hScript, hCarries, List.mem_append_right _ ?_⟩
  rw [hArgs, hEntrypoint]
  exact List.mem_singleton_self _

end TMEdge.Sbatch
