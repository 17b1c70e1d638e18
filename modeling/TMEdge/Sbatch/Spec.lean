import TMEdge.Library.Decimal
import TMEdge.Library.Json

/-!
# What a training job asks for

`validateSpec` of `src/algo/train/spec.ts`, with `parseTimeLimit` and the names that
`src/algo/train/config.ts` lets a config have. `JSON.stringify`, which two messages use, is a parameter;
the fields of a config that no job is checked against are left out.
-/

namespace TMEdge.Sbatch

open Library

/-! ## Patterns -/

def isDigit (c : UInt16) : Bool := 48 ≤ c && c ≤ 57

def isUpper (c : UInt16) : Bool := 65 ≤ c && c ≤ 90

def isLetter (c : UInt16) : Bool := isUpper c || (97 ≤ c && c ≤ 122)

/-- `\w` -/
def isWordChar (c : UInt16) : Bool := isLetter c || isDigit c || c == 95

/-- One character of a kind, and up to `n` of another. -/
def matchesHead (first rest : UInt16 → Bool) (n : Nat) : Text → Bool
  | [] => false
  | c :: t => first c && t.length ≤ n && t.all rest

/-- `PARTITION` -/
def isPartition (t : Text) : Bool :=
  matchesHead (fun c => isLetter c || isDigit c) (fun c => isWordChar c || c == 45) 31 t

/-- `MODULE` -/
def isModule (t : Text) : Bool :=
  matchesHead (fun c => isLetter c || isDigit c)
    (fun c => isWordChar c || [45, 46, 43, 47].contains c) 63 t

/-- `NAME` -/
def isName (t : Text) : Bool :=
  matchesHead (fun c => isWordChar c || c == 45) (fun c => isWordChar c || c == 45) 39 t

/-- `CONDA` -/
def isConda (t : Text) : Bool :=
  matchesHead isWordChar (fun c => isWordChar c || [45, 46].contains c) 63 t

/-- `ENV_KEY` -/
def isEnvKey (t : Text) : Bool :=
  matchesHead (fun c => isUpper c || c == 95) (fun c => isUpper c || isDigit c || c == 95) 63 t

def number (t : Text) : Nat := t.foldl (fun n c => 10 * n + (c.toNat - 48)) 0

/-- From `lo` to `hi` digits. -/
def readDigits (lo hi : Nat) (t : Text) : Option Nat :=
  if lo ≤ t.length ∧ t.length ≤ hi ∧ t.all isDigit then some (number t) else none

def positive (t : Nat) : Option Nat := if 0 < t then some t else none

/-- `D-HH:MM:SS` or `H:MM:SS`, more than zero. -/
def parseTimeLimit (s : Text) : Option Nat :=
  match s.splitOn 58 with
  | [front, minutes, seconds] => do
    let mi ← readDigits 2 2 minutes
    let se ← readDigits 2 2 seconds
    if 59 < mi ∨ 59 < se then none
    else
      match front.splitOn 45 with
      | [days, hours] => do
        let d ← readDigits 1 2 days
        let h ← readDigits 2 2 hours
        if 23 < h then none else positive (((d * 24 + h) * 60 + mi) * 60 + se)
      | [hours] => do
        let h ← readDigits 1 3 hours
        positive ((h * 60 + mi) * 60 + se)
      | _ => none
  | _ => none

/-! ## Configuration -/

structure Partition where
  name : Text
  maxSeconds : Nat
  maxTime : Text
  gpu : Bool
  maxGpus : Nat
  name_ok : isPartition name = true

structure HpcConfig where
  partitions : List Partition
  modules : List Text
  modules_ok : ∀ m ∈ modules, isModule m = true

/-! ## The specification -/

structure JobSpec where
  name : Text
  partition : Text
  cpusPerTask : Nat
  memGb : Nat
  gpus : Nat
  timeLimit : Text
  modules : List Text
  condaEnv : Option Text
  entrypoint : Text
  args : List Text
  env : List (Text × Text)
  notifyEmail : Bool

structure Problem where
  field : Text
  message : Text
  deriving DecidableEq

def specFields : List Text :=
  ["name", "partition", "cpusPerTask", "memGb", "gpus", "timeLimit", "modules", "condaEnv",
    "entrypoint", "args", "env", "notifyEmail"].map js

def maxArgs : Nat := 64
def maxArgLength : Nat := 256
def maxEnv : Nat := 32
def maxEnvValue : Nat := 1024

def isHigh (c : UInt16) : Bool := 0xD800 ≤ c && c ≤ 0xDBFF
def isLow (c : UInt16) : Bool := 0xDC00 ≤ c && c ≤ 0xDFFF

/-- `LONE_SURROGATE` matches. -/
def loneSurrogate : Text → Bool
  | [] => false
  | [c] => isHigh c || isLow c
  | c :: d :: t =>
    if isHigh c then if isLow d then loneSurrogate t else true
    else isLow c || loneSurrogate (d :: t)

/-- Text that bash can carry in single quotes. -/
def shellSafeText (s : Text) : Bool := !s.contains 0 && !loneSurrogate s

def isInt (v : Option Json) (lo hi : Nat) : Option Nat :=
  match v with
  | some (.number x) => if x.den = 1 ∧ lo ≤ x ∧ x ≤ hi then some x.num.toNat else none
  | _ => none

def asText : Option Json → Text
  | some (.string t) => t
  | _ => []

def asTexts : Option Json → List Text
  | some (.array l) => l.map fun v => asText (some v)
  | _ => []

def bad (field : String) (message : Text) : List Problem := [⟨js field, message⟩]

/-- How `Set` compares what `JSON.parse` gives. -/
def sameValue : Json → Json → Bool
  | .null, .null => true
  | .bool a, .bool b => a == b
  | .number a, .number b => a == b
  | .infinite a, .infinite b => a == b
  | .string a, .string b => a == b
  | _, _ => false

def hasTwice : List Json → Bool
  | [] => false
  | v :: l => l.any (sameValue v) || hasTwice l

section checks

variable (stringify : Json → Text) (cfg : HpcConfig) (files : List Text) (o : List (Text × Json))

def field (k : String) : Option Json := Json.field? o (js k)

def unknownFields : List Problem :=
  o.filterMap fun e => if e.1 ∈ specFields then none else some ⟨e.1, js "unknown field"⟩

def checkName : List Problem :=
  match field o "name" with
  | some (.string t) => if isName t then [] else bad "name" (js "1-40 letters, digits, _ or -")
  | _ => bad "name" (js "1-40 letters, digits, _ or -")

def partitionOf : Option Partition :=
  match field o "partition" with
  | some (.string t) => cfg.partitions.find? fun p => p.name = t
  | _ => none

def checkPartition : List Problem :=
  match partitionOf cfg o with
  | some _ => []
  | none =>
    bad "partition" (js "one of " ++ List.intercalate (js ", ") (cfg.partitions.map Partition.name))

def checkInt (k : String) (lo hi : Nat) (message : String) : List Problem :=
  match isInt (field o k) lo hi with
  | some _ => []
  | none => bad k (js message)

def checkGpus : List Problem :=
  match isInt (field o "gpus") 0 8, partitionOf cfg o with
  | none, _ => bad "gpus" (js "a whole number from 0 to 8")
  | some _, none => []
  | some n, some p =>
    if 0 < n ∧ p.gpu = false then
      bad "gpus" (p.name ++ js " has no GPUs; pick a GPU partition")
    else if p.gpu = true ∧ p.maxGpus < n then
      bad "gpus" (p.name ++ js " allows at most " ++ Text.decimal p.maxGpus)
    else []

def checkTimeLimit : List Problem :=
  match parseTimeLimit (asText (field o "timeLimit")), partitionOf cfg o with
  | none, _ => bad "timeLimit" (js "D-HH:MM:SS or H:MM:SS, more than zero")
  | some _, none => []
  | some seconds, some p =>
    if p.maxSeconds < seconds then
      bad "timeLimit" (p.name ++ js " allows at most " ++ p.maxTime)
    else []

def allowedModule (v : Json) : Bool :=
  match v with
  | .string t => cfg.modules.contains t
  | _ => false

def checkModules : List Problem :=
  match field o "modules" with
  | some (.array l) =>
    if 16 < l.length then bad "modules" (js "a list of up to 16 modules")
    else
      (match l.find? fun m => !allowedModule cfg m with
        | some m => bad "modules" (stringify m ++ js " is not in the module allowlist")
        | none => []) ++
      if hasTwice l then bad "modules" (js "a module is listed twice") else []
  | _ => bad "modules" (js "a list of up to 16 modules")

/-- `conda ?? null` -/
def condaOf : Option Text :=
  match field o "condaEnv" with
  | some (.string []) => none
  | some (.string t) => some t
  | _ => none

def checkConda : List Problem :=
  let message := js "an environment name: letters, digits, _ . - (not starting with . or -)"
  match field o "condaEnv" with
  | none => []
  | some .null => []
  | some (.string t) => if t = [] ∨ isConda t then [] else bad "condaEnv" message
  | some _ => bad "condaEnv" message

def checkEntrypoint : List Problem :=
  match field o "entrypoint" with
  | some (.string t) =>
    if !(js ".py").isSuffixOf t then bad "entrypoint" (js "a .py file")
    else if t.head? = some 45 ∨ t.head? = some 47 then
      bad "entrypoint" (js "a relative path that does not start with - or /")
    else if t ∉ files then bad "entrypoint" (t ++ js " is not in the uploaded code")
    else []
  | _ => bad "entrypoint" (js "a .py file")

/-- Text of at most `n` characters that bash can carry. -/
def isSafeText (n : Nat) (v : Json) : Bool :=
  match v with
  | .string t => t.length ≤ n && shellSafeText t
  | _ => false

def checkArgs : List Problem :=
  match field o "args" with
  | some (.array l) =>
    if maxArgs < l.length then bad "args" (js "a list of up to 64 arguments")
    else if l.any fun a => !isSafeText maxArgLength a then
      bad "args" (js "each argument is text of at most 256 characters")
    else []
  | _ => bad "args" (js "a list of up to 64 arguments")

/-- The loop over the variables; it ends with the first problem. -/
def checkVariables : List (Text × Json) → List Problem
  | [] => []
  | (k, v) :: rest =>
    if !isEnvKey k then
      bad "env" (stringify (.string (k.take 70)) ++ js " is not a variable name (A-Z, 0-9, _)")
    else if !isSafeText maxEnvValue v then
      bad "env" (k ++ js ": text of at most 1024 characters")
    else checkVariables rest

def checkEnv : List Problem :=
  match field o "env" with
  | some (.object entries) =>
    (if maxEnv < entries.length then bad "env" (js "at most 32 variables") else []) ++
      checkVariables stringify entries
  | _ => bad "env" (js "an object of NAME: value")

def envOf : List (Text × Text) :=
  match field o "env" with
  | some (.object entries) => entries.map fun e => (e.1, asText (some e.2))
  | _ => []

def checkNotifyEmail : List Problem :=
  match field o "notifyEmail" with
  | some (.bool true) =>
    bad "notifyEmail" (js ("email notifications wait on M0 (does HPC2021 deliver SLURM mail?) " ++
      "and the HPC profile"))
  | some (.bool false) => []
  | _ => bad "notifyEmail" (js "true or false")

def problemsOf : List Problem :=
  unknownFields o ++ checkName o ++ checkPartition cfg o ++
    checkInt o "cpusPerTask" 1 64 "a whole number from 1 to 64" ++
    checkInt o "memGb" 1 512 "a whole number of GB from 1 to 512" ++
    checkGpus cfg o ++ checkTimeLimit cfg o ++ checkModules stringify cfg o ++ checkConda o ++
    checkEntrypoint files o ++ checkArgs o ++ checkEnv stringify o ++ checkNotifyEmail o

end checks

def specOf (o : List (Text × Json)) : JobSpec where
  name := asText (field o "name")
  partition := asText (field o "partition")
  cpusPerTask := (isInt (field o "cpusPerTask") 1 64).getD 0
  memGb := (isInt (field o "memGb") 1 512).getD 0
  gpus := (isInt (field o "gpus") 0 8).getD 0
  timeLimit := asText (field o "timeLimit")
  modules := asTexts (field o "modules")
  condaEnv := condaOf o
  entrypoint := asText (field o "entrypoint")
  args := asTexts (field o "args")
  env := envOf o
  notifyEmail := match field o "notifyEmail" with | some (.bool b) => b | _ => false

/-- Checks a spec from the browser against the config and the job's code. -/
def validateSpec (stringify : Json → Text) (raw : Json) (cfg : HpcConfig) (files : List Text) :
    Except (List Problem) JobSpec :=
  match raw with
  | .object o =>
    let problems := problemsOf stringify cfg files o
    if problems = [] then .ok (specOf o) else .error problems
  | _ => .error (bad "spec" (js "expected an object"))

end TMEdge.Sbatch
