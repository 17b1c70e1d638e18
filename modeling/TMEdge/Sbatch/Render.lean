import TMEdge.Sbatch.Spec

/-!
# The batch script

`shQuote` and `renderSbatch` of `src/algo/train/sbatch.ts`. Where the code throws, there is no script.
-/

namespace TMEdge.Sbatch

open Library

/-- A character that a shell word has without quotes. -/
def isSafe (c : UInt16) : Bool := isWordChar c || [64, 37, 43, 61, 58, 44, 46, 47, 45].contains c

/-- `"'"` quoted, between two parts in single quotes. -/
def quotedQuote : Text := [39, 34, 39, 34, 39]

/-- Safe words pass, everything else is in single quotes. -/
def shQuote (s : Text) : Text :=
  if s = [] then [39, 39]
  else if s.all isSafe then s
  else [39] ++ (s.flatMap fun c => if c = 39 then quotedQuote else [c]) ++ [39]

/-- `/^[a-z0-9]{2,32}@(?:connect\.)?hku\.hk$/` -/
def isMailUser (t : Text) : Bool :=
  let isPart (u : Text) : Bool :=
    2 ≤ u.length && u.length ≤ 32 && u.all fun c => isDigit c || (97 ≤ c && c ≤ 122)
  match t.splitOn 64 with
  | [u, host] => isPart u && (host == js "hku.hk" || host == js "connect.hku.hk")
  | _ => false

/-- The directives that the job's resources ask for. -/
def directivesOf (name partition timeLimit : Text) (cpusPerTask memGb gpus : Nat) : List Text :=
  [js "#SBATCH --job-name=" ++ name, js "#SBATCH --partition=" ++ partition,
    js "#SBATCH --time=" ++ timeLimit, js "#SBATCH --nodes=1", js "#SBATCH --ntasks=1",
    js "#SBATCH --cpus-per-task=" ++ Text.decimal cpusPerTask,
    js "#SBATCH --mem=" ++ Text.decimal memGb ++ js "G"] ++
  (if 0 < gpus then [js "#SBATCH --gres=gpu:" ++ Text.decimal gpus] else []) ++
  [js "#SBATCH --output=slurm-%j.out", js "#SBATCH --error=slurm-%j.err"]

def mailLines (spec : JobSpec) (mailUser : Option Text) : Option (List Text) :=
  if spec.notifyEmail then
    match mailUser with
    | some user =>
      if isMailUser user then some [js "#SBATCH --mail-type=END,FAIL", js "#SBATCH --mail-user=" ++ user]
      else none
    | none => none
  else some []

def strictLines : List Text :=
  ["set -euo pipefail",
    "# Keep the result even on clusters where sacct accounting is disabled.",
    "tm_job_finished() \x7b",
    "  local code=$?",
    "  trap - EXIT",
    "  local report=\"$SLURM_SUBMIT_DIR/.tmedge-exit-$SLURM_JOB_ID\"",
    "  \x7b printf \"TMEDGE_EXIT_V1|%s|%s|%s\\n\" \"$SLURM_JOB_ID\" \"$code\" \"$SECONDS\" > " ++
      "\"$report.tmp\" && mv -f -- \"$report.tmp\" \"$report\"; \x7d || true",
    "  exit \"$code\"",
    "\x7d",
    "trap tm_job_finished EXIT",
    "",
    "cd \"$SLURM_SUBMIT_DIR/code\""].map js

def softLines : List Text :=
  ["# module and conda read unset variables; strict mode resumes after them.", "set +u"].map js

def moduleLines (modules : List Text) : List Text :=
  if 0 < modules.length then
    js "module purge" :: modules.map fun m => js "module load " ++ shQuote m
  else []

def condaLines : Option Text → List Text
  | some e =>
    [js "source \"$(conda info --base)/etc/profile.d/conda.sh\"", js "conda activate " ++ shQuote e]
  | none => []

/-- Only when asked for: a cluster may have no `module` at all. -/
def environmentLines (spec : JobSpec) : List Text :=
  if 0 < spec.modules.length ∨ spec.condaEnv.isSome then
    softLines ++ moduleLines spec.modules ++ condaLines spec.condaEnv ++ [js "set -u"]
  else []

def exportLine (e : Text × Text) : Text := js "export " ++ e.1 ++ [61] ++ shQuote e.2

def pythonLines : List Text :=
  ["if command -v python >/dev/null 2>&1; then",
    "  python_bin=\"$(command -v python)\"",
    "elif command -v python3 >/dev/null 2>&1; then",
    "  python_bin=\"$(command -v python3)\"",
    "else",
    "  echo \"No Python interpreter found; load a Python module or select a conda environment.\" >&2",
    "  exit 127",
    "fi"].map js

def srunLine (entrypoint : Text) (args : List Text) : Text :=
  List.intercalate [32]
    ([js "srun --ntasks=1 \"$python_bin\" -u", shQuote entrypoint] ++ args.map shQuote)

def bodyLines (spec : JobSpec) : List Text :=
  strictLines ++ environmentLines spec ++ spec.env.map exportLine ++ pythonLines ++
    [srunLine spec.entrypoint spec.args]

def renderSbatch (spec : JobSpec) (mailUser : Option Text) : Option Text := do
  let mail ← mailLines spec mailUser
  let header := directivesOf spec.name spec.partition spec.timeLimit spec.cpusPerTask spec.memGb
    spec.gpus
  some (List.intercalate [10]
    ([js "#!/bin/bash"] ++ header ++ mail ++ [[]] ++ bodyLines spec ++ [[]]))

end TMEdge.Sbatch
