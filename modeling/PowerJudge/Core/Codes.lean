import Mathlib.Data.Int.Notation
import Mathlib.Data.Nat.Notation

/-!
# Result codes, exit codes and languages

The constants of `judge_core.h`.  Results, exit reasons and languages are
enumerations; `code` and `id` give the number the source uses, so that the exit
reasons which share a number stay visible.
-/

namespace PowerJudge

/-- The `OJ_*` results. -/
inductive OjResult where
  | ac | pe | tle | mle | wa | re | ole | ce | rf | se | ve
  | wait | run | rejudge | sim | com | que
  deriving DecidableEq, Repr

/-- The number `judge_core.h` gives to a result. -/
def OjResult.code : OjResult → ℕ
  | .ac => 0
  | .pe => 1
  | .tle => 2
  | .mle => 3
  | .wa => 4
  | .re => 5
  | .ole => 6
  | .ce => 7
  | .rf => 8
  | .se => 9
  | .ve => 10
  | .wait => 11
  | .run => 12
  | .rejudge => 13
  | .sim => 14
  | .com => 15
  | .que => 16

theorem OjResult.code_inj {result result' : OjResult} :
    result.code = result'.code ↔ result = result' := by
  cases result <;> cases result' <;> decide

theorem OjResult.code_lt (result : OjResult) : result.code < 17 := by
  cases result <;> decide

/-- The `EXIT_*` and `ERROR_*` reasons. -/
inductive ExitReason where
  | ok | unprivileged | chdir | badParam | missParam | veryFirst
  | forkCompiler | compileIo | compileExec | compileError
  | noSourceCode | privileged | preJudge | preJudgePtrace | preJudgeExeclp
  | preJudgeDaa | forkError | execError | setLimit | curlError | setSecurity
  | judge | compare | compareSpj | compareSpjFork | timeout | unknown
  | errorReadFile | errorReadResult
  /-- `exit(1)` of the logger and of `fatal_error`. -/
  | failure
  deriving DecidableEq, Repr

/-- The number `judge_core.h` gives to an exit reason. -/
def ExitReason.code : ExitReason → ℕ
  | .ok => 0
  | .unprivileged => 1
  | .chdir => 2
  | .badParam => 3
  | .missParam => 4
  | .veryFirst => 5
  | .forkCompiler => 6
  | .compileIo => 6
  | .compileExec => 6
  | .compileError => 6
  | .noSourceCode => 7
  | .privileged => 8
  | .preJudge => 9
  | .preJudgePtrace => 10
  | .preJudgeExeclp => 11
  | .preJudgeDaa => 12
  | .forkError => 13
  | .execError => 14
  | .setLimit => 15
  | .curlError => 16
  | .setSecurity => 17
  | .judge => 21
  | .compare => 27
  | .compareSpj => 30
  | .compareSpjFork => 31
  | .timeout => 36
  | .unknown => 127
  | .errorReadFile => 40
  | .errorReadResult => 41
  | .failure => 1

/-- Every exit code survives the eight bits of a wait status. -/
theorem ExitReason.code_lt (e : ExitReason) : e.code < 256 := by
  cases e <;> decide

/-- The `LANG_*` languages that `check_arguments` accepts. -/
inductive Lang where
  | c11 | cpp11 | pascal | java | python27 | c99 | cpp98 | cpp14 | cpp17
  | python3 | kotlin
  deriving DecidableEq, Repr

def Lang.id : Lang → ℕ
  | .c11 => 1
  | .cpp11 => 2
  | .pascal => 3
  | .java => 4
  | .python27 => 5
  | .c99 => 6
  | .cpp98 => 7
  | .cpp14 => 8
  | .cpp17 => 9
  | .python3 => 10
  | .kotlin => 11

/-- The language with a given `LANG_*` number. -/
def Lang.ofId : ℤ → Option Lang
  | 1 => some .c11
  | 2 => some .cpp11
  | 3 => some .pascal
  | 4 => some .java
  | 5 => some .python27
  | 6 => some .c99
  | 7 => some .cpp98
  | 8 => some .cpp14
  | 9 => some .cpp17
  | 10 => some .python3
  | 11 => some .kotlin
  | _ => none

theorem Lang.ofId_id (l : Lang) : Lang.ofId l.id = some l := by
  cases l <;> rfl

/-- The test `LANG_PYTHON27 || LANG_PYTHON3` that the judge makes in several places. -/
def Lang.isPython (l : Lang) : Bool :=
  l = .python27 ∨ l = .python3

def stdKb : ℕ := 1024

/-- `BUFF_SIZE`. -/
def buffSize : ℕ := 8192

/-- The judge types of `judge_core.h`; `-j` accepts any integer. -/
def acm : ℤ := 0

def oi : ℤ := 1

end PowerJudge
