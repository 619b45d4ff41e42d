import PowerJudge.Judge.Run
import PowerJudge.Judge.TestData

/-!
# The judge process

`main` from the command line to its last exit: the checks at the start, the
alarm of the whole run, the compiler, and the cases.  An exit carries the record
that `output_acm_result` has written before it, if any.
-/

namespace PowerJudge

/-- A way in which the process leaves, and what it had reported by then. -/
structure Exit where
  reason : ExitReason
  reported : Option Record
  deriving DecidableEq, Repr

/-- An exit before anything is reported. -/
def Exit.silent (reason : ExitReason) : Exit := ⟨reason, none⟩

/-! ## The compiler -/

/-- What the judge sees of the compiler. -/
structure CompilerRun where
  forks : Bool
  /-- The status from `waitpid` with `WUNTRACED`, `none` when it fails. -/
  waited : Option WaitStatus
  /-- `file_size` of the compiler's stderr. -/
  stderrSize : ℕ
  /-- What `execute_cmd` returns for `/bin/grep -q 'compiler error'` of it. -/
  grepCompilerError : ℤ
  /-- Whether the judge can reopen its own stderr as that file. -/
  reopensError : Bool

/-- `GCC_COMPILE_ERROR`. -/
def gccCompileError : ℕ := 1

/-- The languages `fix_gcc_result` is about. -/
def Lang.isGcc : Lang → Bool
  | .c99 => true
  | .c11 => true
  | .cpp98 => true
  | .cpp11 => true
  | .cpp14 => true
  | .cpp17 => true
  | _ => false

/-- `fix_gcc_result`. -/
def fixGccResult (lang : Lang) (run : CompilerRun) : Bool :=
  lang.isGcc && run.grepCompilerError = 0

/-- `output_acm_result(OJ_CE, 0, 0, 0)`. -/
def compileErrorRecord : Record := ⟨.ce, 0, 0, 0⟩

/-- `compile`. -/
def compile (lang : Lang) (run : CompilerRun) : Outcome Exit Unit :=
  if !run.forks then .exited (.silent .forkCompiler)
  else
    match run.waited with
    | none => .exited (.silent .compileError)
    | some status =>
        if lang.isPython && run.stderrSize ≠ 0 then
          .exited ⟨.ok, some compileErrorRecord⟩
        else if status.ifExited then
          if status.exitStatus = 0 then .returned ()
          else if status.exitStatus = gccCompileError then
            .exited ⟨.ok, some compileErrorRecord⟩
          else if fixGccResult lang run then .exited ⟨.ok, some compileErrorRecord⟩
          else .exited ⟨.compileError, some compileErrorRecord⟩
        else if status.ifSignaled then
          -- The message is written to the stream that `freopen` returns, null if it fails.
          if run.reopensError then .exited ⟨.ok, some compileErrorRecord⟩ else .crashed
        else .exited (.silent .compileError)

/-! ## The whole process -/

/-- The surroundings of one run of the judge. -/
structure JudgeEnv where
  args : Arguments
  /-- `geteuid() == 0`. -/
  isRoot : Bool
  /-- Whether `chdir` to the work directory succeeds. -/
  chdirs : Bool
  dir : DataDir
  /-- Whether `scandir` succeeds, in `get_num_of_test` and in `run_solution`. -/
  scansFirst : Bool
  scansAgain : Bool
  /-- Whether `setitimer` and `signal` succeed. -/
  setsAlarm : Bool
  setsHandler : Bool
  /-- Whether `read_config`, called by `init_connet`, can open its file. -/
  opensConfig : Bool
  compiler : CompilerRun
  /-- The behaviour of the cases, by their number. -/
  cases : ℕ → TestCase

/-- The initial value of `judge_time_limit`. -/
def judgeTimeLimitBase : ℕ := 15347

/-- `judge_time_limit` when the alarm is set, an unsigned 64-bit number. -/
def judgeTimeLimit (timeLimit numOfTest : ℕ) : ℕ :=
  (judgeTimeLimitBase + timeLimit) % 2 ^ 64 * numOfTest % 2 ^ 64

/-- `main` up to the call of `malarm`: the submission and the duration set. -/
def arm (env : JudgeEnv) : Outcome ExitReason (Submission × ℕ) :=
  (parseArguments env.args).bind fun submission =>
    if env.isRoot then .exited .privileged
    else if !env.chdirs then .exited .chdir
    else if !env.scansFirst then .exited .preJudgeDaa
    else if !env.setsAlarm then .exited .veryFirst
    else
      .returned
        (submission, judgeTimeLimit submission.sol.timeLimit (numOfTest env.dir false))

/-- From the alarm to the compiler. -/
def connect (env : JudgeEnv) : Outcome ExitReason Unit :=
  if !env.setsHandler then .exited .veryFirst
  else if !env.opensConfig then .exited .failure
  else .returned ()

/-- `run_solution` up to its loop: the solution with `spj` set. -/
def findCases (env : JudgeEnv) (sol : OjSolution) : Outcome ExitReason OjSolution :=
  if !env.scansAgain then .exited .preJudgeDaa
  else .returned { sol with spj := checkSpj env.dir }

/-- Everything before the loop over the cases. -/
def prepare (env : JudgeEnv) : Outcome Exit OjSolution :=
  ((arm env).mapExited .silent).bind fun armed =>
    ((connect env).mapExited .silent).bind fun _ =>
      (compile armed.1.sol.lang env.compiler).bind fun _ =>
        (findCases env armed.1.sol).mapExited .silent

/-- The cases that `scandir` finds. -/
def foundCases (env : JudgeEnv) (sol : OjSolution) : List TestCase :=
  (List.range (numOfTest env.dir sol.spj)).map env.cases

/-- `main`: it returns with the record that `run_solution` outputs. -/
def main (env : JudgeEnv) : Outcome Exit Record :=
  (prepare env).bind fun sol => (runSolution sol (foundCases env sol)).mapExited .silent

/-- The calls of a run of the judge. -/
def judgeCalls (env : JudgeEnv) : List Call :=
  match prepare env with
  | .returned sol => calls sol (foundCases env sol) .start
  | _ => []

/-! ## Before the cases -/

variable {env : JudgeEnv}

theorem arm_eq_returned {armed : Submission × ℕ} (h : arm env = .returned armed) :
    parseArguments env.args = .returned armed.1 ∧
      armed.2 = judgeTimeLimit armed.1.sol.timeLimit (numOfTest env.dir false) := by
  rw [arm, Outcome.bind_eq_returned_iff] at h
  obtain ⟨submission, hparse, h⟩ := h
  split at h
  · cases h
  · split at h
    · cases h
    · split at h
      · cases h
      · split at h
        · cases h
        · cases h
          exact ⟨hparse, rfl⟩

/-- The loop over the cases is reached only with an armed alarm and after the
compiler. -/
theorem prepare_eq_returned {sol : OjSolution} (h : prepare env = .returned sol) :
    ∃ armed, arm env = .returned armed ∧ compile armed.1.sol.lang env.compiler = .returned () ∧
      sol = { armed.1.sol with spj := checkSpj env.dir } := by
  rw [prepare, Outcome.bind_eq_returned_iff] at h
  obtain ⟨armed, harm, h⟩ := h
  rw [Outcome.bind_eq_returned_iff] at h
  obtain ⟨_, -, h⟩ := h
  rw [Outcome.bind_eq_returned_iff] at h
  obtain ⟨_, hcompile, h⟩ := h
  rw [Outcome.mapExited_eq_returned_iff] at h harm
  rw [findCases] at h
  split at h
  · cases h
  · cases h
    exact ⟨armed, harm, hcompile, rfl⟩

end PowerJudge
