import Mathlib.Algebra.Group.Int.Defs
import Mathlib.Algebra.Group.Nat.Defs
import PowerJudge.Judge.Comparator
import PowerJudge.Syscalls.Monitor

/-!
# Judging one test case

`judge` supervises one run of the executor.  Everything outside the judge's own
code is an input: the reports of `wait4` with the outcomes of the `ptrace` calls
that follow them, the two output files, the special judge, and what `grep` finds
in the files of the executor.
-/

namespace PowerJudge

/-! ## Inputs -/

/-- The part of `rusage` that the judge reads.  The kernel keeps processor time
in 64-bit nanoseconds and the resident set size in a `long`. -/
structure Rusage where
  maxrss : ℕ
  utimeSec : ℕ
  utimeUsec : ℕ
  maxrss_lt : maxrss < 2 ^ 63
  utime_lt : utimeSec * 10 ^ 9 + utimeUsec * 10 ^ 3 < 2 ^ 64

/-- `(unsigned long) ru_utime.tv_sec * 1000 + ru_utime.tv_usec / 1000`. -/
def Rusage.utimeMs (r : Rusage) : ℕ :=
  (r.utimeSec * 1000 % 2 ^ 64 + r.utimeUsec / 1000) % 2 ^ 64

/-- One successful `wait4`, and the `ptrace` calls that the judge makes if the
report does not end the case. -/
structure Report where
  status : WaitStatus
  rusage : Rusage
  /-- `orig_rax` as read by `PTRACE_GETREGS`, `none` when the call fails. -/
  origRax : Option (BitVec 64)
  /-- Whether `PTRACE_SYSCALL` resumes the executor. -/
  resumes : Bool

/-- What `parse_arguments` and `check_spj` have put into `oj_solution` when the
cases are judged.  The limits are 32-bit arguments times a language factor of at
most three. -/
structure OjSolution where
  lang : Lang
  timeLimit : ℕ
  memoryLimit : ℕ
  judgeType : ℤ
  spj : Bool
  timeLimit_lt : timeLimit < 3 * 2 ^ 32
  memoryLimit_lt : memoryLimit < 3 * 2 ^ 32

/-- The surroundings of one call of `judge`. -/
structure TestCase where
  /-- Whether the executor can be forked. -/
  forks : Bool
  /-- The outcomes of successive `wait4` calls, `none` for a failure. -/
  reports : List (Option Report)
  fileOut : Option Bytes
  fileUser : Option Bytes
  spjRun : SpjRun
  /-- `file_size` of the executor's stderr. -/
  stderrSize : ℕ
  /-- What `execute_cmd` returns for `/bin/grep -q` of a pattern in stderr. -/
  grepStderr : String → ℤ
  /-- What `execute_cmd` returns for `/bin/grep -q` of a pattern in stdout. -/
  grepStdout : String → ℤ

/-- The fields of `oj_solution` that the judge writes, with the globals of the
syscall monitor. -/
structure Progress where
  result : OjResult
  timeUsage : ℕ
  memoryUsage : ℕ
  monitor : Monitor

/-- The globals after `init`. -/
def Progress.start : Progress where
  result := .ac
  timeUsage := 0
  memoryUsage := 0
  monitor := Monitor.programStart

/-- The limits that `init` sets, for a language and the default judge type. -/
def OjSolution.init (lang : Lang) : OjSolution where
  lang := lang
  timeLimit := 1000
  memoryLimit := 65536
  judgeType := acm
  spj := false
  timeLimit_lt := by decide
  memoryLimit_lt := by decide

/-- A report with a given status of a program that has used nothing yet. -/
def Report.idle (status : WaitStatus) : Report where
  status := status
  rusage := ⟨0, 0, 0, by decide, by decide⟩
  origRax := none
  resumes := true

/-- A case whose executor exits at once with status 0 and leaves stderr empty. -/
def TestCase.quiet (fileOut fileUser : Bytes) : TestCase where
  forks := true
  reports := [some (.idle (.ofExit 0))]
  fileOut := some fileOut
  fileUser := some fileUser
  spjRun := .forkFailed
  stderrSize := 0
  grepStderr := fun _ => 1
  grepStdout := fun _ => 1

/-! ## The exit branch -/

/-- The comparison the judge makes when the executor quits normally. -/
def compareCase (sol : OjSolution) (c : TestCase) : Outcome ExitReason OjResult :=
  if sol.spj then ojCompareOutputSpj c.spjRun
  else ojCompareOutput c.fileOut c.fileUser

/-- The merge of the case result into `oj_solution.result`. -/
def mergeResult (previous result : OjResult) : OjResult :=
  if result = .wa then .wa
  else if previous ≠ .pe then result
  else .pe

/-- A normal quit: for Java and Kotlin only with status 0. -/
def NormalQuit (sol : OjSolution) (status : WaitStatus) : Prop :=
  (sol.lang ≠ .java ∧ sol.lang ≠ .kotlin) ∨ status.exitStatus = 0

instance (sol : OjSolution) (status : WaitStatus) : Decidable (NormalQuit sol status) :=
  inferInstanceAs (Decidable (_ ∨ _))

/-- The branch `WIFEXITED(status)`. -/
def exitBranch (sol : OjSolution) (c : TestCase) (status : WaitStatus) (p : Progress) :
    Outcome ExitReason Progress :=
  if NormalQuit sol status then
    (compareCase sol c).bind fun result =>
      .returned { p with result := mergeResult p.result result }
  else .returned { p with result := .re }

/-! ## The other branches of the wait loop -/

/-- The signal that ended or stopped the executor, for any stop but that of
`SIGTRAP`. -/
def fatalSignal (status : WaitStatus) : Option ℕ :=
  if status.ifSignaled then some status.termSig
  else if status.ifStopped ∧ status.stopSig ≠ sigTrap then some status.stopSig
  else none

/-- The `switch` over the signal. -/
def signalResult (signo : ℕ) : OjResult :=
  if signo = sigChld then .ac
  else if signo = sigAlrm ∨ signo = sigVtalrm ∨ signo = sigXcpu then .tle
  else if signo = sigXfsz then .ole
  else .re

/-- How an iteration of the wait loop ends: `break`, or the next `wait4`. -/
inductive WaitStep where
  | leave (p : Progress)
  | again (p : Progress)

/-- `(int) regs.orig_rax`. -/
def syscallIdOf (origRax : BitVec 64) : ℤ := (origRax.setWidth 32).toInt

/-- The memory check and the syscall check of the wait loop. -/
def stopBranch (sol : OjSolution) (r : Report) (p : Progress) :
    Outcome ExitReason WaitStep :=
  let p := { p with memoryUsage := max p.memoryUsage r.rusage.maxrss }
  if p.memoryUsage > sol.memoryLimit then .returned (.leave { p with result := .mle })
  else
    match r.origRax with
    | none => .exited .judge
    | some origRax =>
        let checked := checkStop (syscallIdOf origRax) p.monitor
        let p := { p with monitor := checked.2 }
        if !checked.1 then .returned (.leave { p with result := .rf })
        else if r.resumes then .returned (.again p)
        else .exited .judge

/-- One iteration of the wait loop after a successful `wait4`. -/
def onReport (sol : OjSolution) (c : TestCase) (r : Report) (p : Progress) :
    Outcome ExitReason WaitStep :=
  if r.status.ifExited then
    (exitBranch sol c r.status p).bind fun p' => .returned (.leave p')
  else
    match fatalSignal r.status with
    | some signo => .returned (.leave { p with result := signalResult signo })
    | none => stopBranch sol r p

/-- The wait loop: the globals and the last report when it is left. -/
def waitLoop (sol : OjSolution) (c : TestCase) :
    List (Option Report) → Progress → Outcome ExitReason (Progress × Report)
  | [], _ => .blocked
  | none :: _, _ => .exited .judge
  | some r :: rest, p =>
      (onReport sol c r p).bind fun
        | .leave p' => .returned (p', r)
        | .again p' => waitLoop sol c rest p'

/-! ## After the wait loop -/

/-- `fix_java_result`. -/
def fixJavaResult (sol : OjSolution) (c : TestCase) (p : Progress) : Progress :=
  if c.grepStderr "java.lang.OutOfMemoryError" = 0 then
    { p with result := .mle, memoryUsage := sol.memoryLimit * stdKb % 2 ^ 64 }
  else if c.grepStdout "java.lang.OutOfMemoryError" = 0 then
    { p with result := .mle, memoryUsage := sol.memoryLimit * stdKb % 2 ^ 64 }
  else if c.grepStderr "Exception" = 0 then { p with result := .re }
  else if c.grepStderr "Could not create" = 0 then { p with result := .re }
  else p

/-- The memory and the time check after the wait loop. -/
def checkLimits (sol : OjSolution) (last : Report) (p : Progress) : Progress :=
  let p := { p with memoryUsage := max p.memoryUsage last.rusage.maxrss }
  let p := if p.memoryUsage > sol.memoryLimit then { p with result := .mle } else p
  let p := { p with timeUsage := max p.timeUsage last.rusage.utimeMs }
  if p.timeUsage > sol.timeLimit then { p with result := .tle } else p

/-- What is done to a result other than `OJ_AC`. -/
def classify (sol : OjSolution) (c : TestCase) (p : Progress) : Progress :=
  if p.result = .tle then { p with timeUsage := sol.timeLimit }
  else if p.result = .wa then
    if sol.lang = .java then fixJavaResult sol c p
    else if sol.lang.isPython ∧ c.stderrSize ≠ 0 then { p with result := .re }
    else p
  else p

/-- The end of `judge`: the globals and the returned flag. -/
def settle (sol : OjSolution) (c : TestCase) (last : Report) (p : Progress) :
    Progress × Bool :=
  let p := checkLimits sol last p
  if p.result ≠ .ac then (classify sol c p, false) else (p, true)

/-- The globals when supervision starts. -/
def startCase (sol : OjSolution) (p : Progress) : Progress :=
  { p with monitor := initSyscalls sol.lang p.monitor }

/-- `judge`. -/
def judge (sol : OjSolution) (c : TestCase) (p : Progress) :
    Outcome ExitReason (Progress × Bool) :=
  if c.forks then
    (waitLoop sol c c.reports (startCase sol p)).bind fun ended =>
      .returned (settle sol c ended.2 ended.1)
  else .exited .preJudge

end PowerJudge
