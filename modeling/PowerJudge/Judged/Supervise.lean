import PowerJudge.Judge.Exits
import PowerJudge.Judge.Watchdog
import PowerJudge.Judged.ResultText

/-!
# The daemon's view of a judge process

`run` turns the outcome of `fork` and `waitpid` into the number that is pushed
with the solution, and `SendWork` turns that number into a report.  A child whose
`execl` fails goes on as a copy of the daemon, and `run` takes the end of that copy
for the end of a judge.
-/

namespace PowerJudge

/-! ## Codes and reports -/

/-- The number pushed for a wait status. -/
def pushedCode (status : WaitStatus) : ℕ :=
  if status.ifExited then
    if status.exitStatus = 0 then ExitReason.ok.code
    else if status.exitStatus = ExitReason.compileError.code then ExitReason.ok.code
    else if status.exitStatus = ExitReason.judge.code then OjResult.se.code
    else status.exitStatus
  else if status.ifSignaled then status.termSig
  else if status.ifStopped then status.stopSig
  else ExitReason.unknown.code

/-- The number that `run` pushes.  `status` is still 0 when `waitpid` fails. -/
def runPushes (forks : Bool) (waited : Option WaitStatus) : ℕ :=
  if !forks then ExitReason.forkError.code
  else pushedCode (waited.getD ⟨0⟩)

/-- What `result.txt` holds; `none` if there is no such file. -/
abbrev ResultTxt := Option Bytes

/-- What is posted for a solution: the numbers read, or `OJ_SE`. -/
inductive Posted where
  | verdict (numbers : RecordNumbers)
  | systemError
  deriving DecidableEq, Repr

/-- `update_result`. -/
def updateResult (file : ResultTxt) : Posted :=
  match file with
  | none => .systemError
  | some text =>
      match scanRecord text with
      | none => .systemError
      | some numbers => .verdict numbers

/-- What `SendWork` does with a number and the file of its solution. -/
def sendWork (code : ℕ) (file : ResultTxt) : Posted :=
  if code = ExitReason.ok.code then updateResult file else .systemError

theorem updateResult_of_scanRecord {text : Bytes} {numbers : RecordNumbers}
    (h : scanRecord text = some numbers) : updateResult (some text) = .verdict numbers := by
  simp only [updateResult, h]

theorem pushedCode_ofExit {code : ℕ} (h : code < 256) :
    pushedCode (.ofExit code) = ExitReason.ok.code ↔
      code = ExitReason.ok.code ∨ code = ExitReason.compileError.code := by
  have hstatus : (WaitStatus.ofExit code).exitStatus = code := by
    rw [WaitStatus.exitStatus_ofExit, Nat.mod_eq_of_lt h]
  rw [pushedCode, if_pos (WaitStatus.ifExited_ofExit code), hstatus]
  split_ifs with hzero hsix hjudge
  · simp [hzero, ExitReason.code]
  · simp [hsix]
  · simp [hjudge, ExitReason.code, OjResult.code]
  · simp [hsix]

theorem pushedCode_of_ifSignaled {status : WaitStatus} (h : status.ifSignaled) :
    pushedCode status ≠ ExitReason.ok.code := by
  rw [pushedCode, if_neg (WaitStatus.not_ifExited_of_ifSignaled h), if_pos h]
  exact h.1

theorem pushedCode_ofStop {signo : ℕ} (h0 : 0 < signo) (h : signo < 256) :
    pushedCode (.ofStop signo) ≠ ExitReason.ok.code := by
  have hstopped := WaitStatus.ifStopped_ofStop signo
  rw [pushedCode, if_neg (WaitStatus.not_ifExited_of_ifStopped hstopped),
    if_neg (WaitStatus.not_ifSignaled_of_ifStopped hstopped), if_pos hstopped,
    WaitStatus.stopSig_ofStop h]
  simp only [ExitReason.code]
  omega

/-! ## The child -/

/-- What can cut a judge process short: its alarm, the `exit(1)` of the logger,
or a signal. -/
inductive Interruption where
  | timeout
  | logger
  | killed (signo : ℕ) (core : Bool) (h0 : 0 < signo) (h : signo < 127)

def Interruption.status : Interruption → WaitStatus
  | .timeout => .ofExit ExitReason.timeout.code
  | .logger => .ofExit ExitReason.failure.code
  | .killed signo core _ _ => .ofKill signo core

/-- The ways in which a child whose `execl` has failed can end: it is killed, the logger
leaves with 1, or its loop ends after `SIGTERM`, and with its only thread the process. -/
def CopyEnds (status : WaitStatus) : Prop :=
  status.ifSignaled ∨ status = .ofExit ExitReason.failure.code ∨
    status = .ofExit ExitReason.ok.code

instance : DecidablePred CopyEnds := fun _ => inferInstanceAs (Decidable (_ ∨ _))

/-- What has become of the child, and whether it has executed
`output_acm_result`, when `waitpid` returns. -/
inductive Fate where
  | running (reported : Bool)
  | finished
  | interrupted (reported : Bool) (how : Interruption)
  /-- The copy of the daemon has ended that a failed `execl` leaves. -/
  | copyEnded (status : WaitStatus)

/-- Whether a complete run of the judge reports a record: it does so also before the crash
that `main` can end with. -/
def Reports (env : JudgeEnv) : Prop :=
  (∃ e, exitOf env = some e ∧ e.reported ≠ none) ∨ main env = .crashed

/-- What can become of a child, which is the judge only if `execl` succeeded. -/
def Fate.Possible (env : JudgeEnv) (execs : Bool) : Fate → Prop
  | .running reported => reported = true → execs = true ∧ Reports env
  | .finished => execs = true ∧ exitOf env ≠ none
  | .interrupted reported _ => execs = true ∧ (reported = true → Reports env)
  | .copyEnded status => execs = false ∧ CopyEnds status

/-- The wait status of a child that has ended. -/
def Fate.status (env : JudgeEnv) : Fate → Option WaitStatus
  | .running _ => none
  | .finished => (exitOf env).map fun e => .ofExit e.reason.code
  | .interrupted _ how => some how.status
  | .copyEnded status => some status

/-- Whether the child has executed `output_acm_result`. -/
def Fate.HasReported (env : JudgeEnv) : Fate → Prop
  | .running reported => reported = true
  | .finished => Reports env
  | .interrupted reported _ => reported = true
  | .copyEnded _ => False

/-- What `waitpid` with `WUNTRACED` answers about a child: it fails, or reports a
stop, only while the child has not ended. -/
inductive Waitpid : Option WaitStatus → Option WaitStatus → Prop where
  | failed : Waitpid none none
  | stopped {signo : ℕ} (h0 : 0 < signo) (h : signo < 256) :
      Waitpid none (some (.ofStop signo))
  | ended (status : WaitStatus) : Waitpid (some status) (some status)

/-- One call of `run`, for a judge process with the surroundings `env`. -/
structure Supervision (env : JudgeEnv) where
  forks : Bool
  execs : Bool
  fate : Fate
  waited : Option WaitStatus
  possible : forks = true → fate.Possible env execs
  consistent : forks = true → Waitpid (fate.status env) waited

/-- The judge process was started, has ended, and has executed
`output_acm_result`. -/
def Supervision.Judged {env : JudgeEnv} (s : Supervision env) : Prop :=
  s.forks = true ∧ s.execs = true ∧ s.fate.status env ≠ none ∧ s.fate.HasReported env

/-- Success is pushed only for a judge process that has ended and reported, and
anything else becomes `OJ_SE`. -/
structure NoStaleVerdict {env : JudgeEnv} (s : Supervision env) : Prop where
  judged : runPushes s.forks s.waited = ExitReason.ok.code → s.Judged
  systemError : ¬s.Judged → ∀ file, sendWork (runPushes s.forks s.waited) file = .systemError

theorem noStaleVerdict_iff {env : JudgeEnv} {s : Supervision env} :
    NoStaleVerdict s ↔ (runPushes s.forks s.waited = ExitReason.ok.code → s.Judged) := by
  constructor
  · exact fun h => h.judged
  · intro h
    refine ⟨h, ?_⟩
    intro hnot file
    rw [sendWork, if_neg (fun hok => hnot (h hok))]

/-! ## Wait outcomes -/

theorem pushedCode_interruption (how : Interruption) :
    pushedCode how.status ≠ ExitReason.ok.code := by
  cases how with
  | timeout => decide
  | logger => decide
  | killed signo core h0 h =>
      exact pushedCode_of_ifSignaled (WaitStatus.ifSignaled_ofKill core h0 h)

/-- Of the ends of a copy of the daemon, the exit with 0 is pushed as a success. -/
theorem pushedCode_of_copyEnds {status : WaitStatus} (h : CopyEnds status) :
    pushedCode status = ExitReason.ok.code ↔ status = .ofExit ExitReason.ok.code := by
  rcases h with hsignaled | rfl | rfl
  · refine iff_of_false (pushedCode_of_ifSignaled hsignaled) ?_
    rintro rfl
    exact WaitStatus.not_ifExited_of_ifSignaled hsignaled (WaitStatus.ifExited_ofExit _)
  · decide
  · decide

/-- A finished run of the judge is pushed as a success when its exit is none of
the failures. -/
theorem pushedCode_ofExit_reason (reason : ExitReason) :
    pushedCode (.ofExit reason.code) = ExitReason.ok.code ↔ ¬reason.IsFailure := by
  rw [pushedCode_ofExit reason.code_lt, ExitReason.IsFailure]
  by_cases hok : reason.code = ExitReason.ok.code
  · simp [hok]
  · simp [hok]

theorem reports_iff {env : JudgeEnv} {e : Exit} (h : exitOf env = some e) :
    Reports env ↔ e.reported ≠ none := by
  constructor
  · rintro (⟨e', he', hne⟩ | hcrashed)
    · obtain rfl : e = e' := Option.some.inj (h.symm.trans he')
      exact hne
    · rw [exitOf, hcrashed] at h
      cases h
  · exact fun hne => Or.inl ⟨e, h, hne⟩

/-- For a child that has ended, the verdict is stale only after a silent exit of
`compile`, or where a copy of the daemon has ended with 0. -/
theorem judged_of_ended_iff {env : JudgeEnv} {s : Supervision env} {status : WaitStatus}
    (hforks : s.forks = true) (hended : s.fate.status env = some status) :
    (pushedCode status = ExitReason.ok.code → s.Judged) ↔
      ¬(s.fate = .finished ∧ CompilesSilently env) ∧
        s.fate ≠ .copyEnded (.ofExit ExitReason.ok.code) := by
  have hpossible := s.possible hforks
  cases hfate : s.fate with
  | running reported =>
      rw [hfate] at hended
      cases hended
  | interrupted reported how =>
      rw [hfate] at hended
      obtain rfl : how.status = status := Option.some.inj hended
      refine iff_of_true (fun hok => (pushedCode_interruption how hok).elim) ⟨?_, nofun⟩
      rintro ⟨hfinished, -⟩
      cases hfinished
  | copyEnded status' =>
      rw [hfate] at hended hpossible
      obtain rfl : status' = status := Option.some.inj hended
      have hnot : ¬s.Judged := fun hjudged => by
        have hexecs := hjudged.2.1
        rw [hpossible.1] at hexecs
        cases hexecs
      have hfate' : Fate.copyEnded status' ≠ .copyEnded (.ofExit ExitReason.ok.code) ↔
          status' ≠ .ofExit ExitReason.ok.code := by simp
      rw [hfate', Ne, ← pushedCode_of_copyEnds hpossible.2]
      simp [hnot]
  | finished =>
      rw [hfate] at hended hpossible
      obtain ⟨e, hexit, rfl⟩ := Option.map_eq_some_iff.mp hended
      have hjudged : s.Judged ↔ e.reported ≠ none := by
        rw [Supervision.Judged, hfate, Fate.HasReported, reports_iff hexit, hended]
        simp [hforks, hpossible.1]
      have hcopy : Fate.finished ≠ .copyEnded (.ofExit ExitReason.ok.code) := nofun
      rw [hjudged, pushedCode_ofExit_reason, ← exitOf_silent_iff hexit]
      tauto

/-- A call of `run` reports no stale verdict exactly when `waitpid` does not fail, the judge
process has not left `compile` without a record, and no copy of the daemon that a failed
`execl` has left has ended with 0. -/
theorem no_stale_verdict_iff (env : JudgeEnv) (s : Supervision env) :
    NoStaleVerdict s ↔
      ¬(s.forks = true ∧ s.waited = none) ∧
      ¬(s.forks = true ∧ s.fate = .finished ∧ CompilesSilently env) ∧
      ¬(s.forks = true ∧ s.fate = .copyEnded (.ofExit ExitReason.ok.code)) := by
  rw [noStaleVerdict_iff]
  by_cases hforks : s.forks = true
  · have hwait := s.consistent hforks
    rw [runPushes, hforks]
    simp only [Bool.not_true, Bool.false_eq_true, if_false, true_and]
    generalize hstatus : s.fate.status env = status at hwait
    generalize hwaited : s.waited = waited at hwait
    cases hwait with
    | failed =>
        refine iff_of_false ?_ (fun h => h.1 rfl)
        intro h
        have hjudged := h (by decide)
        exact hjudged.2.2.1 hstatus
    | stopped h0 h =>
        refine iff_of_true (fun hok => (pushedCode_ofStop h0 h hok).elim) ⟨by simp, ?_, ?_⟩
        · rintro ⟨hfinished, -⟩
          have hended := (s.possible hforks)
          rw [hfinished] at hended hstatus
          simp only [Fate.status, Option.map_eq_none_iff] at hstatus
          exact hended.2 hstatus
        · intro hcopy
          rw [hcopy] at hstatus
          cases hstatus
    | ended status =>
        rw [Option.getD_some, judged_of_ended_iff hforks hstatus]
        simp
  · have hfork : runPushes s.forks s.waited = ExitReason.forkError.code := by
      simp [runPushes, hforks]
    refine iff_of_true ?_ ⟨fun h => hforks h.1, fun h => hforks h.1, fun h => hforks h.1⟩
    intro hok
    rw [hfork] at hok
    cases hok

/-- A judge process whose `fork` for the compiler fails. -/
def forklessEnv : JudgeEnv :=
  { acceptingEnv cpp11Arguments (.ofFiles [ascii "1.in", ascii "1.out"] (by decide)) with
    compiler :=
      { forks := false
        waited := none
        stderrSize := 0
        grepCompilerError := 1
        reopensError := true } }

theorem exitOf_forklessEnv : exitOf forklessEnv = some (.silent .forkCompiler) := by
  decide

/-- The daemon waits for that process to end. -/
def forklessSupervision : Supervision forklessEnv where
  forks := true
  execs := true
  fate := .finished
  waited := some (.ofExit ExitReason.forkCompiler.code)
  possible := fun _ => ⟨rfl, by simp [exitOf_forklessEnv]⟩
  consistent := by
    intro _
    rw [Fate.status, exitOf_forklessEnv]
    exact .ended _

/-- Its failure is pushed as a success, and the record that an earlier run has
left is posted. -/
theorem stale_verdict_posted :
    runPushes forklessSupervision.forks forklessSupervision.waited = ExitReason.ok.code ∧
    ¬forklessSupervision.Judged ∧
    sendWork (runPushes forklessSupervision.forks forklessSupervision.waited)
      (some (ascii "0 15 1024 0")) = .verdict ⟨0, 15, 1024, 0⟩ := by
  refine ⟨by decide, ?_, by decide⟩
  rintro ⟨-, -, -, hreports⟩
  change Reports forklessEnv at hreports
  rw [reports_iff exitOf_forklessEnv] at hreports
  exact hreports rfl

end PowerJudge
