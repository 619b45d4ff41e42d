import PowerJudge.Judge.Exits
import PowerJudge.Judge.NormalExit
import PowerJudge.Judge.Watchdog

/-!
# When the set-up of the executor fails

The child that becomes the executor leaves with an exit code of its own when a
step before the execution of the program fails, or is killed by a fault when it has
no stream for the message about it.  The judge sees no more than a process that has
ended, and treats it as the program.
-/

namespace PowerJudge

/-! ## The child -/

/-- Which calls of the child succeed. -/
structure SetUp where
  /-- `freopen` of stdin, stdout and stderr. -/
  opensInput : Bool
  opensOutput : Bool
  opensError : Bool
  getsCwd : Bool
  chroots : Bool
  /-- `setrlimit` of the four resources. -/
  limitsCpu : Bool
  limitsAs : Bool
  limitsStack : Bool
  limitsFsize : Bool
  setsAlarm : Bool
  /-- `PTRACE_TRACEME`. -/
  traces : Bool
  execs : Bool

/-- `io_redirect`. -/
def ioRedirect (u : SetUp) : Outcome ExitReason Unit :=
  if !u.opensInput || !u.opensOutput || !u.opensError then
    -- The message is written to the stream that `freopen` returns, null if it fails.
    if u.opensError then .exited .preJudge else .crashed
  else .returned ()

/-- `set_security_option`; `fastJudge` is the build option `FAST_JUDGE`. -/
def setSecurityOption (fastJudge : Bool) (lang : Lang) (u : SetUp) :
    Outcome ExitReason Unit :=
  if lang ≠ .java ∧ lang ≠ .kotlin ∧ ¬(fastJudge ∧ (lang = .python3 ∨ lang = .python27)) then
    if !u.getsCwd then .exited .setSecurity
    else if !u.chroots then .exited .setSecurity
    else .returned ()
  else .returned ()

/-- `set_limit`. -/
def setLimit (lang : Lang) (u : SetUp) : Outcome ExitReason Unit :=
  if !u.limitsCpu then .exited .setLimit
  else if lang.id ≤ Lang.pascal.id && !u.limitsAs then .exited .setLimit
  else if !u.limitsStack then .exited .setLimit
  else if !u.limitsFsize then .exited .setLimit
  else .returned ()

/-- The child of `judge`: it returns when the program is executed. -/
def executor (fastJudge : Bool) (lang : Lang) (u : SetUp) : Outcome ExitReason Unit :=
  (ioRedirect u).bind fun _ =>
    (setSecurityOption fastJudge lang u).bind fun _ =>
      (setLimit lang u).bind fun _ =>
        if !u.setsAlarm then .exited .preJudge
        else if !u.traces then .exited .preJudgePtrace
        else if !u.execs then .exited .preJudgeExeclp
        else .returned ()

/-- A failure has a code other than `EXIT_SUCCESS`. -/
theorem executor_eq_exited {fastJudge : Bool} {lang : Lang} {u : SetUp} {reason : ExitReason}
    (h : executor fastJudge lang u = .exited reason) : reason.code ≠ 0 := by
  simp only [executor, Outcome.bind_eq_exited_iff] at h
  rcases h with h | ⟨-, -, h | ⟨-, -, h | ⟨-, -, h⟩⟩⟩
  · unfold ioRedirect at h
    split_ifs at h
    cases h
    decide
  · unfold setSecurityOption at h
    split_ifs at h
    all_goals
      cases h
      decide
  · unfold setLimit at h
    split_ifs at h
    all_goals
      cases h
      decide
  · split_ifs at h
    all_goals
      cases h
      decide

/-! ## The judge -/

variable {sol : OjSolution} {c : TestCase}

/-- A child whose set-up has ended so is seen with this status: the logger leaves with 1
when it cannot log the message about the failed step. -/
def ShowsFailure (status : WaitStatus) : Outcome ExitReason Unit → Prop
  | .exited reason => status = .ofExit reason.code ∨ status = .ofExit ExitReason.failure.code
  | .crashed => ∃ core, status = .ofKill sigSegv core
  | _ => False

/-- The executor of this case fails in its set-up: `wait4` fails, or reports the end of
the child. -/
def FailsSetUp (fastJudge : Bool) (sol : OjSolution) (c : TestCase) : Prop :=
  ∃ u, executor fastJudge sol.lang u ≠ .returned () ∧ c.forks = true ∧
    ∃ report rest, c.reports = report :: rest ∧
      ∀ r, report = some r → ShowsFailure r.status (executor fastJudge sol.lang u)

/-- The comparison cannot be made: a file cannot be opened, or the special judge
cannot be forked or waited for. -/
def CannotCompare (sol : OjSolution) (c : TestCase) : Prop :=
  if sol.spj then c.spjRun = .forkFailed ∨ c.spjRun = .waitFailed
  else c.fileOut = none ∨ c.fileUser = none

/-- The judge gives up on the case: it cannot wait for the executor, or sees it exit and
cannot compare the output of a language whose exit codes it does not look at. -/
def GivesUp (sol : OjSolution) (c : TestCase) : Prop :=
  c.reports.head? = some none ∨
    (∃ r, c.reports.head? = some (some r) ∧ r.status.ifExited) ∧
      sol.lang ≠ .java ∧ sol.lang ≠ .kotlin ∧ CannotCompare sol c

/-- A comparison leaves the process exactly when it cannot be made. -/
theorem compareCase_cases (sol : OjSolution) (c : TestCase) :
    (CannotCompare sol c ∧ ∃ reason, compareCase sol c = .exited reason) ∨
      (¬CannotCompare sol c ∧ ∃ result, compareCase sol c = .returned result) := by
  unfold CannotCompare compareCase
  split
  · cases hrun : c.spjRun with
    | forkFailed => exact Or.inl ⟨Or.inl rfl, _, rfl⟩
    | waitFailed => exact Or.inl ⟨Or.inr rfl, _, rfl⟩
    | ended status => exact Or.inr ⟨by simp, _, rfl⟩
  · cases hout : c.fileOut with
    | none => exact Or.inl ⟨Or.inl rfl, _, rfl⟩
    | some std =>
        cases huser : c.fileUser with
        | none => exact Or.inl ⟨Or.inr rfl, _, rfl⟩
        | some exe => exact Or.inr ⟨by simp, _, rfl⟩

/-! ## `OJ_SE` is never set -/

theorem mergeResult_ne_se {previous result : OjResult} (h : IsCaseOutcome result) :
    mergeResult previous result ≠ .se := by
  unfold mergeResult
  split_ifs
  · decide
  · rcases h with rfl | rfl | rfl | rfl <;> decide
  · decide

theorem classify_result_ne_se {p : Progress} (hp : p.result ≠ .se) :
    (classify sol c p).result ≠ .se := by
  unfold classify
  split
  · exact hp
  · split
    · next hwa =>
        split
        · rcases fixJavaResult_result sol c hwa with h | h | h <;> rw [h] <;> decide
        · split
          · simp
          · exact hp
    · exact hp

theorem settle_result_ne_se {last : Report} {p : Progress} (hp : p.result ≠ .se) :
    (settle sol c last p).1.result ≠ .se := by
  have hchecked : (checkLimits sol last p).result ≠ .se := by
    rw [checkLimits_result]
    split_ifs
    · decide
    · decide
    · exact hp
  unfold settle
  dsimp only
  split
  · exact classify_result_ne_se hchecked
  · exact hchecked

/-! ## One call -/

/-- The call leaves the process with a failure, or the case is a system error. -/
def Undecided (judged : Outcome ExitReason (Progress × Bool)) : Prop :=
  (∃ reason, judged = .exited reason ∧ reason.code ≠ 0) ∨
    ∃ p ok, judged = .returned (p, ok) ∧ p.result = .se

theorem not_undecided_returned {judged : Progress × Bool} (h : judged.1.result ≠ .se) :
    ¬Undecided (.returned judged) := by
  rintro (⟨reason, hexited, -⟩ | ⟨p, ok, hreturned, hse⟩)
  · cases hexited
  · rw [Outcome.returned.inj hreturned] at h
    exact h hse

/-- The first report is the exit of the child. -/
theorem judge_of_exit {r : Report} {rest : List (Option Report)} {p : Progress}
    (hforks : c.forks = true) (hreports : c.reports = some r :: rest)
    (hexited : r.status.ifExited) :
    judge sol c p = (exitBranch sol c r.status (startCase sol p)).bind fun q =>
      .returned (settle sol c r q) := by
  rw [judge, if_pos hforks, hreports, waitLoop_cons_of_ifExited hexited]
  cases exitBranch sol c r.status (startCase sol p) with
  | returned q => rfl
  | exited reason => rfl
  | crashed => rfl
  | blocked => rfl

/-- The first report is the death of the child by a signal. -/
theorem judge_of_signal {r : Report} {rest : List (Option Report)} {p : Progress}
    (hforks : c.forks = true) (hreports : c.reports = some r :: rest)
    (hsignaled : r.status.ifSignaled) :
    judge sol c p = .returned (settle sol c r
      { startCase sol p with result := signalResult r.status.termSig }) := by
  have hsignal : fatalSignal r.status = some r.status.termSig := if_pos hsignaled
  rw [judge, if_pos hforks, hreports, waitLoop, onReport,
    if_neg (WaitStatus.not_ifExited_of_ifSignaled hsignaled), hsignal]
  rfl

/-- A child that has exited in its set-up is without a verdict only where its output cannot
be compared. -/
theorem undecided_iff_of_exit {r : Report} {rest : List (Option Report)} {p : Progress}
    {code : ℕ} (hforks : c.forks = true) (hreports : c.reports = some r :: rest)
    (hstatus : r.status = .ofExit code) (hcode : code < 256) (hne : code ≠ 0) :
    Undecided (judge sol c p) ↔
      (sol.lang ≠ .java ∧ sol.lang ≠ .kotlin) ∧ CannotCompare sol c := by
  have hexited : r.status.ifExited := hstatus ▸ WaitStatus.ifExited_ofExit _
  have hquit : NormalQuit sol r.status ↔ sol.lang ≠ .java ∧ sol.lang ≠ .kotlin := by
    have hexit : r.status.exitStatus ≠ 0 := by
      rw [hstatus, WaitStatus.exitStatus_ofExit, Nat.mod_eq_of_lt hcode]
      exact hne
    simp [NormalQuit, hexit]
  rw [← hquit, judge_of_exit hforks hreports hexited]
  by_cases hnormal : NormalQuit sol r.status
  · rw [exitBranch, if_pos hnormal]
    rcases compareCase_cases sol c with ⟨hcannot, cause, hcompare⟩ | ⟨hcan, result, hcompare⟩
    · rw [hcompare]
      exact iff_of_true (Or.inl ⟨cause, rfl, (compareCase_eq_exited hcompare).1⟩)
        ⟨hnormal, hcannot⟩
    · rw [hcompare]
      refine iff_of_false (not_undecided_returned ?_) (fun hboth => hcan hboth.2)
      apply settle_result_ne_se
      exact mergeResult_ne_se (compareCase_isCaseOutcome hcompare)
  · rw [exitBranch, if_neg hnormal]
    refine iff_of_false (not_undecided_returned ?_) (fun hboth => hnormal hboth.1)
    apply settle_result_ne_se
    simp

/-- A failed set-up stays without a verdict exactly when the judge gives up on
the case. -/
theorem undecided_iff_of_failsSetUp {fastJudge : Bool} (h : FailsSetUp fastJudge sol c)
    (p : Progress) : Undecided (judge sol c p) ↔ GivesUp sol c := by
  obtain ⟨u, -, hforks, report, rest, hreports, hstatus⟩ := h
  cases report with
  | none =>
      have hjudge : judge sol c p = .exited .judge := by
        rw [judge, if_pos hforks, hreports]
        rfl
      refine iff_of_true (Or.inl ⟨_, hjudge, by decide⟩) (Or.inl ?_)
      rw [hreports]
      rfl
  | some r =>
      have hshows := hstatus r rfl
      have hgivesUp : GivesUp sol c ↔ r.status.ifExited ∧
          (sol.lang ≠ .java ∧ sol.lang ≠ .kotlin) ∧ CannotCompare sol c := by
        simp [GivesUp, hreports, and_assoc]
      rw [hgivesUp]
      cases hchild : executor fastJudge sol.lang u with
      | returned _ =>
          rw [hchild] at hshows
          exact hshows.elim
      | blocked =>
          rw [hchild] at hshows
          exact hshows.elim
      | exited reason =>
          rw [hchild] at hshows
          have hcode : ∃ code, r.status = .ofExit code ∧ code < 256 ∧ code ≠ 0 := by
            rcases hshows with hexit | hlogger
            · exact ⟨_, hexit, reason.code_lt, executor_eq_exited hchild⟩
            · exact ⟨_, hlogger, by decide, by decide⟩
          obtain ⟨code, hexit, hlt, hne⟩ := hcode
          rw [undecided_iff_of_exit hforks hreports hexit hlt hne, hexit]
          exact (and_iff_right (WaitStatus.ifExited_ofExit code)).symm
      | crashed =>
          rw [hchild] at hshows
          obtain ⟨core, hkill⟩ := hshows
          have hsignaled : r.status.ifSignaled :=
            hkill ▸ WaitStatus.ifSignaled_ofKill core (by decide) (by decide)
          have hsegv : signalResult r.status.termSig = .re := by
            rw [hkill, WaitStatus.termSig_ofKill core (by decide)]
            decide
          rw [judge_of_signal hforks hreports hsignaled]
          refine iff_of_false (not_undecided_returned (settle_result_ne_se ?_)) ?_
          · rw [hsegv]
            exact (by decide : OjResult.re ≠ .se)
          · exact fun hboth => WaitStatus.not_ifExited_of_ifSignaled hsignaled hboth.1

/-! ## The whole run -/

/-- The run ends with a failure in this call, without a record, or the call makes
the case a system error. -/
def Call.Undecided (env : JudgeEnv) (call : Call) : Prop :=
  (∃ reason, judge call.sol call.case call.before = .exited reason ∧
      main env = .exited (.silent reason) ∧ reason.code ≠ 0) ∨
    ∃ p ok, judge call.sol call.case call.before = .returned (p, ok) ∧ p.result = .se

theorem Call.undecided_iff {env : JudgeEnv} {call : Call} (hcall : call ∈ judgeCalls env) :
    call.Undecided env ↔ PowerJudge.Undecided (judge call.sol call.case call.before) := by
  refine or_congr_left (exists_congr fun reason => ?_)
  refine ⟨fun h => ⟨h.1, h.2.2⟩, fun h => ⟨h.1, ?_, h.2⟩⟩
  unfold judgeCalls at hcall
  split at hcall
  · next sol hprepare =>
      have hrun : runSolution sol (foundCases env sol) = .exited reason := by
        rw [runSolution, runCases_of_mem_calls hcall h.1, Outcome.bind_exited]
      rw [main, hprepare, Outcome.bind_returned, hrun, Outcome.mapExited_exited]
  · cases hcall

/-- In a run of the judge no failed set-up becomes a verdict exactly when the
judge gives up on every case that it runs and whose set-up fails. -/
theorem failed_setUp_undecided_iff (fastJudge : Bool) (env : JudgeEnv) :
    (∀ call ∈ judgeCalls env, FailsSetUp fastJudge call.sol call.case → call.Undecided env) ↔
      ∀ call ∈ judgeCalls env, FailsSetUp fastJudge call.sol call.case →
        GivesUp call.sol call.case := by
  refine forall₂_congr fun call hcall => ?_
  refine forall_congr' fun hfails => ?_
  rw [Call.undecided_iff hcall, undecided_iff_of_failsSetUp hfails]

/-- A case with an empty standard output whose executor cannot call `chroot`. -/
def chrootFails : TestCase :=
  { TestCase.quiet [] [] with
    reports := [some (.idle (.ofExit ExitReason.setSecurity.code))] }

def chrootFailsEnv : JudgeEnv :=
  { acceptingEnv cpp11Arguments .oneCase with
    cases := fun _ => chrootFails }

/-- The one call of `judge` in that run. -/
def chrootFailsCall : Call := ⟨.init .cpp11, chrootFails, .start⟩

theorem failsSetUp_chrootFails : FailsSetUp false (.init .cpp11) chrootFails := by
  refine ⟨⟨true, true, true, true, false, true, true, true, true, true, true, true⟩,
    by decide, rfl, _, _, rfl, ?_⟩
  rintro r ⟨⟩
  exact Or.inl rfl

/-- The run reports `OJ_AC` for a program that was never executed. -/
theorem chroot_failure_accepted :
    chrootFailsCall ∈ judgeCalls chrootFailsEnv ∧
    FailsSetUp false (.init .cpp11) chrootFails ∧
    main chrootFailsEnv = .returned ⟨.ac, 0, 0, 0⟩ ∧
    ¬chrootFailsCall.Undecided chrootFailsEnv := by
  have hmem : chrootFailsCall ∈ judgeCalls chrootFailsEnv := List.mem_cons_self
  refine ⟨hmem, failsSetUp_chrootFails, by decide +kernel, ?_⟩
  rw [Call.undecided_iff hmem]
  have hiff := undecided_iff_of_failsSetUp failsSetUp_chrootFails .start
  intro hundecided
  rcases hiff.mp hundecided with hwait | ⟨-, -, -, hcannot⟩
  · cases hwait
  · rcases hcannot with hout | huser
    · cases hout
    · cases huser

end PowerJudge
