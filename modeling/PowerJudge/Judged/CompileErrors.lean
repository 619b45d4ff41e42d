import PowerJudge.Judge.SetUp
import PowerJudge.Judged.EndToEnd

/-!
# Where a Compile Error comes from

The child that becomes the compiler can fail before it is one, the judge maps every end of that
child but a success to a record `OJ_CE`, with one of two exit codes, and the daemon takes both
codes as a success.  Where the child has been killed the judge opens `stderr_compiler.txt`
itself, and is killed as well if it cannot.  The results of the cases are never `OJ_CE`, so that
the posted Compile Errors can be traced back to the compiler's child.
-/

namespace PowerJudge

/-! ## The child -/

/-- Which calls of the child of `compile` succeed. -/
structure CompilerSetUp where
  /-- `setrlimit` of the three resources, and the alarm. -/
  limitsCpu : Bool
  setsAlarm : Bool
  limitsAs : Bool
  limitsFsize : Bool
  /-- `freopen` of stdout and stderr. -/
  opensOutput : Bool
  opensError : Bool
  execs : Bool

/-- `set_compile_limit`. -/
def setCompileLimit (lang : Lang) (u : CompilerSetUp) : Outcome ExitReason Unit :=
  if !limitsCompiler lang then .returned ()
  else if !u.limitsCpu then .exited .setLimit
  else if !u.setsAlarm then .exited .setLimit
  else if !u.limitsAs then .exited .setLimit
  else if !u.limitsFsize then .exited .setLimit
  else .returned ()

/-- The child of `compile`: it returns when the compiler is executed. -/
def compilerChild (lang : Lang) (u : CompilerSetUp) : Outcome ExitReason Unit :=
  (setCompileLimit lang u).bind fun _ =>
    -- The message is written to the stream that `freopen` returns, null if it fails.
    if !u.opensError then .crashed
    else if !u.opensOutput then .exited .compileIo
    else if !u.execs then .exited .compileExec
    else .returned ()

/-- The judge waits for a child whose set-up has ended so. -/
def CompilerRun.Sees (run : CompilerRun) (outcome : Outcome ExitReason Unit) : Prop :=
  run.forks = true ∧ ∃ status, run.waited = some status ∧ ShowsFailure status outcome

theorem setCompileLimit_eq_exited {lang : Lang} {u : CompilerSetUp} {reason : ExitReason}
    (h : setCompileLimit lang u = .exited reason) : reason = .setLimit := by
  unfold setCompileLimit at h
  split_ifs at h
  all_goals
    cases h
    rfl

/-- A failure has a code other than `EXIT_SUCCESS`. -/
theorem compilerChild_eq_exited {lang : Lang} {u : CompilerSetUp} {reason : ExitReason}
    (h : compilerChild lang u = .exited reason) : reason.code ≠ 0 := by
  rw [compilerChild, Outcome.bind_eq_exited_iff] at h
  rcases h with hlimit | ⟨-, -, h⟩
  · cases setCompileLimit_eq_exited hlimit
    decide
  · split_ifs at h
    · cases h
      decide
    · cases h
      decide

/-! ## The compiler as the judge sees it -/

/-- The child has left a message for a language whose compiler exits with 0 all the same, has
exited without a success, or has been killed and the judge can open the file of its
messages. -/
def CompilerFails (lang : Lang) (run : CompilerRun) : Prop :=
  run.forks = true ∧ ∃ status, run.waited = some status ∧
    ((lang.isPython ∧ run.stderrSize ≠ 0) ∨ (status.ifSignaled ∧ run.reopensError = true) ∨
      status.ifExited ∧ status.exitStatus ≠ 0)

/-- The judge can report the crash of the compiler's child. -/
def CompilerRun.ReportsCrash (lang : Lang) (run : CompilerRun) : Prop :=
  run.reopensError = true ∨ lang.isPython ∧ run.stderrSize ≠ 0

/-- A set-up that fails is taken for a compiler that fails, unless it crashes and the judge
cannot report that. -/
theorem compilerFails_iff_of_sees {lang : Lang} {u : CompilerSetUp} {run : CompilerRun}
    (hsees : run.Sees (compilerChild lang u)) :
    CompilerFails lang run ↔ (compilerChild lang u = .crashed → run.ReportsCrash lang) := by
  obtain ⟨hforks, status, hwaited, hshows⟩ := hsees
  have hfails : CompilerFails lang run ↔ (lang.isPython ∧ run.stderrSize ≠ 0) ∨
      (status.ifSignaled ∧ run.reopensError = true) ∨
        status.ifExited ∧ status.exitStatus ≠ 0 := by
    simp [CompilerFails, hforks, hwaited]
  rw [hfails]
  cases houtcome : compilerChild lang u with
  | returned _ =>
      rw [houtcome] at hshows
      exact hshows.elim
  | blocked =>
      rw [houtcome] at hshows
      exact hshows.elim
  | exited reason =>
      rw [houtcome] at hshows
      refine iff_of_true (Or.inr (Or.inr ?_)) nofun
      have hcode : ∃ reason : ExitReason, reason.code ≠ 0 ∧ status = .ofExit reason.code := by
        rcases hshows with hstatus | hstatus
        · exact ⟨reason, compilerChild_eq_exited houtcome, hstatus⟩
        · exact ⟨.failure, by decide, hstatus⟩
      obtain ⟨shown, hne, rfl⟩ := hcode
      refine ⟨WaitStatus.ifExited_ofExit _, ?_⟩
      rw [WaitStatus.exitStatus_ofExit, Nat.mod_eq_of_lt shown.code_lt]
      exact hne
  | crashed =>
      rw [houtcome] at hshows
      obtain ⟨core, rfl⟩ := hshows
      have hsignaled : (WaitStatus.ofKill sigSegv core).ifSignaled :=
        WaitStatus.ifSignaled_ofKill core (by decide) (by decide)
      have hexited := WaitStatus.not_ifExited_of_ifSignaled hsignaled
      simp [CompilerRun.ReportsCrash, hsignaled, hexited, or_comm]

/-- The record `OJ_CE` is written exactly for a compiler that fails. -/
theorem compile_reports_iff {lang : Lang} {run : CompilerRun} :
    (∃ e, compile lang run = .exited e ∧ e.reported = some compileErrorRecord) ↔
      CompilerFails lang run := by
  unfold compile
  split
  · next hforks =>
      refine iff_of_false ?_ ?_
      · rintro ⟨e, hexit, hreported⟩
        cases hexit
        cases hreported
      · rintro ⟨hforks', -⟩
        simp [hforks'] at hforks
  · next hforks =>
      have hforks' : run.forks = true := by simpa using hforks
      cases hwaited : run.waited with
      | none =>
          refine iff_of_false ?_ ?_
          · rintro ⟨e, hexit, hreported⟩
            cases hexit
            cases hreported
          · rintro ⟨-, status, hstatus, -⟩
            rw [hwaited] at hstatus
            cases hstatus
      | some status =>
          have hfails : CompilerFails lang run ↔ (lang.isPython ∧ run.stderrSize ≠ 0) ∨
              (status.ifSignaled ∧ run.reopensError = true) ∨
                status.ifExited ∧ status.exitStatus ≠ 0 := by
            simp [CompilerFails, hforks', hwaited]
          rw [hfails]
          dsimp only
          split_ifs with hpython hexited hzero hgcc hfix hsignaled hreopens
          · exact iff_of_true ⟨_, rfl, rfl⟩ (Or.inl (by simpa using hpython))
          · refine iff_of_false ?_ ?_
            · rintro ⟨e, hexit, -⟩
              cases hexit
            · rintro (h | h | h)
              · exact hpython (by simpa using h)
              · exact WaitStatus.not_ifExited_of_ifSignaled h.1 hexited
              · exact h.2 hzero
          · exact iff_of_true ⟨_, rfl, rfl⟩ (Or.inr (Or.inr ⟨hexited, hzero⟩))
          · exact iff_of_true ⟨_, rfl, rfl⟩ (Or.inr (Or.inr ⟨hexited, hzero⟩))
          · exact iff_of_true ⟨_, rfl, rfl⟩ (Or.inr (Or.inr ⟨hexited, hzero⟩))
          · exact iff_of_true ⟨_, rfl, rfl⟩ (Or.inr (Or.inl ⟨hsignaled, hreopens⟩))
          · refine iff_of_false ?_ ?_
            · rintro ⟨e, hexit, -⟩
              cases hexit
            · rintro (h | h | h)
              · exact hpython (by simpa using h)
              · exact hreopens h.2
              · exact hexited h.1
          · refine iff_of_false ?_ ?_
            · rintro ⟨e, hexit, hreported⟩
              cases hexit
              cases hreported
            · rintro (h | h | h)
              · exact hpython (by simpa using h)
              · exact hsignaled h.1
              · exact hexited h.1

/-! ## The results of the cases -/

/-- The results that `judge` gives. -/
def caseResults : List OjResult := [.ac, .pe, .tle, .mle, .wa, .re, .ole, .rf, .ve]

variable {sol : OjSolution} {c : TestCase}

theorem mergeResult_mem {previous result : OjResult} (h : IsCaseOutcome result) :
    mergeResult previous result ∈ caseResults := by
  unfold mergeResult
  split_ifs
  · decide
  · rcases h with rfl | rfl | rfl | rfl <;> decide
  · decide

theorem signalResult_mem (signo : ℕ) : signalResult signo ∈ caseResults := by
  unfold signalResult
  split_ifs <;> decide

theorem Leaves.result_mem {r : Report} {p q : Progress} (h : Leaves sol c r p q) :
    q.result ∈ caseResults := by
  cases h with
  | compared _ _ hcompare => exact mergeResult_mem (compareCase_isCaseOutcome hcompare)
  | abnormal => exact (by decide : OjResult.re ∈ caseResults)
  | signal => exact signalResult_mem _
  | memory => exact (by decide : OjResult.mle ∈ caseResults)
  | syscall => exact (by decide : OjResult.rf ∈ caseResults)

theorem checkLimits_result_mem {last : Report} {p : Progress} (hp : p.result ∈ caseResults) :
    (checkLimits sol last p).result ∈ caseResults := by
  rw [checkLimits_result]
  split_ifs
  · decide
  · decide
  · exact hp

theorem classify_result_mem {p : Progress} (hp : p.result ∈ caseResults) :
    (classify sol c p).result ∈ caseResults := by
  unfold classify
  split
  · exact hp
  · split
    · next hwa =>
        split
        · rcases fixJavaResult_result sol c hwa with h | h | h <;> rw [h] <;> decide
        · split
          · exact (by decide : OjResult.re ∈ caseResults)
          · exact hp
    · exact hp

theorem judge_result_mem {p p' : Progress} {ok : Bool}
    (h : judge sol c p = .returned (p', ok)) : p'.result ∈ caseResults := by
  obtain ⟨passed, last, q, hends, hsettle⟩ := judge_eq_returned h
  obtain ⟨mid, -, hleaves⟩ := hends.leaves
  have hchecked := @checkLimits_result_mem sol last q hleaves.result_mem
  unfold settle at hsettle
  dsimp only at hsettle
  split at hsettle
  · obtain rfl : classify sol c (checkLimits sol last q) = p' := congrArg Prod.fst hsettle
    exact classify_result_mem hchecked
  · obtain rfl : checkLimits sol last q = p' := congrArg Prod.fst hsettle
    exact hchecked

theorem runSolution_result_mem {cases : List TestCase} {record : Record}
    (h : runSolution sol cases = .returned record) : record.result ∈ caseResults := by
  obtain ⟨ended, hloop, hresult, -⟩ := runSolution_eq_returned h
  rw [hresult]
  have hstart : Progress.start.result ∈ caseResults := by decide
  exact @runCases_invariant sol (fun p => p.result ∈ caseResults)
    (fun _ hjudge => judge_result_mem hjudge) _ _ _ _ _ hstart hloop

/-! ## What is posted -/

variable {env : JudgeEnv}

/-- The run reaches the compiler, which fails. -/
def CompileFails (env : JudgeEnv) : Prop :=
  ∃ armed, arm env = .returned armed ∧ connect env = .returned () ∧
    CompilerFails armed.1.sol.lang env.compiler

theorem prepare_of_reached {armed : Submission × ℕ} (harm : arm env = .returned armed)
    (hconnect : connect env = .returned ()) :
    prepare env = (compile armed.1.sol.lang env.compiler).bind fun _ =>
      (findCases env armed.1.sol).mapExited .silent := by
  rw [prepare, harm, Outcome.mapExited_returned, Outcome.bind_returned, hconnect]
  rfl

/-- The judge leaves with the record, and with a code that the daemon takes as a success. -/
theorem exitOf_of_compileFails (h : CompileFails env) :
    ∃ e, exitOf env = some e ∧ ¬e.reason.IsFailure ∧ e.reported = some compileErrorRecord := by
  obtain ⟨armed, harm, hconnect, hfails⟩ := h
  obtain ⟨e, hcompile, hreported⟩ := compile_reports_iff.mpr hfails
  have hmain : main env = .exited e := by
    rw [main, prepare_of_reached harm hconnect, hcompile]
    rfl
  refine ⟨e, ?_, (compile_eq_exited hcompile).1, hreported⟩
  rw [exitOf, hmain]

/-- A judge reports `OJ_CE` exactly when its compiler fails. -/
theorem reports_ce_iff {e : Exit} (hexit : exitOf env = some e) :
    (∃ record, e.reported = some record ∧ record.result = .ce) ↔ CompileFails env := by
  constructor
  · rintro ⟨record, hreported, hce⟩
    rcases exitOf_reported_cases hexit hreported with
      ⟨sol, -, hrun⟩ | ⟨armed, harm, hconnect, hcompile, rfl⟩
    · have hmem := runSolution_result_mem hrun
      rw [hce] at hmem
      exact absurd hmem (by decide)
    · exact ⟨armed, harm, hconnect, compile_reports_iff.mp ⟨e, hcompile, hreported⟩⟩
  · intro hfails
    obtain ⟨e', hexit', -, hreported⟩ := exitOf_of_compileFails hfails
    obtain rfl : e = e' := Option.some.inj (hexit.symm.trans hexit')
    exact ⟨_, hreported, rfl⟩

/-- A judge that has run to its end without a failure is pushed as a success. -/
theorem runPushes_of_finished {s : Supervision env} (hforks : s.forks = true)
    (hfinished : s.fate = .finished) {e : Exit} (hexit : exitOf env = some e)
    (hsuccess : ¬e.reason.IsFailure) :
    runPushes s.forks s.waited = ExitReason.ok.code := by
  have hwait := s.consistent hforks
  rw [hfinished, Fate.status, hexit, Option.map_some] at hwait
  generalize hanswer : s.waited = waited at hwait
  cases hwait with
  | ended =>
      rw [runPushes, hforks]
      exact (pushedCode_ofExit_reason e.reason).mpr hsuccess

theorem compileFails_iff_of_reached {armed : Submission × ℕ} (harm : arm env = .returned armed)
    (hconnect : connect env = .returned ()) :
    CompileFails env ↔ CompilerFails armed.1.sol.lang env.compiler := by
  constructor
  · rintro ⟨armed', harm', -, hfails⟩
    obtain rfl : armed = armed' := Outcome.returned.inj (harm.symm.trans harm')
    exact hfails
  · exact fun hfails => ⟨armed, harm, hconnect, hfails⟩

/-- A judge on a machine without `g++`. -/
def noCompilerEnv : JudgeEnv :=
  { acceptingEnv cpp11Arguments .oneCase with
    compiler :=
      { forks := true
        waited := some (.ofExit ExitReason.compileExec.code)
        stderrSize := 22
        grepCompilerError := 0
        reopensError := true } }

theorem exitOf_noCompilerEnv : exitOf noCompilerEnv = some ⟨.ok, some compileErrorRecord⟩ := by
  decide +kernel

def noCompilerSupervision : Supervision noCompilerEnv where
  forks := true
  execs := true
  fate := .finished
  waited := some (.ofExit 0)
  possible := fun _ => ⟨rfl, by simp [exitOf_noCompilerEnv]⟩
  consistent := by
    intro _
    rw [Fate.status, exitOf_noCompilerEnv]
    exact .ended _

end PowerJudge
