import PowerJudge.Judge.Main

/-!
# How the judge process exits

The daemon takes the exit statuses 0 and 6 for success.  Every exit with one of
them has reported a record, apart from those of `compile` that the source marks
as system errors and the failed fork, which share the number 6.
-/

namespace PowerJudge

/-- An exit that the daemon does not take for success. -/
def ExitReason.IsFailure (reason : ExitReason) : Prop :=
  reason.code ≠ ExitReason.ok.code ∧ reason.code ≠ ExitReason.compileError.code

instance (reason : ExitReason) : Decidable reason.IsFailure :=
  inferInstanceAs (Decidable (_ ∧ _))

variable {sol : OjSolution} {c : TestCase} {reason : ExitReason}

/-! ## Judging -/

theorem compareCase_eq_exited (h : compareCase sol c = .exited reason) :
    reason.IsFailure := by
  unfold compareCase at h
  split at h
  · unfold ojCompareOutputSpj at h
    split at h
    · cases h
      decide
    · cases h
      decide
    · cases h
  · unfold ojCompareOutput at h
    split at h
    · cases h
      decide
    · cases h
      decide
    · cases h

theorem stopBranch_eq_exited {r : Report} {p : Progress}
    (h : stopBranch sol r p = .exited reason) : reason.IsFailure := by
  simp only [stopBranch] at h
  split at h
  · cases h
  · split at h
    · cases h
      decide
    · split at h
      · cases h
      · split at h
        · cases h
        · cases h
          decide

theorem onReport_eq_exited {r : Report} {p : Progress}
    (h : onReport sol c r p = .exited reason) : reason.IsFailure := by
  unfold onReport at h
  split at h
  · rw [Outcome.bind_eq_exited_iff] at h
    rcases h with h | ⟨p', -, h⟩
    · unfold exitBranch at h
      split at h
      · rw [Outcome.bind_eq_exited_iff] at h
        rcases h with h | ⟨result, -, h⟩
        · exact compareCase_eq_exited h
        · cases h
      · cases h
    · cases h
  · split at h
    · cases h
    · exact stopBranch_eq_exited h

theorem waitLoop_eq_exited {reports : List (Option Report)} {p : Progress}
    (h : waitLoop sol c reports p = .exited reason) : reason.IsFailure := by
  induction reports generalizing p with
  | nil => cases h
  | cons report rest ih =>
      cases report with
      | none =>
          cases h
          decide
      | some r =>
          rw [waitLoop, Outcome.bind_eq_exited_iff] at h
          rcases h with h | ⟨step, -, h⟩
          · exact onReport_eq_exited h
          · cases step with
            | leave p' => cases h
            | again p' => exact ih h

theorem judge_eq_exited {p : Progress} (h : judge sol c p = .exited reason) :
    reason.IsFailure := by
  unfold judge at h
  split at h
  · rw [Outcome.bind_eq_exited_iff] at h
    rcases h with h | ⟨ended, -, h⟩
    · exact waitLoop_eq_exited h
    · cases h
  · cases h
    decide

theorem runCases_eq_exited {cases : List TestCase} {i f : ℕ} {p : Progress}
    (h : runCases sol cases i f p = .exited reason) : reason.IsFailure := by
  induction cases generalizing i f p with
  | nil => cases h
  | cons c cases ih =>
      rw [runCases, Outcome.bind_eq_exited_iff] at h
      rcases h with h | ⟨judged, -, h⟩
      · exact judge_eq_exited h
      · dsimp only at h
        split at h
        · cases h
        · exact ih h

theorem runSolution_eq_exited {cases : List TestCase}
    (h : runSolution sol cases = .exited reason) : reason.IsFailure := by
  rw [runSolution, Outcome.bind_eq_exited_iff] at h
  rcases h with h | ⟨ended, -, h⟩
  · exact runCases_eq_exited h
  · cases h

/-! ## The start -/

theorem applyOption_eq_exited {args : Arguments} {o : Options} {option : Char × Bytes}
    (h : applyOption args o option = .exited reason) : reason = .badParam := by
  unfold applyOption at h
  split at h <;> first
    | cases h; rfl
    | cases h
    | split at h <;> cases h; rfl

theorem applyOptions_eq_exited {args : Arguments} {options : List (Char × Bytes)}
    {o : Options} (h : applyOptions args options o = .exited reason) :
    reason = .badParam := by
  induction options generalizing o with
  | nil => cases h
  | cons option options ih =>
      rw [applyOptions, Outcome.bind_eq_exited_iff] at h
      rcases h with h | ⟨o', -, h⟩
      · exact applyOption_eq_exited h
      · exact ih h

theorem checkArguments_eq_exited {o : Options} (h : checkArguments o = .exited reason) :
    reason.IsFailure := by
  unfold checkArguments at h
  split_ifs at h
  · cases h
    decide
  · cases h
    decide
  · cases h
    decide
  · split at h
    · cases h
    · cases h
      decide

theorem parseArguments_eq_exited {args : Arguments}
    (h : parseArguments args = .exited reason) : reason.IsFailure := by
  rw [parseArguments, Outcome.bind_eq_exited_iff] at h
  rcases h with h | ⟨o, -, h⟩
  · rw [applyOptions_eq_exited h]
    decide
  · split at h
    · cases h
      decide
    · rw [Outcome.bind_eq_exited_iff] at h
      rcases h with h | ⟨lang, -, h⟩
      · exact checkArguments_eq_exited h
      · dsimp only at h
        split at h
        · cases h
          decide
        · cases h

variable {env : JudgeEnv}

theorem arm_eq_exited (h : arm env = .exited reason) : reason.IsFailure := by
  rw [arm, Outcome.bind_eq_exited_iff] at h
  rcases h with h | ⟨submission, -, h⟩
  · exact parseArguments_eq_exited h
  · split_ifs at h
    all_goals
      cases h
      decide

theorem connect_eq_exited (h : connect env = .exited reason) : reason.IsFailure := by
  unfold connect at h
  split_ifs at h
  all_goals
    cases h
    decide

theorem findCases_eq_exited (h : findCases env sol = .exited reason) :
    reason.IsFailure := by
  unfold findCases at h
  split at h
  · cases h
    decide
  · cases h

/-! ## The compiler -/

/-- The compiler cannot be started or waited for, or it is stopped. -/
def SilentCompiler (lang : Lang) (run : CompilerRun) : Prop :=
  run.forks = false ∨ run.waited = none ∨
    ∃ status, run.waited = some status ∧ ¬(lang.isPython ∧ run.stderrSize ≠ 0) ∧
      ¬status.ifExited ∧ ¬status.ifSignaled

/-- `compile` leaves the process with a success code or with a record, and
without a record only for a silent compiler. -/
theorem compile_eq_exited {lang : Lang} {run : CompilerRun} {e : Exit}
    (h : compile lang run = .exited e) :
    ¬e.reason.IsFailure ∧ (e.reported = none ↔ SilentCompiler lang run) := by
  unfold compile at h
  split at h
  · next hforks =>
      cases h
      refine ⟨by decide, iff_of_true rfl (Or.inl ?_)⟩
      simpa using hforks
  · next hforks =>
      have hforks' : run.forks ≠ false := by simpa using hforks
      split at h
      · next hwaited =>
          cases h
          exact ⟨by decide, iff_of_true rfl (Or.inr (Or.inl hwaited))⟩
      · next status hwaited =>
          have hsilent : SilentCompiler lang run ↔
              ¬(lang.isPython ∧ run.stderrSize ≠ 0) ∧ ¬status.ifExited ∧
                ¬status.ifSignaled := by
            simp [SilentCompiler, hforks', hwaited]
          rw [hsilent]
          split_ifs at h with hpython hexited hzero hgcc hfix hsignaled hreopens
          · cases h
            simp at hpython
            refine ⟨by decide, ?_⟩
            simp [hpython]
          · cases h
            refine ⟨by decide, ?_⟩
            simp [hexited]
          · cases h
            refine ⟨by decide, ?_⟩
            simp [hexited]
          · cases h
            refine ⟨by decide, ?_⟩
            simp [hexited]
          · cases h
            refine ⟨by decide, ?_⟩
            simp [hsignaled]
          · cases h
            simp at hpython
            refine ⟨by decide, ?_⟩
            simp [Exit.silent, hexited, hsignaled]
            exact hpython

theorem compile_of_silent {lang : Lang} {run : CompilerRun} (h : SilentCompiler lang run) :
    ∃ e, compile lang run = .exited e := by
  unfold compile
  split
  · exact ⟨_, rfl⟩
  · next hforks =>
      split
      · exact ⟨_, rfl⟩
      · next status hwaited =>
          rcases h with h | h | ⟨status', h, hpython, hexited, hsignaled⟩
          · simp [h] at hforks
          · rw [hwaited] at h
            cases h
          · rw [hwaited] at h
            cases h
            have hpython' : ¬(lang.isPython && run.stderrSize ≠ 0) = true := by
              simpa using hpython
            rw [if_neg hpython', if_neg hexited, if_neg hsignaled]
            exact ⟨_, rfl⟩

/-! ## The process -/

/-- How a run of the judge leaves that is not cut short, if it does. -/
def exitOf (env : JudgeEnv) : Option Exit :=
  match main env with
  | .returned record => some ⟨.ok, some record⟩
  | .exited e => some e
  | .crashed => none
  | .blocked => none

/-- The run reaches the compiler and leaves there without a record. -/
def CompilesSilently (env : JudgeEnv) : Prop :=
  ∃ armed, arm env = .returned armed ∧ connect env = .returned () ∧
    SilentCompiler armed.1.sol.lang env.compiler

theorem not_compilesSilently_of_prepare {sol : OjSolution}
    (h : prepare env = .returned sol) : ¬CompilesSilently env := by
  obtain ⟨armed, harm, hcompile, -⟩ := prepare_eq_returned h
  rintro ⟨armed', harm', -, hsilent⟩
  obtain rfl : armed = armed' := Outcome.returned.inj (harm.symm.trans harm')
  obtain ⟨e, hexited⟩ := compile_of_silent hsilent
  rw [hcompile] at hexited
  cases hexited

/-- Leaving before the cases: a failure without a record, or an exit of
`compile`. -/
theorem prepare_eq_exited {e : Exit} (h : prepare env = .exited e) :
    ¬e.reason.IsFailure ∧ e.reported = none ↔ CompilesSilently env := by
  rw [prepare, Outcome.bind_eq_exited_iff] at h
  rcases h with h | ⟨armed, harm, h⟩
  · obtain ⟨reason, harm, rfl⟩ := Outcome.mapExited_eq_exited_iff.mp h
    refine iff_of_false (fun hnot => hnot.1 (arm_eq_exited harm)) ?_
    rintro ⟨armed, harm', -⟩
    rw [harm] at harm'
    cases harm'
  · rw [Outcome.mapExited_eq_returned_iff] at harm
    rw [Outcome.bind_eq_exited_iff] at h
    rcases h with h | ⟨⟨⟩, hconnect, h⟩
    · obtain ⟨reason, hconnect, rfl⟩ := Outcome.mapExited_eq_exited_iff.mp h
      refine iff_of_false (fun hnot => hnot.1 (connect_eq_exited hconnect)) ?_
      rintro ⟨-, -, hconnect', -⟩
      rw [hconnect] at hconnect'
      cases hconnect'
    · rw [Outcome.mapExited_eq_returned_iff] at hconnect
      rw [Outcome.bind_eq_exited_iff] at h
      have hsilent : CompilesSilently env ↔
          SilentCompiler armed.1.sol.lang env.compiler := by
        constructor
        · rintro ⟨armed', harm', -, hsilent⟩
          obtain rfl : armed = armed' := Outcome.returned.inj (harm.symm.trans harm')
          exact hsilent
        · exact fun hsilent => ⟨armed, harm, hconnect, hsilent⟩
      rw [hsilent]
      rcases h with h | ⟨⟨⟩, hcompile, h⟩
      · obtain ⟨hsuccess, hreported⟩ := compile_eq_exited h
        rw [← hreported]
        exact ⟨fun hnot => hnot.2, fun hnone => ⟨hsuccess, hnone⟩⟩
      · obtain ⟨reason, hfind, rfl⟩ := Outcome.mapExited_eq_exited_iff.mp h
        refine iff_of_false (fun hnot => hnot.1 (findCases_eq_exited hfind)) ?_
        intro hsilent'
        obtain ⟨e, hexited⟩ := compile_of_silent hsilent'
        rw [hcompile] at hexited
        cases hexited

/-- The only exits that look like success and have reported nothing are those of
`compile` with a silent compiler. -/
theorem exitOf_silent_iff {e : Exit} (h : exitOf env = some e) :
    ¬e.reason.IsFailure ∧ e.reported = none ↔ CompilesSilently env := by
  unfold exitOf at h
  split at h
  · next record hmain =>
      cases h
      rw [main, Outcome.bind_eq_returned_iff] at hmain
      obtain ⟨sol, hprepare, -⟩ := hmain
      exact iff_of_false (by simp) (not_compilesSilently_of_prepare hprepare)
  · next e' hmain =>
      cases h
      rw [main, Outcome.bind_eq_exited_iff] at hmain
      rcases hmain with hprepare | ⟨sol, hprepare, hrun⟩
      · exact prepare_eq_exited hprepare
      · obtain ⟨reason, hexited, rfl⟩ := Outcome.mapExited_eq_exited_iff.mp hrun
        refine iff_of_false (fun hnot => hnot.1 (runSolution_eq_exited hexited)) ?_
        exact not_compilesSilently_of_prepare hprepare
  · cases h
  · cases h

end PowerJudge
