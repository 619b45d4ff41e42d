import PowerJudge.Judge.NormalExit
import PowerJudge.Judged.Supervise

/-!
# The result record

`output_acm_result` prints two `long`s that `update_result` scans into `int`s.
The numbers survive when they fit, which depends on the limits and on what the
executor has used.
-/

namespace PowerJudge

/-! ## The record -/

/-- The four numbers that are scanned are the four numbers written. -/
def Record.Survives (record : Record) : Prop :=
  scanRecord (recordText record.numbers) = some record.numbers

/-! ## The end of a case -/

variable {sol : OjSolution} {c : TestCase}

/-- The reports that the wait loop takes. -/
def takenReports (sol : OjSolution) (c : TestCase) :
    List (Option Report) → Progress → List Report
  | [], _ => []
  | none :: _, _ => []
  | some r :: rest, p =>
      r :: match onReport sol c r p with
        | .returned (.again p') => takenReports sol c rest p'
        | _ => []

/-- The branch for `OJ_TLE` sets the time usage to the limit. -/
def TimesOut (sol : OjSolution) (last : Report) (q : Progress) : Prop :=
  (checkLimits sol last q).result = .tle

/-- The branch of `fix_java_result` for an exhausted heap sets the memory usage to
the limit in bytes. -/
def ExhaustsHeap (sol : OjSolution) (c : TestCase) (last : Report) (q : Progress) : Prop :=
  sol.lang = .java ∧ (checkLimits sol last q).result = .wa ∧ OutOfMemory c

instance (sol : OjSolution) (last : Report) (q : Progress) : Decidable (TimesOut sol last q) :=
  inferInstanceAs (Decidable (_ = _))

instance (sol : OjSolution) (c : TestCase) (last : Report) (q : Progress) :
    Decidable (ExhaustsHeap sol c last q) :=
  inferInstanceAs (Decidable (_ ∧ _))

theorem settle_timeUsage {last : Report} {q : Progress} :
    (settle sol c last q).1.timeUsage =
      if TimesOut sol last q then sol.timeLimit else max q.timeUsage last.rusage.utimeMs := by
  unfold settle TimesOut
  dsimp only
  by_cases htle : (checkLimits sol last q).result = .tle
  · simp [htle, classify]
  · by_cases hac : (checkLimits sol last q).result = .ac
    · simp [hac]
    · by_cases hwa : (checkLimits sol last q).result = .wa
      · simp [hwa, (classify_wa sol c hwa).1]
      · simp [classify, hac, htle, hwa]

theorem settle_memoryUsage {last : Report} {q : Progress} :
    (settle sol c last q).1.memoryUsage =
      if ExhaustsHeap sol c last q then sol.memoryLimit * stdKb
      else max q.memoryUsage last.rusage.maxrss := by
  have hbytes : sol.memoryLimit * stdKb % 2 ^ 64 = sol.memoryLimit * stdKb := by
    have hlimit := sol.memoryLimit_lt
    unfold stdKb
    omega
  unfold settle ExhaustsHeap
  dsimp only
  by_cases hac : (checkLimits sol last q).result = .ac
  · simp [hac]
  · by_cases hwa : (checkLimits sol last q).result = .wa
    · rw [if_pos hac, (classify_wa sol c hwa).2.2.2, hbytes]
      simp [hwa]
    · by_cases htle : (checkLimits sol last q).result = .tle
      · simp [classify, htle]
      · simp [classify, hac, htle, hwa]

/-- The time usage stays below a bound unless the limit is not below it and the
executor reaches the bound, or runs out of time. -/
theorem settle_timeUsage_lt_iff {last : Report} {q : Progress} (bound : ℕ)
    (hq : q.timeUsage ≤ sol.timeLimit) :
    (settle sol c last q).1.timeUsage < bound ↔
      q.timeUsage < bound ∧
        (bound ≤ sol.timeLimit → last.rusage.utimeMs < bound ∧ ¬TimesOut sol last q) := by
  rw [settle_timeUsage]
  by_cases htle : TimesOut sol last q
  · simp only [htle, if_true, not_true_eq_false, and_false, imp_false]
    omega
  · have hmax := (checkLimits_excess sol last q).1 htle
    rw [checkLimits_timeUsage] at hmax
    simp only [htle, if_false, not_false_eq_true, and_true]
    omega

/-- The memory usage stays below a bound unless a report reaches it, or the limit
in bytes is taken over and does. -/
theorem settle_memoryUsage_lt_iff {last : Report} {q : Progress} (bound : ℕ) :
    (settle sol c last q).1.memoryUsage < bound ↔
      max q.memoryUsage last.rusage.maxrss < bound ∧
        (bound ≤ sol.memoryLimit * stdKb → ¬ExhaustsHeap sol c last q) := by
  rw [settle_memoryUsage]
  by_cases hheap : ExhaustsHeap sol c last q
  · have hwa := hheap.2.1
    have hmax := (checkLimits_excess sol last q).2 (by rw [hwa]; decide) (by rw [hwa]; decide)
    rw [checkLimits_memoryUsage] at hmax
    have hbytes : sol.memoryLimit ≤ sol.memoryLimit * stdKb := by
      unfold stdKb
      omega
    simp only [hheap, if_true, not_true_eq_false, imp_false]
    omega
  · simp [hheap]

/-! ## One call -/

/-- The running maximum over the reports taken is below a bound when all of them
are. -/
theorem waitLoop_memoryUsage_lt_iff {reports : List (Option Report)} {p q : Progress}
    {last : Report} (bound : ℕ) (h : waitLoop sol c reports p = .returned (q, last)) :
    max q.memoryUsage last.rusage.maxrss < bound ↔
      p.memoryUsage < bound ∧
        ∀ r ∈ takenReports sol c reports p, r.rusage.maxrss < bound := by
  induction reports generalizing p with
  | nil => cases h
  | cons report rest ih =>
      cases report with
      | none => cases h
      | some r =>
          rw [waitLoop, Outcome.bind_eq_returned_iff] at h
          obtain ⟨step, hstep, h⟩ := h
          rw [takenReports, hstep, List.forall_mem_cons]
          cases step with
          | leave p' =>
              cases h
              have hmax := (leaves_of_onReport hstep).max_memoryUsage
              rw [hmax, max_lt_iff]
              simp
          | again p' =>
              have hpass := passes_of_onReport hstep
              rw [ih h, hpass.memoryUsage, max_lt_iff, and_assoc]

/-- A call of `judge` leaves usages that fit 32 bits, when those before it do:
every report stays below the bound, the time limit is not taken over when it does
not, and neither is the memory limit. -/
structure Call.FitsInt (call : Call) : Prop where
  maxrss : ∀ r ∈ takenReports call.sol call.case call.case.reports
    (startCase call.sol call.before), r.rusage.maxrss < 2 ^ 31
  time : 2 ^ 31 ≤ call.sol.timeLimit → ∀ q last,
    waitLoop call.sol call.case call.case.reports (startCase call.sol call.before) =
      .returned (q, last) →
    last.rusage.utimeMs < 2 ^ 31 ∧ ¬TimesOut call.sol last q
  heap : 2 ^ 31 ≤ call.sol.memoryLimit * stdKb → ∀ q last,
    waitLoop call.sol call.case call.case.reports (startCase call.sol call.before) =
      .returned (q, last) →
    ¬ExhaustsHeap call.sol call.case last q

/-- The usages fit 32 bits. -/
def Progress.FitsInt (p : Progress) : Prop := p.timeUsage < 2 ^ 31 ∧ p.memoryUsage < 2 ^ 31

/-- What a returning call does to the usages. -/
theorem judge_fitsInt_iff {p p' : Progress} {ok : Bool} (hp : p.timeUsage ≤ sol.timeLimit)
    (h : judge sol c p = .returned (p', ok)) :
    p'.FitsInt ↔ p.FitsInt ∧ Call.FitsInt ⟨sol, c, p⟩ := by
  obtain ⟨-, q, last, hloop, hsettle⟩ := judge_waitLoop h
  obtain rfl : (settle sol c last q).1 = p' := congrArg Prod.fst hsettle
  have hmemory := waitLoop_memoryUsage_lt_iff (2 ^ 31) hloop
  have htime : q.timeUsage = (startCase sol p).timeUsage := waitLoop_timeUsage hloop
  change _ ↔ p.memoryUsage < _ ∧ _ at hmemory
  change _ = p.timeUsage at htime
  have hends : ∀ {P : Progress → Report → Prop},
      (∀ q' last', waitLoop sol c c.reports (startCase sol p) = .returned (q', last') →
        P q' last') ↔ P q last := by
    intro P
    constructor
    · exact fun h => h q last hloop
    · intro h q' last' hloop'
      rw [hloop] at hloop'
      cases hloop'
      exact h
  rw [Progress.FitsInt, settle_timeUsage_lt_iff (2 ^ 31) (htime ▸ hp),
    settle_memoryUsage_lt_iff, hmemory, htime]
  constructor
  · rintro ⟨⟨hptime, hlimit⟩, ⟨hpmemory, hreports⟩, hheap⟩
    exact ⟨⟨hptime, hpmemory⟩, hreports, fun hle => hends.mpr (hlimit hle),
      fun hle => hends.mpr (hheap hle)⟩
  · rintro ⟨⟨hptime, hpmemory⟩, hreports, hlimit, hheap⟩
    exact ⟨⟨hptime, fun hle => hends.mp (hlimit hle)⟩, ⟨hpmemory, hreports⟩,
      fun hle => hends.mp (hheap hle)⟩

/-! ## The whole run -/

theorem fitsInt_start : Progress.start.FitsInt := by
  constructor
  · decide
  · decide

theorem runCases_fitsInt_iff {cases : List TestCase} {i f : ℕ} {p : Progress}
    {ended : Progress × ℕ} (hp : p.timeUsage ≤ sol.timeLimit)
    (h : runCases sol cases i f p = .returned ended) :
    ended.1.FitsInt ↔ p.FitsInt ∧ ∀ call ∈ calls sol cases p, call.FitsInt := by
  induction cases generalizing i f p with
  | nil =>
      cases h
      simp [calls]
  | cons c cases ih =>
      obtain ⟨p', ok, hjudge⟩ := runCases_cons_eq_returned h
      have hstep := judge_fitsInt_iff hp hjudge
      rw [runCases_cons_of_returned hjudge] at h
      rw [calls, hjudge, List.forall_mem_cons, ← and_assoc, ← hstep]
      dsimp only
      split at h
      · next hgo =>
          rw [if_pos hgo]
          exact ih (judge_withinLimits hjudge).time_le h
      · next hstop =>
          rw [if_neg hstop]
          cases h
          simp

/-- The memory usage is a `long`. -/
theorem judge_memoryUsage_lt {p p' : Progress} {ok : Bool} (hp : p.memoryUsage < 2 ^ 63)
    (h : judge sol c p = .returned (p', ok)) : p'.memoryUsage < 2 ^ 63 := by
  obtain ⟨-, q, last, hloop, hsettle⟩ := judge_waitLoop h
  obtain rfl : (settle sol c last q).1 = p' := congrArg Prod.fst hsettle
  have hlimit := sol.memoryLimit_lt
  refine (settle_memoryUsage_lt_iff (2 ^ 63)).mpr ⟨?_, fun hle => ?_⟩
  · exact (waitLoop_memoryUsage_lt_iff (2 ^ 63) hloop).mpr ⟨hp, fun r _ => r.rusage.maxrss_lt⟩
  · unfold stdKb at hle
    omega

theorem runCases_memoryUsage_lt {cases : List TestCase} {i f : ℕ} {p : Progress}
    {ended : Progress × ℕ} (hp : p.memoryUsage < 2 ^ 63)
    (h : runCases sol cases i f p = .returned ended) : ended.1.memoryUsage < 2 ^ 63 :=
  runCases_invariant (fun hq hjudge => judge_memoryUsage_lt hq hjudge) hp h

/-- The test number is at most the number of cases. -/
theorem runCases_test_le {cases : List TestCase} {i f : ℕ} {p : Progress}
    {ended : Progress × ℕ} (hf : f ≤ i) (h : runCases sol cases i f p = .returned ended) :
    ended.2 ≤ i + cases.length := by
  induction cases generalizing i f p with
  | nil =>
      cases h
      exact hf
  | cons c cases ih =>
      obtain ⟨p', ok, hjudge⟩ := runCases_cons_eq_returned h
      have hnote : noteFailure f i p'.result ≤ i + 1 := by
        unfold noteFailure
        split
        · exact Nat.le_refl _
        · exact Nat.le_succ_of_le hf
      rw [runCases_cons_of_returned hjudge] at h
      rw [List.length_cons]
      split at h
      · have hle := ih hnote h
        omega
      · cases h
        dsimp only
        omega

/-! ## Reading the record back -/

/-- A record survives when its two usages fit. -/
theorem survives_iff_of_usages {record : Record} {time memory : ℕ}
    (htime : record.timeUsage = toLong time) (hmemory : record.memoryUsage = toLong memory)
    (htimeLt : time < 2 ^ 63) (hmemoryLt : memory < 2 ^ 63) (htest : record.test < 2 ^ 31) :
    record.Survives ↔ time < 2 ^ 31 ∧ memory < 2 ^ 31 := by
  rw [toLong_of_lt htimeLt] at htime
  rw [toLong_of_lt hmemoryLt] at hmemory
  have hcode := scanInt_code record.result
  have hcodeLt := record.result.code_lt
  have hscanned : scanInt record.test = record.test := by
    rw [scanInt_eq_iff]
    omega
  have hlong : record.numbers.AreLong := by
    unfold Record.numbers
    constructor <;> dsimp only <;> omega
  have hnumbers : record.numbers.scanned = record.numbers ↔
      scanInt record.timeUsage = record.timeUsage ∧
        scanInt record.memoryUsage = record.memoryUsage := by
    simp [Record.numbers, RecordNumbers.scanned, hcode, hscanned]
  rw [Record.Survives, scanRecord_recordText hlong, Option.some.injEq, hnumbers,
    scanInt_eq_iff, scanInt_eq_iff]
  omega

theorem survives_compileErrorRecord : compileErrorRecord.Survives := by
  have hiff := @survives_iff_of_usages compileErrorRecord 0 0 rfl rfl
  exact (hiff (by decide) (by decide) (by decide)).mpr (by decide)

/-- `compile` reports nothing but its own record. -/
theorem compile_reported {lang : Lang} {run : CompilerRun} {e : Exit}
    (h : compile lang run = .exited e) :
    e.reported = none ∨ e.reported = some compileErrorRecord := by
  unfold compile at h
  split at h
  · cases h
    exact Or.inl rfl
  · split at h
    · cases h
      exact Or.inl rfl
    · split_ifs at h
      all_goals
        cases h
        first
        | exact Or.inl rfl
        | exact Or.inr rfl

theorem prepare_reported {env : JudgeEnv} {e : Exit} (h : prepare env = .exited e) :
    e.reported = none ∨ e.reported = some compileErrorRecord := by
  rw [prepare, Outcome.bind_eq_exited_iff] at h
  rcases h with harm | ⟨armed, -, h⟩
  · obtain ⟨reason, -, rfl⟩ := Outcome.mapExited_eq_exited_iff.mp harm
    exact Or.inl rfl
  · rw [Outcome.bind_eq_exited_iff] at h
    rcases h with hconnect | ⟨-, -, h⟩
    · obtain ⟨reason, -, rfl⟩ := Outcome.mapExited_eq_exited_iff.mp hconnect
      exact Or.inl rfl
    · rw [Outcome.bind_eq_exited_iff] at h
      rcases h with hcompile | ⟨-, -, hfind⟩
      · exact compile_reported hcompile
      · obtain ⟨reason, -, rfl⟩ := Outcome.mapExited_eq_exited_iff.mp hfind
        exact Or.inl rfl

/-- The record of a run over cases. -/
theorem survives_iff_of_runSolution {env : JudgeEnv} {record : Record}
    (hrun : runSolution sol (foundCases env sol) = .returned record) :
    record.Survives ↔ ∀ call ∈ calls sol (foundCases env sol) .start, call.FitsInt := by
  obtain ⟨ended, hloop, -, htime, hmemory, htest⟩ := runSolution_eq_returned hrun
  have hlimits := runCases_withinLimits withinLimits_start hloop
  have hlimit := sol.timeLimit_lt
  have htimeLe := hlimits.time_le
  have hcount := numOfTest_lt env.dir sol.spj
  have htestLe := runCases_test_le (Nat.le_refl 0) hloop
  have hlength : (foundCases env sol).length = numOfTest env.dir sol.spj := by
    simp [foundCases]
  rw [survives_iff_of_usages htime hmemory (by omega)
    (runCases_memoryUsage_lt (by decide) hloop) (by omega)]
  change ended.1.FitsInt ↔ _
  rw [runCases_fitsInt_iff (Nat.zero_le _) hloop]
  exact and_iff_right fitsInt_start

/-- The record of a run of the judge survives exactly when every call of `judge`
in it leaves usages that fit an `int`. -/
theorem record_survives_iff {env : JudgeEnv} {e : Exit} {record : Record}
    (hexit : exitOf env = some e) (hreported : e.reported = some record) :
    record.Survives ↔ ∀ call ∈ judgeCalls env, call.FitsInt := by
  unfold exitOf at hexit
  split at hexit
  · next record' hmain =>
      cases hexit
      cases hreported
      rw [main, Outcome.bind_eq_returned_iff] at hmain
      obtain ⟨sol, hprepare, hrun⟩ := hmain
      rw [Outcome.mapExited_eq_returned_iff] at hrun
      rw [judgeCalls, hprepare]
      exact survives_iff_of_runSolution hrun
  · next e' hmain =>
      cases hexit
      rw [main, Outcome.bind_eq_exited_iff] at hmain
      rcases hmain with hprepare | ⟨sol, -, hrun⟩
      · have hcalls : judgeCalls env = [] := by
          rw [judgeCalls, hprepare]
        rw [hcalls]
        rcases prepare_reported hprepare with hnone | hsome
        · cases hnone.symm.trans hreported
        · obtain rfl := Option.some.inj (hsome.symm.trans hreported)
          exact iff_of_true survives_compileErrorRecord (by simp)
      · obtain ⟨reason, -, rfl⟩ := Outcome.mapExited_eq_exited_iff.mp hrun
        cases hreported
  · cases hexit
  · cases hexit

/-- A Java submission with a memory limit of a gigabyte. -/
def javaArguments : Arguments where
  options :=
    [('s', ascii "1000"), ('p', ascii "1405"), ('l', ascii "4"), ('m', ascii "1048576"),
      ('D', ascii "/data")]
  realpath := some
  logOpens := true
  sourceExists := fun _ => true

/-- The program fails with a wrong answer and the message of an exhausted heap. -/
def outOfMemoryEnv : JudgeEnv :=
  { acceptingEnv javaArguments .oneCase with
    cases := fun _ => { TestCase.quiet [49] [] with grepStderr := fun _ => 0 } }

/-- The memory usage of three gigabytes that is written is scanned as a negative
number. -/
theorem record_lost :
    exitOf outOfMemoryEnv = some ⟨.ok, some ⟨.mle, 0, 3221225472, 1⟩⟩ ∧
    scanRecord (recordText (Record.numbers ⟨.mle, 0, 3221225472, 1⟩)) =
      some ⟨3, 0, -1073741824, 1⟩ ∧
    ¬Record.Survives ⟨.mle, 0, 3221225472, 1⟩ := by
  have hread : scanRecord (recordText (Record.numbers ⟨.mle, 0, 3221225472, 1⟩)) =
      some ⟨3, 0, -1073741824, 1⟩ := by
    decide
  refine ⟨by decide +kernel, hread, ?_⟩
  rw [Record.Survives, hread]
  decide

/-- The second of three cases is a wrong answer. -/
def secondWrongEnv : JudgeEnv :=
  { acceptingEnv cpp11Arguments (.ofFiles [ascii "1.in", ascii "1.out", ascii "2.in",
      ascii "2.out", ascii "3.in", ascii "3.out"] (by decide)) with
    cases := fun i => secondWrong.getD i .accepting }

/-- The record of a run that fails survives. -/
theorem record_survives_iff_wrong :
    exitOf secondWrongEnv = some ⟨.ok, some ⟨.wa, 250, 3072, 2⟩⟩ ∧
    (judgeCalls secondWrongEnv).length = 2 ∧
    ∀ call ∈ judgeCalls secondWrongEnv, call.FitsInt := by
  have hexit : exitOf secondWrongEnv = some ⟨.ok, some ⟨.wa, 250, 3072, 2⟩⟩ := by
    decide +kernel
  refine ⟨hexit, by decide +kernel, (record_survives_iff hexit rfl).mp ?_⟩
  have hiff := @survives_iff_of_usages ⟨.wa, 250, 3072, 2⟩ 250 3072 rfl rfl
  exact (hiff (by decide) (by decide) (by decide)).mpr (by decide)

end PowerJudge
