import Mathlib.Algebra.Order.Ring.Nat
import Mathlib.Data.Nat.Prime.Basic
import PowerJudge.Judge.Accepted
import PowerJudge.Judge.Main
import PowerJudge.Judge.NormalExit

/-!
# The alarm of the whole run

The duration of the alarm is a product with the number of cases that
`get_num_of_test` counts, before `check_spj` has set `spj`.  It is compared with
the budgets of the stages that the alarm covers.
-/

namespace PowerJudge

/-! ## Budgets -/

def compileTimeLimit : ℕ := 5347

def spjTimeLimit : ℕ := 10347

def timeLimitAddtion : ℕ := 347

/-- The languages for which `set_compile_limit` sets limits. -/
def limitsCompiler (lang : Lang) : Bool :=
  !(lang = .java || lang = .python27 || lang = .python3 || lang = .kotlin)

/-- The budgets of the compiler and of `k` cases. -/
def stageBudget (sol : OjSolution) (k : ℕ) : ℕ :=
  compileTimeLimit + k * (sol.timeLimit + timeLimitAddtion) +
    if sol.spj then k * spjTimeLimit else 0

/-! ## The cases executed -/

/-- The number of calls of `judge` that the loop makes. -/
def casesExecuted (sol : OjSolution) : List TestCase → Progress → ℕ
  | [], _ => 0
  | c :: cases, p =>
      match judge sol c p with
      | .returned (p', ok) =>
          1 + if ok ∨ sol.judgeType ≠ acm then casesExecuted sol cases p' else 0
      | _ => 1

/-- The number of cases that a run of the judge executes. -/
def executed (env : JudgeEnv) : ℕ :=
  match prepare env with
  | .returned sol => casesExecuted sol (foundCases env sol) .start
  | _ => 0

/-- The duration with which the alarm is armed. -/
def armedFor (env : JudgeEnv) : Option ℕ :=
  match arm env with
  | .returned armed => some armed.2
  | _ => none

theorem casesExecuted_le (sol : OjSolution) (cases : List TestCase) (p : Progress) :
    casesExecuted sol cases p ≤ cases.length := by
  induction cases generalizing p with
  | nil => exact Nat.le_refl _
  | cons c cases ih =>
      rw [casesExecuted, List.length_cons]
      split
      · next p' ok _ =>
          have hrest := ih p'
          split
          · omega
          · omega
      · omega

/-- A case that is accepted at once, whatever the comparator. -/
def TestCase.accepting : TestCase := { TestCase.quiet [] [] with spjRun := .ended (.ofExit 0) }

theorem compareCase_accepting (sol : OjSolution) :
    compareCase sol .accepting = .returned .ac := by
  unfold compareCase
  split
  · rfl
  · have hequal : compareLoop ⟨⟨[]⟩, ⟨[]⟩, 0, 0, .ac⟩ = .ac := by decide +kernel
    exact congrArg Outcome.returned hequal

theorem judge_accepting {sol : OjSolution} {p : Progress} (hp : Clean sol p) :
    ∃ p', judge sol .accepting p = .returned (p', true) ∧ Clean sol p' := by
  have hmerged : mergeResult p.result .ac = .ac := by
    rw [hp.result]
    rfl
  have hloop : waitLoop sol .accepting TestCase.accepting.reports (startCase sol p) =
      .returned ({ startCase sol p with result := mergeResult p.result .ac },
        .idle (.ofExit 0)) :=
    waitLoop_cons_exit (WaitStatus.ifExited_ofExit 0)
      (Or.inr (WaitStatus.exitStatus_ofExit 0)) (compareCase_accepting sol)
  rw [hmerged] at hloop
  have hjudge : judge sol .accepting p = .returned (settle sol .accepting (.idle (.ofExit 0))
      { startCase sol p with result := .ac }) := by
    rw [judge, hloop]
    rfl
  have hac : (settle sol .accepting (.idle (.ofExit 0))
      { startCase sol p with result := .ac }).1.result = .ac := by
    rw [settle_result_eq_ac_iff]
    refine ⟨rfl, ?_, ?_⟩
    · exact max_le hp.memory_le (Nat.zero_le _)
    · exact max_le hp.time_le (Nat.zero_le _)
  refine ⟨_, hjudge.trans (congrArg _ (Prod.ext rfl ((settle_flag _ _ _ _).mpr hac))), ?_⟩
  exact (settle_withinLimits _ _ _ _).clean hac

/-- All cases are executed when all of them are accepted. -/
theorem casesExecuted_accepting {sol : OjSolution} {p : Progress} (hp : Clean sol p)
    (n : ℕ) : casesExecuted sol (List.replicate n .accepting) p = n := by
  induction n generalizing p with
  | zero => rfl
  | succ n ih =>
      obtain ⟨p', hjudge, hp'⟩ := judge_accepting hp
      rw [List.replicate_succ, casesExecuted, hjudge]
      simp only [true_or, if_true]
      rw [ih hp']
      omega

/-! ## The duration -/

/-- Two factors below `2 ^ 34` and `2 ^ 31` do not multiply to `2 ^ 64`. -/
theorem mul_ne_two_pow {a m : ℕ} (ha : a < 2 ^ 34) (hm : m < 2 ^ 31) : a * m ≠ 2 ^ 64 := by
  intro h
  obtain ⟨i, -, rfl⟩ := (Nat.dvd_prime_pow Nat.prime_two).mp (Dvd.intro m h)
  obtain ⟨j, -, rfl⟩ := (Nat.dvd_prime_pow Nat.prime_two).mp (Dvd.intro_left (2 ^ i) h)
  have hi : i < 34 := (Nat.pow_lt_pow_iff_right (by decide)).mp ha
  have hj : j < 31 := (Nat.pow_lt_pow_iff_right (by decide)).mp hm
  rw [← pow_add] at h
  have hsum : i + j = 64 := Nat.pow_right_injective (Nat.le_refl 2) h
  omega

/-- The alarm is disarmed only when no case was counted. -/
theorem judgeTimeLimit_ne_zero {timeLimit m : ℕ} (htime : timeLimit < 3 * 2 ^ 32)
    (hm : m < 2 ^ 31) (hpos : 0 < m) : judgeTimeLimit timeLimit m ≠ 0 := by
  have hbase : (judgeTimeLimitBase + timeLimit) % 2 ^ 64 = judgeTimeLimitBase + timeLimit :=
    Nat.mod_eq_of_lt (by simp only [judgeTimeLimitBase]; omega)
  have ha : judgeTimeLimitBase + timeLimit < 2 ^ 34 := by
    simp only [judgeTimeLimitBase]
    omega
  have hne := mul_ne_two_pow ha hm
  have hlt : (judgeTimeLimitBase + timeLimit) * m < 2 ^ 34 * 2 ^ 31 :=
    Nat.mul_lt_mul_of_lt_of_le ha (Nat.le_of_lt hm) (by decide)
  have hmul : 0 < (judgeTimeLimitBase + timeLimit) * m :=
    Nat.mul_pos (by simp only [judgeTimeLimitBase]; omega) hpos
  rw [judgeTimeLimit, hbase]
  omega

/-- Without a language factor the product does not overflow. -/
theorem judgeTimeLimit_eq {timeLimit m : ℕ} (htime : timeLimit < 2 ^ 32) (hm : m < 2 ^ 31) :
    judgeTimeLimit timeLimit m = (judgeTimeLimitBase + timeLimit) * m := by
  have hbase : (judgeTimeLimitBase + timeLimit) % 2 ^ 64 = judgeTimeLimitBase + timeLimit :=
    Nat.mod_eq_of_lt (by simp only [judgeTimeLimitBase]; omega)
  have hlt : (judgeTimeLimitBase + timeLimit) * m < 2 ^ 33 * 2 ^ 31 := by
    refine Nat.mul_lt_mul_of_lt_of_le ?_ (Nat.le_of_lt hm) (by decide)
    simp only [judgeTimeLimitBase]
    omega
  rw [judgeTimeLimit, hbase]
  exact Nat.mod_eq_of_lt (by omega)

/-- The time limit of a language without a factor is the 32-bit argument. -/
theorem timeLimit_lt_of_limitsCompiler {args : Arguments} {submission : Submission}
    (hparse : parseArguments args = .returned submission)
    (hlang : limitsCompiler submission.sol.lang = true) :
    submission.sol.timeLimit < 2 ^ 32 := by
  obtain ⟨o, lang, hsol⟩ := parseArguments_eq_returned hparse
  rw [hsol] at hlang ⊢
  have hfactor : timeFactor lang = 1 := by
    change limitsCompiler lang = true at hlang
    revert hlang
    cases lang <;> decide
  simpa [Options.solution, hfactor] using o.timeLimit_lt

/-! ## Coverage -/

/-- The alarm is armed, and where the compiler is limited its duration covers
the stages. -/
def Covered (sol : OjSolution) (duration : Option ℕ) (k : ℕ) : Prop :=
  ∃ d, duration = some d ∧ d ≠ 0 ∧ (limitsCompiler sol.lang = true → stageBudget sol k ≤ d)

/-- A special judge is used, there are input files, and either none of them has a
standard output or, where the compiler is limited, too many lack one. -/
def Undersized (sol : OjSolution) (dir : DataDir) : Prop :=
  checkSpj dir = true ∧ 0 < numOfTest dir true ∧
    (numOfTest dir false = 0 ∨
      (limitsCompiler sol.lang = true ∧
        4653 * numOfTest dir false < numLacking dir * (sol.timeLimit + 10694) + 5347))

/-- A run that executes a case has armed the alarm, and executes at most the
cases found. -/
theorem armedFor_of_executed {env : JudgeEnv} {submission : Submission}
    (hparse : parseArguments env.args = .returned submission) (h : 1 ≤ executed env) :
    armedFor env =
        some (judgeTimeLimit submission.sol.timeLimit (numOfTest env.dir false)) ∧
      executed env ≤ numOfTest env.dir (checkSpj env.dir) := by
  unfold executed at h ⊢
  split at h
  · next sol hprepare =>
      obtain ⟨armed, harm, -, rfl⟩ := prepare_eq_returned hprepare
      obtain ⟨hparse', hduration⟩ := arm_eq_returned harm
      obtain rfl : armed.1 = submission :=
        Outcome.returned.inj (hparse'.symm.trans hparse)
      refine ⟨by rw [armedFor, harm, ← hduration], ?_⟩
      refine (casesExecuted_le _ _ _).trans ?_
      simp [foundCases]
  · omega

/-- A run in which everything succeeds and every case is accepted. -/
def acceptingEnv (args : Arguments) (dir : DataDir) : JudgeEnv where
  args := args
  isRoot := false
  chdirs := true
  dir := dir
  scansFirst := true
  scansAgain := true
  setsAlarm := true
  setsHandler := true
  opensConfig := true
  compiler :=
    { forks := true
      waited := some (.ofExit 0)
      stderrSize := 0
      grepCompilerError := 1
      reopensError := true }
  cases := fun _ => .accepting

theorem compile_acceptingEnv (lang : Lang) (args : Arguments) (dir : DataDir) :
    compile lang (acceptingEnv args dir).compiler = .returned () := by
  have hexited : (WaitStatus.ofExit 0).ifExited := WaitStatus.ifExited_ofExit 0
  have hstatus : (WaitStatus.ofExit 0).exitStatus = 0 := WaitStatus.exitStatus_ofExit 0
  simp [compile, acceptingEnv, hexited, hstatus]

theorem executed_acceptingEnv {args : Arguments} {submission : Submission}
    (hparse : parseArguments args = .returned submission) (dir : DataDir) :
    executed (acceptingEnv args dir) = numOfTest dir (checkSpj dir) := by
  have hprepare : prepare (acceptingEnv args dir) =
      .returned { submission.sol with spj := checkSpj dir } := by
    have hcompile := compile_acceptingEnv submission.sol.lang args dir
    have harm : arm (acceptingEnv args dir) = .returned (submission,
        judgeTimeLimit submission.sol.timeLimit (numOfTest dir false)) := by
      simp [arm, acceptingEnv, hparse]
    rw [prepare, harm, Outcome.mapExited_returned, Outcome.bind_returned]
    simp [connect, findCases, acceptingEnv] at hcompile ⊢
    simp [hcompile]
  rw [executed, hprepare]
  have hcases : foundCases (acceptingEnv args dir) { submission.sol with spj := checkSpj dir } =
      List.replicate (numOfTest dir (checkSpj dir)) .accepting := by
    simp [foundCases, acceptingEnv, List.map_const']
  dsimp only
  rw [hcases]
  exact casesExecuted_accepting clean_start _

/-! ## Duration and budgets -/

theorem stageBudget_mono (sol : OjSolution) {k n : ℕ} (h : k ≤ n) :
    stageBudget sol k ≤ stageBudget sol n := by
  have htime := Nat.mul_le_mul_right (sol.timeLimit + timeLimitAddtion) h
  have hspj := Nat.mul_le_mul_right spjTimeLimit h
  unfold stageBudget
  split
  · omega
  · omega

theorem stageBudget_without_spj {sol : OjSolution} (hspj : sol.spj = false) (k : ℕ) :
    stageBudget sol k = k * sol.timeLimit + 347 * k + 5347 := by
  simp only [stageBudget, hspj, compileTimeLimit, timeLimitAddtion, Nat.mul_add,
    Bool.false_eq_true, if_false]
  omega

theorem stageBudget_with_spj {sol : OjSolution} (hspj : sol.spj = true) (k : ℕ) :
    stageBudget sol k = k * sol.timeLimit + 10694 * k + 5347 := by
  simp only [stageBudget, hspj, compileTimeLimit, timeLimitAddtion, spjTimeLimit,
    Nat.mul_add, if_true]
  omega

theorem judgeTimeLimit_expand {timeLimit m : ℕ} (htime : timeLimit < 2 ^ 32)
    (hm : m < 2 ^ 31) : judgeTimeLimit timeLimit m = m * timeLimit + 15347 * m := by
  rw [judgeTimeLimit_eq htime hm, Nat.mul_comm, Nat.mul_add]
  simp only [judgeTimeLimitBase]
  omega

/-- With a special judge the duration covers all cases found exactly when not
too many of them lack a standard output. -/
theorem stageBudget_le_judgeTimeLimit_iff (sol : OjSolution) (dir : DataDir)
    (hspj : sol.spj = true) (htime : sol.timeLimit < 2 ^ 32) :
    stageBudget sol (numOfTest dir true) ≤
        judgeTimeLimit sol.timeLimit (numOfTest dir false) ↔
      numLacking dir * (sol.timeLimit + 10694) + 5347 ≤ 4653 * numOfTest dir false := by
  rw [stageBudget_with_spj hspj, judgeTimeLimit_expand htime (numOfTest_lt dir false),
    numOfTest_spj]
  simp only [Nat.add_mul, Nat.mul_add]
  omega

/-- The duration against the budgets of `k` cases. -/
theorem covered_of_not_undersized {sol : OjSolution} {dir : DataDir} {k : ℕ}
    (hlimit : limitsCompiler sol.lang = true → sol.timeLimit < 2 ^ 32)
    (hpos : 1 ≤ k) (hk : k ≤ numOfTest dir (checkSpj dir))
    (h : ¬Undersized sol dir) :
    Covered { sol with spj := checkSpj dir }
      (some (judgeTimeLimit sol.timeLimit (numOfTest dir false))) k := by
  have hlt := numOfTest_lt dir false
  cases hspj : checkSpj dir with
  | false =>
      rw [hspj] at hk
      refine ⟨_, rfl, judgeTimeLimit_ne_zero sol.timeLimit_lt hlt (by omega), ?_⟩
      intro hlang
      refine (stageBudget_mono _ hk).trans ?_
      rw [stageBudget_without_spj rfl, judgeTimeLimit_expand (hlimit hlang) hlt]
      dsimp only
      omega
  | true =>
      rw [hspj] at hk
      have hcounted : 0 < numOfTest dir false := by
        by_contra hzero
        exact h ⟨hspj, by omega, Or.inl (by omega)⟩
      refine ⟨_, rfl, judgeTimeLimit_ne_zero sol.timeLimit_lt hlt hcounted, ?_⟩
      intro hlang
      refine (stageBudget_mono _ hk).trans ?_
      refine (stageBudget_le_judgeTimeLimit_iff { sol with spj := true } dir rfl
        (hlimit hlang)).mpr ?_
      by_contra hmany
      exact h ⟨hspj, by omega, Or.inr ⟨hlang, Nat.lt_of_not_le hmany⟩⟩

/-- An undersized alarm does not cover the run that executes all cases. -/
theorem not_covered_of_undersized {sol : OjSolution} {dir : DataDir}
    (hlimit : limitsCompiler sol.lang = true → sol.timeLimit < 2 ^ 32)
    (h : Undersized sol dir) :
    ¬Covered { sol with spj := checkSpj dir }
      (some (judgeTimeLimit sol.timeLimit (numOfTest dir false)))
      (numOfTest dir true) := by
  obtain ⟨hspj, -, hcause⟩ := h
  rintro ⟨d, hd, hne, hbudget⟩
  obtain rfl := Option.some.inj hd
  rcases hcause with hzero | ⟨hlang, hmany⟩
  · exact hne (by simp [judgeTimeLimit, hzero])
  · have hle := hbudget hlang
    have hfew := (stageBudget_le_judgeTimeLimit_iff { sol with spj := checkSpj dir } dir hspj
      (hlimit hlang)).mp hle
    exact Nat.not_le_of_lt hmany hfew

/-- The alarm covers every run on a data directory exactly when it is not
undersized for it. -/
theorem watchdog_covers_iff (args : Arguments) (submission : Submission)
    (hparse : parseArguments args = .returned submission) (dir : DataDir) :
    (∀ env : JudgeEnv, env.args = args → env.dir = dir → 1 ≤ executed env →
      Covered { submission.sol with spj := checkSpj dir } (armedFor env) (executed env)) ↔
    ¬Undersized submission.sol dir := by
  have hlimit := timeLimit_lt_of_limitsCompiler hparse
  constructor
  · intro h hsmall
    have hexecuted := executed_acceptingEnv hparse dir
    have hspj := hsmall.1
    have hpos : 1 ≤ executed (acceptingEnv args dir) := by
      rw [hexecuted, hspj]
      exact hsmall.2.1
    have hcovered := h (acceptingEnv args dir) rfl rfl hpos
    have harmed : armedFor (acceptingEnv args dir) =
        some (judgeTimeLimit submission.sol.timeLimit (numOfTest dir false)) :=
      (armedFor_of_executed hparse hpos).1
    rw [harmed, hexecuted, hspj] at hcovered
    refine not_covered_of_undersized hlimit hsmall ?_
    rw [hspj]
    exact hcovered
  · rintro h env rfl rfl hpos
    obtain ⟨harmed, hle⟩ := armedFor_of_executed hparse hpos
    rw [harmed]
    exact covered_of_not_undersized hlimit hpos hle h

/-- The command line of a submission in C++11. -/
def cpp11Arguments : Arguments where
  options :=
    [('s', ascii "1000"), ('p', ascii "1405"), ('l', ascii "2"), ('D', ascii "/data")]
  realpath := some
  logOpens := true
  sourceExists := fun _ => true

/-- A directory with the given files, all of which can be opened. -/
def DataDir.ofFiles (files : List Bytes) (h : files.length < 2 ^ 31) : DataDir where
  entries := files
  access := fun name => files.contains name
  compiles := fun _ => true
  length_lt := h

/-- A directory with one case. -/
def DataDir.oneCase : DataDir := .ofFiles [ascii "a.in", ascii "a.out"] (by decide)

/-- One case with its standard output, and no special judge. -/
theorem watchdog_covers_iff_plain :
    ∃ submission, parseArguments cpp11Arguments = .returned submission ∧
      ∀ env : JudgeEnv, env.args = cpp11Arguments →
        env.dir = .ofFiles [ascii "1.in", ascii "1.out"] (by decide) → 1 ≤ executed env →
        Covered { submission.sol with
            spj := checkSpj (.ofFiles [ascii "1.in", ascii "1.out"] (by decide)) }
          (armedFor env) (executed env) := by
  refine ⟨_, rfl, (watchdog_covers_iff cpp11Arguments _ rfl _).mpr ?_⟩
  rintro ⟨hspj, -⟩
  exact absurd hspj (by decide)

/-- One case without a standard output, and the source of a special judge: the
case is executed, and the alarm is disarmed. -/
theorem watchdog_disarmed :
    executed (acceptingEnv cpp11Arguments
      (.ofFiles [ascii "1405.in", ascii "spj.cc"] (by decide))) = 1 ∧
    armedFor (acceptingEnv cpp11Arguments
      (.ofFiles [ascii "1405.in", ascii "spj.cc"] (by decide))) = some 0 := by
  constructor
  · decide +kernel
  · decide +kernel

end PowerJudge
