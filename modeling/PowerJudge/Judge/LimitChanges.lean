import PowerJudge.Judge.FinalReport

/-!
# The verdict under other limits

Two submissions of one task that differ only in their limits are judged on the
same cases.  `SameTask` is what they share, and `Progress.Fits` says that the
usages are within the limits of the second.  As long as the first submission is
neither over its time nor over its memory limit, the second one follows it step
by step until it is over a limit of its own, and then it says so.
-/

namespace PowerJudge

/-- Submissions that differ in their limits only. -/
structure SameTask (sol sol' : OjSolution) : Prop where
  lang : sol'.lang = sol.lang
  judgeType : sol'.judgeType = sol.judgeType
  spj : sol'.spj = sol.spj

/-- A result that reports an excess. -/
def OjResult.IsExcess (result : OjResult) : Prop := result = .tle ∨ result = .mle

/-- The usages are within the limits. -/
structure Progress.Fits (sol : OjSolution) (p : Progress) : Prop where
  time_le : p.timeUsage ≤ sol.timeLimit
  memory_le : p.memoryUsage ≤ sol.memoryLimit

/-- The globals when the wait loop is left for the memory limit. -/
def Progress.overMemory (p : Progress) (r : Report) : Progress :=
  { p with result := .mle, memoryUsage := max p.memoryUsage r.rusage.maxrss }

@[simp] theorem Progress.overMemory_result (p : Progress) (r : Report) :
    (p.overMemory r).result = .mle := rfl

@[simp] theorem Progress.overMemory_memoryUsage (p : Progress) (r : Report) :
    (p.overMemory r).memoryUsage = max p.memoryUsage r.rusage.maxrss := rfl

variable {sol sol' : OjSolution} {c : TestCase}

/-! ## One report -/

theorem compareCase_under_limits (hsame : SameTask sol sol') (c : TestCase) :
    compareCase sol' c = compareCase sol c := by
  simp only [compareCase, hsame.spj]

theorem normalQuit_under_limits (hsame : SameTask sol sol') (status : WaitStatus) :
    NormalQuit sol' status ↔ NormalQuit sol status := by
  simp only [NormalQuit, hsame.lang]

theorem exitBranch_under_limits (hsame : SameTask sol sol') (status : WaitStatus)
    (p : Progress) : exitBranch sol' c status p = exitBranch sol c status p := by
  simp only [exitBranch, normalQuit_under_limits hsame, compareCase_under_limits hsame]

/-- A stop within the limits of the first submission is the same stop for the
second, unless it is over the memory limit of the second. -/
theorem stopBranch_under_limits {r : Report} {p : Progress}
    (hle : max p.memoryUsage r.rusage.maxrss ≤ sol.memoryLimit) :
    stopBranch sol' r p =
      if sol'.memoryLimit < max p.memoryUsage r.rusage.maxrss then
        .returned (.leave (p.overMemory r))
      else stopBranch sol r p := by
  have hnot : ¬max p.memoryUsage r.rusage.maxrss > sol.memoryLimit := Nat.not_lt.mpr hle
  by_cases hover : sol'.memoryLimit < max p.memoryUsage r.rusage.maxrss
  · simp only [stopBranch, gt_iff_lt, hover, if_true, Progress.overMemory]
  · simp only [stopBranch, gt_iff_lt, hover, hnot, if_false]

/-- A stop that does not end in `OJ_MLE` is within the memory limit. -/
theorem le_memoryLimit_of_stopBranch {r : Report} {p : Progress} {step : WaitStep}
    (h : stopBranch sol r p = .returned step)
    (hstep : ∀ q, step = .leave q → q.result ≠ .mle) :
    max p.memoryUsage r.rusage.maxrss ≤ sol.memoryLimit := by
  by_contra hover
  have hover' : max p.memoryUsage r.rusage.maxrss > sol.memoryLimit := Nat.lt_of_not_ge hover
  simp only [stopBranch, if_pos hover'] at h
  exact hstep _ (Outcome.returned.inj h).symm rfl

/-- One report under the limits of the second submission: the same step, or
`OJ_MLE` with a usage that the first submission has reached, too. -/
theorem onReport_under_limits (hsame : SameTask sol sol') {r : Report} {p : Progress}
    {step : WaitStep} (h : onReport sol c r p = .returned step)
    (hstep : ∀ q, step = .leave q → q.result ≠ .mle) :
    onReport sol' c r p = .returned step ∨
      sol'.memoryLimit < (p.overMemory r).memoryUsage ∧
        onReport sol' c r p = .returned (.leave (p.overMemory r)) := by
  by_cases hexited : r.status.ifExited
  · refine Or.inl ?_
    rw [onReport, if_pos hexited] at h ⊢
    rw [exitBranch_under_limits hsame]
    exact h
  · rw [onReport, if_neg hexited] at h ⊢
    cases hsignal : fatalSignal r.status with
    | some signo =>
        rw [hsignal] at h
        exact Or.inl h
    | none =>
        rw [hsignal] at h
        have hle := le_memoryLimit_of_stopBranch h hstep
        dsimp only
        rw [stopBranch_under_limits hle]
        split
        · next hover => exact Or.inr ⟨hover, rfl⟩
        · exact Or.inl h

/-! ## The wait loop -/

/-- The wait loop under the limits of the second submission: it ends as the
first one, or at an earlier report with `OJ_MLE`. -/
theorem waitLoop_under_limits (hsame : SameTask sol sol') {reports : List (Option Report)}
    {p q : Progress} {last : Report} (h : waitLoop sol c reports p = .returned (q, last))
    (hmle : q.result ≠ .mle) :
    waitLoop sol' c reports p = .returned (q, last) ∨
      ∃ q' last', waitLoop sol' c reports p = .returned (q', last') ∧ q'.result = .mle ∧
        sol'.memoryLimit < q'.memoryUsage ∧
        q'.memoryUsage ≤ max q.memoryUsage last.rusage.maxrss := by
  induction reports generalizing p with
  | nil => cases h
  | cons report rest ih =>
      cases report with
      | none => cases h
      | some r =>
          rw [waitLoop, Outcome.bind_eq_returned_iff] at h
          obtain ⟨step, hfirst, h⟩ := h
          cases step with
          | leave p' =>
              obtain ⟨rfl, rfl⟩ := Prod.mk.inj (Outcome.returned.inj h)
              have hleave : ∀ q', WaitStep.leave p' = .leave q' → q'.result ≠ .mle := by
                intro q' hq'
                cases hq'
                exact hmle
              rcases onReport_under_limits hsame hfirst hleave with heq | ⟨hover, hexcess⟩
              · refine Or.inl ?_
                rw [waitLoop, heq, Outcome.bind_returned]
              · refine Or.inr ⟨p.overMemory r, r, ?_, rfl, hover, ?_⟩
                · rw [waitLoop, hexcess, Outcome.bind_returned]
                · exact (leaves_of_onReport hfirst).max_memoryUsage.ge
          | again p' =>
              have hagain : ∀ q', WaitStep.again p' = .leave q' → q'.result ≠ .mle := by
                intro q' hq'
                cases hq'
              rcases onReport_under_limits hsame hfirst hagain with heq | ⟨hover, hexcess⟩
              · rw [waitLoop, heq, Outcome.bind_returned]
                exact ih h
              · refine Or.inr ⟨p.overMemory r, r, ?_, rfl, hover, ?_⟩
                · rw [waitLoop, hexcess, Outcome.bind_returned]
                · have hpassed := (passes_of_onReport hfirst).memoryUsage
                  have hlater := waitLoop_memory_mono h
                  exact (hpassed.ge.trans hlater).trans (Nat.le_max_left _ _)

/-! ## The end of a case -/

theorem classify_of_isExcess {p : Progress} (h : p.result.IsExcess) :
    (classify sol c p).result = p.result := by
  rcases h with h | h
  · simp [classify, h]
  · simp [classify, h]

theorem settle_of_isExcess {last : Report} {p : Progress}
    (h : (checkLimits sol last p).result.IsExcess) :
    (settle sol c last p).1.result.IsExcess ∧ (settle sol c last p).2 = false := by
  have hne : (checkLimits sol last p).result ≠ .ac := by
    rcases h with h | h
    all_goals
      rw [h]
      decide
  rw [settle, if_pos hne]
  refine ⟨?_, rfl⟩
  rw [classify_of_isExcess h]
  exact h

/-- The checks keep an excess. -/
theorem checkLimits_keeps_excess (sol : OjSolution) (last : Report) {p : Progress}
    (h : p.result.IsExcess) : (checkLimits sol last p).result.IsExcess := by
  rw [checkLimits_result]
  split
  · exact Or.inl rfl
  · split
    · exact Or.inr rfl
    · exact h

theorem checkLimits_fits_iff {last : Report} {p : Progress} :
    (checkLimits sol last p).Fits sol' ↔
      max p.timeUsage last.rusage.utimeMs ≤ sol'.timeLimit ∧
        max p.memoryUsage last.rusage.maxrss ≤ sol'.memoryLimit := by
  rw [← @checkLimits_timeUsage sol last p, ← @checkLimits_memoryUsage sol last p]
  exact ⟨fun h => ⟨h.time_le, h.memory_le⟩, fun h => ⟨h.1, h.2⟩⟩

/-- A result of the wait loop that no limit has caused is checked against both. -/
theorem checkLimits_isExcess_iff {last : Report} {p : Progress} (hp : ¬p.result.IsExcess) :
    (checkLimits sol last p).result.IsExcess ↔ ¬(checkLimits sol last p).Fits sol := by
  rw [checkLimits_fits_iff, checkLimits_result]
  split
  · next htime =>
      exact iff_of_true (Or.inl rfl) (fun h => absurd h.1 (Nat.not_le.mpr htime))
  · next htime =>
      split
      · next hmemory =>
          exact iff_of_true (Or.inr rfl) (fun h => absurd h.2 (Nat.not_le.mpr hmemory))
      · next hmemory =>
          exact iff_of_false hp
            (fun h => h ⟨Nat.le_of_not_lt htime, Nat.le_of_not_lt hmemory⟩)

/-- Within the limits the checks only write the two usages. -/
theorem checkLimits_of_fits {last : Report} {p : Progress}
    (h : (checkLimits sol last p).Fits sol) :
    checkLimits sol last p = { p with
      timeUsage := max p.timeUsage last.rusage.utimeMs
      memoryUsage := max p.memoryUsage last.rusage.maxrss } := by
  obtain ⟨htime, hmemory⟩ := checkLimits_fits_iff.mp h
  simp only [checkLimits, gt_iff_lt, Nat.not_lt.mpr htime, Nat.not_lt.mpr hmemory, if_false]

/-- Java's classes other than `OJ_MLE` come from the two files only. -/
theorem fixJavaResult_under_limits {p : Progress}
    (h : (fixJavaResult sol c p).result ≠ .mle) :
    fixJavaResult sol' c p = fixJavaResult sol c p ∧
      (fixJavaResult sol c p).timeUsage = p.timeUsage ∧
      (fixJavaResult sol c p).memoryUsage = p.memoryUsage := by
  unfold fixJavaResult at h ⊢
  by_cases hstderr : c.grepStderr "java.lang.OutOfMemoryError" = 0
  · rw [if_pos hstderr] at h
    exact (h rfl).elim
  · by_cases hstdout : c.grepStdout "java.lang.OutOfMemoryError" = 0
    · rw [if_neg hstderr, if_pos hstdout] at h
      exact (h rfl).elim
    · rw [if_neg hstderr, if_neg hstdout, if_neg hstderr, if_neg hstdout]
      split
      · exact ⟨rfl, rfl, rfl⟩
      · split
        · exact ⟨rfl, rfl, rfl⟩
        · exact ⟨rfl, rfl, rfl⟩

/-- A class other than an excess leaves the usages alone and does not depend on
the limits. -/
theorem classify_under_limits (hsame : SameTask sol sol') {p : Progress}
    (hp : ¬(classify sol c p).result.IsExcess) :
    classify sol' c p = classify sol c p ∧ (classify sol c p).timeUsage = p.timeUsage ∧
      (classify sol c p).memoryUsage = p.memoryUsage := by
  unfold classify at hp ⊢
  rw [hsame.lang]
  by_cases htle : p.result = .tle
  · rw [if_pos htle] at hp
    exact (hp (Or.inl htle)).elim
  · simp only [if_neg htle] at hp ⊢
    by_cases hwa : p.result = .wa
    · simp only [if_pos hwa] at hp ⊢
      by_cases hjava : sol.lang = .java
      · simp only [if_pos hjava] at hp ⊢
        exact fixJavaResult_under_limits (fun h => hp (Or.inr h))
      · simp only [if_neg hjava, true_and]
        split
        · exact ⟨rfl, rfl⟩
        · exact ⟨rfl, rfl⟩
    · simp only [if_neg hwa, and_self]

/-- A case that does not end in an excess passed both checks and leaves the
usages that they saw. -/
theorem settle_of_not_isExcess {last : Report} {p : Progress}
    (h : ¬(settle sol c last p).1.result.IsExcess) :
    ¬(checkLimits sol last p).result.IsExcess ∧
      (settle sol c last p).1.timeUsage = (checkLimits sol last p).timeUsage ∧
      (settle sol c last p).1.memoryUsage = (checkLimits sol last p).memoryUsage := by
  refine ⟨fun hexcess => h (settle_of_isExcess hexcess).1, ?_⟩
  unfold settle at h ⊢
  dsimp only at h ⊢
  split at h
  · next hne =>
      rw [if_pos hne]
      exact (classify_under_limits ⟨rfl, rfl, rfl⟩ h).2
  · next hac =>
      rw [if_neg hac]
      exact ⟨rfl, rfl⟩

/-- The end of a case that is no excess is the same within other limits. -/
theorem settle_under_limits (hsame : SameTask sol sol') {last : Report} {p : Progress}
    (h : ¬(settle sol c last p).1.result.IsExcess)
    (heq : checkLimits sol' last p = checkLimits sol last p) :
    settle sol' c last p = settle sol c last p := by
  unfold settle at h ⊢
  dsimp only at h ⊢
  rw [heq]
  split
  · next hne =>
      rw [if_pos hne] at h
      rw [(classify_under_limits hsame h).1]
  · rfl

/-! ## One case -/

/-- One case under the limits of the second submission: the same case, or an
excess when the usages are over those limits. -/
theorem judge_under_limits (hsame : SameTask sol sol') {p p' : Progress} {ok : Bool}
    (h : judge sol c p = .returned (p', ok)) (hp' : ¬p'.result.IsExcess) :
    (p'.Fits sol' ∧ judge sol' c p = .returned (p', ok)) ∨
      ¬p'.Fits sol' ∧
        ∃ q, judge sol' c p = .returned (q, false) ∧ q.result.IsExcess := by
  obtain ⟨hforks, q, last, hloop, hsettle⟩ := judge_waitLoop h
  have hstart : startCase sol' p = startCase sol p := by
    simp only [startCase, hsame.lang]
  have hresult : ¬(settle sol c last q).1.result.IsExcess := by
    rw [hsettle]
    exact hp'
  obtain ⟨hchecked, htime, hmemory⟩ := settle_of_not_isExcess hresult
  rw [hsettle, checkLimits_timeUsage] at htime
  rw [hsettle, checkLimits_memoryUsage] at hmemory
  dsimp only at htime hmemory
  have hq : ¬q.result.IsExcess :=
    fun hexcess => hchecked (checkLimits_keeps_excess sol last hexcess)
  rw [judge, if_pos hforks, hstart]
  rcases waitLoop_under_limits hsame hloop (fun hmle => hq (Or.inr hmle)) with
    hsameLoop | ⟨q', last', hloop', hmle, hover, hreached⟩
  · rw [hsameLoop, Outcome.bind_returned]
    have hfits : p'.Fits sol' ↔ (checkLimits sol' last q).Fits sol' := by
      rw [checkLimits_fits_iff, ← htime, ← hmemory]
      exact ⟨fun h => ⟨h.time_le, h.memory_le⟩, fun h => ⟨h.1, h.2⟩⟩
    rw [hfits]
    by_cases hwithin : (checkLimits sol' last q).Fits sol'
    · have hchecks : checkLimits sol' last q = checkLimits sol last q := by
        rw [checkLimits_of_fits hwithin]
        rw [checkLimits_isExcess_iff hq, not_not] at hchecked
        rw [checkLimits_of_fits hchecked]
      refine Or.inl ⟨hwithin, ?_⟩
      rw [settle_under_limits hsame hresult hchecks, hsettle]
    · have hexcess := settle_of_isExcess (c := c) ((checkLimits_isExcess_iff hq).mpr hwithin)
      exact Or.inr ⟨hwithin, (settle sol' c last q).1,
        congrArg Outcome.returned (Prod.ext rfl hexcess.2), hexcess.1⟩
  · rw [hloop', Outcome.bind_returned]
    have hexcess := settle_of_isExcess (c := c)
      (checkLimits_keeps_excess sol' last' (Or.inr hmle))
    refine Or.inr ⟨?_, (settle sol' c last' q').1,
      congrArg Outcome.returned (Prod.ext rfl hexcess.2), hexcess.1⟩
    intro hfits
    have hle := hfits.memory_le
    omega

/-! ## All cases -/

/-- A case that does not end in an excess does not lower the usages. -/
theorem judge_usage_mono {p p' : Progress} {ok : Bool}
    (h : judge sol c p = .returned (p', ok)) (hp' : ¬p'.result.IsExcess) :
    p.timeUsage ≤ p'.timeUsage ∧ p.memoryUsage ≤ p'.memoryUsage := by
  obtain ⟨-, q, last, hloop, hsettle⟩ := judge_waitLoop h
  have hresult : ¬(settle sol c last q).1.result.IsExcess := by
    rw [hsettle]
    exact hp'
  obtain ⟨-, htime, hmemory⟩ := settle_of_not_isExcess hresult
  rw [hsettle, checkLimits_timeUsage] at htime
  rw [hsettle, checkLimits_memoryUsage] at hmemory
  dsimp only at htime hmemory
  have htimeLoop := waitLoop_timeUsage hloop
  have hmemoryLoop := waitLoop_memory_mono hloop
  simp only [startCase] at htimeLoop hmemoryLoop
  omega

/-- The loop of an ACM run goes on after `OJ_AC` only. -/
theorem not_isExcess_of_flag {p p' : Progress}
    (h : judge sol c p = .returned (p', true)) : ¬p'.result.IsExcess := by
  have hac := (judge_flag h).mp rfl
  simp [OjResult.IsExcess, hac]

theorem runCases_usage_mono (hacm : sol.judgeType = acm) {cases : List TestCase} {i f : ℕ}
    {p q : Progress} {t : ℕ} (h : runCases sol cases i f p = .returned (q, t))
    (hq : ¬q.result.IsExcess) : p.timeUsage ≤ q.timeUsage ∧ p.memoryUsage ≤ q.memoryUsage := by
  induction cases generalizing i f p with
  | nil =>
      cases h
      exact ⟨Nat.le_refl _, Nat.le_refl _⟩
  | cons c cases ih =>
      obtain ⟨p', ok, hjudge⟩ := runCases_cons_eq_returned h
      rw [runCases_cons_of_returned hjudge] at h
      cases ok with
      | true =>
          have hfirst := judge_usage_mono hjudge (not_isExcess_of_flag hjudge)
          have hrest := ih h
          exact ⟨hfirst.1.trans hrest.1, hfirst.2.trans hrest.2⟩
      | false =>
          rw [if_neg (by simp [hacm])] at h
          cases h
          exact judge_usage_mono hjudge hq

/-- The loop under the limits of the second submission. -/
theorem runCases_under_limits (hsame : SameTask sol sol') (hacm : sol.judgeType = acm)
    {cases : List TestCase} {i f : ℕ} {p q : Progress} {t : ℕ}
    (h : runCases sol cases i f p = .returned (q, t)) (hq : ¬q.result.IsExcess)
    (hp : p.Fits sol') :
    (q.Fits sol' ∧ runCases sol' cases i f p = .returned (q, t)) ∨
      ¬q.Fits sol' ∧
        ∃ q' t', runCases sol' cases i f p = .returned (q', t') ∧ q'.result.IsExcess := by
  have hacm' : sol'.judgeType = acm := hsame.judgeType.trans hacm
  induction cases generalizing i f p with
  | nil =>
      cases h
      exact Or.inl ⟨hp, rfl⟩
  | cons c cases ih =>
      obtain ⟨p', ok, hjudge⟩ := runCases_cons_eq_returned h
      rw [runCases_cons_of_returned hjudge] at h
      cases ok with
      | true =>
          rcases judge_under_limits hsame hjudge (not_isExcess_of_flag hjudge) with
            ⟨hfits, hjudge'⟩ | ⟨hover, p'', hjudge', hexcess⟩
          · rw [runCases_cons_of_returned hjudge']
            exact ih h hfits
          · refine Or.inr ⟨?_, p'', noteFailure f i p''.result, ?_, hexcess⟩
            · intro hfits
              obtain ⟨htime, hmemory⟩ := runCases_usage_mono hacm h hq
              exact hover ⟨htime.trans hfits.time_le, hmemory.trans hfits.memory_le⟩
            · rw [runCases_cons_of_returned hjudge']
              exact if_neg (by simp [hacm'])
      | false =>
          rw [if_neg (by simp [hacm])] at h
          obtain ⟨rfl, rfl⟩ := Prod.mk.inj (Outcome.returned.inj h)
          rcases judge_under_limits hsame hjudge hq with
            ⟨hfits, hjudge'⟩ | ⟨hover, p'', hjudge', hexcess⟩
          · refine Or.inl ⟨hfits, ?_⟩
            rw [runCases_cons_of_returned hjudge']
            exact if_neg (by simp [hacm'])
          · refine Or.inr ⟨hover, p'', noteFailure f i p''.result, ?_, hexcess⟩
            rw [runCases_cons_of_returned hjudge']
            exact if_neg (by simp [hacm'])

/-- The limits matter through the reported usages only: a record of an ACM run
other than `OJ_TLE` and `OJ_MLE` is also the record under any other limits that
its usages are within, and otherwise the record under those limits says
`OJ_TLE` or `OJ_MLE`. -/
theorem record_under_limits (hsame : SameTask sol sol') (hacm : sol.judgeType = acm)
    {cases : List TestCase} {record : Record} (h : runSolution sol cases = .returned record)
    (htle : record.result ≠ .tle) (hmle : record.result ≠ .mle) :
    ∃ record', runSolution sol' cases = .returned record' ∧
      (record.timeUsage ≤ sol'.timeLimit ∧ record.memoryUsage ≤ sol'.memoryLimit →
        record' = record) ∧
      (¬(record.timeUsage ≤ sol'.timeLimit ∧ record.memoryUsage ≤ sol'.memoryLimit) →
        record'.result = .tle ∨ record'.result = .mle) := by
  obtain ⟨⟨q, t⟩, hloop, hresult, htime, hmemory, htest⟩ := runSolution_eq_returned h
  have hq : ¬q.result.IsExcess := by
    rw [← hresult]
    rintro (hexcess | hexcess)
    · exact htle hexcess
    · exact hmle hexcess
  have hlimits := runCases_withinLimits withinLimits_start hloop
  have htimeLong : record.timeUsage = q.timeUsage := by
    have hle := hlimits.time_le
    have hlt := sol.timeLimit_lt
    rw [htime]
    exact toLong_of_lt (by omega)
  have hmemoryLong : record.memoryUsage = q.memoryUsage := by
    have hle := hlimits.memory_le (hresult ▸ hmle) (hresult ▸ htle)
    have hlt := sol.memoryLimit_lt
    rw [hmemory]
    exact toLong_of_lt (by omega)
  have hfits : q.Fits sol' ↔
      record.timeUsage ≤ sol'.timeLimit ∧ record.memoryUsage ≤ sol'.memoryLimit := by
    rw [htimeLong, hmemoryLong]
    constructor
    · intro hfits
      exact ⟨by exact_mod_cast hfits.time_le, by exact_mod_cast hfits.memory_le⟩
    · rintro ⟨htimeLe, hmemoryLe⟩
      exact ⟨by exact_mod_cast htimeLe, by exact_mod_cast hmemoryLe⟩
  rw [← hfits]
  rcases runCases_under_limits hsame hacm hloop hq ⟨Nat.zero_le _, Nat.zero_le _⟩ with
    ⟨hwithin, hloop'⟩ | ⟨hover, q', t', hloop', hexcess⟩
  · refine ⟨record, ?_, fun _ => rfl, fun hnot => (hnot hwithin).elim⟩
    rw [runSolution, hloop']
    rw [runSolution, hloop] at h
    exact h
  · refine ⟨⟨q'.result, toLong q'.timeUsage, toLong q'.memoryUsage, t'⟩, ?_,
      fun hwithin => (hover hwithin).elim, fun _ => hexcess⟩
    rw [runSolution, hloop', Outcome.bind_returned]

/-- A case that takes half a second and 1200 KB. -/
def TestCase.halfSecond : TestCase :=
  { TestCase.quiet [49] [49] with
    reports := [some { Report.idle (.ofExit 0) with
      rusage := ⟨1200, 0, 500000, by decide, by decide⟩ }] }

/-- Accepted with a limit of one second, it is over a limit of 400 ms. -/
theorem record_under_limits_halfSecond :
    ∃ record', runSolution
        { OjSolution.init .c11 with timeLimit := 400, timeLimit_lt := by decide }
        [.halfSecond] = .returned record' ∧
      (record'.result = .tle ∨ record'.result = .mle) := by
  have hsame : SameTask (.init .c11)
      { OjSolution.init .c11 with timeLimit := 400, timeLimit_lt := by decide } :=
    ⟨rfl, rfl, rfl⟩
  have haccepted : runSolution (.init .c11) [.halfSecond] = .returned ⟨.ac, 500, 1200, 0⟩ := by
    decide +kernel
  obtain ⟨record', hrun, -, hexcess⟩ :=
    record_under_limits hsame rfl haccepted (by decide) (by decide)
  exact ⟨record', hrun, hexcess (by decide)⟩

end PowerJudge
