import PowerJudge.Judge.Run

/-!
# The final report of an ACM run

Whatever the reports of the executor and the comparisons are, the record that
`run_solution` outputs agrees with the trace and with the limits.
-/

namespace PowerJudge

variable {sol : OjSolution}

/-! ## Limits -/

/-- The relation between the result and the two usages. -/
structure WithinLimits (sol : OjSolution) (p : Progress) : Prop where
  time_le : p.timeUsage ≤ sol.timeLimit
  time_of_tle : p.result = .tle → p.timeUsage = sol.timeLimit
  memory_le : p.result ≠ .mle → p.result ≠ .tle → p.memoryUsage ≤ sol.memoryLimit

theorem withinLimits_start : WithinLimits sol .start where
  time_le := Nat.zero_le _
  time_of_tle := by simp [Progress.start]
  memory_le := fun _ _ => Nat.zero_le _

/-- After the two checks an excess of time is `OJ_TLE`, and an excess of memory
is `OJ_MLE` or `OJ_TLE`. -/
theorem checkLimits_excess (sol : OjSolution) (last : Report) (p : Progress) :
    ((checkLimits sol last p).result ≠ .tle →
      (checkLimits sol last p).timeUsage ≤ sol.timeLimit) ∧
    ((checkLimits sol last p).result ≠ .tle → (checkLimits sol last p).result ≠ .mle →
      (checkLimits sol last p).memoryUsage ≤ sol.memoryLimit) := by
  rw [checkLimits_result, checkLimits_timeUsage, checkLimits_memoryUsage]
  split
  · simp
  · split
    · next htime _ =>
        refine ⟨fun _ => by omega, fun _ h => (h rfl).elim⟩
    · next htime hmemory =>
        exact ⟨fun _ => by omega, fun _ _ => by omega⟩

/-- Java's classes for a wrong answer: only `OJ_MLE` touches the memory usage. -/
theorem fixJavaResult_withinLimits {c : TestCase} {p : Progress}
    (hp : p.result = .wa) (htime : p.timeUsage ≤ sol.timeLimit)
    (hmemory : p.memoryUsage ≤ sol.memoryLimit) :
    WithinLimits sol (fixJavaResult sol c p) := by
  unfold fixJavaResult
  split_ifs
  · exact ⟨htime, by simp, by simp⟩
  · exact ⟨htime, by simp, by simp⟩
  · exact ⟨htime, by simp, fun _ _ => hmemory⟩
  · exact ⟨htime, by simp, fun _ _ => hmemory⟩
  · exact ⟨htime, by simp [hp], fun _ _ => hmemory⟩

theorem classify_withinLimits {c : TestCase} {p : Progress}
    (htime : p.result ≠ .tle → p.timeUsage ≤ sol.timeLimit)
    (hmemory : p.result ≠ .tle → p.result ≠ .mle → p.memoryUsage ≤ sol.memoryLimit) :
    WithinLimits sol (classify sol c p) := by
  unfold classify
  split
  · next htle => exact ⟨Nat.le_refl _, fun _ => rfl, fun _ h => (h htle).elim⟩
  · next hntle =>
      have hbase : WithinLimits sol p :=
        ⟨htime hntle, fun h => (hntle h).elim, fun hmle _ => hmemory hntle hmle⟩
      split
      · next hwa =>
          have hmem : p.memoryUsage ≤ sol.memoryLimit := by
            apply hmemory hntle
            rw [hwa]
            decide
          split
          · exact fixJavaResult_withinLimits hwa (htime hntle) hmem
          · split
            · exact ⟨htime hntle, by simp, fun _ _ => hmem⟩
            · exact hbase
      · exact hbase

/-- Every way of leaving `judge` respects the limits, whatever happened before. -/
theorem settle_withinLimits (sol : OjSolution) (c : TestCase) (last : Report) (p : Progress) :
    WithinLimits sol (settle sol c last p).1 := by
  have hexcess := checkLimits_excess sol last p
  unfold settle
  dsimp only
  split
  · exact classify_withinLimits hexcess.1 hexcess.2
  · next hac =>
      have hresult : (checkLimits sol last p).result = .ac := by simpa using hac
      refine ⟨hexcess.1 ?_, by simp [hresult], fun _ _ => hexcess.2 ?_ ?_⟩
      all_goals
        rw [hresult]
        decide

theorem judge_withinLimits {c : TestCase} {p p' : Progress} {ok : Bool}
    (h : judge sol c p = .returned (p', ok)) : WithinLimits sol p' := by
  obtain ⟨passed, last, q, -, hsettle⟩ := judge_eq_returned h
  have hlimits := settle_withinLimits sol c last q
  rwa [hsettle] at hlimits

theorem judge_flag {c : TestCase} {p p' : Progress} {ok : Bool}
    (h : judge sol c p = .returned (p', ok)) : ok = true ↔ p'.result = .ac := by
  obtain ⟨passed, last, q, -, hsettle⟩ := judge_eq_returned h
  have hflag := settle_flag sol c last q
  rwa [hsettle] at hflag

theorem runCases_withinLimits {cases : List TestCase} {i f : ℕ} {p : Progress}
    {ended : Progress × ℕ} (hp : WithinLimits sol p)
    (h : runCases sol cases i f p = .returned ended) : WithinLimits sol ended.1 :=
  runCases_invariant (fun _ hjudge => judge_withinLimits hjudge) hp h

/-! ## Result and test number -/

/-- An ACM run judges all cases and all of them leave `OJ_AC`, or it stops at
the first case that does not. -/
theorem runCases_acm {cases : List TestCase} {i : ℕ} {p q : Progress} {t : ℕ}
    (hacm : sol.judgeType = acm) (hp : p.result = .ac)
    (h : runCases sol cases i 0 p = .returned (q, t)) :
    (q.result = .ac ∧ t = 0 ∧ (trace sol cases p).length = cases.length ∧
      ∀ j ∈ trace sol cases p, j.after.result = .ac) ∨
    ∃ passed j, trace sol cases p = passed ++ [j] ∧
      (∀ k ∈ passed, k.after.result = .ac) ∧ j.after.result ≠ .ac ∧
      q = j.after ∧ t = i + passed.length + 1 := by
  induction cases generalizing i p with
  | nil =>
      cases h
      exact Or.inl ⟨hp, rfl, rfl, by simp [trace]⟩
  | cons c cases ih =>
      obtain ⟨p', ok, hjudge⟩ := runCases_cons_eq_returned h
      have hflag := judge_flag hjudge
      rw [runCases_cons_of_returned hjudge] at h
      rw [trace_cons_of_returned hjudge]
      by_cases hok : ok = true
      · have hp' := hflag.mp hok
        have hnote : noteFailure 0 i p'.result = 0 := by simp [noteFailure, hp']
        rw [if_pos (Or.inl hok), hnote] at h
        rw [if_pos (Or.inl hok)]
        rcases ih hp' h with ⟨hq, ht, hlength, hall⟩ | ⟨passed, j, htrace, hall, hj, hq, ht⟩
        · refine Or.inl ⟨hq, ht, by simp [hlength], ?_⟩
          intro k hk
          rcases List.mem_cons.mp hk with rfl | hk
          · exact hp'
          · exact hall k hk
        · refine Or.inr ⟨⟨c, p, p'⟩ :: passed, j, by simp [htrace], ?_, hj, hq, ?_⟩
          · intro k hk
            rcases List.mem_cons.mp hk with rfl | hk
            · exact hp'
            · exact hall k hk
          · rw [ht, List.length_cons]
            omega
      · have hp' : p'.result ≠ .ac := fun hac => hok (hflag.mpr hac)
        have hstop : ¬(ok = true ∨ sol.judgeType ≠ acm) := by simp [hok, hacm]
        have hnote : noteFailure 0 i p'.result = i + 1 := by simp [noteFailure, hp']
        rw [if_neg hstop, hnote] at h
        rw [if_neg hstop]
        cases h
        exact Or.inr ⟨[], ⟨c, p, q⟩, rfl, by simp, hp', rfl, by simp⟩

/-- The record of an ACM run is consistent: the result is `OJ_AC` exactly when
all cases were judged and left it; the test number is 0 exactly then and the
number of the first other case otherwise; and the usages respect the limits. -/
theorem final_report_consistent
    (sol : OjSolution) (hacm : sol.judgeType = acm) (cases : List TestCase)
    (record : Record) (hrun : runSolution sol cases = .returned record) :
    (record.result = .ac ↔
      (∀ j ∈ trace sol cases .start, j.after.result = .ac) ∧
        (trace sol cases .start).length = cases.length) ∧
    (record.test = 0 ↔ record.result = .ac) ∧
    (record.result ≠ .ac →
      ∃ passed j, trace sol cases .start = passed ++ [j] ∧
        (∀ k ∈ passed, k.after.result = .ac) ∧ j.after.result ≠ .ac ∧
        record.test = passed.length + 1) ∧
    record.timeUsage ≤ sol.timeLimit ∧
    (record.result = .tle → record.timeUsage = sol.timeLimit) ∧
    (record.result ≠ .mle → record.result ≠ .tle →
      record.memoryUsage ≤ sol.memoryLimit) := by
  obtain ⟨⟨q, t⟩, hloop, hresult, htime, hmemory, htest⟩ := runSolution_eq_returned hrun
  have hlimits := runCases_withinLimits withinLimits_start hloop
  have htimeLt := sol.timeLimit_lt
  have hmemoryLt := sol.memoryLimit_lt
  have htimeLong : record.timeUsage = q.timeUsage := by
    have hle := hlimits.time_le
    rw [htime]
    exact toLong_of_lt (by omega)
  refine ⟨?_, ?_, ?_, ?_, ?_, ?_⟩
  · rw [hresult]
    rcases runCases_acm hacm rfl hloop with
      ⟨hq, -, hlength, hall⟩ | ⟨passed, j, htrace, -, hj, hq, -⟩
    · exact iff_of_true hq ⟨hall, hlength⟩
    · refine iff_of_false (by rw [hq]; exact hj) ?_
      rintro ⟨hall, -⟩
      exact hj (hall j (by simp [htrace]))
  · rw [hresult, htest]
    rcases runCases_acm hacm rfl hloop with ⟨hq, ht, -, -⟩ | ⟨passed, j, -, -, hj, hq, ht⟩
    · exact iff_of_true ht hq
    · exact iff_of_false (by simp only; omega) (by rw [hq]; exact hj)
  · intro hne
    rw [hresult] at hne
    rcases runCases_acm hacm rfl hloop with
      ⟨hq, -, -, -⟩ | ⟨passed, j, htrace, hpassed, hj, -, ht⟩
    · exact (hne hq).elim
    · refine ⟨passed, j, htrace, hpassed, hj, ?_⟩
      rw [htest]
      simpa using ht
  · rw [htimeLong]
    exact_mod_cast hlimits.time_le
  · intro htle
    rw [htimeLong]
    exact_mod_cast hlimits.time_of_tle (hresult ▸ htle)
  · intro hmle htle
    rw [hresult] at hmle htle
    have hle := hlimits.memory_le hmle htle
    rw [hmemory, toLong_of_lt (by omega)]
    exact_mod_cast hle

/-- A case that uses some time and memory and quits normally. -/
def TestCase.using (rusage : Rusage) (fileOut fileUser : Bytes) : TestCase :=
  { TestCase.quiet fileOut fileUser with
    reports := [some { Report.idle (.ofExit 0) with rusage := rusage }] }

/-- The second of three cases is a wrong answer. -/
def secondWrong : List TestCase :=
  [.using ⟨2048, 0, 120000, by decide, by decide⟩ [49] [49],
    .using ⟨3072, 0, 250000, by decide, by decide⟩ [50] [51],
    .using ⟨1024, 0, 50000, by decide, by decide⟩ [52] [52]]

/-- A run that ends in the second of three cases. -/
theorem final_report_consistent_wrong :
    (OjSolution.init .c11).judgeType = acm ∧
      runSolution (.init .c11) secondWrong = .returned ⟨.wa, 250, 3072, 2⟩ ∧
      (∃ passed j, trace (.init .c11) secondWrong .start = passed ++ [j] ∧
        (∀ k ∈ passed, k.after.result = .ac) ∧ j.after.result ≠ .ac ∧ 2 = passed.length + 1) ∧
      (250 : ℤ) ≤ (OjSolution.init .c11).timeLimit ∧
      (3072 : ℤ) ≤ (OjSolution.init .c11).memoryLimit := by
  have hrun : runSolution (.init .c11) secondWrong = .returned ⟨.wa, 250, 3072, 2⟩ := by
    decide +kernel
  obtain ⟨-, -, hfirst, htime, -, hmemory⟩ :=
    final_report_consistent (.init .c11) rfl secondWrong ⟨.wa, 250, 3072, 2⟩ hrun
  exact ⟨rfl, hrun, hfirst (by decide), htime, hmemory (by decide) (by decide)⟩

end PowerJudge
