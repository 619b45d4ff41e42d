import PowerJudge.Judge.FinalReport

/-!
# Soundness of Accepted

In an ACM run every case starts from `OJ_AC`, so a case that leaves `OJ_AC` was
either compared and found equal, or its wait loop was ended by the branch for
`SIGCHLD`, which resets the result to `OJ_AC` and kills the executor.
-/

namespace PowerJudge

variable {sol : OjSolution}

/-- What a verdict of `OJ_AC` has to rest on: the executor exited and was
compared, and its usage stayed within the limits. -/
structure SoundAccept (sol : OjSolution) (j : CaseRun) (passed : List Report)
    (last : Report) : Prop where
  exited : last.status.ifExited
  quit : NormalQuit sol last.status
  compared : compareCase sol j.case = .returned .ac
  memory_le : ∀ r ∈ passed ++ [last], r.rusage.maxrss ≤ sol.memoryLimit
  maximum_le : j.after.memoryUsage ≤ sol.memoryLimit
  cpuTime_le : last.rusage.utimeMs ≤ sol.timeLimit

/-- The wait loop took the reports `passed` and was ended by `last`. -/
def CaseRun.EndedBy (sol : OjSolution) (j : CaseRun) (passed : List Report)
    (last : Report) : Prop :=
  ∃ q, Ends sol j.case j.before passed last q ∧ j.after = (settle sol j.case last q).1

/-- A death or a stop by `SIGCHLD` of an executor within its limits. -/
def SigchldWithinLimits (sol : OjSolution) (last : Report) : Prop :=
  fatalSignal last.status = some sigChld ∧ last.rusage.maxrss ≤ sol.memoryLimit ∧
    last.rusage.utimeMs ≤ sol.timeLimit

theorem exists_endedBy_of_mem_trace {cases : List TestCase} {p : Progress} {j : CaseRun}
    (hj : j ∈ trace sol cases p) : ∃ passed last, j.EndedBy sol passed last := by
  obtain ⟨-, ok, hjudge⟩ := mem_trace hj
  obtain ⟨passed, last, q, hends, hsettle⟩ := judge_eq_returned hjudge
  exact ⟨passed, last, q, hends, by rw [hsettle]⟩

theorem CaseRun.EndedBy.last_mem_reports {j : CaseRun} {passed : List Report}
    {last : Report} (h : j.EndedBy sol passed last) : some last ∈ j.case.reports := by
  obtain ⟨q, hends, -⟩ := h
  obtain ⟨rest, hreports⟩ := hends.taken
  simp [hreports]

/-! ## The globals before a case -/

/-- What an ACM run hands on from one case to the next. -/
structure Clean (sol : OjSolution) (p : Progress) : Prop where
  result : p.result = .ac
  time_le : p.timeUsage ≤ sol.timeLimit
  memory_le : p.memoryUsage ≤ sol.memoryLimit

theorem clean_start : Clean sol .start :=
  ⟨rfl, Nat.zero_le _, Nat.zero_le _⟩

theorem WithinLimits.clean {p : Progress} (h : WithinLimits sol p)
    (hac : p.result = .ac) : Clean sol p where
  result := hac
  time_le := h.time_le
  memory_le := h.memory_le (by rw [hac]; decide) (by rw [hac]; decide)

theorem clean_before_of_mem_trace (hacm : sol.judgeType = acm) {cases : List TestCase}
    {j : CaseRun} (hj : j ∈ trace sol cases .start) : Clean sol j.before := by
  apply before_of_mem_trace clean_start _ hj
  intro c q q' ok hjudge _ hgo
  have hok : ok = true := hgo.resolve_right (fun hne => hne hacm)
  exact (judge_withinLimits hjudge).clean ((judge_flag hjudge).mp hok)

/-! ## One case -/

theorem signalResult_eq_ac_iff {signo : ℕ} : signalResult signo = .ac ↔ signo = sigChld := by
  unfold signalResult
  split_ifs with hchld halrm hxfsz
  · simp [hchld]
  · simp [hchld]
  · simp [hchld]
  · simp [hchld]

theorem mergeResult_ac (result : OjResult) : mergeResult .ac result = result := by
  unfold mergeResult
  split
  · next hwa => exact hwa.symm
  · simp

/-- From `OJ_AC` the wait loop leaves `OJ_AC` behind only through an equal
comparison or through the `SIGCHLD` branch. -/
theorem Leaves.eq_ac_cases {c : TestCase} {r : Report} {p q : Progress}
    (h : Leaves sol c r p q) (hp : p.result = .ac) (hq : q.result = .ac) :
    (r.status.ifExited ∧ NormalQuit sol r.status ∧ compareCase sol c = .returned .ac) ∨
      fatalSignal r.status = some sigChld := by
  cases h with
  | compared hexited hquit hcompare =>
      simp only [hp, mergeResult_ac] at hq
      subst hq
      exact Or.inl ⟨hexited, hquit, hcompare⟩
  | abnormal => cases hq
  | signal hsignal =>
      have hchld := signalResult_eq_ac_iff.mp hq
      exact Or.inr (hchld ▸ hsignal)
  | memory => cases hq
  | syscall => cases hq

/-- The `SIGCHLD` branch leaves `OJ_AC` behind and touches nothing else. -/
theorem Leaves.of_sigchld {c : TestCase} {r : Report} {p q : Progress}
    (h : Leaves sol c r p q) (hchld : fatalSignal r.status = some sigChld) :
    ¬r.status.ifExited ∧ q = { p with result := .ac } := by
  have hnot : ¬r.status.ifExited := by
    intro hexited
    rw [fatalSignal_eq_none_of_ifExited hexited] at hchld
    cases hchld
  cases h with
  | compared hexited => exact (hnot hexited).elim
  | abnormal hexited => exact (hnot hexited).elim
  | signal hsignal =>
      rw [hchld] at hsignal
      cases hsignal
      exact ⟨hnot, rfl⟩
  | memory _ hsignal =>
      rw [hchld] at hsignal
      cases hsignal
  | syscall _ hsignal =>
      rw [hchld] at hsignal
      cases hsignal

/-- A case that starts clean and leaves `OJ_AC` is soundly accepted, unless it
was ended by `SIGCHLD` within the limits. -/
theorem soundAccept_or_sigchld {j : CaseRun} {passed : List Report} {last : Report}
    (hclean : Clean sol j.before) (hends : j.EndedBy sol passed last)
    (hac : j.after.result = .ac) :
    SoundAccept sol j passed last ∨ SigchldWithinLimits sol last := by
  obtain ⟨q, hends, hafter⟩ := hends
  obtain ⟨mid, hpasses, hleaves⟩ := hends.leaves
  rw [hafter] at hac
  obtain ⟨hq, hmemory, htime⟩ := settle_result_eq_ac_iff.mp hac
  have hmid : mid.result = .ac := hpasses.result.trans hclean.result
  rcases hleaves.eq_ac_cases hmid hq with ⟨hexited, hquit, hcompare⟩ | hchld
  · refine Or.inl ⟨hexited, hquit, hcompare, ?_, ?_, by omega⟩
    · intro r hr
      rcases List.mem_append.mp hr with hr | hr
      · have hle := hpasses.maxrss_le r hr
        have hmidLe := hpasses.memory_le (by simpa [startCase] using hclean.memory_le)
        omega
      · obtain rfl := List.mem_singleton.mp hr
        omega
    · rw [hafter, settle_of_result_eq_ac hac, checkLimits_memoryUsage]
      exact hmemory
  · exact Or.inr ⟨hchld, by omega, by omega⟩

/-- A case that starts clean and is ended by `SIGCHLD` within the limits leaves
`OJ_AC` although its executor did not exit. -/
theorem accepts_of_sigchld {j : CaseRun} {passed : List Report} {last : Report}
    (hclean : Clean sol j.before) (hends : j.EndedBy sol passed last)
    (hchld : SigchldWithinLimits sol last) :
    j.after.result = .ac ∧ ¬last.status.ifExited := by
  obtain ⟨q, hends, hafter⟩ := hends
  obtain ⟨mid, hpasses, hleaves⟩ := hends.leaves
  obtain ⟨hsignal, hmemory, htime⟩ := hchld
  obtain ⟨hnot, rfl⟩ := hleaves.of_sigchld hsignal
  refine ⟨?_, hnot⟩
  rw [hafter, settle_result_eq_ac_iff]
  have hmidMemory := hpasses.memory_le (by simpa [startCase] using hclean.memory_le)
  have hmidTime : mid.timeUsage = j.before.timeUsage := hpasses.timeUsage
  have hbeforeTime := hclean.time_le
  refine ⟨rfl, ?_, ?_⟩
  · exact max_le hmidMemory hmemory
  · exact max_le (by simpa [hmidTime] using hbeforeTime) htime

/-! ## The run -/

/-- In an ACM run every case that leaves `OJ_AC` is soundly accepted exactly
when no wait loop of the run was ended by a `SIGCHLD` within the limits. -/
theorem accepted_sound_iff (sol : OjSolution) (hacm : sol.judgeType = acm)
    (cases : List TestCase) :
    (∀ j ∈ trace sol cases .start, ∀ passed last, j.EndedBy sol passed last →
      j.after.result = .ac → SoundAccept sol j passed last) ↔
    ∀ j ∈ trace sol cases .start, ∀ passed last, j.EndedBy sol passed last →
      ¬SigchldWithinLimits sol last := by
  constructor
  · intro h j hj passed last hends hchld
    obtain ⟨hac, hnot⟩ :=
      accepts_of_sigchld (clean_before_of_mem_trace hacm hj) hends hchld
    exact hnot (h j hj passed last hends hac).exited
  · intro h j hj passed last hends hac
    have hcases := soundAccept_or_sigchld (clean_before_of_mem_trace hacm hj) hends hac
    exact hcases.resolve_right (h j hj passed last hends)

/-- A run over one case whose executor exits and prints what is expected. -/
theorem accepted_sound_iff_quiet :
    runSolution (.init .c11) [.quiet [49] [49]] = .returned ⟨.ac, 0, 0, 0⟩ ∧
      ∀ j ∈ trace (.init .c11) [.quiet [49] [49]] .start, ∀ passed last,
        j.EndedBy (.init .c11) passed last → j.after.result = .ac →
          SoundAccept (.init .c11) j passed last := by
  refine ⟨by decide +kernel, (accepted_sound_iff (.init .c11) rfl [.quiet [49] [49]]).mpr ?_⟩
  rintro j hj passed last hends ⟨hchld, -, -⟩
  have hcase := List.mem_singleton.mp (mem_trace hj).1
  have hlast := hends.last_mem_reports
  rw [hcase] at hlast
  obtain rfl : last = .idle (.ofExit 0) := by simpa [TestCase.quiet] using hlast
  have hexited : (Report.idle (.ofExit 0)).status.ifExited := WaitStatus.ifExited_ofExit 0
  rw [fatalSignal_eq_none_of_ifExited hexited] at hchld
  cases hchld

/-- A case whose executor is stopped by a `SIGCHLD` before it has printed
anything. -/
def sigchldCase : TestCase :=
  { TestCase.quiet [49] [] with reports := [some (.idle (.ofStop sigChld))] }

/-- The case is accepted and reported as such, and its executor never exited. -/
theorem accepted_without_comparison :
    runSolution (.init .c11) [sigchldCase] = .returned ⟨.ac, 0, 0, 0⟩ ∧
      ∃ j ∈ trace (.init .c11) [sigchldCase] .start, ∃ passed last,
        j.EndedBy (.init .c11) passed last ∧ j.after.result = .ac ∧
          ¬SoundAccept (.init .c11) j passed last := by
  refine ⟨by decide +kernel, ?_⟩
  obtain ⟨j, hj, hac⟩ :
      ∃ j ∈ trace (.init .c11) [sigchldCase] .start, j.after.result = .ac := by
    refine ⟨_, List.mem_cons_self, ?_⟩
    decide
  obtain ⟨passed, last, hends⟩ := exists_endedBy_of_mem_trace hj
  refine ⟨j, hj, passed, last, hends, hac, ?_⟩
  intro hsound
  have hcase := List.mem_singleton.mp (mem_trace hj).1
  have hlast := hends.last_mem_reports
  rw [hcase] at hlast
  obtain rfl : last = .idle (.ofStop sigChld) := by
    simpa [sigchldCase] using hlast
  have hstopped : (WaitStatus.ofStop sigChld).ifStopped := by decide
  exact WaitStatus.not_ifExited_of_ifStopped hstopped hsound.exited

end PowerJudge
