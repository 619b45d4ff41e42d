import PowerJudge.Judged.ResultRecord

/-!
# The memory that is accounted for

`judge` keeps `memory_usage` as the largest resident set size reported so far, in
kilobytes.  An exhausted Java heap is accounted for with the memory limit in
bytes instead.
-/

namespace PowerJudge

variable {sol : OjSolution}

/-- The largest resident set size of some reports. -/
def peak (reports : List Report) : ℕ := (reports.map fun r => r.rusage.maxrss).foldr max 0

theorem peak_append (reports later : List Report) :
    peak (reports ++ later) = max (peak reports) (peak later) := by
  induction reports with
  | nil => simp [peak]
  | cons r reports ih =>
      simp only [peak, List.cons_append, List.map_cons, List.foldr_cons] at ih ⊢
      rw [ih, max_assoc]

/-! ## One call -/

/-- The reports of `wait4` that a call of `judge` takes. -/
def CaseRun.reports (sol : OjSolution) (run : CaseRun) : List Report :=
  takenReports sol run.case run.case.reports (startCase sol run.before)

/-- The case is a wrong answer that `fix_java_result` classifies as an exhausted
heap. -/
def CaseRun.ExhaustsHeap (sol : OjSolution) (run : CaseRun) : Prop :=
  ∃ q last, waitLoop sol run.case run.case.reports (startCase sol run.before) =
    .returned (q, last) ∧ PowerJudge.ExhaustsHeap sol run.case last q

/-- The usage is a running maximum over the reports. -/
theorem waitLoop_memoryUsage {c : TestCase} {reports : List (Option Report)} {p q : Progress}
    {last : Report} (h : waitLoop sol c reports p = .returned (q, last)) :
    max q.memoryUsage last.rusage.maxrss =
      max p.memoryUsage (peak (takenReports sol c reports p)) := by
  induction reports generalizing p with
  | nil => cases h
  | cons report rest ih =>
      cases report with
      | none => cases h
      | some r =>
          rw [waitLoop, Outcome.bind_eq_returned_iff] at h
          obtain ⟨step, hstep, h⟩ := h
          rw [takenReports, hstep]
          cases step with
          | leave p' =>
              cases h
              rw [(leaves_of_onReport hstep).max_memoryUsage]
              simp [peak]
          | again p' =>
              rw [ih h, (passes_of_onReport hstep).memoryUsage, max_assoc]
              rfl

/-! ## The two branches, from the reports -/

/-- The wait loop is left with the last report that it takes. -/
theorem getLast?_takenReports {c : TestCase} {reports : List (Option Report)} {p q : Progress}
    {last : Report} (h : waitLoop sol c reports p = .returned (q, last)) :
    (takenReports sol c reports p).getLast? = some last := by
  induction reports generalizing p with
  | nil => cases h
  | cons report rest ih =>
      cases report with
      | none => cases h
      | some r =>
          rw [waitLoop, Outcome.bind_eq_returned_iff] at h
          obtain ⟨step, hstep, h⟩ := h
          rw [takenReports, hstep]
          cases step with
          | leave p' =>
              cases h
              rfl
          | again p' =>
              have hlast := ih h
              dsimp only
              rw [List.getLast?_cons, hlast]
              rfl

/-- Only a signal makes a time limit of what ends the wait loop. -/
theorem Leaves.result_eq_tle_iff {c : TestCase} {r : Report} {p q : Progress}
    (h : Leaves sol c r p q) :
    q.result = .tle ↔ ∃ signo, fatalSignal r.status = some signo ∧ signalResult signo = .tle := by
  cases h with
  | compared hexited hquit hcompare =>
      have hne := @mergeResult_ne_tle p.result _ (compareCase_isCaseOutcome hcompare)
      simp [hne, fatalSignal_eq_none_of_ifExited hexited]
  | abnormal hexited hquit => simp [fatalSignal_eq_none_of_ifExited hexited]
  | signal hsignal => simp [hsignal]
  | memory hexited hsignal hover => simp [hsignal]
  | syscall hexited hsignal hmemory m => simp [hsignal]

theorem signalResult_ne_wa (signo : ℕ) : signalResult signo ≠ .wa := by
  unfold signalResult
  split_ifs
  all_goals decide

/-- Only a comparison makes a wrong answer of it. -/
theorem Leaves.result_eq_wa_iff {c : TestCase} {r : Report} {p q : Progress}
    (h : Leaves sol c r p q) :
    q.result = .wa ↔
      r.status.ifExited ∧ NormalQuit sol r.status ∧ compareCase sol c = .returned .wa := by
  have hsignaled : ∀ {signo}, fatalSignal r.status = some signo → ¬r.status.ifExited := by
    intro signo hsignal hexited
    rw [fatalSignal_eq_none_of_ifExited hexited] at hsignal
    cases hsignal
  cases h with
  | compared hexited hquit hcompare =>
      rw [hcompare, Outcome.returned.injEq, mergeResult_eq_wa_iff]
      simp [hexited, hquit]
  | abnormal hexited hquit => simp [hquit]
  | signal hsignal => simp [hsignaled hsignal, signalResult_ne_wa]
  | memory hexited hsignal hover => simp [hexited]
  | syscall hexited hsignal hmemory m => simp [hexited]

/-- The time usage is set to the limit when the executor has used more time than it, or is
ended by a signal of a timer within the memory limit. -/
theorem timesOut_iff {c : TestCase} {reports : List (Option Report)} {p q : Progress}
    {last : Report} (h : waitLoop sol c reports p = .returned (q, last)) :
    TimesOut sol last q ↔
      sol.timeLimit < max p.timeUsage last.rusage.utimeMs ∨
        max p.memoryUsage (peak (takenReports sol c reports p)) ≤ sol.memoryLimit ∧
          ∃ signo, fatalSignal last.status = some signo ∧ signalResult signo = .tle := by
  obtain ⟨passed, rest, mid, -, -, hlast⟩ := waitLoop_eq_returned h
  rw [TimesOut, checkLimits_result, waitLoop_timeUsage h, waitLoop_memoryUsage h,
    ← (leaves_of_onReport hlast).result_eq_tle_iff]
  split_ifs with htime hmemory
  · simp [htime]
  · simp [htime, Nat.not_le_of_lt hmemory]
  · simp [htime, Nat.le_of_not_lt hmemory]

/-- The memory usage is set to the limit in bytes when a program in Java quits normally within
the limits with a wrong answer, and one of its files names the error. -/
theorem exhaustsHeap_iff {c : TestCase} {reports : List (Option Report)} {p q : Progress}
    {last : Report} (h : waitLoop sol c reports p = .returned (q, last)) :
    ExhaustsHeap sol c last q ↔
      sol.lang = .java ∧ OutOfMemory c ∧ last.status.ifExited ∧ last.status.exitStatus = 0 ∧
        compareCase sol c = .returned .wa ∧
        max p.timeUsage last.rusage.utimeMs ≤ sol.timeLimit ∧
        max p.memoryUsage (peak (takenReports sol c reports p)) ≤ sol.memoryLimit := by
  obtain ⟨passed, rest, mid, -, -, hlast⟩ := waitLoop_eq_returned h
  have hwa : (checkLimits sol last q).result = .wa ↔
      max p.timeUsage last.rusage.utimeMs ≤ sol.timeLimit ∧
        max p.memoryUsage (peak (takenReports sol c reports p)) ≤ sol.memoryLimit ∧
        q.result = .wa := by
    rw [checkLimits_result, waitLoop_timeUsage h, waitLoop_memoryUsage h]
    split_ifs with htime hmemory
    · simp [Nat.not_le_of_lt htime]
    · simp [Nat.not_le_of_lt hmemory]
    · simp [Nat.le_of_not_lt htime, Nat.le_of_not_lt hmemory]
  rw [PowerJudge.ExhaustsHeap, hwa, (leaves_of_onReport hlast).result_eq_wa_iff]
  constructor
  · rintro ⟨hjava, ⟨htime, hmemory, hexited, hquit, hcompare⟩, herror⟩
    have hstatus : last.status.exitStatus = 0 := hquit.resolve_left fun hne => hne.1 hjava
    exact ⟨hjava, herror, hexited, hstatus, hcompare, htime, hmemory⟩
  · rintro ⟨hjava, herror, hexited, hstatus, hcompare, htime, hmemory⟩
    exact ⟨hjava, ⟨htime, hmemory, hexited, Or.inr hstatus, hcompare⟩, herror⟩

/-! ## One call, to the end -/

/-- What a call does to the usage. -/
theorem judge_memoryUsage {run : CaseRun} {ok : Bool}
    (h : judge sol run.case run.before = .returned (run.after, ok)) :
    (¬run.ExhaustsHeap sol →
      run.after.memoryUsage = max run.before.memoryUsage (peak (run.reports sol))) ∧
    (run.ExhaustsHeap sol →
      run.after.memoryUsage = sol.memoryLimit * stdKb ∧
        max run.before.memoryUsage (peak (run.reports sol)) ≤ sol.memoryLimit) := by
  obtain ⟨-, q, last, hloop, hsettle⟩ := judge_waitLoop h
  have hafter : (settle sol run.case last q).1 = run.after := congrArg Prod.fst hsettle
  have husage := waitLoop_memoryUsage hloop
  change _ = max run.before.memoryUsage (peak (run.reports sol)) at husage
  rw [← hafter, settle_memoryUsage, ← husage]
  constructor
  · intro hnot
    exact if_neg fun hheap => hnot ⟨q, last, hloop, hheap⟩
  · rintro ⟨q', last', hloop', hheap⟩
    rw [hloop'] at hloop
    cases hloop
    have hwa := hheap.2.1
    have hmax := (checkLimits_excess sol last q).2 (by rw [hwa]; decide) (by rw [hwa]; decide)
    rw [checkLimits_memoryUsage] at hmax
    exact ⟨if_pos hheap, hmax⟩

/-- The usage is taken over from the limit in bytes, and differs from it. -/
def CaseRun.Overstates (sol : OjSolution) (run : CaseRun) : Prop :=
  run.ExhaustsHeap sol ∧ 0 < sol.memoryLimit

theorem judge_memoryUsage_of_not_overstates {run : CaseRun} {ok : Bool}
    (h : judge sol run.case run.before = .returned (run.after, ok))
    (hnot : ¬run.Overstates sol) :
    run.after.memoryUsage = max run.before.memoryUsage (peak (run.reports sol)) := by
  by_cases hheap : run.ExhaustsHeap sol
  · obtain ⟨hafter, hmax⟩ := (judge_memoryUsage h).2 hheap
    have hlimit : sol.memoryLimit = 0 := Nat.eq_zero_of_not_pos fun hpos => hnot ⟨hheap, hpos⟩
    rw [hlimit] at hafter hmax
    omega
  · exact (judge_memoryUsage h).1 hheap

theorem le_judge_memoryUsage {run : CaseRun} {ok : Bool}
    (h : judge sol run.case run.before = .returned (run.after, ok)) :
    max run.before.memoryUsage (peak (run.reports sol)) ≤ run.after.memoryUsage := by
  by_cases hheap : run.ExhaustsHeap sol
  · obtain ⟨hafter, hmax⟩ := (judge_memoryUsage h).2 hheap
    rw [hafter, stdKb]
    omega
  · rw [(judge_memoryUsage h).1 hheap]

/-! ## The run -/

/-- The largest resident set size reported in some cases. -/
def peakOf (sol : OjSolution) (runs : List CaseRun) : ℕ :=
  peak (runs.flatMap fun run => run.reports sol)

/-- After each call the usage is the largest resident set size reported so far, or
the memory limit where it is larger and a heap has been exhausted. -/
def MemoryAccounted (sol : OjSolution) (runs : List CaseRun) : Prop :=
  ∀ done run, done ++ [run] <+: runs →
    run.after.memoryUsage = peakOf sol (done ++ [run]) ∨
      (∃ exhausted ∈ done ++ [run], exhausted.ExhaustsHeap sol) ∧
        run.after.memoryUsage = max sol.memoryLimit (peakOf sol (done ++ [run]))

/-- A part of the trace starts with the first case and goes on in the rest. -/
theorem prefix_trace_cases {c : TestCase} {cases : List TestCase} {p : Progress}
    {done : List CaseRun} {run : CaseRun} (h : done ++ [run] <+: trace sol (c :: cases) p) :
    ∃ p' ok, judge sol c p = .returned (p', ok) ∧
      (done = [] ∧ run = ⟨c, p, p'⟩ ∨
        ∃ later, done = ⟨c, p, p'⟩ :: later ∧ later ++ [run] <+: trace sol cases p') := by
  have hreturned : ∃ judged, judge sol c p = .returned judged := by
    by_contra hnone
    rw [trace_cons_of_not_returned (not_exists.mp hnone), List.prefix_nil] at h
    exact List.append_ne_nil_of_right_ne_nil done (List.cons_ne_nil run []) h
  obtain ⟨⟨p', ok⟩, hjudge⟩ := hreturned
  rw [trace_cons_of_returned hjudge] at h
  refine ⟨p', ok, hjudge, ?_⟩
  cases done with
  | nil =>
      rw [List.nil_append, List.cons_prefix_cons] at h
      exact Or.inl ⟨rfl, h.1⟩
  | cons first later =>
      rw [List.cons_append, List.cons_prefix_cons] at h
      obtain ⟨rfl, h⟩ := h
      refine Or.inr ⟨later, rfl, ?_⟩
      split at h
      · exact h
      · rw [List.prefix_nil] at h
        exact absurd h (List.append_ne_nil_of_right_ne_nil later (List.cons_ne_nil run []))

/-- The usage before a call is no less than what has been reported, and no more if
no usage is overstated. -/
theorem before_memoryUsage {cases : List TestCase} {p : Progress} {done : List CaseRun}
    {run : CaseRun} (h : done ++ [run] <+: trace sol cases p) :
    max p.memoryUsage (peakOf sol done) ≤ run.before.memoryUsage ∧
      ((∀ earlier ∈ done, ¬earlier.Overstates sol) →
        run.before.memoryUsage = max p.memoryUsage (peakOf sol done)) ∧
      ∃ ok, judge sol run.case run.before = .returned (run.after, ok) := by
  induction cases generalizing p done with
  | nil =>
      rw [trace, List.prefix_nil] at h
      exact absurd h (List.append_ne_nil_of_right_ne_nil done (List.cons_ne_nil run []))
  | cons c cases ih =>
      obtain ⟨p', ok, hjudge, ⟨rfl, rfl⟩ | ⟨later, rfl, hlater⟩⟩ := prefix_trace_cases h
      · simp [peakOf, peak, hjudge]
      · obtain ⟨hle, heq, hcall⟩ := ih hlater
        have hfirst : peakOf sol (⟨c, p, p'⟩ :: later) =
            max (peak (CaseRun.reports sol ⟨c, p, p'⟩)) (peakOf sol later) := by
          rw [peakOf, List.flatMap_cons, peak_append, peakOf]
        refine ⟨?_, ?_, hcall⟩
        · have hgrows := @le_judge_memoryUsage sol ⟨c, p, p'⟩ ok hjudge
          rw [hfirst, ← max_assoc]
          exact le_trans (max_le_max_right _ hgrows) hle
        · intro hnone
          have hnot := hnone _ List.mem_cons_self
          rw [heq fun earlier hearlier => hnone earlier (List.mem_cons_of_mem _ hearlier), hfirst,
            ← max_assoc]
          congr 1
          exact judge_memoryUsage_of_not_overstates hjudge hnot

theorem peakOf_append (done : List CaseRun) (run : CaseRun) :
    peakOf sol (done ++ [run]) = max (peakOf sol done) (peak (run.reports sol)) := by
  rw [peakOf, List.flatMap_append, peak_append, List.flatMap_singleton, peakOf]

/-- The memory of a run is accounted for exactly when no call takes the limit over
in bytes. -/
theorem memoryAccounted_iff (cases : List TestCase) :
    MemoryAccounted sol (trace sol cases .start) ↔
      ∀ run ∈ trace sol cases .start, ¬run.Overstates sol := by
  constructor
  · rintro haccounted run hrun ⟨hheap, hlimit⟩
    obtain ⟨done, later, htrace⟩ := List.append_of_mem hrun
    have hpart : done ++ [run] <+: trace sol cases .start := ⟨later, by simp [htrace]⟩
    obtain ⟨hle, -, ok, hjudge⟩ := before_memoryUsage hpart
    obtain ⟨hafter, hmax⟩ := (judge_memoryUsage hjudge).2 hheap
    have hpeak : peakOf sol (done ++ [run]) ≤ sol.memoryLimit := by
      rw [peakOf_append]
      omega
    have hbytes : sol.memoryLimit < sol.memoryLimit * stdKb := by
      rw [stdKb]
      omega
    rcases haccounted done run hpart with heq | ⟨-, heq⟩
    · omega
    · omega
  · intro hnone done run hpart
    have hsubset := fun {j : CaseRun} (hj : j ∈ done ++ [run]) => hnone j (hpart.subset hj)
    obtain ⟨-, heq, ok, hjudge⟩ := before_memoryUsage hpart
    have hbefore := heq fun earlier hearlier => hsubset (List.mem_append_left _ hearlier)
    have hnot : ¬run.Overstates sol := hsubset (by simp)
    refine Or.inl ?_
    rw [judge_memoryUsage_of_not_overstates hjudge hnot, hbefore, peakOf_append]
    exact congrArg (max · (peak (run.reports sol))) (Nat.zero_max _)

/-- A wrong answer of a Java program with an exhausted heap. -/
def heapCase : TestCase where
  __ := TestCase.quiet (ascii "1") (ascii "2")
  grepStderr := fun pattern => if pattern = "java.lang.OutOfMemoryError" then 0 else 1

/-- With a limit of 65536 kilobytes it leaves a usage of 67108864. -/
theorem heapCase_overstated :
    (trace (.init .java) [heapCase] .start).map (fun run => run.after.memoryUsage) = [67108864] ∧
    ¬MemoryAccounted (.init .java) (trace (.init .java) [heapCase] .start) := by
  have husages : (trace (.init .java) [heapCase] .start).map
      (fun run => (run.after.memoryUsage, peak (run.reports (.init .java)))) =
        [(67108864, 0)] := by
    decide +kernel
  obtain ⟨run, htrace, hrun⟩ := List.map_eq_singleton_iff.mp husages
  obtain ⟨husage, hpeak⟩ := Prod.mk.inj hrun
  refine ⟨by rw [htrace, List.map_singleton, husage], ?_⟩
  intro haccounted
  have hall : peakOf (.init .java) ([] ++ [run]) = 0 := by
    rw [peakOf_append, hpeak]
    rfl
  have hlimit : (OjSolution.init .java).memoryLimit = 65536 := rfl
  rcases haccounted [] run ⟨[], by rw [htrace]; rfl⟩ with heq | ⟨-, heq⟩
  · omega
  · omega

end PowerJudge
