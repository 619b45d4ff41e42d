import PowerJudge.Judge.FinalReport

/-!
# Cases whose executor exits normally

A case that ends by a normal exit within the limits changes the globals in one
way only: its comparison is merged into the result, and a wrong answer may be
replaced by a more specific class.  A case that starts above the memory limit
never gets back below it.
-/

namespace PowerJudge

variable {sol : OjSolution} {c : TestCase}

/-! ## Inputs -/

/-- The monitor lets the system calls of these stops pass. -/
def Permitted : List Report → Monitor → Prop
  | [], _ => True
  | r :: stops, m =>
      ∃ origRax, r.origRax = some origRax ∧
        (checkStop (syscallIdOf origRax) m).1 = true ∧
        Permitted stops (checkStop (syscallIdOf origRax) m).2

/-- The executor stops for permitted system calls only, and then exits normally;
it stays within the limits throughout. -/
structure ExitsAfter (sol : OjSolution) (c : TestCase) (m : Monitor)
    (stops : List Report) (last : Report) : Prop where
  taken : ∃ rest, c.reports = stops.map some ++ some last :: rest
  stopped : ∀ r ∈ stops, ¬r.status.ifExited ∧ fatalSignal r.status = none
  permitted : Permitted stops m
  exited : last.status.ifExited
  quit : NormalQuit sol last.status
  memory_le : ∀ r ∈ stops ++ [last], r.rusage.maxrss ≤ sol.memoryLimit
  time_le : last.rusage.utimeMs ≤ sol.timeLimit

/-- A call of `judge` on an executor that exits normally within the limits. -/
def CaseRun.ExitsNormally (sol : OjSolution) (j : CaseRun) : Prop :=
  ∃ stops last, ExitsAfter sol j.case (startCase sol j.before).monitor stops last

theorem exitsNormally_of_quiet {j : CaseRun} {fileOut fileUser : Bytes}
    (h : j.case = .quiet fileOut fileUser) : j.ExitsNormally sol := by
  refine ⟨[], .idle (.ofExit 0), ?_⟩
  rw [h]
  exact
    { taken := ⟨[], rfl⟩
      stopped := by simp
      permitted := trivial
      exited := WaitStatus.ifExited_ofExit 0
      quit := Or.inr (WaitStatus.exitStatus_ofExit 0)
      memory_le := by simp [Report.idle]
      time_le := by simp [Report.idle, Rusage.utimeMs] }

theorem exitsNormally_of_mem_trace_quiet (files : List (Bytes × Bytes)) {p : Progress} :
    ∀ j ∈ trace sol (files.map fun file => .quiet file.1 file.2) p,
      j.ExitsNormally sol := by
  intro j hj
  obtain ⟨file, -, hcase⟩ := List.mem_map.mp (mem_trace hj).1
  exact exitsNormally_of_quiet hcase.symm

/-- The executor left the message of an exhausted Java heap. -/
def OutOfMemory (c : TestCase) : Prop :=
  c.grepStderr "java.lang.OutOfMemoryError" = 0 ∨
    c.grepStdout "java.lang.OutOfMemoryError" = 0

instance (c : TestCase) : Decidable (OutOfMemory c) :=
  inferInstanceAs (Decidable (_ ∨ _))

/-- A wrong answer of this case is reported as another class: Java's exhausted
heap, exceptions and failed starts, and anything on Python's stderr. -/
def Reclassified (sol : OjSolution) (c : TestCase) : Prop :=
  (sol.lang = .java ∧
    (OutOfMemory c ∨ c.grepStderr "Exception" = 0 ∨
      c.grepStderr "Could not create" = 0)) ∨
  (sol.lang.isPython ∧ c.stderrSize ≠ 0)

/-! ## The wait loop -/

theorem onReport_of_stopped {r : Report} {p : Progress}
    (hexited : ¬r.status.ifExited) (hsignal : fatalSignal r.status = none) :
    onReport sol c r p = stopBranch sol r p := by
  rw [onReport, if_neg hexited, hsignal]

/-- A permitted stop below the memory limit only raises the memory usage and
moves the monitor on. -/
theorem stopBranch_of_permitted {r : Report} {origRax : BitVec 64} {p : Progress}
    (hrax : r.origRax = some origRax)
    (hok : (checkStop (syscallIdOf origRax) p.monitor).1 = true)
    (hmemory : max p.memoryUsage r.rusage.maxrss ≤ sol.memoryLimit)
    (hresumes : r.resumes = true) :
    ∃ p', stopBranch sol r p = .returned (.again p') ∧ p'.result = p.result ∧
      p'.timeUsage = p.timeUsage ∧ p'.memoryUsage = max p.memoryUsage r.rusage.maxrss ∧
      p'.monitor = (checkStop (syscallIdOf origRax) p.monitor).2 := by
  simp only [stopBranch, hrax, hok, if_neg (Nat.not_lt.mpr hmemory), Bool.not_true,
    Bool.false_eq_true, if_false, hresumes, if_true]
  exact ⟨_, rfl, rfl, rfl, rfl, rfl⟩

theorem stopBranch_of_not_resumed {r : Report} {origRax : BitVec 64} {p : Progress}
    (hrax : r.origRax = some origRax)
    (hok : (checkStop (syscallIdOf origRax) p.monitor).1 = true)
    (hmemory : max p.memoryUsage r.rusage.maxrss ≤ sol.memoryLimit)
    (hresumes : r.resumes = false) : stopBranch sol r p = .exited .judge := by
  simp [stopBranch, hrax, hok, Nat.not_lt.mpr hmemory, hresumes]

/-- A normal exit ends the loop with its outcome merged into the result. -/
theorem waitLoop_cons_exit {last : Report} {rest : List (Option Report)} {p : Progress}
    {outcome : OjResult} (hexited : last.status.ifExited)
    (hquit : NormalQuit sol last.status)
    (hcompare : compareCase sol c = .returned outcome) :
    waitLoop sol c (some last :: rest) p =
      .returned ({ p with result := mergeResult p.result outcome }, last) := by
  rw [waitLoop_cons_of_ifExited hexited, exitBranch, if_pos hquit, hcompare]
  rfl

/-- The loop takes all the stops and goes on with the rest of the reports, unless the
executor cannot be resumed. -/
theorem waitLoop_stops {stops : List Report} {p : Progress}
    (hstopped : ∀ r ∈ stops, ¬r.status.ifExited ∧ fatalSignal r.status = none)
    (hpermitted : Permitted stops p.monitor)
    (hmemory : ∀ r ∈ stops, r.rusage.maxrss ≤ sol.memoryLimit)
    (hp : p.memoryUsage ≤ sol.memoryLimit) (rest : List (Option Report)) :
    (∃ mid, mid.result = p.result ∧ mid.timeUsage = p.timeUsage ∧
      mid.memoryUsage ≤ sol.memoryLimit ∧
      waitLoop sol c (stops.map some ++ rest) p = waitLoop sol c rest mid) ∨
    (∃ r ∈ stops, r.resumes = false) ∧
      waitLoop sol c (stops.map some ++ rest) p = .exited .judge := by
  induction stops generalizing p with
  | nil => exact Or.inl ⟨p, rfl, rfl, hp, rfl⟩
  | cons r stops ih =>
      obtain ⟨origRax, hrax, hok, hpermitted⟩ := hpermitted
      have hr := hstopped r List.mem_cons_self
      have hmax : max p.memoryUsage r.rusage.maxrss ≤ sol.memoryLimit :=
        max_le hp (hmemory r List.mem_cons_self)
      rw [List.map_cons, List.cons_append, waitLoop, onReport_of_stopped hr.1 hr.2]
      cases hresumes : r.resumes with
      | false =>
          refine Or.inr ⟨⟨r, List.mem_cons_self, hresumes⟩, ?_⟩
          rw [stopBranch_of_not_resumed hrax hok hmax hresumes]
          rfl
      | true =>
          obtain ⟨p', hstep, hresult, htime, hmem, hmonitor⟩ :=
            stopBranch_of_permitted hrax hok hmax hresumes
          rw [← hmonitor] at hpermitted
          rw [← hmem] at hmax
          rw [hstep, Outcome.bind_returned, ← hresult, ← htime]
          have hlater := ih (fun r' hr' => hstopped r' (List.mem_cons_of_mem _ hr')) hpermitted
            (fun r' hr' => hmemory r' (List.mem_cons_of_mem _ hr')) hmax
          refine hlater.imp_right (And.imp_left ?_)
          rintro ⟨r', hr', hnot⟩
          exact ⟨r', List.mem_cons_of_mem _ hr', hnot⟩

/-- The loop takes all the stops, and the exit has the outcome of the comparison
merged into the result. -/
theorem waitLoop_of_exitsAfter {stops : List Report} {last l : Report}
    {rest : List (Option Report)} {p q : Progress} {outcome : OjResult}
    (hstopped : ∀ r ∈ stops, ¬r.status.ifExited ∧ fatalSignal r.status = none)
    (hpermitted : Permitted stops p.monitor)
    (hexited : last.status.ifExited) (hquit : NormalQuit sol last.status)
    (hmemory : ∀ r ∈ stops, r.rusage.maxrss ≤ sol.memoryLimit)
    (hp : p.memoryUsage ≤ sol.memoryLimit)
    (hcompare : compareCase sol c = .returned outcome)
    (h : waitLoop sol c (stops.map some ++ some last :: rest) p = .returned (q, l)) :
    l = last ∧ q.result = mergeResult p.result outcome ∧
      q.timeUsage = p.timeUsage ∧ q.memoryUsage ≤ sol.memoryLimit := by
  rcases waitLoop_stops hstopped hpermitted hmemory hp (some last :: rest) with
    ⟨mid, hresult, htime, hmid, hloop⟩ | ⟨-, hloop⟩
  · rw [hloop, waitLoop_cons_exit hexited hquit hcompare] at h
    cases h
    exact ⟨rfl, congrArg (mergeResult · outcome) hresult, htime, hmid⟩
  · rw [hloop] at h
    cases h

/-! ## After the loop -/

/-- Within the limits only the classes for a failed case are left to apply. -/
theorem settle_of_within {last : Report} {p : Progress}
    (hmemory : max p.memoryUsage last.rusage.maxrss ≤ sol.memoryLimit)
    (htime : max p.timeUsage last.rusage.utimeMs ≤ sol.timeLimit)
    (htle : p.result ≠ .tle) :
    (settle sol c last p).1 =
      if p.result = .wa then
        classify sol c { p with
          memoryUsage := max p.memoryUsage last.rusage.maxrss
          timeUsage := max p.timeUsage last.rusage.utimeMs }
      else { p with
        memoryUsage := max p.memoryUsage last.rusage.maxrss
        timeUsage := max p.timeUsage last.rusage.utimeMs } := by
  have hm : ¬max p.memoryUsage last.rusage.maxrss > sol.memoryLimit := by omega
  have ht : ¬max p.timeUsage last.rusage.utimeMs > sol.timeLimit := by omega
  simp only [settle, checkLimits, if_neg hm, if_neg ht]
  by_cases hwa : p.result = .wa
  · simp [hwa]
  · by_cases hac : p.result = .ac
    · simp [hac]
    · simp [hac, hwa, classify, htle]

/-- What `classify` makes of a wrong answer. -/
theorem classify_wa (sol : OjSolution) (c : TestCase) {p : Progress}
    (hp : p.result = .wa) :
    (classify sol c p).timeUsage = p.timeUsage ∧
    (classify sol c p).result ∈ [OjResult.wa, .re, .mle] ∧
    ((classify sol c p).result = .wa ↔ ¬Reclassified sol c) ∧
    (classify sol c p).memoryUsage =
      if sol.lang = .java ∧ OutOfMemory c then sol.memoryLimit * stdKb % 2 ^ 64
      else p.memoryUsage := by
  by_cases hjava : sol.lang = .java
  · have hpython : ¬Lang.java.isPython := by decide
    simp only [classify, hp, hjava, Reclassified, OutOfMemory, hpython]
    unfold fixJavaResult
    split_ifs <;> simp_all
  · by_cases hpython : sol.lang.isPython = true ∧ c.stderrSize ≠ 0
    · simp [classify, hp, hjava, Reclassified, hpython]
    · simp [classify, hp, hjava, Reclassified, hpython]

/-! ## One case -/

theorem compareCase_isCaseOutcome {outcome : OjResult}
    (h : compareCase sol c = .returned outcome) : IsCaseOutcome outcome := by
  unfold compareCase at h
  split at h
  · exact ojCompareOutputSpj_isCaseOutcome h
  · exact ojCompareOutput_isCaseOutcome h

theorem mergeResult_ne_tle {previous outcome : OjResult} (h : IsCaseOutcome outcome) :
    mergeResult previous outcome ≠ .tle := by
  unfold mergeResult
  split_ifs
  · decide
  · rcases h with h | h | h | h <;> rw [h] <;> decide
  · decide

theorem mergeResult_eq_wa_iff {previous outcome : OjResult} :
    mergeResult previous outcome = .wa ↔ outcome = .wa := by
  unfold mergeResult
  split_ifs with hwa hpe
  · simp [hwa]
  · rfl
  · simp [hwa]

/-- A wrong answer of this case leaves the memory usage above the limit. -/
def Exhausts (sol : OjSolution) (c : TestCase) : Prop :=
  sol.lang = .java ∧ 0 < sol.memoryLimit ∧ OutOfMemory c

/-- The memory usage after a wrong answer. -/
theorem exhaustedMemory_le_iff {usage : ℕ} (husage : usage ≤ sol.memoryLimit) :
    (if sol.lang = .java ∧ OutOfMemory c then sol.memoryLimit * stdKb % 2 ^ 64
      else usage) ≤ sol.memoryLimit ↔ ¬Exhausts sol c := by
  have hlt := sol.memoryLimit_lt
  by_cases hjava : sol.lang = .java ∧ OutOfMemory c
  · rw [if_pos hjava]
    simp only [Exhausts, hjava.1, hjava.2, stdKb, true_and, and_true]
    omega
  · rw [if_neg hjava]
    exact iff_of_true husage (fun h => hjava ⟨h.1, h.2.2⟩)

/-- What a case with a given outcome does to the globals. -/
structure CaseEffect (sol : OjSolution) (c : TestCase) (outcome : OjResult)
    (p p' : Progress) : Prop where
  time_le : p'.timeUsage ≤ sol.timeLimit
  memory_le_iff : p'.memoryUsage ≤ sol.memoryLimit ↔ ¬(outcome = .wa ∧ Exhausts sol c)
  result_of_ne_wa : outcome ≠ .wa → p'.result = mergeResult p.result outcome
  result_of_wa : outcome = .wa → p'.result ∈ [OjResult.wa, .re, .mle]
  wa_iff : outcome = .wa → (p'.result = .wa ↔ ¬Reclassified sol c)

theorem CaseEffect.result_ne_ac_of_wa {p p' : Progress} (h : CaseEffect sol c .wa p p') :
    p'.result ≠ .ac := by
  intro hac
  have hresult := h.result_of_wa rfl
  simp [hac] at hresult

/-- A normal exit of a case that starts within the limits. -/
theorem judge_of_exitsAfter {stops : List Report} {last : Report} {p p' : Progress}
    {ok : Bool} {outcome : OjResult}
    (hexits : ExitsAfter sol c (startCase sol p).monitor stops last)
    (htime : p.timeUsage ≤ sol.timeLimit) (hmemory : p.memoryUsage ≤ sol.memoryLimit)
    (hcompare : compareCase sol c = .returned outcome)
    (h : judge sol c p = .returned (p', ok)) : CaseEffect sol c outcome p p' := by
  obtain ⟨-, q, l, hloop, hsettle⟩ := judge_waitLoop h
  obtain ⟨rest, htaken⟩ := hexits.taken
  rw [htaken] at hloop
  have hstopsMemory : ∀ r ∈ stops, r.rusage.maxrss ≤ sol.memoryLimit :=
    fun r hr => hexits.memory_le r (List.mem_append_left _ hr)
  obtain ⟨rfl, hresult, hqtime, hqmemory⟩ :=
    waitLoop_of_exitsAfter hexits.stopped hexits.permitted hexits.exited hexits.quit
      hstopsMemory hmemory hcompare hloop
  have hlast : l.rusage.maxrss ≤ sol.memoryLimit := hexits.memory_le l (by simp)
  have hmax : max q.memoryUsage l.rusage.maxrss ≤ sol.memoryLimit := max_le hqmemory hlast
  have hqtime' : q.timeUsage ≤ sol.timeLimit := by
    rw [hqtime]
    exact htime
  have htmax : max q.timeUsage l.rusage.utimeMs ≤ sol.timeLimit :=
    max_le hqtime' hexits.time_le
  have hstart : q.result = mergeResult p.result outcome := hresult
  have htle : q.result ≠ .tle := by
    rw [hstart]
    exact mergeResult_ne_tle (compareCase_isCaseOutcome hcompare)
  have hp' : (settle sol c l q).1 = p' := congrArg Prod.fst hsettle
  have hsettled := settle_of_within (c := c) hmax htmax htle
  by_cases hwa : outcome = .wa
  · have hqwa : q.result = .wa := hstart.trans (mergeResult_eq_wa_iff.mpr hwa)
    rw [if_pos hqwa, hp'] at hsettled
    have hclassified := classify_wa sol c (p := { q with
      memoryUsage := max q.memoryUsage l.rusage.maxrss
      timeUsage := max q.timeUsage l.rusage.utimeMs }) hqwa
    rw [← hsettled] at hclassified
    obtain ⟨hct, hcr, hcw, hcm⟩ := hclassified
    refine ⟨hct.trans_le htmax, ?_, fun h => (h hwa).elim, fun _ => hcr, fun _ => hcw⟩
    rw [hcm]
    simpa [hwa] using exhaustedMemory_le_iff hmax
  · have hqwa : q.result ≠ .wa := fun hq => hwa (mergeResult_eq_wa_iff.mp (hstart ▸ hq))
    rw [if_neg hqwa, hp'] at hsettled
    subst hsettled
    exact ⟨htmax, iff_of_true hmax (fun h => hwa h.1), fun _ => hstart,
      fun h => (hwa h).elim, fun h => (hwa h).elim⟩

theorem CaseRun.ExitsNormally.effect {outcome : OjResult} {p p' : Progress} {ok : Bool}
    (hexits : CaseRun.ExitsNormally sol ⟨c, p, p'⟩)
    (htime : p.timeUsage ≤ sol.timeLimit) (hmemory : p.memoryUsage ≤ sol.memoryLimit)
    (hcompare : compareCase sol c = .returned outcome)
    (h : judge sol c p = .returned (p', ok)) : CaseEffect sol c outcome p p' := by
  obtain ⟨stops, last, hexits⟩ := hexits
  exact judge_of_exitsAfter hexits htime hmemory hcompare h

end PowerJudge
