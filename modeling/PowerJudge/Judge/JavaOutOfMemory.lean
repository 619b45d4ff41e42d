import PowerJudge.Judge.Accepted
import PowerJudge.Judge.Comparison
import PowerJudge.Judge.NormalExit

/-!
# Exhausted Java heaps

`fix_java_result` looks for the name of the error in the files of the executor,
but it is called for wrong answers only.  The virtual machine that an uncaught
error ends exits with another status than 0, and such a case is never compared.
-/

namespace PowerJudge

/-! ## Inputs -/

/-- The executor stops for permitted system calls only and is resumed after each of
them, and then it exits; its usage stays within both limits. -/
structure ExitsWithin (call : Call) (stops : List Report) (last : Report) : Prop where
  forks : call.case.forks = true
  taken : ∃ rest, call.case.reports = stops.map some ++ some last :: rest
  stopped : ∀ r ∈ stops, ¬r.status.ifExited ∧ fatalSignal r.status = none
  permitted : Permitted stops (startCase call.sol call.before).monitor
  resumed : ∀ r ∈ stops, r.resumes = true
  exited : last.status.ifExited
  memory_le : ∀ r ∈ stops ++ [last], r.rusage.maxrss ≤ call.sol.memoryLimit
  time_le : ∀ r ∈ stops ++ [last], r.rusage.utimeMs ≤ call.sol.timeLimit

/-- A Java case that starts from `OJ_AC` leaves the name of the error on stderr; if its
executor exits with status 0, the answer is wrong. -/
structure DiesOutOfMemory (call : Call) (stops : List Report) (last : Report) : Prop where
  java : call.sol.lang = .java
  accepted : call.before.result = .ac
  exits : ExitsWithin call stops last
  compared : last.status.exitStatus = 0 → compareCase call.sol call.case = .returned .wa
  logged : call.case.grepStderr "java.lang.OutOfMemoryError" = 0

/-- The call leaves `OJ_MLE` behind. -/
def Call.LeavesMle (call : Call) : Prop :=
  ∃ judged, judge call.sol call.case call.before = .returned judged ∧ judged.1.result = .mle

variable {sol : OjSolution} {c : TestCase}

/-! ## The globals before a call -/

/-- What every call that returns establishes holds before all calls. -/
theorem before_of_mem_calls {Inv : Progress → Prop} {cases : List TestCase} {p : Progress}
    {call : Call} (hp : Inv p)
    (hstep : ∀ c q q' ok, judge sol c q = .returned (q', ok) → Inv q')
    (hcall : call ∈ calls sol cases p) : call.sol = sol ∧ Inv call.before := by
  induction cases generalizing p with
  | nil => cases hcall
  | cons c cases ih =>
      rw [calls] at hcall
      rcases List.mem_cons.mp hcall with rfl | hcall
      · exact ⟨rfl, hp⟩
      · split at hcall
        · next p' ok hjudge =>
            split at hcall
            · exact ih (hstep c p p' ok hjudge) hcall
            · cases hcall
        · cases hcall

theorem clean_before_of_mem_calls {cases : List TestCase} {call : Call}
    (hcall : call ∈ calls sol cases .start) (hac : call.before.result = .ac) :
    Clean call.sol call.before := by
  obtain ⟨hsol, hlimits⟩ :=
    before_of_mem_calls withinLimits_start (fun _ _ _ _ hjudge => judge_withinLimits hjudge) hcall
  rw [hsol]
  exact hlimits.clean hac

/-! ## The wait loop -/

/-- An exit with another status than 0 ends the loop of a Java case. -/
theorem waitLoop_cons_abnormal {last : Report} {rest : List (Option Report)} {p : Progress}
    (hexited : last.status.ifExited) (hquit : ¬NormalQuit sol last.status) :
    waitLoop sol c (some last :: rest) p = .returned ({ p with result := .re }, last) := by
  rw [waitLoop_cons_of_ifExited hexited, exitBranch, if_neg hquit]
  rfl

theorem ExitsWithin.all_resumed {call : Call} {stops : List Report} {last : Report}
    (h : ExitsWithin call stops last) : ¬∃ r ∈ stops, r.resumes = false := by
  rintro ⟨r, hr, hnot⟩
  rw [h.resumed r hr] at hnot
  cases hnot

theorem normalQuit_iff_of_java (hjava : sol.lang = .java) (status : WaitStatus) :
    NormalQuit sol status ↔ status.exitStatus = 0 := by
  simp [NormalQuit, hjava]

/-! ## The verdict -/

/-- The name of the error on stderr settles the class of a wrong answer. -/
theorem classify_of_logged {p : Progress} (hjava : sol.lang = .java) (hwa : p.result = .wa)
    (hlogged : c.grepStderr "java.lang.OutOfMemoryError" = 0) :
    (classify sol c p).result = .mle := by
  simp [classify, hwa, hjava, fixJavaResult, hlogged]

/-- Every such call returns; the exit status decides between two verdicts. -/
theorem DiesOutOfMemory.judge_eq {call : Call} {stops : List Report} {last : Report}
    (h : DiesOutOfMemory call stops last) (hclean : Clean call.sol call.before) :
    ∃ judged, judge call.sol call.case call.before = .returned judged ∧
      judged.1.result = if last.status.exitStatus = 0 then .mle else .re := by
  obtain ⟨sol, c, before⟩ := call
  obtain ⟨hjava, -, hexits, hcompared, hlogged⟩ := h
  dsimp only at hjava hcompared hlogged hclean ⊢
  obtain ⟨rest, htaken⟩ := hexits.taken
  have hstart : (startCase sol before).memoryUsage ≤ sol.memoryLimit := hclean.memory_le
  obtain ⟨mid, -, hmidTime, hmidMemory, hloop⟩ :=
    (waitLoop_stops (c := c) hexits.stopped hexits.permitted
      (fun r hr => hexits.memory_le r (List.mem_append_left _ hr)) hstart
      (some last :: rest)).resolve_right fun hnot => hexits.all_resumed hnot.1
  have hmax : max mid.memoryUsage last.rusage.maxrss ≤ sol.memoryLimit :=
    max_le hmidMemory (hexits.memory_le last (by simp))
  have htmax : max mid.timeUsage last.rusage.utimeMs ≤ sol.timeLimit := by
    rw [hmidTime]
    exact max_le hclean.time_le (hexits.time_le last (by simp))
  have hjudge : ∀ q, waitLoop sol c (some last :: rest) mid = .returned (q, last) →
      judge sol c before = .returned (settle sol c last q) := by
    intro q hq
    rw [judge, if_pos hexits.forks, htaken, hloop, hq]
    rfl
  by_cases hstatus : last.status.exitStatus = 0
  · have hquit := (normalQuit_iff_of_java hjava last.status).mpr hstatus
    refine ⟨_, hjudge _ (waitLoop_cons_exit hexits.exited hquit (hcompared hstatus)), ?_⟩
    have hwa : mergeResult mid.result .wa = .wa := mergeResult_eq_wa_iff.mpr rfl
    have hsettled := settle_of_within (c := c)
      (p := { mid with result := mergeResult mid.result .wa }) hmax htmax (by simp [hwa])
    rw [hsettled, if_pos hwa, if_pos hstatus]
    exact classify_of_logged hjava hwa hlogged
  · have hquit := (normalQuit_iff_of_java hjava last.status).not.mpr hstatus
    refine ⟨_, hjudge _ (waitLoop_cons_abnormal hexits.exited hquit), ?_⟩
    have hsettled := settle_of_within (c := c) (p := { mid with result := .re }) hmax htmax
      (by simp)
    rw [hsettled, if_neg (by simp), if_neg hstatus]

/-- In every run a Java case that leaves the name of the error on stderr is judged
`OJ_MLE` exactly if its executor exits with status 0. -/
theorem outOfMemory_mle_iff {cases : List TestCase} {call : Call}
    (hcall : call ∈ calls sol cases .start) {stops : List Report} {last : Report}
    (h : DiesOutOfMemory call stops last) :
    call.LeavesMle ↔ last.status.exitStatus = 0 := by
  obtain ⟨judged, hjudge, hresult⟩ := h.judge_eq (clean_before_of_mem_calls hcall h.accepted)
  constructor
  · rintro ⟨judged', hjudge', hmle⟩
    rw [hjudge] at hjudge'
    cases hjudge'
    by_contra hstatus
    rw [hmle, if_neg hstatus] at hresult
    cases hresult
  · intro hstatus
    rw [if_pos hstatus] at hresult
    exact ⟨judged, hjudge, hresult⟩

/-- A program that prints a wrong answer, leaves the name of the error on stderr and
exits with a given status. -/
def outOfMemoryCase (code : ℕ) : TestCase where
  __ := TestCase.quiet [49] [50]
  reports := [some (.idle (.ofExit code))]
  grepStderr := fun pattern => if pattern = "java.lang.OutOfMemoryError" then 0 else 1

theorem diesOutOfMemory_outOfMemoryCase (code : ℕ) :
    DiesOutOfMemory ⟨.init .java, outOfMemoryCase code, .start⟩ []
      (.idle (.ofExit code)) where
  java := rfl
  accepted := rfl
  exits :=
    { forks := rfl
      taken := ⟨[], rfl⟩
      stopped := by simp
      permitted := trivial
      resumed := by simp
      exited := WaitStatus.ifExited_ofExit code
      memory_le := by simp [Report.idle]
      time_le := by simp [Report.idle, Rusage.utimeMs] }
  compared := by
    intro _
    change ojCompareOutput (some [49]) (some [50]) = .returned .wa
    rw [ojCompareOutput_eq]
    decide
  logged := rfl

theorem outOfMemory_mle_caught :
    Call.LeavesMle ⟨.init .java, outOfMemoryCase 0, .start⟩ := by
  have hcall : ⟨.init .java, outOfMemoryCase 0, .start⟩ ∈
      calls (.init .java) [outOfMemoryCase 0] .start := List.mem_cons_self
  exact (outOfMemory_mle_iff hcall (diesOutOfMemory_outOfMemoryCase 0)).mpr rfl

/-- The virtual machine that an uncaught error ends exits with status 1, and the case
is a runtime error. -/
theorem uncaughtError_judged_re :
    DiesOutOfMemory ⟨.init .java, outOfMemoryCase 1, .start⟩ [] (.idle (.ofExit 1)) ∧
      runSolution (.init .java) [outOfMemoryCase 1] = .returned ⟨.re, 0, 0, 1⟩ ∧
      ¬Call.LeavesMle ⟨.init .java, outOfMemoryCase 1, .start⟩ := by
  refine ⟨diesOutOfMemory_outOfMemoryCase 1, by decide +kernel, ?_⟩
  rintro ⟨judged, hjudge, hmle⟩
  obtain ⟨judged', hjudge', hresult⟩ := (diesOutOfMemory_outOfMemoryCase 1).judge_eq clean_start
  rw [hjudge] at hjudge'
  cases hjudge'
  rw [hmle] at hresult
  exact absurd hresult (by decide)

end PowerJudge
