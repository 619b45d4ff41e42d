import PowerJudge.Judge.Supervision

/-!
# Judging all test cases

The loop of `run_solution` over the scanned cases, the record it hands to
`output_acm_result`, and the trace of the cases it judges.
-/

namespace PowerJudge

/-- An `unsigned long` read as a `long`. -/
def toLong (x : ℕ) : ℤ := Int.bmod x (2 ^ 64)

theorem toLong_of_lt {x : ℕ} (h : x < 2 ^ 63) : toLong x = x := by
  apply Int.bmod_eq_of_le
  · omega
  · omega

/-- The arguments of `output_acm_result`. -/
structure Record where
  result : OjResult
  timeUsage : ℤ
  memoryUsage : ℤ
  test : ℕ
  deriving DecidableEq, Repr

/-- `first_failed_test` after case number `i`, counted from 0. -/
def noteFailure (firstFailedTest i : ℕ) (result : OjResult) : ℕ :=
  if result ≠ .ac ∧ firstFailedTest = 0 then i + 1 else firstFailedTest

/-- The loop of `run_solution` from case number `i` on. -/
def runCases (sol : OjSolution) :
    List TestCase → ℕ → ℕ → Progress → Outcome ExitReason (Progress × ℕ)
  | [], _, firstFailedTest, p => .returned (p, firstFailedTest)
  | c :: cases, i, firstFailedTest, p =>
      (judge sol c p).bind fun judged =>
        let firstFailedTest := noteFailure firstFailedTest i judged.1.result
        if !judged.2 && sol.judgeType = acm then .returned (judged.1, firstFailedTest)
        else runCases sol cases (i + 1) firstFailedTest judged.1

/-- `run_solution` on the scanned cases, up to the record that it outputs. -/
def runSolution (sol : OjSolution) (cases : List TestCase) : Outcome ExitReason Record :=
  (runCases sol cases 0 0 .start).bind fun ended =>
    .returned
      { result := ended.1.result
        timeUsage := toLong ended.1.timeUsage
        memoryUsage := toLong ended.1.memoryUsage
        test := ended.2 }

/-! ## The trace -/

/-- A call of `judge` that returned. -/
structure CaseRun where
  case : TestCase
  before : Progress
  after : Progress

/-- The calls of `judge` that `run_solution` makes and that return, in order. -/
def trace (sol : OjSolution) : List TestCase → Progress → List CaseRun
  | [], _ => []
  | c :: cases, p =>
      match judge sol c p with
      | .returned (p', ok) =>
          ⟨c, p, p'⟩ ::
            if ok ∨ sol.judgeType ≠ acm then trace sol cases p' else []
      | _ => []

/-- A call of `judge`. -/
structure Call where
  sol : OjSolution
  case : TestCase
  before : Progress

/-- The calls of `judge` that `run_solution` makes, the last of which may not
return. -/
def calls (sol : OjSolution) : List TestCase → Progress → List Call
  | [], _ => []
  | c :: cases, p =>
      ⟨sol, c, p⟩ ::
        match judge sol c p with
        | .returned (p', ok) => if ok ∨ sol.judgeType ≠ acm then calls sol cases p' else []
        | _ => []

variable {sol : OjSolution}

theorem trace_cons_of_returned {c : TestCase} {p p' : Progress} {ok : Bool}
    (h : judge sol c p = .returned (p', ok)) (cases : List TestCase) :
    trace sol (c :: cases) p =
      ⟨c, p, p'⟩ :: if ok ∨ sol.judgeType ≠ acm then trace sol cases p' else [] := by
  rw [trace, h]

theorem trace_cons_of_not_returned {c : TestCase} {cases : List TestCase} {p : Progress}
    (h : ∀ judged, judge sol c p ≠ .returned judged) : trace sol (c :: cases) p = [] := by
  rw [trace]
  split
  · next hreturned => exact (h _ hreturned).elim
  · rfl

/-- An entry of the trace is that of the first case, or of the rest when the run goes
on. -/
theorem mem_trace_cons {c : TestCase} {cases : List TestCase} {p : Progress} {j : CaseRun}
    (hj : j ∈ trace sol (c :: cases) p) :
    ∃ p' ok, judge sol c p = .returned (p', ok) ∧
      (j = ⟨c, p, p'⟩ ∨ (ok = true ∨ sol.judgeType ≠ acm) ∧ j ∈ trace sol cases p') := by
  by_cases hreturned : ∃ judged, judge sol c p = .returned judged
  · obtain ⟨⟨p', ok⟩, hjudge⟩ := hreturned
    refine ⟨p', ok, hjudge, ?_⟩
    rw [trace_cons_of_returned hjudge] at hj
    rcases List.mem_cons.mp hj with hfirst | hrest
    · exact Or.inl hfirst
    · split at hrest
      · next hgo => exact Or.inr ⟨hgo, hrest⟩
      · cases hrest
  · push Not at hreturned
    rw [trace_cons_of_not_returned hreturned] at hj
    cases hj

/-- Every entry of the trace is a call of `judge` on one of the cases. -/
theorem mem_trace {cases : List TestCase} {p : Progress} {j : CaseRun}
    (hj : j ∈ trace sol cases p) :
    j.case ∈ cases ∧ ∃ ok, judge sol j.case j.before = .returned (j.after, ok) := by
  induction cases generalizing p with
  | nil => cases hj
  | cons c cases ih =>
      obtain ⟨p', ok, hjudge, rfl | ⟨-, hrest⟩⟩ := mem_trace_cons hj
      · exact ⟨List.mem_cons_self, ok, hjudge⟩
      · obtain ⟨hmem, hcall⟩ := ih hrest
        exact ⟨List.mem_cons_of_mem _ hmem, hcall⟩

/-- A property that every returning call hands on, when the run goes on after
it, holds before every call of the trace. -/
theorem before_of_mem_trace {Inv : Progress → Prop} {cases : List TestCase}
    {p : Progress} (hp : Inv p)
    (hstep : ∀ c q q' ok, judge sol c q = .returned (q', ok) → Inv q →
      (ok = true ∨ sol.judgeType ≠ acm) → Inv q')
    {j : CaseRun} (hj : j ∈ trace sol cases p) : Inv j.before := by
  induction cases generalizing p with
  | nil => cases hj
  | cons c cases ih =>
      obtain ⟨p', ok, hjudge, rfl | ⟨hgo, hrest⟩⟩ := mem_trace_cons hj
      · exact hp
      · exact ih (hstep c p p' ok hjudge hp hgo) hrest

/-! ## The loop and its trace -/

theorem runCases_cons_of_returned {c : TestCase} {cases : List TestCase} {i f : ℕ}
    {p p' : Progress} {ok : Bool} (h : judge sol c p = .returned (p', ok)) :
    runCases sol (c :: cases) i f p =
      if ok ∨ sol.judgeType ≠ acm then
        runCases sol cases (i + 1) (noteFailure f i p'.result) p'
      else .returned (p', noteFailure f i p'.result) := by
  rw [runCases, h, Outcome.bind_returned]
  cases ok with
  | true => simp
  | false =>
      by_cases hacm : sol.judgeType = acm
      · simp [hacm]
      · simp [hacm]

/-- A loop that returned has judged its first case. -/
theorem runCases_cons_eq_returned {c : TestCase} {cases : List TestCase} {i f : ℕ}
    {p : Progress} {ended : Progress × ℕ}
    (h : runCases sol (c :: cases) i f p = .returned ended) :
    ∃ p' ok, judge sol c p = .returned (p', ok) := by
  rw [runCases, Outcome.bind_eq_returned_iff] at h
  obtain ⟨⟨p', ok⟩, hjudge, -⟩ := h
  exact ⟨p', ok, hjudge⟩

/-- What every returning call preserves is preserved by the loop. -/
theorem runCases_invariant {Inv : Progress → Prop}
    (hstep : ∀ {c q q' ok}, Inv q → judge sol c q = .returned (q', ok) → Inv q')
    {cases : List TestCase} {i f : ℕ} {p : Progress} {ended : Progress × ℕ} (hp : Inv p)
    (h : runCases sol cases i f p = .returned ended) : Inv ended.1 := by
  induction cases generalizing i f p with
  | nil =>
      cases h
      exact hp
  | cons c cases ih =>
      obtain ⟨p', ok, hjudge⟩ := runCases_cons_eq_returned h
      have hp' := hstep hp hjudge
      rw [runCases_cons_of_returned hjudge] at h
      split at h
      · exact ih hp' h
      · cases h
        exact hp'

/-- A run that leaves in one of its calls leaves there. -/
theorem runCases_of_mem_calls {cases : List TestCase} {i f : ℕ} {p : Progress} {call : Call}
    {reason : ExitReason} (hcall : call ∈ calls sol cases p)
    (hexited : judge call.sol call.case call.before = .exited reason) :
    runCases sol cases i f p = .exited reason := by
  induction cases generalizing i f p with
  | nil => cases hcall
  | cons c cases ih =>
      rw [calls] at hcall
      rcases List.mem_cons.mp hcall with rfl | hcall
      · rw [runCases, hexited, Outcome.bind_exited]
      · split at hcall
        · next p' ok hjudge =>
            split at hcall
            · next hgo =>
                rw [runCases_cons_of_returned hjudge, if_pos hgo]
                exact ih hcall
            · cases hcall
        · cases hcall

theorem runSolution_eq_returned {cases : List TestCase} {record : Record}
    (h : runSolution sol cases = .returned record) :
    ∃ ended, runCases sol cases 0 0 .start = .returned ended ∧
      record.result = ended.1.result ∧ record.timeUsage = toLong ended.1.timeUsage ∧
      record.memoryUsage = toLong ended.1.memoryUsage ∧ record.test = ended.2 := by
  rw [runSolution, Outcome.bind_eq_returned_iff] at h
  obtain ⟨ended, hloop, hrecord⟩ := h
  cases hrecord
  exact ⟨ended, hloop, by simp⟩

end PowerJudge
