import PowerJudge.Judge.Accepted
import PowerJudge.Judge.Comparison
import PowerJudge.Judged.CompileErrors

/-!
# What is posted as accepted

A form with `OJ_AC` is the end of a chain: the judge has run to its end, has got past its
compiler, has judged every case that it found, and every case has ended right.  Along the
chain nothing else is posted as `OJ_AC`, and nothing that is right is posted otherwise.
-/

namespace PowerJudge

/-! ## A case that ends right -/

/-- The special judge quits with `SPJ_AC`, or the two files agree but for carriage returns
and for blanks at the end of one of them. -/
def OutputRight (sol : OjSolution) (c : TestCase) : Prop :=
  if sol.spj then
    ∃ status, c.spjRun = .ended status ∧ status.ifExited ∧ status.exitStatus = 0
  else
    ∃ std exe, c.fileOut = some std ∧ c.fileUser = some exe ∧
      Agree (withoutCr std) (withoutCr exe)

/-- The case ends within the limits, by a normal quit with a right output or by a
`SIGCHLD`. -/
inductive CaseRun.EndsRight (sol : OjSolution) (j : CaseRun) : Prop where
  | quits {passed : List Report} {last : Report} (hends : j.EndedBy sol passed last)
      (hexited : last.status.ifExited) (hquit : NormalQuit sol last.status)
      (houtput : OutputRight sol j.case)
      (hmemory : ∀ r ∈ passed ++ [last], r.rusage.maxrss ≤ sol.memoryLimit)
      (htime : last.rusage.utimeMs ≤ sol.timeLimit)
  | sigchld {passed : List Report} {last : Report} (hends : j.EndedBy sol passed last)
      (hchld : SigchldWithinLimits sol last)

variable {sol : OjSolution}

theorem spjVerdict_eq_ac_iff {code : ℕ} : spjVerdict code = .ac ↔ code = 0 := by
  unfold spjVerdict
  split <;> simp_all

theorem compareCase_eq_ac_iff {c : TestCase} :
    compareCase sol c = .returned .ac ↔ OutputRight sol c := by
  unfold compareCase OutputRight
  by_cases hspj : sol.spj = true
  · rw [if_pos hspj, if_pos hspj]
    cases c.spjRun with
    | forkFailed => simp [ojCompareOutputSpj]
    | waitFailed => simp [ojCompareOutputSpj]
    | ended status =>
        by_cases hexited : status.ifExited
        · simp [ojCompareOutputSpj, hexited, spjVerdict_eq_ac_iff]
        · simp [ojCompareOutputSpj, hexited]
  · rw [if_neg hspj, if_neg hspj]
    cases c.fileOut with
    | none => simp [ojCompareOutput]
    | some std =>
        cases c.fileUser with
        | none => simp [ojCompareOutput]
        | some exe =>
            rw [ojCompareOutput_eq]
            simp [expectedStatus_ac_eq_ac_iff]

/-- From `OJ_AC` an equal comparison leaves `OJ_AC` behind, with the memory so far. -/
theorem Leaves.of_compared {c : TestCase} {r : Report} {p q : Progress}
    (h : Leaves sol c r p q) (hexited : r.status.ifExited) (hquit : NormalQuit sol r.status)
    (hcompare : compareCase sol c = .returned .ac) (hp : p.result = .ac) : q = p := by
  cases h with
  | compared _ _ hresult =>
      obtain rfl : _ = OjResult.ac := Outcome.returned.inj (hresult.symm.trans hcompare)
      rw [hp, mergeResult_ac, ← hp]
  | abnormal _ hnot => exact (hnot hquit).elim
  | signal hsignal =>
      rw [fatalSignal_eq_none_of_ifExited hexited] at hsignal
      cases hsignal
  | memory hnot => exact (hnot hexited).elim
  | syscall hnot => exact (hnot hexited).elim

theorem CaseRun.EndsRight.accepted {j : CaseRun} (hclean : Clean sol j.before)
    (h : j.EndsRight sol) : j.after.result = .ac := by
  cases h with
  | sigchld hends hchld => exact (accepts_of_sigchld hclean hends hchld).1
  | quits hends hexited hquit houtput hmemory htime =>
      rename_i passed last
      obtain ⟨q, hends, hafter⟩ := hends
      obtain ⟨mid, hpasses, hleaves⟩ := hends.leaves
      have hmid : mid.result = .ac := hpasses.result.trans hclean.result
      obtain rfl := hleaves.of_compared hexited hquit (compareCase_eq_ac_iff.mpr houtput) hmid
      have hmidMemory := hpasses.memory_le (by simpa [startCase] using hclean.memory_le)
      have hmidTime : q.timeUsage = j.before.timeUsage := hpasses.timeUsage
      have hlast : last.rusage.maxrss ≤ sol.memoryLimit := hmemory last (by simp)
      have hbeforeTime := hclean.time_le
      rw [hafter, settle_result_eq_ac_iff]
      exact ⟨hmid, max_le hmidMemory hlast, max_le (by omega) htime⟩

/-- A case of an ACM run is accepted exactly if it ends right. -/
theorem endsRight_iff (hacm : sol.judgeType = acm) {cases : List TestCase} {j : CaseRun}
    (hj : j ∈ trace sol cases .start) : j.EndsRight sol ↔ j.after.result = .ac := by
  have hclean := clean_before_of_mem_trace hacm hj
  constructor
  · exact fun h => h.accepted hclean
  · intro hac
    obtain ⟨passed, last, hends⟩ := exists_endedBy_of_mem_trace hj
    rcases soundAccept_or_sigchld hclean hends hac with hsound | hchld
    · exact .quits hends hsound.exited hsound.quit (compareCase_eq_ac_iff.mp hsound.compared)
        hsound.memory_le hsound.cpuTime_le
    · exact .sigchld hends hchld

/-! ## A run that is accepted -/

/-- Every case that was found has been judged and has ended right. -/
def AllRight (sol : OjSolution) (cases : List TestCase) : Prop :=
  (trace sol cases .start).length = cases.length ∧
    ∀ j ∈ trace sol cases .start, j.EndsRight sol

theorem runCases_of_accepted {cases : List TestCase} {i : ℕ} {p : Progress}
    (hp : p.result = .ac) (hlength : (trace sol cases p).length = cases.length)
    (hall : ∀ j ∈ trace sol cases p, j.after.result = .ac) :
    ∃ q, runCases sol cases i 0 p = .returned (q, 0) ∧ q.result = .ac := by
  induction cases generalizing i p with
  | nil => exact ⟨p, rfl, hp⟩
  | cons c cases ih =>
      by_cases hreturned : ∃ judged, judge sol c p = .returned judged
      · obtain ⟨⟨p', ok⟩, hjudge⟩ := hreturned
        rw [trace_cons_of_returned hjudge] at hlength hall
        have hp' : p'.result = .ac := hall _ List.mem_cons_self
        have hgo : ok = true ∨ sol.judgeType ≠ acm := Or.inl ((judge_flag hjudge).mpr hp')
        rw [if_pos hgo] at hlength hall
        have hnote : noteFailure 0 i p'.result = 0 := by simp [noteFailure, hp']
        rw [runCases_cons_of_returned hjudge, if_pos hgo, hnote]
        exact ih hp' (Nat.succ.inj hlength) fun j hj => hall j (List.mem_cons_of_mem _ hj)
      · push Not at hreturned
        rw [trace_cons_of_not_returned hreturned] at hlength
        cases hlength

/-- A run ends in `OJ_AC` exactly if all its cases are right. -/
theorem runSolution_accepts_iff (hacm : sol.judgeType = acm) {cases : List TestCase} :
    (∃ record, runSolution sol cases = .returned record ∧ record.result = .ac) ↔
      AllRight sol cases := by
  constructor
  · rintro ⟨record, hrun, hac⟩
    obtain ⟨⟨q, t⟩, hloop, hresult, -, -, -⟩ := runSolution_eq_returned hrun
    rcases runCases_acm hacm rfl hloop with
      ⟨-, -, hlength, hall⟩ | ⟨passed, j, -, -, hj, hq, -⟩
    · exact ⟨hlength, fun j hj => (endsRight_iff hacm hj).mpr (hall j hj)⟩
    · have hqac : q.result = .ac := hresult.symm.trans hac
      rw [hq] at hqac
      exact (hj hqac).elim
  · rintro ⟨hlength, hall⟩
    obtain ⟨q, hloop, hq⟩ := @runCases_of_accepted sol cases 0 _ rfl hlength
      fun j hj => (endsRight_iff hacm hj).mp (hall j hj)
    refine ⟨⟨q.result, toLong q.timeUsage, toLong q.memoryUsage, 0⟩, ?_, hq⟩
    rw [runSolution, hloop, Outcome.bind_returned]

/-! ## The report -/

variable {env : JudgeEnv}

/-- The judge gets to its cases, and they are all right. -/
def Accepts (env : JudgeEnv) : Prop :=
  ∃ sol, prepare env = .returned sol ∧ AllRight sol (foundCases env sol)

theorem accepts_of_reported (hacm : ∀ sol, prepare env = .returned sol → sol.judgeType = acm)
    {e : Exit} {record : Record} (hexit : exitOf env = some e)
    (hreported : e.reported = some record) (hac : record.result = .ac) : Accepts env := by
  rcases exitOf_reported_cases hexit hreported with ⟨sol, hprepare, hrun⟩ | ⟨-, -, -, -, rfl⟩
  · exact ⟨sol, hprepare, (runSolution_accepts_iff (hacm sol hprepare)).mp ⟨record, hrun, hac⟩⟩
  · cases hac

theorem exitOf_of_accepts (hacm : ∀ sol, prepare env = .returned sol → sol.judgeType = acm)
    (h : Accepts env) :
    ∃ record, exitOf env = some ⟨.ok, some record⟩ ∧ record.result = .ac := by
  obtain ⟨sol, hprepare, hright⟩ := h
  obtain ⟨record, hrun, hac⟩ := (runSolution_accepts_iff (hacm sol hprepare)).mpr hright
  have hmain : main env = .returned record := by
    rw [main, hprepare, Outcome.bind_returned, Outcome.mapExited_eq_returned_iff]
    exact hrun
  refine ⟨record, ?_, hac⟩
  rw [exitOf, hmain]

/-- The cases are judged in the language and within the limits of the request. -/
structure OjSolution.Serves (sol : OjSolution) (sent : ClientFields) : Prop where
  lang : Lang.ofId sent.language = some sol.lang
  timeLimit : (sol.timeLimit : ℤ) = sent.timeLimit * timeFactor sol.lang
  memoryLimit : (sol.memoryLimit : ℤ) = sent.memoryLimit * memoryFactor sol.lang
  judgeType : sol.judgeType = acm

theorem Service.serves {config : Config} {sent : ClientFields}
    (s : Service config sent.request) {sol : OjSolution} (h : prepare s.env = .returned sol) :
    sol.Serves sent := by
  obtain ⟨armed, harm, -, rfl⟩ := prepare_eq_returned h
  have hasked := askedBy_of_parseArguments s.options (arm_eq_returned harm).1
  exact ⟨hasked.lang, hasked.timeLimit, hasked.memoryLimit, hasked.judgeType⟩

/-- The form that is posted for a request says `OJ_AC` exactly if curl is initialised at
once, the judge has been forked and has run to its end, it has got to its cases in the
language and with the limits that the client has sent, and every case that it found has
been judged and has ended right. -/
theorem accepted_posted_iff {config : Config} {sent : ClientFields}
    (s : Service config sent.request) {fuel : ℕ} {form : PostedForm}
    (h : s.posts fuel = some form) :
    form.numbers.result = OjResult.ac.code ↔
      (s.send.curl 0).ok = true ∧ s.supervision.forks = true ∧ s.supervision.fate = .finished ∧
        ∃ sol, prepare s.env = .returned sol ∧ sol.Serves sent ∧
          AllRight sol (foundCases s.env sol) := by
  have hanswers := s.answers_of_posts h
  have hacm : ∀ sol, prepare s.env = .returned sol → sol.judgeType = acm :=
    fun sol hprepare => (s.serves hprepare).judgeType
  constructor
  · intro hac
    have hposted : s.pushed = ExitReason.ok.code ∧ (s.send.curl 0).ok = true := by
      by_contra hnot
      rw [hanswers.systemError hnot] at hac
      cases hac
    obtain ⟨hok, hcurl⟩ := hposted
    obtain ⟨hforks, hfinished, -⟩ := finished_of_pushes_ok s.waited s.uncopied hok
    obtain ⟨e, record, hexit, hreported, hnumbers⟩ := hanswers.verdict hok hcurl
    rw [hnumbers] at hac
    obtain ⟨sol, hprepare, hright⟩ :=
      accepts_of_reported hacm hexit hreported (scanned_result_eq_iff.mp hac)
    exact ⟨hcurl, hforks, hfinished, sol, hprepare, s.serves hprepare, hright⟩
  · rintro ⟨hcurl, hforks, hfinished, sol, hprepare, -, hright⟩
    obtain ⟨record, hexit, hac⟩ := exitOf_of_accepts hacm ⟨sol, hprepare, hright⟩
    have hok : s.pushed = ExitReason.ok.code :=
      runPushes_of_finished hforks hfinished hexit fun hfails => hfails.1 rfl
    obtain ⟨e, record', hexit', hreported, hnumbers⟩ := hanswers.verdict hok hcurl
    obtain rfl := Option.some.inj (hexit.symm.trans hexit')
    obtain rfl := Option.some.inj hreported
    rw [hnumbers]
    exact scanned_result_eq_iff.mpr hac

/-- The client's solution is accepted because its one case is right. -/
theorem accepted_posted_iff_client :
    ∃ sol, prepare clientEnv = .returned sol ∧ sol.Serves clientFields ∧
      AllRight sol (foundCases clientEnv sol) := by
  have hposts : ∃ form, clientService.posts 1 = some form ∧
      form.numbers.result = OjResult.ac.code := by
    refine ⟨_, rfl, ?_⟩
    decide
  obtain ⟨form, hform, hac⟩ := hposts
  exact ((accepted_posted_iff clientService hform).mp hac).2.2.2

end PowerJudge
