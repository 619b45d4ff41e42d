import PowerJudge.Judged.RoundTrip
import PowerJudge.Judged.SendResult

/-!
# From the client to the report

A request passes through four programs' texts: the client prints it, the daemon scans it and
starts a judge with its strings, the judge reads them with `atoi` and prints a record, and the
daemon scans that record and posts it.  What is posted for a request that was read whole
carries the request's own identity, and the verdict on what was asked.
-/

namespace PowerJudge

/-! ## What the judge is asked -/

/-- A submission is the one that the client has sent. -/
structure Submission.AskedBy (submission : Submission) (config : Config) (args : Arguments)
    (sent : ClientFields) : Prop where
  sid : submission.sid = sent.sid
  cid : submission.cid = sent.cid
  lang : Lang.ofId sent.language = some submission.sol.lang
  timeLimit : (submission.sol.timeLimit : ℤ) = sent.timeLimit * timeFactor submission.sol.lang
  memoryLimit :
    (submission.sol.memoryLimit : ℤ) = sent.memoryLimit * memoryFactor submission.sol.lang
  judgeType : submission.sol.judgeType = acm
  work : ∃ root, args.realpath (PowerJudge.workDir config sent.request) = some root ∧
    submission.workDir = joinPath root (formatInt sent.sid)
  data : ∃ root, args.realpath config.dataDir = some root ∧
    submission.dataDir = joinPath root (formatInt sent.pid)

/-- The options that `run` does not pass keep their initial values. -/
theorem applyOptions_judgeOptions {config : Config} {request : Request} {args : Arguments}
    {o : Options} (h : applyOptions args (judgeOptions config request) .init = .returned o) :
    o.judgeType = acm ∧ args.realpath (workDir config request) = some o.workDirRoot ∧
      args.realpath config.dataDir = some o.dataDirRoot := by
  simp only [judgeOptions, applyOptions, applyOption, Outcome.bind_returned] at h
  cases hwork : args.realpath (workDir config request) with
  | none =>
      rw [hwork] at h
      cases h
  | some work =>
      rw [hwork] at h
      cases hdata : args.realpath config.dataDir with
      | none =>
          simp only [hdata] at h
          cases h
      | some data =>
          simp only [hdata] at h
          cases h
          exact ⟨rfl, rfl, rfl⟩

theorem checkArguments_eq_returned {o : Options} {lang : Lang}
    (h : checkArguments o = .returned lang) : Lang.ofId o.lang = some lang := by
  unfold checkArguments at h
  split_ifs at h
  split at h
  · next hlang =>
      cases h
      exact hlang
  · cases h

/-- The judge is asked what the client has sent. -/
theorem askedBy_of_parseArguments {config : Config} {sent : ClientFields} {args : Arguments}
    {submission : Submission} (hoptions : args.options = judgeOptions config sent.request)
    (h : parseArguments args = .returned submission) : submission.AskedBy config args sent := by
  rw [parseArguments, Outcome.bind_eq_returned_iff, hoptions] at h
  obtain ⟨o, happly, h⟩ := h
  obtain ⟨htype, hwork, hdata⟩ := applyOptions_judgeOptions happly
  have hreads : o.Reads sent := by
    rcases applyOptions_request config sent args with ⟨o', ho', hreads⟩ | ⟨hexited, -⟩
    · obtain rfl : o = o' := Outcome.returned.inj (happly.symm.trans ho')
      exact hreads
    · rw [hexited] at happly
      cases happly
  split at h
  · cases h
  · rw [Outcome.bind_eq_returned_iff] at h
    obtain ⟨lang, hcheck, h⟩ := h
    have hlang : Lang.ofId o.lang = some lang := checkArguments_eq_returned hcheck
    dsimp only at h
    split at h
    · cases h
    · cases h
      exact
        { sid := hreads.sid
          cid := hreads.cid
          lang := by rw [← hreads.lang, hlang]; rfl
          timeLimit := by rw [← hreads.timeLimit]; exact Int.natCast_mul _ _
          memoryLimit := by rw [← hreads.memoryLimit]; exact Int.natCast_mul _ _
          judgeType := htype
          work := ⟨_, hwork, by rw [hreads.sid]⟩
          data := ⟨_, hdata, by rw [hreads.pid]⟩ }

/-! ## What the judge reports -/

variable {env : JudgeEnv} {record : Record}

/-- The numbers of a record of the judge can be printed and scanned. -/
theorem areLong_of_runSolution {sol : OjSolution}
    (hrun : runSolution sol (foundCases env sol) = .returned record) :
    record.numbers.AreLong := by
  obtain ⟨ended, hloop, -, htime, hmemory, htest⟩ := runSolution_eq_returned hrun
  have htimeLe := (runCases_withinLimits withinLimits_start hloop).time_le
  have hlimit := sol.timeLimit_lt
  have hmemoryLt := runCases_memoryUsage_lt (by decide) hloop
  have htestLe := runCases_test_le (Nat.le_refl 0) hloop
  have hcount := numOfTest_lt env.dir sol.spj
  have hlength : (foundCases env sol).length = numOfTest env.dir sol.spj := by
    simp [foundCases]
  have hcode := record.result.code_lt
  rw [toLong_of_lt (by omega)] at htime
  rw [toLong_of_lt hmemoryLt] at hmemory
  unfold Record.numbers
  constructor <;> dsimp only <;> omega

/-- A record is that of the cases, or the one of a compiler that has failed. -/
theorem exitOf_reported_cases {e : Exit} (hexit : exitOf env = some e)
    (hreported : e.reported = some record) :
    (∃ sol, prepare env = .returned sol ∧
        runSolution sol (foundCases env sol) = .returned record) ∨
      ∃ armed, arm env = .returned armed ∧ connect env = .returned () ∧
        compile armed.1.sol.lang env.compiler = .exited e ∧ record = compileErrorRecord := by
  unfold exitOf at hexit
  split at hexit
  · next record' hmain =>
      cases hexit
      cases hreported
      rw [main, Outcome.bind_eq_returned_iff] at hmain
      obtain ⟨sol, hprepare, hrun⟩ := hmain
      exact Or.inl ⟨sol, hprepare, Outcome.mapExited_eq_returned_iff.mp hrun⟩
  · next e' hmain =>
      cases hexit
      rw [main, Outcome.bind_eq_exited_iff] at hmain
      rcases hmain with hprepare | ⟨sol, -, hrun⟩
      · rw [prepare, Outcome.bind_eq_exited_iff] at hprepare
        rcases hprepare with harm | ⟨armed, harm, hprepare⟩
        · obtain ⟨reason, -, rfl⟩ := Outcome.mapExited_eq_exited_iff.mp harm
          cases hreported
        · rw [Outcome.bind_eq_exited_iff] at hprepare
          rcases hprepare with hconnect | ⟨⟨⟩, hconnect, hprepare⟩
          · obtain ⟨reason, -, rfl⟩ := Outcome.mapExited_eq_exited_iff.mp hconnect
            cases hreported
          · rw [Outcome.mapExited_eq_returned_iff] at harm hconnect
            rw [Outcome.bind_eq_exited_iff] at hprepare
            rcases hprepare with hcompile | ⟨-, -, hfind⟩
            · rcases compile_reported hcompile with hnone | hsome
              · cases hnone.symm.trans hreported
              · exact Or.inr ⟨armed, harm, hconnect, hcompile,
                  Option.some.inj (hreported.symm.trans hsome)⟩
            · obtain ⟨reason, -, rfl⟩ := Outcome.mapExited_eq_exited_iff.mp hfind
              cases hreported
      · obtain ⟨reason, -, rfl⟩ := Outcome.mapExited_eq_exited_iff.mp hrun
        cases hreported
  · cases hexit
  · cases hexit

theorem areLong_of_exitOf {e : Exit} (hexit : exitOf env = some e)
    (hreported : e.reported = some record) : record.numbers.AreLong := by
  rcases exitOf_reported_cases hexit hreported with ⟨sol, -, hrun⟩ | ⟨-, -, -, -, rfl⟩
  · exact areLong_of_runSolution hrun
  · constructor <;> decide

/-- A record is only reported once the command line has been parsed. -/
theorem parseArguments_of_reported {e : Exit} (hexit : exitOf env = some e)
    (hreported : e.reported = some record) :
    ∃ submission, parseArguments env.args = .returned submission := by
  rcases exitOf_reported_cases hexit hreported with ⟨sol, hprepare, -⟩ | ⟨armed, harm, -, -, -⟩
  · obtain ⟨armed, harm, -⟩ := prepare_eq_returned hprepare
    exact ⟨armed.1, (arm_eq_returned harm).1⟩
  · exact ⟨armed.1, (arm_eq_returned harm).1⟩

/-- A success that is pushed is that of a judge which has run to its end. -/
theorem finished_of_pushes_ok {s : Supervision env}
    (hwaited : ¬(s.forks = true ∧ s.waited = none))
    (huncopied : s.fate ≠ .copyEnded (.ofExit ExitReason.ok.code))
    (hpushed : runPushes s.forks s.waited = ExitReason.ok.code) :
    s.forks = true ∧ s.fate = .finished ∧ ∃ e, exitOf env = some e ∧ ¬e.reason.IsFailure := by
  by_cases hforks : s.forks = true
  · have hwait := s.consistent hforks
    rw [runPushes, hforks] at hpushed
    simp only [Bool.not_true, Bool.false_eq_true, if_false] at hpushed
    generalize hstatus : s.fate.status env = status at hwait
    generalize hanswer : s.waited = waited at hwait hpushed
    cases hwait with
    | failed => exact (hwaited ⟨hforks, hanswer⟩).elim
    | stopped h0 h => exact (pushedCode_ofStop h0 h hpushed).elim
    | ended status =>
        cases hfate : s.fate with
        | running reported =>
            rw [hfate] at hstatus
            cases hstatus
        | interrupted reported how =>
            rw [hfate] at hstatus
            obtain rfl : how.status = status := Option.some.inj hstatus
            exact (pushedCode_interruption how hpushed).elim
        | copyEnded status' =>
            have hpossible := s.possible hforks
            rw [hfate] at hstatus hpossible huncopied
            obtain rfl : status' = status := Option.some.inj hstatus
            rw [(pushedCode_of_copyEnds hpossible.2).mp hpushed] at huncopied
            exact (huncopied rfl).elim
        | finished =>
            rw [hfate] at hstatus
            obtain ⟨e, hexit, rfl⟩ := Option.map_eq_some_iff.mp hstatus
            exact ⟨hforks, rfl, e, hexit, (pushedCode_ofExit_reason e.reason).mp hpushed⟩
  · simp [runPushes, hforks, ExitReason.code] at hpushed

/-! ## What is posted -/

variable {send : SendEnv} {solution : FinishedSolution}

/-- The form names the solution. -/
structure PostedForm.Names (form : PostedForm) (solution : FinishedSolution) : Prop where
  sid : form.sid = solution.sid
  cid : form.cid = solution.cid
  token : form.token = solution.token

/-- Whatever the number of attempts, the form is about the solution that is sent. -/
theorem names_of_sendMultiResult {fuel attempt : ℕ} {filePath : Option Bytes}
    {form : PostedForm} (h : sendMultiResult send fuel attempt filePath solution = some form) :
    form.Names solution := by
  induction fuel using Nat.twoStepInduction generalizing attempt filePath solution with
  | zero =>
      rw [sendMultiResult] at h
      cases h
  | one =>
      rw [sendMultiResult] at h
      split at h
      · cases h
        exact ⟨rfl, rfl, rfl⟩
      · rw [updateSystemError] at h
        cases h
  | more fuel ih _ =>
      rw [sendMultiResult] at h
      split at h
      · cases h
        exact ⟨rfl, rfl, rfl⟩
      · rw [updateSystemError] at h
        obtain ⟨hsid, hcid, htoken⟩ := ih h
        exact ⟨hsid, hcid, htoken⟩

/-- A system error is posted for the solution, as one. -/
theorem posted_of_updateSystemError {fuel attempt result : ℕ} {form : PostedForm}
    (h : updateSystemError send fuel attempt result solution = some form) :
    form.Names solution ∧ form.numbers.result = OjResult.se.code := by
  cases fuel with
  | zero =>
      rw [updateSystemError] at h
      cases h
  | succ fuel =>
      rw [updateSystemError] at h
      obtain ⟨hsid, hcid, htoken⟩ := names_of_sendMultiResult h
      refine ⟨⟨hsid, hcid, htoken⟩, ?_⟩
      rw [numbers_of_sendMultiResult h]
      split <;> rfl

/-- The solution of a request on its way back. -/
def Request.finished (r : Request) (config : Config) (numbers : RecordNumbers) :
    FinishedSolution where
  sid := r.sid
  cid := r.cid
  token := r.token
  workDir := workDir config r
  numbers := numbers

/-- What happens to a request from the call of `run` to the report: a judge with its own
surroundings, its end as `waitpid` tells it, the files as `update_result` finds them, and
curl. -/
structure Service (config : Config) (r : Request) where
  env : JudgeEnv
  supervision : Supervision env
  files : Bytes → Option Bytes
  send : SendEnv
  /-- The numbers that the solution has when it is popped. -/
  numbers : RecordNumbers
  options : env.args.options = judgeOptions config r
  resolves : env.args.realpath (workDir config r) = some (workDir config r)
  /-- `waitpid` does not fail, no copy of the daemon ends with 0, and the compiler is
  neither lost nor stopped. -/
  waited : ¬(supervision.forks = true ∧ supervision.waited = none)
  uncopied : supervision.fate ≠ .copyEnded (.ofExit ExitReason.ok.code)
  compiled : ¬CompilesSilently env
  /-- The record of the judge is not written over before it is read. -/
  leaves : ∀ e submission record, exitOf env = some e →
    parseArguments env.args = .returned submission → e.reported = some record →
    files (resultTxt submission.workDir) = some (recordText record.numbers)
  opens : send.resultTxt = files ((r.finished config numbers).path (ascii "result.txt"))
  /-- The path fits its buffer. -/
  short : (readPath config r).length < buffSize

/-- The number that `run` pushes. -/
def Service.pushed {config : Config} {r : Request} (s : Service config r) : ℕ :=
  runPushes s.supervision.forks s.supervision.waited

/-- What `SendWork` posts. -/
def Service.posts {config : Config} {r : Request} (s : Service config r) (fuel : ℕ) :
    Option PostedForm :=
  (r.finished config s.numbers).sendWork s.send fuel s.pushed

theorem path_eq_readPath {config : Config} {r : Request} (numbers : RecordNumbers)
    (hshort : (readPath config r).length < buffSize) :
    (r.finished config numbers).path (ascii "result.txt") = readPath config r :=
  List.take_of_length_le (Nat.le_sub_one_of_lt hshort)

/-- The judge and the daemon mean the same file. -/
theorem Service.resultTxt_eq {config : Config} {sent : ClientFields}
    (s : Service config sent.request) (hok : s.pushed = ExitReason.ok.code) :
    ∃ e record, exitOf s.env = some e ∧ e.reported = some record ∧
      s.send.resultTxt = some (recordText record.numbers) := by
  obtain ⟨-, -, e, hexit, hsuccess⟩ := finished_of_pushes_ok s.waited s.uncopied hok
  have hreported : e.reported ≠ none := fun hnone =>
    s.compiled ((exitOf_silent_iff hexit).mp ⟨hsuccess, hnone⟩)
  obtain ⟨record, hrecord⟩ := Option.ne_none_iff_exists'.mp hreported
  obtain ⟨submission, hparse⟩ := parseArguments_of_reported hexit hrecord
  obtain ⟨root, hroot, hwork⟩ := (askedBy_of_parseArguments s.options hparse).work
  have hroot' : root = workDir config sent.request :=
    Option.some.inj (hroot.symm.trans s.resolves)
  have hleft := s.leaves e submission record hexit hparse hrecord
  rw [hwork, hroot'] at hleft
  refine ⟨e, record, hexit, hrecord, ?_⟩
  rw [s.opens, path_eq_readPath s.numbers s.short]
  exact hleft

/-- The answer to a request: the form names what the client has named, and has the numbers
of the record that the judge has reported, or `OJ_SE`. -/
structure Service.Answers {config : Config} {r : Request} (s : Service config r)
    (sent : ClientFields) (form : PostedForm) : Prop where
  sid : form.sid = formatInt sent.sid
  cid : form.cid = sent.cid
  token : form.token = sent.token
  verdict : s.pushed = ExitReason.ok.code → (s.send.curl 0).ok = true →
    ∃ e record, exitOf s.env = some e ∧ e.reported = some record ∧
      form.numbers = record.numbers.scanned
  systemError : ¬(s.pushed = ExitReason.ok.code ∧ (s.send.curl 0).ok = true) →
    form.numbers.result = OjResult.se.code

theorem Service.answers_of_posts {config : Config} {sent : ClientFields}
    (s : Service config sent.request) {fuel : ℕ} {form : PostedForm}
    (h : s.posts fuel = some form) : s.Answers sent form := by
  by_cases hok : s.pushed = ExitReason.ok.code
  · obtain ⟨e, record, hexit, hrecord, htext⟩ := s.resultTxt_eq hok
    have hscan := scanRecord_recordText (areLong_of_exitOf hexit hrecord)
    obtain ⟨filePath, hsend⟩ :=
      @sendWork_of_scanRecord s.send (sent.request.finished config s.numbers) _ _ htext hscan
    obtain ⟨-, hstored⟩ :=
      (@scanRecord_eq_some_iff (sent.request.finished config s.numbers) _ _).mp hscan
    rw [Service.posts, hok, hsend] at h
    obtain ⟨hsid, hcid, htoken⟩ := names_of_sendMultiResult h
    have hnumbers := numbers_of_sendMultiResult h
    refine ⟨hsid, hcid, htoken, ?_, ?_⟩
    · intro _ hcurl
      rw [if_pos hcurl] at hnumbers
      exact ⟨e, record, hexit, hrecord, hnumbers.trans hstored⟩
    · intro hnot
      rw [if_neg fun hcurl => hnot ⟨hok, hcurl⟩] at hnumbers
      rw [hnumbers]
      rfl
  · rw [Service.posts, FinishedSolution.sendWork, if_neg hok] at h
    obtain ⟨⟨hsid, hcid, htoken⟩, hse⟩ := posted_of_updateSystemError h
    exact ⟨hsid, hcid, htoken, fun hpushed => (hok hpushed).elim, fun _ => hse⟩

/-- The numbers of the client's request. -/
def clientFields : ClientFields where
  sid := 110522
  cid := 0
  pid := 2549
  language := 2
  timeLimit := 5000
  memoryLimit := 65536
  token := ascii "123456"
  sid_int := ⟨by decide, by decide⟩
  cid_int := ⟨by decide, by decide⟩
  pid_int := ⟨by decide, by decide⟩
  language_range := by decide
  timeLimit_int := ⟨by decide, by decide⟩
  timeLimit_nonneg := by decide
  memoryLimit_int := ⟨by decide, by decide⟩
  memoryLimit_nonneg := by decide
  token_length := by decide
  token_word := fun b hb =>
    ⟨wellFormed_clientRequest.tokenWord.2 b hb, wellFormed_clientRequest.token.1 b hb⟩

def clientConfig : Config := ⟨ascii "/work", ascii "/data", 1⟩

/-- The judge accepts the client's solution. -/
def clientEnv : JudgeEnv :=
  acceptingEnv { cpp11Arguments with options := judgeOptions clientConfig clientFields.request }
    .oneCase

theorem exitOf_clientEnv : exitOf clientEnv = some ⟨.ok, some ⟨.ac, 0, 0, 0⟩⟩ := by
  decide +kernel

def clientService : Service clientConfig clientFields.request where
  env := clientEnv
  supervision :=
    { forks := true
      execs := true
      fate := .finished
      waited := some (.ofExit 0)
      possible := fun _ => ⟨rfl, by rw [exitOf_clientEnv]; simp⟩
      consistent := fun _ => by
        rw [Fate.status, exitOf_clientEnv]
        exact .ended _ }
  files := fun _ => some (ascii "0 0 0 0")
  send := ⟨some (ascii "0 0 0 0"), fun _ => false, fun _ => ⟨true, true⟩⟩
  numbers := ⟨0, 0, 0, 0⟩
  options := rfl
  resolves := rfl
  waited := by simp
  uncopied := nofun
  compiled := by
    rw [← exitOf_silent_iff exitOf_clientEnv]
    simp
  leaves := by
    intro e submission record hexit _ hreported
    rw [exitOf_clientEnv] at hexit
    cases hexit
    cases hreported
    decide
  opens := rfl
  short := by decide

end PowerJudge
