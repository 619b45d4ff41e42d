import PowerJudge.Judge.CaseFiles

/-!
# The executors' stderr

All cases append to one file, `stderr_executive.txt`, and so do the runs that are made
in the same directory later on.  The judge looks into it only when a program in Java or
Python gives a wrong answer.  The run over this file is compared with the run in which
every case has its stderr for itself.  The programs are those that write to the file through
their stderr, which is opened for appending: one that opens the file by its name could empty it.
-/

namespace PowerJudge

/-! ## The run over the file -/

/-- A case with its fields about stderr left open. -/
structure ErrorCase where
  case : TestCase
  /-- What the executor appends through its stderr, `none` when `freopen` fails. -/
  stderr : Option Bytes
  /-- Whether the judge can open the file for the name of a signal. -/
  noteOpens : Bool

/-- The file when a text is appended; `none` is a file that is missing. -/
def appendErrors (file text : Option Bytes) : Option Bytes :=
  match text with
  | none => file
  | some text => some (file.getD [] ++ text)

@[simp] theorem getD_appendErrors (file text : Option Bytes) :
    (appendErrors file text).getD [] = file.getD [] ++ text.getD [] := by
  cases text with
  | none => simp [appendErrors]
  | some text => simp [appendErrors]

section Run

/-! `grep` is what `/bin/grep -q` makes of a pattern and a file. -/

variable (grep : String → Option Bytes → ℤ) (strsignal : ℕ → Bytes) (sol : OjSolution)

/-- The case with the file as `file_size` and `grep` find it. -/
def ErrorCase.reading (e : ErrorCase) (file : Option Bytes) : TestCase :=
  { e.case with
    stderrSize := (file.getD []).length
    grepStderr := fun pattern => grep pattern file }

/-- The case with its stderr for itself. -/
def ErrorCase.alone (e : ErrorCase) : TestCase := e.reading grep (appendErrors none e.stderr)

/-- The line that the judge adds for a fatal signal. -/
def signalNote (c : TestCase) (p : Progress) : Option Bytes :=
  match c.forks, waitLoop sol c c.reports (startCase sol p) with
  | true, .returned (_, last) =>
      match fatalSignal last.status with
      | some signo =>
          if signalResult signo = .re then some (strsignal signo ++ [newline]) else none
      | none => none
  | _, _ => none

/-- The file after a case that has been judged. -/
def errorsAfter (e : ErrorCase) (file : Option Bytes) (p : Progress) : Option Bytes :=
  let written := appendErrors file e.stderr
  if e.noteOpens then
    appendErrors written (signalNote strsignal sol (e.reading grep written) p)
  else written

/-- The loop of `run_solution`: the cases that are judged, as the judge reads them, and
the file that it leaves. -/
def runOnErrors : List ErrorCase → Option Bytes → Progress → List TestCase × Option Bytes
  | [], file, _ => ([], file)
  | e :: rest, file, p =>
      let c := e.reading grep (appendErrors file e.stderr)
      let after := errorsAfter grep strsignal sol e file p
      match goesOn sol c p with
      | some p' =>
          let ended := runOnErrors rest after p'
          (c :: ended.1, ended.2)
      | none => ([c], after)

end Run

/-- What the file holds after some accepted cases. -/
def inherited (file : Option Bytes) (entries : List ErrorCase) : Option Bytes :=
  entries.foldl (fun file e => appendErrors file e.stderr) file

/-- The class of a wrong answer. -/
def wrongClass (sol : OjSolution) (c : TestCase) : OjResult :=
  (classify sol c { Progress.start with result := .wa }).result

/-- The case passes the comparison and the limits with a wrong answer, which is still to
be classified. -/
def EndsWrong (sol : OjSolution) (c : TestCase) (p : Progress) : Prop :=
  c.forks = true ∧ ∃ q last, waitLoop sol c c.reports (startCase sol p) = .returned (q, last) ∧
    (checkLimits sol last q).result = .wa

/-- Case number `k` ends so, after accepted ones. -/
inductive WrongAt (sol : OjSolution) : List TestCase → Progress → ℕ → Prop where
  | here {c : TestCase} {cases : List TestCase} {p : Progress} (h : EndsWrong sol c p) :
      WrongAt sol (c :: cases) p 0
  | later {c : TestCase} {cases : List TestCase} {p p' : Progress} {k : ℕ}
      (h : judge sol c p = .returned (p', true)) (hrest : WrongAt sol cases p' k) :
      WrongAt sol (c :: cases) p (k + 1)

variable {grep : String → Option Bytes → ℤ} {strsignal : ℕ → Bytes} {sol : OjSolution}

/-! ## The class of a wrong answer -/

/-- A wrong answer is given its class, and Java's exhausted heap its usage. -/
theorem classify_eq_wrongClass (c : TestCase) {p : Progress} (hp : p.result = .wa) :
    classify sol c p = { p with
      result := wrongClass sol c
      memoryUsage := if wrongClass sol c = .mle then sol.memoryLimit * stdKb % 2 ^ 64
        else p.memoryUsage } := by
  obtain ⟨result, timeUsage, memoryUsage, monitor⟩ := p
  obtain rfl : result = .wa := hp
  have hstart : ({ Progress.start with result := .wa } : Progress).result = .wa := rfl
  have hwa : OjResult.wa ≠ .tle := by decide
  unfold wrongClass classify
  rw [hstart, if_neg hwa, if_neg hwa, if_pos rfl, if_pos rfl]
  by_cases hjava : sol.lang = .java
  · rw [if_pos hjava, if_pos hjava]
    unfold fixJavaResult
    split_ifs <;> simp_all
  · rw [if_neg hjava, if_neg hjava]
    split_ifs <;> simp_all

/-- Python's class comes from the size of the file, and no other language but Java has
one. -/
theorem wrongClass_of_ne_java (hjava : sol.lang ≠ .java) (c : TestCase) :
    wrongClass sol c = if sol.lang.isPython ∧ c.stderrSize ≠ 0 then .re else .wa := by
  have hwa : ({ Progress.start with result := .wa } : Progress).result = .wa := rfl
  unfold wrongClass classify
  rw [hwa, if_neg (by decide), if_pos rfl, if_neg hjava]
  split_ifs <;> rfl

/-- What a case of a language other than Java inherits changes its class exactly if it is
Python's and the case writes nothing to stderr itself. -/
theorem wrongClass_inherited_iff (hjava : sol.lang ≠ .java) (e : ErrorCase)
    (file : Option Bytes) :
    wrongClass sol (e.reading grep (appendErrors file e.stderr)) ≠
        wrongClass sol (e.alone grep) ↔
      sol.lang.isPython ∧ e.stderr.getD [] = [] ∧ file.getD [] ≠ [] := by
  rw [wrongClass_of_ne_java hjava, wrongClass_of_ne_java hjava]
  simp only [ErrorCase.reading, ErrorCase.alone, getD_appendErrors, Option.getD_none,
    List.nil_append, List.length_append, ne_eq, ← List.length_eq_zero_iff]
  by_cases hpython : sol.lang.isPython = true
  · by_cases hown : (e.stderr.getD []).length = 0
    · by_cases hfile : (file.getD []).length = 0
      · simp [hpython, hown, hfile]
      · simp [hpython, hown, hfile]
    · simp [hpython, hown]
  · simp [hpython]

/-! ## One case -/

/-- The wait loop does not look into stderr. -/
theorem waitLoop_reading (e : ErrorCase) (file : Option Bytes)
    (reports : List (Option Report)) (p : Progress) :
    waitLoop sol (e.reading grep file) reports p = waitLoop sol e.case reports p := by
  induction reports generalizing p with
  | nil => rfl
  | cons report rest ih =>
      cases report with
      | none => rfl
      | some r =>
          have hstep : onReport sol (e.reading grep file) r p = onReport sol e.case r p := rfl
          rw [waitLoop, waitLoop, hstep]
          congr 1
          funext step
          cases step with
          | leave p' => rfl
          | again p' => exact ih p'

theorem endsWrong_reading (e : ErrorCase) (file : Option Bytes) (p : Progress) :
    EndsWrong sol (e.reading grep file) p ↔ EndsWrong sol e.case p := by
  unfold EndsWrong
  rw [waitLoop_reading]
  exact Iff.rfl

/-- A case that ends otherwise is judged without its stderr. -/
theorem judge_reading {e : ErrorCase} {p : Progress} (h : ¬EndsWrong sol e.case p)
    (file : Option Bytes) : judge sol (e.reading grep file) p = judge sol e.case p := by
  have hforks : (e.reading grep file).forks = e.case.forks := rfl
  have hreports : (e.reading grep file).reports = e.case.reports := rfl
  unfold judge
  rw [hforks, hreports, waitLoop_reading]
  by_cases hfork : e.case.forks = true
  · rw [if_pos hfork, if_pos hfork]
    cases hloop : waitLoop sol e.case e.case.reports (startCase sol p) with
    | blocked => rfl
    | crashed => rfl
    | exited reason => rfl
    | returned ended =>
        have hwa : (checkLimits sol ended.2 ended.1).result ≠ .wa :=
          fun hwa => h ⟨hfork, ended.1, ended.2, hloop, hwa⟩
        have hclass : classify sol (e.reading grep file) (checkLimits sol ended.2 ended.1) =
            classify sol e.case (checkLimits sol ended.2 ended.1) := by
          unfold classify
          rw [if_neg hwa, if_neg hwa]
        rw [Outcome.bind_returned, Outcome.bind_returned]
        unfold settle
        dsimp only
        rw [hclass]
  · rw [if_neg hfork, if_neg hfork]

/-- A wrong answer is classified by what is in the file. -/
theorem judge_of_endsWrong (grep : String → Option Bytes → ℤ) {e : ErrorCase} {p : Progress}
    (h : EndsWrong sol e.case p) :
    ∃ q, q.result = .wa ∧ ∀ file, judge sol (e.reading grep file) p =
      .returned (classify sol (e.reading grep file) q, false) := by
  obtain ⟨hforks, q, last, hloop, hwa⟩ := h
  refine ⟨checkLimits sol last q, hwa, ?_⟩
  intro file
  have hforks' : (e.reading grep file).forks = true := hforks
  have hne : (checkLimits sol last q).result ≠ .ac := by
    rw [hwa]
    decide
  have hloop' : waitLoop sol (e.reading grep file) (e.reading grep file).reports
      (startCase sol p) = .returned (q, last) := by
    rw [waitLoop_reading]
    exact hloop
  rw [judge, if_pos hforks', hloop', Outcome.bind_returned, settle, if_pos hne]

/-- The judge adds no line in an accepted case. -/
theorem signalNote_of_accepted {c : TestCase} {p p' : Progress}
    (h : judge sol c p = .returned (p', true)) : signalNote strsignal sol c p = none := by
  obtain ⟨hforks, q, last, hloop, hsettle⟩ := judge_waitLoop h
  have hac : q.result = .ac := by
    have hflag := (settle_flag sol c last q).mp (by rw [hsettle])
    exact (settle_result_eq_ac_iff.mp hflag).1
  rw [signalNote, hforks, hloop]
  dsimp only
  split
  · next signo hsignal =>
      obtain ⟨passed, rest, mid, -, -, hlast⟩ := waitLoop_eq_returned hloop
      have hexited : ¬last.status.ifExited := by
        intro hexited
        rw [fatalSignal_eq_none_of_ifExited hexited] at hsignal
        cases hsignal
      rw [onReport, if_neg hexited, hsignal] at hlast
      cases hlast
      rw [if_neg (by rw [show signalResult signo = .ac from hac]; decide)]
  · rfl

/-! ## All cases -/

/-- An ACM run goes on after accepted cases only. -/
theorem goesOn_eq_some_iff (hacm : sol.judgeType = acm) {c : TestCase} {p p' : Progress} :
    goesOn sol c p = some p' ↔ judge sol c p = .returned (p', true) := by
  unfold goesOn
  cases judge sol c p with
  | blocked => simp
  | crashed => simp
  | exited reason => simp
  | returned judged =>
      obtain ⟨q, ok⟩ := judged
      cases ok with
      | true => simp
      | false => simp [hacm]

/-- A run that stops at its first case does not depend on the others. -/
theorem runCases_of_stop {c c' : TestCase} {cases cases' : List TestCase} {i f : ℕ}
    {p : Progress} (hjudge : judge sol c' p = judge sol c p) (hstop : goesOn sol c p = none) :
    runCases sol (c' :: cases') i f p = runCases sol (c :: cases) i f p := by
  cases hfirst : judge sol c p with
  | blocked => rw [runCases, runCases, hjudge, hfirst, Outcome.bind_blocked, Outcome.bind_blocked]
  | crashed => rw [runCases, runCases, hjudge, hfirst, Outcome.bind_crashed, Outcome.bind_crashed]
  | exited reason =>
      rw [runCases, runCases, hjudge, hfirst, Outcome.bind_exited, Outcome.bind_exited]
  | returned judged =>
      obtain ⟨q, ok⟩ := judged
      have hno : ¬(ok = true ∨ sol.judgeType ≠ acm) := by
        intro hgo
        simp [goesOn, hfirst, hgo] at hstop
      rw [runCases_cons_of_returned hfirst, runCases_cons_of_returned (hjudge.trans hfirst),
        if_neg hno, if_neg hno]

theorem errorsAfter_of_accepted {e : ErrorCase} {file : Option Bytes} {p p' : Progress}
    (h : judge sol (e.reading grep (appendErrors file e.stderr)) p = .returned (p', true)) :
    errorsAfter grep strsignal sol e file p = appendErrors file e.stderr := by
  unfold errorsAfter
  dsimp only
  rw [signalNote_of_accepted h]
  split <;> rfl

theorem not_endsWrong_of_accepted {e : ErrorCase} {file : Option Bytes} {p p' : Progress}
    (h : judge sol (e.reading grep file) p = .returned (p', true)) :
    ¬EndsWrong sol e.case p := by
  intro hwrong
  obtain ⟨q, -, hjudge⟩ := judge_of_endsWrong grep hwrong
  rw [hjudge file] at h
  cases h

/-- A run in which no wrong answer has another class because of what it inherits. -/
theorem runCases_of_alike (hacm : sol.judgeType = acm) {entries : List ErrorCase}
    {file : Option Bytes} {i f : ℕ} {p : Progress}
    (h : ∀ k e, entries[k]? = some e → WrongAt sol (entries.map (ErrorCase.alone grep)) p k →
      wrongClass sol (e.reading grep (appendErrors (inherited file (entries.take k)) e.stderr)) =
        wrongClass sol (e.alone grep)) :
    runCases sol (runOnErrors grep strsignal sol entries file p).1 i f p =
      runCases sol (entries.map (ErrorCase.alone grep)) i f p := by
  induction entries generalizing file i f p with
  | nil => rfl
  | cons e rest ih =>
      rw [List.map_cons] at h ⊢
      have hjudge : judge sol (e.reading grep (appendErrors file e.stderr)) p =
          judge sol (e.alone grep) p := by
        by_cases hwrong : EndsWrong sol e.case p
        · obtain ⟨q, hq, hends⟩ := judge_of_endsWrong grep hwrong
          have hclass := h 0 e rfl (.here ((endsWrong_reading e _ p).mpr hwrong))
          have hinherited : inherited file (List.take 0 (e :: rest)) = file := rfl
          rw [hinherited] at hclass
          rw [hends, ErrorCase.alone, hends, classify_eq_wrongClass _ hq,
            classify_eq_wrongClass _ hq, hclass, ErrorCase.alone]
        · rw [judge_reading hwrong, ErrorCase.alone, judge_reading hwrong]
      rw [runOnErrors]
      cases hgo : goesOn sol (e.reading grep (appendErrors file e.stderr)) p with
      | none =>
          have hstop : goesOn sol (e.alone grep) p = none := by
            rw [← hgo, goesOn, goesOn, hjudge]
          exact runCases_of_stop hjudge hstop
      | some p' =>
          have haccepted := (goesOn_eq_some_iff hacm).mp hgo
          have haccepted' := hjudge.symm.trans haccepted
          dsimp only
          rw [runCases_cons_of_returned haccepted, runCases_cons_of_returned haccepted',
            errorsAfter_of_accepted haccepted, if_pos (Or.inl rfl), if_pos (Or.inl rfl)]
          apply ih
          intro k d hd hwrong
          exact h (k + 1) d hd (.later haccepted' hwrong)

/-- A run that ends in a wrong answer, with the two classes. -/
theorem runCases_of_wrongAt (strsignal : ℕ → Bytes) (file : Option Bytes)
    (hacm : sol.judgeType = acm) {entries : List ErrorCase} {i f k : ℕ} {p : Progress}
    {e : ErrorCase} (hk : entries[k]? = some e)
    (h : WrongAt sol (entries.map (ErrorCase.alone grep)) p k) :
    ∃ q t, q.result = .wa ∧
      runCases sol (runOnErrors grep strsignal sol entries file p).1 i f p =
        .returned (classify sol
          (e.reading grep (appendErrors (inherited file (entries.take k)) e.stderr)) q, t) ∧
      runCases sol (entries.map (ErrorCase.alone grep)) i f p =
        .returned (classify sol (e.alone grep) q, t) := by
  induction entries generalizing file i f k p with
  | nil => simp at hk
  | cons d rest ih =>
      rw [List.map_cons] at h ⊢
      cases h with
      | here hwrong =>
          obtain rfl : d = e := by simpa using hk
          have hcase := (endsWrong_reading d _ p).mp hwrong
          obtain ⟨q, hq, hends⟩ := judge_of_endsWrong grep hcase
          have hnote : ∀ c : TestCase, noteFailure f i (classify sol c q).result =
              if f = 0 then i + 1 else f := by
            intro c
            have hne : (classify sol c q).result ≠ .ac := by
              apply classify_result_ne_ac
              rw [hq]
              decide
            simp [noteFailure, hne]
          have hgo : goesOn sol (d.reading grep (appendErrors file d.stderr)) p = none := by
            simp [goesOn, hends, hacm]
          have hno : ¬(false = true ∨ sol.judgeType ≠ acm) := by simp [hacm]
          refine ⟨q, if f = 0 then i + 1 else f, hq, ?_, ?_⟩
          · rw [runOnErrors, hgo]
            dsimp only
            rw [runCases_cons_of_returned (hends _), if_neg hno, hnote]
            rfl
          · have hends' := hends (appendErrors none d.stderr)
            rw [← ErrorCase.alone] at hends'
            rw [runCases_cons_of_returned hends', if_neg hno, hnote]
      | later haccepted hrest =>
          rename_i p' k
          have hother := not_endsWrong_of_accepted haccepted
          have haccepted' : judge sol (d.reading grep (appendErrors file d.stderr)) p =
              .returned (p', true) := by
            rw [judge_reading hother, ← judge_reading hother (appendErrors none d.stderr)]
            exact haccepted
          rw [runOnErrors, (goesOn_eq_some_iff hacm).mpr haccepted']
          dsimp only
          rw [runCases_cons_of_returned haccepted, runCases_cons_of_returned haccepted',
            errorsAfter_of_accepted haccepted', if_pos (Or.inl rfl), if_pos (Or.inl rfl)]
          exact ih _ hk hrest

/-! ## What the file keeps -/

/-- Nothing is ever taken out of the file. -/
theorem prefix_errorsAfter (grep : String → Option Bytes → ℤ) (strsignal : ℕ → Bytes)
    (sol : OjSolution) (e : ErrorCase) (file : Option Bytes) (p : Progress) :
    (appendErrors file e.stderr).getD [] <+:
      (errorsAfter grep strsignal sol e file p).getD [] := by
  unfold errorsAfter
  dsimp only
  split
  · rw [getD_appendErrors (appendErrors file e.stderr)]
    exact List.prefix_append _ _
  · exact List.prefix_refl _

theorem prefix_runOnErrors (hacm : sol.judgeType = acm) (entries : List ErrorCase)
    (file : Option Bytes) (p : Progress) :
    (inherited file (entries.take (runOnErrors grep strsignal sol entries file p).1.length)).getD
      [] <+: (runOnErrors grep strsignal sol entries file p).2.getD [] := by
  induction entries generalizing file p with
  | nil => exact List.prefix_refl _
  | cons e rest ih =>
      rw [runOnErrors]
      cases hgo : goesOn sol (e.reading grep (appendErrors file e.stderr)) p with
      | none => exact prefix_errorsAfter grep strsignal sol e file p
      | some p' =>
          have haccepted := (goesOn_eq_some_iff hacm).mp hgo
          dsimp only
          rw [errorsAfter_of_accepted haccepted]
          exact ih (appendErrors file e.stderr) p'

/-- A file that holds something is never empty for a later case. -/
theorem stderrSize_of_mem {entries : List ErrorCase} {file : Option Bytes} {p : Progress}
    (hfile : file.getD [] ≠ []) :
    ∀ c ∈ (runOnErrors grep strsignal sol entries file p).1, c.stderrSize ≠ 0 := by
  induction entries generalizing file p with
  | nil => simp [runOnErrors]
  | cons e rest ih =>
      have hwritten : (appendErrors file e.stderr).getD [] ≠ [] := by simp [hfile]
      have hhead : (e.reading grep (appendErrors file e.stderr)).stderrSize ≠ 0 := by
        simpa [ErrorCase.reading] using hwritten
      rw [runOnErrors]
      cases hgo : goesOn sol (e.reading grep (appendErrors file e.stderr)) p with
      | none => simpa using hhead
      | some p' =>
          have hafter : (errorsAfter grep strsignal sol e file p).getD [] ≠ [] := by
            intro hnil
            have hprefix := prefix_errorsAfter grep strsignal sol e file p
            rw [hnil] at hprefix
            exact hwritten (List.prefix_nil.mp hprefix)
          rw [List.forall_mem_cons]
          exact ⟨hhead, ih hafter⟩

/-- Python gives no wrong answer while there is something in the file. -/
theorem judge_ne_wa (hpython : sol.lang.isPython) {c : TestCase} (hsize : c.stderrSize ≠ 0)
    {p p' : Progress} {ok : Bool} (h : judge sol c p = .returned (p', ok)) :
    p'.result ≠ .wa := by
  obtain ⟨-, q, last, -, hsettle⟩ := judge_waitLoop h
  have hjava : sol.lang ≠ .java := by
    intro hjava
    rw [hjava] at hpython
    cases hpython
  unfold settle at hsettle
  dsimp only at hsettle
  by_cases hac : (checkLimits sol last q).result = .ac
  · rw [if_neg (not_not.mpr hac)] at hsettle
    obtain ⟨rfl, -⟩ := Prod.mk.inj hsettle
    rw [hac]
    decide
  · rw [if_pos hac] at hsettle
    obtain ⟨rfl, -⟩ := Prod.mk.inj hsettle
    by_cases hwa : (checkLimits sol last q).result = .wa
    · rw [classify_eq_wrongClass c hwa, wrongClass_of_ne_java hjava, if_pos ⟨hpython, hsize⟩]
      change OjResult.re ≠ .wa
      decide
    · unfold classify
      rw [if_neg hwa]
      split
      · exact hwa
      · exact hwa

/-- The stderr of all cases of all runs is in one file, and in an ACM run this shows
exactly when a wrong answer of Java or Python has another class by what it inherits: for
Python when there is something in the file, from an earlier run or an accepted case, and
the case writes nothing itself.  What is in the file stays there, and as long as there is
something no Python run reports a wrong answer. -/
theorem errors_interfere_iff (grep : String → Option Bytes → ℤ) (strsignal : ℕ → Bytes)
    (hacm : sol.judgeType = acm) (entries : List ErrorCase) (file : Option Bytes) :
    (runSolution sol (runOnErrors grep strsignal sol entries file .start).1 ≠
        runSolution sol (entries.map (ErrorCase.alone grep)) ↔
      ∃ k e, entries[k]? = some e ∧
        WrongAt sol (entries.map (ErrorCase.alone grep)) .start k ∧
        wrongClass sol (e.reading grep
          (appendErrors (inherited file (entries.take k)) e.stderr)) ≠
            wrongClass sol (e.alone grep)) ∧
    (sol.lang ≠ .java → ∀ k e, entries[k]? = some e →
      (wrongClass sol (e.reading grep
          (appendErrors (inherited file (entries.take k)) e.stderr)) ≠
            wrongClass sol (e.alone grep) ↔
        sol.lang.isPython ∧ e.stderr.getD [] = [] ∧
          (inherited file (entries.take k)).getD [] ≠ [])) ∧
    (inherited file (entries.take
        (runOnErrors grep strsignal sol entries file .start).1.length)).getD [] <+:
      (runOnErrors grep strsignal sol entries file .start).2.getD [] ∧
    (sol.lang.isPython → file.getD [] ≠ [] → ∀ record,
      runSolution sol (runOnErrors grep strsignal sol entries file .start).1 =
        .returned record → record.result ≠ .wa) := by
  refine ⟨⟨?_, ?_⟩, ?_, prefix_runOnErrors hacm entries file .start, ?_⟩
  · intro hdiffer
    by_contra hnone
    push Not at hnone
    apply hdiffer
    rw [runSolution, runSolution, runCases_of_alike hacm hnone]
  · rintro ⟨k, e, hk, hwrong, hclass⟩ heq
    obtain ⟨q, t, hq, hshared, hown⟩ := runCases_of_wrongAt (i := 0) (f := 0) strsignal file
      hacm hk hwrong
    rw [runSolution, runSolution, hshared, hown, Outcome.bind_returned,
      Outcome.bind_returned] at heq
    have hresult := congrArg Record.result (Outcome.returned.inj heq)
    dsimp only at hresult
    rw [classify_eq_wrongClass _ hq, classify_eq_wrongClass _ hq] at hresult
    exact hclass hresult
  · intro hjava k e hk
    exact wrongClass_inherited_iff hjava e _
  · intro hpython hfile record hrun
    obtain ⟨⟨q, t⟩, hloop, hresult, -, -, -⟩ := runSolution_eq_returned hrun
    rw [hresult]
    rcases runCases_acm hacm rfl hloop with ⟨hac, -, -, -⟩ | ⟨passed, j, htrace, -, -, hq, -⟩
    · rw [hac]
      decide
    · obtain ⟨hmem, ok, hjudge⟩ := mem_trace (htrace ▸ List.mem_append_right passed
        (List.mem_singleton_self j))
      rw [hq]
      exact judge_ne_wa hpython (stderrSize_of_mem hfile _ hmem) hjudge

/-- An accepted case with a warning. -/
def ErrorCase.warned : ErrorCase := ⟨.quiet [49] [49], some (ascii "warning"), true⟩

/-- A wrong answer without a word. -/
def ErrorCase.silent : ErrorCase := ⟨.quiet [49] [50], some [], true⟩

/-- The warning makes a runtime error of the wrong answer. -/
theorem errors_interfere_iff_warned :
    runSolution (.init .python3) ([.warned, .silent].map (ErrorCase.alone fun _ _ => 1)) =
        .returned ⟨.wa, 0, 0, 2⟩ ∧
      ∃ k e, [ErrorCase.warned, .silent][k]? = some e ∧
        WrongAt (.init .python3) ([.warned, .silent].map (ErrorCase.alone fun _ _ => 1)) .start k ∧
        wrongClass (.init .python3) (e.reading (fun _ _ => 1)
          (appendErrors (inherited none ([ErrorCase.warned, .silent].take k)) e.stderr)) ≠
            wrongClass (.init .python3) (e.alone fun _ _ => 1) :=
  ⟨by decide +kernel,
    (errors_interfere_iff (fun _ _ => 1) (fun _ => []) rfl [.warned, .silent] none).1.mp
      (by decide +kernel)⟩

end PowerJudge
