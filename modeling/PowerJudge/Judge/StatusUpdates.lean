import PowerJudge.Judge.Watchdog
import PowerJudge.Support.Interleaving

/-!
# The status rows in the database

While it runs, the judge writes its progress into the row of the solution, in one of two
tables.  The calls of one run are fixed by its cases; the statements of many runs reach
the database in any order.  As long as no two of the runs judge the same row, every row
shows the progress of its own run.
-/

namespace PowerJudge

/-! ## The statements -/

/-- The text that `update_solution_status` prints. -/
def statusText (cid sid result test : ℤ) : Bytes :=
  (if 0 < cid then ascii "update contest_solution set result="
    else ascii "update solution set result=") ++
  formatInt result ++ ascii ",test=" ++ formatInt test ++ ascii " where sid=" ++ formatInt sid

/-- `update_solution_status`: the statement that is sent, if any. -/
def updateSolutionStatus (mysqlOK : Bool) (cid sid result test : ℤ) : Option Bytes :=
  if mysqlOK then some ((statusText cid sid result test).take (buffSize - 1)) else none

/-- The arguments `result` and `test` of a call of `update_solution_status`. -/
structure Status where
  result : OjResult
  test : ℕ
  deriving DecidableEq, Repr

/-- The calls of `update_solution_status` in the loop of `run_solution`, from case number
`i` on. -/
def caseStatuses (sol : OjSolution) : List TestCase → ℕ → Progress → List Status
  | [], _, _ => []
  | c :: cases, i, p =>
      ⟨.run, i + 1⟩ ::
        match judge sol c p with
        | .returned (p', ok) =>
            if ok ∨ sol.judgeType ≠ acm then caseStatuses sol cases (i + 1) p' else []
        | _ => []

/-- The calls of `update_solution_status` in a run of the judge. -/
def statuses (env : JudgeEnv) : List Status :=
  match (arm env).bind fun armed => (connect env).bind fun _ => .returned armed.1 with
  | .returned submission =>
      ⟨.com, 0⟩ ::
        match (compile submission.sol.lang env.compiler).bind fun _ =>
            (findCases env submission.sol).mapExited .silent with
        | .returned sol => caseStatuses sol (foundCases env sol) 0 .start
        | _ => []
  | _ => []

/-- The contest and the solution of the command line. -/
def solutionOf (env : JudgeEnv) : ℤ × ℤ :=
  match parseArguments env.args with
  | .returned submission => (submission.cid, submission.sid)
  | _ => (0, 0)

/-- The table and the `sid` of the row that the judge updates. -/
def rowOf (env : JudgeEnv) : Bool × ℤ := (decide (0 < (solutionOf env).1), (solutionOf env).2)

/-- The statement of a call. -/
def statementOf (env : JudgeEnv) (mysqlOK : Bool) (status : Status) : Option Bytes :=
  updateSolutionStatus mysqlOK (solutionOf env).1 (solutionOf env).2 status.result.code
    status.test

/-! ## No statement is cut off -/

theorem atoi_natAbs_lt (text : Bytes) : (atoi text).natAbs < 10 ^ 10 := by
  unfold atoi
  have hlo := Int.le_bmod (x := strtol text) (m := 2 ^ 32) (by decide)
  have hhi := Int.bmod_lt (x := strtol text) (m := 2 ^ 32) (by decide)
  omega

/-- The contest and the solution fit into ten digits. -/
def Options.SmallIds (o : Options) : Prop := o.cid.natAbs < 10 ^ 10 ∧ o.sid.natAbs < 10 ^ 10

theorem smallIds_init : Options.init.SmallIds := by
  constructor
  · decide
  · decide

theorem applyOption_smallIds {args : Arguments} {o o' : Options} {option : Char × Bytes}
    (ho : o.SmallIds) (h : applyOption args o option = .returned o') : o'.SmallIds := by
  have hsmall := atoi_natAbs_lt option.2
  unfold applyOption at h
  split at h
  all_goals try split at h
  all_goals first
    | cases h
      exact ho
    | cases h
      exact ⟨ho.1, hsmall⟩
    | cases h
      exact ⟨hsmall, ho.2⟩
    | cases h

theorem applyOptions_smallIds {args : Arguments} {options : List (Char × Bytes)}
    {o o' : Options} (ho : o.SmallIds) (h : applyOptions args options o = .returned o') :
    o'.SmallIds := by
  induction options generalizing o with
  | nil =>
      cases h
      exact ho
  | cons option options ih =>
      rw [applyOptions, Outcome.bind_eq_returned_iff] at h
      obtain ⟨q, hoption, h⟩ := h
      exact ih (applyOption_smallIds ho hoption) h

theorem solutionOf_small (env : JudgeEnv) :
    (solutionOf env).1.natAbs < 10 ^ 10 ∧ (solutionOf env).2.natAbs < 10 ^ 10 := by
  unfold solutionOf
  split
  · next submission hparse =>
      rw [parseArguments, Outcome.bind_eq_returned_iff] at hparse
      obtain ⟨o, hoptions, h⟩ := hparse
      have hsmall : o.SmallIds := applyOptions_smallIds smallIds_init hoptions
      split at h
      · cases h
      · rw [Outcome.bind_eq_returned_iff] at h
        obtain ⟨lang, -, h⟩ := h
        dsimp only at h
        split at h
        · cases h
        · cases h
          exact hsmall
  · decide

theorem length_statusText_lt (cid : ℤ) {sid result test : ℤ} (hsid : sid.natAbs < 10 ^ 10)
    (hresult : result.natAbs < 10 ^ 10) (htest : test.natAbs < 10 ^ 10) :
    (statusText cid sid result test).length < buffSize - 1 := by
  have hsidLength := length_formatInt_le (by decide) hsid
  have hresultLength := length_formatInt_le (by decide) hresult
  have htestLength := length_formatInt_le (by decide) htest
  have hset : (ascii "update contest_solution set result=").length = 35 := by decide
  have hset' : (ascii "update solution set result=").length = 27 := by decide
  have htestWord : (ascii ",test=").length = 6 := by decide
  have hwhere : (ascii " where sid=").length = 11 := by decide
  unfold statusText buffSize
  split
  · simp only [List.length_append, hset, htestWord, hwhere]
    omega
  · simp only [List.length_append, hset', htestWord, hwhere]
    omega

/-- The statement of a call with a case number is sent as a whole. -/
theorem statementOf_eq (env : JudgeEnv) (mysqlOK : Bool) {status : Status}
    (htest : status.test < 10 ^ 10) :
    statementOf env mysqlOK status =
      if mysqlOK then
        some (statusText (solutionOf env).1 (solutionOf env).2 status.result.code status.test)
      else none := by
  have hcode : (status.result.code : ℤ).natAbs < 10 ^ 10 := by
    have hlt := status.result.code_lt
    omega
  have htest' : (status.test : ℤ).natAbs < 10 ^ 10 := by simpa using htest
  have hlength := length_statusText_lt (solutionOf env).1 (solutionOf_small env).2 hcode htest'
  unfold statementOf updateSolutionStatus
  rw [List.take_of_length_le hlength.le]

/-! ## The calls of a run -/

theorem caseStatuses_eq (sol : OjSolution) (cases : List TestCase) (i : ℕ) (p : Progress) :
    caseStatuses sol cases i p =
      (List.range (casesExecuted sol cases p)).map fun k => ⟨.run, i + k + 1⟩ := by
  induction cases generalizing i p with
  | nil => rfl
  | cons c cases ih =>
      have hshift : ∀ n : ℕ, (List.range (1 + n)).map (fun k => (⟨.run, i + k + 1⟩ : Status)) =
          ⟨.run, i + 1⟩ :: (List.range n).map fun k => ⟨.run, i + 1 + k + 1⟩ := by
        intro n
        rw [Nat.add_comm, List.range_succ_eq_map, List.map_cons, List.map_map]
        simp [Function.comp_def, Nat.add_comm, Nat.add_left_comm]
      rw [caseStatuses, casesExecuted]
      cases judge sol c p with
      | exited reason => rfl
      | crashed => rfl
      | blocked => rfl
      | returned judged =>
          dsimp only
          split
          · rw [hshift, ih]
          · rfl

/-- A run that gets as far as the compiler first shows that it compiles, and then the
number of every case that it executes. -/
theorem statuses_cases (env : JudgeEnv) :
    statuses env = [] ∨ statuses env =
      ⟨.com, 0⟩ :: (List.range (executed env)).map fun k => ⟨.run, k + 1⟩ := by
  unfold statuses executed prepare
  cases harm : arm env with
  | exited reason => exact Or.inl rfl
  | crashed => exact Or.inl rfl
  | blocked => exact Or.inl rfl
  | returned armed =>
      cases hconnect : connect env with
      | exited reason => exact Or.inl rfl
      | crashed => exact Or.inl rfl
      | blocked => exact Or.inl rfl
      | returned _ =>
          right
          simp only [Outcome.bind_returned, Outcome.mapExited_returned]
          congr 1
          cases (compile armed.1.sol.lang env.compiler).bind fun _ =>
              (findCases env armed.1.sol).mapExited .silent with
          | exited reason => rfl
          | crashed => rfl
          | blocked => rfl
          | returned sol =>
              dsimp only
              rw [caseStatuses_eq]
              simp

/-- In an ACM run that fails, the record names the last case that was executed. -/
theorem casesExecuted_of_failed {sol : OjSolution} (hacm : sol.judgeType = acm)
    {cases : List TestCase} {i : ℕ} {p : Progress} {ended : Progress × ℕ} (hp : p.result = .ac)
    (h : runCases sol cases i 0 p = .returned ended) (hfailed : ended.1.result ≠ .ac) :
    ended.2 = i + casesExecuted sol cases p := by
  induction cases generalizing i p with
  | nil =>
      cases h
      exact (hfailed hp).elim
  | cons c cases ih =>
      obtain ⟨p', ok, hjudge⟩ := runCases_cons_eq_returned h
      obtain ⟨-, q, last, -, hsettle⟩ := judge_waitLoop hjudge
      have hflag : ok = true ↔ p'.result = .ac := by
        simpa [hsettle] using settle_flag sol c last q
      rw [runCases_cons_of_returned hjudge] at h
      rw [casesExecuted, hjudge]
      by_cases hok : ok = true
      · have hac := hflag.mp hok
        have hnote : noteFailure 0 i p'.result = 0 := by simp [noteFailure, hac]
        rw [if_pos (Or.inl hok), hnote] at h
        have hrest := ih hac h
        simp only [hok, true_or, if_true]
        omega
      · have hne : p'.result ≠ .ac := fun hac => hok (hflag.mpr hac)
        have hnote : noteFailure 0 i p'.result = i + 1 := by simp [noteFailure, hne]
        rw [if_neg (by simp [hok, hacm]), hnote] at h
        cases h
        simp [hok, hacm]

theorem executed_of_failed {env : JudgeEnv} {record : Record} (h : main env = .returned record)
    (hfailed : record.result ≠ .ac) (hacm : ∀ sol, prepare env = .returned sol →
      sol.judgeType = acm) : record.test = executed env := by
  rw [main, Outcome.bind_eq_returned_iff] at h
  obtain ⟨sol, hprepare, h⟩ := h
  rw [Outcome.mapExited_eq_returned_iff] at h
  obtain ⟨ended, hloop, hresult, -, -, htest⟩ := runSolution_eq_returned h
  rw [hresult] at hfailed
  have hcases := casesExecuted_of_failed (hacm sol hprepare) rfl hloop hfailed
  rw [executed, hprepare, htest, hcases, Nat.zero_add]

/-! ## Many judges and one database -/

/-- What a database does with the statements of `update_solution_status`: the columns
`result` and `test` of a row of the table with that `sid` are set, if there is one, and
those of all other rows are left. -/
structure ExecutesUpdates {D : Type*} (exec : Bytes → D → D)
    (row : D → Bool × ℤ → Option (ℤ × ℤ)) : Prop where
  own : ∀ cid sid result test db,
    row (exec (statusText cid sid result test) db) (decide (0 < cid), sid) =
      (row db (decide (0 < cid), sid)).map fun _ => (result, test)
  other : ∀ cid sid result test db key, key ≠ (decide (0 < cid), sid) →
    row (exec (statusText cid sid result test) db) key = row db key

/-- The columns of a row after a number of calls for it. -/
def shown : ℕ → ℤ × ℤ → ℤ × ℤ
  | 0, old => old
  | 1, _ => (OjResult.com.code, 0)
  | k + 2, _ => (OjResult.run.code, k + 1)

/-- A call of `update_solution_status`, as the database sees it. -/
def sendStatus {D : Type*} (exec : Bytes → D → D) (env : JudgeEnv) (mysqlOK : Bool)
    (status : Status) (db : D) : D :=
  match statementOf env mysqlOK status with
  | some text => exec text db
  | none => db

variable {D : Type*} {exec : Bytes → D → D} {row : D → Bool × ℤ → Option (ℤ × ℤ)}
  {ι : Type*} {judges : ι → JudgeEnv}

/-- The judges are writers of their rows. -/
theorem ExecutesUpdates.writesCell (h : ExecutesUpdates exec row) (judges : ι → JudgeEnv)
    (connected : ι → Bool) :
    WritesCell (fun status : Status => status.test < 10 ^ 10) row
      (fun w status => sendStatus exec (judges w) (connected w) status)
      (fun w => rowOf (judges w))
      (fun w status old =>
        if connected w then old.map fun _ => (status.result.code, status.test) else old) where
  own := by
    intro w status db htest
    unfold sendStatus
    rw [statementOf_eq _ _ htest]
    cases connected w with
    | false => rfl
    | true => exact h.own _ _ _ _ db
  other := by
    intro w status db key htest hkey
    unfold sendStatus
    rw [statementOf_eq _ _ htest]
    cases connected w with
    | false => rfl
    | true => exact h.other _ _ _ _ db key hkey

/-- A row that is set several times shows the last. -/
theorem foldl_map_const (f : Status → ℤ × ℤ) (statuses : List Status) (old : Option (ℤ × ℤ)) :
    statuses.foldl (fun row status => row.map fun _ => f status) old =
      old.map fun columns => (statuses.getLast?.map f).getD columns := by
  induction statuses using List.reverseRecOn with
  | nil => simp
  | append_singleton statuses status ih =>
      rw [List.foldl_append, ih]
      simp [Function.comp_def]

/-- After some of its calls the row of a judge shows the number of them. -/
theorem getLast?_of_sent {env : JudgeEnv} {sent : List Status} (h : sent <+: statuses env)
    (columns : ℤ × ℤ) :
    (sent.getLast?.map fun status : Status => ((status.result.code : ℤ), (status.test : ℤ))).getD
      columns = shown sent.length columns := by
  obtain ⟨later, hsplit⟩ := h
  cases hlength : sent.length with
  | zero =>
      rw [List.length_eq_zero_iff.mp hlength]
      rfl
  | succ k =>
      have hk : k < sent.length := by omega
      have hlast : sent.getLast? = (statuses env)[k]? := by
        rw [List.getLast?_eq_getElem?, hlength, Nat.add_sub_cancel, ← hsplit,
          List.getElem?_append_left hk]
      have hlt : k < (statuses env).length := by
        rw [← hsplit, List.length_append]
        omega
      rw [hlast]
      rcases statuses_cases env with hnone | hcases
      · rw [hnone] at hlt
        exact (Nat.not_lt_zero k hlt).elim
      · rw [hcases, List.length_cons, List.length_map, List.length_range] at hlt
        rw [hcases]
        cases k with
        | zero => rfl
        | succ k =>
            have hrange : k < executed env := by omega
            simp [shown, List.getElem?_range hrange]

theorem length_statuses_le (env : JudgeEnv) : (statuses env).length ≤ executed env + 1 := by
  rcases statuses_cases env with hnone | hcases
  · simp [hnone]
  · simp [hcases]

theorem length_statuses_of_prepare {env : JudgeEnv} {sol : OjSolution}
    (h : prepare env = .returned sol) : (statuses env).length = executed env + 1 := by
  have hne : statuses env ≠ [] := by
    rw [prepare, Outcome.bind_eq_returned_iff] at h
    obtain ⟨armed, harm, h⟩ := h
    rw [Outcome.bind_eq_returned_iff] at h
    obtain ⟨_, hconnect, -⟩ := h
    rw [Outcome.mapExited_eq_returned_iff] at harm hconnect
    simp [statuses, harm, hconnect]
  rcases statuses_cases env with hnone | hcases
  · exact (hne hnone).elim
  · simp [hcases]

theorem test_le_of_mem_statuses {env : JudgeEnv} {status : Status} (h : status ∈ statuses env) :
    status.test < 10 ^ 10 := by
  have hexecuted : executed env < 2 ^ 31 := by
    unfold executed
    split
    · next sol hsol =>
        refine (casesExecuted_le _ _ _).trans_lt ?_
        rw [foundCases, List.length_map, List.length_range]
        exact numOfTest_lt _ _
    · decide
  rcases statuses_cases env with hnone | hcases
  · rw [hnone] at h
    cases h
  · rw [hcases] at h
    rcases List.mem_cons.mp h with rfl | h
    · decide
    · obtain ⟨k, hk, rfl⟩ := List.mem_map.mp h
      have hlt := List.mem_range.mp hk
      dsimp only
      omega

/-- Any number of judges of different rows, each stopped anywhere, and their statements in
any order: the row of a connected judge shows nothing new before its first call, then that
the solution is compiled, and then the number of the case that runs; every other row is
as before.  No number is beyond the cases that are executed, and a failed ACM run that
made all its calls leaves the number of the case that its record names. -/
theorem status_rows [DecidableEq ι] (connected : ι → Bool) (hexec : ExecutesUpdates exec row)
    (hrows : Function.Injective fun w => rowOf (judges w)) (db : D)
    {events : List (ι × Status)}
    (hevents : ∀ w, writtenBy w events <+: statuses (judges w)) :
    (∀ w, row (runWriters (fun w => sendStatus exec (judges w) (connected w)) db events)
        (rowOf (judges w)) =
      if connected w then
        (row db (rowOf (judges w))).map (shown (writtenBy w events).length)
      else row db (rowOf (judges w))) ∧
    (∀ key, (∀ w, key ≠ rowOf (judges w)) →
      row (runWriters (fun w => sendStatus exec (judges w) (connected w)) db events) key =
        row db key) ∧
    ∀ w, (writtenBy w events).length ≤ executed (judges w) + 1 ∧
      ∀ record, main (judges w) = .returned record → record.result ≠ .ac →
        (∀ sol, prepare (judges w) = .returned sol → sol.judgeType = acm) →
        writtenBy w events = statuses (judges w) →
          (writtenBy w events).length = record.test + 1 := by
  have hwriter := hexec.writesCell judges connected
  have hmeant : ∀ event ∈ events, event.2.test < 10 ^ 10 := by
    intro event hevent
    exact test_le_of_mem_statuses ((hevents event.1).subset (mem_writtenBy hevent))
  refine ⟨?_, ?_, ?_⟩
  · intro w
    rw [hwriter.read_own hrows w hmeant]
    cases connected w with
    | false => simp
    | true =>
        simp only [if_true]
        rw [foldl_map_const fun status => ((status.result.code : ℤ), (status.test : ℤ))]
        congr 1
        funext columns
        exact getLast?_of_sent (hevents w) columns
  · intro key hkey
    exact hwriter.read_other hkey hmeant db
  · intro w
    refine ⟨(hevents w).length_le.trans (length_statuses_le _), ?_⟩
    intro record hmain hfailed hacm hall
    obtain ⟨sol, hprepare, -⟩ := Outcome.bind_eq_returned_iff.mp hmain
    rw [hall, length_statuses_of_prepare hprepare, executed_of_failed hmain hfailed hacm]

/-! ## A database of rows -/

theorem statusText_inj {cid cid' sid sid' result result' test test' : ℤ}
    (h : statusText cid sid result test = statusText cid' sid' result' test') :
    (0 < cid ↔ 0 < cid') ∧ sid = sid' ∧ result = result' ∧ test = test' := by
  have hcontest : 0 < cid ↔ 0 < cid' := by
    have hseventh : ∀ cid sid result test : ℤ, (statusText cid sid result test)[7]? =
        if 0 < cid then some 99 else some 115 := by
      intro cid sid result test
      unfold statusText
      split <;> rfl
    have hboth := congrArg (·[7]?) h
    simp only [hseventh] at hboth
    by_cases hcid : 0 < cid
    · by_cases hcid' : 0 < cid'
      · exact iff_of_true hcid hcid'
      · simp [hcid, hcid'] at hboth
    · by_cases hcid' : 0 < cid'
      · simp [hcid, hcid'] at hboth
      · exact iff_of_false hcid hcid'
  unfold statusText at h
  simp only [hcontest, List.append_assoc, List.append_cancel_left_eq] at h
  obtain rfl := formatInt_inj (by rfl) (by rfl) h
  rw [List.append_cancel_left_eq, List.append_cancel_left_eq] at h
  obtain rfl := formatInt_inj (by rfl) (by rfl) h
  rw [List.append_cancel_left_eq, List.append_cancel_left_eq] at h
  have hsid := @formatInt_inj sid sid' [] [] rfl rfl (by simpa using h)
  exact ⟨hcontest, hsid, rfl, rfl⟩

open Classical in
/-- A database that consists of these rows and knows these statements only. -/
noncomputable def execStatus (text : Bytes) (rows : Bool × ℤ → Option (ℤ × ℤ)) :
    Bool × ℤ → Option (ℤ × ℤ) :=
  if h : ∃ call : (ℤ × ℤ) × (ℤ × ℤ),
      text = statusText call.1.1 call.1.2 call.2.1 call.2.2 then
    Function.update rows (decide (0 < h.choose.1.1), h.choose.1.2)
      ((rows (decide (0 < h.choose.1.1), h.choose.1.2)).map fun _ => h.choose.2)
  else rows

theorem execStatus_statusText (cid sid result test : ℤ)
    (rows : Bool × ℤ → Option (ℤ × ℤ)) :
    execStatus (statusText cid sid result test) rows =
      Function.update rows (decide (0 < cid), sid)
        ((rows (decide (0 < cid), sid)).map fun _ => (result, test)) := by
  have h : ∃ call : (ℤ × ℤ) × (ℤ × ℤ), statusText cid sid result test =
      statusText call.1.1 call.1.2 call.2.1 call.2.2 := ⟨((cid, sid), (result, test)), rfl⟩
  obtain ⟨hcontest, hsid, hresult, htest⟩ := statusText_inj h.choose_spec
  have hcall : h.choose.2 = (result, test) := Prod.ext hresult.symm htest.symm
  rw [execStatus, dif_pos h, hcall, ← hsid, decide_eq_decide.mpr hcontest]

theorem executesUpdates_execStatus : ExecutesUpdates execStatus fun rows => rows where
  own := by
    intro cid sid result test rows
    rw [execStatus_statusText, Function.update_self]
  other := by
    intro cid sid result test rows key hkey
    rw [execStatus_statusText, Function.update_of_ne hkey]

/-- The same solution outside a contest and in one. -/
def twoJudges (contest : Bool) : JudgeEnv :=
  acceptingEnv { cpp11Arguments with
    options := cpp11Arguments.options ++ [('c', ascii (if contest then "5" else "0"))] } .oneCase

/-- The second case is reached outside the contest only. -/
def twoEvents : List (Bool × Status) :=
  [(false, ⟨.com, 0⟩), (true, ⟨.com, 0⟩), (false, ⟨.run, 1⟩)]

theorem status_rows_two :
    let rows := runWriters (fun contest => sendStatus execStatus (twoJudges contest) true)
      (fun _ => some (11, 0)) twoEvents
    rows (false, 1000) = some (12, 1) ∧ rows (true, 1000) = some (15, 0) := by
  have hrow : ∀ contest, rowOf (twoJudges contest) = (contest, 1000) := by
    intro contest
    cases contest with
    | false => rfl
    | true => rfl
  have hstatuses : ∀ contest, [⟨.com, 0⟩, ⟨.run, 1⟩] <+: statuses (twoJudges contest) := by
    intro contest
    cases contest with
    | false => exact ⟨_, rfl⟩
    | true => exact ⟨_, rfl⟩
  have hrows : Function.Injective fun contest => rowOf (twoJudges contest) := by
    intro contest contest' heq
    simp only [hrow] at heq
    exact congrArg Prod.fst heq
  have hevents : ∀ contest, writtenBy contest twoEvents <+: statuses (twoJudges contest) := by
    intro contest
    cases contest with
    | false => exact hstatuses false
    | true =>
        have hfirst : [(⟨.com, 0⟩ : Status)] <+: [⟨.com, 0⟩, ⟨.run, 1⟩] := ⟨[⟨.run, 1⟩], rfl⟩
        exact hfirst.trans (hstatuses true)
  have hshown := (status_rows (fun _ => true) executesUpdates_execStatus hrows
    (fun _ => some (11, 0)) hevents).1
  have hfalse := hshown false
  have htrue := hshown true
  rw [hrow] at hfalse htrue
  exact ⟨hfalse, htrue⟩

end PowerJudge
