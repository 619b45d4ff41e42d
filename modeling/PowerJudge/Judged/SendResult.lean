import PowerJudge.Judged.Connection
import PowerJudge.Judged.ResultRecord

/-!
# Reporting a finished solution

`send_multi_result` posts a solution once curl is initialised.  When it is not,
the solution becomes a system error that is sent the same way, so that
`update_system_error` and `send_multi_result` call each other until curl is
initialised, and what is posted then is `OJ_SE`.
-/

namespace PowerJudge

/-- The handles that `curl_easy_init` and `curl_multi_init` return; `false` is null. -/
structure CurlInit where
  easy : Bool
  multi : Bool
  deriving DecidableEq, Repr

/-- `curl && multi_handle`. -/
def CurlInit.ok (init : CurlInit) : Bool := init.easy && init.multi

/-- A solution on `SendQueue`. -/
structure FinishedSolution where
  sid : Bytes
  cid : ℤ
  token : Bytes
  workDir : Bytes
  numbers : RecordNumbers
  deriving DecidableEq, Repr

/-- The surroundings of `SendWork`. -/
structure SendEnv where
  /-- What `result.txt` holds; `none` if it cannot be opened. -/
  resultTxt : Option Bytes
  /-- Whether `access` finds a file. -/
  access : Bytes → Bool
  /-- The handles returned to the calls of `send_multi_result`, in order. -/
  curl : ℕ → CurlInit

/-- The form that is posted. -/
structure PostedForm where
  sid : Bytes
  token : Bytes
  cid : ℤ
  numbers : RecordNumbers
  /-- The file that is uploaded as `error`. -/
  error : Option Bytes
  deriving DecidableEq, Repr

/-- `snprintf` of `"%s/%s/…"` into a buffer of `BUFF_SIZE`. -/
def FinishedSolution.path (solution : FinishedSolution) (name : Bytes) : Bytes :=
  (joinPath (joinPath solution.workDir solution.sid) name).take (buffSize - 1)

/-- `oj_solution.result = OJ_SE`. -/
def FinishedSolution.systemError (solution : FinishedSolution) : FinishedSolution :=
  { solution with numbers := { solution.numbers with result := OjResult.se.code } }

mutual

/-- `send_multi_result`, for at most `fuel` nested calls; `attempt` counts its own. -/
def sendMultiResult (env : SendEnv) :
    ℕ → ℕ → Option Bytes → FinishedSolution → Option PostedForm
  | 0, _, _, _ => none
  | fuel + 1, attempt, filePath, solution =>
      if (env.curl attempt).ok then
        some
          { sid := solution.sid
            token := solution.token
            cid := solution.cid
            numbers := solution.numbers
            error := filePath.filter env.access }
      else updateSystemError env fuel (attempt + 1) ExitReason.curlError.code solution

/-- `update_system_error`. -/
def updateSystemError (env : SendEnv) :
    ℕ → ℕ → ℕ → FinishedSolution → Option PostedForm
  | 0, _, _, _ => none
  | fuel + 1, attempt, _, solution =>
      let solution := solution.systemError
      sendMultiResult env fuel attempt (some (solution.path (ascii "error.txt"))) solution

end

/-- The numbers that `fscanf` of `"%d %d %d %d"` stores. -/
def scanNumbers (text : Bytes) : List ℤ :=
  (scan [.number, .number, .number, .number] text).filterMap fun
    | .number value => some (scanInt value)
    | .word _ => none

def FinishedSolution.store (solution : FinishedSolution) (scanned : List ℤ) :
    FinishedSolution :=
  { solution with
    numbers :=
      { result := (scanned[0]?).getD solution.numbers.result
        timeUsage := (scanned[1]?).getD solution.numbers.timeUsage
        memoryUsage := (scanned[2]?).getD solution.numbers.memoryUsage
        test := (scanned[3]?).getD solution.numbers.test } }

/-- The file that explains a result. -/
def uploadFile (result : ℤ) : Option Bytes :=
  if result = OjResult.ce.code then some (ascii "stderr_compiler.txt")
  else if result = OjResult.re.code then some (ascii "stderr_executive.txt")
  else if result = OjResult.se.code ∨ result = OjResult.rf.code then some (ascii "error.txt")
  else if result = OjResult.wa.code ∨ result = OjResult.pe.code then some (ascii "diff.out")
  else none

namespace FinishedSolution

/-- `update_result`. -/
def updateResult (env : SendEnv) (fuel : ℕ) (solution : FinishedSolution) :
    Option PostedForm :=
  match env.resultTxt with
  | none => updateSystemError env fuel 0 ExitReason.errorReadFile.code solution
  | some text =>
      let scanned := scanNumbers text
      let solution := solution.store scanned
      if scanned.length < 4 then
        updateSystemError env fuel 0 ExitReason.errorReadResult.code solution
      else
        sendMultiResult env fuel 0 ((uploadFile solution.numbers.result).map solution.path)
          solution

/-- What `SendWork` does with the number and the solution of an item. -/
def sendWork (env : SendEnv) (fuel code : ℕ) (solution : FinishedSolution) :
    Option PostedForm :=
  if code = ExitReason.ok.code then solution.updateResult env fuel
  else updateSystemError env fuel 0 code solution

end FinishedSolution

variable {env : SendEnv} {solution : FinishedSolution}

/-! ## The calls back and forth -/

theorem sendMultiResult_of_ok {attempt : ℕ} (hok : (env.curl attempt).ok = true) (fuel : ℕ)
    (filePath : Option Bytes) (solution : FinishedSolution) :
    ∃ form, sendMultiResult env (fuel + 1) attempt filePath solution = some form ∧
      form.numbers = solution.numbers := by
  rw [sendMultiResult, if_pos hok]
  exact ⟨_, rfl, rfl⟩

/-- A failed attempt is followed by another one, for a system error. -/
theorem sendMultiResult_of_not_ok {attempt : ℕ} (hok : (env.curl attempt).ok ≠ true)
    (filePath : Option Bytes) (solution : FinishedSolution) :
    ∃ errorPath, ∀ fuel, sendMultiResult env (fuel + 2) attempt filePath solution =
      sendMultiResult env fuel (attempt + 1) (some errorPath) solution.systemError := by
  refine ⟨solution.systemError.path (ascii "error.txt"), ?_⟩
  intro fuel
  rw [sendMultiResult, if_neg hok, updateSystemError]

theorem sendMultiResult_one_of_not_ok {attempt : ℕ} (hok : (env.curl attempt).ok ≠ true)
    (filePath : Option Bytes) (solution : FinishedSolution) :
    sendMultiResult env 1 attempt filePath solution = none := by
  rw [sendMultiResult, if_neg hok, updateSystemError]

/-- What is posted is the solution if the first attempt succeeds, and otherwise its
system error. -/
theorem numbers_of_sendMultiResult {fuel attempt : ℕ} {filePath : Option Bytes}
    {form : PostedForm} (h : sendMultiResult env fuel attempt filePath solution = some form) :
    form.numbers =
      if (env.curl attempt).ok then solution.numbers else solution.systemError.numbers := by
  induction fuel using Nat.twoStepInduction generalizing attempt filePath solution with
  | zero =>
      rw [sendMultiResult] at h
      cases h
  | one =>
      by_cases hok : (env.curl attempt).ok = true
      · obtain ⟨form', hform, hnumbers⟩ := sendMultiResult_of_ok hok 0 filePath solution
        obtain rfl := Option.some.inj (hform.symm.trans h)
        rw [if_pos hok, hnumbers]
      · rw [sendMultiResult_one_of_not_ok hok] at h
        cases h
  | more fuel ih _ =>
      by_cases hok : (env.curl attempt).ok = true
      · obtain ⟨form', hform, hnumbers⟩ := sendMultiResult_of_ok hok (fuel + 1) filePath solution
        obtain rfl := Option.some.inj (hform.symm.trans h)
        rw [if_pos hok, hnumbers]
      · obtain ⟨errorPath, hnext⟩ := sendMultiResult_of_not_ok hok filePath solution
        rw [hnext fuel] at h
        rw [if_neg hok, ih h]
        split
        · rfl
        · rfl

/-- Sending returns once an attempt succeeds, and not before. -/
theorem exists_sendMultiResult_iff {attempt : ℕ} {filePath : Option Bytes} :
    (∃ fuel form, sendMultiResult env fuel attempt filePath solution = some form) ↔
      ∃ later, attempt ≤ later ∧ (env.curl later).ok = true := by
  constructor
  · rintro ⟨fuel, form, h⟩
    induction fuel using Nat.twoStepInduction generalizing attempt filePath solution with
    | zero =>
        rw [sendMultiResult] at h
        cases h
    | one =>
        by_cases hok : (env.curl attempt).ok = true
        · exact ⟨attempt, le_refl _, hok⟩
        · rw [sendMultiResult_one_of_not_ok hok] at h
          cases h
    | more fuel ih _ =>
        by_cases hok : (env.curl attempt).ok = true
        · exact ⟨attempt, le_refl _, hok⟩
        · obtain ⟨errorPath, hnext⟩ := sendMultiResult_of_not_ok hok filePath solution
          rw [hnext fuel] at h
          obtain ⟨later, hle, hlater⟩ := ih h
          exact ⟨later, by omega, hlater⟩
  · rintro ⟨later, hle, hlater⟩
    induction hdistance : later - attempt generalizing attempt filePath solution with
    | zero =>
        obtain rfl : attempt = later := by omega
        obtain ⟨form, hform, -⟩ := sendMultiResult_of_ok hlater 0 filePath solution
        exact ⟨1, form, hform⟩
    | succ distance ih =>
        by_cases hok : (env.curl attempt).ok = true
        · obtain ⟨form, hform, -⟩ := sendMultiResult_of_ok hok 0 filePath solution
          exact ⟨1, form, hform⟩
        · obtain ⟨errorPath, hnext⟩ := sendMultiResult_of_not_ok hok filePath solution
          have hgo : attempt + 1 ≤ later ∧ later - (attempt + 1) = distance := by omega
          obtain ⟨fuel, form, hform⟩ :=
            @ih solution.systemError (attempt + 1) (some errorPath) hgo.1 hgo.2
          exact ⟨fuel + 2, form, (hnext fuel).trans hform⟩

theorem exists_updateSystemError_iff {attempt result : ℕ} :
    (∃ fuel form, updateSystemError env fuel attempt result solution = some form) ↔
      ∃ later, attempt ≤ later ∧ (env.curl later).ok = true := by
  rw [← @exists_sendMultiResult_iff env solution.systemError attempt
    (some (solution.systemError.path (ascii "error.txt")))]
  constructor
  · rintro ⟨fuel, form, h⟩
    cases fuel with
    | zero =>
        rw [updateSystemError] at h
        cases h
    | succ fuel =>
        rw [updateSystemError] at h
        exact ⟨fuel, form, h⟩
  · rintro ⟨fuel, form, h⟩
    refine ⟨fuel + 1, form, ?_⟩
    rwa [updateSystemError]

/-! ## Reading the result -/

theorem scan_numbers (n : ℕ) (text : Bytes) :
    ∃ values : List ℤ, scan (List.replicate n .number) text = values.map Scanned.number ∧
      values.length ≤ n := by
  induction n generalizing text with
  | zero => exact ⟨[], rfl, le_refl _⟩
  | succ n ih =>
      rw [List.replicate_succ, scan]
      cases scanNumber text with
      | none => exact ⟨[], rfl, Nat.zero_le _⟩
      | some read =>
          obtain ⟨values, hscan, hlength⟩ := ih read.2
          refine ⟨read.1 :: values, ?_, Nat.succ_le_succ hlength⟩
          simp only [hscan, List.map_cons]

/-- Four numbers are scanned exactly when four are stored. -/
theorem scanRecord_eq_some_iff {text : Bytes} {numbers : RecordNumbers} :
    scanRecord text = some numbers ↔
      4 ≤ (scanNumbers text).length ∧
        (solution.store (scanNumbers text)).numbers = numbers := by
  obtain ⟨values, hscan, hlength⟩ := scan_numbers 4 text
  change scan [.number, .number, .number, .number] text = _ at hscan
  have hstored : scanNumbers text = values.map scanInt := by
    rw [scanNumbers, hscan, List.filterMap_map]
    exact congrFun (List.filterMap_eq_map (f := scanInt)) values
  rw [hstored, scanRecord, hscan, List.length_map]
  rcases values with _ | ⟨result, _ | ⟨timeUsage, _ | ⟨memoryUsage, _ | ⟨test, _ | ⟨more, rest⟩⟩⟩⟩⟩
  · simp
  · simp
  · simp
  · simp
  · simp [FinishedSolution.store]
  · simp only [List.length_cons] at hlength
    omega

/-! ## Reports -/

/-- The solution is reported after finitely many nested calls, with the numbers that
have been read. -/
structure FinishedSolution.Reported (env : SendEnv) (code : ℕ) (solution : FinishedSolution) :
    Prop where
  returns : ∃ fuel form, solution.sendWork env fuel code = some form
  keeps : code = ExitReason.ok.code → ∀ text numbers, env.resultTxt = some text →
    scanRecord text = some numbers →
    ∀ fuel form, solution.sendWork env fuel code = some form → form.numbers = numbers

/-- Curl is initialised at some attempt, and at the first one if a verdict other than
`OJ_SE` has been read. -/
def SendEnv.Reports (env : SendEnv) (code : ℕ) : Prop :=
  (∃ attempt, (env.curl attempt).ok = true) ∧
    (code = ExitReason.ok.code → ∀ text numbers, env.resultTxt = some text →
      scanRecord text = some numbers →
      (env.curl 0).ok = true ∨ numbers.result = OjResult.se.code)

theorem exists_sendWork_iff {code : ℕ} :
    (∃ fuel form, solution.sendWork env fuel code = some form) ↔
      ∃ attempt, (env.curl attempt).ok = true := by
  have hstart : (∃ later, 0 ≤ later ∧ (env.curl later).ok = true) ↔
      ∃ attempt, (env.curl attempt).ok = true := by
    simp only [Nat.zero_le, true_and]
  rw [← hstart]
  simp only [FinishedSolution.sendWork, FinishedSolution.updateResult]
  split_ifs
  · split
    · exact exists_updateSystemError_iff
    · split_ifs
      · exact exists_updateSystemError_iff
      · exact exists_sendMultiResult_iff
  · exact exists_updateSystemError_iff

/-- What is sent for a result that has been read. -/
theorem sendWork_of_scanRecord {text : Bytes} {numbers : RecordNumbers}
    (htext : env.resultTxt = some text) (hscan : scanRecord text = some numbers) :
    ∃ filePath, ∀ fuel, solution.sendWork env fuel ExitReason.ok.code =
      sendMultiResult env fuel 0 filePath (solution.store (scanNumbers text)) := by
  obtain ⟨hlength, -⟩ := (@scanRecord_eq_some_iff solution text numbers).mp hscan
  refine ⟨(uploadFile (solution.store (scanNumbers text)).numbers.result).map
    (solution.store (scanNumbers text)).path, fun fuel => ?_⟩
  rw [FinishedSolution.sendWork, if_pos rfl, FinishedSolution.updateResult, htext]
  simp only [if_neg (Nat.not_lt.mpr hlength)]

/-- A finished solution is reported as it should be exactly when curl is initialised at
some attempt, the first one if there is a verdict to keep. -/
theorem reported_iff (env : SendEnv) (code : ℕ) (solution : FinishedSolution) :
    solution.Reported env code ↔ env.Reports code := by
  constructor
  · intro h
    have hreturns := exists_sendWork_iff.mp h.returns
    refine ⟨hreturns, ?_⟩
    rintro rfl text numbers htext hscan
    obtain ⟨filePath, hsend⟩ := @sendWork_of_scanRecord env solution text numbers htext hscan
    obtain ⟨fuel, form, hform⟩ := h.returns
    have hkept := h.keeps rfl text numbers htext hscan fuel form hform
    have hposted := numbers_of_sendMultiResult ((hsend fuel).symm.trans hform)
    by_cases hok : (env.curl 0).ok = true
    · exact Or.inl hok
    · rw [if_neg hok, hkept] at hposted
      rw [hposted]
      exact Or.inr rfl
  · rintro ⟨hreturns, hfirst⟩
    refine ⟨exists_sendWork_iff.mpr hreturns, ?_⟩
    rintro rfl text numbers htext hscan fuel form hform
    obtain ⟨filePath, hsend⟩ := @sendWork_of_scanRecord env solution text numbers htext hscan
    have hposted := numbers_of_sendMultiResult ((hsend fuel).symm.trans hform)
    obtain ⟨-, hstored⟩ := (@scanRecord_eq_some_iff solution text numbers).mp hscan
    rw [hposted]
    split_ifs with hok
    · exact hstored
    · have hse := (hfirst rfl text numbers htext hscan).resolve_left hok
      rw [← hstored] at hse ⊢
      rw [FinishedSolution.systemError, ← hse]

/-! ## What the form says -/

/-- The form says what is posted. -/
def Posted.Describes (form : PostedForm) : Posted → Prop
  | .verdict numbers => form.numbers = numbers
  | .systemError => form.numbers.result = OjResult.se.code

theorem result_of_updateSystemError {fuel attempt result : ℕ} {form : PostedForm}
    (h : updateSystemError env fuel attempt result solution = some form) :
    form.numbers.result = OjResult.se.code := by
  cases fuel with
  | zero =>
      rw [updateSystemError] at h
      cases h
  | succ fuel =>
      rw [updateSystemError] at h
      rw [numbers_of_sendMultiResult h]
      split
      · rfl
      · rfl

/-- The form that is sent says what the file of the solution holds, or that the system
has failed when curl is not initialised at once. -/
theorem sendWork_describes {fuel code : ℕ} {form : PostedForm}
    (h : solution.sendWork env fuel code = some form) :
    Posted.Describes form
      (if (env.curl 0).ok then sendWork code env.resultTxt else .systemError) := by
  have hsystemError : form.numbers.result = OjResult.se.code →
      Posted.Describes form (if (env.curl 0).ok then .systemError else .systemError) := by
    intro hresult
    rwa [ite_self]
  rw [sendWork]
  by_cases hok : code = ExitReason.ok.code
  · subst hok
    rw [if_pos rfl]
    unfold updateResult
    cases htext : env.resultTxt with
    | none =>
        rw [FinishedSolution.sendWork, if_pos rfl, FinishedSolution.updateResult, htext] at h
        exact hsystemError (result_of_updateSystemError h)
    | some text =>
        cases hscan : scanRecord text with
        | none =>
            have hlength : (scanNumbers text).length < 4 := by
              by_contra hge
              have hsome := (@scanRecord_eq_some_iff solution text _).mpr
                ⟨Nat.le_of_not_lt hge, rfl⟩
              rw [hscan] at hsome
              cases hsome
            rw [FinishedSolution.sendWork, if_pos rfl, FinishedSolution.updateResult,
              htext] at h
            simp only [if_pos hlength] at h
            simp only [hscan]
            exact hsystemError (result_of_updateSystemError h)
        | some numbers =>
            obtain ⟨filePath, hsend⟩ :=
              @sendWork_of_scanRecord env solution text numbers htext hscan
            obtain ⟨-, hstored⟩ := (@scanRecord_eq_some_iff solution text numbers).mp hscan
            have hposted := numbers_of_sendMultiResult ((hsend fuel).symm.trans h)
            simp only [hscan]
            split at hposted
            · next hcurl =>
                rw [if_pos hcurl]
                exact hposted.trans hstored
            · next hcurl =>
                rw [if_neg hcurl]
                change form.numbers.result = _
                rw [hposted]
                rfl
  · rw [if_neg hok]
    rw [FinishedSolution.sendWork, if_neg hok] at h
    exact hsystemError (result_of_updateSystemError h)

/-- A solution that was accepted, with the outcomes of initialising curl. -/
def acceptedEnv (curl : ℕ → CurlInit) : SendEnv where
  resultTxt := some (ascii "0 15 1024 0")
  access := fun _ => false
  curl := curl

def acceptedSolution : FinishedSolution where
  sid := ascii "110522"
  cid := 0
  token := ascii "123456"
  workDir := ascii "/work"
  numbers := ⟨0, 0, 0, 0⟩

/-- It is never reported without curl, and reported as `OJ_SE` after one failure. -/
theorem accepted_not_reported :
    (∀ fuel, acceptedSolution.sendWork (acceptedEnv fun _ => ⟨false, true⟩) fuel
      ExitReason.ok.code = none) ∧
    ¬acceptedSolution.Reported (acceptedEnv fun _ => ⟨false, true⟩) ExitReason.ok.code ∧
    (acceptedSolution.sendWork (acceptedEnv fun n => ⟨n ≠ 0, true⟩) 3 ExitReason.ok.code).map
      PostedForm.numbers = some ⟨OjResult.se.code, 15, 1024, 0⟩ ∧
    ¬acceptedSolution.Reported (acceptedEnv fun n => ⟨n ≠ 0, true⟩) ExitReason.ok.code := by
  have hnever : ¬∃ fuel form, acceptedSolution.sendWork (acceptedEnv fun _ => ⟨false, true⟩) fuel
      ExitReason.ok.code = some form := by
    rw [exists_sendWork_iff]
    rintro ⟨attempt, hok⟩
    cases hok
  have hposted : (acceptedSolution.sendWork (acceptedEnv fun n => ⟨n ≠ 0, true⟩) 3
      ExitReason.ok.code).map PostedForm.numbers = some ⟨OjResult.se.code, 15, 1024, 0⟩ := by
    decide
  refine ⟨?_, fun h => hnever h.returns, hposted, ?_⟩
  · intro fuel
    rw [Option.eq_none_iff_forall_ne_some]
    exact fun form hform => hnever ⟨fuel, form, hform⟩
  · intro h
    obtain ⟨form, hform, hnumbers⟩ := Option.map_eq_some_iff.mp hposted
    have hkept := h.keeps rfl (ascii "0 15 1024 0") ⟨0, 15, 1024, 0⟩ rfl (by decide) 3 form hform
    rw [hnumbers] at hkept
    exact absurd hkept (by decide)

end PowerJudge
