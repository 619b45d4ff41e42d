import PowerJudge.Judge.Case

/-!
# What one case can do

Every branch of one iteration of the wait loop is described once, and the loop
is described by the reports it lets through and the report that ends it.  The
results about whole runs use these descriptions only.
-/

namespace PowerJudge

variable {sol : OjSolution} {c : TestCase}

/-! ## One report -/

theorem fatalSignal_eq_none_of_ifExited {status : WaitStatus} (h : status.ifExited) :
    fatalSignal status = none := by
  have hsignaled : ¬status.ifSignaled :=
    fun hs => WaitStatus.not_ifExited_of_ifSignaled hs h
  have hstopped : ¬status.ifStopped :=
    fun hs => WaitStatus.not_ifExited_of_ifStopped hs h
  simp [fatalSignal, hsignaled, hstopped]

/-- The ways in which a report can end the wait loop. -/
inductive Leaves (sol : OjSolution) (c : TestCase) (r : Report) (p : Progress) :
    Progress → Prop where
  | compared (hexited : r.status.ifExited) (hquit : NormalQuit sol r.status)
      {result : OjResult} (hcompare : compareCase sol c = .returned result) :
      Leaves sol c r p { p with result := mergeResult p.result result }
  | abnormal (hexited : r.status.ifExited) (hquit : ¬NormalQuit sol r.status) :
      Leaves sol c r p { p with result := .re }
  | signal {signo : ℕ} (hsignal : fatalSignal r.status = some signo) :
      Leaves sol c r p { p with result := signalResult signo }
  | memory (hexited : ¬r.status.ifExited) (hsignal : fatalSignal r.status = none)
      (hover : sol.memoryLimit < max p.memoryUsage r.rusage.maxrss) :
      Leaves sol c r p
        { p with result := .mle, memoryUsage := max p.memoryUsage r.rusage.maxrss }
  | syscall (hexited : ¬r.status.ifExited) (hsignal : fatalSignal r.status = none)
      (hmemory : max p.memoryUsage r.rusage.maxrss ≤ sol.memoryLimit) (m : Monitor) :
      Leaves sol c r p
        { p with result := .rf, memoryUsage := max p.memoryUsage r.rusage.maxrss,
                 monitor := m }

theorem Leaves.memory_mono {r : Report} {p q : Progress} (h : Leaves sol c r p q) :
    p.memoryUsage ≤ q.memoryUsage := by
  cases h with
  | compared => exact Nat.le_refl _
  | abnormal => exact Nat.le_refl _
  | signal => exact Nat.le_refl _
  | memory => exact Nat.le_max_left _ _
  | syscall => exact Nat.le_max_left _ _

/-- A report that ends the wait loop is still to be taken into the maximum. -/
theorem Leaves.max_memoryUsage {r : Report} {p q : Progress} (h : Leaves sol c r p q) :
    max q.memoryUsage r.rusage.maxrss = max p.memoryUsage r.rusage.maxrss := by
  cases h with
  | compared => rfl
  | abnormal => rfl
  | signal => rfl
  | memory => exact max_eq_left (Nat.le_max_right _ _)
  | syscall => exact max_eq_left (Nat.le_max_right _ _)

theorem Leaves.timeUsage {r : Report} {p q : Progress} (h : Leaves sol c r p q) :
    q.timeUsage = p.timeUsage := by
  cases h <;> rfl

/-- A report that the wait loop lets through, and the globals after it. -/
structure Passes (sol : OjSolution) (r : Report) (p p' : Progress) : Prop where
  notExited : ¬r.status.ifExited
  noSignal : fatalSignal r.status = none
  result : p'.result = p.result
  timeUsage : p'.timeUsage = p.timeUsage
  memoryUsage : p'.memoryUsage = max p.memoryUsage r.rusage.maxrss
  memory_le : p'.memoryUsage ≤ sol.memoryLimit

theorem leaves_of_stopBranch {r : Report} {p p' : Progress}
    (hexited : ¬r.status.ifExited) (hsignal : fatalSignal r.status = none)
    (h : stopBranch sol r p = .returned (.leave p')) : Leaves sol c r p p' := by
  simp only [stopBranch] at h
  split at h
  · next hover =>
      cases h
      exact .memory hexited hsignal hover
  · next hmemory =>
      split at h
      · cases h
      · split at h
        · cases h
          exact .syscall hexited hsignal (Nat.le_of_not_gt hmemory) _
        · split at h <;> cases h

theorem passes_of_stopBranch {r : Report} {p p' : Progress}
    (hexited : ¬r.status.ifExited) (hsignal : fatalSignal r.status = none)
    (h : stopBranch sol r p = .returned (.again p')) : Passes sol r p p' := by
  simp only [stopBranch] at h
  split at h
  · cases h
  · next hmemory =>
      split at h
      · cases h
      · split at h
        · cases h
        · split at h
          · cases h
            exact ⟨hexited, hsignal, rfl, rfl, rfl, Nat.le_of_not_gt hmemory⟩
          · cases h

theorem leaves_of_onReport {r : Report} {p p' : Progress}
    (h : onReport sol c r p = .returned (.leave p')) : Leaves sol c r p p' := by
  by_cases hexited : r.status.ifExited
  · rw [onReport, if_pos hexited, Outcome.bind_eq_returned_iff] at h
    obtain ⟨q, hq, hleave⟩ := h
    cases hleave
    by_cases hquit : NormalQuit sol r.status
    · rw [exitBranch, if_pos hquit, Outcome.bind_eq_returned_iff] at hq
      obtain ⟨result, hcompare, hmerged⟩ := hq
      cases hmerged
      exact .compared hexited hquit hcompare
    · rw [exitBranch, if_neg hquit] at hq
      cases hq
      exact .abnormal hexited hquit
  · rw [onReport, if_neg hexited] at h
    cases hsignal : fatalSignal r.status with
    | some signo =>
        rw [hsignal] at h
        cases h
        exact .signal hsignal
    | none =>
        rw [hsignal] at h
        exact leaves_of_stopBranch hexited hsignal h

theorem passes_of_onReport {r : Report} {p p' : Progress}
    (h : onReport sol c r p = .returned (.again p')) : Passes sol r p p' := by
  by_cases hexited : r.status.ifExited
  · rw [onReport, if_pos hexited, Outcome.bind_eq_returned_iff] at h
    obtain ⟨q, -, hleave⟩ := h
    cases hleave
  · rw [onReport, if_neg hexited] at h
    cases hsignal : fatalSignal r.status with
    | some signo =>
        rw [hsignal] at h
        cases h
    | none =>
        rw [hsignal] at h
        exact passes_of_stopBranch hexited hsignal h

/-! ## The reports of a case -/

/-- `PassesAll` is `Passes` along a list of reports. -/
inductive PassesAll (sol : OjSolution) : List Report → Progress → Progress → Prop where
  | nil (p : Progress) : PassesAll sol [] p p
  | cons {r : Report} {passed : List Report} {p q p' : Progress}
      (hhead : Passes sol r p q) (htail : PassesAll sol passed q p') :
      PassesAll sol (r :: passed) p p'

/-- An exit of the executor ends the loop, if the exit branch returns. -/
theorem waitLoop_cons_of_ifExited {r : Report} {rest : List (Option Report)} {p : Progress}
    (hexited : r.status.ifExited) :
    waitLoop sol c (some r :: rest) p =
      (exitBranch sol c r.status p).bind fun q => .returned (q, r) := by
  rw [waitLoop, onReport, if_pos hexited]
  cases exitBranch sol c r.status p with
  | returned q => rfl
  | exited reason => rfl
  | crashed => rfl
  | blocked => rfl

/-- A wait loop that was left: it let `passed` through and was ended by
`last`. -/
theorem waitLoop_eq_returned {reports : List (Option Report)} {p p' : Progress}
    {last : Report} (h : waitLoop sol c reports p = .returned (p', last)) :
    ∃ passed rest q, reports = passed.map some ++ some last :: rest ∧
      PassesAll sol passed p q ∧ onReport sol c last q = .returned (.leave p') := by
  induction reports generalizing p with
  | nil => cases h
  | cons report rest ih =>
      cases report with
      | none => cases h
      | some r =>
          rw [waitLoop, Outcome.bind_eq_returned_iff] at h
          obtain ⟨step, hstep, h⟩ := h
          cases step with
          | leave q =>
              cases h
              exact ⟨[], rest, p, rfl, .nil p, hstep⟩
          | again q =>
              obtain ⟨passed, later, q', hsplit, hpasses, hlast⟩ := ih h
              refine ⟨r :: passed, later, q', ?_, ?_, hlast⟩
              · rw [hsplit]
                rfl
              · exact .cons (passes_of_onReport hstep) hpasses

theorem PassesAll.result {passed : List Report} {p p' : Progress}
    (h : PassesAll sol passed p p') : p'.result = p.result := by
  induction h with
  | nil => rfl
  | cons hhead _ ih => exact ih.trans hhead.result

theorem PassesAll.timeUsage {passed : List Report} {p p' : Progress}
    (h : PassesAll sol passed p p') : p'.timeUsage = p.timeUsage := by
  induction h with
  | nil => rfl
  | cons hhead _ ih => exact ih.trans hhead.timeUsage

/-- The running maximum over the reports let through. -/
theorem PassesAll.memoryUsage {passed : List Report} {p p' : Progress}
    (h : PassesAll sol passed p p') :
    p'.memoryUsage = passed.foldl (fun m r => max m r.rusage.maxrss) p.memoryUsage := by
  induction h with
  | nil => rfl
  | cons hhead _ ih => rw [ih, hhead.memoryUsage, List.foldl_cons]

theorem PassesAll.memory_mono {passed : List Report} {p p' : Progress}
    (h : PassesAll sol passed p p') : p.memoryUsage ≤ p'.memoryUsage := by
  induction h with
  | nil => exact Nat.le_refl _
  | cons hhead _ ih =>
      have hle := hhead.memoryUsage
      omega

theorem PassesAll.memory_le {passed : List Report} {p p' : Progress}
    (h : PassesAll sol passed p p') (hp : p.memoryUsage ≤ sol.memoryLimit) :
    p'.memoryUsage ≤ sol.memoryLimit := by
  induction h with
  | nil => exact hp
  | cons hhead _ ih => exact ih hhead.memory_le

theorem PassesAll.maxrss_le {passed : List Report} {p p' : Progress}
    (h : PassesAll sol passed p p') :
    ∀ r ∈ passed, r.rusage.maxrss ≤ p'.memoryUsage := by
  induction h with
  | nil => simp
  | cons hhead htail ih =>
      intro r hr
      rcases List.mem_cons.mp hr with rfl | hr
      · have hhere := hhead.memoryUsage
        have hlater := htail.memory_mono
        omega
      · exact ih r hr

theorem waitLoop_timeUsage {reports : List (Option Report)} {p q : Progress} {last : Report}
    (h : waitLoop sol c reports p = .returned (q, last)) : q.timeUsage = p.timeUsage := by
  obtain ⟨passed, rest, mid, -, hpasses, hlast⟩ := waitLoop_eq_returned h
  rw [(leaves_of_onReport hlast).timeUsage, hpasses.timeUsage]

theorem waitLoop_memory_mono {reports : List (Option Report)} {p q : Progress} {last : Report}
    (h : waitLoop sol c reports p = .returned (q, last)) : p.memoryUsage ≤ q.memoryUsage := by
  obtain ⟨passed, rest, mid, -, hpasses, hlast⟩ := waitLoop_eq_returned h
  exact hpasses.memory_mono.trans (leaves_of_onReport hlast).memory_mono

/-! ## The end of a case -/

/-- `judge` took the reports `passed` and then `last`, which ended the wait loop
with globals `q`. -/
structure Ends (sol : OjSolution) (c : TestCase) (p : Progress)
    (passed : List Report) (last : Report) (q : Progress) : Prop where
  forks : c.forks = true
  taken : ∃ rest, c.reports = passed.map some ++ some last :: rest
  leaves : ∃ mid, PassesAll sol passed (startCase sol p) mid ∧ Leaves sol c last mid q

/-- A call that returned has left its wait loop. -/
theorem judge_waitLoop {p p' : Progress} {ok : Bool}
    (h : judge sol c p = .returned (p', ok)) :
    c.forks = true ∧ ∃ q last, waitLoop sol c c.reports (startCase sol p) = .returned (q, last) ∧
      settle sol c last q = (p', ok) := by
  unfold judge at h
  split at h
  · next hforks =>
      rw [Outcome.bind_eq_returned_iff] at h
      obtain ⟨⟨q, last⟩, hloop, hsettle⟩ := h
      exact ⟨hforks, q, last, hloop, Outcome.returned.inj hsettle⟩
  · cases h

theorem judge_eq_returned {p p' : Progress} {ok : Bool}
    (h : judge sol c p = .returned (p', ok)) :
    ∃ passed last q, Ends sol c p passed last q ∧ settle sol c last q = (p', ok) := by
  obtain ⟨hforks, q, last, hloop, hsettle⟩ := judge_waitLoop h
  obtain ⟨passed, rest, mid, hsplit, hpasses, hlast⟩ := waitLoop_eq_returned hloop
  have hleaves := leaves_of_onReport hlast
  exact ⟨passed, last, q, ⟨hforks, ⟨rest, hsplit⟩, mid, hpasses, hleaves⟩, hsettle⟩

/-! ## `settle` -/

theorem checkLimits_result (last : Report) (p : Progress) :
    (checkLimits sol last p).result =
      if sol.timeLimit < max p.timeUsage last.rusage.utimeMs then .tle
      else if sol.memoryLimit < max p.memoryUsage last.rusage.maxrss then .mle
      else p.result := by
  unfold checkLimits
  by_cases hmemory : sol.memoryLimit < max p.memoryUsage last.rusage.maxrss
  · by_cases htime : sol.timeLimit < max p.timeUsage last.rusage.utimeMs
    · simp [hmemory, htime]
    · simp [hmemory, htime]
  · by_cases htime : sol.timeLimit < max p.timeUsage last.rusage.utimeMs
    · simp [hmemory, htime]
    · simp [hmemory, htime]

@[simp] theorem checkLimits_timeUsage (last : Report) (p : Progress) :
    (checkLimits sol last p).timeUsage = max p.timeUsage last.rusage.utimeMs := by
  unfold checkLimits
  dsimp only
  split <;> split <;> rfl

@[simp] theorem checkLimits_memoryUsage (last : Report) (p : Progress) :
    (checkLimits sol last p).memoryUsage = max p.memoryUsage last.rusage.maxrss := by
  unfold checkLimits
  dsimp only
  split <;> split <;> rfl

/-- A result of `OJ_AC` passes both limit checks. -/
theorem checkLimits_result_eq_ac_iff {last : Report} {p : Progress} :
    (checkLimits sol last p).result = .ac ↔
      p.result = .ac ∧ max p.memoryUsage last.rusage.maxrss ≤ sol.memoryLimit ∧
        max p.timeUsage last.rusage.utimeMs ≤ sol.timeLimit := by
  rw [checkLimits_result]
  split
  · next htime =>
      constructor
      · intro h
        cases h
      · rintro ⟨-, -, hle⟩
        omega
  · next htime =>
      split
      · next hmemory =>
          constructor
          · intro h
            cases h
          · rintro ⟨-, hle, -⟩
            omega
      · next hmemory =>
          constructor
          · intro h
            exact ⟨h, by omega, by omega⟩
          · intro h
            exact h.1

/-- The language specific classes for a wrong answer. -/
theorem fixJavaResult_result (sol : OjSolution) (c : TestCase) {p : Progress}
    (hp : p.result = .wa) :
    (fixJavaResult sol c p).result = .mle ∨ (fixJavaResult sol c p).result = .re ∨
      (fixJavaResult sol c p).result = .wa := by
  unfold fixJavaResult
  split_ifs <;> simp [hp]

theorem classify_result_ne_ac {p : Progress} (hp : p.result ≠ .ac) :
    (classify sol c p).result ≠ .ac := by
  unfold classify
  split
  · exact hp
  · split
    · next hwa =>
        split
        · rcases fixJavaResult_result sol c hwa with h | h | h <;>
            rw [h] <;> decide
        · split
          · simp
          · exact hp
    · exact hp

/-- The returned flag says whether the result is `OJ_AC`. -/
theorem settle_flag (sol : OjSolution) (c : TestCase) (last : Report) (p : Progress) :
    (settle sol c last p).2 = true ↔ (settle sol c last p).1.result = .ac := by
  unfold settle
  dsimp only
  split
  · next hne => simpa using classify_result_ne_ac hne
  · next heq => simpa using heq

theorem settle_result_eq_ac_iff {last : Report} {p : Progress} :
    (settle sol c last p).1.result = .ac ↔
      p.result = .ac ∧ max p.memoryUsage last.rusage.maxrss ≤ sol.memoryLimit ∧
        max p.timeUsage last.rusage.utimeMs ≤ sol.timeLimit := by
  rw [← checkLimits_result_eq_ac_iff]
  unfold settle
  dsimp only
  split
  · next hne => exact iff_of_false (classify_result_ne_ac hne) hne
  · exact Iff.rfl

/-- A result of `OJ_AC` leaves the globals as the limit checks left them. -/
theorem settle_of_result_eq_ac {last : Report} {p : Progress}
    (h : (settle sol c last p).1.result = .ac) :
    (settle sol c last p).1 = checkLimits sol last p := by
  have hac := settle_result_eq_ac_iff.mp h
  rw [← checkLimits_result_eq_ac_iff] at hac
  simp [settle, hac]

end PowerJudge
