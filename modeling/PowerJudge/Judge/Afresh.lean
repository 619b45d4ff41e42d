import PowerJudge.Judge.Run
import PowerJudge.Syscalls.Decisions

/-!
# Whether a case is monitored afresh

`init_syscalls` writes the table anew but leaves the phase flag as the earlier
cases left it, and every decision toggles it.  Two histories of earlier cases
therefore leave a case the same monitor exactly when their decisions are alike
in number, or when the language limits nothing.
-/

namespace PowerJudge

variable {sol sol' : OjSolution} {c : TestCase}

/-! ## The stops of a case -/

/-- `orig_rax` of a report whose call is checked. -/
def checkedRax (sol : OjSolution) (r : Report) (p : Progress) : Option (BitVec 64) :=
  if r.status.ifExited ∨ fatalSignal r.status ≠ none ∨
      sol.memoryLimit < max p.memoryUsage r.rusage.maxrss then none
  else r.origRax

/-- The values of `orig_rax` that the wait loop checks, in order. -/
def caseStops (sol : OjSolution) (c : TestCase) :
    List (Option Report) → Progress → List (BitVec 64)
  | [], _ => []
  | none :: _, _ => []
  | some r :: rest, p =>
      match checkedRax sol r p, onReport sol c r p with
      | some origRax, .returned (.again p') => origRax :: caseStops sol c rest p'
      | some origRax, _ => [origRax]
      | none, _ => []

/-- The decisions of `is_valid_syscall` during a case. -/
def caseDecisions (sol : OjSolution) (c : TestCase) (p : Progress) : List Bool :=
  (decideStops (startCase sol p).monitor
    ((caseStops sol c c.reports (startCase sol p)).map syscallIdOf)).1

/-- What `stopBranch` does with a call that it checks. -/
theorem stopBranch_of_memory_le {r : Report} {p : Progress} {origRax : BitVec 64}
    (hmemory : max p.memoryUsage r.rusage.maxrss ≤ sol.memoryLimit)
    (hregs : r.origRax = some origRax) :
    stopBranch sol r p =
      if (checkStop (syscallIdOf origRax) p.monitor).1 then
        if r.resumes then
          .returned (.again { p with
            memoryUsage := max p.memoryUsage r.rusage.maxrss
            monitor := (checkStop (syscallIdOf origRax) p.monitor).2 })
        else .exited .judge
      else
        .returned (.leave { p with
          result := .rf
          memoryUsage := max p.memoryUsage r.rusage.maxrss
          monitor := (checkStop (syscallIdOf origRax) p.monitor).2 }) := by
  have hover : ¬max p.memoryUsage r.rusage.maxrss > sol.memoryLimit := Nat.not_lt.mpr hmemory
  unfold stopBranch
  simp only [hover, if_false, hregs]
  cases (checkStop (syscallIdOf origRax) p.monitor).1 with
  | true => simp
  | false => simp

/-- A report whose call is checked. -/
theorem onReport_of_checkedRax {r : Report} {p : Progress} {origRax : BitVec 64}
    (h : checkedRax sol r p = some origRax) :
    onReport sol c r p = stopBranch sol r p ∧
      max p.memoryUsage r.rusage.maxrss ≤ sol.memoryLimit ∧ r.origRax = some origRax := by
  unfold checkedRax at h
  split at h
  · cases h
  · next hpassed =>
      push Not at hpassed
      obtain ⟨hexited, hsignal, hmemory⟩ := hpassed
      refine ⟨?_, hmemory, h⟩
      rw [onReport, if_neg hexited, hsignal]

/-- A report whose call is not checked ends the case with the same monitor. -/
theorem onReport_of_checkedRax_eq_none {r : Report} {p : Progress} {step : WaitStep}
    (h : checkedRax sol r p = none) (hstep : onReport sol c r p = .returned step) :
    ∃ p', step = .leave p' ∧ p'.monitor = p.monitor := by
  by_cases hexited : r.status.ifExited
  · rw [onReport, if_pos hexited, Outcome.bind_eq_returned_iff] at hstep
    obtain ⟨p', hbranch, hleave⟩ := hstep
    refine ⟨p', (Outcome.returned.inj hleave).symm, ?_⟩
    by_cases hquit : NormalQuit sol r.status
    · rw [exitBranch, if_pos hquit, Outcome.bind_eq_returned_iff] at hbranch
      obtain ⟨result, -, hmerged⟩ := hbranch
      rw [← Outcome.returned.inj hmerged]
    · rw [exitBranch, if_neg hquit] at hbranch
      rw [← Outcome.returned.inj hbranch]
  · rw [onReport, if_neg hexited] at hstep
    cases hsignal : fatalSignal r.status with
    | some signo =>
        rw [hsignal] at hstep
        exact ⟨_, (Outcome.returned.inj hstep).symm, rfl⟩
    | none =>
        rw [hsignal] at hstep
        by_cases hmemory : sol.memoryLimit < max p.memoryUsage r.rusage.maxrss
        · simp only [stopBranch, gt_iff_lt, hmemory, if_true] at hstep
          exact ⟨_, (Outcome.returned.inj hstep).symm, rfl⟩
        · have hregs : r.origRax = none := by
            simpa [checkedRax, hexited, hsignal, hmemory] using h
          simp [stopBranch, hmemory, hregs] at hstep

/-- The wait loop leaves the monitor as its decisions do. -/
theorem waitLoop_monitor {reports : List (Option Report)} {p p' : Progress} {last : Report}
    (h : waitLoop sol c reports p = .returned (p', last)) :
    p'.monitor =
      (decideStops p.monitor ((caseStops sol c reports p).map syscallIdOf)).2 := by
  induction reports generalizing p with
  | nil => cases h
  | cons report rest ih =>
      cases report with
      | none => cases h
      | some r =>
          rw [waitLoop, Outcome.bind_eq_returned_iff] at h
          obtain ⟨step, hstep, h⟩ := h
          cases hrax : checkedRax sol r p with
          | none =>
              obtain ⟨q, rfl, hq⟩ := onReport_of_checkedRax_eq_none hrax hstep
              cases h
              simp [caseStops, hrax, decideStops, hq]
          | some origRax =>
              obtain ⟨honReport, hmemory, hregs⟩ := onReport_of_checkedRax (c := c) hrax
              have hbranch := honReport.symm.trans hstep
              rw [stopBranch_of_memory_le hmemory hregs] at hbranch
              cases hdecision : (checkStop (syscallIdOf origRax) p.monitor).1 with
              | false =>
                  rw [hdecision] at hbranch
                  obtain rfl := Outcome.returned.inj hbranch
                  cases h
                  simp [caseStops, hrax, hstep, decideStops_monitor_of_rejected hdecision]
              | true =>
                  rw [hdecision, if_pos rfl] at hbranch
                  split at hbranch
                  · obtain rfl := Outcome.returned.inj hbranch
                    simp [caseStops, hrax, hstep, decideStops_monitor_of_accepted hdecision,
                      ih h]
                  · cases hbranch

theorem checkLimits_monitor (last : Report) (p : Progress) :
    (checkLimits sol last p).monitor = p.monitor := by
  unfold checkLimits
  dsimp only
  split_ifs <;> rfl

theorem classify_monitor (p : Progress) : (classify sol c p).monitor = p.monitor := by
  unfold classify fixJavaResult
  split_ifs <;> rfl

theorem settle_monitor (last : Report) (p : Progress) :
    (settle sol c last p).1.monitor = p.monitor := by
  unfold settle
  dsimp only
  split
  · rw [classify_monitor, checkLimits_monitor]
  · exact checkLimits_monitor last p

/-- A case that `judge` settled leaves the monitor as its decisions do. -/
theorem judge_monitor {p p' : Progress} {ok : Bool}
    (h : judge sol c p = .returned (p', ok)) :
    p'.monitor = (decideStops (startCase sol p).monitor
      ((caseStops sol c c.reports (startCase sol p)).map syscallIdOf)).2 := by
  obtain ⟨-, q, last, hloop, hsettle⟩ := judge_waitLoop h
  rw [← waitLoop_monitor hloop, ← @settle_monitor sol c last q, hsettle]

/-! ## Histories -/

/-- The globals before a case of a run, after `decided` decisions of
`is_valid_syscall` in earlier cases.  The memory at program start is arbitrary
where the table is not. -/
inductive Earlier (sol : OjSolution) : ℕ → Progress → Prop where
  | start (memory : ℕ → ℤ) :
      Earlier sol 0 { Progress.start with monitor := { syscalls := memory, inSyscall := true } }
  | next {decided : ℕ} {p p' : Progress} {c : TestCase} {ok : Bool}
      (hearlier : Earlier sol decided p) (hjudge : judge sol c p = .returned (p', ok))
      (hgo : ok = true ∨ sol.judgeType ≠ acm) :
      Earlier sol (decided + (caseDecisions sol c p).length) p'

theorem parity_add (a b : ℕ) :
    (decide (a % 2 = 0) ^^ decide (b % 2 = 1)) = decide ((a + b) % 2 = 0) := by
  rcases Nat.mod_two_eq_zero_or_one a with ha | ha
  · have hsum : (a + b) % 2 = b % 2 := by omega
    rcases Nat.mod_two_eq_zero_or_one b with hb | hb <;> simp [ha, hb, hsum]
  · have hsum : (a + b) % 2 = 1 - b % 2 := by omega
    rcases Nat.mod_two_eq_zero_or_one b with hb | hb <;> simp [ha, hb, hsum]

/-- The phase flag after a history is the parity of its decisions. -/
theorem Earlier.inSyscall {decided : ℕ} {p : Progress} (h : Earlier sol decided p) :
    p.monitor.inSyscall = decide (decided % 2 = 0) := by
  induction h with
  | start memory => rfl
  | @next decided p p' c ok hearlier hjudge hgo ih =>
      rw [judge_monitor hjudge, decideStops_inSyscall, startCase, initSyscalls_inSyscall, ih]
      exact parity_add decided _

/-- The same stops get the same decisions after two histories, and leave the same
quotas in the table. -/
def MonitoredAlike (m m' : Monitor) : Prop :=
  ∀ origRaxs : List (BitVec 64),
    (decideStops m (origRaxs.map syscallIdOf)).1 =
        (decideStops m' (origRaxs.map syscallIdOf)).1 ∧
      ∀ id < 1024, (decideStops m (origRaxs.map syscallIdOf)).2.syscalls id =
        (decideStops m' (origRaxs.map syscallIdOf)).2.syscalls id

theorem syscallIdOf_lt (origRax : BitVec 64) : syscallIdOf origRax < 2 ^ 31 := by
  unfold syscallIdOf
  have h := BitVec.toInt_lt (x := origRax.setWidth 32)
  omega

theorem syscallIdOf_ofNat {id : ℕ} (h : id < 2 ^ 31) :
    syscallIdOf (BitVec.ofNat 64 id) = id := by
  unfold syscallIdOf
  rw [BitVec.toInt_eq_toNat_of_lt]
  · simp
    omega
  · simp
    omega

theorem monitoredAlike_iff {m m' : Monitor}
    (htable : ∀ id < 1024, m.syscalls id = m'.syscalls id) :
    MonitoredAlike m m' ↔ m.Alike m' := by
  constructor
  · intro h id hpos hlt
    apply alikeQuotas_of_decisions hpos
    intro k
    have hdecisions := (h (List.replicate k (BitVec.ofNat 64 id))).1
    rwa [List.map_replicate, syscallIdOf_ofNat hlt] at hdecisions
  · intro h origRaxs
    have hstops : ∀ syscallId ∈ origRaxs.map syscallIdOf, syscallId < 2 ^ 31 := by
      simp only [List.forall_mem_map]
      exact fun origRax _ => syscallIdOf_lt origRax
    obtain ⟨hdecisions, hremaining⟩ := h.decideStops_eq hstops
    exact ⟨hdecisions, fun id hid => hremaining id (htable id hid)⟩

/-- After two histories of earlier cases, of runs in one language, the same stops
are treated alike exactly under two conditions.  The decisions of the histories
are both even or both odd in number, or the table of the language limits
nothing; and every number that reads behind the table finds quotas there that
are alike. -/
theorem monitored_afresh_iff {decided decided' : ℕ} {p p' : Progress}
    (hlang : sol.lang = sol'.lang) (h : Earlier sol decided p) (h' : Earlier sol' decided' p') :
    MonitoredAlike (startCase sol p).monitor (startCase sol' p').monitor ↔
      (decided % 2 = decided' % 2 ∨
        sol.lang = .pascal ∨ sol.lang = .python27 ∨ sol.lang = .python3) ∧
      ∀ id : ℕ, 1024 ≤ id → id < 2 ^ 31 →
        AlikeQuotas (decide (decided % 2 = 0)) (decide (decided' % 2 = 0))
          (p.monitor.syscalls id) (p'.monitor.syscalls id) := by
  have hparity : p.monitor.inSyscall = p'.monitor.inSyscall ↔ decided % 2 = decided' % 2 := by
    rw [h.inSyscall, h'.inSyscall, decide_eq_decide]
    omega
  have hlimits : ¬Limits sol.lang ↔
      sol.lang = .pascal ∨ sol.lang = .python27 ∨ sol.lang = .python3 := by
    rw [limits_iff]
    tauto
  have htable : ∀ id < 1024, (initSyscalls sol'.lang p.monitor).syscalls id =
      (initSyscalls sol'.lang p'.monitor).syscalls id := by
    intro id hid
    rw [initSyscalls_syscalls hid, initSyscalls_syscalls hid]
  unfold startCase
  rw [← hlimits, ← hparity, hlang, monitoredAlike_iff htable, alike_initSyscalls_iff,
    h.inSyscall, h'.inSyscall]

/-- An OI run in C11. -/
def oiRun : OjSolution := { OjSolution.init .c11 with judgeType := oi }

/-- A case whose executor is killed between two system calls, right after the
stop of its `execve`. -/
def killedAfterExecve : TestCase :=
  { TestCase.quiet [] [] with
    reports := [some { Report.idle (.ofStop sigTrap) with origRax := some 59 },
      some (.idle (.ofKill sigSegv false))] }

theorem earlier_killedAfterExecve : ∃ p, Earlier oiRun 1 p := by
  refine ⟨_, .next (.start fun _ => 0) (c := killedAfterExecve) rfl (Or.inr ?_)⟩
  decide

theorem monitored_afresh_iff_killed :
    ∃ p p' : Progress, Earlier oiRun 0 p ∧ Earlier oiRun 1 p' ∧
      (MonitoredAlike (startCase oiRun p).monitor (startCase oiRun p').monitor ↔
        (0 % 2 = 1 % 2 ∨
          oiRun.lang = .pascal ∨ oiRun.lang = .python27 ∨ oiRun.lang = .python3) ∧
        ∀ id : ℕ, 1024 ≤ id → id < 2 ^ 31 →
          AlikeQuotas (decide (0 % 2 = 0)) (decide (1 % 2 = 0))
            (p.monitor.syscalls id) (p'.monitor.syscalls id)) := by
  obtain ⟨p', h'⟩ := earlier_killedAfterExecve
  exact ⟨_, p', .start fun _ => 0, h', monitored_afresh_iff rfl (.start fun _ => 0) h'⟩

/-- After a case that was killed, the one `uname` that C allows is charged at its
enter stop and rejected at its exit stop. -/
theorem killed_case_disturbs_next :
    ∃ p p' : Progress, Earlier oiRun 0 p ∧ Earlier oiRun 1 p' ∧
      (decideStops (startCase oiRun p).monitor ([59, 63, 63].map syscallIdOf)).1 =
        [true, true, true] ∧
      (decideStops (startCase oiRun p').monitor ([59, 63, 63].map syscallIdOf)).1 =
        [true, true, false] := by
  refine ⟨_, _, .start fun _ => 0,
    .next (.start fun _ => 0) (c := killedAfterExecve) rfl (Or.inr ?_), ?_, ?_⟩
  · decide
  · rfl
  · rfl

end PowerJudge
