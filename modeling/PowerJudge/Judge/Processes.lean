import PowerJudge.Judge.Watchdog
import PowerJudge.Support.Children

/-!
# The child processes of the judge

`compile`, `judge` and `oj_compare_output_spj` fork a child each, and every way out of them
either waits for its end, kills it, or leaves it behind.  The calls are listed along the same
branches as the verdict, so that the table of the children can be read off at any moment of a
run, and so also when the alarm ends it, or the logger in a message before a `kill`.  The shells
of `execute_cmd` are forked and waited for inside `system`.
-/

namespace PowerJudge

open Children

/-! ## The calls -/

/-- A child of the judge; the executor and the special judge of a case have its number. -/
inductive JudgeChild where
  | compiler
  | executor (i : ℕ)
  | spj (i : ℕ)
  deriving DecidableEq, Repr

inductive ChildCall where
  | fork
  /-- `waitpid` and `wait4`, with the status unless they fail. -/
  | wait (status : Option WaitStatus)
  /-- A message about a child with this status, before it is killed: where the log cannot be
  written, the logger leaves with 1. -/
  | log (status : Option WaitStatus)
  /-- `kill(pid, SIGKILL)`. -/
  | kill
  deriving DecidableEq, Repr

/-- A child that has exited or was killed is gone once it is waited for. -/
def ChildCall.act : ChildCall → Act
  | .fork => .fork
  | .wait (some status) => if status.ifExited ∨ status.ifSignaled then .reap else .look
  | .wait none => .look
  | .log _ => .tell
  | .kill => .kill

abbrev ChildCalls := List (JudgeChild × ChildCall)

def acts (calls : ChildCalls) : List (JudgeChild × Act) :=
  calls.map fun call => (call.1, call.2.act)

/-- The calls of `compile`. -/
def compileCalls (run : CompilerRun) : ChildCalls :=
  if !run.forks then [] else [(.compiler, .fork), (.compiler, .wait run.waited)]

/-- The calls of `oj_compare_output_spj`. -/
def spjCalls (i : ℕ) : SpjRun → ChildCalls
  | .forkFailed => []
  | .waitFailed => [(.spj i, .fork), (.spj i, .wait none)]
  | .ended status => [(.spj i, .fork), (.spj i, .wait (some status))]

/-- The calls after a status of the executor that make an end of it. -/
def killCalls (i : ℕ) (status : Option WaitStatus) : ChildCalls :=
  [(.executor i, .log status), (.executor i, .kill)]

/-- The calls after the memory check and the syscall check. -/
def stopCalls (sol : OjSolution) (i : ℕ) (r : Report) (p : Progress) : ChildCalls :=
  -- Nothing is logged before the executor is killed for its memory.
  if max p.memoryUsage r.rusage.maxrss > sol.memoryLimit then [(.executor i, .kill)]
  else
    match r.origRax with
    | none => killCalls i (some r.status)
    | some origRax =>
        if !(checkStop (syscallIdOf origRax) p.monitor).1 then killCalls i (some r.status)
        else if r.resumes then []
        else killCalls i (some r.status)

/-- The calls of an iteration of the wait loop after a successful `wait4`. -/
def reportCalls (sol : OjSolution) (c : TestCase) (i : ℕ) (r : Report) (p : Progress) :
    ChildCalls :=
  if r.status.ifExited then
    if NormalQuit sol r.status then
      if sol.spj then spjCalls i c.spjRun else []
    else []
  else
    match fatalSignal r.status with
    | some _ => killCalls i (some r.status)
    | none => stopCalls sol i r p

/-- The calls of the wait loop. -/
def waitCalls (sol : OjSolution) (c : TestCase) (i : ℕ) :
    List (Option Report) → Progress → ChildCalls
  | [], _ => []
  | none :: _, _ => (.executor i, .wait none) :: killCalls i none
  | some r :: rest, p =>
      (.executor i, .wait (some r.status)) :: (reportCalls sol c i r p ++
        match onReport sol c r p with
        | .returned (.again p') => waitCalls sol c i rest p'
        | _ => [])

/-- The calls of `judge`. -/
def caseCalls (sol : OjSolution) (c : TestCase) (i : ℕ) (p : Progress) : ChildCalls :=
  if c.forks then (.executor i, .fork) :: waitCalls sol c i c.reports (startCase sol p) else []

/-- The calls of the loop of `run_solution` from case number `i` on. -/
def runCalls (sol : OjSolution) : List TestCase → ℕ → Progress → ChildCalls
  | [], _, _ => []
  | c :: cases, i, p =>
      caseCalls sol c i p ++
        match judge sol c p with
        | .returned (p', ok) =>
            if ok ∨ sol.judgeType ≠ acm then runCalls sol cases (i + 1) p' else []
        | _ => []

/-- The calls of the whole process. -/
def mainCalls (env : JudgeEnv) : ChildCalls :=
  match arm env, connect env with
  | .returned _, .returned _ =>
      compileCalls env.compiler ++
        match prepare env with
        | .returned sol => runCalls sol (foundCases env sol) 0 .start
        | _ => []
  | _, _ => []

/-- Without `WUNTRACED`, `waitpid` returns only the end of a child. -/
def TestCase.SpjEnds (c : TestCase) : Prop :=
  ∀ status, c.spjRun = .ended status → status.ifExited ∨ status.ifSignaled

/-- A status of the executor says that a signal has killed it. -/
def KilledBySignal (calls : ChildCalls) : Prop :=
  ∃ i status, (JudgeChild.executor i, ChildCall.wait (some status)) ∈ calls ∧ status.ifSignaled

/-- A message is about an executor that has stopped, or cannot be waited for. -/
def LogsLive (calls : ChildCalls) : Prop :=
  ∃ i status, (JudgeChild.executor i, ChildCall.log status) ∈ calls ∧
    ∀ s, status = some s → ¬s.ifExited ∧ ¬s.ifSignaled

/-! ## The calls of one case -/

variable {sol : OjSolution} {c : TestCase} {i : ℕ} {t : Table JudgeChild}

theorem acts_append (calls more : ChildCalls) : acts (calls ++ more) = acts calls ++ acts more :=
  List.map_append

/-- The calls that come at the wrong time are those that the statuses tell of. -/
structure Told (t : Table JudgeChild) (calls : ChildCalls) : Prop where
  stray : Stray t (acts calls) ↔ KilledBySignal calls
  abandons : Abandons t (acts calls) ↔ LogsLive calls

/-- A call that neither ends an executor nor tells of one, nor shows that a signal has. -/
structure Plain (call : JudgeChild × ChildCall) : Prop where
  noKill : call.2 ≠ .kill
  noLog : ∀ status, call.2 ≠ .log status
  unsignaled : ∀ j status, call = (.executor j, .wait (some status)) → ¬status.ifSignaled

theorem ChildCall.act_eq_kill_iff {call : ChildCall} : call.act = .kill ↔ call = .kill := by
  cases call with
  | fork => simp [ChildCall.act]
  | wait status =>
      cases status with
      | none => simp [ChildCall.act]
      | some status =>
          rw [ChildCall.act]
          split_ifs
          · simp
          · simp
  | log status => simp [ChildCall.act]
  | kill => simp [ChildCall.act]

theorem ChildCall.act_eq_tell_iff {call : ChildCall} :
    call.act = .tell ↔ ∃ status, call = .log status := by
  cases call with
  | fork => simp [ChildCall.act]
  | wait status =>
      cases status with
      | none => simp [ChildCall.act]
      | some status =>
          rw [ChildCall.act]
          split_ifs
          · simp
          · simp
  | log status => simp [ChildCall.act]
  | kill => simp [ChildCall.act]

theorem told_of_plain {calls : ChildCalls} (h : ∀ call ∈ calls, Plain call) : Told t calls := by
  have hacts : ∀ act ∈ acts calls, act.2 ≠ .kill ∧ act.2 ≠ .tell := by
    intro act hact
    obtain ⟨call, hcall, rfl⟩ := List.mem_map.mp hact
    refine ⟨fun hkill => (h call hcall).noKill (ChildCall.act_eq_kill_iff.mp hkill), ?_⟩
    intro htell
    obtain ⟨status, hlog⟩ := ChildCall.act_eq_tell_iff.mp htell
    exact (h call hcall).noLog status hlog
  constructor
  · refine iff_of_false ?_ ?_
    · exact not_somewhere_of_forall fun act hact _ hstate => (hacts act hact).1 hstate.1
    · rintro ⟨j, status, hmem, hsignaled⟩
      exact (h _ hmem).unsignaled j status rfl hsignaled
  · refine iff_of_false ?_ ?_
    · exact not_somewhere_of_forall fun act hact _ hstate => (hacts act hact).2 hstate.1
    · rintro ⟨j, status, hmem, -⟩
      exact (h _ hmem).noLog status rfl

theorem told_nil : Told t [] := told_of_plain (by simp)

theorem Told.append {calls more : ChildCalls} (h : Told t calls)
    (hmore : Told (t.replay (acts calls)) more) : Told t (calls ++ more) := by
  constructor
  · rw [acts_append, Stray, somewhere_append_iff]
    change Stray t _ ∨ Stray _ _ ↔ _
    rw [h.stray, hmore.stray]
    simp only [KilledBySignal, List.mem_append, or_and_right, exists_or]
  · rw [acts_append, Abandons, somewhere_append_iff]
    change Abandons t _ ∨ Abandons _ _ ↔ _
    rw [h.abandons, hmore.abandons]
    simp only [LogsLive, List.mem_append, or_and_right, exists_or]

/-- A plain call changes nothing of what is told. -/
theorem Told.cons {call : JudgeChild × ChildCall} {calls : ChildCalls} (hcall : Plain call)
    (h : Told (t.step (call.1, call.2.act)) calls) : Told t (call :: calls) := by
  have hfirst : Told t [call] := told_of_plain (by simpa using hcall)
  exact hfirst.append h

/-- The children are in order after the calls of a case that ends so. -/
structure Orderly {α : Type} (t : Table JudgeChild) (calls : ChildCalls) (i : ℕ) (c : TestCase)
    (outcome : Outcome ExitReason α) : Prop where
  sequential : Sequential t (acts calls)
  quiet : ∀ a, outcome = .returned a → (t.replay (acts calls)).Quiet
  left : outcome ≠ .blocked → ∀ k, t.replay (acts calls) k = .alive →
    k = .spj i ∧ c.spjRun = .waitFailed
  told : Told t calls

theorem mem_spjCalls {run : SpjRun} {call : JudgeChild × ChildCall}
    (h : call ∈ spjCalls i run) : call.1 = .spj i ∧ Plain call := by
  have hplain : ∀ call' : ChildCall, call' ≠ .kill → (∀ status, call' ≠ .log status) →
      Plain (JudgeChild.spj i, call') :=
    fun call' hkill hlog => ⟨hkill, hlog, fun j status heq => by cases heq⟩
  cases run with
  | forkFailed => cases h
  | waitFailed =>
      simp only [spjCalls, List.mem_cons, List.not_mem_nil, or_false] at h
      rcases h with rfl | rfl
      · exact ⟨rfl, hplain _ (by simp) (by simp)⟩
      · exact ⟨rfl, hplain _ (by simp) (by simp)⟩
  | ended status =>
      simp only [spjCalls, List.mem_cons, List.not_mem_nil, or_false] at h
      rcases h with rfl | rfl
      · exact ⟨rfl, hplain _ (by simp) (by simp)⟩
      · exact ⟨rfl, hplain _ (by simp) (by simp)⟩

/-- A special judge is waited for, unless the wait fails. -/
theorem quiet_spjCalls (hspj : c.SpjEnds) (ht : t.Quiet) (hwait : c.spjRun ≠ .waitFailed)
    (hserves : (t.replay (acts (spjCalls i c.spjRun))).Serves (.spj i)) :
    (t.replay (acts (spjCalls i c.spjRun))).Quiet := by
  cases hrun : c.spjRun with
  | forkFailed => exact ht
  | waitFailed => exact (hwait hrun).elim
  | ended status =>
      rw [hrun] at hserves
      refine hserves.quiet ?_
      simp [acts, spjCalls, ChildCall.act, if_pos (hspj status hrun), Status.after]

/-- The calls of the special judge, from a table without live children. -/
theorem orderly_spjCalls (hspj : c.SpjEnds) (ht : t.Quiet) :
    Orderly t (spjCalls i c.spjRun) i c (ojCompareOutputSpj c.spjRun) := by
  have hcalls : ∀ call ∈ acts (spjCalls i c.spjRun), call.1 = .spj i := by
    intro call hcall
    obtain ⟨call', hmem, rfl⟩ := List.mem_map.mp hcall
    exact (mem_spjCalls hmem).1
  obtain ⟨hsequential, hserves⟩ := sequential_of_serves (ht.serves (.spj i)) hcalls
  refine ⟨hsequential, ?_, ?_, told_of_plain fun call hcall => (mem_spjCalls hcall).2⟩
  · intro result hresult
    refine quiet_spjCalls hspj ht ?_ hserves
    intro hwait
    rw [hwait] at hresult
    cases hresult
  · intro _ k halive
    refine ⟨hserves k halive, ?_⟩
    by_contra hwait
    exact quiet_spjCalls hspj ht hwait hserves k halive

/-- Only the executor is alive. -/
structure Watches (t : Table JudgeChild) (i : ℕ) : Prop where
  alive : t (.executor i) = .alive
  serves : t.Serves (.executor i)

/-- What is told when the executor is killed after a wait, with a message or without one. -/
theorem told_kill (ht : Watches t i) {status : Option WaitStatus}
    (hexited : ∀ s, status = some s → ¬s.ifExited) :
    Told t ((.executor i, .wait status) :: killCalls i status) ∧
      (¬(∃ s, status = some s ∧ s.ifSignaled) →
        Told t [(.executor i, .wait status), (.executor i, .kill)]) := by
  have hlogged : acts ((.executor i, .wait status) :: killCalls i status) =
      [(.executor i, (ChildCall.wait status).act), (.executor i, .tell), (.executor i, .kill)] :=
    rfl
  have hsilent : acts [(.executor i, .wait status), (.executor i, .kill)] =
      [(.executor i, (ChildCall.wait status).act), (.executor i, .kill)] := rfl
  by_cases hsignaled : ∃ s, status = some s ∧ s.ifSignaled
  · obtain ⟨s, rfl, hsignaled⟩ := hsignaled
    have hreap : (ChildCall.wait (some s)).act = .reap := if_pos (Or.inr hsignaled)
    rw [hreap] at hlogged
    refine ⟨⟨iff_of_true ?_ ⟨i, s, List.mem_cons_self, hsignaled⟩, iff_of_false ?_ ?_⟩,
      fun hnot => (hnot ⟨s, rfl, hsignaled⟩).elim⟩
    · simp [hlogged, Stray, somewhere_cons_iff, Status.after]
    · simp [hlogged, Abandons, somewhere_cons_iff, Status.after]
    · rintro ⟨j, status, hmem, hlives⟩
      simp only [killCalls, List.mem_cons, Prod.mk.injEq, ChildCall.log.injEq, List.not_mem_nil,
        reduceCtorEq, and_false, or_false, false_or] at hmem
      exact (hlives s hmem.2).2 hsignaled
  · have hlook : (ChildCall.wait status).act = .look := by
      cases status with
      | none => rfl
      | some s =>
          exact if_neg (not_or.mpr ⟨hexited s rfl, fun hs => hsignaled ⟨s, rfl, hs⟩⟩)
    rw [hlook] at hlogged hsilent
    have hunsignaled : ∀ calls : ChildCalls,
        (∀ call ∈ calls, ∀ s, call.2 ≠ .wait (some s)) →
        ¬KilledBySignal ((.executor i, .wait status) :: calls) := by
      rintro calls hcalls ⟨j, s, hmem, hs⟩
      rcases List.mem_cons.mp hmem with heq | hmem
      · exact hsignaled ⟨s, (ChildCall.wait.inj (Prod.mk.inj heq).2).symm, hs⟩
      · exact hcalls _ hmem s rfl
    refine ⟨⟨iff_of_false ?_ (hunsignaled _ (by simp [killCalls])), iff_of_true ?_ ?_⟩,
      fun _ => ⟨iff_of_false ?_ (hunsignaled _ (by simp)), iff_of_false ?_ ?_⟩⟩
    · simp [hlogged, Stray, somewhere_cons_iff, ht.alive]
    · simp [hlogged, Abandons, somewhere_cons_iff, ht.alive]
    · refine ⟨i, status, by simp [killCalls], fun s hs => ⟨hexited s hs, ?_⟩⟩
      exact fun hs' => hsignaled ⟨s, hs, hs'⟩
    · simp [hsilent, Stray, somewhere_cons_iff, ht.alive]
    · simp [hsilent, Abandons, somewhere_cons_iff]
    · rintro ⟨j, s, hmem, -⟩
      simp at hmem

/-- The calls end the executor, and nothing else is called. -/
theorem orderly_kill {α : Type} (ht : Watches t i) {status : Option WaitStatus}
    {calls : ChildCalls} (hcalls : calls = killCalls i status ∨ calls = [(.executor i, .kill)])
    (htold : Told t ((.executor i, .wait status) :: calls)) (outcome : Outcome ExitReason α) :
    Orderly t ((.executor i, .wait status) :: calls) i c outcome := by
  have hchild : ∀ call ∈ acts ((.executor i, .wait status) :: calls), call.1 = .executor i := by
    rcases hcalls with rfl | rfl
    · simp [acts, killCalls]
    · simp [acts]
  obtain ⟨hsequential, hserves⟩ := sequential_of_serves ht.serves hchild
  have hquiet : (t.replay (acts ((.executor i, .wait status) :: calls))).Quiet := by
    have hkilled : ∀ before,
        t.replay (before ++ [(.executor i, .kill)]) (.executor i) ≠ .alive := by
      intro before
      rw [Table.replay_append, Table.replay_cons, Table.replay_nil, Table.step_self]
      exact Status.after_kill_ne_alive _
    refine hserves.quiet ?_
    rcases hcalls with rfl | rfl
    · exact hkilled [(.executor i, (ChildCall.wait status).act), (.executor i, .tell)]
    · exact hkilled [(.executor i, (ChildCall.wait status).act)]
  exact ⟨hsequential, fun _ _ => hquiet, fun _ k halive => (hquiet k halive).elim, htold⟩

/-- Calls after a wait that has not shown a death by a signal. -/
theorem Orderly.wait {α : Type} {outcome : Outcome ExitReason α} {calls : ChildCalls}
    {status : WaitStatus} (ht : t.Serves (.executor i)) (hsignaled : ¬status.ifSignaled)
    (h : Orderly (t.step (.executor i, (ChildCall.wait (some status)).act)) calls i c outcome) :
    Orderly t ((.executor i, .wait (some status)) :: calls) i c outcome where
  sequential := sequential_cons ht.atMostOne h.sequential
  quiet := h.quiet
  left := h.left
  told := Told.cons ⟨by simp, by simp, by rintro j s ⟨⟩; exact hsignaled⟩ h.told

theorem Orderly.congr {α β : Type} {outcome : Outcome ExitReason α}
    {outcome' : Outcome ExitReason β} {calls : ChildCalls} (h : Orderly t calls i c outcome)
    (hreturned : ∀ b, outcome' = .returned b → ∃ a, outcome = .returned a)
    (hblocked : outcome' ≠ .blocked → outcome ≠ .blocked) : Orderly t calls i c outcome' where
  sequential := h.sequential
  quiet := fun b hb => by
    obtain ⟨a, ha⟩ := hreturned b hb
    exact h.quiet a ha
  left := fun hne => h.left (hblocked hne)
  told := h.told

theorem Orderly.bind_returned {α β : Type} {outcome : Outcome ExitReason α} {calls : ChildCalls}
    (h : Orderly t calls i c outcome) (f : α → β) :
    Orderly t calls i c (outcome.bind fun a => .returned (f a)) := by
  refine h.congr ?_ ?_
  · intro b hb
    obtain ⟨a, ha, -⟩ := Outcome.bind_eq_returned_iff.mp hb
    exact ⟨a, ha⟩
  · intro hne hblocked
    rw [hblocked] at hne
    exact hne rfl

theorem ojCompareOutputSpj_ne_blocked (run : SpjRun) : ojCompareOutputSpj run ≠ .blocked := by
  cases run with
  | forkFailed => simp [ojCompareOutputSpj]
  | waitFailed => simp [ojCompareOutputSpj]
  | ended status => simp [ojCompareOutputSpj]

/-- Nothing is called from a table without live children. -/
theorem orderly_nil {α : Type} (ht : t.Quiet) (outcome : Outcome ExitReason α) :
    Orderly t [] i c outcome where
  sequential := sequential_nil (ht.serves (.executor i)).atMostOne
  quiet := fun _ _ => ht
  left := fun _ k halive => (ht k halive).elim
  told := told_nil

/-- The iteration in which the executor has exited. -/
theorem orderly_exited (hspj : c.SpjEnds) (ht : Watches t i) {r : Report} {p : Progress}
    (hexited : r.status.ifExited) :
    Orderly t ((.executor i, .wait (some r.status)) :: reportCalls sol c i r p) i c
      (exitBranch sol c r.status p) := by
  have hact : (ChildCall.wait (some r.status)).act = .reap := if_pos (Or.inl hexited)
  have hquiet : (t.step (.executor i, (ChildCall.wait (some r.status)).act)).Quiet := by
    refine (ht.serves.step _).quiet ?_
    rw [Table.step_self, hact]
    simp [Status.after]
  refine Orderly.wait ht.serves (fun hsignaled => hsignaled.1 hexited) ?_
  rw [reportCalls, if_pos hexited]
  split
  · next hnormal =>
      split
      · next hspecial =>
          refine (orderly_spjCalls hspj hquiet).congr ?_ fun _ => ojCompareOutputSpj_ne_blocked _
          intro q hq
          rw [exitBranch, if_pos hnormal, Outcome.bind_eq_returned_iff] at hq
          obtain ⟨result, hcompare, -⟩ := hq
          rw [compareCase, if_pos hspecial] at hcompare
          exact ⟨result, hcompare⟩
      · exact orderly_nil hquiet _
  · exact orderly_nil hquiet _

/-- No call follows those for an exit. -/
theorem waitCalls_cons_of_ifExited {r : Report} {rest : List (Option Report)} {p : Progress}
    (hexited : r.status.ifExited) :
    waitCalls sol c i (some r :: rest) p =
      (.executor i, .wait (some r.status)) :: reportCalls sol c i r p := by
  rw [waitCalls, onReport, if_pos hexited]
  cases exitBranch sol c r.status p with
  | returned q => simp only [Outcome.bind_returned, List.append_nil]
  | exited reason => simp only [Outcome.bind_exited, List.append_nil]
  | crashed => simp only [Outcome.bind_crashed, List.append_nil]
  | blocked => simp only [Outcome.bind_blocked, List.append_nil]

/-- A stop either lets the executor go on or kills it, with a message but for its memory. -/
theorem stopBranch_calls (sol : OjSolution) (i : ℕ) (r : Report) (p : Progress) :
    (∃ p', stopBranch sol r p = .returned (.again p') ∧ stopCalls sol i r p = []) ∨
      (∀ p', stopBranch sol r p ≠ .returned (.again p')) ∧
        (stopCalls sol i r p = killCalls i (some r.status) ∨
          stopCalls sol i r p = [(.executor i, .kill)]) := by
  unfold stopBranch stopCalls
  by_cases hmemory : max p.memoryUsage r.rusage.maxrss > sol.memoryLimit
  · rw [if_pos hmemory, if_pos hmemory]
    exact Or.inr ⟨by simp, Or.inr rfl⟩
  · rw [if_neg hmemory, if_neg hmemory]
    cases r.origRax with
    | none => exact Or.inr ⟨by simp, Or.inl rfl⟩
    | some origRax =>
        dsimp only
        split_ifs
        · exact Or.inr ⟨by simp, Or.inl rfl⟩
        · exact Or.inl ⟨_, rfl, rfl⟩
        · exact Or.inr ⟨by simp, Or.inl rfl⟩

/-! ## The wait loop -/

/-- The wait loop leaves no executor alive. -/
theorem orderly_waitCalls (hspj : c.SpjEnds) {reports : List (Option Report)} {p : Progress}
    (ht : Watches t i) :
    Orderly t (waitCalls sol c i reports p) i c (waitLoop sol c reports p) := by
  induction reports generalizing p with
  | nil =>
      exact
        { sequential := sequential_nil ht.serves.atMostOne
          quiet := fun _ h => by cases h
          left := fun h => (h rfl).elim
          told := told_nil }
  | cons report rest ih =>
      cases report with
      | none => exact orderly_kill ht (Or.inl rfl) (told_kill ht fun _ h => by cases h).1 _
      | some r =>
          by_cases hexited : r.status.ifExited
          · rw [waitCalls_cons_of_ifExited hexited, waitLoop_cons_of_ifExited hexited]
            exact (orderly_exited hspj ht hexited).bind_returned _
          · have hlives : ∀ s, some r.status = some s → ¬s.ifExited := by
              rintro s ⟨⟩
              exact hexited
            rw [waitCalls, waitLoop, onReport, if_neg hexited, reportCalls, if_neg hexited]
            cases hsignal : fatalSignal r.status with
            | some signo => exact orderly_kill ht (Or.inl rfl) (told_kill ht hlives).1 _
            | none =>
                dsimp only
                have hsignaled : ¬r.status.ifSignaled := by
                  intro hsignaled
                  rw [fatalSignal, if_pos hsignaled] at hsignal
                  cases hsignal
                rcases stopBranch_calls sol i r p with ⟨p', hagain, hcalls⟩ | ⟨hleaves, hcalls⟩
                · rw [hagain, hcalls]
                  refine Orderly.wait ht.serves hsignaled ?_
                  rw [ChildCall.act, if_neg (not_or.mpr ⟨hexited, hsignaled⟩), Table.step_look]
                  exact ih
                · have hnone : (match stopBranch sol r p with
                      | .returned (.again p') => waitCalls sol c i rest p'
                      | _ => []) = [] := by
                    split
                    · next p' hagain => exact (hleaves p' hagain).elim
                    · rfl
                  rw [hnone, List.append_nil]
                  refine orderly_kill ht hcalls ?_ _
                  rcases hcalls with hcalls | hcalls
                  · rw [hcalls]
                    exact (told_kill ht hlives).1
                  · rw [hcalls]
                    refine (told_kill ht hlives).2 ?_
                    rintro ⟨s, ⟨⟩, hs⟩
                    exact hsignaled hs

/-- A case is judged without leaving its executor alive. -/
theorem orderly_caseCalls (hspj : c.SpjEnds) (ht : t.Quiet) (p : Progress) :
    Orderly t (caseCalls sol c i p) i c (judge sol c p) := by
  rw [caseCalls, judge]
  split
  · have hwatches : Watches (t.step (.executor i, .fork)) i :=
      ⟨by simp [Status.after], (ht.serves _).step _⟩
    have hloop := @orderly_waitCalls sol c i _ hspj c.reports (startCase sol p) hwatches
    have hjudged : Orderly t ((.executor i, .fork) ::
        waitCalls sol c i c.reports (startCase sol p)) i c
        (waitLoop sol c c.reports (startCase sol p)) :=
      { sequential := sequential_cons (ht.serves (.executor i)).atMostOne hloop.sequential
        quiet := hloop.quiet
        left := hloop.left
        told := Told.cons ⟨by simp, by simp, by rintro j s ⟨⟩⟩ hloop.told }
    exact hjudged.bind_returned _
  · exact orderly_nil ht _

/-! ## The whole run -/

/-- The children are in order after the calls of a part of the run that ends so. -/
structure RunOrderly {α ε : Type} (t : Table JudgeChild) (calls : ChildCalls)
    (outcome : Outcome ε α) (Left : JudgeChild → Prop) : Prop where
  sequential : Sequential t (acts calls)
  left : outcome ≠ .blocked → ∀ k, t.replay (acts calls) k = .alive → Left k
  told : Told t calls

/-- A special judge whose end cannot be waited for, in the cases from number `i` on. -/
def LeftSpj (cases : List TestCase) (i : ℕ) (k : JudgeChild) : Prop :=
  ∃ d c, cases[d]? = some c ∧ k = .spj (i + d) ∧ c.spjRun = .waitFailed

theorem runOrderly_runCalls {cases : List TestCase} {f : ℕ} {p : Progress}
    (hspj : ∀ c ∈ cases, c.SpjEnds) (ht : t.Quiet) :
    RunOrderly t (runCalls sol cases i p) (runCases sol cases i f p) (LeftSpj cases i) := by
  induction cases generalizing i f p t with
  | nil =>
      exact
        { sequential := sequential_nil (ht.serves (.executor i)).atMostOne
          left := fun _ k halive => (ht k halive).elim
          told := told_nil }
  | cons c cases ih =>
      have hcase := @orderly_caseCalls sol c i t (hspj c List.mem_cons_self) ht p
      have hends : ∀ outcome : Outcome ExitReason (Progress × ℕ),
          (outcome ≠ .blocked → judge sol c p ≠ .blocked) →
          RunOrderly t (caseCalls sol c i p) outcome (LeftSpj (c :: cases) i) :=
        fun outcome hblocked =>
          { sequential := hcase.sequential
            left := fun hne k halive => by
              obtain ⟨rfl, hwait⟩ := hcase.left (hblocked hne) k halive
              exact ⟨0, c, rfl, rfl, hwait⟩
            told := hcase.told }
      rw [runCalls]
      cases hjudge : judge sol c p with
      | exited reason =>
          dsimp only
          rw [List.append_nil]
          exact hends _ fun _ => by simp [hjudge]
      | crashed =>
          dsimp only
          rw [List.append_nil]
          exact hends _ fun _ => by simp [hjudge]
      | blocked =>
          dsimp only
          rw [List.append_nil, runCases, hjudge, Outcome.bind_blocked]
          exact hends _ fun h => (h rfl).elim
      | returned judged =>
          obtain ⟨p', ok⟩ := judged
          dsimp only
          rw [runCases_cons_of_returned hjudge]
          split
          · have hrest := ih (i := i + 1) (f := noteFailure f i p'.result) (p := p')
              (fun c' hc' => hspj c' (List.mem_cons_of_mem _ hc')) (hcase.quiet _ hjudge)
            refine ⟨?_, ?_, ?_⟩
            · rw [acts_append]
              exact hcase.sequential.append hrest.sequential
            · intro hne k halive
              rw [acts_append, Table.replay_append] at halive
              obtain ⟨d, c', hc', rfl, hwait⟩ := hrest.left hne k halive
              exact ⟨d + 1, c', hc', by rw [Nat.add_right_comm, Nat.add_assoc], hwait⟩
            · exact hcase.told.append hrest.told
          · rw [List.append_nil]
            exact hends _ fun _ => by simp [hjudge]

/-- A compiler that cannot be waited for, or was only stopped. -/
def LeavesCompiler (run : CompilerRun) : Prop :=
  run.forks = true ∧ ∀ status, run.waited = some status → ¬(status.ifExited ∨ status.ifSignaled)

theorem runOrderly_compileCalls {α ε : Type} (run : CompilerRun) (outcome : Outcome ε α) :
    RunOrderly Table.start (compileCalls run) outcome
      fun k => k = .compiler ∧ LeavesCompiler run := by
  have hchildren : ∀ call ∈ compileCalls run, call.1 = .compiler ∧ Plain call := by
    intro call hcall
    unfold compileCalls at hcall
    split at hcall
    · cases hcall
    · simp only [List.mem_cons, List.not_mem_nil, or_false] at hcall
      rcases hcall with rfl | rfl
      · exact ⟨rfl, by simp, by simp, by simp⟩
      · exact ⟨rfl, by simp, by simp, by simp⟩
  have hacts : ∀ act ∈ acts (compileCalls run), act.1 = JudgeChild.compiler := by
    intro act hact
    obtain ⟨call, hcall, rfl⟩ := List.mem_map.mp hact
    exact (hchildren call hcall).1
  have hstart := Table.quiet_start.serves JudgeChild.compiler
  obtain ⟨hsequential, hserves⟩ := sequential_of_serves hstart hacts
  refine ⟨hsequential, ?_, told_of_plain fun call hcall => (hchildren call hcall).2⟩
  · intro _ k halive
    obtain rfl := hserves k halive
    refine ⟨rfl, ?_⟩
    unfold compileCalls at halive
    split at halive
    · cases halive
    · next hforks =>
        refine ⟨by simpa using hforks, fun status hstatus hended => ?_⟩
        simp [acts, hstatus, ChildCall.act, if_pos hended, Status.after] at halive

theorem compile_eq_returned {lang : Lang} {run : CompilerRun}
    (h : compile lang run = .returned ()) : ¬LeavesCompiler run := by
  rintro ⟨-, hleft⟩
  unfold compile at h
  split at h
  · cases h
  · split at h
    · cases h
    · next status hstatus =>
        split_ifs at h with _ hexited
        exact hleft status hstatus (Or.inl hexited)

/-- In every run of the judge at most one child is alive at any moment, also when the alarm
or the logger ends the run there.  When the judge leaves otherwise, no executor is alive: only
a compiler that was stopped, and a compiler or a special judge that cannot be waited for, are
left behind.  A process that is gone is sent a signal exactly if a signal has killed an
executor, and the logger can leave a live executor behind exactly if it has a message about one
that has stopped or cannot be waited for. -/
theorem no_executor_left (env : JudgeEnv) (hspj : ∀ n, (env.cases n).SpjEnds) :
    Sequential Table.start (acts (mainCalls env)) ∧
    (main env ≠ .blocked → ∀ k, Table.start.replay (acts (mainCalls env)) k = .alive →
      k = .compiler ∧ LeavesCompiler env.compiler ∨
        ∃ i, k = .spj i ∧ (env.cases i).spjRun = .waitFailed) ∧
    (Stray Table.start (acts (mainCalls env)) ↔ KilledBySignal (mainCalls env)) ∧
    (Abandons Table.start (acts (mainCalls env)) ↔ LogsLive (mainCalls env)) := by
  have hcompile := runOrderly_compileCalls env.compiler (main env)
  have hnone : RunOrderly Table.start [] (main env)
      fun k => k = .compiler ∧ LeavesCompiler env.compiler :=
    { sequential := sequential_nil (Table.quiet_start.serves .compiler).atMostOne
      left := fun _ k halive => (Table.quiet_start k halive).elim
      told := told_nil }
  have hearly : ∀ calls, RunOrderly Table.start calls (main env)
        (fun k => k = .compiler ∧ LeavesCompiler env.compiler) →
      RunOrderly Table.start calls (main env) fun k =>
        k = .compiler ∧ LeavesCompiler env.compiler ∨
          ∃ i, k = .spj i ∧ (env.cases i).spjRun = .waitFailed :=
    fun calls h => ⟨h.sequential, fun hne k halive => Or.inl (h.left hne k halive), h.told⟩
  suffices h : RunOrderly Table.start (mainCalls env) (main env) fun k =>
      k = .compiler ∧ LeavesCompiler env.compiler ∨
        ∃ i, k = .spj i ∧ (env.cases i).spjRun = .waitFailed from
    ⟨h.sequential, h.left, h.told.stray, h.told.abandons⟩
  unfold mainCalls
  split
  · cases hprepare : prepare env with
    | exited e =>
        dsimp only
        rw [List.append_nil]
        exact hearly _ hcompile
    | crashed =>
        dsimp only
        rw [List.append_nil]
        exact hearly _ hcompile
    | blocked =>
        dsimp only
        rw [List.append_nil]
        exact hearly _ hcompile
    | returned sol =>
        dsimp only
        obtain ⟨armed, -, hcompiled, -⟩ := prepare_eq_returned hprepare
        have hquiet : (Table.start.replay (acts (compileCalls env.compiler))).Quiet :=
          fun k halive => compile_eq_returned hcompiled
            ((runOrderly_compileCalls env.compiler (.returned () : Outcome Exit Unit)).left
              (by simp) k halive).2
        have hcases : ∀ c ∈ foundCases env sol, c.SpjEnds := by
          intro c hc
          obtain ⟨n, -, rfl⟩ := List.mem_map.mp hc
          exact hspj n
        have hrun := @runOrderly_runCalls sol 0 _ _ 0 .start hcases hquiet
        refine ⟨?_, ?_, ?_⟩
        · rw [acts_append]
          exact hcompile.sequential.append hrun.sequential
        · intro hne k halive
          rw [acts_append, Table.replay_append] at halive
          have hloop : runCases sol (foundCases env sol) 0 0 .start ≠ .blocked := by
            intro hblocked
            rw [main, hprepare, Outcome.bind_returned, runSolution, hblocked] at hne
            exact hne rfl
          obtain ⟨d, c, hc, rfl, hwait⟩ := hrun.left hloop k halive
          rw [foundCases, List.getElem?_map, Option.map_eq_some_iff] at hc
          obtain ⟨n, hn, rfl⟩ := hc
          obtain ⟨_, rfl⟩ := List.getElem?_eq_some_iff.mp hn
          rw [List.getElem_range] at hwait
          exact Or.inr ⟨d, by rw [Nat.zero_add], hwait⟩
        · exact hcompile.told.append hrun.told
  · exact hearly _ hnone

/-- An executor that a signal has killed. -/
def crashedCase : TestCase :=
  { TestCase.quiet [] [] with reports := [some (.idle (.ofKill sigSegv false))] }

def crashedEnv : JudgeEnv :=
  { acceptingEnv cpp11Arguments .oneCase with cases := fun _ => crashedCase }

theorem no_executor_left_crashed :
    main crashedEnv = .returned ⟨.re, 0, 0, 1⟩ ∧
    (∀ k, Table.start.replay (acts (mainCalls crashedEnv)) k ≠ .alive) ∧
    Stray Table.start (acts (mainCalls crashedEnv)) ∧
    ¬Abandons Table.start (acts (mainCalls crashedEnv)) := by
  have hmain : main crashedEnv = .returned ⟨.re, 0, 0, 1⟩ := by decide +kernel
  have hcalls : mainCalls crashedEnv =
      [(.compiler, .fork), (.compiler, .wait (some (.ofExit 0))), (.executor 0, .fork),
        (.executor 0, .wait (some (.ofKill sigSegv false))),
        (.executor 0, .log (some (.ofKill sigSegv false))), (.executor 0, .kill)] := by
    decide +kernel
  have hsignaled : (WaitStatus.ofKill sigSegv false).ifSignaled :=
    WaitStatus.ifSignaled_ofKill false (by decide) (by decide)
  obtain ⟨-, hleft, hstray, habandons⟩ := no_executor_left crashedEnv fun n status h => by cases h
  refine ⟨hmain, ?_, ?_, ?_⟩
  · intro k halive
    rcases hleft (by rw [hmain]; simp) k halive with ⟨-, -, hcompiler⟩ | ⟨i, -, hwait⟩
    · exact hcompiler _ rfl (Or.inl (WaitStatus.ifExited_ofExit 0))
    · cases hwait
  · exact hstray.mpr ⟨0, .ofKill sigSegv false, by simp [hcalls], hsignaled⟩
  · rw [habandons]
    rintro ⟨i, status, hmem, hlives⟩
    simp only [hcalls, List.mem_cons, Prod.mk.injEq, ChildCall.log.injEq, List.not_mem_nil,
      reduceCtorEq, and_false, or_false, false_or] at hmem
    exact (hlives _ hmem.2).2 hsignaled

/-- The executor has called `fork`, which C++11 programs may not. -/
def forkingCase : TestCase :=
  { TestCase.quiet [] [] with
    reports := [some { Report.idle (.ofStop sigTrap) with origRax := some 57 }] }

/-- The message about it comes before the executor is killed. -/
example : mainCalls { crashedEnv with cases := fun _ => forkingCase } =
    [(.compiler, .fork), (.compiler, .wait (some (.ofExit 0))), (.executor 0, .fork),
      (.executor 0, .wait (some (.ofStop sigTrap))),
      (.executor 0, .log (some (.ofStop sigTrap))), (.executor 0, .kill)] := by
  decide +kernel

end PowerJudge
