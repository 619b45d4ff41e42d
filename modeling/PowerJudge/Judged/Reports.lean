import PowerJudge.Judged.Runs

/-!
# One report for each request

When no `execl` fails and every `waitpid` returns for a judge that has ended, every
accepted request is taken by one worker of the daemon and pushed once on its
`SendQueue`, after the end of its judge.  After a failed `execl` the child works on its
copy of the queue, and the request it was made for is never reported; a `waitpid` that
returns for a stopped judge lets the request be pushed while its judge lives.
-/

namespace PowerJudge

variable {config : Config} {s s' : State}

/-- `waitpid` returns although the judge has not ended. -/
def Event.isEarlyReturn : Event → Bool
  | .wait _ .failed => true
  | .wait _ (.stopped _) => true
  | _ => false

/-- No `execl` fails, and `waitpid` returns only for a child that has ended. -/
def AwaitsEnd (e : Event) : Prop := ExecSucceeds e ∧ e.isEarlyReturn = false

instance : DecidablePred AwaitsEnd := fun e =>
  inferInstanceAs (Decidable (ExecSucceeds e ∧ e.isEarlyReturn = false))

/-- Some thread is in the `run` of the job. -/
def Held (s : State) (job : ℕ) : Prop := ∃ t, (s.phase t).job? = some job

/-- Every judge that has been made for the job has ended. -/
def Settled (s : State) (job : ℕ) : Prop :=
  ∀ c, IsRunOf s c job → (s.child c).phase.endStatus ≠ none

/-- The worker can push the job, at once or when its `waitpid` has returned. -/
def CanPush (config : Config) (s : State) (t : Thread) (job : ℕ) : Prop :=
  ∃ events s', (events = [.push t] ∨ events = [.wait t .ended, .push t]) ∧
    Transition.runAll (step config) s events = some s' ∧ s'.pushes.count job = 1

/-- Every accepted request is taken once and pushed once, by the daemon alone. -/
structure ReportsOnce (config : Config) (s : State) : Prop where
  /-- No process but the daemon takes requests. -/
  daemonTakes : ∀ x ∈ s.taken, x.1.process = 0
  /-- An accepted request waits in the queue, or one worker has taken it. -/
  takenOnce : ∀ job < s.requests.length,
    (s.processQueue 0).count job + (s.taken.map Prod.snd).count job = 1
  /-- Nothing is pushed for a request before its `run` is over. -/
  pushedAfterRun : ∀ job < s.requests.length,
    job ∈ s.processQueue 0 ∨ Held s job → s.pushes.count job = 0
  /-- Nothing is pushed for a request before its judge has ended. -/
  pushedAfterEnd : ∀ job ∈ s.pushes, Settled s job
  /-- When its `run` is over, one item has been pushed. -/
  pushedOnce : ∀ job < s.requests.length,
    job ∉ s.processQueue 0 → ¬Held s job → s.pushes.count job = 1
  /-- An idle worker can take the first request of the queue. -/
  takes : ∀ t, Runs config s t → s.phase t = .idle → s.processQueue t.process ≠ [] →
    (step config s (.take t)).isSome
  /-- When the judge of a request has ended, one item has been pushed, or the worker that
  has taken the request can push it. -/
  reportsEnd : ∀ c job, IsRunOf s c job → (s.child c).phase.endStatus ≠ none →
    s.pushes.count job = 1 ∨ ∃ t, (s.phase t).job? = some job ∧ CanPush config s t job
  /-- The worker whose `fork` fails can push the request. -/
  reportsForkFailure : ∀ t job, s.phase t = .holding job →
    ∃ s', Transition.runAll (step config) s [.fork t false, .push t] = some s' ∧
      s'.pushes.count job = 1

/-! ## Nothing is pushed too early -/

/-- What has been pushed, or is about to be, belongs to a judge that has ended. -/
structure PushesEnded (s : State) : Prop where
  pushing : ∀ t job code, s.phase t = .pushing job code → Settled s job
  pushed : ∀ job ∈ s.pushes, Settled s job

theorem pushesEnded_start (file : Bytes → ResultTxt) : PushesEnded (.start file) where
  pushing := by simp [State.start]
  pushed := by simp [State.start]

theorem Settled.setChild {c job : ℕ} {next : ChildPhase} (h : Settled s job)
    (hend : (s.child c).phase.endStatus ≠ none → next.endStatus ≠ none)
    (file : Bytes → ResultTxt) :
    Settled { s with child := s.setChild c next, file := file } job := by
  intro c' hrun
  rw [isRunOf_setChild] at hrun
  by_cases hc : c' = c
  · subst hc
    simp only [State.setChild, Function.update_self]
    exact hend (h c' hrun)
  · simp only [State.setChild, Function.update_of_ne hc]
    exact h c' hrun

/-- A job that no thread is about to fork for stays settled. -/
theorem Settled.step {job : ℕ} {e : Event} (h : Settled s job)
    (hcopy : ∀ c p, (s.child c).phase ≠ .copy p) (hholding : ∀ t, s.phase t ≠ .holding job)
    (hexec : ExecSucceeds e) (hstep : step config s e = some s') : Settled s' job := by
  cases steps_of_step hstep with
  | accept | take | forkFailed | wait | push | pop | read | post | postFailed => exact h
  | @fork t job' hphase =>
      intro c hrun
      rcases isRunOf_fork.mp hrun with hrun | ⟨-, rfl⟩
      · simp only [Function.update_of_ne (Nat.ne_of_lt hrun.1)]
        exact h c hrun
      · exact (hholding t hphase).elim
  | exec _ hphase | truncate _ hphase | write _ hphase =>
      refine h.setChild ?_ _
      rw [hphase]
      exact fun hended => (hended rfl).elim
  | execFailed => cases hexec
  | finish =>
      rw [endThread_of_noCopy hcopy]
      exact h.setChild (fun _ => by simp [ChildPhase.endStatus]) _

/-- A `waitpid` that does not return early has found the child ended. -/
theorem endStatus_of_wait {t : Thread} {c : ℕ} {outcome : WaitOutcome}
    {waited : Option WaitStatus} (hawaits : AwaitsEnd (.wait t outcome))
    (hwait : waitpid (s.child c).phase.endStatus outcome = some waited) :
    (s.child c).phase.endStatus ≠ none := by
  cases outcome with
  | failed => cases hawaits.2
  | stopped => cases hawaits.2
  | ended =>
      intro hnone
      rw [hnone] at hwait
      cases hwait

/-- What a thread comes to push belongs to a judge that has ended. -/
theorem PushesEnded.pushing_step {stage : ℕ → Stage} {e : Event} (hs : Accounted s stage)
    (hone : OneRun s) (h : PushesEnded s) (hawaits : AwaitsEnd e)
    (hstep : step config s e = some s') {t : Thread} {job code : ℕ}
    (hnext : s'.phase t = .pushing job code) : Settled s' job := by
  have hkept : s.phase t = .pushing job code → Settled s' job := by
    intro hphase
    refine (h.pushing t job code hphase).step hs.noCopy ?_ hawaits.1 hstep
    intro t' hholding
    have hjob : (s.phase t).job? = some job := by rw [hphase]; rfl
    have hjob' : (s.phase t').job? = some job := by rw [hholding]; rfl
    rw [← hs.thread_unique hjob hjob', hphase] at hholding
    cases hholding
  cases steps_of_step hstep with
  | accept | exec | truncate | write | pop | read | post | postFailed => exact hkept hnext
  | take | fork | push => exact hkept (of_update_ne hnext nofun)
  | execFailed => cases hawaits.1
  | finish =>
      rw [endThread_of_noCopy hs.noCopy] at hkept hnext ⊢
      exact hkept hnext
  | forkFailed hholding =>
      rcases update_cases hnext with ⟨-, hnext⟩ | hphase
      · obtain ⟨rfl, -⟩ := WorkerPhase.pushing.inj hnext
        exact fun c hrun => (hone.unforked _ _ hholding c hrun).elim
      · exact hkept hphase
  | wait hwaiting hwait =>
      rcases update_cases hnext with ⟨-, hnext⟩ | hphase
      · obtain ⟨rfl, -⟩ := WorkerPhase.pushing.inj hnext
        intro c' hrun
        rw [hone.unique c' _ _ hrun (hone.waiting _ _ _ hwaiting)]
        exact endStatus_of_wait hawaits hwait
      · exact hkept hphase

theorem pushesEnded_step {stage : ℕ → Stage} {e : Event} (hs : Accounted s stage)
    (hone : OneRun s) (h : PushesEnded s) (hawaits : AwaitsEnd e)
    (hstep : step config s e = some s') : PushesEnded s' where
  pushing := fun _ _ _ hnext => h.pushing_step hs hone hawaits hstep hnext
  pushed := by
    have hkept : ∀ job ∈ s.pushes, Settled s' job := by
      intro job hjob
      refine (h.pushed job hjob).step hs.noCopy ?_ hawaits.1 hstep
      intro t hholding
      have hpushed := (hs.pushed.mem_iff job).mp hjob
      have hheld := (hs.held_iff t (hs.process_eq_zero (by simp [hholding])) job).mp
        (by rw [hholding]; rfl)
      rw [hheld] at hpushed
      exact hpushed
    cases steps_of_step hstep with
    | execFailed => cases hawaits.1
    | @push t job code hphase =>
        intro job' hjob
        have ht : t.process = 0 := hs.process_eq_zero (by simp [hphase])
        simp only [ht, if_true, List.mem_append, List.mem_singleton] at hjob
        rcases hjob with hjob | rfl
        · exact hkept job' hjob
        · exact h.pushing t job' code hphase
    | _ => exact hkept

/-! ## From the account to the reports -/

theorem Accounted.held_stage {stage : ℕ → Stage} (h : Accounted s stage) {job : ℕ} :
    Held s job ↔ ∃ w, stage job = .held w := by
  constructor
  · rintro ⟨t, hjob⟩
    have ht : t.process = 0 := h.process_of_job hjob
    exact ⟨t.worker, (h.held_iff t ht job).mp hjob⟩
  · rintro ⟨w, hw⟩
    exact ⟨⟨0, w⟩, (h.held_iff ⟨0, w⟩ rfl job).mpr hw⟩

theorem Accounted.takenOnce {stage : ℕ → Stage} (h : Accounted s stage) {job : ℕ}
    (hjob : job < s.requests.length) :
    (s.processQueue 0).count job + (s.taken.map Prod.snd).count job = 1 := by
  have hfresh : stage job ≠ .fresh := by
    rw [Ne, h.fresh_iff job]
    omega
  rw [h.queued job, h.taken job]
  cases hstage : stage job with
  | fresh => exact (hfresh hstage).elim
  | queued => simp [Stage.IsTaken]
  | held w => simp [Stage.IsTaken]
  | sent => simp [Stage.IsTaken]
  | sending => simp [Stage.IsTaken]
  | posted => simp [Stage.IsTaken]

theorem Accounted.pushes_of_held {stage : ℕ → Stage} (h : Accounted s stage) {t : Thread}
    {job : ℕ} (hjob : (s.phase t).job? = some job) : s.pushes.count job = 0 := by
  obtain ⟨w, hw⟩ := h.held_stage.mp ⟨t, hjob⟩
  exact h.pushed.count_eq_zero (by simp [hw, Stage.IsPushed])

/-- Pushing the job of a thread of the daemon. -/
theorem Accounted.exists_push {stage : ℕ → Stage} (h : Accounted s stage) {t : Thread}
    {job code : ℕ} (hphase : s.phase t = .pushing job code) :
    ∃ s', step config s (.push t) = some s' ∧ s'.pushes.count job = 1 := by
  have ht : t.process = 0 := h.process_eq_zero (by simp [hphase])
  have hjob : (s.phase t).job? = some job := by
    rw [hphase]
    rfl
  have hnone := h.pushes_of_held hjob
  simp only [step, hphase]
  refine ⟨_, rfl, ?_⟩
  simp [ht, hnone]

/-- A thread that gets to pushing its job can push it. -/
theorem Accounted.exists_push_next {stage : ℕ → Stage} (h : Accounted s stage) {t : Thread}
    {job : ℕ} (hjob : (s.phase t).job? = some job) (code : ℕ) :
    ∃ s', step config { s with phase := Function.update s.phase t (.pushing job code) }
        (.push t) = some s' ∧ s'.pushes.count job = 1 := by
  have hidle : s.phase t ≠ .idle := by
    intro hidle
    simp [hidle, WorkerPhase.job?] at hjob
  have hnext : Accounted
      { s with phase := Function.update s.phase t (.pushing job code) } stage :=
    h.of_phase hidle hjob.symm
  exact hnext.exists_push (Function.update_self t _ s.phase)

/-- When the judge of a job has ended, its worker waits for it or is about to push the
job, unless the job has been pushed. -/
theorem Accounted.reportsEnd {stage : ℕ → Stage} (h : Accounted s stage) (hone : OneRun s)
    {c job : ℕ} (hrun : IsRunOf s c job) (hended : (s.child c).phase.endStatus ≠ none) :
    s.pushes.count job = 1 ∨ ∃ t, (s.phase t).job? = some job ∧ CanPush config s t job := by
  have htaken := (h.taken.mem_iff job).mp (hone.forked c job hrun)
  by_cases hheld : Held s job
  · obtain ⟨t, hjob⟩ := hheld
    refine Or.inr ⟨t, hjob, ?_⟩
    cases hphase : s.phase t with
    | idle | gone =>
        rw [hphase] at hjob
        cases hjob
    | holding job' =>
        rw [hphase] at hjob
        obtain rfl : job' = job := Option.some.inj hjob
        exact (hone.unforked t job' hphase c hrun).elim
    | waiting job' c' =>
        have hnext : ∀ code, ∃ s', step config
            { s with phase := Function.update s.phase t (.pushing job code) } (.push t) =
              some s' ∧ s'.pushes.count job = 1 :=
          h.exists_push_next hjob
        rw [hphase] at hjob
        obtain rfl : job' = job := Option.some.inj hjob
        rw [hone.unique c c' job' hrun (hone.waiting t job' c' hphase)] at hended
        obtain ⟨status, hstatus⟩ := Option.ne_none_iff_exists'.mp hended
        obtain ⟨s', hpush, hcount⟩ := hnext (runPushes true (some status))
        refine ⟨_, s', Or.inr rfl, ?_, hcount⟩
        have hwait : step config s (.wait t .ended) = some { s with
            phase := Function.update s.phase t
              (.pushing job' (runPushes true (some status))) } := by
          simp [step, hphase, hstatus, waitpid]
        rw [Transition.runAll_cons_of_step hwait, Transition.runAll_cons_of_step hpush]
        rfl
    | pushing job' code =>
        rw [hphase] at hjob
        obtain rfl : job' = job := Option.some.inj hjob
        have hpush : ∃ s', step config s (.push t) = some s' ∧ s'.pushes.count job' = 1 :=
          h.exists_push hphase
        obtain ⟨s', hpush, hcount⟩ := hpush
        refine ⟨_, s', Or.inl rfl, ?_, hcount⟩
        rw [Transition.runAll_cons_of_step hpush]
        rfl
  · refine Or.inl (h.pushed.count_eq_one ?_)
    rw [h.held_stage] at hheld
    cases hstage : stage job with
    | fresh | queued =>
        rw [hstage] at htaken
        exact htaken.elim
    | held w => exact (hheld ⟨w, hstage⟩).elim
    | sent | sending | posted => trivial

theorem Accounted.reportsOnce {stage : ℕ → Stage} (h : Accounted s stage) (hone : OneRun s)
    (hended : PushesEnded s) : ReportsOnce config s where
  daemonTakes := h.takenDaemon
  takenOnce := fun _ hjob => h.takenOnce hjob
  pushedAfterRun := by
    rintro job - (hqueue | ⟨t, hjob⟩)
    · have hstage := (h.queued.mem_iff job).mp hqueue
      exact h.pushed.count_eq_zero (by simp [hstage, Stage.IsPushed])
    · exact h.pushes_of_held hjob
  pushedAfterEnd := hended.pushed
  pushedOnce := by
    intro job hjob hqueue hheld
    apply h.pushed.count_eq_one
    rw [h.queued.mem_iff job] at hqueue
    rw [h.held_stage] at hheld
    have hfresh : stage job ≠ .fresh := by
      rw [Ne, h.fresh_iff job]
      omega
    cases hstage : stage job with
    | fresh => exact (hfresh hstage).elim
    | queued => exact (hqueue hstage).elim
    | held w => exact (hheld ⟨w, hstage⟩).elim
    | sent => trivial
    | sending => trivial
    | posted => trivial
  takes := by
    intro t hruns hidle hqueue
    obtain ⟨job, rest, hcons⟩ := List.exists_cons_of_ne_nil hqueue
    simp [step, hruns, hidle, hcons]
  reportsEnd := fun _ _ hrun hended => h.reportsEnd hone hrun hended
  reportsForkFailure := by
    intro t job hphase
    obtain ⟨s', hpush, hcount⟩ := h.exists_push_next (t := t)
      (by rw [hphase]; rfl) (runPushes false none)
    refine ⟨s', ?_, hcount⟩
    have hfork : step config s (.fork t false) = some { s with
        phase := Function.update s.phase t (.pushing job (runPushes false none)) } := by
      simp [step, hphase]
    rw [Transition.runAll_cons_of_step hfork, Transition.runAll_cons_of_step hpush]
    rfl

/-! ## Runs -/

/-- In every state of a run in which no `execl` fails and no `waitpid` returns early,
every accepted request is reported once, after its judge has ended. -/
theorem reports_once (config : Config) (file : Bytes → ResultTxt) (events : List Event)
    (hawaits : Transition.Meets (step config) (fun _ e => AwaitsEnd e) (.start file) events)
    (s : State) (hrun : Transition.runAll (step config) (.start file) events = some s) :
    ReportsOnce config s ∧ Recorded events s := by
  have hstep : ∀ s e t, ((∃ stage, Accounted s stage) ∧ OneRun s ∧ PushesEnded s) →
      AwaitsEnd e → step config s e = some t →
      (∃ stage, Accounted t stage) ∧ OneRun t ∧ PushesEnded t := by
    rintro s e t ⟨⟨stage, hs⟩, hone, h⟩ hawaits hstep
    exact ⟨accounted_step hs hawaits.1 hstep, oneRun_step hs hone hawaits.1 hstep,
      pushesEnded_step hs hone h hawaits hstep⟩
  obtain ⟨⟨stage, hs⟩, hone, hended⟩ := Transition.runAll_invariant hstep
    ⟨⟨_, accounted_start file⟩, oneRun_start file, pushesEnded_start file⟩ hawaits hrun
  exact ⟨hs.reportsOnce hone hended, recorded_run hrun⟩

/-- A daemon with two workers. -/
def twoWorkers : Config := ⟨ascii "/tmp", ascii "/data", 2⟩

/-- A request to judge a submission in C11. -/
def c11Request (sid : String) : Request :=
  { sid := ascii sid
    cid := 0
    pid := ascii "1000"
    language := ascii "1"
    timeLimit := ascii "1000"
    memoryLimit := ascii "65536"
    token := ascii "token" }

/-- A request that is accepted, taken and judged. -/
theorem reports_once_single :
    ∃ s, Transition.runAll (step twoWorkers) (.start fun _ => none)
        [.accept (c11Request "1"), .take ⟨0, 1⟩, .fork ⟨0, 1⟩ true, .exec 0 true,
          .finish 0 (.ofExit 0), .wait ⟨0, 1⟩ .ended, .push ⟨0, 1⟩] = some s ∧
      s.pushes = [0] ∧ ReportsOnce twoWorkers s := by
  have hmeets : Transition.Meets (step twoWorkers) (fun _ e => AwaitsEnd e)
      (.start fun _ => none)
      [.accept (c11Request "1"), .take ⟨0, 1⟩, .fork ⟨0, 1⟩ true, .exec 0 true,
        .finish 0 (.ofExit 0), .wait ⟨0, 1⟩ .ended, .push ⟨0, 1⟩] := by
    decide
  exact ⟨_, rfl, rfl, (reports_once twoWorkers (fun _ => none) _ hmeets _ rfl).1⟩

/-- A judge that is stopped by a signal is pushed while it lives. -/
example :
    ∃ s, Transition.runAll (step twoWorkers) (.start fun _ => none)
        [.accept (c11Request "1"), .take ⟨0, 0⟩, .fork ⟨0, 0⟩ true, .exec 0 true,
          .wait ⟨0, 0⟩ (.stopped 19), .push ⟨0, 0⟩] = some s ∧
      s.pushes = [0] ∧ (s.child 0).phase = .judging .untouched :=
  ⟨_, rfl, rfl, rfl⟩

/-- After a failed `execl` the second request is taken twice, once by the child,
and the first one is not pushed. -/
theorem failed_execl_takes_again :
    ∃ s, Transition.runAll (step twoWorkers) (.start fun _ => none)
        [.accept (c11Request "1"), .accept (c11Request "2"), .take ⟨0, 0⟩,
          .fork ⟨0, 0⟩ true, .exec 0 false, .push ⟨1, 0⟩, .take ⟨1, 0⟩,
          .take ⟨0, 1⟩] = some s ∧
      s.taken = [(⟨0, 0⟩, 0), (⟨1, 0⟩, 1), (⟨0, 1⟩, 1)] ∧ s.pushes = [] ∧
      ¬ReportsOnce twoWorkers s := by
  refine ⟨_, rfl, rfl, rfl, ?_⟩
  intro h
  exact absurd (h.daemonTakes (⟨1, 0⟩, 1) (by decide)) (by decide)

end PowerJudge
