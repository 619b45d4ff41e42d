import PowerJudge.Judged.Daemon
import PowerJudge.Support.Tally

/-!
# Where a job is

As long as no `execl` fails the daemon stays the only process that works on its
queue, and every accepted job is at exactly one stage between the queue and the
report.
-/

namespace PowerJudge

variable {config : Config} {s s' : State}

/-- The stages of a job. -/
inductive Stage where
  /-- Not accepted yet. -/
  | fresh
  | queued
  /-- In the `run` of this worker of the daemon. -/
  | held (worker : ℕ)
  /-- In the `SendQueue`. -/
  | sent
  | sending
  | posted
  deriving DecidableEq, Repr

/-- A worker has taken the job. -/
def Stage.IsTaken : Stage → Prop
  | .fresh => False
  | .queued => False
  | _ => True

/-- A worker has pushed the job on the `SendQueue`. -/
def Stage.IsPushed : Stage → Prop
  | .sent => True
  | .sending => True
  | .posted => True
  | _ => False

instance : DecidablePred Stage.IsTaken
  | .fresh | .queued => isFalse id
  | .held _ | .sent | .sending | .posted => isTrue trivial

instance : DecidablePred Stage.IsPushed
  | .fresh | .queued | .held _ => isFalse id
  | .sent | .sending | .posted => isTrue trivial

/-- The queues, the threads and the records agree with the stages of the jobs. -/
structure Accounted (s : State) (stage : ℕ → Stage) : Prop where
  alone : s.processCount = 1
  noCopy : ∀ c p, (s.child c).phase ≠ .copy p
  strayIdle : ∀ t : Thread, t.process ≠ 0 → s.phase t = .idle
  fresh_iff : ∀ job, stage job = .fresh ↔ s.requests.length ≤ job
  queued : Tallies (s.processQueue 0) stage (· = .queued)
  held_iff : ∀ t : Thread, t.process = 0 → ∀ job,
    (s.phase t).job? = some job ↔ stage job = .held t.worker
  sent : Tallies ((s.sendQueue 0).map Prod.snd) stage (· = .sent)
  sending_iff : ∀ job, s.sender.job? = some job ↔ stage job = .sending
  posted : Tallies (s.posted.map Prod.fst) stage (· = .posted)
  taken : Tallies (s.taken.map Prod.snd) stage Stage.IsTaken
  takenDaemon : ∀ x ∈ s.taken, x.1.process = 0
  taker : ∀ t job, (s.phase t).job? = some job → (t, job) ∈ s.taken
  pushed : Tallies s.pushes stage Stage.IsPushed

theorem accounted_start (file : Bytes → ResultTxt) :
    Accounted (.start file) fun _ => .fresh where
  alone := rfl
  noCopy := by simp [State.start]
  strayIdle := by simp [State.start]
  fresh_iff := by simp [State.start]
  queued := .nil (by simp)
  held_iff := by simp [State.start, WorkerPhase.job?]
  sent := .nil (by simp)
  sending_iff := by simp [State.start, SenderPhase.job?]
  posted := .nil (by simp)
  taken := .nil (by simp [Stage.IsTaken])
  takenDaemon := by simp [State.start]
  taker := by simp [State.start, WorkerPhase.job?]
  pushed := .nil (by simp [Stage.IsPushed])

/-! ## Steps within a stage -/

/-- The two states have the same jobs at the same places. -/
structure SamePlaces (s s' : State) : Prop where
  requests : s'.requests = s.requests
  processCount : s'.processCount = s.processCount
  processQueue : s'.processQueue 0 = s.processQueue 0
  sendQueue : s'.sendQueue 0 = s.sendQueue 0
  sender : s'.sender.job? = s.sender.job?
  taken : s'.taken = s.taken
  pushes : s'.pushes = s.pushes
  posted : s'.posted = s.posted
  job : ∀ t, (s'.phase t).job? = (s.phase t).job?

theorem Accounted.of_samePlaces {stage : ℕ → Stage} (h : Accounted s stage)
    (hsame : SamePlaces s s') (hcopy : ∀ c p, (s'.child c).phase ≠ .copy p)
    (hstray : ∀ t : Thread, t.process ≠ 0 → s'.phase t = .idle) :
    Accounted s' stage where
  alone := hsame.processCount.trans h.alone
  noCopy := hcopy
  strayIdle := hstray
  fresh_iff := by
    rw [hsame.requests]
    exact h.fresh_iff
  queued := by
    rw [hsame.processQueue]
    exact h.queued
  held_iff := by
    intro t ht job
    rw [hsame.job]
    exact h.held_iff t ht job
  sent := by
    rw [hsame.sendQueue]
    exact h.sent
  sending_iff := by
    rw [hsame.sender]
    exact h.sending_iff
  posted := by
    rw [hsame.posted]
    exact h.posted
  taken := by
    rw [hsame.taken]
    exact h.taken
  takenDaemon := by
    rw [hsame.taken]
    exact h.takenDaemon
  taker := by
    intro t job hjob
    rw [hsame.taken]
    rw [hsame.job] at hjob
    exact h.taker t job hjob
  pushed := by
    rw [hsame.pushes]
    exact h.pushed

theorem job?_update {phase : Thread → WorkerPhase} {t : Thread} {next : WorkerPhase}
    (h : next.job? = (phase t).job?) (t' : Thread) :
    (Function.update phase t next t').job? = (phase t').job? := by
  by_cases ht : t' = t
  · rw [ht, Function.update_self, h]
  · rw [Function.update_of_ne ht]

/-- Only threads of the daemon leave the idle phase. -/
theorem Accounted.process_eq_zero {stage : ℕ → Stage} (h : Accounted s stage) {t : Thread}
    (ht : s.phase t ≠ .idle) : t.process = 0 := by
  by_contra hne
  exact ht (h.strayIdle t hne)

theorem Accounted.process_of_runs {stage : ℕ → Stage} (h : Accounted s stage) {t : Thread}
    (hruns : Runs config s t) : t.process = 0 := by
  by_contra hne
  unfold Runs at hruns
  rw [if_neg hne, h.alone] at hruns
  omega

theorem Accounted.process_of_job {stage : ℕ → Stage} (h : Accounted s stage) {t : Thread}
    {job : ℕ} (hjob : (s.phase t).job? = some job) : t.process = 0 := by
  apply h.process_eq_zero
  intro hidle
  simp [hidle, WorkerPhase.job?] at hjob

/-- Two threads are not in the `run` of one job. -/
theorem Accounted.thread_unique {stage : ℕ → Stage} (h : Accounted s stage) {t t' : Thread}
    {job : ℕ} (hjob : (s.phase t).job? = some job) (hjob' : (s.phase t').job? = some job) :
    t = t' := by
  have ht : t.process = 0 := h.process_of_job hjob
  have ht' : t'.process = 0 := h.process_of_job hjob'
  have hstage := (h.held_iff t ht job).mp hjob
  have hstage' := (h.held_iff t' ht' job).mp hjob'
  have hworker : t.worker = t'.worker := Stage.held.inj (hstage.symm.trans hstage')
  exact Thread.ext (ht.trans ht'.symm) hworker

theorem strayIdle_update {phase : Thread → WorkerPhase} {t : Thread} {next : WorkerPhase}
    (hphase : ∀ t : Thread, t.process ≠ 0 → phase t = .idle) (ht : t.process = 0)
    (t' : Thread) (ht' : t'.process ≠ 0) : Function.update phase t next t' = .idle := by
  have hne : t' ≠ t := fun heq => ht' (heq ▸ ht)
  rw [Function.update_of_ne hne]
  exact hphase t' ht'

theorem noCopy_setChild (h : ∀ c p, (s.child c).phase ≠ .copy p) {c : ℕ} {phase : ChildPhase}
    (hphase : ∀ p, phase ≠ .copy p) (c' p : ℕ) : (s.setChild c phase c').phase ≠ .copy p := by
  unfold State.setChild
  by_cases hc : c' = c
  · rw [hc, Function.update_self]
    exact hphase p
  · rw [Function.update_of_ne hc]
    exact h c' p

theorem endThread_of_noCopy (h : ∀ c p, (s.child c).phase ≠ .copy p) (c : ℕ) :
    s.endThread c = s.phase := by
  unfold State.endThread
  split
  · next p hphase => exact (h c p hphase).elim
  · rfl

/-! ## Steps to another stage -/

/-- The threads of the daemon after one of them has changed its job. -/
theorem held_iff_update {phase : Thread → WorkerPhase} {stage : ℕ → Stage} {t : Thread}
    {next : WorkerPhase} {job : ℕ} {b : Stage}
    (hheld : ∀ t : Thread, t.process = 0 → ∀ job,
      (phase t).job? = some job ↔ stage job = .held t.worker)
    (hother : ∀ w, stage job = .held w → w = t.worker)
    (hnext : ∀ j, next.job? = some j ↔ Function.update stage job b j = .held t.worker)
    (hb : ∀ w, b = .held w → w = t.worker) (ht : t.process = 0)
    (t' : Thread) (ht' : t'.process = 0) (j : ℕ) :
    (Function.update phase t next t').job? = some j ↔
      Function.update stage job b j = .held t'.worker := by
  by_cases hthread : t' = t
  · rw [hthread, Function.update_self]
    exact hnext j
  · have hworker : t'.worker ≠ t.worker := fun heq =>
      hthread (Thread.ext (ht'.trans ht.symm) heq)
    rw [Function.update_of_ne hthread, hheld t' ht' j]
    by_cases hj : j = job
    · subst hj
      rw [Function.update_self]
      exact iff_of_false (fun h => hworker (hother _ h)) (fun h => hworker (hb _ h))
    · rw [Function.update_of_ne hj]

theorem Accounted.fresh_iff_update {stage : ℕ → Stage} (h : Accounted s stage) {job : ℕ}
    {b : Stage} (hjob : stage job ≠ .fresh) (hb : b ≠ .fresh) (j : ℕ) :
    Function.update stage job b j = .fresh ↔ s.requests.length ≤ j :=
  (iff_relabel (p := (· = Stage.fresh)) (fun j => (h.fresh_iff j).symm)
    (iff_of_false hb hjob) j).symm

theorem Accounted.accept {stage : ℕ → Stage} (h : Accounted s stage) (request : Request) :
    Accounted { s with
        requests := s.requests ++ [request]
        processQueue := Function.update s.processQueue 0
          (s.processQueue 0 ++ [s.requests.length]) }
      (Function.update stage s.requests.length .queued) := by
  have hfresh : stage s.requests.length = .fresh := (h.fresh_iff _).mpr (Nat.le_refl _)
  exact
    { alone := h.alone
      noCopy := h.noCopy
      strayIdle := h.strayIdle
      fresh_iff := by
        intro job
        rw [List.length_append, List.length_singleton]
        by_cases hjob : job = s.requests.length
        · subst hjob
          simp
        · rw [Function.update_of_ne hjob, h.fresh_iff job]
          omega
      queued := by
        simp only [Function.update_self]
        exact h.queued.concat (by simp [hfresh]) rfl
      held_iff := fun t ht job =>
        iff_relabel (p := (· = Stage.held t.worker)) (h.held_iff t ht) (by simp [hfresh]) job
      sent := h.sent.relabel (by simp [hfresh])
      sending_iff := iff_relabel (p := (· = Stage.sending)) h.sending_iff (by simp [hfresh])
      posted := h.posted.relabel (by simp [hfresh])
      taken := h.taken.relabel (by simp [hfresh, Stage.IsTaken])
      takenDaemon := h.takenDaemon
      taker := h.taker
      pushed := h.pushed.relabel (by simp [hfresh, Stage.IsPushed]) }

theorem Accounted.take {stage : ℕ → Stage} (h : Accounted s stage) {t : Thread} {job : ℕ}
    {rest : List ℕ} (ht : t.process = 0) (hidle : s.phase t = .idle)
    (hqueue : s.processQueue t.process = job :: rest) :
    Accounted { s with
        processQueue := Function.update s.processQueue t.process rest
        phase := Function.update s.phase t (.holding job)
        taken := s.taken ++ [(t, job)] }
      (Function.update stage job (.held t.worker)) := by
  rw [ht] at hqueue
  have hqueued := h.queued
  rw [hqueue] at hqueued
  have hjob : stage job = .queued := hqueued.head
  have hnone : ∀ j, stage j ≠ .held t.worker := by
    intro j hj
    have hheld := (h.held_iff t ht j).mpr hj
    simp [hidle, WorkerPhase.job?] at hheld
  exact
    { alone := h.alone
      noCopy := h.noCopy
      strayIdle := strayIdle_update h.strayIdle ht
      fresh_iff := h.fresh_iff_update (by simp [hjob]) (by simp)
      queued := by
        simp only [ht, Function.update_self]
        exact hqueued.tail (by simp)
      held_iff := by
        refine held_iff_update h.held_iff (by simp [hjob]) ?_ (by simp) ht
        intro j
        by_cases hj : j = job
        · simp [hj, WorkerPhase.job?]
        · rw [Function.update_of_ne hj]
          refine iff_of_false ?_ (hnone j)
          simpa [WorkerPhase.job?] using Ne.symm hj
      sent := h.sent.relabel (by simp [hjob])
      sending_iff := iff_relabel (p := (· = Stage.sending)) h.sending_iff (by simp [hjob])
      posted := h.posted.relabel (by simp [hjob])
      taken := by
        rw [List.map_append]
        exact h.taken.concat (by simp [hjob, Stage.IsTaken]) (by simp [Stage.IsTaken])
      takenDaemon := by
        intro x hx
        rcases List.mem_append.mp hx with hx | hx
        · exact h.takenDaemon x hx
        · rw [List.mem_singleton.mp hx]
          exact ht
      taker := by
        intro t' j hj
        by_cases hthread : t' = t
        · subst hthread
          obtain rfl : job = j := by simpa [WorkerPhase.job?] using hj
          simp
        · simp only [Function.update_of_ne hthread] at hj
          exact List.mem_append_left _ (h.taker t' j hj)
      pushed := h.pushed.relabel (by simp [hjob, Stage.IsPushed]) }

theorem Accounted.push {stage : ℕ → Stage} (h : Accounted s stage) {t : Thread}
    {job code : ℕ} (hphase : s.phase t = .pushing job code) :
    Accounted { s with
        sendQueue := Function.update s.sendQueue t.process
          (s.sendQueue t.process ++ [(code, job)])
        phase := Function.update s.phase t .idle
        pushes := if t.process = 0 then s.pushes ++ [job] else s.pushes }
      (Function.update stage job .sent) := by
  have ht : t.process = 0 := h.process_eq_zero (by simp [hphase])
  have hjob : stage job = .held t.worker :=
    (h.held_iff t ht job).mp (by simp [hphase, WorkerPhase.job?])
  have honly : ∀ j, stage j = .held t.worker → j = job := by
    intro j hj
    have hheld := (h.held_iff t ht j).mpr hj
    simpa [hphase, WorkerPhase.job?, eq_comm] using hheld
  exact
    { alone := h.alone
      noCopy := h.noCopy
      strayIdle := strayIdle_update h.strayIdle ht
      fresh_iff := h.fresh_iff_update (by simp [hjob]) (by simp)
      queued := h.queued.relabel (by simp [hjob])
      held_iff := by
        refine held_iff_update h.held_iff (by simp [hjob]) ?_ (by simp) ht
        intro j
        by_cases hj : j = job
        · simp [hj, WorkerPhase.job?]
        · rw [Function.update_of_ne hj]
          exact iff_of_false (by simp [WorkerPhase.job?]) (fun hheld => hj (honly j hheld))
      sent := by
        simp only [ht, Function.update_self, List.map_append]
        exact h.sent.concat (by simp [hjob]) rfl
      sending_iff := iff_relabel (p := (· = Stage.sending)) h.sending_iff (by simp [hjob])
      posted := h.posted.relabel (by simp [hjob])
      taken := h.taken.relabel (by simp [hjob, Stage.IsTaken])
      takenDaemon := h.takenDaemon
      taker := by
        intro t' j hj
        by_cases hthread : t' = t
        · subst hthread
          simp [WorkerPhase.job?] at hj
        · simp only [Function.update_of_ne hthread] at hj
          exact h.taker t' j hj
      pushed := by
        simp only [ht, if_true]
        exact h.pushed.concat (by simp [hjob, Stage.IsPushed]) (by simp [Stage.IsPushed]) }

theorem Accounted.pop {stage : ℕ → Stage} (h : Accounted s stage) {code job : ℕ}
    {rest : List (ℕ × ℕ)} (hidle : s.sender = .idle)
    (hqueue : s.sendQueue 0 = (code, job) :: rest) :
    Accounted { s with
        sendQueue := Function.update s.sendQueue 0 rest
        sender := .sending code job }
      (Function.update stage job .sending) := by
  have hsent := h.sent
  rw [hqueue, List.map_cons] at hsent
  have hjob : stage job = .sent := hsent.head
  exact
    { alone := h.alone
      noCopy := h.noCopy
      strayIdle := h.strayIdle
      fresh_iff := h.fresh_iff_update (by simp [hjob]) (by simp)
      queued := h.queued.relabel (by simp [hjob])
      held_iff := fun t ht j =>
        iff_relabel (p := (· = Stage.held t.worker)) (h.held_iff t ht) (by simp [hjob]) j
      sent := by
        simp only [Function.update_self]
        exact hsent.tail (by simp)
      sending_iff := by
        intro j
        by_cases hj : j = job
        · subst hj
          simp [SenderPhase.job?]
        · rw [Function.update_of_ne hj, ← h.sending_iff j, hidle]
          simp [SenderPhase.job?, Ne.symm hj]
      posted := h.posted.relabel (by simp [hjob])
      taken := h.taken.relabel (by simp [hjob, Stage.IsTaken])
      takenDaemon := h.takenDaemon
      taker := h.taker
      pushed := h.pushed.relabel (by simp [hjob, Stage.IsPushed]) }

theorem Accounted.post {stage : ℕ → Stage} (h : Accounted s stage) {job : ℕ} {result : Posted}
    (hsender : s.sender = .reporting job result) :
    Accounted { s with
        sender := .idle
        posted := s.posted ++ [(job, result)] }
      (Function.update stage job .posted) := by
  have hjob : stage job = .sending := (h.sending_iff job).mp (by simp [hsender, SenderPhase.job?])
  exact
    { alone := h.alone
      noCopy := h.noCopy
      strayIdle := h.strayIdle
      fresh_iff := h.fresh_iff_update (by simp [hjob]) (by simp)
      queued := h.queued.relabel (by simp [hjob])
      held_iff := fun t ht j =>
        iff_relabel (p := (· = Stage.held t.worker)) (h.held_iff t ht) (by simp [hjob]) j
      sent := h.sent.relabel (by simp [hjob])
      sending_iff := by
        intro j
        by_cases hj : j = job
        · subst hj
          simp [SenderPhase.job?]
        · rw [Function.update_of_ne hj, ← h.sending_iff j, hsender]
          simp [SenderPhase.job?, Ne.symm hj]
      posted := by
        rw [List.map_append]
        exact h.posted.concat (by simp [hjob]) rfl
      taken := h.taken.relabel (by simp [hjob, Stage.IsTaken])
      takenDaemon := h.takenDaemon
      taker := h.taker
      pushed := h.pushed.relabel (by simp [hjob, Stage.IsPushed]) }

/-! ## Steps and runs -/

/-- The event is no failure of `execl`. -/
def ExecSucceeds : Event → Prop
  | .exec _ ok => ok = true
  | _ => True

instance : DecidablePred ExecSucceeds
  | .exec _ ok => inferInstanceAs (Decidable (ok = true))
  | .accept _ | .take _ | .fork _ _ | .truncate _ | .write _ _ | .finish _ _ | .wait _ _
  | .push _ | .pop | .read | .post _ => isTrue trivial

theorem SamePlaces.of_phase {t : Thread} {next : WorkerPhase}
    (h : next.job? = (s.phase t).job?) :
    SamePlaces s { s with phase := Function.update s.phase t next } :=
  ⟨rfl, rfl, rfl, rfl, rfl, rfl, rfl, rfl, job?_update h⟩

theorem SamePlaces.of_child (child : ℕ → Child) (file : Bytes → ResultTxt) :
    SamePlaces s { s with child := child, file := file } :=
  ⟨rfl, rfl, rfl, rfl, rfl, rfl, rfl, rfl, fun _ => rfl⟩

/-- A thread that goes on with its job stays at its place. -/
theorem Accounted.of_phase {stage : ℕ → Stage} (h : Accounted s stage) {t : Thread}
    {next : WorkerPhase} (ht : s.phase t ≠ .idle) (hjob : next.job? = (s.phase t).job?) :
    Accounted { s with phase := Function.update s.phase t next } stage :=
  h.of_samePlaces (.of_phase hjob) h.noCopy
    (strayIdle_update h.strayIdle (h.process_eq_zero ht))

/-- A child that does not become a copy leaves all jobs at their places. -/
theorem Accounted.of_child {stage : ℕ → Stage} (h : Accounted s stage) {c : ℕ}
    {phase : ChildPhase} (hphase : ∀ p, phase ≠ .copy p) (file : Bytes → ResultTxt) :
    Accounted { s with child := s.setChild c phase, file := file } stage :=
  h.of_samePlaces (.of_child _ _) (noCopy_setChild h.noCopy hphase) h.strayIdle

/-- The sender goes on with its job. -/
theorem Accounted.of_sender {stage : ℕ → Stage} (h : Accounted s stage) {next : SenderPhase}
    (hjob : next.job? = s.sender.job?) : Accounted { s with sender := next } stage :=
  h.of_samePlaces ⟨rfl, rfl, rfl, rfl, hjob, rfl, rfl, rfl, fun _ => rfl⟩ h.noCopy h.strayIdle

theorem accounted_step {stage : ℕ → Stage} {e : Event} (h : Accounted s stage)
    (hexec : ExecSucceeds e) (hstep : step config s e = some s') :
    ∃ stage', Accounted s' stage' := by
  cases steps_of_step hstep with
  | accept request => exact ⟨_, h.accept request⟩
  | @take t job rest hruns hidle hqueue =>
      exact ⟨_, h.take (h.process_of_runs hruns) hidle hqueue⟩
  | @fork t job hphase =>
      refine ⟨stage, ?_⟩
      have hnext : Accounted { s with
          phase := Function.update s.phase t (.waiting job s.childCount) } stage :=
        h.of_phase (by simp [hphase]) (by simp [hphase, WorkerPhase.job?])
      refine hnext.of_samePlaces ⟨rfl, rfl, rfl, rfl, rfl, rfl, rfl, rfl, fun _ => rfl⟩ ?_
        hnext.strayIdle
      intro c p
      by_cases hc : c = s.childCount
      · simp [hc]
      · simp only [Function.update_of_ne hc]
        exact h.noCopy c p
  | @forkFailed t job hphase =>
      exact ⟨stage, h.of_phase (by simp [hphase]) (by simp [hphase, WorkerPhase.job?])⟩
  | exec => exact ⟨stage, h.of_child (by simp) _⟩
  | execFailed => cases hexec
  | truncate => exact ⟨stage, h.of_child (by simp) _⟩
  | write => exact ⟨stage, h.of_child (by simp) _⟩
  | finish =>
      rw [endThread_of_noCopy h.noCopy]
      exact ⟨stage, h.of_child (by simp) _⟩
  | @wait t job c outcome waited hphase _ =>
      exact ⟨stage, h.of_phase (by simp [hphase]) (by simp [hphase, WorkerPhase.job?])⟩
  | push hphase => exact ⟨_, h.push hphase⟩
  | pop hidle hqueue => exact ⟨_, h.pop hidle hqueue⟩
  | read hsender =>
      exact ⟨stage, h.of_sender (by simp [hsender, SenderPhase.job?])⟩
  | post hsender => exact ⟨_, h.post hsender⟩
  | postFailed hsender =>
      exact ⟨stage, h.of_sender (by simp [hsender, SenderPhase.job?])⟩

/-- Every run without a failure of `execl` keeps account of its jobs. -/
theorem accounted_run {file : Bytes → ResultTxt} {events : List Event}
    (hexec : Transition.Meets (step config) (fun _ e => ExecSucceeds e) (.start file) events)
    (hrun : Transition.runAll (step config) (.start file) events = some s) :
    ∃ stage, Accounted s stage := by
  have hstep : ∀ s e t, (∃ stage, Accounted s stage) → ExecSucceeds e →
      step config s e = some t → ∃ stage, Accounted t stage := by
    rintro s e t ⟨stage, hs⟩ he hstep
    exact accounted_step hs he hstep
  exact Transition.runAll_invariant hstep ⟨_, accounted_start file⟩ hexec hrun

end PowerJudge
