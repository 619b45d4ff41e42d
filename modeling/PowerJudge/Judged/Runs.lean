import PowerJudge.Judged.Accounting

/-!
# The judge of a job

As long as no `execl` fails a job has at most one judge process, and the worker that
has forked it waits for it.
-/

namespace PowerJudge

variable {config : Config} {s s' : State}

/-- The child has been made for the job. -/
def IsRunOf (s : State) (c job : ℕ) : Prop := c < s.childCount ∧ (s.child c).job = job

/-- A job has one judge, for which its worker waits. -/
structure OneRun (s : State) : Prop where
  unique : ∀ c c' job, IsRunOf s c job → IsRunOf s c' job → c = c'
  waiting : ∀ t job c, s.phase t = .waiting job c → IsRunOf s c job
  forked : ∀ c job, IsRunOf s c job → job ∈ s.taken.map Prod.snd
  unforked : ∀ t job, s.phase t = .holding job → ∀ c, ¬IsRunOf s c job

theorem oneRun_start (file : Bytes → ResultTxt) : OneRun (.start file) where
  unique := by simp [IsRunOf, State.start]
  waiting := by simp [State.start]
  forked := by simp [IsRunOf, State.start]
  unforked := by simp [State.start]

/-- A child has been made for an accepted request. -/
theorem OneRun.job_lt (h : OneRun s) {stage : ℕ → Stage} (hs : Accounted s stage)
    {c job : ℕ} (hrun : IsRunOf s c job) : job < s.requests.length := by
  by_contra hge
  have hfresh : stage job = .fresh := (hs.fresh_iff job).mpr (Nat.le_of_not_lt hge)
  have htaken := (hs.taken.mem_iff job).mp (h.forked c job hrun)
  rw [hfresh] at htaken
  exact htaken

/-! ## Steps of one thread or one child -/

/-- After an update a thread is at the new phase, or where it was. -/
theorem update_cases {phase : Thread → WorkerPhase} {t t' : Thread} {next p : WorkerPhase}
    (h : Function.update phase t next t' = p) : t' = t ∧ next = p ∨ phase t' = p := by
  by_cases ht : t' = t
  · subst ht
    rw [Function.update_self] at h
    exact Or.inl ⟨rfl, h⟩
  · rw [Function.update_of_ne ht] at h
    exact Or.inr h

/-- A thread at another phase than the new one is where it was. -/
theorem of_update_ne {phase : Thread → WorkerPhase} {t t' : Thread} {next p : WorkerPhase}
    (h : Function.update phase t next t' = p) (hne : next ≠ p) : phase t' = p := by
  rcases update_cases h with ⟨-, hnext⟩ | hphase
  · exact (hne hnext).elim
  · exact hphase

theorem isRunOf_setChild {c c' job : ℕ} {next : ChildPhase} {file : Bytes → ResultTxt} :
    IsRunOf { s with child := s.setChild c next, file := file } c' job ↔
      IsRunOf s c' job := by
  unfold IsRunOf State.setChild
  by_cases hc : c' = c
  · simp [hc]
  · simp only [Function.update_of_ne hc]

theorem isRunOf_fork {c job j : ℕ} {start : ChildPhase} {phase : Thread → WorkerPhase} :
    IsRunOf { s with
        childCount := s.childCount + 1
        child := Function.update s.child s.childCount ⟨job, start⟩
        phase := phase } c j ↔
      IsRunOf s c j ∨ c = s.childCount ∧ job = j := by
  unfold IsRunOf
  by_cases hc : c = s.childCount
  · subst hc
    simp
  · simp only [Function.update_of_ne hc, hc, false_and, or_false]
    have hlt : c < s.childCount + 1 ↔ c < s.childCount := by omega
    rw [hlt]

/-! ## Steps and runs -/

/-- A step that makes no child, and after which no other thread waits. -/
theorem OneRun.of_sameRuns (h : OneRun s)
    (hrun : ∀ c job, IsRunOf s' c job ↔ IsRunOf s c job) (htaken : s.taken ⊆ s'.taken)
    (hwaiting : ∀ t job c, s'.phase t = .waiting job c → s.phase t = .waiting job c)
    (hunforked : ∀ t job, s'.phase t = .holding job → ∀ c, ¬IsRunOf s c job) :
    OneRun s' where
  unique := by
    simp only [hrun]
    exact h.unique
  waiting := by
    simp only [hrun]
    exact fun t job c hphase => h.waiting t job c (hwaiting t job c hphase)
  forked := by
    simp only [hrun]
    exact fun c job hisRun => List.map_subset _ htaken (h.forked c job hisRun)
  unforked := by
    simp only [hrun]
    exact hunforked

/-- The steps of the queues and of the sender. -/
theorem OneRun.of_same (h : OneRun s) (hcount : s'.childCount = s.childCount)
    (hchild : s'.child = s.child) (hphase : s'.phase = s.phase) (htaken : s'.taken = s.taken) :
    OneRun s' := by
  apply h.of_sameRuns
  · intro c job
    rw [IsRunOf, IsRunOf, hcount, hchild]
  · rw [htaken]
    exact List.Subset.refl _
  · rw [hphase]
    exact fun _ _ _ hwaiting => hwaiting
  · rw [hphase]
    exact h.unforked

/-- The step of a thread that neither takes a job nor forks. -/
theorem OneRun.of_phase (h : OneRun s) {t : Thread} {next : WorkerPhase}
    (hwaiting : ∀ job c, next ≠ .waiting job c) (hholding : ∀ job, next ≠ .holding job) :
    OneRun { s with phase := Function.update s.phase t next } :=
  h.of_sameRuns (fun _ _ => Iff.rfl) (List.Subset.refl _)
    (fun _ job c hphase => of_update_ne hphase (hwaiting job c))
    (fun t job hphase => h.unforked t job (of_update_ne hphase (hholding job)))

/-- The step of one child. -/
theorem OneRun.of_child (h : OneRun s) (c : ℕ) (next : ChildPhase) (file : Bytes → ResultTxt) :
    OneRun { s with child := s.setChild c next, file := file } :=
  h.of_sameRuns (fun _ _ => isRunOf_setChild) (List.Subset.refl _)
    (fun _ _ _ hphase => hphase) h.unforked

theorem OneRun.take (h : OneRun s) {stage : ℕ → Stage} (hs : Accounted s stage)
    {t : Thread} {job : ℕ} (hjob : job ∈ s.processQueue 0) (processQueue : ℕ → List ℕ) :
    OneRun { s with
      processQueue := processQueue
      phase := Function.update s.phase t (.holding job)
      taken := s.taken ++ [(t, job)] } := by
  apply h.of_sameRuns
  · exact fun _ _ => Iff.rfl
  · exact List.subset_append_left _ _
  · exact fun t' j c hphase => of_update_ne hphase nofun
  · intro t' j hphase c hrun
    rcases update_cases hphase with ⟨-, hnext⟩ | hphase
    · -- The job has been in the queue, so that no thread has taken it before.
      obtain rfl : job = j := WorkerPhase.holding.inj hnext
      have hqueued := (hs.queued.mem_iff job).mp hjob
      have htaken := (hs.taken.mem_iff job).mp (h.forked c job hrun)
      rw [hqueued] at htaken
      exact htaken
    · exact h.unforked t' j hphase c hrun

theorem OneRun.fork (h : OneRun s) {stage : ℕ → Stage} (hs : Accounted s stage)
    {t : Thread} {job : ℕ} (hphase : s.phase t = .holding job) (start : ChildPhase) :
    OneRun { s with
      childCount := s.childCount + 1
      child := Function.update s.child s.childCount ⟨job, start⟩
      phase := Function.update s.phase t (.waiting job s.childCount) } := by
  have hjob : (s.phase t).job? = some job := by
    rw [hphase]
    rfl
  exact
    { unique := by
        intro c c' j hrun hrun'
        rcases isRunOf_fork.mp hrun with hrun | ⟨rfl, rfl⟩
        · rcases isRunOf_fork.mp hrun' with hrun' | ⟨rfl, rfl⟩
          · exact h.unique c c' j hrun hrun'
          · exact (h.unforked t job hphase c hrun).elim
        · rcases isRunOf_fork.mp hrun' with hrun' | ⟨rfl, -⟩
          · exact (h.unforked t job hphase c' hrun').elim
          · rfl
      waiting := by
        intro t' j c hnext
        rw [isRunOf_fork]
        rcases update_cases hnext with ⟨-, hnext⟩ | hold
        · obtain ⟨rfl, rfl⟩ := WorkerPhase.waiting.inj hnext
          exact Or.inr ⟨rfl, rfl⟩
        · exact Or.inl (h.waiting t' j c hold)
      forked := by
        intro c j hrun
        rcases isRunOf_fork.mp hrun with hrun | ⟨-, rfl⟩
        · exact h.forked c j hrun
        · exact List.mem_map_of_mem (f := Prod.snd) (hs.taker t job hjob)
      unforked := by
        intro t' j hnext c hrun
        have hold : s.phase t' = .holding j := of_update_ne hnext nofun
        rcases isRunOf_fork.mp hrun with hrun | ⟨-, rfl⟩
        · exact h.unforked t' j hold c hrun
        · have hjob' : (s.phase t').job? = some job := by
            rw [hold]
            rfl
          obtain rfl : t = t' := hs.thread_unique hjob hjob'
          simp only [Function.update_self] at hnext
          cases hnext }

theorem oneRun_step {stage : ℕ → Stage} {e : Event} (hs : Accounted s stage) (h : OneRun s)
    (hexec : ExecSucceeds e) (hstep : step config s e = some s') : OneRun s' := by
  cases steps_of_step hstep with
  | accept | pop | read | post | postFailed => exact h.of_same rfl rfl rfl rfl
  | @take t job rest hruns _ hqueue =>
      rw [hs.process_of_runs hruns] at hqueue
      exact h.take hs (by rw [hqueue]; exact List.mem_cons_self) _
  | fork hphase => exact h.fork hs hphase _
  | forkFailed => exact h.of_phase nofun nofun
  | exec | truncate | write => exact h.of_child _ _ _
  | execFailed => cases hexec
  | finish =>
      rw [endThread_of_noCopy hs.noCopy]
      exact h.of_child _ _ _
  | wait => exact h.of_phase nofun nofun
  | @push t job code _ =>
      have hidle : OneRun { s with phase := Function.update s.phase t .idle } :=
        h.of_phase nofun nofun
      exact hidle.of_same rfl rfl rfl rfl

end PowerJudge
