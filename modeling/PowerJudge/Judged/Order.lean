import Mathlib.Data.List.Pairwise
import PowerJudge.Judged.Reports

/-!
# The order of the requests

Both queues are first in, first out.  The daemon takes the requests in the order of
their acceptance and without a gap, and it posts the reports in the order in which
they were pushed.  This holds in every run, also when an `execl` fails: a copy of the
daemon takes what was left in the queue that it has copied, again in order.
-/

namespace PowerJudge

variable {config : Config} {s s' : State}

/-! ## What has been taken -/

/-- The jobs that the threads of a process have taken, in order. -/
def takenBy (taken : List (Thread × ℕ)) (p : ℕ) : List ℕ :=
  (taken.filter fun x => x.1.process = p).map Prod.snd

theorem takenBy_concat_self (taken : List (Thread × ℕ)) (t : Thread) (job : ℕ) :
    takenBy (taken ++ [(t, job)]) t.process = takenBy taken t.process ++ [job] := by
  simp [takenBy, List.filter_append]

theorem takenBy_concat_of_ne (taken : List (Thread × ℕ)) {t : Thread} {p : ℕ}
    (h : t.process ≠ p) (job : ℕ) : takenBy (taken ++ [(t, job)]) p = takenBy taken p := by
  simp [takenBy, List.filter_append, h]

theorem takenBy_eq_nil {taken : List (Thread × ℕ)} {p : ℕ}
    (h : ∀ x ∈ taken, x.1.process ≠ p) : takenBy taken p = [] := by
  simpa [takenBy, List.filter_eq_nil_iff] using h

/-- The order in which requests are taken and reports are posted. -/
structure InOrder (s : State) : Prop where
  /-- The daemon has taken the first requests, and the rest are in its queue. -/
  daemon : takenBy s.taken 0 ++ s.processQueue 0 = List.range s.requests.length
  /-- A process takes accepted requests, in their order and none of them twice. -/
  increasing : ∀ p, (takenBy s.taken p ++ s.processQueue p).Pairwise (· < ·)
  accepted : ∀ x ∈ s.taken, x.2 < s.requests.length
  /-- The reports are posted as they were pushed. -/
  reports : s.posted.map Prod.fst ++ s.sender.job?.toList ++ (s.sendQueue 0).map Prod.snd =
    s.pushes

/-! ## The invariant -/

/-- A queue of some of the first `n` jobs, in increasing order. -/
structure Increasing (n : ℕ) (queue : List ℕ) : Prop where
  pairwise : queue.Pairwise (· < ·)
  accepted : ∀ job ∈ queue, job < n

theorem Increasing.succ {n : ℕ} {queue : List ℕ} (h : Increasing n queue) :
    Increasing (n + 1) queue :=
  ⟨h.pairwise, fun job hjob => Nat.lt_succ_of_lt (h.accepted job hjob)⟩

/-- The order, with the copies of the queue that the children hold. -/
structure Ordered (s : State) : Prop extends InOrder s where
  processCount_pos : 0 < s.processCount
  process_lt : ∀ x ∈ s.taken, x.1.process < s.processCount
  queue_accepted : ∀ p, ∀ job ∈ s.processQueue p, job < s.requests.length
  copied : ∀ c processQueue sendQueue,
    (s.child c).phase = .starting processQueue sendQueue →
      Increasing s.requests.length processQueue

theorem Ordered.increasing_queue (h : Ordered s) (p : ℕ) :
    Increasing s.requests.length (s.processQueue p) :=
  ⟨(List.pairwise_append.mp (h.increasing p)).2.1, h.queue_accepted p⟩

theorem ordered_start (file : Bytes → ResultTxt) : Ordered (.start file) where
  daemon := rfl
  increasing := fun _ => List.Pairwise.nil
  accepted := by simp [State.start]
  reports := rfl
  processCount_pos := Nat.one_pos
  process_lt := by simp [State.start]
  queue_accepted := by simp [State.start]
  copied := by simp [State.start]

/-- The steps that leave the queues, the job of the sender and the records alone. -/
structure SameOrder (s s' : State) : Prop where
  requests : s'.requests = s.requests
  processCount : s'.processCount = s.processCount
  processQueue : s'.processQueue = s.processQueue
  sendQueue : s'.sendQueue 0 = s.sendQueue 0
  sender : s'.sender.job? = s.sender.job?
  taken : s'.taken = s.taken
  pushes : s'.pushes = s.pushes
  posted : s'.posted = s.posted

theorem Ordered.of_sameOrder (h : Ordered s) (hsame : SameOrder s s')
    (hcopied : ∀ c processQueue sendQueue,
      (s'.child c).phase = .starting processQueue sendQueue →
        Increasing s.requests.length processQueue) :
    Ordered s' where
  daemon := by
    rw [hsame.taken, hsame.processQueue, hsame.requests]
    exact h.daemon
  increasing := by
    rw [hsame.taken, hsame.processQueue]
    exact h.increasing
  accepted := by
    rw [hsame.taken, hsame.requests]
    exact h.accepted
  reports := by
    rw [hsame.posted, hsame.sender, hsame.sendQueue, hsame.pushes]
    exact h.reports
  processCount_pos := by
    rw [hsame.processCount]
    exact h.processCount_pos
  process_lt := by
    rw [hsame.taken, hsame.processCount]
    exact h.process_lt
  queue_accepted := by
    rw [hsame.processQueue, hsame.requests]
    exact h.queue_accepted
  copied := by
    rw [hsame.requests]
    exact hcopied

/-- A child that goes on holds no copies of the queues. -/
theorem Ordered.copied_setChild (h : Ordered s) {c : ℕ} {next : ChildPhase}
    (hnext : ∀ processQueue sendQueue, next ≠ .starting processQueue sendQueue) (c' : ℕ)
    (processQueue : List ℕ) (sendQueue : List (ℕ × ℕ))
    (hphase : (s.setChild c next c').phase = .starting processQueue sendQueue) :
    Increasing s.requests.length processQueue := by
  unfold State.setChild at hphase
  by_cases hc : c' = c
  · rw [hc, Function.update_self] at hphase
    exact (hnext _ _ hphase).elim
  · rw [Function.update_of_ne hc] at hphase
    exact h.copied c' processQueue sendQueue hphase

/-! ## The steps -/

theorem Ordered.accept (h : Ordered s) (request : Request) :
    Ordered { s with
      requests := s.requests ++ [request]
      processQueue := Function.update s.processQueue 0
        (s.processQueue 0 ++ [s.requests.length]) } := by
  have hdaemon : takenBy s.taken 0 ++ (s.processQueue 0 ++ [s.requests.length]) =
      List.range (s.requests.length + 1) := by
    rw [← List.append_assoc, h.daemon, List.range_succ]
  have hlength : (s.requests ++ [request]).length = s.requests.length + 1 := by simp
  exact
    { daemon := by
        simp only [Function.update_self, hlength]
        exact hdaemon
      increasing := by
        intro p
        by_cases hp : p = 0
        · simp only [hp, Function.update_self, hdaemon]
          exact List.pairwise_lt_range
        · simp only [Function.update_of_ne hp]
          exact h.increasing p
      accepted := fun x hx => by
        have hlt := h.accepted x hx
        simp only [hlength]
        omega
      reports := h.reports
      processCount_pos := h.processCount_pos
      process_lt := h.process_lt
      queue_accepted := by
        intro p job hjob
        simp only [hlength]
        by_cases hp : p = 0
        · simp only [hp, Function.update_self] at hjob
          rcases List.mem_append.mp hjob with hold | hnew
          · have hlt := h.queue_accepted 0 job hold
            omega
          · rw [List.mem_singleton.mp hnew]
            omega
        · simp only [Function.update_of_ne hp] at hjob
          have hlt := h.queue_accepted p job hjob
          omega
      copied := by
        intro c processQueue sendQueue hphase
        rw [hlength]
        exact (h.copied c processQueue sendQueue hphase).succ }

theorem Ordered.take (h : Ordered s) {t : Thread} {job : ℕ} {rest : List ℕ}
    (hruns : Runs config s t) (hqueue : s.processQueue t.process = job :: rest) :
    Ordered { s with
      processQueue := Function.update s.processQueue t.process rest
      phase := Function.update s.phase t (.holding job)
      taken := s.taken ++ [(t, job)] } := by
  have hmoved : ∀ p, takenBy (s.taken ++ [(t, job)]) p ++
      Function.update s.processQueue t.process rest p = takenBy s.taken p ++ s.processQueue p := by
    intro p
    by_cases hp : p = t.process
    · rw [hp, takenBy_concat_self, Function.update_self, hqueue, List.append_assoc,
        List.singleton_append]
    · rw [takenBy_concat_of_ne _ (Ne.symm hp), Function.update_of_ne hp]
  have hprocess : t.process < s.processCount := by
    have hpos := h.processCount_pos
    unfold Runs at hruns
    split at hruns
    · omega
    · exact hruns.1
  have hfirst : job < s.requests.length :=
    h.queue_accepted t.process job (hqueue ▸ List.mem_cons_self)
  exact
    { daemon := (hmoved 0).trans h.daemon
      increasing := fun p => (hmoved p).symm ▸ h.increasing p
      accepted := by
        intro x hx
        rcases List.mem_append.mp hx with hold | hnew
        · exact h.accepted x hold
        · rw [List.mem_singleton.mp hnew]
          exact hfirst
      reports := h.reports
      processCount_pos := h.processCount_pos
      process_lt := by
        intro x hx
        rcases List.mem_append.mp hx with hold | hnew
        · exact h.process_lt x hold
        · rw [List.mem_singleton.mp hnew]
          exact hprocess
      queue_accepted := by
        intro p j hj
        by_cases hp : p = t.process
        · simp only [hp, Function.update_self] at hj
          exact h.queue_accepted t.process j (hqueue ▸ List.mem_cons_of_mem _ hj)
        · simp only [Function.update_of_ne hp] at hj
          exact h.queue_accepted p j hj
      copied := h.copied }

/-- The child that `fork` makes holds copies of the queues of its parent. -/
theorem Ordered.fork (h : Ordered s) (t : Thread) (job : ℕ) (next : WorkerPhase) :
    Ordered { s with
      childCount := s.childCount + 1
      child := Function.update s.child s.childCount
        ⟨job, .starting (s.processQueue t.process) (s.sendQueue t.process)⟩
      phase := Function.update s.phase t next } := by
  refine h.of_sameOrder ⟨rfl, rfl, rfl, rfl, rfl, rfl, rfl, rfl⟩ ?_
  intro c processQueue sendQueue hphase
  by_cases hc : c = s.childCount
  · simp only [hc, Function.update_self] at hphase
    obtain ⟨rfl, -⟩ := ChildPhase.starting.inj hphase
    exact h.increasing_queue t.process
  · simp only [Function.update_of_ne hc] at hphase
    exact h.copied c processQueue sendQueue hphase

/-- A child whose `execl` fails becomes a process with its own queues. -/
theorem Ordered.execFailed (h : Ordered s) {c : ℕ} {processQueue : List ℕ}
    {sendQueue : List (ℕ × ℕ)}
    (hphase : (s.child c).phase = .starting processQueue sendQueue) (next : WorkerPhase) :
    Ordered { s with
      processCount := s.processCount + 1
      processQueue := Function.update s.processQueue s.processCount processQueue
      sendQueue := Function.update s.sendQueue s.processCount sendQueue
      phase := Function.update s.phase ⟨s.processCount, 0⟩ next
      child := s.setChild c (.copy s.processCount) } := by
  have hpos := h.processCount_pos
  have hzero : (0 : ℕ) ≠ s.processCount := by omega
  have hcopy := h.copied c processQueue sendQueue hphase
  exact
    { daemon := by
        simp only [Function.update_of_ne hzero]
        exact h.daemon
      increasing := by
        intro p
        by_cases hp : p = s.processCount
        · have hnone : takenBy s.taken s.processCount = [] :=
            takenBy_eq_nil fun x hx => Nat.ne_of_lt (h.process_lt x hx)
          simp only [hp, hnone, Function.update_self, List.nil_append]
          exact hcopy.pairwise
        · simp only [Function.update_of_ne hp]
          exact h.increasing p
      accepted := h.accepted
      reports := by
        simp only [Function.update_of_ne hzero]
        exact h.reports
      processCount_pos := Nat.succ_pos _
      process_lt := fun x hx => Nat.lt_succ_of_lt (h.process_lt x hx)
      queue_accepted := by
        intro p job hjob
        by_cases hp : p = s.processCount
        · simp only [hp, Function.update_self] at hjob
          exact hcopy.accepted job hjob
        · simp only [Function.update_of_ne hp] at hjob
          exact h.queue_accepted p job hjob
      copied := h.copied_setChild (by simp) }

theorem Ordered.push (h : Ordered s) (t : Thread) (code job : ℕ) :
    Ordered { s with
      sendQueue := Function.update s.sendQueue t.process
        (s.sendQueue t.process ++ [(code, job)])
      phase := Function.update s.phase t .idle
      pushes := if t.process = 0 then s.pushes ++ [job] else s.pushes } where
  toInOrder :=
    { daemon := h.daemon
      increasing := h.increasing
      accepted := h.accepted
      reports := by
        by_cases ht : t.process = 0
        · simp only [ht, Function.update_self, if_true, List.map_append, ← h.reports]
          simp
        · simp only [Function.update_of_ne (Ne.symm ht), if_neg ht]
          exact h.reports }
  processCount_pos := h.processCount_pos
  process_lt := h.process_lt
  queue_accepted := h.queue_accepted
  copied := h.copied

theorem ordered_step {e : Event} (h : Ordered s) (hstep : step config s e = some s') :
    Ordered s' := by
  have hreports := h.reports
  cases steps_of_step hstep with
  | accept request => exact h.accept request
  | take hruns _ hqueue => exact h.take hruns hqueue
  | @fork t job _ => exact h.fork t job _
  | forkFailed => exact h.of_sameOrder ⟨rfl, rfl, rfl, rfl, rfl, rfl, rfl, rfl⟩ h.copied
  | exec =>
      exact h.of_sameOrder ⟨rfl, rfl, rfl, rfl, rfl, rfl, rfl, rfl⟩ (h.copied_setChild (by simp))
  | execFailed _ hphase => exact h.execFailed hphase _
  | truncate =>
      exact h.of_sameOrder ⟨rfl, rfl, rfl, rfl, rfl, rfl, rfl, rfl⟩ (h.copied_setChild (by simp))
  | write =>
      exact h.of_sameOrder ⟨rfl, rfl, rfl, rfl, rfl, rfl, rfl, rfl⟩ (h.copied_setChild (by simp))
  | finish =>
      exact h.of_sameOrder ⟨rfl, rfl, rfl, rfl, rfl, rfl, rfl, rfl⟩ (h.copied_setChild (by simp))
  | wait => exact h.of_sameOrder ⟨rfl, rfl, rfl, rfl, rfl, rfl, rfl, rfl⟩ h.copied
  | @push t job code _ => exact h.push t code job
  | @pop code job rest hidle hqueue =>
      rw [hidle, hqueue] at hreports
      exact
        { h with
          reports := by
            simp only [Function.update_self, ← hreports]
            simp [SenderPhase.job?] }
  | read hsender | postFailed hsender =>
      refine h.of_sameOrder ⟨rfl, rfl, rfl, rfl, ?_, rfl, rfl, rfl⟩ h.copied
      rw [hsender]
      rfl
  | post hsender =>
      rw [hsender] at hreports
      exact
        { h with
          reports := by
            rw [← hreports]
            simp [SenderPhase.job?] }

/-! ## Runs -/

/-- In every run, whatever fails, the requests are taken in the order of their
acceptance and the reports posted in the order in which they were pushed. -/
theorem requests_taken_in_order (config : Config) (file : Bytes → ResultTxt)
    (events : List Event) (s : State)
    (hrun : Transition.runAll (step config) (.start file) events = some s) :
    InOrder s ∧ Recorded events s :=
  ⟨(Transition.runAll_preserves (fun _ _ _ hs hstep => ordered_step hs hstep)
    (ordered_start file) hrun).toInOrder, recorded_run hrun⟩

/-- After a failed `execl` the copy takes the second request, and so does the
daemon. -/
theorem requests_taken_in_order_copy :
    ∃ s, Transition.runAll (step twoWorkers) (.start fun _ => none)
        [.accept (c11Request "1"), .accept (c11Request "2"), .take ⟨0, 0⟩,
          .fork ⟨0, 0⟩ true, .exec 0 false, .push ⟨1, 0⟩, .take ⟨1, 0⟩,
          .take ⟨0, 1⟩] = some s ∧
      takenBy s.taken 0 = [0, 1] ∧ takenBy s.taken 1 = [1] ∧ InOrder s :=
  ⟨_, rfl, rfl, rfl, (requests_taken_in_order twoWorkers (fun _ => none)
    [.accept (c11Request "1"), .accept (c11Request "2"), .take ⟨0, 0⟩,
      .fork ⟨0, 0⟩ true, .exec 0 false, .push ⟨1, 0⟩, .take ⟨1, 0⟩,
      .take ⟨0, 1⟩] _ rfl).1⟩

end PowerJudge
