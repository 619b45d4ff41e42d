import PowerJudge.Judged.Order
import PowerJudge.Support.Stoppable

/-!
# The daemon after `SIGTERM`

The three loops of the daemon test `isRunning`, which the handler of `SIGTERM` clears: `main`
accepts, each `ThreadWork` takes and runs a job, and `SendWork` posts a report.  A copy of the
daemon that a failed `execl` leaves is another process, whose loop is not limited here.
-/

namespace PowerJudge

open Transition Stoppable

/-- The parties whose loops test `isRunning`. -/
inductive LoopParty where
  | main
  | worker (w : ℕ)
  | sender
  deriving DecidableEq, Repr

/-- The loop of a thread, if it is one of the daemon. -/
def Thread.party (t : Thread) : Option LoopParty :=
  if t.process = 0 then some (.worker t.worker) else none

/-- The rounds of the three loops.  A round of `main` that accepts no request leaves the
queues alone. -/
def daemonRounds : Rounds Event LoopParty where
  begins
    | .accept _ => some .main
    | .take t => t.party
    | .pop => some .sender
    | _ => none
  ends
    | .accept _ => some .main
    | .push t => t.party
    -- A report that fails is followed by another attempt in the same round.
    | .post ok => if ok then some .sender else none
    | _ => none
  idles
    | .main => true
    | _ => false

/-- The daemon with its loops. -/
abbrev LoopState := Guarded State LoopParty

abbrev LoopEvent := GuardedEvent Event LoopParty

def loopStep (config : Config) : LoopState → LoopEvent → Option LoopState :=
  guardedStep (step config) daemonRounds

variable {config : Config} {s t : LoopState}

/-! ## What is counted -/

def acceptCost : Event → ℕ
  | .accept _ => 1
  | _ => 0

def takeCost : Event → ℕ
  | .take t => if t.process = 0 then 1 else 0
  | _ => 0

def postCost : Event → ℕ
  | .post ok => ok.toNat
  | _ => 0

/-- What the daemon has accepted, taken and posted. -/
theorem counts_step {s s' : State} {e : Event} (hstep : step config s e = some s') :
    s'.requests.length = s.requests.length + acceptCost e ∧
      (takenBy s'.taken 0).length = (takenBy s.taken 0).length + takeCost e ∧
      s'.posted.length = s.posted.length + postCost e := by
  cases steps_of_step hstep with
  | accept request => simp [acceptCost, takeCost, postCost]
  | @take t job rest hruns hidle hqueue =>
      refine ⟨rfl, ?_, rfl⟩
      by_cases ht : t.process = 0
      · have hconcat := takenBy_concat_self s.taken t job
        rw [ht] at hconcat
        simp [takeCost, ht, hconcat]
      · simp [takeCost, ht, takenBy_concat_of_ne s.taken ht]
  | post hsender => simp [acceptCost, takeCost, postCost]
  | _ => exact ⟨rfl, rfl, rfl⟩

theorem counts_loopStep {e : LoopEvent} (hstep : loopStep config s e = some t) :
    t.inner.requests.length = s.inner.requests.length + e.cost acceptCost ∧
      (takenBy t.inner.taken 0).length = (takenBy s.inner.taken 0).length + e.cost takeCost ∧
      t.inner.posted.length = s.inner.posted.length + e.cost postCost := by
  rcases guardedStep_cases hstep with ⟨p, rfl, -, -, rfl⟩ | ⟨e', u, place, rfl, hinner, -, rfl⟩ |
    ⟨p, rfl, -, rfl⟩ | ⟨rfl, rfl⟩
  · exact ⟨rfl, rfl, rfl⟩
  · exact counts_step hinner
  · exact ⟨rfl, rfl, rfl⟩
  · exact ⟨rfl, rfl, rfl⟩

/-! ## Who pays -/

theorem acceptCost_paidBy : PaidBy (step config) daemonRounds.begins {.main} acceptCost := by
  intro s e s' _
  cases e with
  | accept request => exact Or.inr ⟨rfl, .main, by simp, rfl⟩
  | _ => exact Or.inl rfl

/-- The workers of the daemon. -/
def workers (config : Config) : Finset LoopParty :=
  (Finset.range config.threadNum).image .worker

theorem takeCost_paidBy :
    PaidBy (step config) daemonRounds.begins (workers config) takeCost := by
  intro s e s' hstep
  cases e with
  | take t =>
      by_cases ht : t.process = 0
      · cases steps_of_step hstep with
        | take hruns hidle hqueue =>
            rw [Runs, if_pos ht] at hruns
            refine Or.inr ⟨if_pos ht, .worker t.worker, ?_, if_pos ht⟩
            exact Finset.mem_image_of_mem _ (Finset.mem_range.mpr hruns)
      · exact Or.inl (if_neg ht)
  | _ => exact Or.inl rfl

theorem postCost_paidBy : PaidBy (step config) daemonRounds.ends {.sender} postCost := by
  intro s e s' _
  cases e with
  | post ok =>
      cases ok with
      | true => exact Or.inr ⟨rfl, .sender, by simp, rfl⟩
      | false => exact Or.inl rfl
  | _ => exact Or.inl rfl

theorem card_workers_le (config : Config) : (workers config).card ≤ config.threadNum :=
  Finset.card_image_le.trans (Finset.card_range _).le

/-! ## The bounds -/

/-- After `SIGTERM` the daemon acknowledges at most one more request, each of its workers
takes at most one more job, and at most one more report is posted, whatever is left in the
queues.  Until then and after it, the run is one of the daemon without the loops. -/
theorem stops_after_sigterm {file : Bytes → ResultTxt} {before after : List LoopEvent}
    (hrun : runAll (loopStep config) (.start (.start file)) (before ++ .stop :: after) = some t) :
    ∃ u, runAll (loopStep config) (.start (.start file)) before = some u ∧
      t.inner.requests.length ≤ u.inner.requests.length + 1 ∧
      (takenBy t.inner.taken 0).length ≤ (takenBy u.inner.taken 0).length + config.threadNum ∧
      t.inner.posted.length ≤ u.inner.posted.length + 1 ∧
      runAll (step config) (.start file)
        ((before ++ .stop :: after).filterMap GuardedEvent.inner?) = some t.inner := by
  obtain ⟨u, hbefore, hrest⟩ := runAll_append_eq_some hrun
  obtain ⟨v, hstop, hafter⟩ := runAll_cons_eq_some hrest
  cases hstop
  refine ⟨u, hbefore, ?_, ?_, ?_, inner_run hrun⟩
  · have hsum := runAll_sum (fun s : LoopState => s.inner.requests.length)
      (GuardedEvent.cost acceptCost) (fun s e t (hstep : loopStep config s e = some t) =>
        (counts_loopStep hstep).1) hafter
    have hpaid := begun_after_stop acceptCost_paidBy rfl hafter
    have hcard := countAt_le_card {LoopParty.main} isReady u.place
    dsimp only at hsum hpaid
    rw [Finset.card_singleton] at hcard
    omega
  · have hsum := runAll_sum (fun s : LoopState => (takenBy s.inner.taken 0).length)
      (GuardedEvent.cost takeCost) (fun s e t (hstep : loopStep config s e = some t) =>
        (counts_loopStep hstep).2.1) hafter
    have hpaid := begun_after_stop takeCost_paidBy rfl hafter
    have hcard := countAt_le_card (workers config) isReady u.place
    have hworkers := card_workers_le config
    dsimp only at hsum hpaid
    omega
  · have hsum := runAll_sum (fun s : LoopState => s.inner.posted.length)
      (GuardedEvent.cost postCost) (fun s e t (hstep : loopStep config s e = some t) =>
        (counts_loopStep hstep).2.2) hafter
    have hpaid := ended_after_stop postCost_paidBy rfl hafter
    have hcard := countAt_le_card {LoopParty.sender} isUnderWay u.place
    dsimp only at hsum hpaid
    rw [Finset.card_singleton] at hcard
    omega

/-- Two requests are acknowledged before `SIGTERM` and one after it.  One of them is
reported. -/
theorem stops_after_sigterm_three :
    ∃ u t : LoopState,
      runAll (loopStep twoWorkers) (.start (.start fun _ => none))
        ([.test .main, .inner (.accept (c11Request "1")), .test .main,
            .inner (.accept (c11Request "2")), .test (.worker 0), .test .sender, .test .main] ++
          .stop :: [.inner (.accept (c11Request "3")), .inner (.take ⟨0, 0⟩),
            .inner (.fork ⟨0, 0⟩ false), .inner (.push ⟨0, 0⟩), .inner .pop, .inner .read,
            .inner (.post true)]) =
        some t ∧
      t.inner.requests.length = 3 ∧ t.inner.posted.length = 1 ∧
      t.inner.posted.length ≤ u.inner.posted.length + 1 ∧
      t.inner.requests.length ≤ u.inner.requests.length + 1 := by
  have hrun : ∃ t : LoopState,
      runAll (loopStep twoWorkers) (.start (.start fun _ => none))
        ([.test .main, .inner (.accept (c11Request "1")), .test .main,
            .inner (.accept (c11Request "2")), .test (.worker 0), .test .sender, .test .main] ++
          .stop :: [.inner (.accept (c11Request "3")), .inner (.take ⟨0, 0⟩),
            .inner (.fork ⟨0, 0⟩ false), .inner (.push ⟨0, 0⟩), .inner .pop, .inner .read,
            .inner (.post true)]) =
        some t ∧ t.inner.requests.length = 3 ∧ t.inner.posted.length = 1 :=
    ⟨_, rfl, rfl, rfl⟩
  obtain ⟨t, ht, hrequests, hposted⟩ := hrun
  obtain ⟨u, -, haccepted, -, hreported, -⟩ := stops_after_sigterm ht
  exact ⟨u, t, ht, hrequests, hposted, hreported, haccepted⟩

end PowerJudge
