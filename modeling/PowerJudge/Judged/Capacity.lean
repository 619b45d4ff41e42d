import Mathlib.Algebra.Order.BigOperators.Group.Finset
import Mathlib.Data.Finset.Card
import Mathlib.Data.Finset.Option
import Mathlib.Data.Finset.Range
import Mathlib.Data.Finset.Union
import PowerJudge.Judged.Reports

/-!
# How many judges run at a time

A worker waits for the judge that it has started, so the number of judges that run at
a time is bounded by the number of workers.  A call of `waitpid` that returns early,
because it failed or because the judge was stopped, leaves one more judge behind.
-/

namespace PowerJudge

variable {config : Config} {s s' : State}

/-! ## The workers -/

/-- As long as no `execl` fails, only the workers of the daemon are busy, and each of
them that waits has a child. -/
structure Staffed (config : Config) (s : State) : Prop where
  alone : s.processCount = 1
  noCopy : ∀ c p, (s.child c).phase ≠ .copy p
  busy : ∀ t, s.phase t ≠ .idle → t.process = 0 ∧ t.worker < config.threadNum
  present : ∀ t, s.phase t ≠ .gone
  awaited : ∀ t job c, s.phase t = .waiting job c → c < s.childCount

theorem staffed_start (file : Bytes → ResultTxt) : Staffed config (.start file) where
  alone := rfl
  noCopy := by simp [State.start]
  busy := by simp [State.start]
  present := by simp [State.start]
  awaited := by simp [State.start]

theorem Staffed.of_runs (h : Staffed config s) {t : Thread} (hruns : Runs config s t) :
    t.process = 0 ∧ t.worker < config.threadNum := by
  unfold Runs at hruns
  rw [h.alone] at hruns
  split at hruns
  · next ht => exact ⟨ht, hruns⟩
  · omega

/-- A thread at work goes on, perhaps to wait for a child. -/
theorem Staffed.update (h : Staffed config s) {t : Thread} {next : WorkerPhase}
    (hprocess : t.process = 0) (hworker : t.worker < config.threadNum)
    (hgone : next ≠ .gone)
    (hchild : ∀ job c, next = .waiting job c → c < s.childCount) :
    Staffed config { s with phase := Function.update s.phase t next } where
  alone := h.alone
  noCopy := h.noCopy
  busy := by
    intro t' ht'
    by_cases hthread : t' = t
    · rw [hthread]
      exact ⟨hprocess, hworker⟩
    · simp only [Function.update_of_ne hthread] at ht'
      exact h.busy t' ht'
  present := by
    intro t'
    by_cases hthread : t' = t
    · simp only [hthread, Function.update_self]
      exact hgone
    · simp only [Function.update_of_ne hthread]
      exact h.present t'
  awaited := by
    intro t' job c hphase
    by_cases hthread : t' = t
    · simp only [hthread, Function.update_self] at hphase
      exact hchild job c hphase
    · simp only [Function.update_of_ne hthread] at hphase
      exact h.awaited t' job c hphase

/-- The steps of the queues, the records and the files concern no worker. -/
theorem Staffed.of_same (h : Staffed config s) (hcount : s'.processCount = s.processCount)
    (hphase : s'.phase = s.phase) (hcopy : ∀ c p, (s'.child c).phase ≠ .copy p)
    (hchildren : s.childCount ≤ s'.childCount) : Staffed config s' where
  alone := hcount.trans h.alone
  noCopy := hcopy
  busy := by
    rw [hphase]
    exact h.busy
  present := by
    rw [hphase]
    exact h.present
  awaited := by
    intro t job c hwaiting
    rw [hphase] at hwaiting
    exact Nat.lt_of_lt_of_le (h.awaited t job c hwaiting) hchildren

theorem noCopy_fork (h : ∀ c p, (s.child c).phase ≠ .copy p) (job : ℕ)
    (processQueue : List ℕ) (sendQueue : List (ℕ × ℕ)) (c p : ℕ) :
    (Function.update s.child s.childCount ⟨job, .starting processQueue sendQueue⟩ c).phase ≠
      .copy p := by
  by_cases hc : c = s.childCount
  · rw [hc, Function.update_self]
    simp
  · rw [Function.update_of_ne hc]
    exact h c p

theorem staffed_step {e : Event} (h : Staffed config s) (hexec : ExecSucceeds e)
    (hstep : step config s e = some s') : Staffed config s' := by
  cases steps_of_step hstep with
  | accept => exact h.of_same rfl rfl h.noCopy (Nat.le_refl _)
  | @take t job rest hruns _ _ =>
      obtain ⟨hprocess, hworker⟩ := h.of_runs hruns
      exact (h.update hprocess hworker (by simp) (by simp)).of_same rfl rfl h.noCopy
        (Nat.le_refl _)
  | @fork t job hphase =>
      obtain ⟨hprocess, hworker⟩ := h.busy t (by simp [hphase])
      have hforked : Staffed config { s with
          childCount := s.childCount + 1
          child := Function.update s.child s.childCount
            ⟨job, .starting (s.processQueue t.process) (s.sendQueue t.process)⟩ } :=
        h.of_same rfl rfl (noCopy_fork h.noCopy _ _ _) (Nat.le_succ _)
      refine hforked.update hprocess hworker (by simp) ?_
      rintro _ _ ⟨⟩
      exact Nat.lt_succ_self _
  | @forkFailed t job hphase =>
      obtain ⟨hprocess, hworker⟩ := h.busy t (by simp [hphase])
      exact h.update hprocess hworker (by simp) (by simp)
  | exec => exact h.of_same rfl rfl (noCopy_setChild h.noCopy (by simp)) (Nat.le_refl _)
  | execFailed => cases hexec
  | truncate => exact h.of_same rfl rfl (noCopy_setChild h.noCopy (by simp)) (Nat.le_refl _)
  | write => exact h.of_same rfl rfl (noCopy_setChild h.noCopy (by simp)) (Nat.le_refl _)
  | @finish c status _ _ =>
      rw [endThread_of_noCopy h.noCopy]
      exact h.of_same rfl rfl (noCopy_setChild h.noCopy (by simp)) (Nat.le_refl _)
  | @wait t job c outcome waited hphase _ =>
      obtain ⟨hprocess, hworker⟩ := h.busy t (by simp [hphase])
      exact h.update hprocess hworker (by simp) (by simp)
  | @push t job code hphase =>
      obtain ⟨hprocess, hworker⟩ := h.busy t (by simp [hphase])
      exact (h.update hprocess hworker (by simp) (by simp)).of_same rfl rfl h.noCopy
        (Nat.le_refl _)
  | pop | read | post | postFailed => exact h.of_same rfl rfl h.noCopy (Nat.le_refl _)

/-! ## The judges -/

/-- The child has not ended. -/
def ChildPhase.isLive : ChildPhase → Bool
  | .starting _ _ => true
  | .judging _ => true
  | .ended _ _ => false
  | .copy _ => false

/-- The child that the thread waits for. -/
def WorkerPhase.child? : WorkerPhase → Option ℕ
  | .waiting _ c => some c
  | _ => none

/-- The judges that run, and the children that are about to become judges. -/
def liveJudges (s : State) : Finset ℕ :=
  (Finset.range s.childCount).filter fun c => (s.child c).phase.isLive

/-- Some worker of the daemon waits for the child. -/
def Attended (config : Config) (s : State) (c : ℕ) : Prop :=
  ∃ w < config.threadNum, (s.phase ⟨0, w⟩).child? = some c

instance (config : Config) (s : State) : DecidablePred (Attended config s) := fun c =>
  inferInstanceAs (Decidable (∃ w < config.threadNum, (s.phase ⟨0, w⟩).child? = some c))

/-- The judges for which no worker waits any more. -/
def abandonedJudges (config : Config) (s : State) : Finset ℕ :=
  (liveJudges s).filter fun c => ¬Attended config s c

theorem mem_liveJudges {c : ℕ} :
    c ∈ liveJudges s ↔ c < s.childCount ∧ (s.child c).phase.isLive = true := by
  simp [liveJudges]

theorem mem_abandonedJudges {c : ℕ} :
    c ∈ abandonedJudges config s ↔ c ∈ liveJudges s ∧ ¬Attended config s c :=
  Finset.mem_filter

/-- A worker waits for one judge at a time. -/
theorem card_liveJudges_le (config : Config) (s : State) :
    (liveJudges s).card ≤ config.threadNum + (abandonedJudges config s).card := by
  have hcovered : liveJudges s ⊆
      ((Finset.range config.threadNum).biUnion fun w =>
        (s.phase ⟨0, w⟩).child?.toFinset) ∪ abandonedJudges config s := by
    intro c hc
    by_cases hattended : Attended config s c
    · obtain ⟨w, hw, hchild⟩ := hattended
      apply Finset.mem_union_left
      rw [Finset.mem_biUnion]
      exact ⟨w, Finset.mem_range.mpr hw, by simp [hchild]⟩
    · exact Finset.mem_union_right _ (mem_abandonedJudges.mpr ⟨hc, hattended⟩)
  have hworkers : ((Finset.range config.threadNum).biUnion fun w =>
      (s.phase ⟨0, w⟩).child?.toFinset).card ≤ config.threadNum := by
    refine (Finset.card_biUnion_le_card_mul _ _ 1 ?_).trans ?_
    · intro w _
      cases (s.phase ⟨0, w⟩).child? <;> simp
    · simp
  calc
    (liveJudges s).card ≤ _ := Finset.card_le_card hcovered
    _ ≤ _ := Finset.card_union_le _ _
    _ ≤ config.threadNum + (abandonedJudges config s).card :=
      Nat.add_le_add_right hworkers _

/-! ## What a step abandons -/

/-- A child that is live and not attended after a step was so before, if the step makes
no child that nobody waits for and no worker turns away from a live child. -/
theorem abandonedJudges_subset
    (hlive : ∀ c ∈ liveJudges s', c ∈ liveJudges s ∨ Attended config s' c)
    (hattended : ∀ c ∈ liveJudges s', Attended config s c → Attended config s' c) :
    abandonedJudges config s' ⊆ abandonedJudges config s := by
  intro c hc
  obtain ⟨hmem, hnone⟩ := mem_abandonedJudges.mp hc
  rw [mem_abandonedJudges]
  refine ⟨(hlive c hmem).resolve_right hnone, ?_⟩
  intro hbefore
  exact hnone (hattended c hmem hbefore)

/-- A worker that waits for no child moves on. -/
theorem Attended.update {t : Thread} {next : WorkerPhase} {c : ℕ}
    (ht : (s.phase t).child? ≠ some c) (h : Attended config s c)
    (hphase : s'.phase = Function.update s.phase t next) : Attended config s' c := by
  obtain ⟨w, hw, hchild⟩ := h
  refine ⟨w, hw, ?_⟩
  have hne : (⟨0, w⟩ : Thread) ≠ t := by
    rintro rfl
    exact ht hchild
  rw [hphase, Function.update_of_ne hne]
  exact hchild

/-- A child that ends or goes on with its work is not left behind. -/
theorem abandonedJudges_setChild {c : ℕ} {next : ChildPhase} {file : Bytes → ResultTxt}
    (hnext : next.isLive = true → (s.child c).phase.isLive = true) :
    abandonedJudges config { s with child := s.setChild c next, file := file } ⊆
      abandonedJudges config s := by
  refine abandonedJudges_subset (fun c' hc' => Or.inl ?_) fun _ _ hbefore => hbefore
  rw [mem_liveJudges] at hc' ⊢
  refine ⟨hc'.1, ?_⟩
  have hphase := hc'.2
  simp only [State.setChild] at hphase
  by_cases heq : c' = c
  · rw [heq, Function.update_self] at hphase
    rw [heq]
    exact hnext hphase
  · rw [Function.update_of_ne heq] at hphase
    exact hphase

/-- The worker that returns from `waitpid` leaves at most its own child behind, and none
that has ended. -/
theorem abandonedJudges_wait {t : Thread} {job c : ℕ} {outcome : WaitOutcome}
    {waited : Option WaitStatus} (hphase : s.phase t = .waiting job c)
    (hwait : waitpid (s.child c).phase.endStatus outcome = some waited) (code : ℕ) :
    (abandonedJudges config
        { s with phase := Function.update s.phase t (.pushing job code) }).card ≤
      (abandonedJudges config s).card + (Event.wait t outcome).isEarlyReturn.toNat := by
  have hothers : abandonedJudges config
      { s with phase := Function.update s.phase t (.pushing job code) } ⊆
        insert c (abandonedJudges config s) := by
    intro c' hc'
    obtain ⟨hmem, hnone⟩ := mem_abandonedJudges.mp hc'
    by_cases heq : c' = c
    · exact Finset.mem_insert.mpr (Or.inl heq)
    · refine Finset.mem_insert_of_mem (mem_abandonedJudges.mpr ⟨hmem, fun hbefore => ?_⟩)
      refine hnone (hbefore.update ?_ rfl)
      simpa [hphase, WorkerPhase.child?] using Ne.symm heq
  by_cases hearly : (Event.wait t outcome).isEarlyReturn = true
  · rw [hearly]
    exact (Finset.card_le_card hothers).trans (Finset.card_insert_le _ _)
  · have hended : outcome = .ended := by
      cases outcome with
      | failed => exact (hearly rfl).elim
      | stopped signo => exact (hearly rfl).elim
      | ended => rfl
    have hdead : (s.child c).phase.isLive = false := by
      rw [hended, waitpid] at hwait
      obtain ⟨status, hstatus, -⟩ := Option.map_eq_some_iff.mp hwait
      cases hchild : (s.child c).phase with
      | ended => rfl
      | _ =>
          rw [hchild] at hstatus
          cases hstatus
    refine (Finset.card_le_card fun c' hc' => ?_).trans (Nat.le_add_right _ _)
    rcases Finset.mem_insert.mp (hothers hc') with rfl | hmem
    · have hlive := (mem_liveJudges.mp (mem_abandonedJudges.mp hc').1).2
      exact absurd (hdead.symm.trans hlive) (by decide)
    · exact hmem

theorem abandonedJudges_step {e : Event} (h : Staffed config s) (hexec : ExecSucceeds e)
    (hstep : step config s e = some s') :
    (abandonedJudges config s').card ≤
      (abandonedJudges config s).card + e.isEarlyReturn.toNat := by
  have hsubset : abandonedJudges config s' ⊆ abandonedJudges config s →
      (abandonedJudges config s').card ≤
        (abandonedJudges config s).card + e.isEarlyReturn.toNat :=
    fun hle => (Finset.card_le_card hle).trans (Nat.le_add_right _ _)
  cases steps_of_step hstep with
  | accept => exact Nat.le_add_right _ _
  | take _ hidle _ =>
      refine hsubset (abandonedJudges_subset (fun c hc => Or.inl hc) fun c _ hbefore => ?_)
      exact hbefore.update (by simp [hidle, WorkerPhase.child?]) rfl
  | @fork t job hphase =>
      obtain ⟨hprocess, hworker⟩ := h.busy t (by simp [hphase])
      have hthread : (⟨0, t.worker⟩ : Thread) = t := Thread.ext hprocess.symm rfl
      refine hsubset (abandonedJudges_subset ?_ fun c _ hbefore => ?_)
      · intro c hc
        by_cases heq : c = s.childCount
        · refine Or.inr ⟨t.worker, hworker, ?_⟩
          simp [hthread, heq, WorkerPhase.child?]
        · refine Or.inl ?_
          obtain ⟨hlt, hlive⟩ := mem_liveJudges.mp hc
          dsimp only at hlt
          simp only [Function.update_of_ne heq] at hlive
          exact mem_liveJudges.mpr ⟨by omega, hlive⟩
      · exact hbefore.update (by simp [hphase, WorkerPhase.child?]) rfl
  | forkFailed hphase =>
      refine hsubset (abandonedJudges_subset (fun c hc => Or.inl hc) fun c _ hbefore => ?_)
      exact hbefore.update (by simp [hphase, WorkerPhase.child?]) rfl
  | exec _ hphase => exact hsubset (abandonedJudges_setChild fun _ => by rw [hphase]; rfl)
  | execFailed => cases hexec
  | truncate _ hphase => exact hsubset (abandonedJudges_setChild fun _ => by rw [hphase]; rfl)
  | write _ hphase => exact hsubset (abandonedJudges_setChild fun _ => by rw [hphase]; rfl)
  | finish =>
      rw [endThread_of_noCopy h.noCopy] at hsubset ⊢
      exact hsubset (abandonedJudges_setChild fun hlive => by cases hlive)
  | wait hphase hwait => exact abandonedJudges_wait hphase hwait _
  | push hphase =>
      refine hsubset (abandonedJudges_subset (fun c hc => Or.inl hc) fun c _ hbefore => ?_)
      exact hbefore.update (by simp [hphase, WorkerPhase.child?]) rfl
  | pop | read | post | postFailed => exact Nat.le_add_right _ _

/-! ## Runs -/

/-- In every state of a run without a failed `execl` at most `thread_num` judges run,
and one more for every early return of `waitpid`. -/
theorem judges_at_most (config : Config) (file : Bytes → ResultTxt) (events : List Event)
    (hexec : Transition.Meets (step config) (fun _ e => ExecSucceeds e) (.start file) events)
    (s : State) (hrun : Transition.runAll (step config) (.start file) events = some s) :
    (liveJudges s).card ≤ config.threadNum + (events.map fun e => e.isEarlyReturn.toNat).sum := by
  have hpaid := Transition.runAll_potential (fun s => (abandonedJudges config s).card)
    (fun _ => 0) (fun e => e.isEarlyReturn.toNat)
    (fun s e t hs he hstep =>
      ⟨staffed_step hs he hstep, abandonedJudges_step hs he hstep⟩)
    (staffed_start file) hexec hrun
  have hnone : (abandonedJudges config (.start file)).card = 0 := rfl
  have hbound := card_liveJudges_le config s
  rw [hnone] at hpaid
  omega

/-- One worker with a judge that was stopped by a signal, and another judge. -/
theorem judges_at_most_stopped :
    ∃ s, Transition.runAll (step ⟨ascii "/tmp", ascii "/data", 1⟩) (.start fun _ => none)
        [.accept (c11Request "1"), .accept (c11Request "2"), .take ⟨0, 0⟩, .fork ⟨0, 0⟩ true,
          .exec 0 true, .wait ⟨0, 0⟩ (.stopped 19), .push ⟨0, 0⟩, .take ⟨0, 0⟩,
          .fork ⟨0, 0⟩ true] = some s ∧
      (liveJudges s).card = 2 ∧ (liveJudges s).card ≤ 1 + 1 :=
  ⟨_, rfl, rfl, judges_at_most ⟨ascii "/tmp", ascii "/data", 1⟩ (fun _ => none)
    [.accept (c11Request "1"), .accept (c11Request "2"), .take ⟨0, 0⟩, .fork ⟨0, 0⟩ true,
      .exec 0 true, .wait ⟨0, 0⟩ (.stopped 19), .push ⟨0, 0⟩, .take ⟨0, 0⟩,
      .fork ⟨0, 0⟩ true] (by decide) _ rfl⟩

end PowerJudge
