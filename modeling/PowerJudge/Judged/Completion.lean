import Mathlib.Algebra.BigOperators.Group.Finset.Basic
import Mathlib.Algebra.BigOperators.Ring.List
import Mathlib.Data.List.Perm.Basic
import PowerJudge.Judged.Capacity

/-!
# Every request is reported after finitely many steps

Every step of the daemon but the acceptance of a request uses up some of the work that
the accepted requests have brought, so a run ends unless more requests come.  Only an
attempt to report that cannot initialise curl is made up for by another one.  A run can
end only when all requests have been reported: there is no state in which the daemon is
stuck.
-/

namespace PowerJudge

open Finset

variable {config : Config} {s s' : State}

/-! ## Sums over the threads and the children -/

/-- A change in one place changes a sum over all places by its weight. -/
theorem sum_range_update {τ α : Type*} [DecidableEq τ] {place : ℕ → τ}
    (hplace : Function.Injective place) (f : τ → α) (weight : α → ℕ) {i n : ℕ} (hi : i < n)
    (a : α) :
    ∑ k ∈ range n, weight (Function.update f (place i) a (place k)) + weight (f (place i)) =
      ∑ k ∈ range n, weight (f (place k)) + weight a := by
  have hsplit : ∀ f : τ → α, ∑ k ∈ range n, weight (f (place k)) =
      weight (f (place i)) + ∑ k ∈ (range n).erase i, weight (f (place k)) := by
    intro f
    exact (add_sum_erase _ _ (mem_range.mpr hi)).symm
  have hothers : ∑ k ∈ (range n).erase i, weight (Function.update f (place i) a (place k)) =
      ∑ k ∈ (range n).erase i, weight (f (place k)) := by
    refine sum_congr rfl fun k hk => ?_
    have hne : place k ≠ place i := fun heq => ne_of_mem_erase hk (hplace heq)
    rw [Function.update_of_ne hne]
  rw [hsplit, hsplit f, hothers, Function.update_self]
  omega

/-! ## The work that is left -/

/-- The steps that a worker has before it. -/
def WorkerPhase.weight : WorkerPhase → ℕ
  | .idle => 0
  | .holding _ => 10
  | .waiting _ _ => 5
  | .pushing _ _ => 4
  | .gone => 0

def OutputStage.weight : OutputStage → ℕ
  | .untouched => 3
  | .truncated => 2
  | .written _ => 1

/-- The steps that a child has before it. -/
def ChildPhase.weight : ChildPhase → ℕ
  | .starting _ _ => 4
  | .judging output => output.weight
  | .ended _ _ => 0
  | .copy _ => 0

def SenderPhase.weight : SenderPhase → ℕ
  | .idle => 0
  | .sending _ _ => 2
  | .reporting _ _ => 1

def workerWeight (config : Config) (phase : Thread → WorkerPhase) : ℕ :=
  ∑ w ∈ range config.threadNum, (phase ⟨0, w⟩).weight

def childWeight (childCount : ℕ) (child : ℕ → Child) : ℕ :=
  ∑ c ∈ range childCount, (child c).phase.weight

/-- The steps that the daemon has before it, at most. -/
def remaining (config : Config) (s : State) : ℕ :=
  11 * (s.processQueue 0).length + workerWeight config s.phase +
    childWeight s.childCount s.child + 3 * (s.sendQueue 0).length + s.sender.weight

theorem workerWeight_update (phase : Thread → WorkerPhase) {t : Thread}
    (hprocess : t.process = 0) (hworker : t.worker < config.threadNum) (next : WorkerPhase) :
    workerWeight config (Function.update phase t next) + (phase t).weight =
      workerWeight config phase + next.weight := by
  have hthread : (⟨0, t.worker⟩ : Thread) = t := Thread.ext hprocess.symm rfl
  have hplace : Function.Injective fun w : ℕ => (⟨0, w⟩ : Thread) :=
    fun _ _ heq => (Thread.mk.inj heq).2
  have hsum := sum_range_update hplace phase WorkerPhase.weight hworker next
  simp only [hthread] at hsum
  exact hsum

theorem childWeight_setChild {c : ℕ} (hc : c < s.childCount) (next : ChildPhase) :
    childWeight s.childCount (s.setChild c next) + (s.child c).phase.weight =
      childWeight s.childCount s.child + next.weight :=
  sum_range_update Function.injective_id s.child (fun child => child.phase.weight) hc _

theorem childWeight_fork (s : State) (child : Child) :
    childWeight (s.childCount + 1) (Function.update s.child s.childCount child) =
      childWeight s.childCount s.child + child.phase.weight := by
  unfold childWeight
  rw [sum_range_succ, Function.update_self]
  congr 1
  refine sum_congr rfl fun c hc => ?_
  have hne : c ≠ s.childCount := Nat.ne_of_lt (mem_range.mp hc)
  rw [Function.update_of_ne hne]

/-! ## One step -/

def Event.isAccept : Event → Bool
  | .accept _ => true
  | _ => false

/-- `send_multi_result` fails to initialise curl. -/
def Event.isPostFailure : Event → Bool
  | .post ok => !ok
  | _ => false

/-- The steps that an event brings. -/
def Event.brings (e : Event) : ℕ := 11 * e.isAccept.toNat + e.isPostFailure.toNat

/-- A request brings eleven steps, a failed report another attempt, and every other step
uses up at least one. -/
theorem remaining_step {e : Event} (h : Staffed config s) (hexec : ExecSucceeds e)
    (hstep : step config s e = some s') :
    remaining config s' + (!e.isAccept).toNat ≤ remaining config s + e.brings := by
  unfold Event.brings Event.isPostFailure
  cases steps_of_step hstep with
  | accept =>
      simp only [remaining, Function.update_self, List.length_append, List.length_singleton,
        Event.isAccept, Bool.not_true, Bool.toNat_true, Bool.toNat_false]
      omega
  | @take t job rest hruns hidle hqueue =>
      obtain ⟨hprocess, hworker⟩ := h.of_runs hruns
      have hweight := workerWeight_update s.phase hprocess hworker (.holding job)
      rw [hidle] at hweight
      rw [hprocess] at hqueue
      simp only [remaining, hprocess, hqueue, Function.update_self, List.length_cons,
        WorkerPhase.weight, Event.isAccept, Bool.not_false, Bool.toNat_true,
        Bool.toNat_false] at hweight ⊢
      omega
  | @fork t job hphase =>
      obtain ⟨hprocess, hworker⟩ := h.busy t (by simp [hphase])
      have hweight := workerWeight_update s.phase hprocess hworker
        (.waiting job s.childCount)
      rw [hphase] at hweight
      simp only [remaining, childWeight_fork, ChildPhase.weight, WorkerPhase.weight,
        Event.isAccept, Bool.not_false, Bool.toNat_true, Bool.toNat_false] at hweight ⊢
      omega
  | @forkFailed t job hphase =>
      obtain ⟨hprocess, hworker⟩ := h.busy t (by simp [hphase])
      have hweight := workerWeight_update s.phase hprocess hworker
        (.pushing job (runPushes false none))
      rw [hphase] at hweight
      simp only [remaining, WorkerPhase.weight, Event.isAccept, Bool.not_false,
        Bool.toNat_true, Bool.toNat_false] at hweight ⊢
      omega
  | exec hc hphase =>
      have hweight := childWeight_setChild hc (.judging .untouched)
      rw [hphase] at hweight
      simp only [remaining, ChildPhase.weight, OutputStage.weight, Event.isAccept,
        Bool.not_false, Bool.toNat_true, Bool.toNat_false] at hweight ⊢
      omega
  | execFailed => cases hexec
  | truncate hc hphase =>
      have hweight := childWeight_setChild hc (.judging .truncated)
      rw [hphase] at hweight
      simp only [remaining, ChildPhase.weight, OutputStage.weight, Event.isAccept,
        Bool.not_false, Bool.toNat_true, Bool.toNat_false] at hweight ⊢
      omega
  | @write c record hc hphase =>
      have hweight := childWeight_setChild hc (.judging (.written record))
      rw [hphase] at hweight
      simp only [remaining, ChildPhase.weight, OutputStage.weight, Event.isAccept,
        Bool.not_false, Bool.toNat_true, Bool.toNat_false] at hweight ⊢
      omega
  | @finish c status hc hmay =>
      have hweight := childWeight_setChild hc (.ended status (s.child c).phase.output)
      have hpositive : 0 < (s.child c).phase.weight := by
        cases hphase : (s.child c).phase with
        | starting => simp [ChildPhase.weight]
        | judging output => cases output <;> simp [ChildPhase.weight, OutputStage.weight]
        | ended =>
            rw [hphase] at hmay
            exact hmay.elim
        | copy p => exact (h.noCopy c p hphase).elim
      have hended : (ChildPhase.ended status (s.child c).phase.output).weight = 0 := rfl
      rw [endThread_of_noCopy h.noCopy]
      simp only [remaining, Event.isAccept, Bool.not_false, Bool.toNat_true, Bool.toNat_false]
      omega
  | @wait t job c outcome waited hphase _ =>
      obtain ⟨hprocess, hworker⟩ := h.busy t (by simp [hphase])
      have hweight := workerWeight_update s.phase hprocess hworker
        (.pushing job (runPushes true waited))
      rw [hphase] at hweight
      simp only [remaining, WorkerPhase.weight, Event.isAccept, Bool.not_false,
        Bool.toNat_true, Bool.toNat_false] at hweight ⊢
      omega
  | @push t job code hphase =>
      obtain ⟨hprocess, hworker⟩ := h.busy t (by simp [hphase])
      have hweight := workerWeight_update s.phase hprocess hworker .idle
      rw [hphase] at hweight
      simp only [remaining, hprocess, Function.update_self, List.length_append,
        List.length_singleton, WorkerPhase.weight, Event.isAccept, Bool.not_false,
        Bool.toNat_true, Bool.toNat_false] at hweight ⊢
      omega
  | pop hidle hqueue =>
      simp only [remaining, hidle, hqueue, Function.update_self, List.length_cons,
        SenderPhase.weight, Event.isAccept, Bool.not_false, Bool.toNat_true, Bool.toNat_false]
      omega
  | read hsender | post hsender | postFailed hsender =>
      simp only [remaining, hsender, SenderPhase.weight, Event.isAccept, Bool.not_false,
        Bool.not_true, Bool.toNat_true, Bool.toNat_false]
      omega

/-! ## No step is left -/

/-- Only the acceptance of a request is possible. -/
def Quiescent (config : Config) (s : State) : Prop :=
  ∀ e : Event, e.isAccept = false → step config s e = none

/-- A worker that is busy, or its child, can go on. -/
theorem Staffed.exists_step (h : Staffed config s) {t : Thread} (ht : s.phase t ≠ .idle) :
    ∃ e : Event, e.isAccept = false ∧ step config s e ≠ none := by
  cases hphase : s.phase t with
  | idle => exact (ht hphase).elim
  | holding job => exact ⟨.fork t false, rfl, by simp [step, hphase]⟩
  | waiting job c =>
      have hc := h.awaited t job c hphase
      cases hchild : (s.child c).phase with
      | starting => exact ⟨.exec c true, rfl, by simp [step, hc, hchild]⟩
      | judging output =>
          have hmay : (s.child c).phase.MayEnd (.ofExit 0) := by
            rw [hchild]
            exact Or.inl (WaitStatus.ifExited_ofExit 0)
          exact ⟨.finish c (.ofExit 0), rfl, by simp [step, hc, hmay]⟩
      | ended =>
          exact ⟨.wait t .ended, rfl, by
            simp [step, hphase, hchild, waitpid, ChildPhase.endStatus]⟩
      | copy p => exact (h.noCopy c p hchild).elim
  | pushing job code => exact ⟨.push t, rfl, by simp [step, hphase]⟩
  | gone => exact (h.present t hphase).elim

theorem Quiescent.idle (hquiet : Quiescent config s) (h : Staffed config s) (t : Thread) :
    s.phase t = .idle := by
  by_contra hbusy
  obtain ⟨e, haccept, hstep⟩ := h.exists_step hbusy
  exact hstep (hquiet e haccept)

theorem Quiescent.processQueue (hquiet : Quiescent config s) (h : Staffed config s)
    (hthreads : 0 < config.threadNum) : s.processQueue 0 = [] := by
  have hnone := hquiet (.take ⟨0, 0⟩) rfl
  have hruns : Runs config s ⟨0, 0⟩ := by simp [Runs, hthreads]
  cases hqueue : s.processQueue 0 with
  | nil => rfl
  | cons job rest => simp [step, hruns, hquiet.idle h, hqueue] at hnone

theorem Quiescent.sender (hquiet : Quiescent config s) : s.sender = .idle := by
  have hread := hquiet .read rfl
  have hpost := hquiet (.post true) rfl
  cases hsender : s.sender with
  | idle => rfl
  | sending code job => simp [step, hsender] at hread
  | reporting job result => simp [step, hsender] at hpost

theorem Quiescent.sendQueue (hquiet : Quiescent config s) : s.sendQueue 0 = [] := by
  have hnone := hquiet .pop rfl
  cases hqueue : s.sendQueue 0 with
  | nil => rfl
  | cons item rest => simp [step, hquiet.sender, hqueue] at hnone

/-- Every accepted job has got to its last stage. -/
theorem Quiescent.stage (hquiet : Quiescent config s) (h : Staffed config s)
    (hthreads : 0 < config.threadNum) {stage : ℕ → Stage} (hs : Accounted s stage) {job : ℕ}
    (hjob : job < s.requests.length) : stage job = .posted := by
  cases hstage : stage job with
  | fresh =>
      have hge := (hs.fresh_iff job).mp hstage
      omega
  | queued =>
      have hmem := (hs.queued.mem_iff job).mpr hstage
      rw [hquiet.processQueue h hthreads] at hmem
      cases hmem
  | held w =>
      have hheld := (hs.held_iff ⟨0, w⟩ rfl job).mpr hstage
      rw [hquiet.idle h] at hheld
      cases hheld
  | sent =>
      have hmem := (hs.sent.mem_iff job).mpr hstage
      rw [hquiet.sendQueue] at hmem
      cases hmem
  | sending =>
      have hsender := (hs.sending_iff job).mpr hstage
      rw [hquiet.sender] at hsender
      cases hsender
  | posted => rfl

theorem Quiescent.posted (hquiet : Quiescent config s) (h : Staffed config s)
    (hthreads : 0 < config.threadNum) {stage : ℕ → Stage} (hs : Accounted s stage) :
    (s.posted.map Prod.fst).Perm (List.range s.requests.length) := by
  rw [List.perm_iff_count]
  intro job
  by_cases hjob : job < s.requests.length
  · rw [hs.posted.count_eq_one (hquiet.stage h hthreads hs hjob)]
    exact (List.count_eq_one_of_mem List.nodup_range (List.mem_range.mpr hjob)).symm
  · have hfresh := (hs.fresh_iff job).mpr (Nat.le_of_not_lt hjob)
    rw [hs.posted.count_eq_zero (by simp [hfresh])]
    exact (List.count_eq_zero.mpr (by simpa using hjob)).symm

/-! ## Runs -/

theorem length_eq_sum (events : List Event) :
    events.length = (events.map fun e => (!e.isAccept).toNat).sum +
      (events.map fun e => e.isAccept.toNat).sum := by
  induction events with
  | nil => rfl
  | cons e events ih =>
      rw [List.length_cons, List.map_cons, List.map_cons, List.sum_cons, List.sum_cons, ih]
      cases e.isAccept
      · simp only [Bool.not_false, Bool.toNat_true, Bool.toNat_false]
        omega
      · simp only [Bool.not_true, Bool.toNat_true, Bool.toNat_false]
        omega

/-- The requests are the acceptances. -/
theorem length_requests_step {e : Event} (hstep : step config s e = some s') :
    s'.requests.length = s.requests.length + e.isAccept.toNat := by
  cases steps_of_step hstep with
  | accept => simp [Event.isAccept]
  | _ => rfl

/-- A run without a failed `execl` makes at most twelve steps for every request and one
more for every failure to initialise curl, and when it can make no further step, every
request has been reported once. -/
theorem all_requests_reported (config : Config) (hthreads : 0 < config.threadNum)
    (file : Bytes → ResultTxt) (events : List Event)
    (hexec : Transition.Meets (step config) (fun _ e => ExecSucceeds e) (.start file) events)
    (s : State) (hrun : Transition.runAll (step config) (.start file) events = some s) :
    events.length ≤ 12 * s.requests.length + (events.map fun e => e.isPostFailure.toNat).sum ∧
      (Quiescent config s → (s.posted.map Prod.fst).Perm (List.range s.requests.length)) := by
  have hstaffed : Staffed config s :=
    Transition.runAll_invariant (fun _ _ _ hs he hstep => staffed_step hs he hstep)
      (staffed_start file) hexec hrun
  obtain ⟨stage, hs⟩ := accounted_run hexec hrun
  refine ⟨?_, fun hquiet => hquiet.posted hstaffed hthreads hs⟩
  have hpaid := Transition.runAll_potential (remaining config)
    (fun e => (!e.isAccept).toNat) Event.brings
    (fun s e t hs he hstep => ⟨staffed_step hs he hstep, remaining_step hs he hstep⟩)
    (staffed_start file) hexec hrun
  have hstart : remaining config (.start file) = 0 := by
    simp [remaining, State.start, workerWeight, childWeight, WorkerPhase.weight,
      SenderPhase.weight]
  have haccepted := Transition.runAll_sum (fun s : State => s.requests.length)
    (fun e => e.isAccept.toNat) (fun _ _ _ hstep => length_requests_step hstep) hrun
  have hnone : (State.start file).requests.length = 0 := rfl
  have hsum : (events.map Event.brings).sum =
      11 * (events.map fun e => e.isAccept.toNat).sum +
        (events.map fun e => e.isPostFailure.toNat).sum := by
    rw [← List.sum_map_mul_left, ← List.sum_map_add]
    rfl
  rw [hstart, hsum] at hpaid
  rw [hnone] at haccepted
  rw [length_eq_sum events]
  omega

/-- One request, from its acceptance to its report, which is made at the second
attempt. -/
def reportedAtSecond : List Event :=
  [.accept (c11Request "1"), .take ⟨0, 1⟩, .fork ⟨0, 1⟩ true, .exec 0 true, .truncate 0,
    .write 0 ⟨.ac, 15, 1024, 0⟩, .finish 0 (.ofExit 0), .wait ⟨0, 1⟩ .ended, .push ⟨0, 1⟩,
    .pop, .read, .post false, .post true]

theorem all_requests_reported_single :
    ∃ s, Transition.runAll (step twoWorkers) (.start fun _ => none) reportedAtSecond =
        some s ∧
      s.posted = [(0, .systemError)] ∧
      reportedAtSecond.length ≤ 12 * s.requests.length +
        (reportedAtSecond.map fun e => e.isPostFailure.toNat).sum ∧
      (Quiescent twoWorkers s → (s.posted.map Prod.fst).Perm (List.range s.requests.length)) :=
  ⟨_, rfl, rfl, all_requests_reported twoWorkers (by decide) (fun _ => none)
    reportedAtSecond (by decide) _ rfl⟩

end PowerJudge
