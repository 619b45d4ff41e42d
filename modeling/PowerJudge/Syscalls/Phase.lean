import PowerJudge.Syscalls.Monitor

/-!
# Quotas under a disturbed phase

The phase flag is toggled at every checked stop, so a single stop between two
calls exchanges the roles of enter and exit stops.  A quota still bounds the
calls of its id: whichever of the two stops is charged, a call that is let
through costs one use.
-/

namespace PowerJudge

/-- A syscall id that `judge` checks and that lies inside the array. -/
abbrev CheckedId := {id : ℕ // 0 < id ∧ id < 1024}

/-- What a traced process shows the judge: a call, or a single stop such as a
signal stop or the stop after `execve`. -/
inductive Segment where
  | call (id : CheckedId)
  | single (id : CheckedId)

inductive StopKind where
  | enter | exit | single
  deriving DecidableEq

structure Stop where
  kind : StopKind
  id : CheckedId
  deriving DecidableEq

def Segment.stops : Segment → List Stop
  | .call id => [⟨.enter, id⟩, ⟨.exit, id⟩]
  | .single id => [⟨.single, id⟩]

/-- Present stops until one is rejected: the stops let through, and the monitor
after the last stop presented. -/
def presentStops : Monitor → List Stop → List Stop × Monitor
  | m, [] => ([], m)
  | m, stop :: rest =>
      let checked := checkStop (stop.id.1 : ℤ) m
      if checked.1 then
        let later := presentStops checked.2 rest
        (stop :: later.1, later.2)
      else ([], checked.2)

theorem presentStops_cons_accepted
    {m : Monitor} (stop : Stop) (rest : List Stop)
    (h : (checkStop (stop.id.1 : ℤ) m).1 = true) :
    presentStops m (stop :: rest) =
      (stop :: (presentStops (checkStop (stop.id.1 : ℤ) m).2 rest).1,
        (presentStops (checkStop (stop.id.1 : ℤ) m).2 rest).2) := by
  simp [presentStops, h]

theorem presentStops_cons_rejected
    {m : Monitor} (stop : Stop) (rest : List Stop)
    (h : (checkStop (stop.id.1 : ℤ) m).1 = false) :
    presentStops m (stop :: rest) = ([], (checkStop (stop.id.1 : ℤ) m).2) := by
  simp [presentStops, h]

/-! ## Quotas only go down -/

/-- The relation between the quotas of two moments of a run. -/
def QuotaSteps (before after : ℤ) : Prop :=
  (0 ≤ before → 0 ≤ after ∧ after ≤ before) ∧ (before < 0 → after = before)

theorem QuotaSteps.refl (q : ℤ) : QuotaSteps q q :=
  ⟨fun h => ⟨h, le_refl q⟩, fun _ => rfl⟩

theorem QuotaSteps.trans {q r s : ℤ} (hqr : QuotaSteps q r) (hrs : QuotaSteps r s) :
    QuotaSteps q s := by
  obtain ⟨hqr, hqr'⟩ := hqr
  obtain ⟨hrs, hrs'⟩ := hrs
  constructor
  · intro hq
    have hr := hqr hq
    have hs := hrs hr.1
    omega
  · intro hq
    have hr := hqr' hq
    have hs := hrs' (by omega)
    omega

theorem presentStops_quotaSteps (m : Monitor) (stops : List Stop) (id : ℕ) :
    QuotaSteps (m.syscalls id) ((presentStops m stops).2.syscalls id) := by
  induction stops generalizing m with
  | nil => exact QuotaSteps.refl _
  | cons stop rest ih =>
      have hstop : QuotaSteps (m.syscalls id)
          ((checkStop (stop.id.1 : ℤ) m).2.syscalls id) :=
        checkStop_syscalls _ m id
      cases hcheck : (checkStop (stop.id.1 : ℤ) m).1 with
      | true =>
          rw [presentStops_cons_accepted stop rest hcheck]
          exact hstop.trans (ih _)
      | false =>
          rw [presentStops_cons_rejected stop rest hcheck]
          exact hstop

/-- Presenting more stops continues the run, unless a stop was rejected. -/
theorem presentStops_append (m : Monitor) (first more : List Stop) :
    (presentStops m (first ++ more)).2 = (presentStops (presentStops m first).2 more).2 ∨
      (presentStops m (first ++ more)).2 = (presentStops m first).2 := by
  induction first generalizing m with
  | nil => exact Or.inl rfl
  | cons stop rest ih =>
      rw [List.cons_append]
      cases hcheck : (checkStop (stop.id.1 : ℤ) m).1 with
      | true =>
          rw [presentStops_cons_accepted _ _ hcheck, presentStops_cons_accepted _ _ hcheck]
          exact ih _
      | false =>
          rw [presentStops_cons_rejected _ _ hcheck, presentStops_cons_rejected _ _ hcheck]
          exact Or.inr rfl

/-- Between any two moments of a run, limited quotas only go down and stay
limited, and unlimited quotas do not change. -/
theorem presentStops_take_quotaSteps
    (m : Monitor) (stops : List Stop) (id : ℕ) {early late : ℕ} (h : early ≤ late) :
    QuotaSteps ((presentStops m (stops.take early)).2.syscalls id)
      ((presentStops m (stops.take late)).2.syscalls id) := by
  have hsplit : stops.take late =
      stops.take early ++ (stops.take late).drop early := by
    conv_lhs => rw [← List.take_append_drop early (stops.take late)]
    rw [List.take_take, Nat.min_eq_left h]
  rw [hsplit]
  rcases presentStops_append m (stops.take early) ((stops.take late).drop early) with
    hrun | hrun
  · rw [hrun]
    exact presentStops_quotaSteps _ _ _
  · rw [hrun]
    exact QuotaSteps.refl _

/-! ## A call that is let through costs one use -/

theorem checkStop_accepted_iff (id : CheckedId) (m : Monitor) :
    (checkStop (id.1 : ℤ) m).1 = true ↔ m.syscalls id.1 ≠ 0 := by
  rw [checkStop_natCast id.2.1, isValidSyscall_eq]
  exact decide_eq_true_iff

/-- Exactly one of the two stops of a call is charged, whatever the phase. -/
theorem checkStop_twice_syscalls (id : CheckedId) (m : Monitor) :
    (checkStop (id.1 : ℤ) (checkStop (id.1 : ℤ) m).2).2.syscalls =
      Ledger.charge m.syscalls id.1 := by
  simp only [checkStop_natCast id.2.1, isValidSyscall_eq]
  cases m.inSyscall with
  | false => simp
  | true => simp

/-- A single stop is rejected, or the run goes on with quotas no higher. -/
theorem presentStops_single_cases (m : Monitor) (id : CheckedId) (rest : List Stop) :
    (presentStops m (⟨.single, id⟩ :: rest)).1 = [] ∨
      ∃ m' : Monitor, (∀ other, QuotaSteps (m.syscalls other) (m'.syscalls other)) ∧
        (presentStops m (⟨.single, id⟩ :: rest)).1 =
          ⟨.single, id⟩ :: (presentStops m' rest).1 := by
  cases hcheck : (checkStop (id.1 : ℤ) m).1 with
  | false =>
      have hrun := presentStops_cons_rejected ⟨.single, id⟩ rest hcheck
      exact Or.inl (congrArg Prod.fst hrun)
  | true =>
      have hrun := presentStops_cons_accepted ⟨.single, id⟩ rest hcheck
      exact Or.inr ⟨(checkStop (id.1 : ℤ) m).2, checkStop_syscalls _ m,
        congrArg Prod.fst hrun⟩

/-- A call is rejected at its enter stop, or at its exit stop, or costs one
use. -/
theorem presentStops_call_cases (m : Monitor) (id : CheckedId) (rest : List Stop) :
    (presentStops m (⟨.enter, id⟩ :: ⟨.exit, id⟩ :: rest)).1 = [] ∨
      m.syscalls id.1 ≠ 0 ∧
        ((presentStops m (⟨.enter, id⟩ :: ⟨.exit, id⟩ :: rest)).1 = [⟨.enter, id⟩] ∨
          ∃ m' : Monitor, m'.syscalls = Ledger.charge m.syscalls id.1 ∧
            (presentStops m (⟨.enter, id⟩ :: ⟨.exit, id⟩ :: rest)).1 =
              ⟨.enter, id⟩ :: ⟨.exit, id⟩ :: (presentStops m' rest).1) := by
  cases henter : (checkStop (id.1 : ℤ) m).1 with
  | false =>
      have hrun := presentStops_cons_rejected ⟨.enter, id⟩
        (⟨.exit, id⟩ :: rest) henter
      exact Or.inl (congrArg Prod.fst hrun)
  | true =>
      have hne := (checkStop_accepted_iff id m).mp henter
      have hrun := presentStops_cons_accepted ⟨.enter, id⟩
        (⟨.exit, id⟩ :: rest) henter
      refine Or.inr ⟨hne, ?_⟩
      rw [hrun]
      cases hexit : (checkStop (id.1 : ℤ) (checkStop (id.1 : ℤ) m).2).1 with
      | false =>
          have hlast := presentStops_cons_rejected ⟨.exit, id⟩ rest hexit
          exact Or.inl (by rw [hlast])
      | true =>
          have hnext := presentStops_cons_accepted ⟨.exit, id⟩ rest hexit
          exact Or.inr ⟨_, checkStop_twice_syscalls id m, by rw [hnext]⟩

/-- The enter stops of an id among the stops let through. -/
def enterCount (id : CheckedId) (accepted : List Stop) : ℕ :=
  accepted.count ⟨.enter, id⟩

/-- The exit stops of an id among the stops let through: its completed calls. -/
def exitCount (id : CheckedId) (accepted : List Stop) : ℕ :=
  accepted.count ⟨.exit, id⟩

/-- From any phase and any table, the enter stops of a limited id that are let
through are no more than its quota. -/
theorem enterCount_presentStops_le
    (m : Monitor) (segments : List Segment) (id : CheckedId)
    (hquota : 0 ≤ m.syscalls id.1) :
    (enterCount id (presentStops m (segments.flatMap Segment.stops)).1 : ℤ) ≤
      m.syscalls id.1 := by
  induction segments generalizing m with
  | nil => simpa [presentStops, enterCount] using hquota
  | cons segment segments ih =>
      rw [List.flatMap_cons]
      cases segment with
      | single other =>
          rcases presentStops_single_cases m other (segments.flatMap Segment.stops) with
            hrun | ⟨m', hdown, hrun⟩
          · rw [Segment.stops, List.singleton_append, hrun]
            simpa [enterCount] using hquota
          · rw [Segment.stops, List.singleton_append, hrun]
            have hlower := (hdown id.1).1 hquota
            have hrest := ih m' hlower.1
            simp only [enterCount, List.count_cons, beq_iff_eq, Stop.mk.injEq] at hrest ⊢
            simp only [reduceCtorEq, false_and, if_false, Nat.add_zero]
            omega
      | call other =>
          rcases presentStops_call_cases m other (segments.flatMap Segment.stops) with
            hrun | ⟨hne, hrun | ⟨m', hcharge, hrun⟩⟩
          · rw [Segment.stops, List.cons_append, List.singleton_append, hrun]
            simpa [enterCount] using hquota
          · rw [Segment.stops, List.cons_append, List.singleton_append, hrun]
            by_cases hother : other = id
            · subst hother
              simp only [enterCount, List.count_singleton_self]
              omega
            · simpa [enterCount, hother] using hquota
          · rw [Segment.stops, List.cons_append, List.singleton_append, hrun]
            have hlower := (Ledger.charge_bounds m.syscalls other.1 id.1).1 hquota
            have hrest := ih m' (by rw [hcharge]; exact hlower.1)
            rw [hcharge] at hrest
            have hexit : (⟨.exit, other⟩ : Stop) ≠ ⟨.enter, id⟩ := by simp
            rw [enterCount] at hrest
            by_cases hother : other = id
            · subst hother
              rw [Ledger.charge_self (by omega)] at hrest
              rw [enterCount, List.count_cons_self, List.count_cons_of_ne hexit]
              push_cast
              omega
            · have henter : (⟨.enter, other⟩ : Stop) ≠ ⟨.enter, id⟩ := by simp [hother]
              rw [enterCount, List.count_cons_of_ne henter, List.count_cons_of_ne hexit]
              omega

/-- A call completes only after its enter stop was let through. -/
theorem exitCount_presentStops_le
    (m : Monitor) (segments : List Segment) (id : CheckedId) :
    exitCount id (presentStops m (segments.flatMap Segment.stops)).1 ≤
      enterCount id (presentStops m (segments.flatMap Segment.stops)).1 := by
  induction segments generalizing m with
  | nil => simp [presentStops, exitCount]
  | cons segment segments ih =>
      rw [List.flatMap_cons]
      cases segment with
      | single other =>
          rcases presentStops_single_cases m other (segments.flatMap Segment.stops) with
            hrun | ⟨m', -, hrun⟩
          · rw [Segment.stops, List.singleton_append, hrun]
            exact Nat.le_refl _
          · rw [Segment.stops, List.singleton_append, hrun]
            simpa [enterCount, exitCount] using ih m'
      | call other =>
          rcases presentStops_call_cases m other (segments.flatMap Segment.stops) with
            hrun | ⟨-, hrun | ⟨m', -, hrun⟩⟩
          · rw [Segment.stops, List.cons_append, List.singleton_append, hrun]
            exact Nat.le_refl _
          · rw [Segment.stops, List.cons_append, List.singleton_append, hrun]
            simp [enterCount, exitCount]
          · rw [Segment.stops, List.cons_append, List.singleton_append, hrun]
            have hrest := ih m'
            by_cases hother : other = id
            · subst hother
              simpa [enterCount, exitCount] using hrest
            · simpa [enterCount, exitCount, List.count_cons, hother] using hrest

/-- From any phase, any table and any mixture of calls and single stops: at most
as many enter stops of a limited id are let through, and so at most as many of
its calls complete, as its quota says; and between any two moments of the run
limited quotas only go down, never below zero, while unlimited ones stay. -/
theorem quota_survives_phase (m : Monitor) (segments : List Segment) :
    (∀ id : CheckedId, 0 ≤ m.syscalls id.1 →
      (enterCount id (presentStops m (segments.flatMap Segment.stops)).1 : ℤ) ≤
          m.syscalls id.1 ∧
        (exitCount id (presentStops m (segments.flatMap Segment.stops)).1 : ℤ) ≤
          m.syscalls id.1) ∧
    ∀ id early late, early ≤ late →
      QuotaSteps
        ((presentStops m ((segments.flatMap Segment.stops).take early)).2.syscalls id)
        ((presentStops m ((segments.flatMap Segment.stops).take late)).2.syscalls id) := by
  constructor
  · intro id hquota
    have henter := enterCount_presentStops_le m segments id hquota
    have hexit := exitCount_presentStops_le m segments id
    exact ⟨henter, by omega⟩
  · intro id early late h
    exact presentStops_take_quotaSteps m _ id h

/-- A C program whose phase is disturbed before its first call. -/
theorem quota_survives_phase_uname :
    (0 : ℤ) ≤ (initSyscalls .c11 .programStart).syscalls sysUname ∧
      (exitCount ⟨sysUname, by decide⟩
        (presentStops (initSyscalls .c11 .programStart)
          ([.single ⟨sysExecve, by decide⟩, .call ⟨sysUname, by decide⟩,
            .call ⟨sysUname, by decide⟩].flatMap Segment.stops)).1 : ℤ) ≤
        (initSyscalls .c11 .programStart).syscalls sysUname :=
  ⟨by decide, ((quota_survives_phase (initSyscalls .c11 .programStart)
    [.single ⟨sysExecve, by decide⟩, .call ⟨sysUname, by decide⟩,
      .call ⟨sysUname, by decide⟩]).1 ⟨sysUname, by decide⟩ (by decide)).2⟩

end PowerJudge
