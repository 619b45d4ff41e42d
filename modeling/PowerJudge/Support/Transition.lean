import Mathlib.Algebra.GroupWithZero.Nat
import Mathlib.Tactic.TypeStar

/-!
# Runs of a labelled machine

A machine is a partial step function over events.  Its runs are the executions of
finite lists of events, and invariants are carried along the runs whose steps all
meet a condition on the state before the step and the event.
-/

namespace PowerJudge

namespace Transition

variable {σ ε : Type*}

/-- The state after a list of events, if every event is possible in its turn. -/
def runAll (step : σ → ε → Option σ) : σ → List ε → Option σ
  | s, [] => some s
  | s, e :: es =>
      match step s e with
      | some t => runAll step t es
      | none => none

/-- Every step of the run meets the condition. -/
def Meets (step : σ → ε → Option σ) (P : σ → ε → Prop) : σ → List ε → Prop
  | _, [] => True
  | s, e :: es =>
      P s e ∧
        match step s e with
        | some t => Meets step P t es
        | none => True

instance decidableMeets (step : σ → ε → Option σ) (P : σ → ε → Prop)
    [∀ s e, Decidable (P s e)] : ∀ s es, Decidable (Meets step P s es)
  | _, [] => inferInstanceAs (Decidable True)
  | s, e :: es =>
      match hstep : step s e with
      | some t =>
          have := decidableMeets step P t es
          decidable_of_iff (P s e ∧ Meets step P t es) (by simp [Meets, hstep])
      | none => decidable_of_iff (P s e) (by simp [Meets, hstep])

variable {step : σ → ε → Option σ} {P Q : σ → ε → Prop}

@[simp] theorem runAll_nil (s : σ) : runAll step s [] = some s := rfl

theorem runAll_cons_of_step {s t : σ} {e : ε} (h : step s e = some t) (es : List ε) :
    runAll step s (e :: es) = runAll step t es := by
  rw [runAll, h]

/-- A run begins with a step. -/
theorem runAll_cons_eq_some {s u : σ} {e : ε} {es : List ε}
    (h : runAll step s (e :: es) = some u) :
    ∃ t, step s e = some t ∧ runAll step t es = some u := by
  rw [runAll] at h
  split at h
  · next t hstep => exact ⟨t, hstep, h⟩
  · cases h

/-- A run goes through the state after its first events. -/
theorem runAll_append_eq_some {s u : σ} {es es' : List ε}
    (h : runAll step s (es ++ es') = some u) :
    ∃ t, runAll step s es = some t ∧ runAll step t es' = some u := by
  induction es generalizing s with
  | nil => exact ⟨s, rfl, h⟩
  | cons e es ih =>
      obtain ⟨r, hfirst, hrest⟩ := runAll_cons_eq_some h
      obtain ⟨t, hes, hes'⟩ := ih hrest
      exact ⟨t, (runAll_cons_of_step hfirst es).trans hes, hes'⟩

theorem Meets.head {s : σ} {e : ε} {es : List ε} (h : Meets step P s (e :: es)) : P s e :=
  h.1

theorem Meets.tail {s t : σ} {e : ε} {es : List ε} (h : Meets step P s (e :: es))
    (hstep : step s e = some t) : Meets step P t es := by
  have htail := h.2
  rw [hstep] at htail
  exact htail

/-- Two conditions are met together. -/
theorem Meets.and {s : σ} {es : List ε} (hP : Meets step P s es) (hQ : Meets step Q s es) :
    Meets step (fun s e => P s e ∧ Q s e) s es := by
  induction es generalizing s with
  | nil => trivial
  | cons e es ih =>
      refine ⟨⟨hP.head, hQ.head⟩, ?_⟩
      split
      · next t hstep => exact ih (hP.tail hstep) (hQ.tail hstep)
      · trivial

/-- What one step preserves is preserved by every run whose steps all meet the
condition. -/
theorem runAll_invariant {Inv : σ → Prop}
    (hstep : ∀ s e t, Inv s → P s e → step s e = some t → Inv t)
    {s t : σ} {es : List ε} (hs : Inv s) (hmeets : Meets step P s es)
    (hrun : runAll step s es = some t) : Inv t := by
  induction es generalizing s with
  | nil =>
      cases hrun
      exact hs
  | cons e es ih =>
      obtain ⟨u, hfirst, hrest⟩ := runAll_cons_eq_some hrun
      exact ih (hstep s e u hs hmeets.head hfirst) (hmeets.tail hfirst) hrest

theorem Meets.of_forall (h : ∀ s e, P s e) (s : σ) (es : List ε) : Meets step P s es := by
  induction es generalizing s with
  | nil => trivial
  | cons e es ih =>
      refine ⟨h s e, ?_⟩
      split
      · next t hstep => exact ih t
      · trivial

/-- Where every step pays its cost from the potential and from what it brings, the cost
of a run is paid from the potential at its start and from what its steps bring. -/
theorem runAll_potential {Inv : σ → Prop} (potential : σ → ℕ) (cost gain : ε → ℕ)
    (hstep : ∀ s e t, Inv s → P s e → step s e = some t →
      Inv t ∧ potential t + cost e ≤ potential s + gain e)
    {s t : σ} {es : List ε} (hs : Inv s) (hmeets : Meets step P s es)
    (hrun : runAll step s es = some t) :
    potential t + (es.map cost).sum ≤ potential s + (es.map gain).sum := by
  induction es generalizing s with
  | nil =>
      cases hrun
      exact Nat.le_refl _
  | cons e es ih =>
      obtain ⟨u, hfirst, hrest⟩ := runAll_cons_eq_some hrun
      obtain ⟨hu, hpaid⟩ := hstep s e u hs hmeets.head hfirst
      have hlater := ih hu (hmeets.tail hfirst) hrest
      rw [List.map_cons, List.map_cons, List.sum_cons, List.sum_cons]
      omega

/-- Where every step pays its cost from the potential, so does a run. -/
theorem runAll_spends {Inv : σ → Prop} (potential : σ → ℕ) (cost : ε → ℕ)
    (hstep : ∀ s e t, Inv s → step s e = some t → Inv t ∧ potential t + cost e ≤ potential s)
    {s t : σ} {es : List ε} (hs : Inv s) (hrun : runAll step s es = some t) :
    potential t + (es.map cost).sum ≤ potential s := by
  induction es generalizing s with
  | nil =>
      cases hrun
      exact Nat.le_refl _
  | cons e es ih =>
      obtain ⟨u, hfirst, hrest⟩ := runAll_cons_eq_some hrun
      obtain ⟨hu, hpaid⟩ := hstep s e u hs hfirst
      have hlater := ih hu hrest
      rw [List.map_cons, List.sum_cons]
      omega

/-- Where every step lowers a measure, a run has no more steps than the measure says. -/
theorem runAll_length_le (measure : σ → ℕ)
    (hstep : ∀ s e t, step s e = some t → measure t + 1 ≤ measure s)
    {s t : σ} {es : List ε} (hrun : runAll step s es = some t) :
    measure t + es.length ≤ measure s := by
  induction es generalizing s with
  | nil =>
      cases hrun
      exact Nat.le_refl _
  | cons e es ih =>
      obtain ⟨u, hfirst, hrest⟩ := runAll_cons_eq_some hrun
      have hlower := hstep s e u hfirst
      have hlater := ih hrest
      rw [List.length_cons]
      omega

/-- What every step increases by some amount grows by the sum of these. -/
theorem runAll_sum (total : σ → ℕ) (gain : ε → ℕ)
    (hstep : ∀ s e t, step s e = some t → total t = total s + gain e)
    {s t : σ} {es : List ε} (hrun : runAll step s es = some t) :
    total t = total s + (es.map gain).sum := by
  induction es generalizing s with
  | nil =>
      cases hrun
      rfl
  | cons e es ih =>
      obtain ⟨u, hfirst, hrest⟩ := runAll_cons_eq_some hrun
      rw [ih hrest, hstep s e u hfirst, List.map_cons, List.sum_cons, Nat.add_assoc]

/-- A log to which every step adds its entry holds the entries of a run, in order. -/
theorem runAll_records {α : Type*} (log : σ → List α) (entry : ε → Option α)
    (hstep : ∀ s e t, step s e = some t → log t = log s ++ (entry e).toList)
    {s t : σ} {es : List ε} (hrun : runAll step s es = some t) :
    log t = log s ++ es.filterMap entry := by
  induction es generalizing s with
  | nil =>
      cases hrun
      simp
  | cons e es ih =>
      obtain ⟨u, hfirst, hrest⟩ := runAll_cons_eq_some hrun
      rw [ih hrest, hstep s e u hfirst, List.filterMap_cons, List.append_assoc]
      cases entry e <;> rfl

/-- What every step preserves is preserved by every run. -/
theorem runAll_preserves {Inv : σ → Prop}
    (hstep : ∀ s e t, Inv s → step s e = some t → Inv t)
    {s t : σ} {es : List ε} (hs : Inv s) (hrun : runAll step s es = some t) : Inv t :=
  runAll_invariant (fun s e t hs _ => hstep s e t hs) hs
    (Meets.of_forall (fun _ _ => trivial) s es) hrun

end Transition

end PowerJudge
