import Mathlib.Data.Finset.Card
import PowerJudge.Support.Transition

/-!
# Loops that a flag stops

Parties go round loops `while (running)` over one machine.  A party tests the flag, begins
its round with a step of the machine, and ends the round with a step that may be the same.
When the flag is cleared, a round that was tested for is still made, and no other.
-/

namespace PowerJudge

namespace Stoppable

open Transition

variable {σ ε π : Type*}

/-! ## The machine -/

/-- Where a party is in its loop. -/
inductive Place where
  | head
  /-- It has tested the flag. -/
  | ready
  | inside
  deriving DecidableEq, Repr

/-- How the steps of a machine make up the rounds of the parties. -/
structure Rounds (ε π : Type*) where
  begins : ε → Option π
  ends : ε → Option π
  /-- The party may go round without a step of the machine. -/
  idles : π → Bool

structure Guarded (σ π : Type*) where
  inner : σ
  running : Bool
  place : π → Place

/-- The machine before any party has tested the flag. -/
def Guarded.start (s : σ) : Guarded σ π := ⟨s, true, fun _ => .head⟩

inductive GuardedEvent (ε π : Type*) where
  | test (p : π)
  | inner (e : ε)
  | idle (p : π)
  /-- The flag is cleared. -/
  | stop
  deriving DecidableEq, Repr

variable [DecidableEq π]

/-- The party that acts goes from one place to another. -/
def move (source target : Place) (party : Option π) (place : π → Place) :
    Option (π → Place) :=
  match party with
  | none => some place
  | some p => if place p = source then some (Function.update place p target) else none

/-- The places after a step of the machine. -/
def Rounds.next (rounds : Rounds ε π) (e : ε) (place : π → Place) : Option (π → Place) :=
  (move .ready .inside (rounds.begins e) place).bind (move .inside .head (rounds.ends e))

def guardedStep (step : σ → ε → Option σ) (rounds : Rounds ε π) (s : Guarded σ π) :
    GuardedEvent ε π → Option (Guarded σ π)
  | .test p =>
      if s.running = true ∧ s.place p = .head then
        some { s with place := Function.update s.place p .ready }
      else none
  | .inner e =>
      match step s.inner e, rounds.next e s.place with
      | some t, some place => some ⟨t, s.running, place⟩
      | _, _ => none
  | .idle p =>
      if rounds.idles p = true ∧ s.place p = .ready then
        some { s with place := Function.update s.place p .head }
      else none
  | .stop => some { s with running := false }

/-! ## Steps -/

variable {step : σ → ε → Option σ} {rounds : Rounds ε π} {s t : Guarded σ π}

/-- Everything that a step can do. -/
theorem guardedStep_cases {e : GuardedEvent ε π} (h : guardedStep step rounds s e = some t) :
    (∃ p, e = .test p ∧ s.running = true ∧ s.place p = .head ∧
      t = { s with place := Function.update s.place p .ready }) ∨
    (∃ e' u place, e = .inner e' ∧ step s.inner e' = some u ∧
      rounds.next e' s.place = some place ∧ t = ⟨u, s.running, place⟩) ∨
    (∃ p, e = .idle p ∧ s.place p = .ready ∧
      t = { s with place := Function.update s.place p .head }) ∨
    (e = .stop ∧ t = { s with running := false }) := by
  cases e with
  | test p =>
      simp only [guardedStep] at h
      split at h
      · next hhead => exact Or.inl ⟨p, rfl, hhead.1, hhead.2, (Option.some.inj h).symm⟩
      · cases h
  | inner e =>
      simp only [guardedStep] at h
      split at h
      · next u place hstep hnext =>
          exact Or.inr (Or.inl ⟨e, u, place, rfl, hstep, hnext, (Option.some.inj h).symm⟩)
      · cases h
  | idle p =>
      simp only [guardedStep] at h
      split at h
      · next hready =>
          exact Or.inr (Or.inr (Or.inl ⟨p, rfl, hready.2, (Option.some.inj h).symm⟩))
      · cases h
  | stop => exact Or.inr (Or.inr (Or.inr ⟨rfl, (Option.some.inj h).symm⟩))

/-- The step of the machine in an event. -/
def GuardedEvent.inner? : GuardedEvent ε π → Option ε
  | .inner e => some e
  | _ => none

/-- The loops only choose among the runs of the machine. -/
theorem inner_run {events : List (GuardedEvent ε π)}
    (h : runAll (guardedStep step rounds) s events = some t) :
    runAll step s.inner (events.filterMap GuardedEvent.inner?) = some t.inner := by
  induction events generalizing s with
  | nil =>
      cases h
      rfl
  | cons e events ih =>
      obtain ⟨u, hfirst, hrest⟩ := runAll_cons_eq_some h
      have hrun := ih hrest
      rcases guardedStep_cases hfirst with ⟨p, rfl, -, -, rfl⟩ |
        ⟨e', v, place, rfl, hstep, -, rfl⟩ | ⟨p, rfl, -, rfl⟩ | ⟨rfl, rfl⟩
      · exact hrun
      · exact (runAll_cons_of_step hstep _).trans hrun
      · exact hrun
      · exact hrun

/-! ## Parties at a place -/

/-- How many of some parties are at certain places. -/
def countAt (P : Finset π) (at? : Place → Bool) (place : π → Place) : ℕ :=
  (P.filter fun p => at? (place p) = true).card

omit [DecidableEq π] in
theorem countAt_le_card (P : Finset π) (at? : Place → Bool) (place : π → Place) :
    countAt P at? place ≤ P.card :=
  Finset.card_filter_le _ _

/-- A party that leaves the places counted is one less. -/
theorem countAt_update_leave {P : Finset π} {at? : Place → Bool} {place : π → Place} {p : π}
    {target : Place} (hp : p ∈ P) (hbefore : at? (place p) = true) (hafter : at? target = false) :
    countAt P at? (Function.update place p target) + 1 = countAt P at? place := by
  have herase : (P.filter fun q => at? (Function.update place p target q) = true) =
      (P.filter fun q => at? (place q) = true).erase p := by
    ext q
    by_cases hq : q = p
    · simp [hq, hafter]
    · simp [hq]
  have hmem : p ∈ P.filter fun q => at? (place q) = true := by simp [hp, hbefore]
  rw [countAt, herase, Finset.card_erase_add_one hmem]
  rfl

/-- A party that does not come to the places counted adds nothing. -/
theorem countAt_update_le {P : Finset π} {at? : Place → Bool} {place : π → Place} {p : π}
    {target : Place} (h : at? target = true → at? (place p) = true) :
    countAt P at? (Function.update place p target) ≤ countAt P at? place := by
  refine Finset.card_le_card fun q => ?_
  by_cases hq : q = p
  · subst hq
    simp only [Finset.mem_filter, Function.update_self]
    exact fun hmem => ⟨hmem.1, h hmem.2⟩
  · simp [hq]

theorem countAt_move {P : Finset π} {at? : Place → Bool} {source target : Place}
    {party : Option π} {place place' : π → Place} (h : move source target party place = some place')
    (hat : at? target = true → at? source = true) :
    countAt P at? place' ≤ countAt P at? place := by
  cases party with
  | none =>
      cases h
      exact Nat.le_refl _
  | some p =>
      simp only [move] at h
      split at h
      · next hsource =>
          cases h
          exact countAt_update_le fun htarget => hsource ▸ hat htarget
      · cases h

theorem countAt_move_leave {P : Finset π} {at? : Place → Bool} {source target : Place} {p : π}
    {place place' : π → Place} (h : move source target (some p) place = some place') (hp : p ∈ P)
    (hsource : at? source = true) (htarget : at? target = false) :
    countAt P at? place' + 1 = countAt P at? place := by
  simp only [move] at h
  split at h
  · next heq =>
      cases h
      exact countAt_update_leave hp (heq ▸ hsource) htarget
  · cases h

/-! ## After the flag is cleared -/

/-- What the steps of the machine cost. -/
def GuardedEvent.cost (cost : ε → ℕ) : GuardedEvent ε π → ℕ
  | .inner e => cost e
  | _ => 0

/-- The parties that have tested the flag. -/
def isReady (place : Place) : Bool := place = .ready

/-- The parties that are in a round or have tested for one. -/
def isUnderWay (place : Place) : Bool := place ≠ .head

/-- What a step costs is paid by a party that begins its round. -/
def PaidBy (step : σ → ε → Option σ) (acts : ε → Option π) (P : Finset π) (cost : ε → ℕ) :
    Prop :=
  ∀ s e t, step s e = some t → cost e = 0 ∨ cost e = 1 ∧ ∃ p ∈ P, acts e = some p

theorem next_eq_some {e : ε} {place place' : π → Place} (h : rounds.next e place = some place') :
    ∃ mid, move .ready .inside (rounds.begins e) place = some mid ∧
      move .inside .head (rounds.ends e) mid = some place' :=
  Option.bind_eq_some_iff.mp h

theorem begun_step {cost : ε → ℕ} {P : Finset π} (hcost : PaidBy step rounds.begins P cost)
    {e : GuardedEvent ε π} (hs : s.running = false)
    (hstep : guardedStep step rounds s e = some t) :
    t.running = false ∧
      countAt P isReady t.place + GuardedEvent.cost cost e ≤ countAt P isReady s.place := by
  rcases guardedStep_cases hstep with ⟨p, rfl, hrunning, -⟩ |
    ⟨e', u, place, rfl, hstep', hnext, rfl⟩ | ⟨p, rfl, hready, rfl⟩ | ⟨rfl, rfl⟩
  · rw [hs] at hrunning
    cases hrunning
  · refine ⟨hs, ?_⟩
    obtain ⟨mid, hbegin, hend⟩ := next_eq_some hnext
    have hlater := countAt_move (P := P) hend (by decide : isReady .head = true → _)
    rcases hcost _ _ _ hstep' with hfree | ⟨hone, p, hp, hparty⟩
    · have hsame := countAt_move (P := P) hbegin (by decide : isReady .inside = true → _)
      simp only [GuardedEvent.cost, hfree]
      omega
    · rw [hparty] at hbegin
      have hleft := countAt_move_leave hbegin hp (by decide : isReady .ready = true) rfl
      simp only [GuardedEvent.cost, hone]
      omega
  · exact ⟨hs, countAt_update_le fun hhead => absurd hhead (by decide)⟩
  · exact ⟨rfl, Nat.le_refl _⟩

/-- Once the flag is cleared, a party begins a round only if it has tested for it. -/
theorem begun_after_stop {cost : ε → ℕ} {P : Finset π} (hcost : PaidBy step rounds.begins P cost)
    (hstopped : s.running = false) {events : List (GuardedEvent ε π)}
    (hrun : runAll (guardedStep step rounds) s events = some t) :
    countAt P isReady t.place + (events.map (GuardedEvent.cost cost)).sum ≤
      countAt P isReady s.place :=
  runAll_spends (fun s : Guarded σ π => countAt P isReady s.place) _
    (fun _ _ _ hs hstep => begun_step hcost hs hstep) hstopped hrun

theorem ended_step {cost : ε → ℕ} {P : Finset π} (hcost : PaidBy step rounds.ends P cost)
    {e : GuardedEvent ε π} (hs : s.running = false)
    (hstep : guardedStep step rounds s e = some t) :
    t.running = false ∧
      countAt P isUnderWay t.place + GuardedEvent.cost cost e ≤ countAt P isUnderWay s.place := by
  rcases guardedStep_cases hstep with ⟨p, rfl, hrunning, -⟩ |
    ⟨e', u, place, rfl, hstep', hnext, rfl⟩ | ⟨p, rfl, hready, rfl⟩ | ⟨rfl, rfl⟩
  · rw [hs] at hrunning
    cases hrunning
  · refine ⟨hs, ?_⟩
    obtain ⟨mid, hbegin, hend⟩ := next_eq_some hnext
    have hsame := countAt_move (P := P) hbegin (by decide : isUnderWay .inside = true → _)
    rcases hcost _ _ _ hstep' with hfree | ⟨hone, p, hp, hparty⟩
    · have hlater := countAt_move (P := P) hend (by decide : isUnderWay .head = true → _)
      simp only [GuardedEvent.cost, hfree]
      omega
    · rw [hparty] at hend
      have hleft := countAt_move_leave hend hp (by decide : isUnderWay .inside = true) rfl
      simp only [GuardedEvent.cost, hone]
      omega
  · exact ⟨hs, countAt_update_le fun hhead => absurd hhead (by decide)⟩
  · exact ⟨rfl, Nat.le_refl _⟩

/-- Once the flag is cleared, a party ends a round only if it is in it or has tested for
it. -/
theorem ended_after_stop {cost : ε → ℕ} {P : Finset π} (hcost : PaidBy step rounds.ends P cost)
    (hstopped : s.running = false) {events : List (GuardedEvent ε π)}
    (hrun : runAll (guardedStep step rounds) s events = some t) :
    countAt P isUnderWay t.place + (events.map (GuardedEvent.cost cost)).sum ≤
      countAt P isUnderWay s.place :=
  runAll_spends (fun s : Guarded σ π => countAt P isUnderWay s.place) _
    (fun _ _ _ hs hstep => ended_step hcost hs hstep) hstopped hrun

end Stoppable

end PowerJudge
