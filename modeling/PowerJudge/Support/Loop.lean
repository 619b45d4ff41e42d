import Mathlib.Data.Nat.Notation
import Mathlib.Tactic.TypeStar

/-!
# Loops that are left from inside

One iteration of a `while (true)` loop leaves it with a result or goes on with new
values of its variables.  An invariant holds whenever control is at the head of the
loop, and a measure that every iteration lowers bounds their number.
-/

namespace PowerJudge

/-- How an iteration ends. -/
inductive LoopStep (σ ρ : Type*) where
  | leave (result : ρ)
  | again (state : σ)
  deriving DecidableEq, Repr

variable {σ ρ : Type*}

/-- The state at the head of the loop after `n` iterations, unless it was left before. -/
def loopHead (body : σ → LoopStep σ ρ) (start : σ) : ℕ → Option σ
  | 0 => some start
  | n + 1 =>
      match loopHead body start n with
      | none => none
      | some s =>
          match body s with
          | .leave _ => none
          | .again s' => some s'

variable {body : σ → LoopStep σ ρ} {start : σ}

theorem loopHead_succ_eq_some {n : ℕ} {s' : σ} (h : loopHead body start (n + 1) = some s') :
    ∃ s, loopHead body start n = some s ∧ body s = .again s' := by
  rw [loopHead] at h
  split at h
  · cases h
  · next s hs =>
      split at h
      · cases h
      · next hbody =>
          cases h
          exact ⟨s, hs, hbody⟩

/-- Up to any iteration the loop was left or is at its head. -/
theorem loopHead_left_or (body : σ → LoopStep σ ρ) (start : σ) (n : ℕ) :
    (∃ k s result, loopHead body start k = some s ∧ body s = .leave result) ∨
      ∃ s, loopHead body start n = some s := by
  induction n with
  | zero => exact Or.inr ⟨start, rfl⟩
  | succ n ih =>
      rcases ih with hleft | ⟨s, hs⟩
      · exact Or.inl hleft
      · cases hbody : body s with
        | leave result => exact Or.inl ⟨n, s, result, hs, hbody⟩
        | again s' => exact Or.inr ⟨s', by simp only [loopHead, hs, hbody]⟩

/-- What holds at the start and is kept by the iterations holds at the head. -/
theorem loopHead_invariant {P : σ → Prop} (hstart : P start)
    (hbody : ∀ s s', P s → body s = .again s' → P s') {n : ℕ} {s : σ}
    (h : loopHead body start n = some s) : P s := by
  induction n generalizing s with
  | zero =>
      cases h
      exact hstart
  | succ n ih =>
      obtain ⟨previous, hprevious, hagain⟩ := loopHead_succ_eq_some h
      exact hbody previous s (ih hprevious) hagain

section Measure

variable {measure : σ → ℕ} (hbody : ∀ s s', body s = .again s' → measure s' < measure s)
include hbody

theorem loopHead_measure {n : ℕ} {s : σ} (h : loopHead body start n = some s) :
    measure s + n ≤ measure start := by
  induction n generalizing s with
  | zero =>
      cases h
      exact Nat.le_refl _
  | succ n ih =>
      obtain ⟨previous, hprevious, hagain⟩ := loopHead_succ_eq_some h
      have hless := hbody previous s hagain
      have hbound := ih hprevious
      omega

/-- The loop has at most one iteration more than the measure at its start. -/
theorem loopHead_eq_none {n : ℕ} (hn : measure start < n) : loopHead body start n = none := by
  cases hhead : loopHead body start n with
  | none => rfl
  | some s =>
      have hbound := loopHead_measure hbody hhead
      omega

theorem exists_loopHead_leave :
    ∃ n s result, loopHead body start n = some s ∧ body s = .leave result := by
  rcases loopHead_left_or body start (measure start + 1) with hleft | ⟨s, hs⟩
  · exact hleft
  · have hbound := loopHead_measure hbody hs
    omega

end Measure

end PowerJudge
