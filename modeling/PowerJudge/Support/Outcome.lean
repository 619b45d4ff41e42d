import Mathlib.Tactic.TypeStar

/-!
# Outcomes of a process that may leave early

A call inside a process either returns, leaves the whole process, kills it by a
fault of its own, or is still blocked when the events it was given are used up.
The type is parameterized by the reason for leaving and by the returned value, and
carries the sequencing and inversion rules used by every later development.
-/

namespace PowerJudge

/-- How a call ends. -/
inductive Outcome (ε α : Type*) where
  | returned (value : α)
  | exited (reason : ε)
  | crashed
  | blocked
  deriving DecidableEq, Repr

namespace Outcome

variable {ε δ α β : Type*}

/-- Continue with `f` only when the first call returned. -/
def bind : Outcome ε α → (α → Outcome ε β) → Outcome ε β
  | returned a, f => f a
  | exited e, _ => exited e
  | crashed, _ => crashed
  | blocked, _ => blocked

@[simp] theorem bind_returned (a : α) (f : α → Outcome ε β) :
    (returned a : Outcome ε α).bind f = f a := rfl

@[simp] theorem bind_exited (e : ε) (f : α → Outcome ε β) :
    (exited e : Outcome ε α).bind f = exited e := rfl

@[simp] theorem bind_crashed (f : α → Outcome ε β) :
    (crashed : Outcome ε α).bind f = crashed := rfl

@[simp] theorem bind_blocked (f : α → Outcome ε β) :
    (blocked : Outcome ε α).bind f = blocked := rfl

/-- A sequence returns exactly when both of its calls do. -/
theorem bind_eq_returned_iff {x : Outcome ε α} {f : α → Outcome ε β} {b : β} :
    x.bind f = returned b ↔ ∃ a, x = returned a ∧ f a = returned b := by
  cases x with
  | returned a => simp
  | exited e => simp
  | crashed => simp
  | blocked => simp

/-- A sequence leaves the process in its first call or in its second. -/
theorem bind_eq_exited_iff {x : Outcome ε α} {f : α → Outcome ε β} {e : ε} :
    x.bind f = exited e ↔
      x = exited e ∨ ∃ a, x = returned a ∧ f a = exited e := by
  cases x with
  | returned a => simp
  | exited e' => simp
  | crashed => simp
  | blocked => simp

/-- Change the reason for leaving. -/
def mapExited (f : ε → δ) : Outcome ε α → Outcome δ α
  | returned a => returned a
  | exited e => exited (f e)
  | crashed => crashed
  | blocked => blocked

@[simp] theorem mapExited_returned (f : ε → δ) (a : α) :
    (returned a : Outcome ε α).mapExited f = returned a := rfl

@[simp] theorem mapExited_exited (f : ε → δ) (e : ε) :
    (exited e : Outcome ε α).mapExited f = exited (f e) := rfl

theorem mapExited_eq_returned_iff {f : ε → δ} {x : Outcome ε α} {a : α} :
    x.mapExited f = returned a ↔ x = returned a := by
  cases x with
  | returned b => simp
  | exited e => simp
  | crashed => simp [mapExited]
  | blocked => simp [mapExited]

theorem mapExited_eq_exited_iff {f : ε → δ} {x : Outcome ε α} {d : δ} :
    x.mapExited f = exited d ↔ ∃ e, x = exited e ∧ f e = d := by
  cases x with
  | returned b => simp
  | exited e => simp
  | crashed => simp [mapExited]
  | blocked => simp [mapExited]

end Outcome

end PowerJudge
