import Mathlib.Data.List.Count
import Mathlib.Logic.Function.Basic

/-!
# Lists tallied by labels

A list tallies a labelling when it contains every element whose label satisfies a
predicate exactly once, and no other element.  Moving one element to another
label keeps several such lists up to date at once: each of them stays as it is,
gains the element, or loses it at its head.
-/

namespace PowerJudge

variable {α β : Type*} [DecidableEq α]

/-- `l` contains exactly once each element whose label satisfies `p`. -/
def Tallies (l : List α) (label : α → β) (p : β → Prop) [DecidablePred p] : Prop :=
  ∀ x, l.count x = if p (label x) then 1 else 0

/-- A characterization by labels survives a move between labels that agree on the
predicate. -/
theorem iff_relabel {label : α → β} {p : β → Prop} {Q : α → Prop}
    (h : ∀ x, Q x ↔ p (label x)) {a : α} {b : β} (hb : p b ↔ p (label a)) (x : α) :
    Q x ↔ p (Function.update label a b x) := by
  rw [h x]
  by_cases hx : x = a
  · rw [hx, Function.update_self]
    exact hb.symm
  · rw [Function.update_of_ne hx]

namespace Tallies

variable {l : List α} {label : α → β} {p : β → Prop} [DecidablePred p]

theorem nil (h : ∀ x, ¬p (label x)) : Tallies [] label p := by
  intro x
  rw [List.count_nil, if_neg (h x)]

theorem mem_iff (h : Tallies l label p) (x : α) : x ∈ l ↔ p (label x) := by
  rw [← List.count_pos_iff, h x]
  split
  · next hp => simp [hp]
  · next hp => simp [hp]

theorem count_eq_one (h : Tallies l label p) {x : α} (hx : p (label x)) : l.count x = 1 := by
  rw [h x, if_pos hx]

theorem count_eq_zero (h : Tallies l label p) {x : α} (hx : ¬p (label x)) :
    l.count x = 0 := by
  rw [h x, if_neg hx]

/-- The element moves between labels that agree on the predicate. -/
theorem relabel (h : Tallies l label p) {a : α} {b : β} (hb : p b ↔ p (label a)) :
    Tallies l (Function.update label a b) p := by
  intro x
  have hsame : ∀ y, p (label y) ↔ p (label y) := fun _ => Iff.rfl
  have hiff : p (label x) ↔ p (Function.update label a b x) := iff_relabel hsame hb x
  rw [h x]
  simp only [hiff]

/-- The element gains the predicate and is appended. -/
theorem concat (h : Tallies l label p) {a : α} {b : β} (ha : ¬p (label a)) (hb : p b) :
    Tallies (l ++ [a]) (Function.update label a b) p := by
  intro x
  rw [List.count_append, h x]
  by_cases hx : x = a
  · rw [hx, Function.update_self, if_neg ha, if_pos hb, List.count_singleton_self]
  · have hcount : [a].count x = 0 := List.count_eq_zero.mpr (by simpa using hx)
    rw [Function.update_of_ne hx, hcount, Nat.add_zero]

/-- The element at the head loses the predicate and is removed. -/
theorem tail {a : α} (h : Tallies (a :: l) label p) {b : β} (hb : ¬p b) :
    Tallies l (Function.update label a b) p := by
  intro x
  have hx := h x
  by_cases hxa : x = a
  · subst hxa
    rw [Function.update_self, if_neg hb]
    rw [List.count_cons_self] at hx
    split at hx
    · omega
    · omega
  · rw [Function.update_of_ne hxa, ← hx, List.count_cons_of_ne (Ne.symm hxa)]

theorem head {a : α} (h : Tallies (a :: l) label p) : p (label a) :=
  (h.mem_iff a).mp List.mem_cons_self

end Tallies

end PowerJudge
