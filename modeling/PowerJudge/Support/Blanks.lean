import Mathlib.Data.List.Basic
import Mathlib.Tactic.SplitIfs

/-!
# Texts up to trailing blanks

Two texts agree up to trailing blanks when one of them is the other followed by
blanks only.  Coarser than that is equality of the visible symbols.  The module
is independent of the alphabet and of which symbols are blank.
-/

namespace PowerJudge

variable {α : Type*} (blank : α → Bool)

/-- The symbols that are not blank, in order. -/
def visible (xs : List α) : List α := xs.filter fun x => !blank x

/-- One of the texts is the other followed by blanks. -/
def AgreeToTail (xs ys : List α) : Prop :=
  ∃ w : List α, w.all blank = true ∧ (xs = ys ++ w ∨ ys = xs ++ w)

variable {blank}

/-! ## Visible symbols -/

@[simp] theorem visible_nil : visible blank [] = [] := rfl

theorem visible_append (xs ys : List α) :
    visible blank (xs ++ ys) = visible blank xs ++ visible blank ys :=
  List.filter_append _ _

theorem visible_cons_of_blank {x : α} (h : blank x = true) (xs : List α) :
    visible blank (x :: xs) = visible blank xs := by
  simp [visible, h]

theorem visible_cons_of_not_blank {x : α} (h : blank x = false) (xs : List α) :
    visible blank (x :: xs) = x :: visible blank xs := by
  simp [visible, h]

theorem visible_eq_nil_iff {xs : List α} : visible blank xs = [] ↔ xs.all blank = true := by
  simp [visible, List.filter_eq_nil_iff]

/-! ## Agreement -/

theorem AgreeToTail.refl (xs : List α) : AgreeToTail blank xs xs :=
  ⟨[], rfl, Or.inl (List.append_nil xs).symm⟩

theorem AgreeToTail.symm {xs ys : List α} (h : AgreeToTail blank xs ys) :
    AgreeToTail blank ys xs := by
  obtain ⟨w, hw, hxs | hys⟩ := h
  · exact ⟨w, hw, Or.inr hxs⟩
  · exact ⟨w, hw, Or.inl hys⟩

theorem agreeToTail_comm {xs ys : List α} :
    AgreeToTail blank xs ys ↔ AgreeToTail blank ys xs :=
  ⟨AgreeToTail.symm, AgreeToTail.symm⟩

theorem AgreeToTail.visible_eq {xs ys : List α} (h : AgreeToTail blank xs ys) :
    visible blank xs = visible blank ys := by
  obtain ⟨w, hw, rfl | rfl⟩ := h
  · rw [visible_append, visible_eq_nil_iff.mpr hw, List.append_nil]
  · rw [visible_append, visible_eq_nil_iff.mpr hw, List.append_nil]

theorem agreeToTail_nil_left_iff {ys : List α} :
    AgreeToTail blank [] ys ↔ ys.all blank = true := by
  constructor
  · rintro ⟨w, hw, hxs | hys⟩
    · have hnil : ys = [] := (List.append_eq_nil_iff.mp hxs.symm).1
      rw [hnil]
      rfl
    · rw [hys]
      exact hw
  · intro h
    exact ⟨ys, h, Or.inr rfl⟩

theorem agreeToTail_nil_right_iff {xs : List α} :
    AgreeToTail blank xs [] ↔ xs.all blank = true := by
  rw [agreeToTail_comm, agreeToTail_nil_left_iff]

theorem agreeToTail_cons_cons_iff {x y : α} {xs ys : List α} :
    AgreeToTail blank (x :: xs) (y :: ys) ↔ x = y ∧ AgreeToTail blank xs ys := by
  constructor
  · rintro ⟨w, hw, h | h⟩
    · obtain ⟨hhead, htail⟩ := List.cons.inj h
      exact ⟨hhead, w, hw, Or.inl htail⟩
    · obtain ⟨hhead, htail⟩ := List.cons.inj h
      exact ⟨hhead.symm, w, hw, Or.inr htail⟩
  · rintro ⟨rfl, w, hw, rfl | rfl⟩
    · exact ⟨w, hw, Or.inl rfl⟩
    · exact ⟨w, hw, Or.inr rfl⟩

/-- Agreement survives the deletion of the same symbols from both texts. -/
theorem AgreeToTail.filter {xs ys : List α} (keep : α → Bool)
    (h : AgreeToTail blank xs ys) :
    AgreeToTail blank (xs.filter keep) (ys.filter keep) := by
  obtain ⟨w, hw, hxs⟩ := h
  refine ⟨w.filter keep, ?_, ?_⟩
  · rw [List.all_eq_true] at hw ⊢
    intro x hx
    exact hw x (List.mem_of_mem_filter hx)
  · rcases hxs with rfl | rfl
    · exact Or.inl (List.filter_append _ _)
    · exact Or.inr (List.filter_append _ _)

/-- Agreement by comparing symbol by symbol. -/
def agreesToTail [DecidableEq α] (blank : α → Bool) : List α → List α → Bool
  | [], ys => ys.all blank
  | xs@(_ :: _), [] => xs.all blank
  | x :: xs, y :: ys => x = y && agreesToTail blank xs ys

theorem agreesToTail_iff [DecidableEq α] {xs ys : List α} :
    agreesToTail blank xs ys = true ↔ AgreeToTail blank xs ys := by
  induction xs generalizing ys with
  | nil => exact agreeToTail_nil_left_iff.symm
  | cons x xs ih =>
      cases ys with
      | nil => exact agreeToTail_nil_right_iff.symm
      | cons y ys =>
          rw [agreeToTail_cons_cons_iff, ← ih]
          simp [agreesToTail]

instance [DecidableEq α] (blank : α → Bool) (xs ys : List α) :
    Decidable (AgreeToTail blank xs ys) :=
  decidable_of_iff (agreesToTail blank xs ys = true) agreesToTail_iff

/-! ## Deleting one of the blanks -/

variable [DecidableEq α]

/-- A symbol other than `gap` comes after the first `gap`. -/
def resumesAfter (gap : α) (xs : List α) : Bool := (xs.dropWhile (· ≠ gap)).any (· ≠ gap)

theorem resumesAfter_cons_self (gap : α) (xs : List α) :
    resumesAfter gap (gap :: xs) = true ↔ xs.filter (· ≠ gap) ≠ [] := by
  simp [resumesAfter, List.filter_eq_nil_iff]

theorem resumesAfter_cons_of_ne {gap x : α} (h : x ≠ gap) (xs : List α) :
    resumesAfter gap (x :: xs) = resumesAfter gap xs := by
  simp [resumesAfter, h]

/-- Texts that agree still do so when the blank `gap` is deleted from one of
them, unless the other one has it and something follows it in the first. -/
theorem AgreeToTail.filter_left_iff {gap : α} (hgap : blank gap = true) {xs ys : List α}
    (h : AgreeToTail blank xs ys) :
    AgreeToTail blank (xs.filter (· ≠ gap)) ys ↔
      ¬(gap ∈ ys ∧ resumesAfter gap xs = true) := by
  induction xs generalizing ys with
  | nil => simpa [resumesAfter] using h
  | cons x xs ih =>
      cases ys with
      | nil => simpa using h.filter (· ≠ gap)
      | cons y ys =>
          obtain ⟨rfl, htail⟩ := agreeToTail_cons_cons_iff.mp h
          by_cases hx : x = gap
          · subst hx
            rw [resumesAfter_cons_self]
            have hdeleted : (x :: xs).filter (· ≠ x) = xs.filter (· ≠ x) := by simp
            rw [hdeleted]
            cases hrest : xs.filter (· ≠ x) with
            | nil =>
                have hvisible : visible blank (x :: ys) = [] := by
                  have hxs : visible blank xs = [] := by
                    rw [visible_eq_nil_iff, List.all_eq_true]
                    intro z hz
                    have hzx : z = x := by simpa using List.filter_eq_nil_iff.mp hrest z hz
                    rw [hzx]
                    exact hgap
                  rw [visible_cons_of_blank hgap, ← htail.visible_eq, hxs]
                rw [agreeToTail_nil_left_iff, ← visible_eq_nil_iff]
                simp [hvisible]
            | cons z zs =>
                have hz : z ≠ x := by
                  have hmem : z ∈ xs.filter (· ≠ x) := hrest ▸ List.mem_cons_self
                  simpa using List.of_mem_filter hmem
                simp [agreeToTail_cons_cons_iff, hz]
          · have hkept : (x :: xs).filter (· ≠ gap) = x :: xs.filter (· ≠ gap) := by simp [hx]
            rw [hkept, agreeToTail_cons_cons_iff, ih htail, resumesAfter_cons_of_ne hx]
            simp [Ne.symm hx]

end PowerJudge
