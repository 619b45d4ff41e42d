import Mathlib.Algebra.Order.Group.Unbundled.Int
import Mathlib.Data.List.Count
import Mathlib.Logic.Function.Basic

/-!
# Quota ledgers

A ledger gives every key a number of remaining uses; a negative number means
that the key is unlimited.  A use of a limited key is charged to it, and the
first use of an exhausted key is an overdraft.  The module is independent of
what the keys are.
-/

namespace PowerJudge

/-- Remaining uses of every key; negative means unlimited. -/
abbrev Ledger (κ : Type*) := κ → ℤ

namespace Ledger

variable {κ : Type*} [DecidableEq κ]

/-- Charge one use to a key that is limited and not exhausted. -/
def charge (ledger : Ledger κ) (key : κ) : Ledger κ :=
  if 0 < ledger key then Function.update ledger key (ledger key - 1) else ledger

theorem charge_of_neg {ledger : Ledger κ} {key : κ} (h : ledger key < 0) :
    ledger.charge key = ledger := by
  rw [charge, if_neg (by omega)]

theorem charge_self {ledger : Ledger κ} {key : κ} (h : 0 < ledger key) :
    ledger.charge key key = ledger key - 1 := by
  simp [charge, h]

theorem charge_of_ne {ledger : Ledger κ} {key other : κ} (h : other ≠ key) :
    ledger.charge key other = ledger other := by
  unfold charge
  split
  · exact Function.update_of_ne h _ _
  · rfl

/-- A charge never raises a limited key, never makes it negative, and leaves an
unlimited key alone. -/
theorem charge_bounds (ledger : Ledger κ) (key other : κ) :
    (0 ≤ ledger other →
      0 ≤ ledger.charge key other ∧ ledger.charge key other ≤ ledger other) ∧
    (ledger other < 0 → ledger.charge key other = ledger other) := by
  by_cases h : other = key
  · subst h
    by_cases hpos : 0 < ledger other
    · rw [charge_self hpos]
      omega
    · rw [charge, if_neg hpos]
      omega
  · rw [charge_of_ne h]
    omega

/-- Use number `i` falls on a limited key all of whose uses are spent. -/
def Overdrawn (ledger : Ledger κ) (uses : List κ) (i : ℕ) : Prop :=
  ∃ key, uses[i]? = some key ∧ 0 ≤ ledger key ∧
    ledger key ≤ ((uses.take i).count key : ℤ)

theorem not_overdrawn_nil (ledger : Ledger κ) (i : ℕ) :
    ¬ledger.Overdrawn [] i := by
  rintro ⟨key, hkey, -⟩
  simp at hkey

theorem overdrawn_zero_iff {ledger : Ledger κ} {key : κ} {uses : List κ} :
    ledger.Overdrawn (key :: uses) 0 ↔ ledger key = 0 := by
  constructor
  · rintro ⟨key', hkey, hnonneg, hspent⟩
    obtain rfl : key = key' := by simpa using hkey
    simp at hspent
    omega
  · intro h
    exact ⟨key, rfl, by omega, by simp [h]⟩

/-- Once the first use is charged, later overdrafts are those of the charged
ledger. -/
theorem overdrawn_succ_iff {ledger : Ledger κ} {key : κ} {uses : List κ} {i : ℕ}
    (hkey : ledger key ≠ 0) :
    ledger.Overdrawn (key :: uses) (i + 1) ↔ (ledger.charge key).Overdrawn uses i := by
  have hcount : ∀ other, ((List.take (i + 1) (key :: uses)).count other : ℤ) =
      ((uses.take i).count other : ℤ) + if key = other then 1 else 0 := by
    intro other
    by_cases h : key = other
    · simp [h]
    · simp [h]
  unfold Overdrawn
  refine exists_congr fun other => ?_
  rw [hcount, List.getElem?_cons_succ]
  by_cases h : key = other
  · subst h
    rcases lt_or_gt_of_ne hkey with hneg | hpos
    · rw [charge_of_neg hneg]
      constructor
      · rintro ⟨_, hnonneg, _⟩
        omega
      · rintro ⟨_, hnonneg, _⟩
        omega
    · rw [charge_self hpos]
      simp only [if_true]
      constructor
      · rintro ⟨hget, hnonneg, hspent⟩
        exact ⟨hget, by omega, by omega⟩
      · rintro ⟨hget, hnonneg, hspent⟩
        exact ⟨hget, by omega, by omega⟩
  · rw [charge_of_ne (Ne.symm h)]
    simp [h]

/-- Use number `i` is the first overdraft. -/
def FirstOverdraft (ledger : Ledger κ) (uses : List κ) (i : ℕ) : Prop :=
  ledger.Overdrawn uses i ∧ ∀ j < i, ¬ledger.Overdrawn uses j

/-- Only the keys that are used matter. -/
theorem overdrawn_congr {ledger ledger' : Ledger κ} {uses : List κ}
    (h : ∀ key ∈ uses, ledger key = ledger' key) (i : ℕ) :
    ledger.Overdrawn uses i ↔ ledger'.Overdrawn uses i := by
  refine exists_congr fun key => and_congr_right fun hkey => ?_
  rw [h key (List.mem_of_getElem? hkey)]

theorem firstOverdraft_congr {ledger ledger' : Ledger κ} {uses : List κ}
    (h : ∀ key ∈ uses, ledger key = ledger' key) (i : ℕ) :
    ledger.FirstOverdraft uses i ↔ ledger'.FirstOverdraft uses i := by
  simp only [FirstOverdraft, overdrawn_congr h]

theorem firstOverdraft_zero_iff {ledger : Ledger κ} {key : κ} {uses : List κ} :
    ledger.FirstOverdraft (key :: uses) 0 ↔ ledger key = 0 := by
  simp [FirstOverdraft, overdrawn_zero_iff]

theorem firstOverdraft_succ_iff {ledger : Ledger κ} {key : κ} {uses : List κ} {i : ℕ}
    (hkey : ledger key ≠ 0) :
    ledger.FirstOverdraft (key :: uses) (i + 1) ↔
      (ledger.charge key).FirstOverdraft uses i := by
  unfold FirstOverdraft
  rw [overdrawn_succ_iff hkey]
  refine and_congr_right fun _ => ?_
  constructor
  · intro h j hj
    rw [← overdrawn_succ_iff hkey]
    exact h (j + 1) (by omega)
  · intro h j hj
    cases j with
    | zero => rwa [overdrawn_zero_iff]
    | succ j =>
        rw [overdrawn_succ_iff hkey]
        exact h j (by omega)

end Ledger

end PowerJudge
