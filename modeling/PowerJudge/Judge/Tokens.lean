import PowerJudge.Judge.Comparison
import PowerJudge.Support.Tokens

/-!
# Tokens of accepted output

A carriage return separates tokens, but the comparator drops it.  What stands
between a byte of a token and the next such byte is its seam: nothing, carriage
returns alone, or something the comparator sees.  Accepted output has the right
tokens exactly when the seams of carriage returns alone are those of the
standard output.
-/

namespace PowerJudge

/-- Space, tab, newline and carriage return. -/
def isSeparator (b : UInt8) : Bool := isSpaceChar b || b = carriageReturn

/-- What stands between a byte of a token and the next such byte. -/
inductive Seam where
  | joined
  | returns
  | apart
  deriving DecidableEq, Repr

/-- The seam of a byte that is followed by `text`. -/
def seam (text : Bytes) : Seam :=
  if startsToken isSeparator text then .joined
  else if startsToken isSeparator (text.dropWhile fun b => b = carriageReturn) then .returns
  else .apart

/-- The bytes of the tokens with their seams. -/
def seams : Bytes → List (UInt8 × Seam)
  | [] => []
  | b :: text => if isSeparator b then seams text else (b, seam text) :: seams text

/-- For every byte of a token, whether carriage returns alone stand between it
and the next one. -/
def returnSeams (text : Bytes) : List Bool := (seams text).map fun s => s.2 = .returns

theorem isSeparator_of_ne {b : UInt8} (h : b ≠ carriageReturn) :
    isSeparator b = isSpaceChar b := by
  simp [isSeparator, h]

/-! ## Seams and joints -/

/-- Without carriage returns a text starts inside a token if it does so after
them. -/
theorem startsToken_withoutCr (text : Bytes) :
    startsToken isSpaceChar (withoutCr text) =
      startsToken isSeparator (text.dropWhile fun b => b = carriageReturn) := by
  induction text with
  | nil => rfl
  | cons b text ih =>
      by_cases hb : b = carriageReturn
      · subst hb
        simpa [withoutCr] using ih
      · rw [withoutCr_cons_of_ne hb]
        simp [startsToken, hb, isSeparator_of_ne hb]

theorem seam_eq_joined_iff (text : Bytes) :
    seam text = .joined ↔ startsToken isSeparator text = true := by
  unfold seam
  split_ifs with hjoined hreturns
  · exact iff_of_true rfl hjoined
  · exact iff_of_false (by simp) hjoined
  · exact iff_of_false (by simp) hjoined

theorem seam_ne_apart_iff (text : Bytes) :
    seam text ≠ .apart ↔ startsToken isSpaceChar (withoutCr text) = true := by
  rw [startsToken_withoutCr]
  unfold seam
  split_ifs with hjoined hreturns
  · refine iff_of_true (by simp) ?_
    cases text with
    | nil => simp [startsToken] at hjoined
    | cons b text =>
        have hb : b ≠ carriageReturn := by
          rintro rfl
          simp [startsToken, isSeparator] at hjoined
        simpa [hb] using hjoined
  · exact iff_of_true (by simp) hreturns
  · exact iff_of_false (by simp) hreturns

theorem joints_isSeparator (text : Bytes) :
    joints isSeparator text = (seams text).map fun s => (s.1, decide (s.2 = .joined)) := by
  induction text with
  | nil => rfl
  | cons b text ih =>
      cases hb : isSeparator b with
      | true => simp [joints, seams, hb, ih]
      | false => simp [joints, seams, hb, ih, seam_eq_joined_iff]

theorem joints_withoutCr (text : Bytes) :
    joints isSpaceChar (withoutCr text) =
      (seams text).map fun s => (s.1, decide (s.2 ≠ .apart)) := by
  induction text with
  | nil => rfl
  | cons b text ih =>
      by_cases hcr : b = carriageReturn
      · subst hcr
        simpa [withoutCr, seams, isSeparator] using ih
      · rw [withoutCr_cons_of_ne hcr]
        have hseam : startsToken isSpaceChar (withoutCr text) = decide (seam text ≠ .apart) := by
          rw [Bool.eq_iff_iff, decide_eq_true_iff]
          exact (seam_ne_apart_iff text).symm
        cases hb : isSpaceChar b with
        | true => simp [joints, seams, isSeparator_of_ne hcr, hb, ih]
        | false => simp [joints, seams, isSeparator_of_ne hcr, hb, ih, hseam]

/-- Of two texts whose seams differ at most between `joined` and `returns`, the
joined ones are the same exactly if the others are. -/
theorem joined_eq_iff {l l' : List (UInt8 × Seam)}
    (h : (l.map fun s => (s.1, decide (s.2 ≠ .apart))) =
      l'.map fun s => (s.1, decide (s.2 ≠ .apart))) :
    ((l.map fun s => (s.1, decide (s.2 = .joined))) =
        l'.map fun s => (s.1, decide (s.2 = .joined))) ↔
      (l.map fun s => decide (s.2 = .returns)) = l'.map fun s => decide (s.2 = .returns) := by
  induction l generalizing l' with
  | nil =>
      have hnil : l' = [] := by simpa using h.symm
      simp [hnil]
  | cons s l ih =>
      cases l' with
      | nil => simp at h
      | cons s' l' =>
          obtain ⟨b, seam⟩ := s
          obtain ⟨b', seam'⟩ := s'
          rw [List.map_cons, List.map_cons, List.cons.injEq, Prod.mk.injEq] at h
          obtain ⟨⟨rfl : b = b', hseam⟩, htail⟩ := h
          simp only [List.map_cons, List.cons.injEq, Prod.mk.injEq, true_and, ih htail]
          refine and_congr_left fun _ => ?_
          cases seam <;> cases seam' <;> simp_all

/-! ## The tokens of files that agree -/

theorem tokens_eq_iff_of_agree {std exe : Bytes} (h : Agree (withoutCr std) (withoutCr exe)) :
    tokens isSeparator std = tokens isSeparator exe ↔ returnSeams std = returnSeams exe := by
  have hjoints := h.joints_eq
  rw [joints_withoutCr, joints_withoutCr] at hjoints
  rw [tokens_eq_iff, joints_isSeparator, joints_isSeparator, joined_eq_iff hjoints]
  rfl

/-- Accepted output has the tokens of the standard output, exactly if the seams
of carriage returns alone are the same once the files agree without carriage
returns. -/
theorem accepted_tokens_iff (std exe : Bytes) :
    (ojCompareOutput (some std) (some exe) = .returned .ac →
        tokens isSeparator std = tokens isSeparator exe) ↔
      (Agree (withoutCr std) (withoutCr exe) → returnSeams std = returnSeams exe) := by
  rw [ojCompareOutput_eq, Outcome.returned.injEq, expectedStatus_ac_eq_ac_iff]
  exact forall_congr' fun hagree => tokens_eq_iff_of_agree hagree

/-- A carriage return between two letters is one token break that the comparator
does not see. -/
theorem accepted_tokens_differ :
    ojCompareOutput (some [97, 13, 98]) (some [97, 98]) = .returned .ac ∧
      tokens isSeparator [97, 13, 98] ≠ tokens isSeparator [97, 98] := by
  constructor
  · rw [ojCompareOutput_eq]
    decide
  · decide

end PowerJudge
