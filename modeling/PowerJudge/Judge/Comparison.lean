import PowerJudge.Judge.Comparator
import PowerJudge.Support.Blanks

/-!
# What the comparator decides

The loop of `oj_compare_output` never sees a carriage return, so its verdict is
that of the two texts without theirs.  One iteration keeps the verdict expected
of the unread texts, and the expected verdict of the whole files is the closed
form.
-/

namespace PowerJudge

/-- A file without its carriage returns. -/
def withoutCr (text : Bytes) : Bytes := text.filter fun b => b ≠ carriageReturn

@[simp] theorem withoutCr_nil : withoutCr [] = [] := rfl

theorem withoutCr_cons_of_ne {b : UInt8} (h : b ≠ carriageReturn) (text : Bytes) :
    withoutCr (b :: text) = b :: withoutCr text := by
  simp [withoutCr, h]

theorem withoutCr_append (first second : Bytes) :
    withoutCr (first ++ second) = withoutCr first ++ withoutCr second :=
  List.filter_append _ _

/-- The two texts are the same up to blanks at the end of one of them. -/
abbrev Agree (a b : Bytes) : Prop := AgreeToTail isSpaceChar a b

/-- The bytes of a text that are not blank. -/
abbrev nonBlank (text : Bytes) : Bytes := visible isSpaceChar text

/-! ## The expected verdict -/

/-- The verdict on two texts without carriage returns, when the comparison has
been left with `status` so far. -/
def expectedStatus (status : OjResult) (a b : Bytes) : OjResult :=
  if nonBlank a ≠ nonBlank b then .wa
  else if Agree a b then status
  else .pe

theorem expectedStatus_nil_nil (status : OjResult) : expectedStatus status [] [] = status := by
  simp [expectedStatus, AgreeToTail.refl]

theorem expectedStatus_nil_left (status : OjResult) (b : Bytes) :
    expectedStatus status [] b = if b.all isSpaceChar then status else .wa := by
  have hvisible : nonBlank b = [] ↔ b.all isSpaceChar = true := visible_eq_nil_iff
  have hagree : Agree [] b ↔ b.all isSpaceChar = true := agreeToTail_nil_left_iff
  simp only [expectedStatus, visible_nil, ne_eq, eq_comm (a := ([] : Bytes)), hvisible, hagree]
  by_cases hb : b.all isSpaceChar = true
  · simp [hb]
  · simp [hb]

theorem expectedStatus_comm (status : OjResult) (a b : Bytes) :
    expectedStatus status a b = expectedStatus status b a := by
  have hagree : Agree a b ↔ Agree b a := agreeToTail_comm
  simp only [expectedStatus, hagree, ne_comm (a := nonBlank a)]

theorem expectedStatus_cons_self (status : OjResult) (x : UInt8) (a b : Bytes) :
    expectedStatus status (x :: a) (x :: b) = expectedStatus status a b := by
  have hagree : Agree (x :: a) (x :: b) ↔ Agree a b := by
    simp [Agree, agreeToTail_cons_cons_iff]
  have hvisible : nonBlank (x :: a) = nonBlank (x :: b) ↔ nonBlank a = nonBlank b := by
    cases hx : isSpaceChar x with
    | true => rw [nonBlank, nonBlank, visible_cons_of_blank hx, visible_cons_of_blank hx]
    | false =>
        rw [nonBlank, nonBlank, visible_cons_of_not_blank hx, visible_cons_of_not_blank hx]
        simp
  simp only [expectedStatus, ne_eq, hagree, hvisible]

/-- Once the status is `PE`, only the bytes that are not blank matter. -/
theorem expectedStatus_pe (a b : Bytes) :
    expectedStatus .pe a b = if nonBlank a ≠ nonBlank b then .wa else .pe := by
  simp only [expectedStatus, ite_self]

/-- A blank that is not matched makes the status `PE`. -/
theorem expectedStatus_blank_left (status : OjResult) {x y : UInt8} (hxy : x ≠ y)
    (hx : isSpaceChar x = true) (a b : Bytes) :
    expectedStatus status (x :: a) (y :: b) = expectedStatus .pe a (y :: b) := by
  have hagree : ¬Agree (x :: a) (y :: b) := by
    simp [Agree, agreeToTail_cons_cons_iff, hxy]
  have hvisible : nonBlank (x :: a) = nonBlank a := visible_cons_of_blank hx a
  rw [expectedStatus_pe, expectedStatus, if_neg hagree, hvisible]

theorem expectedStatus_blank_right (status : OjResult) {x y : UInt8} (hxy : x ≠ y)
    (hy : isSpaceChar y = true) (a b : Bytes) :
    expectedStatus status (x :: a) (y :: b) = expectedStatus .pe (x :: a) b := by
  rw [expectedStatus_comm, expectedStatus_blank_left status hxy.symm hy, expectedStatus_comm]

theorem expectedStatus_blank_both (status : OjResult) {x y : UInt8} (hxy : x ≠ y)
    (hx : isSpaceChar x = true) (hy : isSpaceChar y = true) (a b : Bytes) :
    expectedStatus status (x :: a) (y :: b) = expectedStatus .pe a b := by
  have hvisible : nonBlank (y :: b) = nonBlank b := visible_cons_of_blank hy b
  rw [expectedStatus_blank_left status hxy hx, expectedStatus_pe, expectedStatus_pe, hvisible]

theorem expectedStatus_differ (status : OjResult) {x y : UInt8} (hxy : x ≠ y)
    (hx : isSpaceChar x = false) (hy : isSpaceChar y = false) (a b : Bytes) :
    expectedStatus status (x :: a) (y :: b) = .wa := by
  have hvisible : nonBlank (x :: a) ≠ nonBlank (y :: b) := by
    rw [nonBlank, nonBlank, visible_cons_of_not_blank hx, visible_cons_of_not_blank hy]
    simp [hxy]
  rw [expectedStatus, if_pos hvisible]

/-! ## One iteration -/

/-- The verdict expected of what is left to compare. -/
def CompareState.expected (s : CompareState) : OjResult :=
  expectedStatus s.status (withoutCr s.fpStd.rest) (withoutCr s.fpExe.rest)

/-- The verdict an iteration leaves with, or the one expected after it. -/
def CompareStep.expected : CompareStep → OjResult
  | .leave status => status
  | .again state => state.expected

/-- The loop over what follows the end of the shorter file takes carriage
returns for newlines, so it decides as if they were not there. -/
theorem trailingStatus_eq (status : OjResult) (rest : Bytes) :
    trailingStatus status rest = if (withoutCr rest).all isSpaceChar then status else .wa := by
  have hall : (rest.all fun c => isSpaceChar (crToNewline c)) =
      (withoutCr rest).all isSpaceChar := by
    induction rest with
    | nil => rfl
    | cons b rest ih =>
        by_cases hb : b = carriageReturn
        · subst hb
          simpa [withoutCr, crToNewline, isSpaceChar] using ih
        · rw [withoutCr_cons_of_ne hb, List.all_cons, List.all_cons, ih, crToNewline_of_ne hb]
  rw [trailingStatus, hall]

theorem fgetcSkipping_carriageReturn (s : ByteStream) :
    (withoutCr s.rest = [] ∧ s.fgetcSkipping carriageReturn = (none, ⟨[]⟩)) ∨
      ∃ b s', b ≠ carriageReturn ∧ s.fgetcSkipping carriageReturn = (some b, s') ∧
        withoutCr s.rest = b :: withoutCr s'.rest :=
  s.fgetcSkipping_cases carriageReturn

theorem withoutCr_ungetc {b : UInt8} (h : b ≠ carriageReturn) (s : ByteStream) :
    withoutCr (s.ungetc b).rest = b :: withoutCr s.rest :=
  withoutCr_cons_of_ne h s.rest

/-- An iteration keeps the expected verdict. -/
theorem compareStep_expected (s : CompareState) : (compareStep s).expected = s.expected := by
  obtain ⟨std, exe, na, nb, status⟩ := s
  change _ = expectedStatus status (withoutCr std.rest) (withoutCr exe.rest)
  rcases fgetcSkipping_carriageReturn std with
    ⟨hstd, hreadStd⟩ | ⟨a, std', ha, hreadStd, hstd⟩
  · rcases fgetcSkipping_carriageReturn exe with
      ⟨hexe, hreadExe⟩ | ⟨b, exe', hb, hreadExe, hexe⟩
    · rw [hstd, hexe, expectedStatus_nil_nil]
      simp [compareStep, hreadStd, hreadExe, CompareStep.expected]
    · rw [hstd, hexe, expectedStatus_nil_left]
      cases hspace : isSpaceChar b with
      | true =>
          simp [compareStep, hreadStd, hreadExe, CompareStep.expected, crToNewline_of_ne hb,
            hspace, trailingStatus_eq]
      | false =>
          simp [compareStep, hreadStd, hreadExe, CompareStep.expected, crToNewline_of_ne hb,
            hspace]
  · rcases fgetcSkipping_carriageReturn exe with
      ⟨hexe, hreadExe⟩ | ⟨b, exe', hb, hreadExe, hexe⟩
    · rw [hstd, hexe, expectedStatus_comm, expectedStatus_nil_left]
      cases hspace : isSpaceChar a with
      | true =>
          simp [compareStep, hreadStd, hreadExe, CompareStep.expected, crToNewline_of_ne ha,
            hspace, trailingStatus_eq]
      | false =>
          simp [compareStep, hreadStd, hreadExe, CompareStep.expected, crToNewline_of_ne ha,
            hspace]
    · rw [hstd, hexe]
      simp only [compareStep, hreadStd, hreadExe, Option.map_some, crToNewline_of_ne ha,
        crToNewline_of_ne hb]
      by_cases hab : a = b
      · subst hab
        rw [if_pos rfl, expectedStatus_cons_self]
        rfl
      rw [if_neg hab]
      cases hspaceA : isSpaceChar a with
      | true =>
          cases hspaceB : isSpaceChar b with
          | true =>
              rw [expectedStatus_blank_both status hab hspaceA hspaceB]
              rfl
          | false =>
              rw [expectedStatus_blank_left status hab hspaceA]
              simp [CompareStep.expected, CompareState.expected, withoutCr_ungetc hb]
      | false =>
          cases hspaceB : isSpaceChar b with
          | true =>
              rw [expectedStatus_blank_right status hab hspaceB]
              simp [CompareStep.expected, CompareState.expected, withoutCr_ungetc ha]
          | false =>
              rw [expectedStatus_differ status hab hspaceA hspaceB]
              rfl

/-! ## The main loop -/

theorem compareLoop_eq_expected (s : CompareState) : compareLoop s = s.expected := by
  induction s using compareLoop.induct with
  | case1 s status h =>
      rw [compareLoop_of_leave h, ← compareStep_expected, h]
      rfl
  | case2 s s' h ih =>
      rw [compareLoop_of_again h, ← compareStep_expected, h]
      exact ih

/-- The verdict on two files that can be opened. -/
theorem ojCompareOutput_eq (std exe : Bytes) :
    ojCompareOutput (some std) (some exe) =
      .returned (expectedStatus .ac (withoutCr std) (withoutCr exe)) :=
  congrArg Outcome.returned (compareLoop_eq_expected _)

theorem expectedStatus_ac_eq_ac_iff {a b : Bytes} :
    expectedStatus .ac a b = .ac ↔ Agree a b := by
  unfold expectedStatus
  split_ifs with hvisible hagree
  · exact iff_of_false (by simp) fun h => hvisible h.visible_eq
  · exact iff_of_true rfl hagree
  · exact iff_of_false (by simp) hagree

theorem expectedStatus_ac_eq_wa_iff {a b : Bytes} :
    expectedStatus .ac a b = .wa ↔ nonBlank a ≠ nonBlank b := by
  unfold expectedStatus
  split_ifs with hvisible hagree
  · exact iff_of_true rfl hvisible
  · exact iff_of_false (by simp) hvisible
  · exact iff_of_false (by simp) hvisible

theorem expectedStatus_ac_eq_pe_iff {a b : Bytes} :
    expectedStatus .ac a b = .pe ↔ nonBlank a = nonBlank b ∧ ¬Agree a b := by
  unfold expectedStatus
  split_ifs with hvisible hagree
  · exact iff_of_false (by simp) fun h => hvisible h.1
  · exact iff_of_false (by simp) fun h => h.2 hagree
  · exact iff_of_true rfl ⟨not_not.mp hvisible, hagree⟩

/-! ## The closed form -/

theorem ojCompareOutput_comm (std exe : Bytes) :
    ojCompareOutput (some std) (some exe) = ojCompareOutput (some exe) (some std) := by
  rw [ojCompareOutput_eq, ojCompareOutput_eq, expectedStatus_comm]

/-- Only the texts without carriage returns matter. -/
theorem ojCompareOutput_congr {std std' exe exe' : Bytes}
    (hstd : withoutCr std = withoutCr std') (hexe : withoutCr exe = withoutCr exe') :
    ojCompareOutput (some std) (some exe) = ojCompareOutput (some std') (some exe') := by
  rw [ojCompareOutput_eq, ojCompareOutput_eq, hstd, hexe]

theorem withoutCr_insert (first second : Bytes) :
    withoutCr (first ++ carriageReturn :: second) = withoutCr (first ++ second) := by
  rw [withoutCr_append, withoutCr_append]
  simp [withoutCr]

/-- The exact meaning of the comparator.  Let the files be read without their
carriage returns.  `OJ_AC` says that one is the other followed by blanks,
`OJ_WA` that their bytes other than blanks differ, and `OJ_PE` is the rest.  The
verdict is symmetric, and a carriage return never changes it. -/
theorem comparator_verdicts (std exe : Bytes) :
    (ojCompareOutput (some std) (some exe) = .returned .ac ↔
      ∃ w : Bytes, w.all isSpaceChar = true ∧
        (withoutCr std = withoutCr exe ++ w ∨ withoutCr exe = withoutCr std ++ w)) ∧
    (ojCompareOutput (some std) (some exe) = .returned .wa ↔
      (withoutCr std).filter (fun b => !isSpaceChar b) ≠
        (withoutCr exe).filter (fun b => !isSpaceChar b)) ∧
    (ojCompareOutput (some std) (some exe) = .returned .pe ↔
      ojCompareOutput (some std) (some exe) ≠ .returned .ac ∧
        ojCompareOutput (some std) (some exe) ≠ .returned .wa) ∧
    ojCompareOutput (some std) (some exe) = ojCompareOutput (some exe) (some std) ∧
    (∀ first second : Bytes,
      ojCompareOutput (some (first ++ carriageReturn :: second)) (some exe) =
        ojCompareOutput (some (first ++ second)) (some exe)) ∧
    (∀ first second : Bytes,
      ojCompareOutput (some std) (some (first ++ carriageReturn :: second)) =
        ojCompareOutput (some std) (some (first ++ second))) := by
  have hac : ojCompareOutput (some std) (some exe) = .returned .ac ↔
      Agree (withoutCr std) (withoutCr exe) := by
    rw [ojCompareOutput_eq, Outcome.returned.injEq, expectedStatus_ac_eq_ac_iff]
  have hwa : ojCompareOutput (some std) (some exe) = .returned .wa ↔
      nonBlank (withoutCr std) ≠ nonBlank (withoutCr exe) := by
    rw [ojCompareOutput_eq, Outcome.returned.injEq, expectedStatus_ac_eq_wa_iff]
  have hpe : ojCompareOutput (some std) (some exe) = .returned .pe ↔
      nonBlank (withoutCr std) = nonBlank (withoutCr exe) ∧
        ¬Agree (withoutCr std) (withoutCr exe) := by
    rw [ojCompareOutput_eq, Outcome.returned.injEq, expectedStatus_ac_eq_pe_iff]
  refine ⟨hac, hwa, ?_, ojCompareOutput_comm std exe, ?_, ?_⟩
  · rw [ne_eq, ne_eq, hac, hwa, not_not, hpe]
    exact and_comm
  · intro first second
    exact ojCompareOutput_congr (withoutCr_insert first second) rfl
  · intro first second
    exact ojCompareOutput_congr rfl (withoutCr_insert first second)

end PowerJudge
