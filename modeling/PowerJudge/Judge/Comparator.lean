import Mathlib.Tactic.SplitIfs
import PowerJudge.Core.Codes
import PowerJudge.Core.WaitStatus
import PowerJudge.Support.ByteStream
import PowerJudge.Support.Outcome

/-!
# The comparators

`oj_compare_output` reads the standard output and the user output side by side;
`oj_compare_output_spj` asks a special judge.  One iteration of the main loop of
the former is a step function, and every iteration that goes on leaves fewer
unread bytes.
-/

namespace PowerJudge

/-! ## `oj_compare_output` -/

def carriageReturn : UInt8 := 13

def newline : UInt8 := 10

/-- `is_space_char`. -/
def isSpaceChar (b : UInt8) : Bool := b = 32 ∨ b = 9 ∨ b = newline

/-- `if (a == '\r') a = '\n';` -/
def crToNewline (b : UInt8) : UInt8 := if b = carriageReturn then newline else b

theorem crToNewline_of_ne {b : UInt8} (h : b ≠ carriageReturn) : crToNewline b = b := by
  rw [crToNewline, if_neg h]

/-- The variables of the main loop. -/
structure CompareState where
  fpStd : ByteStream
  fpExe : ByteStream
  na : ℕ
  nb : ℕ
  status : OjResult
  deriving DecidableEq, Repr

/-- How one iteration of the main loop ends: `break` with a status, or the next
iteration. -/
inductive CompareStep where
  | leave (status : OjResult)
  | again (state : CompareState)
  deriving DecidableEq, Repr

/-- The loop over what follows the end of the shorter file. -/
def trailingStatus (status : OjResult) (rest : Bytes) : OjResult :=
  if rest.all fun c => isSpaceChar (crToNewline c) then status else .wa

/-- One iteration of the main loop. -/
def compareStep (s : CompareState) : CompareStep :=
  let readStd := s.fpStd.fgetcSkipping carriageReturn
  let readExe := s.fpExe.fgetcSkipping carriageReturn
  let na := s.na + 1
  let nb := s.nb + 1
  match readStd.1.map crToNewline, readExe.1.map crToNewline with
  | none, none => .leave s.status
  | none, some b =>
      if isSpaceChar b then .leave (trailingStatus s.status readExe.2.rest)
      else .leave .wa
  | some a, none =>
      if isSpaceChar a then .leave (trailingStatus s.status readStd.2.rest)
      else .leave .wa
  | some a, some b =>
      if a = b then .again ⟨readStd.2, readExe.2, na, nb, s.status⟩
      else if isSpaceChar a && isSpaceChar b then
        .again ⟨readStd.2, readExe.2, na, nb, .pe⟩
      else if isSpaceChar a then
        .again ⟨readStd.2, readExe.2.ungetc b, na, nb - 1, .pe⟩
      else if isSpaceChar b then
        .again ⟨readStd.2.ungetc a, readExe.2, na - 1, nb, .pe⟩
      else .leave .wa

def CompareState.unread (s : CompareState) : ℕ := s.fpStd.unread + s.fpExe.unread

/-- An iteration reads one byte of each file and pushes back at most one. -/
theorem compareStep_unread {s s' : CompareState} (h : compareStep s = .again s') :
    s'.unread < s.unread := by
  unfold compareStep at h
  rcases hstd : s.fpStd.fgetcSkipping carriageReturn with ⟨_ | a, std⟩
  · rcases hexe : s.fpExe.fgetcSkipping carriageReturn with ⟨_ | b, exe⟩
    · simp [hstd, hexe] at h
    · simp only [hstd, hexe, Option.map_none, Option.map_some] at h
      split at h <;> cases h
  · rcases hexe : s.fpExe.fgetcSkipping carriageReturn with ⟨_ | b, exe⟩
    · simp only [hstd, hexe, Option.map_none, Option.map_some] at h
      split at h <;> cases h
    · have hstdLt := ByteStream.unread_fgetcSkipping hstd
      have hexeLt := ByteStream.unread_fgetcSkipping hexe
      simp only [hstd, hexe, Option.map_some] at h
      split_ifs at h
      all_goals
        cases h
        simp only [CompareState.unread, ByteStream.unread_ungetc]
        omega

/-- The main loop. -/
def compareLoop (s : CompareState) : OjResult :=
  match _hstep : compareStep s with
  | .leave status => status
  | .again s' => compareLoop s'
termination_by s.unread
decreasing_by exact compareStep_unread _hstep

theorem compareLoop_of_leave {s : CompareState} {status : OjResult}
    (h : compareStep s = .leave status) : compareLoop s = status := by
  rw [compareLoop, h]

theorem compareLoop_of_again {s s' : CompareState} (h : compareStep s = .again s') :
    compareLoop s = compareLoop s' := by
  rw [compareLoop, h]

/-- `oj_compare_output` on the contents of the two files; `none` is a file that
cannot be opened. -/
def ojCompareOutput (fileOut fileUser : Option Bytes) : Outcome ExitReason OjResult :=
  match fileOut, fileUser with
  | none, _ => .exited .compare
  | some _, none => .exited .compare
  | some std, some exe => .returned (compareLoop ⟨⟨std⟩, ⟨exe⟩, 0, 0, .ac⟩)

/-! ## `oj_compare_output_spj` -/

/-- What the judge sees of the special judge: the status is also that of a child
which could not set its alarm or start the program. -/
inductive SpjRun where
  | forkFailed
  | waitFailed
  | ended (status : WaitStatus)
  deriving DecidableEq, Repr

/-- The `switch` over the exit status of the special judge. -/
def spjVerdict : ℕ → OjResult
  | 0 => .ac
  | 1 => .pe
  | 2 => .wa
  | _ => .ve

/-- `oj_compare_output_spj`. -/
def ojCompareOutputSpj : SpjRun → Outcome ExitReason OjResult
  | .forkFailed => .exited .compareSpj
  | .waitFailed => .exited .compareSpj
  | .ended status =>
      .returned (if status.ifExited then spjVerdict status.exitStatus else .ve)

/-! ## Possible outcomes -/

/-- The outcomes a comparison can have. -/
def IsCaseOutcome (result : OjResult) : Prop :=
  result = .ac ∨ result = .pe ∨ result = .wa ∨ result = .ve

/-- The status an iteration leaves or carries on with. -/
def CompareStep.status : CompareStep → OjResult
  | .leave status => status
  | .again state => state.status

theorem compareStep_status {s : CompareState} (hs : IsCaseOutcome s.status) :
    IsCaseOutcome (compareStep s).status := by
  have hwa : IsCaseOutcome .wa := by simp [IsCaseOutcome]
  have hpe : IsCaseOutcome .pe := by simp [IsCaseOutcome]
  have htrailing : ∀ rest, IsCaseOutcome (trailingStatus s.status rest) := by
    intro rest
    unfold trailingStatus
    split
    · exact hs
    · exact hwa
  unfold compareStep
  dsimp only
  split
  · exact hs
  · split
    · exact htrailing _
    · exact hwa
  · split
    · exact htrailing _
    · exact hwa
  · split_ifs
    · exact hs
    · exact hpe
    · exact hpe
    · exact hpe
    · exact hwa

theorem compareLoop_isCaseOutcome {s : CompareState} (hs : IsCaseOutcome s.status) :
    IsCaseOutcome (compareLoop s) := by
  induction s using compareLoop.induct with
  | case1 s status h =>
      rw [compareLoop_of_leave h]
      simpa [h, CompareStep.status] using compareStep_status hs
  | case2 s s' h ih =>
      rw [compareLoop_of_again h]
      exact ih (by simpa [h, CompareStep.status] using compareStep_status hs)

theorem ojCompareOutput_isCaseOutcome {fileOut fileUser : Option Bytes} {result : OjResult}
    (h : ojCompareOutput fileOut fileUser = .returned result) : IsCaseOutcome result := by
  cases fileOut with
  | none => cases h
  | some std =>
      cases fileUser with
      | none => cases h
      | some exe =>
          cases h
          exact compareLoop_isCaseOutcome (Or.inl rfl)

theorem spjVerdict_isCaseOutcome (code : ℕ) : IsCaseOutcome (spjVerdict code) := by
  unfold spjVerdict
  split
  all_goals simp [IsCaseOutcome]

theorem ojCompareOutputSpj_isCaseOutcome {run : SpjRun} {result : OjResult}
    (h : ojCompareOutputSpj run = .returned result) : IsCaseOutcome result := by
  cases run with
  | forkFailed => cases h
  | waitFailed => cases h
  | ended status =>
      cases h
      split
      · exact spjVerdict_isCaseOutcome _
      · simp [IsCaseOutcome]

end PowerJudge
