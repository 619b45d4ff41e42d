import PowerJudge.Judge.Arguments
import PowerJudge.Judge.Comparison
import PowerJudge.Support.Lines

/-!
# The report of a difference

On `OJ_PE` and `OJ_WA` the comparison calls `make_diff_out2`, which reads both
files line by line into two buffers that it never clears, and appends what the
buffers hold at the first difference to `diff.out`.
-/

namespace PowerJudge

/-! ## `make_diff_out2` -/

/-- `"<EOF>"`, copied without its terminator. -/
def eofMark : Bytes := ascii "<EOF>"

/-- `basename`. -/
def basename (path : Bytes) : Bytes := (path.reverse.takeWhile fun b => b ≠ slash).reverse

/-- What is printed about a difference. -/
structure DiffRecord where
  name : Bytes
  line : ℤ
  expect : Bytes
  your : Bytes
  deriving DecidableEq, Repr

/-- The text that is appended to `diff.out`. -/
def DiffRecord.bytes (record : DiffRecord) : Bytes :=
  ascii "=================" ++ record.name ++ ascii "\n" ++
    (ascii "Expect(Line #" ++ formatInt record.line ++ ascii "):\n" ++ record.expect) ++
    ascii "\n-----------------\n" ++
    (ascii "Your(Line #" ++ formatInt record.line ++ ascii "):\n" ++ record.your) ++
    ascii "\n=================\n"

/-- The variables of the loop.  The `int` that counts the lines is wrapped when it
is printed. -/
structure DiffState where
  line1 : Memory
  line2 : Memory
  line : ℕ
  fpStd : Bytes
  fpExe : Bytes
  findDiff : Bool

/-- How an iteration ends. -/
inductive DiffStep where
  | leave (state : DiffState)
  | again (state : DiffState)

/-- One iteration of the loop over the lines. -/
def diffStep (s : DiffState) : DiffStep :=
  match fgets s.line1 buffSize s.fpStd with
  | none => .leave s
  | some (line1, fpStd) =>
      let line := s.line + 1
      match fgets s.line2 buffSize s.fpExe with
      | none => .leave ⟨line1, s.line2.store 0 eofMark, line, fpStd, s.fpExe, true⟩
      | some (line2, fpExe) =>
          if line1.text? 0 buffSize = line2.text? 0 buffSize then
            .again ⟨line1, line2, line, fpStd, fpExe, s.findDiff⟩
          else .leave ⟨line1, line2, line, fpStd, fpExe, true⟩

theorem diffStep_unread {s s' : DiffState} (h : diffStep s = .again s') :
    s'.fpStd.length < s.fpStd.length := by
  unfold diffStep at h
  rcases hstd : fgets s.line1 buffSize s.fpStd with _ | ⟨line1, fpStd⟩
  · rw [hstd] at h
    cases h
  · simp only [hstd] at h
    split at h
    · cases h
    · split at h
      · cases h
        exact fgets_unread (by decide) hstd
      · cases h

/-- The loop over the lines. -/
def diffLoop (s : DiffState) : DiffState :=
  match _hstep : diffStep s with
  | .leave s' => s'
  | .again s' => diffLoop s'
termination_by s.fpStd.length
decreasing_by exact diffStep_unread _hstep

/-- The test of the user output when the standard output has ended. -/
def diffRemaining (s : DiffState) : DiffState :=
  if s.findDiff then s
  else
    match fgets s.line2 buffSize s.fpExe with
    | none => s
    | some (line2, fpExe) =>
        { s with line1 := s.line1.store 0 eofMark, line2 := line2, fpExe := fpExe }

/-- The text of a buffer without a newline at its end; `none` if the string does not
end in the buffer. -/
def bufferText (line : Memory) : Option Bytes := (line.text? 0 buffSize).map withoutNewline

/-- `make_diff_out2` on `diff.out`, with the buffers as they come from the stack;
`none` where a string is read past the end of its buffer. -/
def makeDiffOut2 (line1 line2 : Memory) (fileOut fileUser : Option Bytes)
    (path diffOut : Bytes) : Option Bytes :=
  match fileOut, fileUser with
  | some std, some exe =>
      let s := diffRemaining (diffLoop ⟨line1, line2, 0, std, exe, false⟩)
      match bufferText s.line1, bufferText s.line2 with
      | some expect, some your =>
          some (diffOut ++
            DiffRecord.bytes ⟨basename path, Int.bmod s.line (2 ^ 32), expect, your⟩)
      | _, _ => none
  | _, _ => some diffOut

/-- The end of `oj_compare_output`: what it leaves in `diff.out`. -/
def compareDiffOut (line1 line2 : Memory) (fileOut fileUser : Option Bytes)
    (path diffOut : Bytes) : Option Bytes :=
  match ojCompareOutput fileOut fileUser with
  | .returned .wa => makeDiffOut2 line1 line2 fileOut fileUser path diffOut
  | .returned .pe => makeDiffOut2 line1 line2 fileOut fileUser path diffOut
  | _ => some diffOut

/-! ## What the buffers hold -/

/-- A buffer after lines were read into it. -/
def afterLines (buffer : Memory) (lines : List Bytes) : Memory :=
  lines.foldl (fun buffer line => buffer.store 0 (line ++ [0])) buffer

/-- A buffer in which a line is put, or the mark for a missing line. -/
def putLine (buffer : Memory) : Option Bytes → Memory
  | some line => buffer.store 0 (line ++ [0])
  | none => buffer.store 0 eofMark

/-- What lies behind the mark: the rest of the last line with at least five bytes,
or else of what the buffer held first. -/
def leftOver (buffer : Memory) (lines : List Bytes) : Option Bytes :=
  match lines.reverse.find? fun line => 5 ≤ line.length with
  | some line => some (line.drop 5)
  | none => buffer.text? 5 (buffSize - 5)

/-- A line that fits in a buffer. -/
def LineFits (line : Bytes) : Prop := (∀ b ∈ line, b ≠ 0) ∧ line.length < buffSize

theorem lineFits_of_not_mem {line : Bytes} (hnul : 0 ∉ line) (hsize : line.length < buffSize) :
    LineFits line :=
  ⟨fun _ hb heq => hnul (heq ▸ hb), hsize⟩

theorem afterLines_concat (buffer : Memory) (lines : List Bytes) (line : Bytes) :
    afterLines buffer (lines ++ [line]) = (afterLines buffer lines).store 0 (line ++ [0]) := by
  simp [afterLines]

theorem text?_afterLines (buffer : Memory) {lines : List Bytes}
    (hlines : ∀ line ∈ lines, LineFits line) :
    (afterLines buffer lines).text? 5 (buffSize - 5) = leftOver buffer lines := by
  induction lines using List.reverseRecOn with
  | nil => rfl
  | append_singleton lines line ih =>
      have hline : LineFits line := hlines line (by simp)
      have hbefore := ih fun l hl => hlines l (List.mem_append_left _ hl)
      rw [afterLines_concat, leftOver, List.reverse_append, List.reverse_singleton,
        List.singleton_append]
      by_cases hlong : 5 ≤ line.length
      · rw [List.find?_cons_of_pos (by simpa using hlong)]
        have hstring := (Memory.isString_store (afterLines buffer lines) 0 hline.1).drop hlong
        have hsize := hline.2
        rw [Nat.zero_add] at hstring
        refine hstring.text?_eq ?_
        rw [List.length_drop]
        omega
      · rw [List.find?_cons_of_neg (by simpa using hlong), Memory.text?_store_of_le]
        · exact hbefore
        · simp
          omega

/-- A line is read back from the buffer it was read into. -/
theorem LineFits.text?_eq {line : Bytes} (hline : LineFits line) (buffer : Memory) :
    (buffer.store 0 (line ++ [0])).text? 0 buffSize = some line :=
  (Memory.isString_store buffer 0 hline.1).text?_eq hline.2

theorem LineFits.bufferText_eq {line : Bytes} (hline : LineFits line) (buffer : Memory) :
    bufferText (putLine buffer (some line)) = some (withoutNewline line) := by
  rw [bufferText, putLine, hline.text?_eq]
  rfl

/-! ## The loop -/

/-- An iteration on two equal lines. -/
theorem diffStep_common {s : DiffState} {line : Bytes} {x y : List Bytes}
    (hstd : textLines s.fpStd = line :: x) (hexe : textLines s.fpExe = line :: y)
    (hline : LineFits line) :
    diffStep s = .again ⟨s.line1.store 0 (line ++ [0]), s.line2.store 0 (line ++ [0]),
      s.line + 1, s.fpStd.drop line.length, s.fpExe.drop line.length, s.findDiff⟩ := by
  simp only [diffStep, fgets_cons hstd hline.2, fgets_cons hexe hline.2, hline.text?_eq, if_true]

/-- The loop reads the common lines. -/
theorem diffLoop_common {common x y : List Bytes} (hcommon : ∀ line ∈ common, LineFits line)
    {s : DiffState} (hstd : textLines s.fpStd = common ++ x)
    (hexe : textLines s.fpExe = common ++ y) :
    ∃ fpStd fpExe, textLines fpStd = x ∧ textLines fpExe = y ∧
      diffLoop s = diffLoop ⟨afterLines s.line1 common, afterLines s.line2 common,
        s.line + common.length, fpStd, fpExe, s.findDiff⟩ := by
  induction common generalizing s with
  | nil => exact ⟨s.fpStd, s.fpExe, hstd, hexe, rfl⟩
  | cons line common ih =>
      have hstep := diffStep_common hstd hexe (hcommon line List.mem_cons_self)
      obtain ⟨fpStd, fpExe, hx, hy, hloop⟩ :=
        ih (fun l hl => hcommon l (List.mem_cons_of_mem _ hl))
          (s := ⟨_, _, s.line + 1, s.fpStd.drop line.length, s.fpExe.drop line.length, s.findDiff⟩)
          (textLines_drop hstd) (textLines_drop hexe)
      refine ⟨fpStd, fpExe, hx, hy, ?_⟩
      rw [diffLoop, hstep, List.length_cons, Nat.add_comm common.length, ← Nat.add_assoc]
      exact hloop

/-- The end of the loop and the test behind it, at the first difference. -/
theorem diffRemaining_diffLoop {s : DiffState} (hfind : s.findDiff = false)
    (hstd : ∀ line ∈ textLines s.fpStd, LineFits line)
    (hexe : ∀ line ∈ textLines s.fpExe, LineFits line)
    (hhead : (textLines s.fpStd).head? ≠ (textLines s.fpExe).head?) :
    (diffRemaining (diffLoop s)).line1 = putLine s.line1 (textLines s.fpStd).head? ∧
      (diffRemaining (diffLoop s)).line2 = putLine s.line2 (textLines s.fpExe).head? ∧
      (diffRemaining (diffLoop s)).line =
        if textLines s.fpStd = [] then s.line else s.line + 1 := by
  rcases hx : textLines s.fpStd with _ | ⟨line, x⟩
  · have hend : fgets s.line1 buffSize s.fpStd = none := by
      rw [textLines_eq_nil hx, fgets_nil]
    have hloop : diffLoop s = s := by
      have hstep : diffStep s = .leave s := by
        simp only [diffStep, hend]
      rw [diffLoop, hstep]
    rcases hy : textLines s.fpExe with _ | ⟨line', y⟩
    · exact absurd (by rw [hx, hy]) hhead
    · have hline' : LineFits line' := hexe line' (hy ▸ List.mem_cons_self)
      rw [hloop, diffRemaining, hfind, if_neg Bool.false_ne_true, fgets_cons hy hline'.2]
      exact ⟨rfl, rfl, rfl⟩
  · have hline : LineFits line := hstd line (hx ▸ List.mem_cons_self)
    rcases hy : textLines s.fpExe with _ | ⟨line', y⟩
    · have hend : fgets s.line2 buffSize s.fpExe = none := by
        rw [textLines_eq_nil hy, fgets_nil]
      have hstep : diffStep s = .leave ⟨s.line1.store 0 (line ++ [0]), s.line2.store 0 eofMark,
          s.line + 1, s.fpStd.drop line.length, s.fpExe, true⟩ := by
        simp only [diffStep, fgets_cons hx hline.2, hend]
      rw [diffLoop, hstep, diffRemaining, if_pos rfl]
      exact ⟨rfl, rfl, rfl⟩
    · have hline' : LineFits line' := hexe line' (hy ▸ List.mem_cons_self)
      have hne : line ≠ line' := by simpa [hx, hy] using hhead
      have hstep : diffStep s = .leave ⟨s.line1.store 0 (line ++ [0]),
          s.line2.store 0 (line' ++ [0]), s.line + 1, s.fpStd.drop line.length,
          s.fpExe.drop line'.length, true⟩ := by
        simp only [diffStep, fgets_cons hx hline.2, fgets_cons hy hline'.2, hline.text?_eq,
          hline'.text?_eq, Option.some.injEq, hne, if_false]
      rw [diffLoop, hstep, diffRemaining, if_pos rfl]
      exact ⟨rfl, rfl, rfl⟩

/-- `make_diff_out2` on two files whose lines differ. -/
theorem makeDiffOut2_eq {std exe : Bytes} {common x y : List Bytes}
    (hstd : ∀ line ∈ textLines std, LineFits line) (hexe : ∀ line ∈ textLines exe, LineFits line)
    (h : FirstDifference (textLines std) (textLines exe) common x y)
    (line1 line2 : Memory) (path diffOut : Bytes) :
    makeDiffOut2 line1 line2 (some std) (some exe) path diffOut =
      match bufferText (putLine (afterLines line1 common) x.head?),
        bufferText (putLine (afterLines line2 common) y.head?) with
      | some expect, some your =>
          some (diffOut ++ DiffRecord.bytes ⟨basename path,
            Int.bmod (if x = [] then common.length else common.length + 1 : ℕ) (2 ^ 32),
            expect, your⟩)
      | _, _ => none := by
  have hcommon : ∀ line ∈ common, LineFits line :=
    fun line hline => hstd line (h.left ▸ List.mem_append_left x hline)
  obtain ⟨fpStd, fpExe, hx, hy, hloop⟩ :=
    diffLoop_common hcommon (s := ⟨line1, line2, 0, std, exe, false⟩) h.left h.right
  rw [Nat.zero_add] at hloop
  have hend := diffRemaining_diffLoop
    (s := ⟨afterLines line1 common, afterLines line2 common, common.length, fpStd, fpExe, false⟩)
    rfl ?_ ?_ ?_
  · rw [hx, hy, ← hloop] at hend
    obtain ⟨hline1, hline2, hline⟩ := hend
    unfold makeDiffOut2
    dsimp only
    rw [hline1, hline2, hline]
  · rw [hx]
    exact fun line hline => hstd line (h.left ▸ List.mem_append_right common hline)
  · rw [hy]
    exact fun line hline => hexe line (h.right ▸ List.mem_append_right common hline)
  · rw [hx, hy]
    exact h.head

/-! ## The printed record -/

/-- What a record shows of a line, which may be missing. -/
def shownLine : Option Bytes → Bytes
  | some line => withoutNewline line
  | none => eofMark

/-- The mark is shown alone exactly if nothing but a newline is left behind it. -/
theorem bufferText_putLine_none (buffer : Memory) :
    bufferText (putLine buffer none) = some eofMark ↔
      buffer.text? 5 (buffSize - 5) = some [] ∨ buffer.text? 5 (buffSize - 5) = some [10] := by
  have hmark : ∀ b ∈ eofMark, b ≠ 0 := by
    simp [eofMark, ascii]
  have hlength : eofMark.length = 5 := by decide
  rw [bufferText, putLine, Memory.text?_store _ hmark (by decide), hlength, Nat.zero_add]
  rcases hleft : buffer.text? 5 (buffSize - 5) with _ | left
  · simp
  · rw [Option.map_some, Option.map_some, Option.some.injEq, Option.some.injEq, Option.some.injEq]
    constructor
    · intro h
      by_cases hlast : (eofMark ++ left).getLast? = some 10
      · rw [withoutNewline, if_pos hlast] at h
        have htext := List.dropLast_append_getLast? 10 hlast
        rw [h] at htext
        exact Or.inr (List.append_cancel_left htext).symm
      · rw [withoutNewline, if_neg hlast] at h
        exact Or.inl (List.append_right_eq_self.mp h)
    · rintro (rfl | rfl)
      · rfl
      · rfl

/-- The line number can be read back from a record. -/
theorem DiffRecord.line_eq_of_bytes {r r' : DiffRecord} (hname : r.name = r'.name)
    (h : r.bytes = r'.bytes) : r.line = r'.line := by
  simp only [DiffRecord.bytes, hname, List.append_assoc, List.append_cancel_left_eq] at h
  exact formatInt_inj rfl rfl h

/-- So can the text of the user output, behind a known one of the standard output. -/
theorem DiffRecord.your_eq_of_bytes {r r' : DiffRecord} (hname : r.name = r'.name)
    (hexpect : r.expect = r'.expect) (h : r.bytes = r'.bytes) : r.your = r'.your := by
  have hline := DiffRecord.line_eq_of_bytes hname h
  simp only [DiffRecord.bytes, hname, hexpect, hline, List.append_assoc,
    List.append_cancel_left_eq, List.append_cancel_right_eq] at h
  exact h

/-! ## The first difference -/

section Reports

variable {std exe : Bytes} {common x y : List Bytes}

/-- The record of a difference of the lines with the index `k`, which is counted from
zero. -/
def differenceRecord (std exe path : Bytes) (k : ℕ) : DiffRecord :=
  ⟨basename path, (k + 1 : ℕ), shownLine (textLines std)[k]?, shownLine (textLines exe)[k]?⟩

/-- `diff.out` is extended by the record of the first difference. -/
def ReportsFirstDifference (std exe path diffOut : Bytes) (after : Option Bytes) : Prop :=
  ∃ k, IsLeast {k | (textLines std)[k]? ≠ (textLines exe)[k]?} k ∧
    after = some (diffOut ++ (differenceRecord std exe path k).bytes)

/-- The standard output has a line at the first difference, the number of that line
is an `int`, and where the user output has no line, nothing of an earlier line is
left behind the mark. -/
structure DifferencePrintable (line2 : Memory) (std exe : Bytes) : Prop where
  present : ¬textLines std <+: textLines exe
  counted : ∃ k < 2 ^ 31 - 1, (textLines std)[k]? ≠ (textLines exe)[k]?
  cleared : textLines exe <+: textLines std →
    leftOver line2 (textLines exe) = some [] ∨ leftOver line2 (textLines exe) = some [10]

theorem FirstDifference.reports_iff
    (h : FirstDifference (textLines std) (textLines exe) common x y) (path diffOut : Bytes)
    (after : Option Bytes) :
    ReportsFirstDifference std exe path diffOut after ↔
      after = some (diffOut ++ DiffRecord.bytes ⟨basename path, (common.length + 1 : ℕ),
        shownLine x.head?, shownLine y.head?⟩) := by
  have hrecord : differenceRecord std exe path common.length =
      ⟨basename path, (common.length + 1 : ℕ), shownLine x.head?, shownLine y.head?⟩ := by
    rw [differenceRecord, h.getElem?_left, h.symm.getElem?_left]
  rw [← hrecord]
  constructor
  · rintro ⟨k, hk, hafter⟩
    obtain rfl : k = common.length := Nat.le_antisymm (hk.2 h.isLeast.1) (h.isLeast.2 hk.1)
    exact hafter
  · intro hafter
    exact ⟨common.length, h.isLeast, hafter⟩

theorem FirstDifference.counted_iff
    (h : FirstDifference (textLines std) (textLines exe) common x y) :
    (∃ k < 2 ^ 31 - 1, (textLines std)[k]? ≠ (textLines exe)[k]?) ↔
      common.length < 2 ^ 31 - 1 := by
  constructor
  · rintro ⟨k, hlt, hk⟩
    exact Nat.lt_of_le_of_lt (h.isLeast.2 hk) hlt
  · intro hlt
    exact ⟨common.length, hlt, h.isLeast.1⟩

theorem compareDiffOut_eq (hstatus : ojCompareOutput (some std) (some exe) = .returned .pe ∨
      ojCompareOutput (some std) (some exe) = .returned .wa)
    (line1 line2 : Memory) (path diffOut : Bytes) :
    compareDiffOut line1 line2 (some std) (some exe) path diffOut =
      makeDiffOut2 line1 line2 (some std) (some exe) path diffOut := by
  rcases hstatus with h | h
  · rw [compareDiffOut, h]
  · rw [compareDiffOut, h]

/-- Two texts that are not accepted have different lines. -/
theorem exists_difference_of_status
    (hstatus : ojCompareOutput (some std) (some exe) = .returned .pe ∨
      ojCompareOutput (some std) (some exe) = .returned .wa) :
    ∃ common x y, FirstDifference (textLines std) (textLines exe) common x y := by
  apply exists_firstDifference
  intro heq
  have htext : std = exe := by
    rw [← flatten_textLines std, heq, flatten_textLines]
  have hagree : Agree (withoutCr exe) (withoutCr exe) := AgreeToTail.refl _
  rw [htext, ojCompareOutput_eq, expectedStatus_ac_eq_ac_iff.mpr hagree] at hstatus
  rcases hstatus with h | h
  · cases h
  · cases h

/-- The counter of the loop as it is printed. -/
theorem bmod_succ_eq_iff (n : ℕ) :
    Int.bmod (n + 1 : ℕ) (2 ^ 32) = (n + 1 : ℕ) ↔ n < 2 ^ 31 - 1 := by
  constructor
  · intro h
    have hlt := Int.bmod_lt (x := (n + 1 : ℕ)) (m := 2 ^ 32) (by decide)
    omega
  · intro h
    apply Int.bmod_eq_of_le
    · omega
    · omega

theorem bmod_ne_succ (n : ℕ) : Int.bmod n (2 ^ 32) ≠ (n + 1 : ℕ) := by
  rw [Int.bmod_def]
  split
  · omega
  · omega

/-- Where the user output ends, the mark is shown alone exactly if nothing is left. -/
theorem FirstDifference.cleared_iff (hexe : ∀ line ∈ textLines exe, LineFits line)
    (h : FirstDifference (textLines std) (textLines exe) common x []) (line2 : Memory) :
    (leftOver line2 (textLines exe) = some [] ∨ leftOver line2 (textLines exe) = some [10]) ↔
      bufferText (putLine (afterLines line2 common) none) = some eofMark := by
  rw [bufferText_putLine_none, ← text?_afterLines line2 hexe, h.right, List.append_nil]

/-- A standard output that ends first is reported with the number of its last line. -/
theorem FirstDifference.not_reports_of_nil
    (hstd : ∀ line ∈ textLines std, LineFits line) (hexe : ∀ line ∈ textLines exe, LineFits line)
    (h : FirstDifference (textLines std) (textLines exe) common [] y)
    (line1 line2 : Memory) (path diffOut : Bytes) :
    ¬ReportsFirstDifference std exe path diffOut
      (makeDiffOut2 line1 line2 (some std) (some exe) path diffOut) := by
  rw [h.reports_iff, makeDiffOut2_eq hstd hexe h]
  intro hreport
  split at hreport
  · rw [Option.some.injEq, List.append_cancel_left_eq] at hreport
    have hline := DiffRecord.line_eq_of_bytes (by rfl) hreport
    simp only [if_true] at hline
    exact bmod_ne_succ _ hline
  · cases hreport

/-- The exact condition, at a known first difference. -/
theorem FirstDifference.makeDiffOut2_reports_iff
    (hstd : ∀ line ∈ textLines std, LineFits line) (hexe : ∀ line ∈ textLines exe, LineFits line)
    (h : FirstDifference (textLines std) (textLines exe) common x y)
    (line1 line2 : Memory) (path diffOut : Bytes) :
    ReportsFirstDifference std exe path diffOut
        (makeDiffOut2 line1 line2 (some std) (some exe) path diffOut) ↔
      DifferencePrintable line2 std exe := by
  rcases x with _ | ⟨line, x⟩
  · exact iff_of_false (h.not_reports_of_nil hstd hexe line1 line2 path diffOut)
      fun hprintable => hprintable.present (h.isPrefix_iff.mpr rfl)
  have hline : LineFits line := hstd line (h.left ▸ by simp)
  have hpresent : ¬textLines std <+: textLines exe := by
    rw [h.isPrefix_iff]
    exact List.cons_ne_nil line x
  rw [h.reports_iff, makeDiffOut2_eq hstd hexe h, if_neg (List.cons_ne_nil line x),
    List.head?_cons, hline.bufferText_eq]
  constructor
  · intro hreport
    split at hreport
    · next expect your hexpect hyour =>
        obtain rfl := Option.some.inj hexpect
        rw [Option.some.injEq, List.append_cancel_left_eq] at hreport
        have hcounted := DiffRecord.line_eq_of_bytes (by rfl) hreport
        have hshown := DiffRecord.your_eq_of_bytes (by rfl) (by rfl) hreport
        dsimp only at hcounted hshown
        refine ⟨hpresent, h.counted_iff.mpr ((bmod_succ_eq_iff _).mp hcounted), ?_⟩
        intro hends
        obtain rfl := h.symm.isPrefix_iff.mp hends
        rw [h.cleared_iff hexe]
        exact hyour.trans (congrArg some hshown)
    · cases hreport
  · rintro ⟨-, hcounted, hcleared⟩
    have hyour : bufferText (putLine (afterLines line2 common) y.head?) =
        some (shownLine y.head?) := by
      rcases y with _ | ⟨line', y⟩
      · exact (h.cleared_iff hexe line2).mp (hcleared (h.symm.isPrefix_iff.mpr rfl))
      · have hline' : LineFits line' := hexe line' (h.right ▸ by simp)
        exact hline'.bufferText_eq _
    rw [hyour, (bmod_succ_eq_iff _).mpr (h.counted_iff.mp hcounted)]
    rfl

/-- A comparison that ends in `OJ_PE` or `OJ_WA` reports the first difference of the
lines, with its number and both texts, exactly if the difference is printable. -/
theorem firstDifference_reported_iff (line1 line2 : Memory) (hstd : 0 ∉ std) (hexe : 0 ∉ exe)
    (hstdLines : ∀ line ∈ textLines std, line.length < buffSize)
    (hexeLines : ∀ line ∈ textLines exe, line.length < buffSize)
    (hstatus : ojCompareOutput (some std) (some exe) = .returned .pe ∨
      ojCompareOutput (some std) (some exe) = .returned .wa) (path diffOut : Bytes) :
    ReportsFirstDifference std exe path diffOut
        (compareDiffOut line1 line2 (some std) (some exe) path diffOut) ↔
      DifferencePrintable line2 std exe := by
  obtain ⟨common, x, y, h⟩ := exists_difference_of_status hstatus
  rw [compareDiffOut_eq hstatus]
  refine h.makeDiffOut2_reports_iff ?_ ?_ line1 line2 path diffOut
  · intro line hline
    have hmem := fun hb => hstd (mem_of_mem_textLines hline hb)
    exact lineFits_of_not_mem hmem (hstdLines line hline)
  · intro line hline
    have hmem := fun hb => hexe (mem_of_mem_textLines hline hb)
    exact lineFits_of_not_mem hmem (hexeLines line hline)

end Reports

def zeroBuffer : Memory := fun _ => 0

theorem firstDifference_reported_one_line :
    ReportsFirstDifference (ascii "1\n") (ascii "2\n") (ascii "data/1.out") []
        (compareDiffOut zeroBuffer zeroBuffer (some (ascii "1\n")) (some (ascii "2\n"))
          (ascii "data/1.out") []) ↔
      DifferencePrintable zeroBuffer (ascii "1\n") (ascii "2\n") :=
  firstDifference_reported_iff zeroBuffer zeroBuffer (by decide) (by decide) (by decide)
    (by decide) (Or.inr (by rw [ojCompareOutput_eq]; decide)) (ascii "data/1.out") []

/-- The user output has one line more than the standard output: the second line is
reported as the first one. -/
theorem extraLine_misnumbered :
    ojCompareOutput (some (ascii "1\n")) (some (ascii "1\n2\n")) = .returned .wa ∧
      compareDiffOut zeroBuffer zeroBuffer (some (ascii "1\n")) (some (ascii "1\n2\n"))
          (ascii "data/1.out") [] =
        some (DiffRecord.bytes ⟨ascii "1.out", 1, ascii "<EOF>", ascii "2"⟩) ∧
      ¬ReportsFirstDifference (ascii "1\n") (ascii "1\n2\n") (ascii "data/1.out") []
        (compareDiffOut zeroBuffer zeroBuffer (some (ascii "1\n")) (some (ascii "1\n2\n"))
          (ascii "data/1.out") []) := by
  have hstatus : ojCompareOutput (some (ascii "1\n")) (some (ascii "1\n2\n")) = .returned .wa := by
    rw [ojCompareOutput_eq]
    decide
  have h : FirstDifference (textLines (ascii "1\n")) (textLines (ascii "1\n2\n"))
      [ascii "1\n"] [] [ascii "2\n"] :=
    ⟨by decide, by decide, by decide⟩
  have hone : LineFits (ascii "1\n") := lineFits_of_not_mem (by decide) (by decide)
  have htwo : LineFits (ascii "2\n") := lineFits_of_not_mem (by decide) (by decide)
  have hstd : ∀ line ∈ textLines (ascii "1\n"), LineFits line := by
    rw [h.left]
    simpa using hone
  have hexe : ∀ line ∈ textLines (ascii "1\n2\n"), LineFits line := by
    rw [h.right]
    simpa using And.intro hone htwo
  have hmark : bufferText (putLine (afterLines zeroBuffer [ascii "1\n"]) none) = some eofMark := by
    have hzero : zeroBuffer.IsString 5 [] := by
      rw [Memory.isString_iff]
      exact ⟨by simp, fun i hi => absurd hi (Nat.not_lt_zero i), rfl⟩
    have hleft : leftOver zeroBuffer [ascii "1\n"] = zeroBuffer.text? 5 (buffSize - 5) := by
      simp [leftOver, ascii]
    rw [bufferText_putLine_none, text?_afterLines zeroBuffer (by simpa using hone), hleft,
      hzero.text?_eq (by decide)]
    exact Or.inl rfl
  refine ⟨hstatus, ?_, ?_⟩
  · rw [compareDiffOut_eq (Or.inr hstatus), makeDiffOut2_eq hstd hexe h, List.head?_nil, hmark,
      List.head?_cons, htwo.bufferText_eq]
    rfl
  · rw [compareDiffOut_eq (Or.inr hstatus), h.makeDiffOut2_reports_iff hstd hexe]
    exact fun hprintable => hprintable.present (by decide)

end PowerJudge
