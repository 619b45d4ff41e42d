import PowerJudge.Judge.Comparison

/-!
# Line endings

The comment of the comparator names three ways to end a line.  The comparator
drops every carriage return, so a file whose lines end in carriage returns alone
loses its line structure, and the verdict on it can change in two ways.
-/

namespace PowerJudge

/-- The line endings of Unix, of Windows, and of Macs before OS X. -/
inductive LineEnding where
  | lf
  | crlf
  | cr
  deriving DecidableEq, Repr

def LineEnding.bytes : LineEnding → Bytes
  | .lf => [newline]
  | .crlf => [carriageReturn, newline]
  | .cr => [carriageReturn]

/-- A text with its newlines written in the given way. -/
def LineEnding.convert (ending : LineEnding) (text : Bytes) : Bytes :=
  text.flatMap fun b => if b = newline then ending.bytes else [b]

/-- What the comparator reads of a converted text. -/
def LineEnding.kept (ending : LineEnding) (text : Bytes) : Bytes :=
  if ending = .cr then text.filter (· ≠ newline) else text

/-- The texts differ, but only in newlines that the conversion loses. -/
def LosesDifference (ending ending' : LineEnding) (std exe : Bytes) : Prop :=
  ¬Agree std exe ∧ Agree (ending.kept std) (ending'.kept exe)

/-- The texts agree, exactly one of them loses its newlines, and the lost
newlines stand before bytes that remain. -/
def LosesAgreement (ending ending' : LineEnding) (std exe : Bytes) : Prop :=
  Agree std exe ∧
    ((ending = .cr ∧ ending' ≠ .cr ∧ newline ∈ exe ∧ resumesAfter newline std = true) ∨
      (ending ≠ .cr ∧ ending' = .cr ∧ newline ∈ std ∧ resumesAfter newline exe = true))

/-- The texts first differ at a newline of the one that its conversion loses. -/
def LosesNewline (ending : LineEnding) (text other : Bytes) : Prop :=
  ending = .cr ∧ ∃ front rest b rest', text = front ++ newline :: rest ∧
    other = front ++ b :: rest' ∧ b ≠ newline

variable {ending ending' : LineEnding} {std exe : Bytes}

/-! ## What is left of a converted text -/

theorem LineEnding.convert_cons (ending : LineEnding) (b : UInt8) (text : Bytes) :
    ending.convert (b :: text) =
      (if b = newline then ending.bytes else [b]) ++ ending.convert text :=
  List.flatMap_cons

theorem LineEnding.kept_of_ne (h : ending ≠ .cr) (text : Bytes) : ending.kept text = text := by
  rw [LineEnding.kept, if_neg h]

theorem LineEnding.kept_cr (text : Bytes) :
    LineEnding.cr.kept text = text.filter (· ≠ newline) := by
  rw [LineEnding.kept, if_pos rfl]

theorem withoutCr_bytes (ending : LineEnding) :
    withoutCr ending.bytes = ending.kept [newline] := by
  cases ending <;> decide

theorem LineEnding.kept_cons (ending : LineEnding) (b : UInt8) (text : Bytes) :
    ending.kept (b :: text) = ending.kept [b] ++ ending.kept text := by
  unfold LineEnding.kept
  split
  · rw [← List.filter_append, List.singleton_append]
  · rfl

theorem withoutCr_convert (ending : LineEnding) {text : Bytes} (h : carriageReturn ∉ text) :
    withoutCr (ending.convert text) = ending.kept text := by
  induction text with
  | nil =>
      unfold LineEnding.kept
      split <;> rfl
  | cons b text ih =>
      obtain ⟨hb, htext⟩ : b ≠ carriageReturn ∧ carriageReturn ∉ text := by
        simpa [eq_comm] using h
      rw [LineEnding.convert_cons, withoutCr_append, ih htext, LineEnding.kept_cons]
      congr 1
      by_cases hnewline : b = newline
      · rw [if_pos hnewline, hnewline, withoutCr_bytes]
      · rw [if_neg hnewline, withoutCr_cons_of_ne hb]
        simp [LineEnding.kept, hnewline]

/-- Without carriage returns a text is what the comparator reads of it. -/
theorem withoutCr_eq_self {text : Bytes} (h : carriageReturn ∉ text) : withoutCr text = text := by
  rw [withoutCr, List.filter_eq_self]
  intro b hb
  have hne : b ≠ carriageReturn := by
    rintro rfl
    exact h hb
  simpa using hne

/-- Lost newlines are blanks, so they never turn a verdict into `OJ_WA` or out
of it. -/
theorem nonBlank_kept (ending : LineEnding) (text : Bytes) :
    nonBlank (ending.kept text) = nonBlank text := by
  unfold LineEnding.kept
  split
  · rw [nonBlank, visible, List.filter_filter]
    apply List.filter_congr
    intro b _
    by_cases hb : b = newline
    · subst hb
      decide
    · simp [hb]
  · rfl

/-! ## Where a difference is lost -/

theorem LineEnding.kept_cons_of_kept {b : UInt8} (h : ending = .cr → b ≠ newline) (text : Bytes) :
    ending.kept (b :: text) = b :: ending.kept text := by
  unfold LineEnding.kept
  split
  · next hcr => rw [List.filter_cons_of_pos (by simpa using h hcr)]
  · rfl

theorem LineEnding.kept_cr_newline (text : Bytes) :
    LineEnding.cr.kept (newline :: text) = LineEnding.cr.kept text := by
  rw [LineEnding.kept_cr, LineEnding.kept_cr, List.filter_cons_of_neg (by simp)]

/-- A text without newlines that agrees with a line agrees with what is behind it. -/
theorem agree_kept_cr_of_cons {text other : Bytes}
    (h : Agree (LineEnding.cr.kept text) (newline :: other)) :
    Agree (LineEnding.cr.kept text) other := by
  rw [LineEnding.kept_cr] at h ⊢
  cases hkept : text.filter (· ≠ newline) with
  | nil =>
      rw [hkept] at h
      have hblank := agreeToTail_nil_left_iff.mp h
      rw [List.all_cons, Bool.and_eq_true_iff] at hblank
      exact agreeToTail_nil_left_iff.mpr hblank.2
  | cons b rest =>
      rw [hkept] at h
      have hb : b ∈ text.filter (· ≠ newline) := hkept ▸ List.mem_cons_self
      have hne : b ≠ newline := by simpa using List.of_mem_filter hb
      exact (hne (agreeToTail_cons_cons_iff.mp h).1).elim

theorem LosesNewline.cons {text other : Bytes} (b : UInt8) (h : LosesNewline ending text other) :
    LosesNewline ending (b :: text) (b :: other) := by
  obtain ⟨hcr, front, rest, b', rest', rfl, rfl, hne⟩ := h
  exact ⟨hcr, b :: front, rest, b', rest', rfl, rfl, hne⟩

theorem LosesNewline.not_agree {text other : Bytes} (h : LosesNewline ending text other) :
    ¬Agree text other := by
  obtain ⟨-, front, rest, b, rest', rfl, rfl, hne⟩ := h
  intro hagree
  induction front with
  | nil => exact hne (agreeToTail_cons_cons_iff.mp hagree).1.symm
  | cons a front ih => exact ih (agreeToTail_cons_cons_iff.mp hagree).2

/-- Texts that differ, and agree without the newlines that are lost, first differ at one of
these. -/
theorem losesNewline_of_agree (hdiffer : ¬Agree std exe)
    (hkept : Agree (ending.kept std) (ending'.kept exe)) :
    LosesNewline ending std exe ∨ LosesNewline ending' exe std := by
  induction std generalizing exe with
  | nil =>
      have hvisible := hkept.visible_eq
      change nonBlank (ending.kept []) = nonBlank (ending'.kept exe) at hvisible
      rw [nonBlank_kept, nonBlank_kept] at hvisible
      exact (hdiffer (agreeToTail_nil_left_iff.mpr (visible_eq_nil_iff.mp hvisible.symm))).elim
  | cons a std ih =>
      cases exe with
      | nil =>
          have hvisible := hkept.visible_eq
          change nonBlank (ending.kept (a :: std)) = nonBlank (ending'.kept []) at hvisible
          rw [nonBlank_kept, nonBlank_kept] at hvisible
          exact (hdiffer (agreeToTail_nil_right_iff.mpr (visible_eq_nil_iff.mp hvisible))).elim
      | cons b exe =>
          by_cases hhead : a = b
          · subst hhead
            have htail : Agree (ending.kept std) (ending'.kept exe) := by
              by_cases hstd : ending = .cr → a ≠ newline
              · rw [LineEnding.kept_cons_of_kept hstd] at hkept
                by_cases hexe : ending' = .cr → a ≠ newline
                · rw [LineEnding.kept_cons_of_kept hexe] at hkept
                  exact (agreeToTail_cons_cons_iff.mp hkept).2
                · obtain ⟨rfl, rfl⟩ : ending' = .cr ∧ a = newline := by simpa using hexe
                  rw [LineEnding.kept_cr_newline] at hkept
                  exact (agree_kept_cr_of_cons hkept.symm).symm
              · obtain ⟨rfl, rfl⟩ : ending = .cr ∧ a = newline := by simpa using hstd
                rw [LineEnding.kept_cr_newline] at hkept
                by_cases hexe : ending' = .cr
                · subst hexe
                  rwa [LineEnding.kept_cr_newline] at hkept
                · rw [LineEnding.kept_cons_of_kept fun h => (hexe h).elim] at hkept
                  exact agree_kept_cr_of_cons hkept
            have hrest : ¬Agree std exe :=
              fun hagree => hdiffer (agreeToTail_cons_cons_iff.mpr ⟨rfl, hagree⟩)
            rcases ih hrest htail with hlost | hlost
            · exact Or.inl (hlost.cons a)
            · exact Or.inr (hlost.cons a)
          · by_cases hstd : ending = .cr → a ≠ newline
            · by_cases hexe : ending' = .cr → b ≠ newline
              · rw [LineEnding.kept_cons_of_kept hstd, LineEnding.kept_cons_of_kept hexe] at hkept
                exact (hhead (agreeToTail_cons_cons_iff.mp hkept).1).elim
              · obtain ⟨hcr, rfl⟩ : ending' = .cr ∧ b = newline := by simpa using hexe
                exact Or.inr ⟨hcr, [], exe, a, std, rfl, rfl, hhead⟩
            · obtain ⟨hcr, rfl⟩ : ending = .cr ∧ a = newline := by simpa using hstd
              exact Or.inl ⟨hcr, [], std, b, exe, rfl, rfl, Ne.symm hhead⟩

/-- A difference is lost when the texts first differ at a newline that is lost, and nothing
else differs. -/
theorem losesDifference_iff :
    LosesDifference ending ending' std exe ↔
      Agree (ending.kept std) (ending'.kept exe) ∧
        (LosesNewline ending std exe ∨ LosesNewline ending' exe std) := by
  constructor
  · rintro ⟨hdiffer, hkept⟩
    exact ⟨hkept, losesNewline_of_agree hdiffer hkept⟩
  · rintro ⟨hkept, hlost | hlost⟩
    · exact ⟨hlost.not_agree, hkept⟩
    · exact ⟨fun hagree => hlost.not_agree hagree.symm, hkept⟩

/-! ## When the verdict stays -/

theorem agree_kept_iff (hagree : Agree std exe) :
    Agree (ending.kept std) (ending'.kept exe) ↔ ¬LosesAgreement ending ending' std exe := by
  have hnewline : isSpaceChar newline = true := by decide
  by_cases hstd : ending = .cr
  · by_cases hexe : ending' = .cr
    · subst hstd hexe
      rw [LineEnding.kept_cr, LineEnding.kept_cr]
      exact iff_of_true (hagree.filter _) (by simp [LosesAgreement])
    · subst hstd
      rw [LineEnding.kept_cr, LineEnding.kept_of_ne hexe, Agree,
        hagree.filter_left_iff hnewline]
      simp [LosesAgreement, hagree, hexe]
  · by_cases hexe : ending' = .cr
    · subst hexe
      rw [LineEnding.kept_cr, LineEnding.kept_of_ne hstd, Agree, agreeToTail_comm,
        hagree.symm.filter_left_iff hnewline]
      simp [LosesAgreement, hagree, hstd]
    · rw [LineEnding.kept_of_ne hstd, LineEnding.kept_of_ne hexe]
      exact iff_of_true hagree (by simp [LosesAgreement, hstd, hexe])

theorem expectedStatus_kept_iff :
    expectedStatus .ac (ending.kept std) (ending'.kept exe) = expectedStatus .ac std exe ↔
      ¬LosesDifference ending ending' std exe ∧ ¬LosesAgreement ending ending' std exe := by
  by_cases hvisible : nonBlank std = nonBlank exe
  · have hkept : nonBlank (ending.kept std) = nonBlank (ending'.kept exe) := by
      rw [nonBlank_kept, nonBlank_kept, hvisible]
    by_cases hagree : Agree std exe
    · have hdifference : ¬LosesDifference ending ending' std exe := fun h => h.1 hagree
      rw [expectedStatus_ac_eq_ac_iff.mpr hagree, expectedStatus_ac_eq_ac_iff,
        agree_kept_iff hagree]
      exact (and_iff_right hdifference).symm
    · have hpe : expectedStatus .ac std exe = .pe :=
        expectedStatus_ac_eq_pe_iff.mpr ⟨hvisible, hagree⟩
      have hagreement : ¬LosesAgreement ending ending' std exe := fun h => hagree h.1
      rw [hpe, expectedStatus_ac_eq_pe_iff, and_iff_left hagreement]
      simp [LosesDifference, hagree, hkept]
  · have hkept : nonBlank (ending.kept std) ≠ nonBlank (ending'.kept exe) := by
      rwa [nonBlank_kept, nonBlank_kept]
    rw [expectedStatus_ac_eq_wa_iff.mpr hvisible, expectedStatus_ac_eq_wa_iff.mpr hkept]
    refine iff_of_true rfl ⟨?_, ?_⟩
    · rintro ⟨-, hagree⟩
      exact hkept hagree.visible_eq
    · rintro ⟨hagree, -⟩
      exact hvisible hagree.visible_eq

/-- The verdict on two converted texts is that on the texts themselves, exactly
if the conversion loses neither a difference nor an agreement.  It loses neither
when no text is written with carriage returns alone. -/
theorem lineEndings_keep_verdict_iff (ending ending' : LineEnding) {std exe : Bytes}
    (hstd : carriageReturn ∉ std) (hexe : carriageReturn ∉ exe) :
    ojCompareOutput (some (ending.convert std)) (some (ending'.convert exe)) =
        ojCompareOutput (some std) (some exe) ↔
      ¬LosesDifference ending ending' std exe ∧ ¬LosesAgreement ending ending' std exe := by
  rw [ojCompareOutput_eq, ojCompareOutput_eq, Outcome.returned.injEq,
    withoutCr_convert ending hstd, withoutCr_convert ending' hexe,
    withoutCr_eq_self hstd, withoutCr_eq_self hexe]
  exact expectedStatus_kept_iff

theorem lineEndings_keep_verdict_iff_one_line :
    ojCompareOutput (some (LineEnding.cr.convert [49, 10])) (some (LineEnding.crlf.convert [49])) =
        ojCompareOutput (some [49, 10]) (some [49]) ↔
      ¬LosesDifference .cr .crlf [49, 10] [49] ∧ ¬LosesAgreement .cr .crlf [49, 10] [49] :=
  lineEndings_keep_verdict_iff .cr .crlf (by decide) (by decide)

/-- Two lines that are accepted are a presentation error once the user output is
written with carriage returns. -/
theorem lineEndings_change_verdict :
    carriageReturn ∉ ([49, 10, 50, 10] : Bytes) ∧
      ojCompareOutput (some [49, 10, 50, 10]) (some [49, 10, 50, 10]) = .returned .ac ∧
      ojCompareOutput (some (LineEnding.lf.convert [49, 10, 50, 10]))
        (some (LineEnding.cr.convert [49, 10, 50, 10])) = .returned .pe := by
  refine ⟨by decide, ?_, ?_⟩
  · rw [ojCompareOutput_eq]
    decide
  · rw [ojCompareOutput_eq]
    decide

end PowerJudge
