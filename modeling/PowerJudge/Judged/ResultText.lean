import PowerJudge.Judge.Run
import PowerJudge.Support.Scan

/-!
# The text of a result record

`output_acm_result` prints four numbers into `result.txt`, which it has opened for
writing, and `update_result` scans them.  The file is cut when it is opened and written
from its start, so that what another process has written into it in between stays behind
a shorter text.
-/

namespace PowerJudge

/-! ## The numbers -/

/-- The four numbers of a record. -/
structure RecordNumbers where
  result : ℤ
  timeUsage : ℤ
  memoryUsage : ℤ
  test : ℤ
  deriving DecidableEq, Repr

def Record.numbers (record : Record) : RecordNumbers :=
  ⟨record.result.code, record.timeUsage, record.memoryUsage, record.test⟩

/-- The numbers that are written are `long`s. -/
structure RecordNumbers.AreLong (numbers : RecordNumbers) : Prop where
  result : -(2 ^ 63) ≤ numbers.result ∧ numbers.result < 2 ^ 63
  timeUsage : -(2 ^ 63) ≤ numbers.timeUsage ∧ numbers.timeUsage < 2 ^ 63
  memoryUsage : -(2 ^ 63) ≤ numbers.memoryUsage ∧ numbers.memoryUsage < 2 ^ 63
  test : -(2 ^ 63) ≤ numbers.test ∧ numbers.test < 2 ^ 63

instance : DecidablePred RecordNumbers.AreLong := fun numbers =>
  decidable_of_iff
    ((-(2 ^ 63) ≤ numbers.result ∧ numbers.result < 2 ^ 63) ∧
      (-(2 ^ 63) ≤ numbers.timeUsage ∧ numbers.timeUsage < 2 ^ 63) ∧
      (-(2 ^ 63) ≤ numbers.memoryUsage ∧ numbers.memoryUsage < 2 ^ 63) ∧
      (-(2 ^ 63) ≤ numbers.test ∧ numbers.test < 2 ^ 63))
    ⟨fun h => ⟨h.1, h.2.1, h.2.2.1, h.2.2.2⟩,
      fun h => ⟨h.result, h.timeUsage, h.memoryUsage, h.test⟩⟩

/-- An `int` scanned from a `long` that was printed. -/
def scanInt (n : ℤ) : ℤ := Int.bmod n (2 ^ 32)

/-- The four numbers as `fscanf` reads them back. -/
def RecordNumbers.scanned (numbers : RecordNumbers) : RecordNumbers :=
  ⟨scanInt numbers.result, scanInt numbers.timeUsage, scanInt numbers.memoryUsage,
    scanInt numbers.test⟩

theorem scanInt_eq_iff (n : ℤ) : scanInt n = n ↔ -(2 ^ 31) ≤ n ∧ n < 2 ^ 31 := by
  constructor
  · intro h
    have hlo := Int.le_bmod (x := n) (m := 2 ^ 32) (by decide)
    have hhi := Int.bmod_lt (x := n) (m := 2 ^ 32) (by decide)
    unfold scanInt at h
    omega
  · rintro ⟨hlo, hhi⟩
    unfold scanInt
    apply Int.bmod_eq_of_le
    · omega
    · omega

/-- The result itself is read back. -/
theorem scanInt_code (result : OjResult) : scanInt result.code = result.code := by
  have hlt := result.code_lt
  rw [scanInt_eq_iff]
  omega

theorem scanned_result_eq_iff {record : Record} {result : OjResult} :
    record.numbers.scanned.result = result.code ↔ record.result = result := by
  rw [RecordNumbers.scanned, Record.numbers]
  dsimp only
  rw [scanInt_code, Int.natCast_inj, OjResult.code_inj]

/-! ## Printing and scanning -/

/-- `fprintf` with `"%d %ld %ld %d"`. -/
def recordText (numbers : RecordNumbers) : Bytes :=
  lead [.number numbers.result, .number numbers.timeUsage, .number numbers.memoryUsage] ++
    formatInt numbers.test

/-- `fscanf` with `"%d %d %d %d"`; `none` when it returns less than 4. -/
def scanRecord (text : Bytes) : Option RecordNumbers :=
  match scan [.number, .number, .number, .number] text with
  | [.number result, .number timeUsage, .number memoryUsage, .number test] =>
      some ⟨scanInt result, scanInt timeUsage, scanInt memoryUsage, scanInt test⟩
  | _ => none

/-- All four numbers are scanned, reduced to 32 bits, whatever follows behind a blank. -/
theorem scanRecord_append {numbers : RecordNumbers} (h : numbers.AreLong) {rest : Bytes}
    (hrest : EndsField rest) :
    scanRecord (recordText numbers ++ rest) = some numbers.scanned := by
  have hlead : ∀ field ∈ [Scanned.number numbers.result, .number numbers.timeUsage,
      .number numbers.memoryUsage], field.Printable := by
    intro field hfield
    simp only [List.mem_cons, List.not_mem_nil, or_false] at hfield
    rcases hfield with rfl | rfl | rfl
    · exact h.result
    · exact h.timeUsage
    · exact h.memoryUsage
  have htest : (Scanned.number numbers.test).Printable := h.test
  have hlast : scan [.number] (formatInt numbers.test ++ rest) = [.number numbers.test] :=
    scan_print htest [] hrest
  have hscan := scan_lead_append hlead [.number] (formatInt numbers.test ++ rest)
  change scan [.number, .number, .number, .number] _ = _ ++ scan [.number] _ at hscan
  rw [scanRecord, recordText, List.append_assoc, hscan, hlast]
  rfl

theorem scanRecord_recordText {numbers : RecordNumbers} (h : numbers.AreLong) :
    scanRecord (recordText numbers) = some numbers.scanned := by
  have hscan := scanRecord_append h endsField_nil
  rwa [List.append_nil] at hscan

/-! ## Writing from the start -/

/-- What the file holds after a text has been written from its start. -/
def writeFromStart (contents text : Bytes) : Bytes := text ++ contents.drop text.length

/-- What a file that has been cut holds after these texts have been written, each of them
from the start. -/
def overlay (texts : List Bytes) : Bytes := texts.foldl writeFromStart []

theorem overlay_concat (texts : List Bytes) (text : Bytes) :
    overlay (texts ++ [text]) = writeFromStart (overlay texts) text :=
  List.foldl_append

/-- A text that is written over a longer one is not read back as it is. -/
example : writeFromStart (ascii "0 1515 10240 0") (ascii "4 31 2048 2") =
    ascii "4 31 2048 20 0" := by
  decide

end PowerJudge
