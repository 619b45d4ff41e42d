import Mathlib.Data.List.TakeWhile
import PowerJudge.Support.Decimal
import PowerJudge.Support.Memory

/-!
# The log

`log_write` formats a line in two steps, each of which is cut at the size of its
buffer, and then passes the length that the line would have had to `write`.
-/

namespace PowerJudge

/-! ## The logger -/

/-- `LOG_BUFFER_SIZE`. -/
def logBufferSize : ℕ := 8192

/-- The `LOG_*` levels. -/
inductive LogLevel where
  | fatal | warning | monitor | notice | trace | debug
  deriving DecidableEq, Repr

def LogLevel.code : LogLevel → ℕ
  | .fatal => 0
  | .warning => 1
  | .monitor => 2
  | .notice => 3
  | .trace => 4
  | .debug => 5

/-- `LOG_LEVEL_NOTE`. -/
def LogLevel.note : LogLevel → Bytes
  | .fatal => ascii "FATAL"
  | .warning => ascii "WARNING"
  | .monitor => ascii "MONITOR"
  | .notice => ascii "NOTICE"
  | .trace => ascii "TRACE"
  | .debug => ascii "DEBUG"

/-- `LOG_LEVEL`. -/
def logLevel : LogLevel := .debug

/-- `log_opened`, and the string in `log_extra_info`. -/
structure Logger where
  opened : Bool
  extraInfo : Bytes
  extraInfo_lt : extraInfo.length < logBufferSize

/-- The globals of a program that has just started. -/
def Logger.programStart : Logger := ⟨false, [], by decide⟩

/-- `log_open` on a file that can be opened. -/
def logOpen (logger : Logger) : Logger :=
  if logger.opened then logger else ⟨true, [], by decide⟩

/-- `" [%s]"`. -/
def infoTag (info : Bytes) : Bytes := ascii " [" ++ info ++ ascii "]"

/-- `log_add_info`. -/
def logAddInfo (logger : Logger) (info : Bytes) : Logger where
  opened := logger.opened
  extraInfo := logger.extraInfo ++
    (infoTag info).take (logBufferSize - logger.extraInfo.length - 1)
  extraInfo_lt := by
    have hlt := logger.extraInfo_lt
    rw [List.length_append, List.length_take]
    omega

/-! ## `log_write` -/

/-- `snprintf`: the buffer, and the returned length. -/
def snprintf (buffer : Memory) (size : ℕ) (text : Bytes) : Memory × ℤ :=
  (buffer.store 0 (text.take (size - 1) ++ [0]), if text.length < 2 ^ 31 then text.length else -1)

/-- A call of `log_write`, with the time and the process id that it asks for.  The
message is what the format makes of its arguments; the other strings are given
without their terminators. -/
structure LogCall where
  level : LogLevel
  datetime : Bytes
  pid : ℤ
  file : Bytes
  line : ℤ
  message : Bytes
  deriving DecidableEq, Repr

/-- `"%s [%s] [#%d] [%s:%d]"`. -/
def LogCall.header (call : LogCall) : Bytes :=
  call.level.note ++ ascii " [" ++ call.datetime ++ ascii "] [#" ++ formatInt call.pid ++
    ascii "] [" ++ call.file ++ ascii ":" ++ formatInt call.line ++ ascii "]"

/-- The format of a line, for a given extra info and a given message. -/
def LogCall.format (call : LogCall) (extra message : Bytes) : Bytes :=
  call.header ++ extra ++ ascii " " ++ message ++ ascii "\n"

/-- What becomes of a call. -/
inductive LogResult where
  | filtered
  | exited
  | wrote (stderr : Bytes) (count : ℕ) (bytes : Bytes)

/-- `log_write`, with the memory from `buffer` on.  The `int` that `snprintf` returns
is converted to a `size_t`. -/
def logWrite (stack : Memory) (logger : Logger) (call : LogCall) : LogResult :=
  if logLevel.code < call.level.code then .filtered
  else if !logger.opened then .exited
  else
    let logBuffer := (call.message.take (logBufferSize - 1)).takeWhile fun b => b ≠ 0
    let printed := snprintf stack logBufferSize (call.format logger.extraInfo logBuffer)
    let count := (printed.2 % 2 ^ 64).toNat
    .wrote (if call.level = .fatal then logBuffer ++ ascii "\n" else []) count
      ((List.range count).map printed.1)

/-- The whole line, with all of the extra info and of the message. -/
def LogCall.fullLine (call : LogCall) (infos : List Bytes) : Bytes :=
  call.format (infos.flatMap infoTag) (call.message.takeWhile fun b => b ≠ 0)

/-- At most the buffer is read, and what is written is a part of the line from its
beginning. -/
def LogResult.StaysIn (result : LogResult) (line : Bytes) : Prop :=
  ∀ stderr count bytes, result = .wrote stderr count bytes →
    count ≤ logBufferSize ∧ bytes <+: line

/-! ## Truncation -/

theorem take_take_append {α : Type*} (n : ℕ) (l l' : List α) :
    (l.take n ++ l').take n = (l ++ l').take n := by
  rw [List.take_append, List.take_append, List.take_take, Nat.min_self, List.length_take]
  congr 2
  omega

theorem logAddInfo_extraInfo (logger : Logger) (info : Bytes) :
    (logAddInfo logger info).extraInfo =
      (logger.extraInfo ++ infoTag info).take (logBufferSize - 1) := by
  have hlt := logger.extraInfo_lt
  have hrest : logBufferSize - logger.extraInfo.length - 1 =
      logBufferSize - 1 - logger.extraInfo.length := by
    omega
  have hextra : logger.extraInfo.take (logBufferSize - 1) = logger.extraInfo :=
    List.take_of_length_le (by omega)
  change logger.extraInfo ++ (infoTag info).take _ = _
  rw [hrest, List.take_append, hextra]

/-- The extra info is what fits of all the added infos. -/
theorem extraInfo_foldl (infos : List Bytes) (logger : Logger) :
    (infos.foldl logAddInfo logger).extraInfo =
      (logger.extraInfo ++ infos.flatMap infoTag).take (logBufferSize - 1) := by
  induction infos generalizing logger with
  | nil =>
      have hlt := logger.extraInfo_lt
      rw [List.foldl_nil, List.flatMap_nil, List.append_nil, List.take_of_length_le (by omega)]
  | cons info infos ih =>
      rw [List.foldl_cons, ih, logAddInfo_extraInfo, take_take_append, List.flatMap_cons,
        List.append_assoc]

theorem opened_foldl (infos : List Bytes) (logger : Logger) :
    (infos.foldl logAddInfo logger).opened = logger.opened := by
  induction infos generalizing logger with
  | nil => rfl
  | cons info infos ih => exact ih (logAddInfo logger info)

/-! ## The length that is written -/

theorem snprintf_memory (stack : Memory) (size : ℕ) (text : Bytes) :
    (snprintf stack size text).1 = stack.store 0 (text.take (size - 1) ++ [0]) := rfl

/-- The number of bytes passed to `write`, for a text of a given length. -/
def printedCount (length : ℕ) : ℕ := if length < 2 ^ 31 then length else 2 ^ 64 - 1

theorem snprintf_count (stack : Memory) (size : ℕ) (text : Bytes) :
    ((snprintf stack size text).2 % 2 ^ 64).toNat = printedCount text.length := by
  simp only [snprintf, printedCount]
  split
  · omega
  · decide

theorem printedCount_le_iff {length : ℕ} :
    printedCount length ≤ logBufferSize ↔ length ≤ logBufferSize := by
  rw [printedCount, logBufferSize]
  split
  · rfl
  · omega

theorem printedCount_of_le {length : ℕ} (h : length ≤ logBufferSize) :
    printedCount length = length := by
  rw [logBufferSize] at h
  rw [printedCount, if_pos (by omega)]

/-! ## The bytes that are written -/

/-- A text that fits with its terminator is written as it is. -/
theorem written_of_lt (stack : Memory) {text : Bytes} (h : text.length < logBufferSize) :
    (List.range text.length).map (snprintf stack logBufferSize text).1 = text := by
  rw [snprintf_memory, List.take_of_length_le (by omega), Memory.map_range_store _ (by simp),
    List.take_left]

/-- The terminator is written instead of the end of a text that just fits without. -/
theorem not_written_of_eq (stack : Memory) {text : Bytes} (h : text.length = logBufferSize)
    (hnul : 0 ∉ text.drop (logBufferSize - 1)) :
    ¬(List.range text.length).map (snprintf stack logBufferSize text).1 <+: text := by
  intro hpart
  have hlength : (text.take (logBufferSize - 1) ++ [0]).length = text.length := by
    rw [List.length_append, List.length_take, h]
    decide
  rw [snprintf_memory, Memory.map_range_store _ (Nat.le_of_eq hlength.symm), ← hlength,
    List.take_length] at hpart
  have heq := hpart.eq_of_length hlength
  have hrest : text.drop (logBufferSize - 1) = [0] := by
    rw [← heq]
    apply List.drop_left'
    rw [List.length_take, h]
    decide
  rw [hrest] at hnul
  exact hnul List.mem_cons_self

/-! ## One line -/

section Line

variable (call : LogCall) (infos : List Bytes)

/-- The line as it is formatted: the extra info and the message are cut first. -/
def LogCall.printed : Bytes :=
  call.format ((infos.flatMap infoTag).take (logBufferSize - 1))
    ((call.message.takeWhile fun b => b ≠ 0).take (logBufferSize - 1))

theorem LogCall.length_format (extra message : Bytes) :
    (call.format extra message).length =
      call.header.length + extra.length + message.length + 2 := by
  simp only [LogCall.format, List.length_append]
  change _ + _ + 1 + _ + 1 = _
  omega

/-- The last byte of a line is its newline. -/
theorem LogCall.drop_format (extra message : Bytes) :
    (call.format extra message).drop ((call.format extra message).length - 1) = ascii "\n" := by
  apply List.drop_left'
  simp only [LogCall.format, List.length_append]
  change _ = _ + 1 - 1
  omega

theorem logWrite_eq (stack : Memory) :
    ∃ stderr, logWrite stack (infos.foldl logAddInfo (logOpen .programStart)) call =
      .wrote stderr (printedCount (call.printed infos).length)
        ((List.range (printedCount (call.printed infos).length)).map
          (snprintf stack logBufferSize (call.printed infos)).1) := by
  have hlevel : ¬logLevel.code < call.level.code := by
    cases call.level <;> decide
  have hopened : (infos.foldl logAddInfo (logOpen .programStart)).opened = true :=
    opened_foldl infos (logOpen .programStart)
  have hextra : (infos.foldl logAddInfo (logOpen .programStart)).extraInfo =
      (infos.flatMap infoTag).take (logBufferSize - 1) :=
    extraInfo_foldl infos (logOpen .programStart)
  simp only [logWrite, if_neg hlevel, hopened, hextra, Bool.not_true, Bool.false_eq_true,
    if_false, ← List.take_takeWhile, snprintf_count]
  exact ⟨_, rfl⟩

/-- Nothing is cut from a line that fits. -/
theorem LogCall.printed_of_fits (h : (call.fullLine infos).length < logBufferSize) :
    call.printed infos = call.fullLine infos := by
  have hlength := call.length_format (infos.flatMap infoTag) (call.message.takeWhile fun b => b ≠ 0)
  rw [LogCall.fullLine, hlength] at h
  rw [LogCall.printed, List.take_of_length_le (by omega), List.take_of_length_le (by omega),
    LogCall.fullLine]

/-- A line that does not fit is too long even after the cuts. -/
theorem LogCall.le_length_printed (h : logBufferSize ≤ (call.fullLine infos).length) :
    logBufferSize ≤ (call.printed infos).length := by
  rw [LogCall.fullLine, LogCall.length_format] at h
  rw [LogCall.printed, LogCall.length_format, List.length_take, List.length_take]
  rw [logBufferSize] at h ⊢
  omega

theorem LogCall.printed_of_length_eq (h : (call.printed infos).length = logBufferSize) :
    call.printed infos = call.fullLine infos := by
  rw [LogCall.printed, LogCall.length_format, List.length_take, List.length_take,
    logBufferSize] at h
  rw [LogCall.printed, List.take_of_length_le, List.take_of_length_le, LogCall.fullLine]
  · rw [logBufferSize]
    omega
  · rw [logBufferSize]
    omega

end Line

/-- After `log_open` and any additions to the extra info, a line is written from the
buffer alone, and correctly as far as it goes, exactly if the whole line and a
terminator fit in the buffer. -/
theorem logWrite_staysIn_iff (stack : Memory) (infos : List Bytes) (call : LogCall) :
    (logWrite stack (infos.foldl logAddInfo (logOpen .programStart)) call).StaysIn
        (call.fullLine infos) ↔
      (call.fullLine infos).length < logBufferSize := by
  obtain ⟨stderr, hwrite⟩ := logWrite_eq call infos stack
  rw [hwrite]
  constructor
  · intro hstays
    obtain ⟨hcount, hpart⟩ := hstays _ _ _ rfl
    rw [printedCount_le_iff] at hcount
    rw [printedCount_of_le hcount] at hpart
    apply Nat.lt_of_not_le
    intro hlong
    have hge := call.le_length_printed infos hlong
    have hlength : (call.printed infos).length = logBufferSize := Nat.le_antisymm hcount hge
    rw [← call.printed_of_length_eq infos hlength] at hpart
    refine not_written_of_eq stack hlength ?_ hpart
    rw [← hlength, LogCall.printed, LogCall.drop_format]
    decide
  · intro hfits err count bytes hresult
    obtain ⟨-, rfl, rfl⟩ := LogResult.wrote.inj hresult
    rw [call.printed_of_fits infos hfits, printedCount_of_le (Nat.le_of_lt hfits)]
    refine ⟨Nat.le_of_lt hfits, [], ?_⟩
    rw [written_of_lt stack hfits, List.append_nil]

/-- The password of a peer that sends a full buffer without a NUL. -/
def longPassword : LogCall where
  level := .notice
  datetime := ascii "2018-08-24 12:00:00.000000"
  pid := 4242
  file := ascii "judged.cpp"
  line := 165
  message := ascii "Here is the password: " ++ List.replicate 8192 97

theorem takeWhile_longPassword :
    (longPassword.message.takeWhile fun b => b ≠ 0) = longPassword.message := by
  have htext : (ascii "Here is the password: ").all (fun b => b ≠ 0) = true := by decide
  rw [List.takeWhile_eq_self_iff]
  intro b hb
  rcases List.mem_append.mp hb with hmem | hmem
  · exact List.all_eq_true.mp htext b hmem
  · rw [List.eq_of_mem_replicate hmem]
    decide

/-- Its line is written from behind the end of the buffer. -/
theorem longPassword_overread :
    (∃ stderr bytes, logWrite (fun _ => 0) (logOpen .programStart) longPassword =
      .wrote stderr 8253 bytes) ∧
    ¬(logWrite (fun _ => 0) (logOpen .programStart) longPassword).StaysIn
      (longPassword.fullLine []) := by
  have hheader : longPassword.header.length = 60 := by decide
  have hmessage : longPassword.message.length = 22 + 8192 := by
    change (ascii "Here is the password: " ++ List.replicate 8192 97).length = _
    rw [List.length_append, List.length_replicate]
    rfl
  have hlength : (longPassword.printed []).length = 8253 := by
    rw [LogCall.printed, LogCall.length_format, takeWhile_longPassword, List.length_take,
      List.length_take, hheader, hmessage]
    rfl
  obtain ⟨stderr, hwrite⟩ := logWrite_eq longPassword [] fun _ => 0
  rw [hlength, List.foldl_nil] at hwrite
  refine ⟨⟨stderr, _, hwrite⟩, ?_⟩
  rw [hwrite]
  intro hstays
  exact absurd (hstays _ _ _ rfl).1 (by decide)

end PowerJudge
