import Mathlib.Algebra.Group.Int.Defs
import Mathlib.Algebra.Group.Nat.Defs
import PowerJudge.Judge.Comparator
import PowerJudge.Support.FileStream
import PowerJudge.Support.Loop

/-!
# The streams of the comparator

The main loop of `oj_compare_output` with the state of its two streams: what it
pushes back, what it logs, and the counters `Na` and `Nb`, which are `int`s and
wrap.  It is the loop of `compareStep` on the unread bytes.
-/

namespace PowerJudge

/-! ## The main loop -/

/-- The variables of the main loop. -/
structure CompareVars where
  fpStd : FileStream
  fpExe : FileStream
  na : ℤ
  nb : ℤ
  status : OjResult
  deriving DecidableEq, Repr

/-- The messages about a mismatch: `"WA exe['%c':0x%x @%d]"`, `"WA std['%c':0x%x @%d]"`,
`"WA ['%c':0x%x]"` and `"WA ['%c':0x%x @%d] : ['%c':0x%x @%d]"`. -/
inductive MismatchLog where
  | exe (b : Option UInt8)
  | std (a : Option UInt8)
  | trailing (c : UInt8)
  | both (a b : Option UInt8)
  deriving DecidableEq, Repr

/-- The calls that are observed, with the variables at the call. -/
inductive CompareEvent where
  | ungetc (c : Option UInt8) (fp : FileStream)
  | mismatch (log : MismatchLog) (vars : CompareVars)
  deriving DecidableEq, Repr

/-- The counters that a message shows. -/
def MismatchLog.positions (log : MismatchLog) (vars : CompareVars) : List ℤ :=
  match log with
  | .exe _ => [vars.nb]
  | .std _ => [vars.na]
  | .trailing _ => []
  | .both _ _ => [vars.na, vars.nb]

/-- `n++` and `n--` on an `int`. -/
def increment (n : ℤ) : ℤ := Int.bmod (n + 1) (2 ^ 32)

def decrement (n : ℤ) : ℤ := Int.bmod (n - 1) (2 ^ 32)

/-- `is_space_char` of what `fgetc` returned. -/
def isSpaceInt (c : Option UInt8) : Bool := c.any isSpaceChar

/-- The end of the loop over the trailing white space: at the end of the file, or at
a byte. -/
def trailingEnd (c : Option UInt8) (s : CompareVars) :
    List CompareEvent × LoopStep CompareVars OjResult :=
  match c with
  | none => ([], .leave s.status)
  | some c => ([.mismatch (.trailing (crToNewline c)) s], .leave .wa)

/-- What an iteration does with the characters it has read. -/
def compareChars (a b : Option UInt8) (s : CompareVars) :
    List CompareEvent × LoopStep CompareVars OjResult :=
  if s.fpStd.eof && s.fpExe.eof then ([], .leave s.status)
  else if s.fpStd.eof then
    if isSpaceInt b then
      let tail := s.fpExe.fgetcWhile fun c => isSpaceChar (crToNewline c)
      trailingEnd tail.1 { s with fpExe := tail.2 }
    else ([.mismatch (.exe b) s], .leave .wa)
  else if s.fpExe.eof then
    if isSpaceInt a then
      let tail := s.fpStd.fgetcWhile fun c => isSpaceChar (crToNewline c)
      trailingEnd tail.1 { s with fpStd := tail.2 }
    else ([.mismatch (.std a) s], .leave .wa)
  else if a = b then ([], .again s)
  else if isSpaceInt a && isSpaceInt b then ([], .again { s with status := .pe })
  else if isSpaceInt a then
    ([.ungetc b s.fpExe],
      .again { s with fpExe := s.fpExe.ungetc b, nb := decrement s.nb, status := .pe })
  else if isSpaceInt b then
    ([.ungetc a s.fpStd],
      .again { s with fpStd := s.fpStd.ungetc a, na := decrement s.na, status := .pe })
  else ([.mismatch (.both a b) { s with status := .pe }], .leave .wa)

/-- The variables behind `Na++, Nb++`. -/
def CompareVars.afterReads (s : CompareVars) : CompareVars :=
  { fpStd := (s.fpStd.fgetcWhile fun c => c = carriageReturn).2
    fpExe := (s.fpExe.fgetcWhile fun c => c = carriageReturn).2
    na := increment s.na
    nb := increment s.nb
    status := s.status }

/-- One iteration of the main loop. -/
def compareIteration (s : CompareVars) : List CompareEvent × LoopStep CompareVars OjResult :=
  compareChars ((s.fpStd.fgetcWhile fun c => c = carriageReturn).1.map crToNewline)
    ((s.fpExe.fgetcWhile fun c => c = carriageReturn).1.map crToNewline) s.afterReads

/-- The variables at the head of the loop after `n` iterations. -/
def compareHead (std exe : Bytes) (n : ℕ) : Option CompareVars :=
  loopHead (fun s => (compareIteration s).2) ⟨.reading std 0, .reading exe 0, 0, 0, .ac⟩ n

def CompareVars.unread (s : CompareVars) : ℕ := s.fpStd.unread + s.fpExe.unread

theorem compareChars_of_stdEnded {a b : Option UInt8} {s : CompareVars}
    (hstd : s.fpStd.eof = true) (hexe : s.fpExe.eof = false) :
    compareChars a b s =
      if isSpaceInt b then
        trailingEnd (s.fpExe.fgetcWhile fun c => isSpaceChar (crToNewline c)).1
          { s with fpExe := (s.fpExe.fgetcWhile fun c => isSpaceChar (crToNewline c)).2 }
      else ([.mismatch (.exe b) s], .leave .wa) := by
  rw [compareChars, hstd, hexe]
  rfl

theorem compareChars_of_exeEnded {a b : Option UInt8} {s : CompareVars}
    (hstd : s.fpStd.eof = false) (hexe : s.fpExe.eof = true) :
    compareChars a b s =
      if isSpaceInt a then
        trailingEnd (s.fpStd.fgetcWhile fun c => isSpaceChar (crToNewline c)).1
          { s with fpStd := (s.fpStd.fgetcWhile fun c => isSpaceChar (crToNewline c)).2 }
      else ([.mismatch (.std a) s], .leave .wa) := by
  rw [compareChars, hstd, hexe]
  rfl

theorem compareChars_of_bytes {a b : UInt8} {s : CompareVars}
    (hstd : s.fpStd.eof = false) (hexe : s.fpExe.eof = false) :
    compareChars (some a) (some b) s =
      if a = b then ([], .again s)
      else if isSpaceChar a && isSpaceChar b then ([], .again { s with status := .pe })
      else if isSpaceChar a then
        ([.ungetc (some b) s.fpExe],
          .again { s with
            fpExe := s.fpExe.ungetc (some b), nb := decrement s.nb, status := .pe })
      else if isSpaceChar b then
        ([.ungetc (some a) s.fpStd],
          .again { s with
            fpStd := s.fpStd.ungetc (some a), na := decrement s.na, status := .pe })
      else ([.mismatch (.both (some a) (some b)) { s with status := .pe }], .leave .wa) := by
  rw [compareChars, hstd, hexe]
  simp only [Option.some.injEq, isSpaceInt, Option.any_some]
  rfl

/-! ## The discipline -/

/-- The bytes that `Na` and `Nb` count. -/
def isCounted (b : UInt8) : Bool := b ≠ carriageReturn

/-- `Na` and `Nb` are the numbers of bytes other than `'\r'` consumed from the two
files, an end of file counting as one. -/
structure CompareVars.CountsConsumed (s : CompareVars) : Prop where
  na : s.na = s.fpStd.consumed isCounted
  nb : s.nb = s.fpExe.consumed isCounted

/-- The discipline of the streams over all iterations, with the property
`atMismatch` wherever a mismatch is logged. -/
structure StreamDiscipline (atMismatch : MismatchLog → CompareVars → Prop) (std exe : Bytes) :
    Prop where
  /-- `ungetc` gets a byte other than `'\r'` and a stream without push-back. -/
  pushedBack : ∀ n s, compareHead std exe n = some s →
    ∀ c fp, .ungetc c fp ∈ (compareIteration s).1 →
      (∃ b, c = some b ∧ b ≠ carriageReturn) ∧ fp.pushedBack = []
  counted : ∀ n s, compareHead std exe n = some s →
    ∀ log vars, .mismatch log vars ∈ (compareIteration s).1 → atMismatch log vars
  decreases : ∀ n s s', compareHead std exe n = some s →
    (compareIteration s).2 = .again s' → s'.unread < s.unread
  ends : compareHead std exe (std.length + exe.length + 1) = none

/-- The counters are those of `CountsConsumed` where a message shows one.  In the
loop over the trailing white space, whose message shows none, the counter of the file
that ended is, and the other one leaves out what that loop has read. -/
structure CountsAtLog (log : MismatchLog) (vars : CompareVars) : Prop where
  shown : log.positions vars ≠ [] → vars.CountsConsumed
  notShown : log.positions vars = [] →
    (vars.fpStd.eof = true ∧ vars.na = vars.fpStd.consumed isCounted ∧
      vars.nb < vars.fpExe.consumed isCounted) ∨
    (vars.fpExe.eof = true ∧ vars.nb = vars.fpExe.consumed isCounted ∧
      vars.na < vars.fpStd.consumed isCounted)

/-! ## One stream and its counter -/

/-- A stream and its counter at the head of the loop. -/
def AtHead (contents : Bytes) (fp : FileStream) (count : ℤ) : Prop :=
  ∃ n ≤ contents.length, fp.StandsAt contents n ∧ count = (contents.take n).countP isCounted

theorem atHead_start (contents : Bytes) : AtHead contents (.reading contents 0) 0 :=
  ⟨0, Nat.zero_le _, FileStream.standsAt_reading contents 0, by simp⟩

theorem countP_take_le_length (contents : Bytes) (n : ℕ) :
    (contents.take n).countP isCounted ≤ contents.length := by
  have hlength := (contents.take n).countP_le_length (p := isCounted)
  rw [List.length_take] at hlength
  omega

theorem increment_natCast {n : ℕ} (h : n < 2 ^ 31 - 1) : increment n = (n + 1 : ℕ) := by
  rw [increment, Int.bmod_eq_of_le]
  all_goals omega

theorem decrement_natCast_succ {n : ℕ} (h : n < 2 ^ 31 - 1) : decrement (n + 1 : ℕ) = n := by
  rw [decrement, Int.bmod_eq_of_le]
  all_goals omega

theorem isCounted_of_cr {c : UInt8} (h : decide (c = carriageReturn) = true) :
    isCounted c = false := by
  rw [isCounted, of_decide_eq_true h]
  rfl

/-- A byte other than `'\r'` is read and counted, or the file ends, which counts as
one. -/
theorem AtHead.read {contents : Bytes} {fp : FileStream} {count : ℤ}
    (h : AtHead contents fp count) (hsize : contents.length < 2 ^ 31 - 1) :
    (∃ k b, fp.fgetcWhile (fun c => c = carriageReturn) = (some b, .reading contents (k + 1)) ∧
      contents[k]? = some b ∧ b ≠ carriageReturn ∧
      increment count = (contents.take (k + 1)).countP isCounted) ∨
    (fp.fgetcWhile (fun c => c = carriageReturn) = (none, .ended contents) ∧
      increment count = (contents.countP isCounted + 1 : ℕ)) := by
  obtain ⟨n, hn, hstands, hcount⟩ := h
  have hinc : increment count = ((contents.take n).countP isCounted + 1 : ℕ) := by
    have hle := countP_take_le_length contents n
    rw [hcount, increment_natCast (by omega)]
  rcases FileStream.nextByte_or_all (fun c => c = carriageReturn) contents n with
    ⟨skipped, b, hnext⟩ | hall
  · left
    have hne : b ≠ carriageReturn := of_decide_eq_false hnext.fails
    refine ⟨n + skipped.length, b, hstands.fgetcWhile_of_next hnext, hnext.read, hne, ?_⟩
    rw [hinc, FileStream.countP_take_succ hnext.read (decide_eq_true hne),
      hnext.countP_take fun c hc => isCounted_of_cr hc]
  · right
    refine ⟨hstands.fgetcWhile_of_all hn hall, ?_⟩
    rw [hinc, FileStream.countP_of_all hall fun c hc => isCounted_of_cr hc]

theorem AtHead.counts_read {contents : Bytes} {fp : FileStream} {count : ℤ}
    (h : AtHead contents fp count) (hsize : contents.length < 2 ^ 31 - 1) :
    increment count = (fp.fgetcWhile fun c => c = carriageReturn).2.consumed isCounted := by
  rcases h.read hsize with ⟨k, b, hread, -, -, hcount⟩ | ⟨hread, hcount⟩
  · rw [hread, hcount, FileStream.consumed_reading]
  · rw [hread, hcount, FileStream.consumed_ended]

variable {contents : Bytes} {k : ℕ} {b : UInt8}

/-- The stream behind a byte that was read. -/
theorem atHead_reading (hread : contents[k]? = some b) :
    AtHead contents (.reading contents (k + 1)) ((contents.take (k + 1)).countP isCounted) := by
  have hk := (List.getElem?_eq_some_iff.mp hread).1
  exact ⟨k + 1, hk, FileStream.standsAt_reading contents (k + 1), rfl⟩

/-- The stream when that byte was pushed back. -/
theorem atHead_ungetc (hread : contents[k]? = some b) (hb : b ≠ carriageReturn)
    (hsize : contents.length < 2 ^ 31 - 1) :
    AtHead contents (FileStream.ungetc (some b) (.reading contents (k + 1)))
      (decrement ((contents.take (k + 1)).countP isCounted)) := by
  have hk := (List.getElem?_eq_some_iff.mp hread).1
  have hle := countP_take_le_length contents k
  refine ⟨k, Nat.le_of_lt hk, FileStream.standsAt_ungetc hread, ?_⟩
  rw [FileStream.countP_take_succ hread (decide_eq_true hb), decrement_natCast_succ (by omega)]

/-- The loop over the trailing white space stops at a byte that it has consumed and
not counted. -/
theorem AtHead.lt_trailing {fp : FileStream} {count : ℤ} {c : UInt8}
    (h : AtHead contents fp count)
    (hc : (fp.fgetcWhile fun c => isSpaceChar (crToNewline c)).1 = some c) :
    count < (fp.fgetcWhile fun c => isSpaceChar (crToNewline c)).2.consumed isCounted := by
  obtain ⟨n, hn, hstands, hcount⟩ := h
  rcases FileStream.nextByte_or_all (fun c => isSpaceChar (crToNewline c)) contents n with
    ⟨skipped, d, hnext⟩ | hall
  · have hcounted : isCounted d = true := by
      apply decide_eq_true
      intro hcr
      have hfails := hnext.fails
      rw [hcr] at hfails
      revert hfails
      decide
    have hle : (contents.take n).countP isCounted ≤
        (contents.take (n + skipped.length)).countP isCounted :=
      FileStream.countP_take_le (Nat.le_add_right n skipped.length)
    rw [hstands.fgetcWhile_of_next hnext, FileStream.consumed_reading,
      FileStream.countP_take_succ hnext.read hcounted, hcount]
    omega
  · rw [hstands.fgetcWhile_of_all hn hall] at hc
    cases hc

/-! ## One iteration -/

/-- Both streams at the head of the loop. -/
structure CompareInv (std exe : Bytes) (s : CompareVars) : Prop where
  std : AtHead std s.fpStd s.na
  exe : AtHead exe s.fpExe s.nb

/-- An iteration that keeps the discipline. -/
structure KeepsDiscipline (std exe : Bytes)
    (iteration : List CompareEvent × LoopStep CompareVars OjResult) : Prop where
  pushedBack : ∀ c fp, .ungetc c fp ∈ iteration.1 →
    (∃ b, c = some b ∧ b ≠ carriageReturn) ∧ fp.pushedBack = []
  counted : ∀ log vars, .mismatch log vars ∈ iteration.1 → CountsAtLog log vars
  inv : ∀ s', iteration.2 = .again s' → CompareInv std exe s'

variable {std exe : Bytes} {s : CompareVars}

theorem keepsDiscipline_leave (result : OjResult) :
    KeepsDiscipline std exe ([], .leave result) := by
  constructor
  · simp
  · simp
  · simp

theorem keepsDiscipline_mismatch {log : MismatchLog} (result : OjResult) (h : CountsAtLog log s) :
    KeepsDiscipline std exe ([.mismatch log s], .leave result) := by
  constructor
  · simp
  · intro log' vars hmem
    cases List.mem_singleton.mp hmem
    exact h
  · simp

theorem keepsDiscipline_again (h : CompareInv std exe s) :
    KeepsDiscipline std exe ([], .again s) := by
  constructor
  · simp
  · simp
  · intro s' hagain
    cases hagain
    exact h

theorem keepsDiscipline_ungetc {fp : FileStream} (hb : b ≠ carriageReturn)
    (hfp : fp.pushedBack = []) (h : CompareInv std exe s) :
    KeepsDiscipline std exe ([.ungetc (some b) fp], .again s) := by
  constructor
  · intro c fp' hmem
    cases List.mem_singleton.mp hmem
    exact ⟨⟨b, rfl, hb⟩, hfp⟩
  · simp
  · intro s' hagain
    cases hagain
    exact h

theorem keepsDiscipline_trailing {c : Option UInt8}
    (h : ∀ d, c = some d → CountsAtLog (.trailing (crToNewline d)) s) :
    KeepsDiscipline std exe (trailingEnd c s) := by
  cases c with
  | none => exact keepsDiscipline_leave s.status
  | some d => exact keepsDiscipline_mismatch .wa (h d rfl)

/-- A message with a position, where the counters are right. -/
theorem countsAtLog_of_shown {log : MismatchLog} (hlog : log.positions s ≠ [])
    (h : s.CountsConsumed) : CountsAtLog log s :=
  ⟨fun _ => h, fun hnil => absurd hnil hlog⟩

/-- The standard output ends first. -/
theorem keepsDiscipline_stdEnded (hstd : s.fpStd.eof = true) (hexe : s.fpExe.eof = false)
    (hat : AtHead exe s.fpExe s.nb) (hcounts : s.CountsConsumed) (a b : Option UInt8) :
    KeepsDiscipline std exe (compareChars a b s) := by
  rw [compareChars_of_stdEnded hstd hexe]
  split_ifs
  · apply keepsDiscipline_trailing
    intro c hc
    exact ⟨fun hshown => absurd rfl hshown, fun _ => Or.inl ⟨hstd, hcounts.na, hat.lt_trailing hc⟩⟩
  · exact keepsDiscipline_mismatch .wa
      (countsAtLog_of_shown (by simp [MismatchLog.positions]) hcounts)

/-- The user output ends first. -/
theorem keepsDiscipline_exeEnded (hstd : s.fpStd.eof = false) (hexe : s.fpExe.eof = true)
    (hat : AtHead std s.fpStd s.na) (hcounts : s.CountsConsumed) (a b : Option UInt8) :
    KeepsDiscipline std exe (compareChars a b s) := by
  rw [compareChars_of_exeEnded hstd hexe]
  split_ifs
  · apply keepsDiscipline_trailing
    intro c hc
    exact ⟨fun hshown => absurd rfl hshown, fun _ => Or.inr ⟨hexe, hcounts.nb, hat.lt_trailing hc⟩⟩
  · exact keepsDiscipline_mismatch .wa
      (countsAtLog_of_shown (by simp [MismatchLog.positions]) hcounts)

/-- A byte of each file. -/
theorem keepsDiscipline_bytes {m n : ℕ} {a : UInt8} (hreadStd : std[m]? = some a)
    (ha : a ≠ carriageReturn) (hreadExe : exe[n]? = some b) (hb : b ≠ carriageReturn)
    (hsizeStd : std.length < 2 ^ 31 - 1) (hsizeExe : exe.length < 2 ^ 31 - 1)
    (hstd : s.fpStd = .reading std (m + 1)) (hexe : s.fpExe = .reading exe (n + 1))
    (hcounts : s.CountsConsumed) :
    KeepsDiscipline std exe (compareChars (some a) (some b) s) := by
  have hends : s.fpStd.eof = false ∧ s.fpExe.eof = false := by
    rw [hstd, hexe]
    exact ⟨rfl, rfl⟩
  have hempty : s.fpStd.pushedBack = [] ∧ s.fpExe.pushedBack = [] := by
    rw [hstd, hexe]
    exact ⟨rfl, rfl⟩
  have hatStd : AtHead std s.fpStd s.na := by
    rw [hcounts.na, hstd]
    exact atHead_reading hreadStd
  have hatExe : AtHead exe s.fpExe s.nb := by
    rw [hcounts.nb, hexe]
    exact atHead_reading hreadExe
  have hbackStd : AtHead std (s.fpStd.ungetc (some a)) (decrement s.na) := by
    rw [hcounts.na, hstd]
    exact atHead_ungetc hreadStd ha hsizeStd
  have hbackExe : AtHead exe (s.fpExe.ungetc (some b)) (decrement s.nb) := by
    rw [hcounts.nb, hexe]
    exact atHead_ungetc hreadExe hb hsizeExe
  rw [compareChars_of_bytes hends.1 hends.2]
  split_ifs
  · exact keepsDiscipline_again ⟨hatStd, hatExe⟩
  · exact keepsDiscipline_again ⟨hatStd, hatExe⟩
  · exact keepsDiscipline_ungetc hb hempty.2 ⟨hatStd, hbackExe⟩
  · exact keepsDiscipline_ungetc ha hempty.1 ⟨hbackStd, hatExe⟩
  · exact keepsDiscipline_mismatch .wa
      (countsAtLog_of_shown (by simp [MismatchLog.positions]) ⟨hcounts.na, hcounts.nb⟩)

/-- An iteration from the head of the loop to its head or out of it. -/
theorem compareIteration_keepsDiscipline (h : CompareInv std exe s)
    (hstd : std.length < 2 ^ 31 - 1) (hexe : exe.length < 2 ^ 31 - 1) :
    KeepsDiscipline std exe (compareIteration s) := by
  have hcounts : s.afterReads.CountsConsumed :=
    ⟨h.std.counts_read hstd, h.exe.counts_read hexe⟩
  rw [compareIteration]
  rcases h.std.read hstd with ⟨m, a, hreadStd, hatStd, ha, hna⟩ | ⟨hreadStd, -⟩
  · have hfpStd : s.afterReads.fpStd = .reading std (m + 1) := congrArg Prod.snd hreadStd
    rcases h.exe.read hexe with ⟨n, b, hreadExe, hatExe, hb, -⟩ | ⟨hreadExe, -⟩
    · rw [hreadStd, hreadExe, Option.map_some, Option.map_some, crToNewline_of_ne ha,
        crToNewline_of_ne hb]
      exact keepsDiscipline_bytes hatStd ha hatExe hb hstd hexe hfpStd (congrArg Prod.snd hreadExe)
        hcounts
    · have hfpExe : s.afterReads.fpExe = .ended exe := congrArg Prod.snd hreadExe
      apply keepsDiscipline_exeEnded
      · rw [hfpStd]
        rfl
      · rw [hfpExe]
        rfl
      · rw [hfpStd, CompareVars.afterReads, hna]
        exact atHead_reading hatStd
      · exact hcounts
  · have hfpStd : s.afterReads.fpStd = .ended std := congrArg Prod.snd hreadStd
    rcases h.exe.read hexe with ⟨n, b, hreadExe, hatExe, hb, hnb⟩ | ⟨hreadExe, -⟩
    · have hfpExe : s.afterReads.fpExe = .reading exe (n + 1) := congrArg Prod.snd hreadExe
      apply keepsDiscipline_stdEnded
      · rw [hfpStd]
        rfl
      · rw [hfpExe]
        rfl
      · rw [hfpExe, CompareVars.afterReads, hnb]
        exact atHead_reading hatExe
      · exact hcounts
    · rw [CompareVars.afterReads, hreadStd, hreadExe]
      exact keepsDiscipline_leave s.status

/-! ## Unread bytes -/

/-- An iteration that goes on met the end of neither file. -/
theorem compareChars_again {a b : Option UInt8} {s s' : CompareVars}
    (h : (compareChars a b s).2 = .again s') :
    s.fpStd.eof = false ∧ s.fpExe.eof = false ∧ s'.unread ≤ s.unread + 1 := by
  have htrailing : ∀ c t, (trailingEnd c t).2 ≠ .again s' := by
    intro c t
    cases c with
    | none => simp [trailingEnd]
    | some c => simp [trailingEnd]
  rw [compareChars] at h
  split_ifs at h with hboth hstdEnds hspaceB hexeEnds hspaceA heq hspaces hspace hspace'
  · exact absurd h (htrailing _ _)
  · exact absurd h (htrailing _ _)
  all_goals
    refine ⟨Bool.eq_false_iff.mpr hstdEnds, Bool.eq_false_iff.mpr hexeEnds, ?_⟩
    cases h
  · exact Nat.le_succ _
  · exact Nat.le_succ _
  · have hle := s.fpExe.unread_ungetc_le b
    simp only [CompareVars.unread]
    omega
  · have hle := s.fpStd.unread_ungetc_le a
    simp only [CompareVars.unread]
    omega

theorem compareIteration_unread {s s' : CompareVars} (h : (compareIteration s).2 = .again s') :
    s'.unread < s.unread := by
  obtain ⟨hstd, hexe, hle⟩ := compareChars_again h
  have hread : ∀ fp : FileStream, (fp.fgetcWhile fun c => c = carriageReturn).2.eof = false →
      (fp.fgetcWhile fun c => c = carriageReturn).2.unread < fp.unread := by
    intro fp heof
    rcases hresult : fp.fgetcWhile fun c => c = carriageReturn with ⟨_ | b, fp'⟩
    · have hend := FileStream.eof_of_fgetcWhile hresult
      rw [hresult] at heof
      rw [heof] at hend
      cases hend
    · exact FileStream.unread_fgetcWhile hresult
  have hlessStd := hread s.fpStd hstd
  have hlessExe := hread s.fpExe hexe
  simp only [CompareVars.unread, CompareVars.afterReads] at hle ⊢
  omega

/-! ## All iterations -/

theorem compareHead_inv (hstd : std.length < 2 ^ 31 - 1) (hexe : exe.length < 2 ^ 31 - 1) {n : ℕ}
    (h : compareHead std exe n = some s) : CompareInv std exe s := by
  refine loopHead_invariant ⟨atHead_start std, atHead_start exe⟩ ?_ h
  intro t t' ht hagain
  exact (compareIteration_keepsDiscipline ht hstd hexe).inv t' hagain

theorem compareHead_eq_none (std exe : Bytes) :
    compareHead std exe (std.length + exe.length + 1) = none := by
  refine loopHead_eq_none (fun _ _ h => compareIteration_unread h) ?_
  exact Nat.lt_succ_self _

/-- The loop keeps the discipline of its streams. -/
theorem compare_streamDiscipline (hstd : std.length < 2 ^ 31 - 1)
    (hexe : exe.length < 2 ^ 31 - 1) : StreamDiscipline CountsAtLog std exe where
  pushedBack _ _ h c fp hmem :=
    (compareIteration_keepsDiscipline (compareHead_inv hstd hexe h) hstd hexe).pushedBack c fp hmem
  counted _ _ h log vars hmem :=
    (compareIteration_keepsDiscipline (compareHead_inv hstd hexe h) hstd hexe).counted log vars hmem
  decreases _ _ _ _ hagain := compareIteration_unread hagain
  ends := compareHead_eq_none std exe

theorem compare_streamDiscipline_pushBack : StreamDiscipline CountsAtLog [97, 32, 98] [97, 98] :=
  compare_streamDiscipline (by decide) (by decide)

/-- A blank and a letter behind the end of an empty standard output: both were
consumed, and `Nb` is one. -/
theorem trailing_not_counted :
    ¬StreamDiscipline (fun _ vars => vars.CountsConsumed) [] [32, 120] := by
  intro h
  have hcounts := h.counted 0 _ rfl (.trailing 120)
    ⟨.ended [], .reading [32, 120] 2, 1, 1, .ac⟩ (by decide +kernel)
  exact absurd hcounts.nb (by decide)

/-! ## The loop on the unread bytes -/

def CompareVars.toState (s : CompareVars) : CompareState :=
  ⟨s.fpStd.toByteStream, s.fpExe.toByteStream, s.na.toNat, s.nb.toNat, s.status⟩

def LoopStep.toCompareStep : LoopStep CompareVars OjResult → CompareStep
  | .leave status => .leave status
  | .again s => .again s.toState

theorem AtHead.toNat_increment {contents : Bytes} {fp : FileStream} {count : ℤ}
    (h : AtHead contents fp count) (hsize : contents.length < 2 ^ 31 - 1) :
    (increment count).toNat = count.toNat + 1 ∧
      (decrement (increment count)).toNat = count.toNat := by
  obtain ⟨n, -, -, hcount⟩ := h
  have hle := countP_take_le_length contents n
  rw [hcount, increment_natCast (by omega), decrement_natCast_succ (by omega)]
  exact ⟨rfl, rfl⟩

theorem trailingEnd_toCompareStep (fp : FileStream) (t : CompareVars) :
    (trailingEnd (fp.fgetcWhile fun c => isSpaceChar (crToNewline c)).1 t).2.toCompareStep =
      .leave (trailingStatus t.status fp.toByteStream.rest) := by
  rw [trailingStatus]
  cases hresult : (fp.fgetcWhile fun c => isSpaceChar (crToNewline c)).1 with
  | none =>
      rw [if_pos (FileStream.fgetcWhile_eq_none_iff.mp hresult)]
      rfl
  | some c =>
      rw [if_neg]
      · rfl
      · intro hall
        rw [FileStream.fgetcWhile_eq_none_iff.mpr hall] at hresult
        cases hresult

/-- An iteration is one of `compareStep` on the unread bytes. -/
theorem compareStep_toState (h : CompareInv std exe s)
    (hstd : std.length < 2 ^ 31 - 1) (hexe : exe.length < 2 ^ 31 - 1) :
    compareStep s.toState = (compareIteration s).2.toCompareStep := by
  obtain ⟨hna, hna'⟩ := h.std.toNat_increment hstd
  obtain ⟨hnb, hnb'⟩ := h.exe.toNat_increment hexe
  simp only [compareStep, CompareVars.toState, FileStream.toByteStream_fgetcSkipping]
  rw [compareIteration, CompareVars.afterReads]
  rcases h.std.read hstd with ⟨m, a, hreadStd, -, ha, -⟩ | ⟨hreadStd, -⟩
  · rcases h.exe.read hexe with ⟨n, b, hreadExe, -, hb, -⟩ | ⟨hreadExe, -⟩
    · rw [hreadStd, hreadExe, Option.map_some, Option.map_some, crToNewline_of_ne ha,
        crToNewline_of_ne hb, compareChars_of_bytes (by rfl) (by rfl)]
      dsimp only
      split_ifs
      · simp only [LoopStep.toCompareStep, CompareVars.toState, hna, hnb]
      · simp only [LoopStep.toCompareStep, CompareVars.toState, hna, hnb]
      · simp only [LoopStep.toCompareStep, CompareVars.toState, hna, hnb', Nat.add_sub_cancel,
          FileStream.toByteStream_ungetc]
      · simp only [LoopStep.toCompareStep, CompareVars.toState, hna', hnb, Nat.add_sub_cancel,
          FileStream.toByteStream_ungetc]
      · rfl
    · rw [hreadStd, hreadExe, Option.map_some, Option.map_none,
        compareChars_of_exeEnded (by rfl) (by rfl), isSpaceInt, Option.any_some]
      dsimp only
      split_ifs
      · rw [trailingEnd_toCompareStep]
      · rfl
  · rcases h.exe.read hexe with ⟨n, b, hreadExe, -, hb, -⟩ | ⟨hreadExe, -⟩
    · rw [hreadStd, hreadExe, Option.map_some, Option.map_none,
        compareChars_of_stdEnded (by rfl) (by rfl), isSpaceInt, Option.any_some]
      dsimp only
      split_ifs
      · rw [trailingEnd_toCompareStep]
      · rfl
    · rw [hreadStd, hreadExe]
      rfl

/-- The loop is left with the result of `oj_compare_output`. -/
theorem ojCompareOutput_of_leave (hstd : std.length < 2 ^ 31 - 1) (hexe : exe.length < 2 ^ 31 - 1)
    {n : ℕ} {status : OjResult} (h : compareHead std exe n = some s)
    (hleave : (compareIteration s).2 = .leave status) :
    ojCompareOutput (some std) (some exe) = .returned status := by
  have hinv : CompareInv std exe s := compareHead_inv hstd hexe h
  have hloop : compareLoop s.toState = compareLoop ⟨⟨std⟩, ⟨exe⟩, 0, 0, .ac⟩ := by
    refine (loopHead_invariant (P := fun t => CompareInv std exe t ∧
      compareLoop t.toState = compareLoop ⟨⟨std⟩, ⟨exe⟩, 0, 0, .ac⟩) ?_ ?_ h).2
    · exact ⟨⟨atHead_start std, atHead_start exe⟩, rfl⟩
    · intro t t' ht hagain
      have hstep := compareStep_toState ht.1 hstd hexe
      rw [hagain] at hstep
      refine ⟨(compareIteration_keepsDiscipline ht.1 hstd hexe).inv t' hagain, ?_⟩
      rw [← ht.2, compareLoop_of_again hstep]
  have hstep := compareStep_toState hinv hstd hexe
  rw [hleave] at hstep
  rw [ojCompareOutput, ← hloop, compareLoop_of_leave hstep]

/-- The loop is left after some iteration, with the result of `oj_compare_output`. -/
theorem exists_compareHead_leave (hstd : std.length < 2 ^ 31 - 1)
    (hexe : exe.length < 2 ^ 31 - 1) :
    ∃ n s status, compareHead std exe n = some s ∧ (compareIteration s).2 = .leave status ∧
      ojCompareOutput (some std) (some exe) = .returned status := by
  have hleft : ∃ n s status, compareHead std exe n = some s ∧
      (compareIteration s).2 = .leave status :=
    exists_loopHead_leave fun _ _ h => compareIteration_unread h
  obtain ⟨n, s, status, hhead, hleave⟩ := hleft
  exact ⟨n, s, status, hhead, hleave, ojCompareOutput_of_leave hstd hexe hhead hleave⟩

end PowerJudge
