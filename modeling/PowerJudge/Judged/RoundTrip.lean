import PowerJudge.Judged.Connection

/-!
# A request from the client to the judge

The client prints numbers, the daemon keeps their numerals as strings, and the
judge that it starts reads them back with `atoi`.
-/

namespace PowerJudge

/-! ## The client -/

/-- The range of an `int`. -/
def IsInt (n : ℤ) : Prop := -(2 ^ 31) ≤ n ∧ n < 2 ^ 31

/-- The numbers and the token that a client puts into a request. -/
structure ClientFields where
  sid : ℤ
  cid : ℤ
  pid : ℤ
  language : ℤ
  timeLimit : ℤ
  memoryLimit : ℤ
  token : Bytes
  sid_int : IsInt sid
  cid_int : IsInt cid
  pid_int : IsInt pid
  language_range : 0 ≤ language ∧ language ≤ 9999
  timeLimit_int : IsInt timeLimit
  timeLimit_nonneg : 0 ≤ timeLimit
  memoryLimit_int : IsInt memoryLimit
  memoryLimit_nonneg : 0 ≤ memoryLimit
  token_length : 1 ≤ token.length ∧ token.length ≤ 254
  /-- The token is a string without blanks. -/
  token_word : ∀ b ∈ token, isSpace b = false ∧ b ≠ 0

namespace ClientFields

/-- `sprintf` with `"%d %d %d %d %d %d "` and the token. -/
def line (sent : ClientFields) : Bytes :=
  lead [.number sent.sid, .number sent.cid, .number sent.pid, .number sent.language,
    .number sent.timeLimit, .number sent.memoryLimit] ++ sent.token

/-- The request as strings. -/
def request (sent : ClientFields) : Request where
  sid := formatInt sent.sid
  cid := sent.cid
  pid := formatInt sent.pid
  language := formatInt sent.language
  timeLimit := formatInt sent.timeLimit
  memoryLimit := formatInt sent.memoryLimit
  token := sent.token

theorem line_eq (sent : ClientFields) : sent.line = sent.request.line := by
  simp [line, request, Request.line, Request.required, lead, Scanned.print]

end ClientFields

/-! ## The daemon -/

theorem isWord_formatInt (n : ℤ) : IsWord (formatInt n) :=
  ⟨formatInt_ne_nil n, fun _ hb => (mem_formatInt hb).1⟩

/-- The widest numeral of an `int` has eleven characters. -/
theorem fits_formatInt {field : Field} {n : ℤ} (hn : IsInt n) (hsize : 12 ≤ field.size) :
    field.Fits (formatInt n) := by
  refine ⟨fun b hb => (mem_formatInt hb).2, ?_⟩
  have hrange : n.natAbs < 10 ^ 10 := by
    unfold IsInt at hn
    omega
  have hlength := length_formatInt_le (by decide) hrange
  omega

theorem fits_language {n : ℤ} (hn : 0 ≤ n ∧ n ≤ 9999) : Field.language.Fits (formatInt n) := by
  refine ⟨fun b hb => (mem_formatInt hb).2, ?_⟩
  obtain ⟨k, rfl⟩ := Int.eq_ofNat_of_zero_le hn.1
  have hrange : k < 10 ^ 4 := by omega
  have hlength := length_formatNat_le (by decide) hrange
  rw [formatInt_natCast]
  exact Nat.lt_succ_of_le hlength

theorem ClientFields.wellFormed (sent : ClientFields) : sent.request.WellFormed where
  sid := fits_formatInt sent.sid_int (by decide)
  cid := sent.cid_int
  pid := fits_formatInt sent.pid_int (by decide)
  language := fits_language sent.language_range
  timeLimit := fits_formatInt sent.timeLimit_int (by decide)
  memoryLimit := fits_formatInt sent.memoryLimit_int (by decide)
  token := ⟨fun b hb => (sent.token_word b hb).2, Nat.lt_succ_of_le sent.token_length.2⟩
  sidWord := isWord_formatInt _
  pidWord := isWord_formatInt _
  languageWord := isWord_formatInt _
  timeLimitWord := isWord_formatInt _
  memoryLimitWord := isWord_formatInt _
  tokenWord :=
    ⟨List.ne_nil_of_length_pos sent.token_length.1, fun b hb => (sent.token_word b hb).1⟩

/-- The whole line of a well-formed request is scanned as that request. -/
theorem scanArguments_line {r : Request} (hr : r.WellFormed) :
    scanArguments r.line = r.required ++ r.optional := by
  have hscan := scanArguments_token hr r.token.length
  rwa [List.take_length] at hscan

/-! ## The judge -/

/-- The options have the numbers that were sent. -/
structure Options.Reads (o : Options) (sent : ClientFields) : Prop where
  sid : o.sid = sent.sid
  pid : o.pid = sent.pid
  lang : o.lang = sent.language
  timeLimit : (o.timeLimit : ℤ) = sent.timeLimit
  memoryLimit : (o.memoryLimit : ℤ) = sent.memoryLimit
  cid : o.cid = sent.cid

theorem atoi_formatInt_of_isInt {n : ℤ} (hn : IsInt n) : atoi (formatInt n) = n :=
  atoi_formatInt hn.1 hn.2

theorem toUnsigned_of_isInt {n : ℤ} (hn : IsInt n) (hnonneg : 0 ≤ n) :
    (toUnsigned n : ℤ) = n := by
  unfold IsInt at hn
  unfold toUnsigned
  omega

/-- The judge reads the numbers back, unless a directory cannot be resolved. -/
theorem applyOptions_request (config : Config) (sent : ClientFields) (args : Arguments) :
    (∃ o, applyOptions args (judgeOptions config sent.request) .init = .returned o ∧
      o.Reads sent) ∨
    applyOptions args (judgeOptions config sent.request) .init = .exited .badParam ∧
      (args.realpath (workDir config sent.request) = none ∨
        args.realpath config.dataDir = none) := by
  have hlanguage : IsInt sent.language := by
    have hrange := sent.language_range
    constructor
    · omega
    · omega
  simp only [judgeOptions, applyOptions, applyOption, Outcome.bind_returned]
  cases hwork : args.realpath (workDir config sent.request) with
  | none => exact Or.inr ⟨rfl, Or.inl rfl⟩
  | some work =>
      cases hdata : args.realpath config.dataDir with
      | none => exact Or.inr ⟨rfl, Or.inr rfl⟩
      | some data =>
          refine Or.inl ⟨_, rfl, ?_⟩
          exact
            { sid := atoi_formatInt_of_isInt sent.sid_int
              pid := atoi_formatInt_of_isInt sent.pid_int
              lang := atoi_formatInt_of_isInt hlanguage
              timeLimit := by
                dsimp only [ClientFields.request]
                rw [atoi_formatInt_of_isInt sent.timeLimit_int]
                exact toUnsigned_of_isInt sent.timeLimit_int sent.timeLimit_nonneg
              memoryLimit := by
                dsimp only [ClientFields.request]
                rw [atoi_formatInt_of_isInt sent.memoryLimit_int]
                exact toUnsigned_of_isInt sent.memoryLimit_int sent.memoryLimit_nonneg
              cid := atoi_formatInt_of_isInt sent.cid_int }

/-! ## The whole way -/

/-- The request that the daemon reads from the client's line. -/
def ClientFields.received (sent : ClientFields) : Request :=
  readSolution (Judged.parseArguments sent.line zeroSolution).2

/-- Nothing is lost between the client and the judge. -/
structure ClientFields.Survives (sent : ClientFields) (config : Config) : Prop where
  /-- `sscanf` writes inside the members. -/
  inside : StoresFit (argumentStores sent.line)
  accepted : (Judged.parseArguments sent.line zeroSolution).1 = 0
  token : sent.received.token = sent.token
  reads : ∀ args o, applyOptions args (judgeOptions config sent.received) .init = .returned o →
    o.Reads sent
  /-- The options are only refused when a directory cannot be resolved. -/
  returns : ∀ args, args.realpath (workDir config sent.received) ≠ none →
    args.realpath config.dataDir ≠ none →
    ∃ o, applyOptions args (judgeOptions config sent.received) .init = .returned o

/-- Every request arrives at the judge as it was sent. -/
theorem request_survives (sent : ClientFields) (config : Config) : sent.Survives config := by
  have hscan := scanArguments_line sent.wellFormed
  rw [← sent.line_eq] at hscan
  obtain ⟨hinside, haccepted, hread⟩ := parseArguments_of_scanned sent.wellFormed.toFits hscan
  have hreceived : sent.received = sent.request := hread
  refine ⟨hinside, haccepted, congrArg Request.token hreceived, ?_, ?_⟩
  · intro args o ho
    rw [hreceived] at ho
    rcases applyOptions_request config sent args with ⟨o', hreturned, hreads⟩ | ⟨hexited, -⟩
    · rw [hreturned] at ho
      cases ho
      exact hreads
    · rw [hexited] at ho
      cases ho
  · rw [hreceived]
    intro args hwork hdata
    rcases applyOptions_request config sent args with ⟨o, hreturned, -⟩ | ⟨-, hnone⟩
    · exact ⟨o, hreturned⟩
    · rcases hnone with h | h
      · exact (hwork h).elim
      · exact (hdata h).elim

end PowerJudge
