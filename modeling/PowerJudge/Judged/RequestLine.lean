import PowerJudge.Judged.Connection
import PowerJudge.Support.ScanTokens

/-!
# What an accepted request line says

`parse_arguments` accepts a line once six conversions have matched.  The line
says what is stored exactly when its second token is a numeral in the range of
an `int` and every other token fits its member: a number that ends within its
token leaves the rest of it to the next member, and a token that does not fit
runs into the members behind it.
-/

namespace PowerJudge

/-- The C string in a member that ends within the member. -/
def Field.text? (field : Field) (solution : Memory) : Option Bytes :=
  solution.text? field.start field.size

/-- Each member holds its token: the first six of the line, and the seventh if
there is one. -/
def Judged.SaysWhatIsStored (message : Bytes) (solution : Memory) : Prop :=
  ∃ sid cid pid language timeLimit memoryLimit rest,
    tokens isSpace message = sid :: cid :: pid :: language :: timeLimit :: memoryLimit :: rest ∧
    Field.sid.text? solution = some sid ∧
    numeral? cid = some (solution.int Field.cid.start) ∧
    Field.pid.text? solution = some pid ∧
    Field.language.text? solution = some language ∧
    Field.timeLimit.text? solution = some timeLimit ∧
    Field.memoryLimit.text? solution = some memoryLimit ∧
    Field.token.text? solution = some (rest.headD [])

/-- A token that its conversion takes whole and that fits its member. -/
def TokenFits (text : Bytes) : Conversion × Field → Prop
  | (.word, field) => text.length < field.size
  | (.number, _) => ∃ value ∈ numeral? text, -(2 ^ 31) ≤ value ∧ value < 2 ^ 31

instance (text : Bytes) : (place : Conversion × Field) → Decidable (TokenFits text place)
  | (.word, field) => inferInstanceAs (Decidable (text.length < field.size))
  | (.number, _) => inferInstanceAs (Decidable (∃ value ∈ numeral? text, _))

/-- Every token that has a member fits it. -/
def TokensFit (message : Bytes) : Prop :=
  ∀ pair ∈ (tokens isSpace message).zip argumentFormat, TokenFits pair.1 pair.2

instance (message : Bytes) : Decidable (TokensFit message) :=
  List.decidableBAll (fun pair : Bytes × Conversion × Field => TokenFits pair.1 pair.2)
    ((tokens isSpace message).zip argumentFormat)

/-! ## Stored tokens -/

theorem cid_readSolution (solution : Memory) :
    (readSolution solution).cid = solution.int Field.cid.start := by
  rw [readSolution]

/-- Every member holds what a request that fits stores to it. -/
theorem text?_applyStores {r : Request} (hr : r.Fits)
    (hapart : r.stores.Pairwise fun store later => store.1.Apart later.1)
    {field : Field} {text : Bytes} (hstore : (field, text ++ [0]) ∈ r.stores)
    (htext : field.Fits text) :
    field.text? (applyStores r.stores zeroSolution) = some text := by
  apply Memory.text?_eq_some_iff.mpr
  exact ⟨⟨htext.1, holds_of_mem_stores hr.storesFit hapart hstore⟩, htext.2⟩

/-- The members after the stores of a request that fits. -/
theorem saysWhatIsStored_of_scanned {message : Bytes} {r : Request} (hr : r.Fits)
    (hscan : scanArguments message = r.required ++ r.optional) {cid : Bytes} {rest : List Bytes}
    (htokens : tokens isSpace message =
      r.sid :: cid :: r.pid :: r.language :: r.timeLimit :: r.memoryLimit :: rest)
    (hcid : numeral? cid = some r.cid) (htoken : rest.headD [] = r.token) :
    Judged.SaysWhatIsStored message (Judged.parseArguments message zeroSolution).2 := by
  have hapart := argumentStores_apart message
  rw [argumentStores_of_scanned hscan] at hapart
  have hmember : ∀ {field : Field} {text : Bytes}, (field, text ++ [0]) ∈ r.stores →
      field.Fits text → field.text? (applyStores r.stores zeroSolution) = some text :=
    fun hstore htext => text?_applyStores hr hapart hstore htext
  have hint : (applyStores r.stores zeroSolution).int Field.cid.start = r.cid := by
    rw [← cid_readSolution, readSolution_applyStores hr hapart]
  have hlast : Field.token.text? (applyStores r.stores zeroSolution) = some r.token := by
    by_cases hmissing : r.token = []
    · have hholds := hr.holds_missing_token hmissing
      rw [hmissing]
      apply Memory.text?_eq_some_iff.mpr
      exact ⟨⟨by simp, hholds⟩, by decide⟩
    · exact hmember (by simp [Request.stores, hmissing]) hr.token
  rw [Judged.parseArguments, argumentStores_of_scanned hscan]
  refine ⟨_, _, _, _, _, _, _, htokens, hmember (by simp [Request.stores]) hr.sid, ?_,
    hmember (by simp [Request.stores]) hr.pid, hmember (by simp [Request.stores]) hr.language,
    hmember (by simp [Request.stores]) hr.timeLimit,
    hmember (by simp [Request.stores]) hr.memoryLimit, ?_⟩
  · rw [hint, hcid]
  · rw [hlast, htoken]

/-! ## Scanned tokens -/

theorem map_fst_argumentFormat :
    argumentFormat.map Prod.fst = .word :: .number :: List.replicate 5 .word := rfl

/-- A line whose second token is a numeral is scanned token by token. -/
theorem scanArguments_of_numeral? {message sid cid : Bytes} {ts : List Bytes} {value : ℤ}
    (htokens : tokens isSpace message = sid :: cid :: ts) (hcid : numeral? cid = some value)
    (hlo : -(2 ^ 31) ≤ value) (hhi : value < 2 ^ 31) :
    scanArguments message = .word sid :: .number value :: (ts.take 5).map Scanned.word := by
  obtain ⟨rest, hword, hrest⟩ := scanWord_of_tokens htokens
  obtain ⟨rest', hnumber, hrest'⟩ := scanNumber_of_tokens hrest hcid hlo hhi
  rw [scanArguments, map_fst_argumentFormat]
  simp only [scan, hword, hnumber, scan_words, hrest']

/-- Without a second token only one conversion matches. -/
theorem length_scanArguments_of_few {message : Bytes}
    (hfew : (tokens isSpace message).length ≤ 1) : (scanArguments message).length ≤ 1 := by
  rw [scanArguments, map_fst_argumentFormat, scan]
  cases htokens : tokens isSpace message with
  | nil => simp [scanWord_of_tokens_nil htokens]
  | cons t ts =>
      obtain ⟨rest, hword, hrest⟩ := scanWord_of_tokens htokens
      have hnil : ts = [] := by
        rw [htokens, List.length_cons] at hfew
        exact List.eq_nil_of_length_eq_zero (by omega)
      rw [hnil] at hrest
      simp [hword, scan, scanNumber_of_tokens_nil hrest]

theorem six_le_length_of_accepted {message : Bytes} {solution : Memory}
    (haccepted : (Judged.parseArguments message solution).1 = 0) :
    6 ≤ (scanArguments message).length := by
  apply Nat.le_of_not_lt
  intro hfew
  rw [Judged.parseArguments, if_pos hfew] at haccepted
  cases haccepted

/-- An accepted line whose tokens fit has at least six of them. -/
theorem exists_tokens_of_accepted {message : Bytes}
    (haccepted : (Judged.parseArguments message zeroSolution).1 = 0) (hfit : TokensFit message) :
    ∃ sid cid pid language timeLimit memoryLimit rest value,
      tokens isSpace message =
        sid :: cid :: pid :: language :: timeLimit :: memoryLimit :: rest ∧
      numeral? cid = some value ∧ (-(2 ^ 31) ≤ value ∧ value < 2 ^ 31) ∧
      scanArguments message = .word sid :: .number value ::
        ((pid :: language :: timeLimit :: memoryLimit :: rest).take 5).map Scanned.word := by
  have hsix := six_le_length_of_accepted haccepted
  obtain ⟨sid, cid, ts, htokens⟩ :
      ∃ sid cid ts, tokens isSpace message = sid :: cid :: ts := by
    have hmany : 2 ≤ (tokens isSpace message).length := by
      apply Nat.le_of_not_lt
      intro hfew
      have hone := length_scanArguments_of_few (Nat.le_of_lt_succ hfew)
      omega
    match tokens isSpace message, hmany with
    | sid :: cid :: ts, _ => exact ⟨sid, cid, ts, rfl⟩
  obtain ⟨value, hvalue, hlo, hhi⟩ : TokenFits cid (.number, .cid) :=
    hfit (cid, .number, .cid) (by simp [htokens, argumentFormat])
  have hscan := scanArguments_of_numeral? htokens hvalue hlo hhi
  have hlength : 4 ≤ ts.length := by
    simp [hscan] at hsix
    omega
  match ts, hlength with
  | pid :: language :: timeLimit :: memoryLimit :: rest, _ =>
      exact ⟨sid, cid, pid, language, timeLimit, memoryLimit, rest, value, htokens, hvalue,
        ⟨hlo, hhi⟩, hscan⟩

/-- An accepted line whose tokens fit is the line of a request. -/
theorem exists_request_of_accepted {message : Bytes} (hnul : ∀ b ∈ message, b ≠ 0)
    (haccepted : (Judged.parseArguments message zeroSolution).1 = 0)
    (hfit : TokensFit message) :
    ∃ (r : Request) (cid : Bytes) (rest : List Bytes), r.Fits ∧
      scanArguments message = r.required ++ r.optional ∧
      tokens isSpace message =
        r.sid :: cid :: r.pid :: r.language :: r.timeLimit :: r.memoryLimit :: rest ∧
      numeral? cid = some r.cid ∧ rest.headD [] = r.token := by
  obtain ⟨sid, cid, pid, language, timeLimit, memoryLimit, rest, value, htokens, hvalue, hrange,
    hscan⟩ := exists_tokens_of_accepted haccepted hfit
  have hword : ∀ {t : Bytes} {field : Field},
      (t, Conversion.word, field) ∈ (tokens isSpace message).zip argumentFormat →
      field.Fits t :=
    fun hpair =>
      ⟨fun b hb => hnul b (mem_of_mem_tokens (List.of_mem_zip hpair).1 hb), hfit _ hpair⟩
  refine ⟨⟨sid, value, pid, language, timeLimit, memoryLimit, rest.headD []⟩, cid, rest,
    ⟨?_, hrange, ?_, ?_, ?_, ?_, ?_⟩, ?_, htokens, hvalue, rfl⟩
  · exact hword (by simp [htokens, argumentFormat])
  · exact hword (by simp [htokens, argumentFormat])
  · exact hword (by simp [htokens, argumentFormat])
  · exact hword (by simp [htokens, argumentFormat])
  · exact hword (by simp [htokens, argumentFormat])
  · cases rest with
    | nil => exact (by decide : Field.token.Fits [])
    | cons token rest => exact hword (by simp [htokens, argumentFormat])
  · rw [hscan, Request.required, Request.optional]
    cases rest with
    | nil => rfl
    | cons token rest =>
        have hne : token ≠ [] := ne_nil_of_mem_tokens (by rw [htokens]; simp)
        simp [hne]

/-- An accepted line says what is stored exactly when its second token is a numeral
in the range of an `int` and every other token fits its member. -/
theorem saysWhatIsStored_iff_tokensFit {message : Bytes} (hnul : ∀ b ∈ message, b ≠ 0)
    (haccepted : (Judged.parseArguments message zeroSolution).1 = 0) :
    Judged.SaysWhatIsStored message (Judged.parseArguments message zeroSolution).2 ↔
      TokensFit message := by
  constructor
  · rintro ⟨sid, cid, pid, language, timeLimit, memoryLimit, rest, htokens, hsid, hcid, hpid,
      hlanguage, htime, hmemory, htoken⟩
    have hshort : ∀ {field : Field} {text : Bytes},
        field.text? (Judged.parseArguments message zeroSolution).2 = some text →
          TokenFits text (.word, field) :=
      fun h => (Memory.text?_eq_some_iff.mp h).2
    have hnumber : TokenFits cid (.number, .cid) := by
      have hrange := Memory.int_range (Judged.parseArguments message zeroSolution).2 Field.cid.start
      exact ⟨_, hcid, hrange⟩
    rw [TokensFit, htokens]
    intro pair hpair
    simp only [argumentFormat, List.zip_cons_cons, List.mem_cons] at hpair
    rcases hpair with rfl | rfl | rfl | rfl | rfl | rfl | hlast
    · exact hshort hsid
    · exact hnumber
    · exact hshort hpid
    · exact hshort hlanguage
    · exact hshort htime
    · exact hshort hmemory
    · cases rest with
      | nil => cases hlast
      | cons token rest =>
          rw [List.zip_cons_cons, List.zip_nil_right, List.mem_singleton] at hlast
          rw [hlast]
          exact hshort htoken
  · intro hfit
    obtain ⟨r, cid, rest, hr, hscan, htokens, hcid, htoken⟩ :=
      exists_request_of_accepted hnul haccepted hfit
    exact saysWhatIsStored_of_scanned hr hscan htokens hcid htoken

/-- A contest id with a letter behind it. -/
def letterLine : Bytes := ascii "110522 0a 2549 2 5000 65536"

/-- The letter becomes the problem, and every other token the member after its own. -/
theorem letterLine_accepted :
    (∀ b ∈ letterLine, b ≠ 0) ∧
    (Judged.parseArguments letterLine zeroSolution).1 = 0 ∧
    Field.pid.text? (Judged.parseArguments letterLine zeroSolution).2 = some (ascii "a") ∧
    ¬Judged.SaysWhatIsStored letterLine (Judged.parseArguments letterLine zeroSolution).2 := by
  have htokens : tokens isSpace letterLine = [ascii "110522", ascii "0a", ascii "2549", ascii "2",
      ascii "5000", ascii "65536"] := by
    decide +kernel
  refine ⟨@of_decide_eq_true _ (List.decidableBAll (fun b => b ≠ 0) _) (by decide),
    by decide +kernel, by decide +kernel, ?_⟩
  rintro ⟨sid, cid, pid, language, timeLimit, memoryLimit, rest, hsplit, -, hcid, -⟩
  rw [htokens] at hsplit
  obtain rfl : ascii "0a" = cid := (List.cons.inj (List.cons.inj hsplit).2).1
  rw [show numeral? (ascii "0a") = none by decide] at hcid
  cases hcid

theorem saysWhatIsStored_clientRequest :
    Judged.SaysWhatIsStored (ascii "110522 0 2549 2 5000 65536 123456")
      (Judged.parseArguments (ascii "110522 0 2549 2 5000 65536 123456") zeroSolution).2 :=
  (saysWhatIsStored_iff_tokensFit
    (@of_decide_eq_true _ (List.decidableBAll (fun b => b ≠ 0) _) (by decide))
    (by decide +kernel)).mpr (by decide +kernel)

end PowerJudge
