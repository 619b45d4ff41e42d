import PowerJudge.Judged.Daemon
import PowerJudge.Support.Memory
import PowerJudge.Support.Scan

/-!
# A connection to the daemon

`work` reads a password and a request, and `parse_arguments` scans the request
into an `oj_solution_t`.  The solution is its bytes: every conversion stores to
the start of its member, whatever the size of the member.
-/

namespace PowerJudge

/-! ## The members of `oj_solution_t` -/

/-- A member of `oj_solution_t`. -/
structure Field where
  start : ℕ
  size : ℕ
  deriving DecidableEq, Repr

namespace Field

def sid : Field := ⟨0, 15⟩

def pid : Field := ⟨15, 15⟩

/-- An `int`, aligned to four bytes. -/
def cid : Field := ⟨32, 4⟩

def language : Field := ⟨36, 5⟩

def timeLimit : Field := ⟨41, 15⟩

def memoryLimit : Field := ⟨56, 15⟩

def token : Field := ⟨71, 255⟩

/-- The members do not overlap. -/
def Apart (f g : Field) : Prop := f.start + f.size ≤ g.start ∨ g.start + g.size ≤ f.start

instance (f g : Field) : Decidable (f.Apart g) := inferInstanceAs (Decidable (_ ∨ _))

end Field

/-- `sizeof(oj_solution_t)`: `work_dir` and four `int`s follow the token. -/
def solutionSize : ℕ := 4440

/-- `oj_solution_t oj_solution{};` -/
def zeroSolution : Memory := fun _ => 0

/-- What is read of a solution later on. -/
def readSolution (solution : Memory) : Request where
  sid := solution.string Field.sid.start solutionSize
  cid := solution.int Field.cid.start
  pid := solution.string Field.pid.start solutionSize
  language := solution.string Field.language.start solutionSize
  timeLimit := solution.string Field.timeLimit.start solutionSize
  memoryLimit := solution.string Field.memoryLimit.start solutionSize
  token := solution.string Field.token.start solutionSize

/-! ## `parse_arguments` -/

/-- `"%s %d %s %s %s %s %s"`, with the member each conversion stores to. -/
def argumentFormat : List (Conversion × Field) :=
  [(.word, .sid), (.number, .cid), (.word, .pid), (.word, .language), (.word, .timeLimit),
    (.word, .memoryLimit), (.word, .token)]

def scanArguments (message : Bytes) : List Scanned :=
  scan (argumentFormat.map Prod.fst) message

/-- The bytes that a conversion stores. -/
def Scanned.stored : Scanned → Bytes
  | .word text => text ++ [0]
  | .number value => Memory.intBytes value

/-- The stores of `sscanf`. -/
def argumentStores (message : Bytes) : List (Field × Bytes) :=
  (argumentFormat.map Prod.snd).zip ((scanArguments message).map Scanned.stored)

def applyStores (stores : List (Field × Bytes)) (solution : Memory) : Memory :=
  stores.foldl (fun solution store => solution.store store.1.start store.2) solution

/-- `parse_arguments` of the daemon: its result, and the solution after it. -/
def Judged.parseArguments (message : Bytes) (solution : Memory) : ℤ × Memory :=
  (if (scanArguments message).length < 6 then -1 else 0,
    applyStores (argumentStores message) solution)

/-! ## `work` -/

/-- What one `read` into the buffer delivers. -/
abbrev Received := {bytes : Bytes // bytes.length ≤ buffSize}

/-- The string in a buffer that was zeroed before it was read into.  A buffer that
is full is taken to end with the string. -/
def bufferString (received : Bytes) : Bytes := received.takeWhile fun b => b ≠ 0

/-- `check_password`. -/
def checkPassword (password message : Bytes) : Bool :=
  if password.length ≠ message.length then false
  else password.take password.length = message.take password.length

/-- What `work` does on a connection. -/
structure WorkResult where
  /-- The replies written, in order. -/
  replies : List Bytes
  /-- The solution pushed on `ProcessQueue`. -/
  pushed : Option Request
  deriving DecidableEq, Repr

def authenticationOk : Bytes := ascii "Authentication Ok."

def authenticationFailed : Bytes := ascii "Authentication Failed."

def missingParameters : Bytes := ascii "Missing some parameters."

def requestReceived : Bytes := ascii "I got your request."

/-- `work`, for the outcomes of its two calls of `read`; `none` is a failure. -/
def work (password : Bytes) (firstRead secondRead : Option Received) : WorkResult :=
  let message := bufferString ((firstRead.map Subtype.val).getD [])
  if checkPassword password message then
    let received := (secondRead.map Subtype.val).getD []
    if received.length = 0 then ⟨[authenticationOk], none⟩
    else
      let parsed := Judged.parseArguments (bufferString received) zeroSolution
      if parsed.1 < 0 then ⟨[authenticationOk, missingParameters], none⟩
      else ⟨[authenticationOk, requestReceived], some (readSolution parsed.2)⟩
  else ⟨[authenticationFailed], none⟩

/-! ## Stores that stay in their members -/

/-- Every store fits its member. -/
def StoresFit (stores : List (Field × Bytes)) : Prop :=
  ∀ store ∈ stores, store.2.length ≤ store.1.size

/-- Stores to other members leave what a member holds. -/
theorem holds_applyStores {stores : List (Field × Bytes)} (hfit : StoresFit stores)
    {field : Field} (hapart : ∀ store ∈ stores, field.Apart store.1)
    {bytes : Bytes} (hbytes : bytes.length ≤ field.size) {solution : Memory}
    (h : solution.Holds field.start bytes) :
    (applyStores stores solution).Holds field.start bytes := by
  induction stores generalizing solution with
  | nil => exact h
  | cons store stores ih =>
      have hsize := hfit store List.mem_cons_self
      have hfield := hapart store List.mem_cons_self
      apply ih
      · exact fun later hlater => hfit later (List.mem_cons_of_mem _ hlater)
      · exact fun later hlater => hapart later (List.mem_cons_of_mem _ hlater)
      · apply h.store
        unfold Field.Apart at hfield
        omega

/-- Stores to members that do not overlap are all held in the end. -/
theorem holds_of_mem_stores {stores : List (Field × Bytes)} (hfit : StoresFit stores)
    (hapart : stores.Pairwise fun store later => store.1.Apart later.1) {solution : Memory}
    {store : Field × Bytes} (hstore : store ∈ stores) :
    (applyStores stores solution).Holds store.1.start store.2 := by
  induction stores generalizing solution with
  | nil => cases hstore
  | cons first stores ih =>
      rw [List.pairwise_cons] at hapart
      have hlater : StoresFit stores :=
        fun later hlater => hfit later (List.mem_cons_of_mem _ hlater)
      rcases List.mem_cons.mp hstore with rfl | hstore
      · apply holds_applyStores hlater hapart.1 (hfit store List.mem_cons_self)
        exact Memory.holds_store _ _ _
      · exact ih hlater hapart.2 hstore

theorem argumentStores_apart (message : Bytes) :
    (argumentStores message).Pairwise fun store later => store.1.Apart later.1 := by
  have hfields : (argumentFormat.map Prod.snd).Pairwise Field.Apart := by decide
  have hsublist : ∀ (fields : List Field) (stored : List Bytes),
      ((fields.zip stored).map Prod.fst).Sublist fields := by
    intro fields
    induction fields with
    | nil => simp
    | cons field fields ih =>
        intro stored
        cases stored with
        | nil => simp
        | cons bytes stored => simp [ih]
  exact List.pairwise_map.mp (hfields.sublist (hsublist _ _))

/-- A string that is stored in its member is read back. -/
theorem string_applyStores {stores : List (Field × Bytes)} (hfit : StoresFit stores)
    (hapart : stores.Pairwise fun store later => store.1.Apart later.1) {solution : Memory}
    {field : Field} {text : Bytes} (hstore : (field, text ++ [0]) ∈ stores)
    (htext : ∀ b ∈ text, b ≠ 0) (hend : field.start + field.size ≤ solutionSize) :
    (applyStores stores solution).string field.start solutionSize = text := by
  have hholds : (applyStores stores solution).Holds field.start (text ++ [0]) :=
    holds_of_mem_stores hfit hapart hstore
  have hsize : (text ++ [0]).length ≤ field.size := hfit _ hstore
  rw [List.length_append, List.length_singleton] at hsize
  exact hholds.string_eq htext (by omega)

/-! ## Requests that fit -/

/-- A string without NUL that fits a member with its terminator. -/
def Field.Fits (field : Field) (text : Bytes) : Prop :=
  (∀ b ∈ text, b ≠ 0) ∧ text.length < field.size

instance (field : Field) (text : Bytes) : Decidable (field.Fits text) :=
  @instDecidableAnd _ _ (List.decidableBAll (fun b => b ≠ 0) text) _

/-- A request that `oj_solution_t` can hold. -/
structure Request.Fits (r : Request) : Prop where
  sid : Field.sid.Fits r.sid
  cid : -(2 ^ 31) ≤ r.cid ∧ r.cid < 2 ^ 31
  pid : Field.pid.Fits r.pid
  language : Field.language.Fits r.language
  timeLimit : Field.timeLimit.Fits r.timeLimit
  memoryLimit : Field.memoryLimit.Fits r.memoryLimit
  token : Field.token.Fits r.token

/-- The six fields that `parse_arguments` insists on. -/
def Request.required (r : Request) : List Scanned :=
  [.word r.sid, .number r.cid, .word r.pid, .word r.language, .word r.timeLimit,
    .word r.memoryLimit]

/-- The token, unless it is missing. -/
def Request.optional (r : Request) : List Scanned :=
  if r.token = [] then [] else [.word r.token]

/-- The stores for a request. -/
def Request.stores (r : Request) : List (Field × Bytes) :=
  [(.sid, r.sid ++ [0]), (.cid, Memory.intBytes r.cid), (.pid, r.pid ++ [0]),
    (.language, r.language ++ [0]), (.timeLimit, r.timeLimit ++ [0]),
    (.memoryLimit, r.memoryLimit ++ [0])] ++
    if r.token = [] then [] else [(.token, r.token ++ [0])]

theorem argumentStores_of_scanned {message : Bytes} {r : Request}
    (hscan : scanArguments message = r.required ++ r.optional) :
    argumentStores message = r.stores := by
  rw [argumentStores, hscan, Request.optional, Request.stores]
  split <;> rfl

theorem Request.Fits.storesFit {r : Request} (hr : r.Fits) : StoresFit r.stores := by
  have hfits : ∀ {field : Field} {text : Bytes}, field.Fits text →
      (text ++ [0]).length ≤ field.size := by
    intro field text h
    rw [List.length_append, List.length_singleton]
    exact h.2
  intro store hstore
  simp only [Request.stores, List.mem_append, List.mem_cons, List.not_mem_nil, or_false] at hstore
  rcases hstore with (rfl | rfl | rfl | rfl | rfl | rfl) | htoken
  · exact hfits hr.sid
  · exact le_refl 4
  · exact hfits hr.pid
  · exact hfits hr.language
  · exact hfits hr.timeLimit
  · exact hfits hr.memoryLimit
  · split at htoken
    · cases htoken
    · rw [List.mem_singleton.mp htoken]
      exact hfits hr.token

/-- A token that is not sent is left empty. -/
theorem Request.Fits.holds_missing_token {r : Request} (hr : r.Fits) (hmissing : r.token = []) :
    (applyStores r.stores zeroSolution).Holds Field.token.start ([] ++ [0]) := by
  have hnone : ∀ store ∈ r.stores, Field.token.Apart store.1 := by
    simp only [Request.stores, hmissing, if_true, List.append_nil]
    simp [Field.Apart, Field.token, Field.sid, Field.cid, Field.pid, Field.language,
      Field.timeLimit, Field.memoryLimit]
  have hzero : zeroSolution.Holds Field.token.start ([] ++ [0]) := by
    intro i hi
    obtain rfl : i = 0 := by simpa using hi
    rfl
  exact holds_applyStores hr.storesFit hnone (by decide) hzero

/-- The solution after the stores for a request is the request. -/
theorem readSolution_applyStores {r : Request} (hr : r.Fits)
    (hapart : r.stores.Pairwise fun store later => store.1.Apart later.1) :
    readSolution (applyStores r.stores zeroSolution) = r := by
  have hstring : ∀ {field : Field} {text : Bytes}, (field, text ++ [0]) ∈ r.stores →
      field.Fits text → field.start + field.size ≤ solutionSize →
      (applyStores r.stores zeroSolution).string field.start solutionSize = text :=
    fun hstore hfits hend => string_applyStores hr.storesFit hapart hstore hfits.1 hend
  have hsid : (Field.sid, r.sid ++ [0]) ∈ r.stores := by simp [Request.stores]
  have hcid : (Field.cid, Memory.intBytes r.cid) ∈ r.stores := by simp [Request.stores]
  have hpid : (Field.pid, r.pid ++ [0]) ∈ r.stores := by simp [Request.stores]
  have hlanguage : (Field.language, r.language ++ [0]) ∈ r.stores := by simp [Request.stores]
  have htime : (Field.timeLimit, r.timeLimit ++ [0]) ∈ r.stores := by simp [Request.stores]
  have hmemory : (Field.memoryLimit, r.memoryLimit ++ [0]) ∈ r.stores := by
    simp [Request.stores]
  have hint : (applyStores r.stores zeroSolution).int Field.cid.start = r.cid := by
    rw [(holds_of_mem_stores hr.storesFit hapart hcid).int_eq]
    apply Int.bmod_eq_of_le
    · have hlo := hr.cid.1
      omega
    · have hhi := hr.cid.2
      omega
  have htoken : (applyStores r.stores zeroSolution).string Field.token.start solutionSize =
      r.token := by
    by_cases hmissing : r.token = []
    · have hholds := hr.holds_missing_token hmissing
      rw [hmissing]
      exact hholds.string_eq (by simp) (by decide)
    · exact hstring (by simp [Request.stores, hmissing]) hr.token (by decide)
  unfold readSolution
  rw [hstring hsid hr.sid (by decide), hint, hstring hpid hr.pid (by decide),
    hstring hlanguage hr.language (by decide), hstring htime hr.timeLimit (by decide),
    hstring hmemory hr.memoryLimit (by decide), htoken]

/-- A request that was scanned and fits is stored and read back. -/
theorem parseArguments_of_scanned {message : Bytes} {r : Request} (hr : r.Fits)
    (hscan : scanArguments message = r.required ++ r.optional) :
    StoresFit (argumentStores message) ∧
      (Judged.parseArguments message zeroSolution).1 = 0 ∧
      readSolution (Judged.parseArguments message zeroSolution).2 = r := by
  have hapart := argumentStores_apart message
  rw [argumentStores_of_scanned hscan] at hapart
  have hlength : ¬(scanArguments message).length < 6 := by
    rw [hscan, List.length_append]
    exact Nat.not_lt.mpr (Nat.le_add_right 6 _)
  refine ⟨?_, ?_, ?_⟩
  · rw [argumentStores_of_scanned hscan]
    exact hr.storesFit
  · rw [Judged.parseArguments, if_neg hlength]
  · rw [Judged.parseArguments, argumentStores_of_scanned hscan]
    exact readSolution_applyStores hr hapart

/-! ## Request lines -/

/-- A word that `%s` scans back whole. -/
def IsWord (text : Bytes) : Prop := text ≠ [] ∧ ∀ b ∈ text, isSpace b = false

instance (text : Bytes) : Decidable (IsWord text) :=
  @instDecidableAnd _ _ _ (List.decidableBAll (fun b => isSpace b = false) text)

/-- A request of seven fields, each of which fits. -/
structure Request.WellFormed (r : Request) : Prop extends r.Fits where
  sidWord : IsWord r.sid
  pidWord : IsWord r.pid
  languageWord : IsWord r.language
  timeLimitWord : IsWord r.timeLimit
  memoryLimitWord : IsWord r.memoryLimit
  tokenWord : IsWord r.token

/-- The line that a client sends. -/
def Request.line (r : Request) : Bytes := lead r.required ++ r.token

theorem Request.WellFormed.printable {r : Request} (hr : r.WellFormed) :
    ∀ field ∈ r.required, field.Printable := by
  have hcid : (Scanned.number r.cid).Printable := by
    have hlo := hr.cid.1
    have hhi := hr.cid.2
    constructor
    · omega
    · omega
  intro field hfield
  simp only [Request.required, List.mem_cons, List.not_mem_nil, or_false] at hfield
  rcases hfield with rfl | rfl | rfl | rfl | rfl | rfl
  · exact hr.sidWord
  · exact hcid
  · exact hr.pidWord
  · exact hr.languageWord
  · exact hr.timeLimitWord
  · exact hr.memoryLimitWord

/-- The fields before the memory limit. -/
def Request.early (r : Request) : List Scanned :=
  [.word r.sid, .number r.cid, .word r.pid, .word r.language, .word r.timeLimit]

theorem Request.line_eq (r : Request) :
    r.line = lead r.early ++ (r.memoryLimit ++ 32 :: r.token) := by
  simp [Request.line, Request.required, Request.early, lead, Scanned.print]

theorem Request.WellFormed.earlyPrintable {r : Request} (hr : r.WellFormed) :
    ∀ field ∈ r.early, field.Printable := by
  intro field hfield
  apply hr.printable
  simp only [Request.early, Request.required, List.mem_cons, List.not_mem_nil] at hfield ⊢
  tauto

theorem scan_word_of_isWord {text : Bytes} (h : IsWord text) (format : List Conversion)
    {rest : Bytes} (hrest : EndsField rest) :
    scan (.word :: format) (text ++ rest) = .word text :: scan format rest :=
  @scan_print (.word text) h format rest hrest

theorem isWord_take {text : Bytes} (h : IsWord text) {k : ℕ} (hk : 0 < k) :
    IsWord (text.take k) := by
  refine ⟨?_, fun b hb => h.2 b (List.mem_of_mem_take hb)⟩
  rw [ne_eq, List.take_eq_nil_iff]
  rintro (hzero | hnil)
  · omega
  · exact h.1 hnil

/-- A line that is cut before the memory limit has too few fields. -/
theorem length_scanArguments_early {r : Request} (hr : r.WellFormed) (k : ℕ) :
    (scanArguments ((lead r.early).take k)).length ≤ 5 :=
  length_scan_take_lead hr.earlyPrintable [.word, .word] k

/-- A line that is cut in the memory limit is scanned as a request without a
token. -/
theorem scanArguments_memoryLimit {r : Request} (hr : r.WellFormed) {k : ℕ} (hk : 0 < k) :
    scanArguments (lead r.early ++ r.memoryLimit.take k) =
      r.early ++ [.word (r.memoryLimit.take k)] := by
  have hformat : argumentFormat.map Prod.fst =
      r.early.map Scanned.conversion ++ [.word, .word] := rfl
  have hscan := scan_word_of_isWord (isWord_take hr.memoryLimitWord hk) [.word] endsField_nil
  rw [List.append_nil, scan_nil] at hscan
  rw [scanArguments, hformat, scan_lead_append hr.earlyPrintable, hscan]

/-- A line that is cut in the token is scanned with what is left of it. -/
theorem scanArguments_token {r : Request} (hr : r.WellFormed) (k : ℕ) :
    scanArguments (lead r.required ++ r.token.take k) =
      r.required ++ if r.token.take k = [] then [] else [.word (r.token.take k)] := by
  have hformat : argumentFormat.map Prod.fst =
      r.required.map Scanned.conversion ++ [.word] := rfl
  rw [scanArguments, hformat, scan_lead_append hr.printable]
  congr 1
  split_ifs with hcut
  · rw [hcut, scan_nil]
  · have hpos : 0 < k := by
      rcases Nat.eq_zero_or_pos k with rfl | hpos
      · exact (hcut (List.take_zero)).elim
      · exact hpos
    have hscan := scan_word_of_isWord (isWord_take hr.tokenWord hpos) [] endsField_nil
    rwa [List.append_nil, scan_nil] at hscan

theorem Field.Fits.take {field : Field} {text : Bytes} (h : field.Fits text) (k : ℕ) :
    field.Fits (text.take k) :=
  ⟨fun b hb => h.1 b (List.mem_of_mem_take hb),
    Nat.lt_of_le_of_lt (List.length_take_le' k text) h.2⟩

theorem Request.lead_required (r : Request) :
    lead r.required = lead r.early ++ (r.memoryLimit ++ [32]) := by
  simp [Request.required, Request.early, lead, Scanned.print]

/-- A part of a line that goes on after the fifth field ends in the memory limit,
or contains it with the blank that follows. -/
theorem prefix_line_cases {r : Request} {received : Bytes} (hpart : received <+: r.line)
    (hlong : (lead r.early).length < received.length) :
    (∃ k, 0 < k ∧ k ≤ r.memoryLimit.length ∧
        received = lead r.early ++ r.memoryLimit.take k) ∨
      ∃ k, received = lead r.required ++ r.token.take k := by
  obtain ⟨j, hj⟩ : ∃ j, received.length = (lead r.early).length + (j + 1) :=
    ⟨received.length - (lead r.early).length - 1, by omega⟩
  have hreceived : received =
      lead r.early ++ (r.memoryLimit ++ 32 :: r.token).take (j + 1) := by
    rw [List.prefix_iff_eq_take.mp hpart, hj, r.line_eq, List.take_length_add_append]
  by_cases hmemory : j + 1 ≤ r.memoryLimit.length
  · refine Or.inl ⟨j + 1, Nat.succ_pos j, hmemory, ?_⟩
    rw [hreceived, List.take_append_of_le_length hmemory]
  · obtain ⟨k, hk⟩ : ∃ k, j + 1 = r.memoryLimit.length + (k + 1) :=
      ⟨j - r.memoryLimit.length, by omega⟩
    refine Or.inr ⟨k, ?_⟩
    rw [hreceived, hk, List.take_length_add_append, List.take_succ_cons, r.lead_required]
    simp

/-- A line that is cut in the memory limit is accepted as a request without a
token. -/
theorem parseArguments_memoryLimit {r : Request} (hr : r.WellFormed) {k : ℕ} (hk : 0 < k) :
    (Judged.parseArguments (lead r.early ++ r.memoryLimit.take k) zeroSolution).1 = 0 ∧
      readSolution
          (Judged.parseArguments (lead r.early ++ r.memoryLimit.take k) zeroSolution).2 =
        { r with memoryLimit := r.memoryLimit.take k, token := [] } := by
  have hfits : Request.Fits { r with memoryLimit := r.memoryLimit.take k, token := [] } :=
    { hr.toFits with
      memoryLimit := hr.memoryLimit.take _
      token := hr.token.take 0 }
  have hscan := scanArguments_memoryLimit hr hk
  exact (parseArguments_of_scanned hfits hscan).2

/-- A line that is cut in the token is accepted with what is left of it. -/
theorem parseArguments_token {r : Request} (hr : r.WellFormed) (k : ℕ) :
    (Judged.parseArguments (lead r.required ++ r.token.take k) zeroSolution).1 = 0 ∧
      readSolution (Judged.parseArguments (lead r.required ++ r.token.take k) zeroSolution).2 =
        { r with token := r.token.take k } := by
  have hfits : Request.Fits { r with token := r.token.take k } :=
    { hr.toFits with token := hr.token.take k }
  exact (parseArguments_of_scanned hfits (scanArguments_token hr k)).2

/-- A line that is cut after the fifth field is accepted, as the request itself
only if nothing is cut off. -/
theorem parseArguments_cut {r : Request} (hr : r.WellFormed) {received : Bytes}
    (hpart : received <+: r.line) (hlong : (lead r.early).length < received.length) :
    (Judged.parseArguments received zeroSolution).1 = 0 ∧
      (readSolution (Judged.parseArguments received zeroSolution).2 = r ↔ received = r.line) := by
  rcases prefix_line_cases hpart hlong with ⟨k, hpos, hle, rfl⟩ | ⟨k, rfl⟩
  · obtain ⟨haccepted, hread⟩ := parseArguments_memoryLimit hr hpos
    refine ⟨haccepted, ?_⟩
    rw [hread]
    refine iff_of_false ?_ ?_
    · intro heq
      exact hr.tokenWord.1 (congrArg Request.token heq).symm
    · intro heq
      have hlength := congrArg List.length heq
      rw [r.line_eq] at hlength
      simp only [List.length_append, List.length_cons, List.length_take] at hlength
      omega
  · obtain ⟨haccepted, hread⟩ := parseArguments_token hr k
    refine ⟨haccepted, ?_⟩
    rw [hread]
    constructor
    · intro heq
      have htoken : r.token.take k = r.token := congrArg Request.token heq
      rw [htoken, Request.line]
    · intro heq
      rw [Request.line, List.append_cancel_left_eq] at heq
      rw [heq]

/-- A request line has no NUL. -/
theorem nul_not_mem_line {r : Request} (hr : r.WellFormed) {b : UInt8} (hb : b ∈ r.line) :
    b ≠ 0 := by
  have hblank : (32 : UInt8) ≠ 0 := by decide
  simp only [Request.line, Request.required, lead, Scanned.print, List.flatMap_cons,
    List.flatMap_nil, List.append_nil, List.mem_append, List.mem_singleton] at hb
  rcases hb with ((h | rfl) | (h | rfl) | (h | rfl) | (h | rfl) | (h | rfl) | (h | rfl)) | h
  · exact hr.sid.1 b h
  · exact hblank
  · exact (mem_formatInt h).2
  · exact hblank
  · exact hr.pid.1 b h
  · exact hblank
  · exact hr.language.1 b h
  · exact hblank
  · exact hr.timeLimit.1 b h
  · exact hblank
  · exact hr.memoryLimit.1 b h
  · exact hblank
  · exact hr.token.1 b h

/-- The string in the buffer is what has been received of a request line. -/
theorem bufferString_of_prefix {r : Request} (hr : r.WellFormed) {received : Bytes}
    (hpart : received <+: r.line) : bufferString received = received := by
  have hnul : ∀ b ∈ received, decide (b ≠ 0) = true := by
    intro b hb
    exact decide_eq_true (nul_not_mem_line hr (hpart.subset hb))
  have htake : (received ++ []).takeWhile (fun b => b ≠ 0) = received ++ [].takeWhile _ :=
    List.takeWhile_append_of_pos hnul
  rwa [List.append_nil, List.takeWhile_nil, List.append_nil] at htake

/-! ## A request that arrives in parts -/

/-- What is pushed is the request, and a client whose request is not pushed is
told so. -/
structure WorkResult.AsSent (result : WorkResult) (r : Request) : Prop where
  pushed : ∀ pushed, result.pushed = some pushed → pushed = r
  told : result.pushed = none → missingParameters ∈ result.replies

/-- What is left to do once the client is authenticated. -/
theorem work_authenticated {password : Bytes} {first received : Received}
    (hpassword : checkPassword password (bufferString first.1) = true)
    (hne : received.1 ≠ []) :
    work password (some first) (some received) =
      let parsed := Judged.parseArguments (bufferString received.1) zeroSolution
      if parsed.1 < 0 then ⟨[authenticationOk, missingParameters], none⟩
      else ⟨[authenticationOk, requestReceived], some (readSolution parsed.2)⟩ := by
  have hlength : ¬received.1.length = 0 := fun h => hne (List.eq_nil_of_length_eq_zero h)
  simp only [work, Option.map_some, Option.getD_some, hpassword, if_true, if_neg hlength]

/-- A part of a request line is pushed as the request that was sent, or refused,
exactly when it ends before the sixth field or is the whole line. -/
theorem request_asSent_iff {password : Bytes} {first received : Received} {r : Request}
    (hpassword : checkPassword password (bufferString first.1) = true)
    (hr : r.WellFormed) (hne : received.1 ≠ []) (hpart : received.1 <+: r.line) :
    (work password (some first) (some received)).AsSent r ↔
      received.1.length ≤ (lead r.early).length ∨ received.1 = r.line := by
  rw [work_authenticated hpassword hne, bufferString_of_prefix hr hpart]
  by_cases hshort : received.1.length ≤ (lead r.early).length
  · have hcut : received.1 = (lead r.early).take received.1.length := by
      have htake := List.prefix_iff_eq_take.mp hpart
      rwa [r.line_eq, List.take_append_of_le_length hshort] at htake
    have hfew := length_scanArguments_early hr received.1.length
    rw [← hcut] at hfew
    have hrefused : (Judged.parseArguments received.1 zeroSolution).1 < 0 := by
      rw [Judged.parseArguments, if_pos (by omega)]
      exact Int.negSucc_lt_zero 0
    simp only [if_pos hrefused]
    refine iff_of_true ⟨?_, ?_⟩ (Or.inl hshort)
    · rintro pushed ⟨⟩
    · exact fun _ => List.mem_cons_of_mem _ List.mem_cons_self
  · obtain ⟨haccepted, hread⟩ := parseArguments_cut hr hpart (Nat.lt_of_not_le hshort)
    have hpushed : ¬(Judged.parseArguments received.1 zeroSolution).1 < 0 := by
      rw [haccepted]
      decide
    simp only [if_neg hpushed, hshort, false_or]
    rw [← hread]
    constructor
    · exact fun h => h.pushed _ rfl
    · intro heq
      refine ⟨?_, ?_⟩
      · intro pushed hpushes
        exact (Option.some.inj hpushes).symm.trans heq
      · intro hnone
        cases hnone

/-- The request that the client sends. -/
def clientRequest : Request where
  sid := ascii "110522"
  cid := 0
  pid := ascii "2549"
  language := ascii "2"
  timeLimit := ascii "5000"
  memoryLimit := ascii "65536"
  token := ascii "123456"

theorem wellFormed_clientRequest : clientRequest.WellFormed where
  sid := by decide
  cid := by decide
  pid := by decide
  language := by decide
  timeLimit := by decide
  memoryLimit := by decide
  token := by decide
  sidWord := by decide
  pidWord := by decide
  languageWord := by decide
  timeLimitWord := by decide
  memoryLimitWord := by decide
  tokenWord := by decide

def clientPassword : Received := ⟨ascii "123456", by decide⟩

/-- The request, with half of its token still under way. -/
def firstPart : Received := ⟨ascii "110522 0 2549 2 5000 65536 123", by decide⟩

/-- It is accepted, and pushed with that half of the token. -/
theorem cut_request_pushed :
    checkPassword clientPassword.1 (bufferString clientPassword.1) = true ∧
    clientRequest.WellFormed ∧ firstPart.1 ≠ [] ∧ firstPart.1 <+: clientRequest.line ∧
    work clientPassword.1 (some clientPassword) (some firstPart) =
      ⟨[authenticationOk, requestReceived], some { clientRequest with token := ascii "123" }⟩ ∧
    ¬(work clientPassword.1 (some clientPassword) (some firstPart)).AsSent clientRequest := by
  have hpushed : work clientPassword.1 (some clientPassword) (some firstPart) =
      ⟨[authenticationOk, requestReceived], some { clientRequest with token := ascii "123" }⟩ := by
    decide +kernel
  refine ⟨by decide, wellFormed_clientRequest, by decide, by decide, hpushed, ?_⟩
  intro h
  have heq := h.pushed _ (congrArg WorkResult.pushed hpushed)
  exact absurd (congrArg Request.token heq) (by decide)

/-- A request that is cut in its time limit is refused. -/
theorem request_asSent_iff_refused :
    (work clientPassword.1 (some clientPassword)
      (some ⟨ascii "110522 0 2549 2 50", by decide⟩)).AsSent clientRequest :=
  (request_asSent_iff (by decide) wellFormed_clientRequest (by decide) (by decide)).mpr
    (Or.inl (by decide))

end PowerJudge
