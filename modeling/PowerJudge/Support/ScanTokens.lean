import Mathlib.Data.List.DropRight
import PowerJudge.Support.Scan
import PowerJudge.Support.Tokens

/-!
# Scanning a text token by token

The conversion `%s` takes the next token of a text.  The conversion `%d` takes
the next token as well if that token is a numeral; of any other token it takes
a part or nothing.
-/

namespace PowerJudge

/-- A text goes on, after separators, with its first token. -/
theorem exists_eq_append_of_tokens {α : Type*} {sep : α → Bool} {xs t : List α}
    {ts : List (List α)} (h : tokens sep xs = t :: ts) :
    ∃ gap rest, xs = gap ++ (t ++ rest) ∧ (∀ x ∈ gap, sep x = true) ∧ t ≠ [] ∧
      (∀ x ∈ t, sep x = false) ∧ startsToken sep rest = false ∧ tokens sep rest = ts := by
  induction xs generalizing t ts with
  | nil => simp at h
  | cons x xs ih =>
      cases hx : sep x with
      | true =>
          rw [tokens_cons_of_sep hx] at h
          obtain ⟨gap, rest, rfl, hgap, hrest⟩ := ih h
          refine ⟨x :: gap, rest, rfl, ?_, hrest⟩
          exact List.forall_mem_cons.mpr ⟨hx, hgap⟩
      | false =>
          obtain ⟨t', ts', htokens, hempty, hlater⟩ := tokens_cons_of_not_sep hx xs
          rw [h] at htokens
          obtain ⟨rfl, rfl⟩ := List.cons.inj htokens
          cases hstarts : startsToken sep xs with
          | true =>
              rw [hstarts, if_pos rfl] at hlater
              obtain ⟨gap, rest, rfl, hgap, -, hword, hends, hrest⟩ := ih hlater
              have hgap : gap = [] := by
                rw [List.eq_nil_iff_forall_not_mem]
                cases gap with
                | nil => simp
                | cons y gap => simp [startsToken, hgap y List.mem_cons_self] at hstarts
              subst hgap
              refine ⟨[], rest, rfl, by simp, by simp, ?_, hends, hrest⟩
              exact List.forall_mem_cons.mpr ⟨hx, hword⟩
          | false =>
              have hnil : t' = [] := by simpa [hstarts] using hempty
              subst hnil
              refine ⟨[], xs, rfl, by simp, by simp, ?_, hstarts, ?_⟩
              · simpa using hx
              · simpa [hstarts] using hlater

/-- A text without tokens consists of separators. -/
theorem all_of_tokens_eq_nil {α : Type*} {sep : α → Bool} {xs : List α}
    (h : tokens sep xs = []) : ∀ x ∈ xs, sep x = true := by
  induction xs with
  | nil => simp
  | cons x xs ih =>
      cases hx : sep x with
      | true =>
          rw [tokens_cons_of_sep hx] at h
          exact List.forall_mem_cons.mpr ⟨hx, ih h⟩
      | false =>
          obtain ⟨t, ts, htokens, -⟩ := tokens_cons_of_not_sep hx xs
          rw [h] at htokens
          cases htokens

theorem ne_nil_of_mem_tokens {α : Type*} {sep : α → Bool} {xs t : List α}
    (ht : t ∈ tokens sep xs) : t ≠ [] := by
  have hnonempty := List.of_mem_filter ht
  rintro rfl
  cases hnonempty

/-- The elements of a token are elements of the text. -/
theorem mem_of_mem_tokens {α : Type*} {sep : α → Bool} {xs t : List α}
    (ht : t ∈ tokens sep xs) {x : α} (hx : x ∈ t) : x ∈ xs := by
  generalize htokens : tokens sep xs = ts at ht
  induction ts generalizing xs with
  | nil => cases ht
  | cons first later ih =>
      obtain ⟨gap, rest, rfl, -, -, -, -, hrest⟩ := exists_eq_append_of_tokens htokens
      apply List.mem_append_right
      rcases List.mem_cons.mp ht with rfl | hlater
      · exact List.mem_append_left _ hx
      · exact List.mem_append_right _ (ih hrest hlater)

/-! ## `%s` -/

theorem endsField_of_startsToken {rest : Bytes} (h : startsToken isSpace rest = false) :
    EndsField rest := by
  cases rest with
  | nil => rfl
  | cons b rest => simpa [EndsField, startsToken] using h

theorem dropWhile_gap {gap : Bytes} (hgap : ∀ b ∈ gap, isSpace b = true) (rest : Bytes) :
    (gap ++ rest).dropWhile isSpace = rest.dropWhile isSpace :=
  List.dropWhile_append_of_pos hgap

/-- `%s` takes the first token. -/
theorem scanWord_of_tokens {text t : Bytes} {ts : List Bytes}
    (h : tokens isSpace text = t :: ts) :
    ∃ rest, scanWord text = some (t, rest) ∧ tokens isSpace rest = ts := by
  obtain ⟨gap, rest, rfl, hgap, hne, hword, hends, hrest⟩ := exists_eq_append_of_tokens h
  have hscan := scanWord_append hne hword (endsField_of_startsToken hends)
  refine ⟨rest, ?_, hrest⟩
  rwa [scanWord, dropWhile_gap hgap, ← scanWord]

theorem dropWhile_of_tokens_nil {text : Bytes} (h : tokens isSpace text = []) :
    text.dropWhile isSpace = [] := by
  have hdrop := dropWhile_gap (all_of_tokens_eq_nil h) []
  rwa [List.append_nil, List.dropWhile_nil] at hdrop

theorem scanWord_of_tokens_nil {text : Bytes} (h : tokens isSpace text = []) :
    scanWord text = none := by
  rw [scanWord, dropWhile_of_tokens_nil h]

theorem scanNumber_of_tokens_nil {text : Bytes} (h : tokens isSpace text = []) :
    scanNumber text = none := by
  simp [scanNumber, dropWhile_of_tokens_nil h, signLength]

/-- A format of words takes one token after the other. -/
theorem scan_words (n : ℕ) (text : Bytes) :
    scan (List.replicate n .word) text = ((tokens isSpace text).take n).map Scanned.word := by
  induction n generalizing text with
  | zero => rfl
  | succ n ih =>
      rw [List.replicate_succ, scan]
      cases htokens : tokens isSpace text with
      | nil =>
          rw [scanWord_of_tokens_nil htokens]
          rfl
      | cons t ts =>
          obtain ⟨rest, hscan, hrest⟩ := scanWord_of_tokens htokens
          rw [hscan, List.take_succ_cons, List.map_cons, ← hrest, ← ih rest]

/-! ## `%d` -/

/-- The integer that a decimal numeral, an optional sign and digits, stands for. -/
def numeral? (text : Bytes) : Option ℤ :=
  let digits := text.drop (signLength text)
  if digits.isEmpty ∨ digits.all isDigit = false then none
  else if text.head? = some 45 then some (-(leadingDigits 0 digits))
  else some (leadingDigits 0 digits)

theorem numeral?_cases {text : Bytes} {value : ℤ} (h : numeral? text = some value) :
    ∃ sign digits, text = sign ++ digits ∧ digits ≠ [] ∧ (∀ b ∈ digits, isDigit b = true) ∧
      ((sign = [] ∨ sign = [43]) ∧ value = leadingDigits 0 digits ∨
        sign = [45] ∧ value = -(leadingDigits 0 digits : ℤ)) := by
  simp only [numeral?] at h
  split_ifs at h with hbad hminus
  · obtain ⟨hne, hall⟩ := not_or.mp hbad
    obtain ⟨digits, rfl⟩ : ∃ digits, text = 45 :: digits := by
      cases text with
      | nil => cases hminus
      | cons b digits => exact ⟨digits, by rw [Option.some.inj hminus]⟩
    refine ⟨[45], digits, rfl, ?_, ?_, Or.inr ⟨rfl, ?_⟩⟩
    · simpa [signLength] using hne
    · simpa [signLength] using hall
    · exact (Option.some.inj h).symm
  · obtain ⟨hne, hall⟩ := not_or.mp hbad
    refine ⟨text.take (signLength text), text.drop (signLength text),
      (List.take_append_drop _ _).symm, ?_, ?_, Or.inl ⟨?_, (Option.some.inj h).symm⟩⟩
    · simpa using hne
    · simpa using hall
    · unfold signLength at *
      split
      · exact Or.inr rfl
      · simp at hminus
      · exact Or.inl rfl

theorem leadingDigits_append {digits rest : Bytes} (hdigits : ∀ b ∈ digits, isDigit b = true)
    (hrest : EndsField rest) (acc : ℕ) :
    leadingDigits acc (digits ++ rest) = leadingDigits acc digits := by
  induction digits generalizing acc with
  | nil =>
      cases rest with
      | nil => rfl
      | cons b rest =>
          have hb : ¬isDigit b = true := by simpa using hrest.not_isDigit
          simp [leadingDigits, hb]
  | cons b digits ih =>
      have hb := hdigits b List.mem_cons_self
      have hlater := ih fun c hc => hdigits c (List.mem_cons_of_mem _ hc)
      simp only [List.cons_append, leadingDigits, if_pos hb, hlater]

theorem strtol_of_isDigit {d : UInt8} (h : isDigit d = true) (rest : Bytes) :
    strtol (d :: rest) = min (2 ^ 63 - 1) (leadingDigits 0 (d :: rest) : ℤ) := by
  have hblank : ¬isSpace d = true := by simp [isSpace_of_isDigit h]
  rw [strtol, List.dropWhile_cons_of_neg hblank]
  split
  · next heq =>
      obtain ⟨rfl, -⟩ := List.cons.inj heq
      exact absurd h (by decide)
  · next heq =>
      obtain ⟨rfl, -⟩ := List.cons.inj heq
      exact absurd h (by decide)
  · rfl

/-- `%d` takes a numeral in the range of an `int` up to the blank that ends it. -/
theorem scanNumber_of_numeral? {t rest : Bytes} {value : ℤ} (h : numeral? t = some value)
    (hlo : -(2 ^ 31) ≤ value) (hhi : value < 2 ^ 31) (hrest : EndsField rest) :
    scanNumber (t ++ rest) = some (value, rest) := by
  obtain ⟨sign, digits, rfl, hne, hdigits, hvalue⟩ := numeral?_cases h
  have hread := leadingDigits_append hdigits hrest 0
  obtain ⟨d, tail, rfl⟩ := List.exists_cons_of_ne_nil hne
  have hd := hdigits d List.mem_cons_self
  rcases hvalue with ⟨rfl | rfl, hvalue⟩ | ⟨rfl, hvalue⟩
  · have hstrtol : strtol ([] ++ (d :: tail) ++ rest) = value := by
      rw [List.nil_append, List.cons_append, strtol_of_isDigit hd, ← List.cons_append, hread]
      omega
    rw [scanNumber_of_signLength ?_ hne hdigits ?_ hrest, hstrtol]
    · simpa using isSpace_of_isDigit hd
    · exact signLength_of_isDigit hd _
  · have hplus : isSpace 43 = false := by decide
    have hstrtol : strtol ([43] ++ (d :: tail) ++ rest) = value := by
      rw [List.append_assoc, List.singleton_append, strtol,
        List.dropWhile_cons_of_neg (by simp [hplus])]
      simp only [hread]
      omega
    rw [scanNumber_of_signLength ?_ hne hdigits rfl hrest, hstrtol]
    simpa using hplus
  · have hminus : isSpace 45 = false := by decide
    have hstrtol : strtol ([45] ++ (d :: tail) ++ rest) = value := by
      rw [List.append_assoc, List.singleton_append, strtol,
        List.dropWhile_cons_of_neg (by simp [hminus])]
      simp only [hread]
      omega
    rw [scanNumber_of_signLength ?_ hne hdigits rfl hrest, hstrtol]
    simpa using hminus

/-- `strtol` reads what `%d` reads. -/
theorem strtol_of_scanNumber {text rest : Bytes} {value : ℤ}
    (h : scanNumber text = some (value, rest)) : strtol text = value := by
  have hblanks : strtol (text.dropWhile isSpace) = strtol text := by
    rw [strtol, List.dropWhile_idempotent, ← strtol]
  simp only [scanNumber] at h
  split_ifs at h
  rw [← hblanks]
  exact congrArg Prod.fst (Option.some.inj h)

/-- `atoi` reads a numeral in the range of an `int`. -/
theorem atoi_of_numeral? {text : Bytes} {value : ℤ} (h : numeral? text = some value)
    (hlo : -(2 ^ 31) ≤ value) (hhi : value < 2 ^ 31) : atoi text = value := by
  have hscan := scanNumber_of_numeral? h hlo hhi endsField_nil
  rw [List.append_nil] at hscan
  rw [atoi, strtol_of_scanNumber hscan]
  apply Int.bmod_eq_of_le
  · omega
  · omega

/-- `%d` takes the first token if it is a numeral in the range of an `int`. -/
theorem scanNumber_of_tokens {text t : Bytes} {ts : List Bytes} {value : ℤ}
    (h : tokens isSpace text = t :: ts) (hvalue : numeral? t = some value)
    (hlo : -(2 ^ 31) ≤ value) (hhi : value < 2 ^ 31) :
    ∃ rest, scanNumber text = some (value, rest) ∧ tokens isSpace rest = ts := by
  obtain ⟨gap, rest, rfl, hgap, -, -, hends, hrest⟩ := exists_eq_append_of_tokens h
  have hscan := scanNumber_of_numeral? hvalue hlo hhi (endsField_of_startsToken hends)
  refine ⟨rest, ?_, hrest⟩
  simp only [scanNumber, dropWhile_gap hgap] at hscan ⊢
  exact hscan

end PowerJudge
