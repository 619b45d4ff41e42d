import PowerJudge.Support.Decimal

/-!
# Scanning and printing lines of fields

The conversions `%s` and `%d` of `sscanf` on the bytes of a C string, and lines
of fields separated by single blanks.  A printed line is scanned back, and of a
line that is cut off the fields before the cut are.
-/

namespace PowerJudge

/-- The conversions `%s` and `%d`. -/
inductive Conversion where
  | word
  | number
  deriving DecidableEq, Repr

/-- What a conversion has matched. -/
inductive Scanned where
  | word (text : Bytes)
  | number (value : ℤ)
  deriving DecidableEq, Repr

def Scanned.conversion : Scanned → Conversion
  | .word _ => .word
  | .number _ => .number

/-- `%s`: the word after the blanks, and what follows it. -/
def scanWord (text : Bytes) : Option (Bytes × Bytes) :=
  match text.dropWhile isSpace with
  | [] => none
  | b :: text =>
      some ((b :: text).takeWhile fun b => !isSpace b, (b :: text).dropWhile fun b => !isSpace b)

/-- The length of a sign. -/
def signLength : Bytes → ℕ
  | 43 :: _ => 1
  | 45 :: _ => 1
  | _ => 0

/-- `%d`: the value of the number after the blanks, as a `long`, and what follows
it. -/
def scanNumber (text : Bytes) : Option (ℤ × Bytes) :=
  let text := text.dropWhile isSpace
  let digits := (text.drop (signLength text)).takeWhile isDigit
  if digits.isEmpty then none
  else some (strtol text, text.drop (signLength text + digits.length))

/-- `sscanf`: what the conversions of the format have matched, up to the first
that fails. -/
def scan : List Conversion → Bytes → List Scanned
  | [], _ => []
  | .word :: format, text =>
      match scanWord text with
      | some (word, rest) => .word word :: scan format rest
      | none => []
  | .number :: format, text =>
      match scanNumber text with
      | some (value, rest) => .number value :: scan format rest
      | none => []

/-! ## One field -/

/-- `%s` or `%d` of `printf`. -/
def Scanned.print : Scanned → Bytes
  | .word text => text
  | .number value => formatInt value

/-- A field that can be told from its surroundings: a word of bytes that are not
blank, or a `long`. -/
def Scanned.Printable : Scanned → Prop
  | .word text => text ≠ [] ∧ ∀ b ∈ text, isSpace b = false
  | .number value => -(2 ^ 63) ≤ value ∧ value < 2 ^ 63

/-- Text that ends the field before it. -/
def EndsField (rest : Bytes) : Prop := rest.head?.all isSpace = true

@[simp] theorem endsField_nil : EndsField [] := rfl

@[simp] theorem endsField_blank (rest : Bytes) : EndsField (32 :: rest) := by
  simp [EndsField, isSpace]

theorem scan_nil (format : List Conversion) : scan format [] = [] := by
  cases format with
  | nil => rfl
  | cons conversion format => cases conversion <;> rfl

theorem scan_blank (format : List Conversion) (text : Bytes) :
    scan format (32 :: text) = scan format text := by
  have hdrop : (32 :: text).dropWhile isSpace = text.dropWhile isSpace :=
    List.dropWhile_cons_of_pos (by decide)
  cases format with
  | nil => rfl
  | cons conversion format =>
      cases conversion with
      | word => simp [scan, scanWord, hdrop]
      | number => simp [scan, scanNumber, hdrop]

theorem takeWhile_append_of_endsField {word rest : Bytes}
    (hword : ∀ b ∈ word, isSpace b = false) (hrest : EndsField rest) :
    (word ++ rest).takeWhile (fun b => !isSpace b) = word ∧
      (word ++ rest).dropWhile (fun b => !isSpace b) = rest := by
  induction word with
  | nil =>
      cases rest with
      | nil => exact ⟨rfl, rfl⟩
      | cons b rest =>
          have hb : isSpace b = true := by simpa [EndsField] using hrest
          simp [hb]
  | cons b word ih =>
      have hb := hword b List.mem_cons_self
      obtain ⟨htake, hdrop⟩ := ih fun c hc => hword c (List.mem_cons_of_mem _ hc)
      simp [hb, htake, hdrop]

/-- A word is scanned up to the blank that ends it. -/
theorem scanWord_append {word rest : Bytes} (hne : word ≠ [])
    (hword : ∀ b ∈ word, isSpace b = false) (hrest : EndsField rest) :
    scanWord (word ++ rest) = some (word, rest) := by
  obtain ⟨b, tail, rfl⟩ := List.exists_cons_of_ne_nil hne
  have hb : ¬isSpace b = true := by simp [hword b List.mem_cons_self]
  obtain ⟨htake, hdrop⟩ := takeWhile_append_of_endsField hword hrest
  rw [List.cons_append] at htake hdrop
  rw [scanWord, List.cons_append, List.dropWhile_cons_of_neg hb]
  simp only [htake, hdrop]

theorem EndsField.not_isDigit {rest : Bytes} (h : EndsField rest) :
    rest.head?.all (fun b => !isDigit b) = true := by
  cases rest with
  | nil => rfl
  | cons b rest =>
      have hb : isSpace b = true := by simpa [EndsField] using h
      cases hdigit : isDigit b with
      | false => simp [hdigit]
      | true =>
          rw [isSpace_of_isDigit hdigit] at hb
          cases hb

theorem signLength_of_isDigit {d : UInt8} (h : isDigit d = true) (rest : Bytes) :
    signLength (d :: rest) = 0 := by
  unfold signLength
  split
  · next heq =>
      obtain ⟨rfl, -⟩ := List.cons.inj heq
      exact absurd h (by decide)
  · next heq =>
      obtain ⟨rfl, -⟩ := List.cons.inj heq
      exact absurd h (by decide)
  · rfl

/-- `%d` takes digits with the sign before them, if there is one. -/
theorem scanNumber_of_signLength {sign digits rest : Bytes}
    (hblank : ∀ b ∈ (sign ++ digits).head?, isSpace b = false) (hne : digits ≠ [])
    (hdigits : ∀ b ∈ digits, isDigit b = true)
    (hsign : signLength (sign ++ digits ++ rest) = sign.length) (hrest : EndsField rest) :
    scanNumber (sign ++ digits ++ rest) = some (strtol (sign ++ digits ++ rest), rest) := by
  have hdrop : (sign ++ digits ++ rest).dropWhile isSpace = sign ++ digits ++ rest := by
    obtain ⟨b, tail, hcons⟩ := List.exists_cons_of_ne_nil
      (List.append_ne_nil_of_right_ne_nil sign hne)
    rw [hcons] at hblank ⊢
    exact List.dropWhile_cons_of_neg (by simp [hblank b rfl])
  have htake : (digits ++ rest).takeWhile isDigit = digits := by
    rw [List.takeWhile_append_of_pos hdigits]
    cases rest with
    | nil => simp
    | cons b rest =>
        have hb : ¬isDigit b = true := by simpa using hrest.not_isDigit
        simp [hb]
  have hafter : (sign ++ digits ++ rest).drop sign.length = digits ++ rest := by
    rw [List.append_assoc, List.drop_left]
  simp only [scanNumber, hdrop, hsign, hafter, htake]
  rw [if_neg (by simpa using hne), ← List.length_append, List.drop_left]

/-- A numeral is scanned up to the blank that ends it. -/
theorem scanNumber_append {sign digits rest : Bytes} (hsign : sign = [] ∨ sign = [45])
    (hne : digits ≠ []) (hdigits : ∀ b ∈ digits, isDigit b = true) (hrest : EndsField rest) :
    scanNumber (sign ++ digits ++ rest) = some (strtol (sign ++ digits ++ rest), rest) := by
  obtain ⟨d, tail, rfl⟩ := List.exists_cons_of_ne_nil hne
  have hd := hdigits d List.mem_cons_self
  rcases hsign with rfl | rfl
  · apply scanNumber_of_signLength _ hne hdigits _ hrest
    · simpa using isSpace_of_isDigit hd
    · exact signLength_of_isDigit hd _
  · apply scanNumber_of_signLength _ hne hdigits rfl hrest
    simp [isSpace]

/-- A cut numeral is a number up to its end, or nothing at all. -/
theorem scanNumber_take_formatInt (n : ℤ) (k : ℕ) :
    scanNumber ((formatInt n).take k) = none ∨
      ∃ value, scanNumber ((formatInt n).take k) = some (value, []) := by
  obtain ⟨sign, digits, hformat, hsign, -, hdigits⟩ := formatInt_eq_append n
  have hsign' : sign.take k = [] ∨ sign.take k = [45] := by
    rcases hsign with rfl | rfl
    · simp
    · cases k <;> simp
  have hdigits' : ∀ b ∈ digits.take (k - sign.length), isDigit b = true :=
    fun b hb => hdigits b (List.mem_of_mem_take hb)
  rw [hformat, List.take_append]
  cases hcut : digits.take (k - sign.length) with
  | nil =>
      refine Or.inl ?_
      rw [List.append_nil]
      rcases hsign' with hnone | hminus
      · rw [hnone]
        rfl
      · rw [hminus]
        decide
  | cons d tail =>
      rw [hcut] at hdigits'
      have hscan := scanNumber_append hsign' (List.cons_ne_nil d tail) hdigits' endsField_nil
      rw [List.append_nil] at hscan
      exact Or.inr ⟨_, hscan⟩

/-! ## Lines of fields -/

/-- A printed field is scanned up to the blank that ends it. -/
theorem scan_print {field : Scanned} (hfield : field.Printable) (format : List Conversion)
    {rest : Bytes} (hrest : EndsField rest) :
    scan (field.conversion :: format) (field.print ++ rest) = field :: scan format rest := by
  cases field with
  | word text =>
      simp only [Scanned.conversion, Scanned.print, scan,
        scanWord_append hfield.1 hfield.2 hrest]
  | number value =>
      obtain ⟨sign, digits, hformat, hsign, hne, hdigits⟩ := formatInt_eq_append value
      have hscan := scanNumber_append hsign hne hdigits hrest
      rw [← hformat, strtol_formatInt hfield.1 hfield.2 hrest.not_isDigit] at hscan
      simp only [Scanned.conversion, Scanned.print, scan, hscan]

/-- Of a field that is cut at most one field is scanned. -/
theorem length_scan_take_print {field : Scanned} (hfield : field.Printable)
    (format : List Conversion) (k : ℕ) :
    (scan (field.conversion :: format) (field.print.take k)).length ≤ 1 := by
  cases field with
  | word text =>
      cases hcut : text.take k with
      | nil => simp [Scanned.conversion, Scanned.print, hcut, scan_nil]
      | cons b tail =>
          have hword : ∀ c ∈ text.take k, isSpace c = false :=
            fun c hc => hfield.2 c (List.mem_of_mem_take hc)
          rw [hcut] at hword
          have hscan := scanWord_append (List.cons_ne_nil b tail) hword endsField_nil
          rw [List.append_nil] at hscan
          simp [Scanned.conversion, Scanned.print, hcut, scan, hscan, scan_nil]
  | number value =>
      rcases scanNumber_take_formatInt value k with hnone | ⟨read, hsome⟩
      · simp [Scanned.conversion, Scanned.print, scan, hnone]
      · simp [Scanned.conversion, Scanned.print, scan, hsome, scan_nil]

/-- The fields of a line that are followed by another one. -/
def lead (fields : List Scanned) : Bytes := fields.flatMap fun field => field.print ++ [32]

theorem lead_cons (field : Scanned) (fields : List Scanned) :
    lead (field :: fields) = field.print ++ 32 :: lead fields := by
  simp [lead]

/-- The fields before the cut are scanned. -/
theorem scan_lead_append {fields : List Scanned} (hfields : ∀ field ∈ fields, field.Printable)
    (format : List Conversion) (rest : Bytes) :
    scan (fields.map Scanned.conversion ++ format) (lead fields ++ rest) =
      fields ++ scan format rest := by
  induction fields with
  | nil => rfl
  | cons field fields ih =>
      have hlater := ih fun later hlater => hfields later (List.mem_cons_of_mem _ hlater)
      rw [lead_cons, List.map_cons, List.cons_append, List.append_assoc, List.cons_append,
        scan_print (hfields field List.mem_cons_self) _ (endsField_blank _), scan_blank, hlater,
        List.cons_append]

/-- A line that is cut before a field has no more fields than come before it. -/
theorem length_scan_take_lead {fields : List Scanned}
    (hfields : ∀ field ∈ fields, field.Printable) (format : List Conversion) (k : ℕ) :
    (scan (fields.map Scanned.conversion ++ format) ((lead fields).take k)).length ≤
      fields.length := by
  induction fields generalizing k with
  | nil => simp [lead, scan_nil]
  | cons field fields ih =>
      have hlater := ih fun later hlater => hfields later (List.mem_cons_of_mem _ hlater)
      have hfield := hfields field List.mem_cons_self
      rw [lead_cons, List.map_cons, List.cons_append, List.take_append, List.length_cons]
      by_cases hk : k ≤ field.print.length
      · have hone := length_scan_take_print hfield (fields.map Scanned.conversion ++ format) k
        rw [Nat.sub_eq_zero_of_le hk, List.take_zero, List.append_nil]
        omega
      · obtain ⟨j, hj⟩ : ∃ j, k - field.print.length = j + 1 :=
          ⟨k - field.print.length - 1, by omega⟩
        have hlength := hlater j
        rw [List.take_of_length_le (by omega), hj, List.take_succ_cons,
          scan_print hfield _ (endsField_blank _), scan_blank, List.length_cons]
        omega

end PowerJudge
