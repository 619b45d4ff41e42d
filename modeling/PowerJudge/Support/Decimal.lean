import Mathlib.Algebra.Group.Int.Defs
import Mathlib.Algebra.Group.Nat.Defs
import Mathlib.Data.Int.Notation
import PowerJudge.Support.ByteStream

/-!
# Decimal numbers in C strings

`atoi` and the conversion `%d` of `printf`, on the bytes of a string before its
terminating NUL.
-/

namespace PowerJudge

/-- `isspace` in the C locale. -/
def isSpace (b : UInt8) : Bool := b = 32 ∨ (9 ≤ b ∧ b ≤ 13)

/-- `isdigit`. -/
def isDigit (b : UInt8) : Bool := 48 ≤ b ∧ b ≤ 57

/-- The number written by the leading digits, after digits worth `acc`. -/
def leadingDigits (acc : ℕ) : Bytes → ℕ
  | [] => acc
  | b :: rest => if isDigit b then leadingDigits (10 * acc + (b.toNat - 48)) rest else acc

/-- `strtol` in base 10, saturating at the bounds of a 64-bit `long`. -/
def strtol (text : Bytes) : ℤ :=
  match text.dropWhile isSpace with
  | 45 :: rest => max (-(2 ^ 63)) (-(leadingDigits 0 rest : ℤ))
  | 43 :: rest => min (2 ^ 63 - 1) (leadingDigits 0 rest)
  | rest => min (2 ^ 63 - 1) (leadingDigits 0 rest)

/-- `atoi`, which converts the `long` to an `int`. -/
def atoi (text : Bytes) : ℤ := Int.bmod (strtol text) (2 ^ 32)

/-- The conversion `%d`. -/
def formatInt (n : ℤ) : Bytes :=
  (if n < 0 then [45] else []) ++
    (Nat.toDigits 10 n.natAbs).map fun digit => digit.toNat.toUInt8

/-! ## Printed numbers -/

/-- The bytes of an unsigned number. -/
def formatNat (n : ℕ) : Bytes := (Nat.toDigits 10 n).map fun digit => digit.toNat.toUInt8

theorem formatInt_natCast (n : ℕ) : formatInt n = formatNat n := by
  simp [formatInt, formatNat]

theorem formatInt_of_neg {n : ℤ} (h : n < 0) : formatInt n = 45 :: formatNat n.natAbs := by
  simp [formatInt, formatNat, h]

/-- A byte that is the code of a digit. -/
theorem toUInt8_of_isDigit {c : Char} (h : c.isDigit = true) :
    isDigit c.toNat.toUInt8 = true ∧ c.toNat.toUInt8.toNat = c.toNat := by
  have hrange : 48 ≤ c.toNat ∧ c.toNat ≤ 57 := by
    simpa [Char.isDigit, UInt32.le_iff_toNat_le] using h
  have hvalue : c.toNat.toUInt8.toNat = c.toNat := by
    rw [Nat.toUInt8, UInt8.toNat_ofNat']
    omega
  refine ⟨?_, hvalue⟩
  simp only [isDigit, UInt8.le_iff_toNat_le, hvalue, decide_eq_true_eq]
  exact hrange

theorem isDigit_of_mem_formatNat {n : ℕ} {b : UInt8} (h : b ∈ formatNat n) :
    isDigit b = true := by
  obtain ⟨c, hc, rfl⟩ := List.mem_map.mp h
  exact (toUInt8_of_isDigit (Nat.isDigit_of_mem_toDigits (by decide) (by decide) hc)).1

theorem formatNat_ne_nil (n : ℕ) : formatNat n ≠ [] := by
  simp [formatNat, Nat.toDigits_ne_nil]

theorem leadingDigits_map {digits : List Char} (hdigits : ∀ c ∈ digits, c.isDigit = true)
    {rest : Bytes} (hrest : rest.head?.all (fun b => !isDigit b) = true) (acc : ℕ) :
    leadingDigits acc (digits.map (fun digit => digit.toNat.toUInt8) ++ rest) =
      Nat.ofDigitChars 10 digits acc := by
  induction digits generalizing acc with
  | nil =>
      cases rest with
      | nil => rfl
      | cons b rest =>
          have hb : ¬isDigit b = true := by simpa using hrest
          simp [leadingDigits, hb]
  | cons c digits ih =>
      obtain ⟨hbyte, hvalue⟩ := toUInt8_of_isDigit (hdigits c List.mem_cons_self)
      have hlater := ih (fun d hd => hdigits d (List.mem_cons_of_mem _ hd))
      rw [List.map_cons, List.cons_append, leadingDigits, if_pos hbyte, hvalue, hlater,
        Nat.ofDigitChars_cons]
      rfl

/-- The digits of a number are read back, whatever follows that is no digit. -/
theorem leadingDigits_formatNat (n : ℕ) {rest : Bytes}
    (hrest : rest.head?.all (fun b => !isDigit b) = true) :
    leadingDigits 0 (formatNat n ++ rest) = n := by
  rw [formatNat, leadingDigits_map _ hrest, Nat.ofDigitChars_ten_toDigits]
  exact fun c hc => Nat.isDigit_of_mem_toDigits (by decide) (by decide) hc

theorem isSpace_of_isDigit {b : UInt8} (h : isDigit b = true) : isSpace b = false := by
  simp only [isDigit, isSpace, UInt8.le_iff_toNat_le, ← UInt8.toNat_inj, decide_eq_true_eq,
    decide_eq_false_iff_not] at h ⊢
  have hle : (48 : UInt8).toNat ≤ b.toNat := h.1
  rintro (heq | ⟨-, hlast⟩)
  · exact absurd (heq ▸ hle) (by decide)
  · exact absurd (Nat.le_trans hle hlast) (by decide)

/-- A printed number is an optional minus sign and digits. -/
theorem formatInt_eq_append (n : ℤ) :
    ∃ sign digits : Bytes, formatInt n = sign ++ digits ∧ (sign = [] ∨ sign = [45]) ∧
      digits ≠ [] ∧ ∀ b ∈ digits, isDigit b = true := by
  by_cases hneg : n < 0
  · refine ⟨[45], formatNat n.natAbs, formatInt_of_neg hneg, Or.inr rfl, formatNat_ne_nil _, ?_⟩
    exact fun b hb => isDigit_of_mem_formatNat hb
  · obtain ⟨k, rfl⟩ := Int.eq_ofNat_of_zero_le (Int.not_lt.mp hneg)
    refine ⟨[], formatNat k, formatInt_natCast k, Or.inl rfl, formatNat_ne_nil _, ?_⟩
    exact fun b hb => isDigit_of_mem_formatNat hb

/-- A printed number has neither a blank nor a NUL. -/
theorem mem_formatInt {n : ℤ} {b : UInt8} (h : b ∈ formatInt n) :
    isSpace b = false ∧ b ≠ 0 := by
  obtain ⟨sign, digits, hformat, hsign, -, hdigits⟩ := formatInt_eq_append n
  rw [hformat] at h
  rcases List.mem_append.mp h with hmem | hmem
  · rcases hsign with rfl | rfl
    · cases hmem
    · rw [List.mem_singleton.mp hmem]
      decide
  · have hdigit := hdigits b hmem
    refine ⟨isSpace_of_isDigit hdigit, ?_⟩
    rintro rfl
    exact absurd hdigit (by decide)

theorem formatInt_ne_nil (n : ℤ) : formatInt n ≠ [] := by
  obtain ⟨sign, digits, hformat, -, hne, -⟩ := formatInt_eq_append n
  simp [hformat, hne]

theorem length_formatNat_le {n k : ℕ} (hk : 0 < k) (h : n < 10 ^ k) :
    (formatNat n).length ≤ k := by
  rw [formatNat, List.length_map, Nat.length_toDigits_le_iff (by decide) hk]
  exact h

theorem length_formatInt_le {n : ℤ} {k : ℕ} (hk : 0 < k) (h : n.natAbs < 10 ^ k) :
    (formatInt n).length ≤ k + 1 := by
  by_cases hneg : n < 0
  · rw [formatInt_of_neg hneg, List.length_cons]
    exact Nat.succ_le_succ (length_formatNat_le hk h)
  · obtain ⟨m, rfl⟩ := Int.eq_ofNat_of_zero_le (Int.not_lt.mp hneg)
    rw [formatInt_natCast]
    exact Nat.le_succ_of_le (length_formatNat_le hk h)

theorem formatNat_inj {n n' : ℕ} {rest rest' : Bytes}
    (hrest : rest.head?.all (fun b => !isDigit b) = true)
    (hrest' : rest'.head?.all (fun b => !isDigit b) = true)
    (h : formatNat n ++ rest = formatNat n' ++ rest') : n = n' := by
  rw [← leadingDigits_formatNat n hrest, h, leadingDigits_formatNat n' hrest']

/-- No unsigned number begins with the minus sign of a negative one. -/
theorem formatNat_append_ne (k : ℕ) {n : ℤ} (hn : n < 0) (rest rest' : Bytes) :
    formatNat k ++ rest ≠ formatInt n ++ rest' := by
  intro h
  obtain ⟨d, digits, hdigits⟩ := List.exists_cons_of_ne_nil (formatNat_ne_nil k)
  have hd : isDigit d = true := isDigit_of_mem_formatNat (hdigits ▸ List.mem_cons_self)
  rw [hdigits, formatInt_of_neg hn] at h
  rw [(List.cons.inj h).1] at hd
  exact absurd hd (by decide)

/-- Printed numbers before a byte that is no digit are equal only if the numbers are. -/
theorem formatInt_inj {n n' : ℤ} {rest rest' : Bytes}
    (hrest : rest.head?.all (fun b => !isDigit b) = true)
    (hrest' : rest'.head?.all (fun b => !isDigit b) = true)
    (h : formatInt n ++ rest = formatInt n' ++ rest') : n = n' := by
  by_cases hneg : n < 0
  · by_cases hneg' : n' < 0
    · rw [formatInt_of_neg hneg, formatInt_of_neg hneg', List.cons_append, List.cons_append] at h
      have habs := formatNat_inj hrest hrest' (List.cons.inj h).2
      omega
    · obtain ⟨k', rfl⟩ := Int.eq_ofNat_of_zero_le (Int.not_lt.mp hneg')
      rw [formatInt_natCast] at h
      exact absurd h.symm (formatNat_append_ne k' hneg _ _)
  · obtain ⟨k, rfl⟩ := Int.eq_ofNat_of_zero_le (Int.not_lt.mp hneg)
    rw [formatInt_natCast] at h
    by_cases hneg' : n' < 0
    · exact absurd h (formatNat_append_ne k hneg' _ _)
    · obtain ⟨k', rfl⟩ := Int.eq_ofNat_of_zero_le (Int.not_lt.mp hneg')
      rw [formatInt_natCast] at h
      exact congrArg Int.ofNat (formatNat_inj hrest hrest' h)

/-- A number in the range of a `long` is read back. -/
theorem strtol_formatInt {n : ℤ} (hlo : -(2 ^ 63) ≤ n) (hhi : n < 2 ^ 63) {rest : Bytes}
    (hrest : rest.head?.all (fun b => !isDigit b) = true) : strtol (formatInt n ++ rest) = n := by
  by_cases hneg : n < 0
  · have hminus : isSpace 45 = false := by decide
    rw [formatInt_of_neg hneg, List.cons_append, strtol,
      List.dropWhile_cons_of_neg (by simp [hminus])]
    simp only [leadingDigits_formatNat _ hrest]
    omega
  · obtain ⟨k, rfl⟩ := Int.eq_ofNat_of_zero_le (Int.not_lt.mp hneg)
    obtain ⟨d, digits, hdigits⟩ := List.exists_cons_of_ne_nil (formatNat_ne_nil k)
    have hd : isDigit d = true := isDigit_of_mem_formatNat (hdigits ▸ List.mem_cons_self)
    have hvalue := leadingDigits_formatNat k hrest
    rw [formatInt_natCast, strtol, hdigits, List.cons_append,
      List.dropWhile_cons_of_neg (by simp [isSpace_of_isDigit hd])]
    rw [hdigits, List.cons_append] at hvalue
    split
    · next heq =>
        obtain ⟨rfl, -⟩ := List.cons.inj heq
        exact absurd hd (by decide)
    · next heq =>
        obtain ⟨rfl, -⟩ := List.cons.inj heq
        exact absurd hd (by decide)
    · rw [hvalue]
      omega

/-- `atoi` reads every printed `int` back. -/
theorem atoi_formatInt {n : ℤ} (hlo : -(2 ^ 31) ≤ n) (hhi : n < 2 ^ 31) :
    atoi (formatInt n) = n := by
  have hstrtol : strtol (formatInt n ++ []) = n := strtol_formatInt (by omega) (by omega) rfl
  rw [List.append_nil] at hstrtol
  rw [atoi, hstrtol]
  apply Int.bmod_eq_of_le
  · omega
  · omega

/-- Printing a number and reading it back. -/
example : atoi (formatInt (-1042)) = -1042 := by decide

end PowerJudge
