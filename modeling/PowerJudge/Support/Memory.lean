import Mathlib.Algebra.Group.Int.Defs
import Mathlib.Algebra.Group.Nat.Defs
import Mathlib.Data.Int.Notation
import Mathlib.Tactic.SplitIfs
import PowerJudge.Support.ByteStream

/-!
# Byte memory

A memory gives every offset a byte.  Stores write consecutive bytes; C strings
and 32-bit integers are read back from where they were stored, whatever is
stored elsewhere.
-/

namespace PowerJudge

abbrev Memory := ℕ → UInt8

namespace Memory

/-- Write `bytes` from the offset `start` on. -/
def store (m : Memory) (start : ℕ) (bytes : Bytes) : Memory := fun i =>
  if start ≤ i then (bytes[i - start]?).getD (m i) else m i

theorem store_of_lt (m : Memory) {start i : ℕ} (bytes : Bytes) (h : i < start) :
    m.store start bytes i = m i := by
  rw [store, if_neg (by omega)]

theorem store_of_ge (m : Memory) {start i : ℕ} {bytes : Bytes} (h : start + bytes.length ≤ i) :
    m.store start bytes i = m i := by
  have hnone : bytes[i - start]? = none := List.getElem?_eq_none (by omega)
  rw [store, hnone]
  split <;> rfl

theorem store_add (m : Memory) (start : ℕ) {bytes : Bytes} {i : ℕ} (h : i < bytes.length) :
    m.store start bytes (start + i) = bytes[i] := by
  rw [store, if_pos (by omega), Nat.add_sub_cancel_left, List.getElem?_eq_getElem h]
  rfl

/-- The bytes from `start` on are `bytes`. -/
def Holds (m : Memory) (start : ℕ) (bytes : Bytes) : Prop :=
  ∀ i, ∀ h : i < bytes.length, m (start + i) = bytes[i]

theorem holds_store (m : Memory) (start : ℕ) (bytes : Bytes) :
    (m.store start bytes).Holds start bytes :=
  fun _ h => m.store_add start h

/-- A store elsewhere leaves what a memory holds. -/
theorem Holds.store {m : Memory} {start start' : ℕ} {bytes bytes' : Bytes}
    (h : m.Holds start bytes)
    (hapart : start + bytes.length ≤ start' ∨ start' + bytes'.length ≤ start) :
    (m.store start' bytes').Holds start bytes := by
  intro i hi
  rcases hapart with hbefore | hafter
  · rw [m.store_of_lt bytes' (by omega)]
    exact h i hi
  · rw [m.store_of_ge (by omega)]
    exact h i hi

/-- What is read back from the beginning of a memory. -/
theorem map_range_store (m : Memory) {bytes : Bytes} {n : ℕ} (h : n ≤ bytes.length) :
    (List.range n).map (m.store 0 bytes) = bytes.take n := by
  apply List.ext_getElem
  · simp [h]
  · intro i hi hi'
    have hlt : i < bytes.length := by
      rw [List.length_take] at hi'
      omega
    have hbyte := m.store_add 0 hlt
    rw [Nat.zero_add] at hbyte
    simpa using hbyte

/-- The C string that starts at `start`, cut at `stop`. -/
def string (m : Memory) (start stop : ℕ) : Bytes :=
  ((List.range (stop - start)).map fun i => m (start + i)).takeWhile fun b => b ≠ 0

/-- A string that is held with its terminating NUL is read back. -/
theorem Holds.string_eq {m : Memory} {start stop : ℕ} {text : Bytes}
    (h : m.Holds start (text ++ [0])) (htext : ∀ b ∈ text, b ≠ 0)
    (hfits : start + text.length < stop) : m.string start stop = text := by
  have hread : ((List.range (stop - start)).map fun i => m (start + i)).take (text.length + 1) =
      text ++ [0] := by
    apply List.ext_getElem
    · simp
      omega
    · intro i hi hi'
      simpa using h i hi'
  rw [string, ← List.take_append_drop (text.length + 1) ((List.range (stop - start)).map _), hread,
    List.append_assoc, List.takeWhile_append_of_pos (by simpa using htext)]
  simp

/-! ## Strings with their terminator -/

/-- The C string at `start` is `text`. -/
def IsString (m : Memory) (start : ℕ) (text : Bytes) : Prop :=
  (∀ b ∈ text, b ≠ 0) ∧ m.Holds start (text ++ [0])

/-- The C string at `start`, if it ends within `size` bytes. -/
def text? (m : Memory) (start size : ℕ) : Option Bytes :=
  let bytes := (List.range size).map fun i => m (start + i)
  if 0 ∈ bytes then some (bytes.takeWhile fun b => b ≠ 0) else none

theorem isString_iff {m : Memory} {start : ℕ} {text : Bytes} :
    m.IsString start text ↔
      (∀ b ∈ text, b ≠ 0) ∧ m.Holds start text ∧ m (start + text.length) = 0 := by
  refine and_congr_right fun _ => ?_
  constructor
  · intro h
    constructor
    · intro i hi
      have hbyte := h i (by simp; omega)
      rwa [List.getElem_append_left hi] at hbyte
    · simpa using h text.length (by simp)
  · rintro ⟨htext, hend⟩ i hi
    rw [List.length_append, List.length_singleton] at hi
    rcases Nat.lt_or_ge i text.length with hlt | hge
    · rw [List.getElem_append_left hlt]
      exact htext i hlt
    · obtain rfl : i = text.length := by omega
      simpa using hend

/-- A string is at most one. -/
theorem IsString.length_le {m : Memory} {start : ℕ} {text text' : Bytes}
    (h : m.IsString start text) (h' : m.IsString start text') : text.length ≤ text'.length := by
  rw [isString_iff] at h h'
  apply Nat.le_of_not_lt
  intro hlt
  have hbyte := h.2.1 text'.length hlt
  rw [h'.2.2] at hbyte
  exact h.1 _ (List.getElem_mem hlt) hbyte.symm

theorem IsString.unique {m : Memory} {start : ℕ} {text text' : Bytes}
    (h : m.IsString start text) (h' : m.IsString start text') : text = text' := by
  apply List.ext_getElem
  · exact Nat.le_antisymm (h.length_le h') (h'.length_le h)
  · intro i hi hi'
    rw [isString_iff] at h h'
    rw [← h.2.1 i hi, ← h'.2.1 i hi']

/-- What is read from a memory is held in it. -/
theorem holds_of_range {m : Memory} {start n : ℕ} {bytes rest : Bytes}
    (h : ((List.range n).map fun i => m (start + i)) = bytes ++ rest) :
    m.Holds start bytes ∧ bytes.length ≤ n := by
  have hlength := congrArg List.length h
  simp only [List.length_map, List.length_range, List.length_append] at hlength
  refine ⟨?_, by omega⟩
  intro i hi
  have hbyte : ((List.range n).map fun i => m (start + i))[i]? = (bytes ++ rest)[i]? := by rw [h]
  rw [List.getElem?_append_left hi, List.getElem?_eq_getElem hi] at hbyte
  simpa [List.getElem?_range (show i < n by omega)] using hbyte

theorem text?_eq_some_iff {m : Memory} {start size : ℕ} {text : Bytes} :
    m.text? start size = some text ↔ m.IsString start text ∧ text.length < size := by
  constructor
  · intro h
    simp only [text?] at h
    split_ifs at h with hmem
    obtain ⟨before, after, hbytes, hfirst⟩ := List.eq_append_cons_of_mem hmem
    have hnul : ∀ b ∈ before, b ≠ 0 := fun b hb heq => hfirst (heq ▸ hb)
    have htext : before = text := by
      rw [hbytes, List.takeWhile_append_of_pos (by simpa using hnul)] at h
      simpa using h
    subst htext
    rw [List.append_cons before 0 after] at hbytes
    obtain ⟨hholds, hlength⟩ := holds_of_range hbytes
    rw [List.length_append, List.length_singleton] at hlength
    exact ⟨⟨hnul, hholds⟩, hlength⟩
  · rintro ⟨h, hlength⟩
    have hmem : (0 : UInt8) ∈ (List.range size).map fun i => m (start + i) := by
      rw [List.mem_map]
      exact ⟨text.length, List.mem_range.mpr hlength, (isString_iff.mp h).2.2⟩
    have hstring : m.string start (start + size) = text := h.2.string_eq h.1 (by omega)
    rw [string, Nat.add_sub_cancel_left] at hstring
    simp only [text?, if_pos hmem, hstring]

/-- A string that does not end within `size` bytes: none of them is a NUL. -/
theorem text?_eq_none_iff {m : Memory} {start size : ℕ} :
    m.text? start size = none ↔ ∀ i < size, m (start + i) ≠ 0 := by
  simp only [text?]
  split_ifs with hmem
  · refine iff_of_false (by simp) ?_
    obtain ⟨i, hi, hbyte⟩ := List.mem_map.mp hmem
    exact fun h => h i (List.mem_range.mp hi) hbyte
  · refine iff_of_true rfl ?_
    intro i hi hbyte
    exact hmem (List.mem_map.mpr ⟨i, List.mem_range.mpr hi, hbyte⟩)

theorem IsString.text?_eq {m : Memory} {start size : ℕ} {text : Bytes} (h : m.IsString start text)
    (hsize : text.length < size) : m.text? start size = some text :=
  text?_eq_some_iff.mpr ⟨h, hsize⟩

/-- What is left of a string behind its first bytes. -/
theorem IsString.drop {m : Memory} {start n : ℕ} {text : Bytes} (h : m.IsString start text)
    (hn : n ≤ text.length) : m.IsString (start + n) (text.drop n) := by
  rw [isString_iff] at h ⊢
  obtain ⟨htext, hholds, hend⟩ := h
  refine ⟨fun b hb => htext b (List.mem_of_mem_drop hb), ?_, ?_⟩
  · intro i hi
    rw [List.length_drop] at hi
    rw [Nat.add_assoc, List.getElem_drop]
    exact hholds (n + i) (by omega)
  · rw [List.length_drop, Nat.add_assoc, Nat.add_sub_cancel' hn]
    exact hend

theorem isString_store (m : Memory) (start : ℕ) {text : Bytes} (htext : ∀ b ∈ text, b ≠ 0) :
    (m.store start (text ++ [0])).IsString start text :=
  ⟨htext, m.holds_store start (text ++ [0])⟩

/-- A string behind a store is not changed by it. -/
theorem text?_store_of_le (m : Memory) {start start' : ℕ} {bytes : Bytes} (size : ℕ)
    (h : start + bytes.length ≤ start') :
    (m.store start bytes).text? start' size = m.text? start' size := by
  have hread : ∀ i, m.store start bytes (start' + i) = m (start' + i) :=
    fun i => m.store_of_ge (by omega)
  simp only [text?, hread]

/-- A store without a terminator puts its bytes before the old string. -/
theorem text?_store (m : Memory) {start size : ℕ} {bytes : Bytes} (hbytes : ∀ b ∈ bytes, b ≠ 0)
    (hsize : bytes.length ≤ size) :
    (m.store start bytes).text? start size =
      (m.text? (start + bytes.length) (size - bytes.length)).map (bytes ++ ·) := by
  have hread : ((List.range size).map fun i => m.store start bytes (start + i)) =
      bytes ++ (List.range (size - bytes.length)).map fun i => m (start + bytes.length + i) := by
    obtain ⟨n, rfl⟩ := Nat.exists_eq_add_of_le hsize
    rw [List.range_add, List.map_append, Nat.add_sub_cancel_left, List.map_map]
    congr 1
    · apply List.ext_getElem
      · simp
      · intro i hi hi'
        simpa using m.store_add start hi'
    · apply List.map_congr_left
      intro i _
      rw [Function.comp_apply, ← Nat.add_assoc]
      exact m.store_of_ge (Nat.le_add_right _ _)
  have hnul : (0 : UInt8) ∉ bytes := fun hmem => hbytes 0 hmem rfl
  simp only [text?, hread, List.mem_append, hnul, false_or]
  split_ifs with hmem
  · rw [List.takeWhile_append_of_pos (by simpa using hbytes)]
    rfl
  · rfl

/-! ## Integers -/

/-- The lowest byte of an integer. -/
def lowByte (n : ℤ) : UInt8 := (n % 256).toNat.toUInt8

theorem toNat_lowByte (n : ℤ) : ((lowByte n).toNat : ℤ) = n % 256 := by
  rw [lowByte, Nat.toUInt8, UInt8.toNat_ofNat']
  omega

/-- The four bytes of an `int`, least significant first. -/
def intBytes (n : ℤ) : Bytes :=
  [lowByte n, lowByte (n / 256), lowByte (n / 256 ^ 2), lowByte (n / 256 ^ 3)]

@[simp] theorem length_intBytes (n : ℤ) : (intBytes n).length = 4 := rfl

/-- The `int` stored at `start`. -/
def int (m : Memory) (start : ℕ) : ℤ :=
  Int.bmod ((m start).toNat + 256 * (m (start + 1)).toNat + 256 ^ 2 * (m (start + 2)).toNat +
    256 ^ 3 * (m (start + 3)).toNat) (2 ^ 32)

theorem int_range (m : Memory) (start : ℕ) :
    -(2 ^ 31) ≤ m.int start ∧ m.int start < 2 ^ 31 := by
  constructor
  · exact Int.le_bmod (by decide)
  · exact Int.bmod_lt (by decide)

/-- An integer is read back as an `int`. -/
theorem Holds.int_eq {m : Memory} {start : ℕ} {n : ℤ} (h : m.Holds start (intBytes n)) :
    m.int start = Int.bmod n (2 ^ 32) := by
  have h0 : m start = lowByte n := h 0 (by simp)
  have h1 : m (start + 1) = lowByte (n / 256) := h 1 (by simp)
  have h2 : m (start + 2) = lowByte (n / 256 ^ 2) := h 2 (by simp)
  have h3 : m (start + 3) = lowByte (n / 256 ^ 3) := h 3 (by simp)
  have hsum : n % 256 + 256 * (n / 256 % 256) + 256 ^ 2 * (n / 256 ^ 2 % 256) +
      256 ^ 3 * (n / 256 ^ 3 % 256) = n % 2 ^ 32 := by
    omega
  unfold int
  rw [h0, h1, h2, h3, toNat_lowByte, toNat_lowByte, toNat_lowByte, toNat_lowByte, hsum]
  exact Int.emod_bmod n (2 ^ 32)

/-- The two bytes of a `uint16_t`. -/
def uint16Bytes (n : ℤ) : Bytes := [lowByte n, lowByte (n / 256)]

/-- The `uint16_t` stored at `start`. -/
def uint16 (m : Memory) (start : ℕ) : ℤ := (m start).toNat + 256 * (m (start + 1)).toNat

theorem int_congr {m m' : Memory} {start : ℕ} (h : ∀ i < 4, m' (start + i) = m (start + i)) :
    m'.int start = m.int start := by
  have h0 : m' start = m start := h 0 (by decide)
  have h1 := h 1 (by decide)
  have h2 := h 2 (by decide)
  have h3 := h 3 (by decide)
  unfold int
  rw [h0, h1, h2, h3]

theorem uint16_congr {m m' : Memory} {start : ℕ} (h : ∀ i < 2, m' (start + i) = m (start + i)) :
    m'.uint16 start = m.uint16 start := by
  have h0 : m' start = m start := h 0 (by decide)
  have h1 := h 1 (by decide)
  unfold uint16
  rw [h0, h1]

/-- An integer is read back modulo 65536. -/
theorem Holds.uint16_eq {m : Memory} {start : ℕ} {n : ℤ} (h : m.Holds start (uint16Bytes n)) :
    m.uint16 start = n % 65536 := by
  have h0 : m start = lowByte n := h 0 (by simp [uint16Bytes])
  have h1 : m (start + 1) = lowByte (n / 256) := h 1 (by simp [uint16Bytes])
  rw [uint16, h0, h1, toNat_lowByte, toNat_lowByte]
  omega

end Memory

end PowerJudge
