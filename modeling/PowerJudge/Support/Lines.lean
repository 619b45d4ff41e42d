import Mathlib.Order.Bounds.Defs
import PowerJudge.Support.Memory

/-!
# Lines of a text

The lines of a text, each with the newline that ends it; only the last line may
have none.  `fgets` reads them one after the other into the same buffer, and two
lists of lines that are not equal have a first place where they differ.
-/

namespace PowerJudge

/-- Put a byte before the first line. -/
def consLine (b : UInt8) : List Bytes → List Bytes
  | [] => [[b]]
  | line :: lines => (b :: line) :: lines

/-- The lines of a text. -/
def textLines : Bytes → List Bytes
  | [] => []
  | b :: text => if b = 10 then [10] :: textLines text else consLine b (textLines text)

/-- A line without the newline that ends it. -/
def withoutNewline (line : Bytes) : Bytes :=
  if line.getLast? = some 10 then line.dropLast else line

theorem flatten_consLine (b : UInt8) (lines : List Bytes) :
    (consLine b lines).flatten = b :: lines.flatten := by
  cases lines with
  | nil => rfl
  | cons line lines => rfl

/-- A text is made of its lines. -/
theorem flatten_textLines (text : Bytes) : (textLines text).flatten = text := by
  induction text with
  | nil => rfl
  | cons b text ih =>
      by_cases hb : b = 10
      · rw [textLines, if_pos hb, List.flatten_cons, ih, hb]
        rfl
      · rw [textLines, if_neg hb, flatten_consLine, ih]

theorem mem_of_mem_textLines {text line : Bytes} {b : UInt8} (hline : line ∈ textLines text)
    (hb : b ∈ line) : b ∈ text := by
  rw [← flatten_textLines text]
  exact List.mem_flatten.mpr ⟨line, hline, hb⟩

theorem textLines_eq_nil {text : Bytes} (h : textLines text = []) : text = [] := by
  rw [← flatten_textLines text, h]
  rfl

/-- The lines behind the first one. -/
theorem textLines_drop {text line : Bytes} {lines : List Bytes}
    (h : textLines text = line :: lines) : textLines (text.drop line.length) = lines := by
  induction text generalizing line lines with
  | nil => simp [textLines] at h
  | cons b text ih =>
      by_cases hb : b = 10
      · rw [textLines, if_pos hb, List.cons.injEq] at h
        rw [← h.1, ← h.2]
        rfl
      · rw [textLines, if_neg hb] at h
        rcases hlines : textLines text with _ | ⟨line', lines'⟩
        · rw [hlines, consLine, List.cons.injEq] at h
          rw [← h.1, ← h.2, textLines_eq_nil hlines]
          rfl
        · rw [hlines, consLine, List.cons.injEq] at h
          rw [← h.1, ← h.2, List.length_cons, List.drop_succ_cons]
          exact ih hlines

/-! ## `fgets` -/

/-- The bytes up to the first newline, at most `n` of them. -/
def takeLine : ℕ → Bytes → Bytes
  | 0, _ => []
  | _ + 1, [] => []
  | n + 1, b :: text => if b = 10 then [b] else b :: takeLine n text

/-- `fgets` into a buffer of `size` bytes: the buffer, and the unread bytes. -/
def fgets (buffer : Memory) (size : ℕ) (file : Bytes) : Option (Memory × Bytes) :=
  if file = [] then none
  else
    let line := takeLine (size - 1) file
    some (buffer.store 0 (line ++ [0]), file.drop line.length)

/-- A line that is short enough is read as a whole. -/
theorem takeLine_eq {text line : Bytes} {lines : List Bytes} {n : ℕ}
    (h : textLines text = line :: lines) (hn : line.length ≤ n) : takeLine n text = line := by
  induction text generalizing line lines n with
  | nil => simp [textLines] at h
  | cons b text ih =>
      rcases n with _ | n
      · rw [takeLine]
        exact (List.length_eq_zero_iff.mp (Nat.le_zero.mp hn)).symm
      by_cases hb : b = 10
      · rw [textLines, if_pos hb, List.cons.injEq] at h
        rw [takeLine, if_pos hb, ← h.1, hb]
      · rw [textLines, if_neg hb] at h
        rw [takeLine, if_neg hb]
        rcases hlines : textLines text with _ | ⟨line', lines'⟩
        · rw [hlines, consLine, List.cons.injEq] at h
          rw [← h.1, textLines_eq_nil hlines]
          cases n with
          | zero => rfl
          | succ n => rfl
        · rw [hlines, consLine, List.cons.injEq] at h
          rw [← h.1] at hn ⊢
          rw [ih hlines (Nat.le_of_succ_le_succ hn)]

theorem fgets_nil (buffer : Memory) (size : ℕ) : fgets buffer size [] = none := rfl

theorem fgets_cons {file line : Bytes} {lines : List Bytes} {size : ℕ}
    (h : textLines file = line :: lines) (hsize : line.length < size) (buffer : Memory) :
    fgets buffer size file =
      some (buffer.store 0 (line ++ [0]), file.drop line.length) := by
  have hne : file ≠ [] := by
    rintro rfl
    simp [textLines] at h
  simp only [fgets, if_neg hne, takeLine_eq h (Nat.le_sub_one_of_lt hsize)]

/-- A successful read leaves fewer unread bytes. -/
theorem fgets_unread {buffer buffer' : Memory} {size : ℕ} {file file' : Bytes} (hsize : 1 < size)
    (h : fgets buffer size file = some (buffer', file')) : file'.length < file.length := by
  obtain ⟨n, rfl⟩ := Nat.exists_eq_add_of_lt hsize
  cases file with
  | nil => cases h
  | cons b file =>
      have hfile : file' = (b :: file).drop (takeLine (1 + n + 1 - 1) (b :: file)).length := by
        simpa [fgets] using (congrArg (fun read => read.map Prod.snd) h).symm
      have hline : 0 < (takeLine (1 + n + 1 - 1) (b :: file)).length := by
        rw [Nat.add_sub_cancel, Nat.add_comm, takeLine]
        split
        · exact Nat.one_pos
        · exact Nat.succ_pos _
      rw [hfile, List.length_drop, List.length_cons]
      omega

/-! ## The first difference of two lists -/

section FirstDifference

variable {α : Type*} {a b common x y : List α}

/-- Two lists have a common part and differ right behind it. -/
structure FirstDifference (a b common x y : List α) : Prop where
  left : a = common ++ x
  right : b = common ++ y
  head : x.head? ≠ y.head?

theorem exists_firstDifference (h : a ≠ b) : ∃ common x y, FirstDifference a b common x y := by
  induction a generalizing b with
  | nil =>
      obtain ⟨z, b, rfl⟩ := List.exists_cons_of_ne_nil h.symm
      exact ⟨[], [], z :: b, rfl, rfl, by simp⟩
  | cons w a ih =>
      rcases b with _ | ⟨z, b⟩
      · exact ⟨[], w :: a, [], rfl, rfl, by simp⟩
      by_cases hwz : w = z
      · subst hwz
        obtain ⟨common, x, y, hx, hy, hhead⟩ := ih fun heq => h (congrArg (w :: ·) heq)
        exact ⟨w :: common, x, y, congrArg (w :: ·) hx, congrArg (w :: ·) hy, hhead⟩
      · exact ⟨[], w :: a, z :: b, rfl, rfl, by simpa using hwz⟩

namespace FirstDifference

theorem symm (h : FirstDifference a b common x y) : FirstDifference b a common y x :=
  ⟨h.right, h.left, h.head.symm⟩

theorem getElem?_left (h : FirstDifference a b common x y) : a[common.length]? = x.head? := by
  rw [h.left, List.getElem?_append_right (Nat.le_refl _), Nat.sub_self, List.head?_eq_getElem?]

/-- The length of the common part is the least place of a difference. -/
theorem isLeast (h : FirstDifference a b common x y) :
    IsLeast {k | a[k]? ≠ b[k]?} common.length := by
  constructor
  · change a[common.length]? ≠ b[common.length]?
    rw [h.getElem?_left, h.symm.getElem?_left]
    exact h.head
  · intro k hk
    apply Nat.le_of_not_lt
    intro hlt
    apply hk
    rw [h.left, h.right, List.getElem?_append_left hlt, List.getElem?_append_left hlt]

/-- The first list is at the front of the second one if it ends at the difference. -/
theorem isPrefix_iff (h : FirstDifference a b common x y) : a <+: b ↔ x = [] := by
  rw [h.left, h.right, List.prefix_append_right_inj]
  constructor
  · rintro ⟨rest, rfl⟩
    rcases x with _ | ⟨w, x⟩
    · rfl
    · exact absurd rfl h.head
  · rintro rfl
    exact List.nil_prefix

end FirstDifference

end FirstDifference

end PowerJudge
