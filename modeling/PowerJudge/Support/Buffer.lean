import Mathlib.Data.Nat.Notation
import Mathlib.Tactic.SplitIfs
import PowerJudge.Support.ByteStream

/-!
# Bounded buffers

A buffer is the list of the symbols of one object.  A scan reads one place after
the other and a write changes one place; either has no result when it leaves the
object.  A C string in a buffer of bytes ends with a NUL inside it.
-/

namespace PowerJudge

variable {α : Type*}

/-! ## Scans and writes -/

/-- The first place from `start` on whose symbol does not satisfy `p`. -/
def scanForward (p : α → Bool) (xs : List α) (start : ℕ) : Option ℕ :=
  go (xs.drop start) start
where
  go : List α → ℕ → Option ℕ
    | [], _ => none
    | x :: rest, i => if p x then go rest (i + 1) else some i

/-- The last place among the `n` places behind `stop` whose symbol does not
satisfy `p`, and else `stop`, which is not read. -/
def scanBackward (p : α → Bool) (xs : List α) (stop : ℕ) : ℕ → Option ℕ
  | 0 => some stop
  | n + 1 =>
      match xs[stop + n + 1]? with
      | none => none
      | some x => if p x then scanBackward p xs stop n else some (stop + n + 1)

def write (xs : List α) (i : ℕ) (x : α) : Option (List α) :=
  if i < xs.length then some (xs.set i x) else none

theorem write_eq {xs : List α} {i : ℕ} (h : i < xs.length) (x : α) :
    write xs i x = some (xs.set i x) := by
  rw [write, if_pos h]

variable {p : α → Bool}

theorem scanForward_append {skipped : List α} {x : α} (hskipped : ∀ y ∈ skipped, p y = true)
    (hx : p x = false) (before rest : List α) :
    scanForward p (before ++ (skipped ++ x :: rest)) before.length =
      some (before.length + skipped.length) := by
  rw [scanForward, List.drop_left]
  generalize before.length = i
  induction skipped generalizing i with
  | nil => simp [scanForward.go, hx]
  | cons y skipped ih =>
      have hy : p y = true := hskipped y List.mem_cons_self
      rw [List.cons_append, scanForward.go, if_pos hy,
        ih (fun z hz => hskipped z (List.mem_cons_of_mem y hz)), List.length_cons]
      congr 1
      omega

/-- The scan goes back over the symbols behind the place `stop + k`. -/
theorem scanBackward_eq {xs : List α} {stop k n : ℕ} (hk : k ≤ n)
    (hstop : k = 0 ∨ ∃ x, xs[stop + k]? = some x ∧ p x = false)
    (hskipped : ∀ i, k < i → i ≤ n → ∃ x, xs[stop + i]? = some x ∧ p x = true) :
    scanBackward p xs stop n = some (stop + k) := by
  induction n with
  | zero =>
      obtain rfl : k = 0 := by omega
      rfl
  | succ n ih =>
      rcases Nat.lt_or_ge n k with hlt | hge
      · obtain rfl : k = n + 1 := by omega
        rcases hstop with hzero | ⟨x, hread, hx⟩
        · omega
        · rw [scanBackward, Nat.add_assoc, hread]
          simp [hx]
      · obtain ⟨x, hread, hx⟩ := hskipped (n + 1) (by omega) (Nat.le_refl _)
        rw [scanBackward, Nat.add_assoc, hread]
        simp only [hx, if_true]
        exact ih hge fun i hlow hhigh => hskipped i hlow (by omega)

theorem scanBackward_append {core skipped : List α} (hcore : core ≠ [])
    (hlast : p (core.getLast hcore) = false) (hskipped : ∀ x ∈ skipped, p x = true)
    (before rest : List α) :
    scanBackward p (before ++ (core ++ (skipped ++ rest))) before.length
        (core.length + skipped.length - 1) = some (before.length + (core.length - 1)) := by
  have hpos : 0 < core.length := List.length_pos_iff.mpr hcore
  have hread : ∀ i, (before ++ (core ++ (skipped ++ rest)))[before.length + i]? =
      (core ++ (skipped ++ rest))[i]? := by
    intro i
    rw [List.getElem?_append_right (Nat.le_add_right _ i), Nat.add_sub_cancel_left]
  apply scanBackward_eq
  · omega
  · refine Or.inr ⟨core.getLast hcore, ?_, hlast⟩
    rw [hread, List.getElem?_append_left (by omega), ← List.getLast?_eq_getElem?,
      List.getLast?_eq_some_getLast hcore]
  · intro i hlow hhigh
    have hi : i - core.length < skipped.length := by omega
    refine ⟨skipped[i - core.length], ?_, hskipped _ (List.getElem_mem hi)⟩
    rw [hread, List.getElem?_append_right (by omega), List.getElem?_append_left hi,
      List.getElem?_eq_getElem hi]

/-! ## Larger buffers -/

/-- A scan or a write that stays in the buffer does not depend on what follows it. -/
theorem scanForward_extend {xs : List α} {start i : ℕ} (h : scanForward p xs start = some i)
    (after : List α) : scanForward p (xs ++ after) start = some i := by
  have hgo : ∀ {ys : List α} {j : ℕ}, scanForward.go p ys j = some i →
      scanForward.go p (ys ++ after) j = some i := by
    intro ys
    induction ys with
    | nil =>
        intro j hj
        cases hj
    | cons y ys ih =>
        intro j hj
        rw [List.cons_append, scanForward.go]
        rw [scanForward.go] at hj
        split_ifs at hj ⊢
        · exact ih hj
        · exact hj
  rw [scanForward] at h ⊢
  rcases Nat.lt_or_ge xs.length start with hlt | hge
  · rw [List.drop_eq_nil_of_le (Nat.le_of_lt hlt)] at h
    cases h
  · rw [List.drop_append_of_le_length hge]
    exact hgo h

theorem scanBackward_extend {xs : List α} {stop n i : ℕ} (h : scanBackward p xs stop n = some i)
    (after : List α) : scanBackward p (xs ++ after) stop n = some i := by
  induction n with
  | zero => exact h
  | succ n ih =>
      rw [scanBackward] at h ⊢
      cases hread : xs[stop + n + 1]? with
      | none =>
          rw [hread] at h
          cases h
      | some x =>
          rw [hread] at h
          rw [List.getElem?_append_left (List.getElem?_eq_some_iff.mp hread).1, hread]
          dsimp only at h ⊢
          split_ifs at h ⊢
          · exact ih h
          · exact h

theorem write_extend {xs xs' : List α} {i : ℕ} {x : α} (h : write xs i x = some xs')
    (after : List α) : write (xs ++ after) i x = some (xs' ++ after) := by
  rw [write] at h
  split_ifs at h with hi
  cases h
  rw [write_eq (by rw [List.length_append]; omega), List.set_append_left _ _ hi]

/-! ## C strings -/

/-- The text with its terminator. -/
def CString.object (s : CString) : Bytes := s.val ++ [0]

/-- The C string at `start` ends in the buffer and is `text`. -/
def StringAt (buffer : Bytes) (start : ℕ) (text : Bytes) : Prop :=
  (∀ b ∈ text, b ≠ 0) ∧ text ++ [0] <+: buffer.drop start

/-- The bytes from `start` on, up to the first NUL. -/
def stringFrom (buffer : Bytes) (start : ℕ) : Bytes :=
  (buffer.drop start).takeWhile fun b => b ≠ 0

/-- `strlen`. -/
def strlen (buffer : Bytes) (start : ℕ) : Option ℕ :=
  (scanForward (fun b => b ≠ 0) buffer start).map fun stop => stop - start

theorem strlen_append {text : Bytes} (htext : ∀ b ∈ text, b ≠ 0) (before after : Bytes) :
    strlen (before ++ (text ++ 0 :: after)) before.length = some text.length := by
  rw [strlen, scanForward_append (by simpa using htext) (by simp)]
  simp

theorem stringAt_append {text : Bytes} (htext : ∀ b ∈ text, b ≠ 0) (before after : Bytes) :
    StringAt (before ++ (text ++ 0 :: after)) before.length text := by
  refine ⟨htext, after, ?_⟩
  rw [List.drop_left, List.append_assoc]
  rfl

theorem StringAt.stringFrom_eq {buffer text : Bytes} {start : ℕ} (h : StringAt buffer start text) :
    stringFrom buffer start = text := by
  obtain ⟨htext, after, hdrop⟩ := h
  rw [stringFrom, ← hdrop, List.append_assoc, List.takeWhile_append_of_pos (by simpa using htext)]
  simp

theorem StringAt.unique {buffer text text' : Bytes} {start : ℕ} (h : StringAt buffer start text)
    (h' : StringAt buffer start text') : text = text' := by
  rw [← h.stringFrom_eq, h'.stringFrom_eq]

theorem StringAt.strlen_eq {buffer text : Bytes} {start : ℕ} (h : StringAt buffer start text) :
    strlen buffer start = some text.length := by
  obtain ⟨htext, after, hdrop⟩ := h
  have hstart : start < buffer.length := by
    have hlength := congrArg List.length hdrop
    simp only [List.length_append, List.length_singleton, List.length_drop] at hlength
    omega
  have hbuffer : buffer.take start ++ (text ++ 0 :: after) = buffer := by
    rw [List.append_cons, hdrop, List.take_append_drop]
  have hlength : (buffer.take start).length = start := List.length_take_of_le (by omega)
  rw [← strlen_append htext (buffer.take start) after, hbuffer, hlength]

theorem strlen_extend {buffer : Bytes} {start n : ℕ} (h : strlen buffer start = some n)
    (after : Bytes) : strlen (buffer ++ after) start = some n := by
  obtain ⟨stop, hscan, hn⟩ := Option.map_eq_some_iff.mp h
  rw [strlen, scanForward_extend hscan, Option.map_some, hn]

theorem StringAt.extend {buffer text : Bytes} {start : ℕ} (h : StringAt buffer start text)
    (after : Bytes) : StringAt (buffer ++ after) start text := by
  refine ⟨h.1, h.2.trans ?_⟩
  rw [List.drop_append]
  exact List.prefix_append _ _

/-- A write behind a string leaves it. -/
theorem StringAt.set {buffer text : Bytes} {start i : ℕ} (h : StringAt buffer start text)
    (hi : start + text.length < i) (b : UInt8) : StringAt (buffer.set i b) start text := by
  obtain ⟨htext, after, hdrop⟩ := h
  refine ⟨htext, after.set (i - start - (text.length + 1)) b, ?_⟩
  have hbehind : (text ++ [0]).length ≤ i - start := by
    rw [List.length_append, List.length_singleton]
    omega
  rw [List.drop_set, if_neg (by omega), ← hdrop, List.set_append_right _ _ hbehind,
    List.length_append, List.length_singleton]

end PowerJudge
