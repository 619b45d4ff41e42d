import Mathlib.Data.Nat.Notation

/-!
# Byte streams with push-back

The part of `stdio` that a reader of text files uses: reading a byte, skipping
a byte value, and pushing a byte back.  The unread bytes of a stream include
the ones pushed back.
-/

namespace PowerJudge

abbrev Bytes := List UInt8

/-- The bytes of an ASCII literal. -/
def ascii (text : String) : Bytes := text.toList.map fun c => c.toNat.toUInt8

/-- A string without NUL. -/
abbrev CString := {text : Bytes // ∀ b ∈ text, b ≠ 0}

/-- The unread bytes of an open file. -/
structure ByteStream where
  rest : Bytes
  deriving DecidableEq, Repr

namespace ByteStream

/-- `fgetc`; `none` is `EOF`. -/
def fgetc (s : ByteStream) : Option UInt8 × ByteStream :=
  match s.rest with
  | [] => (none, s)
  | b :: rest => (some b, ⟨rest⟩)

/-- `while ((c = fgetc(s)) == skip) {}` -/
def fgetcSkipping (skip : UInt8) (s : ByteStream) : Option UInt8 × ByteStream :=
  go s.rest
where
  go : Bytes → Option UInt8 × ByteStream
    | [] => (none, ⟨[]⟩)
    | b :: rest => if b = skip then go rest else (some b, ⟨rest⟩)

/-- `ungetc`. -/
def ungetc (b : UInt8) (s : ByteStream) : ByteStream := ⟨b :: s.rest⟩

def unread (s : ByteStream) : ℕ := s.rest.length

/-- The skipping loop is the loop of the source. -/
theorem fgetcSkipping_eq (skip : UInt8) (s : ByteStream) :
    s.fgetcSkipping skip =
      if s.fgetc.1 = some skip then s.fgetc.2.fgetcSkipping skip else s.fgetc := by
  obtain ⟨rest⟩ := s
  cases rest with
  | nil => rfl
  | cons b rest =>
      by_cases h : b = skip
      · simp [fgetcSkipping, fgetcSkipping.go, fgetc, h]
      · simp [fgetcSkipping, fgetcSkipping.go, fgetc, h]

/-- A byte that was read is gone from the stream. -/
theorem unread_fgetcSkipping {skip b : UInt8} {s s' : ByteStream}
    (h : s.fgetcSkipping skip = (some b, s')) : s'.unread < s.unread := by
  obtain ⟨rest⟩ := s
  change fgetcSkipping.go skip rest = (some b, s') at h
  induction rest with
  | nil => simp [fgetcSkipping.go] at h
  | cons c rest ih =>
      by_cases hc : c = skip
      · rw [fgetcSkipping.go, if_pos hc] at h
        have hlt := ih h
        simp only [unread, List.length_cons] at hlt ⊢
        omega
      · rw [fgetcSkipping.go, if_neg hc] at h
        obtain ⟨-, rfl⟩ := Prod.mk.inj h
        simp [unread]

/-- The skipping loop reads on in the file without the skipped byte value. -/
theorem fgetcSkipping_cases (skip : UInt8) (s : ByteStream) :
    (s.rest.filter (fun b => b ≠ skip) = [] ∧ s.fgetcSkipping skip = (none, ⟨[]⟩)) ∨
      ∃ b s', b ≠ skip ∧ s.fgetcSkipping skip = (some b, s') ∧
        s.rest.filter (fun b => b ≠ skip) = b :: s'.rest.filter (fun b => b ≠ skip) := by
  obtain ⟨rest⟩ := s
  change (_ ∧ fgetcSkipping.go skip rest = _) ∨ ∃ b s', _ ∧ fgetcSkipping.go skip rest = _ ∧ _
  induction rest with
  | nil => exact Or.inl ⟨rfl, rfl⟩
  | cons c rest ih =>
      by_cases hc : c = skip
      · rw [fgetcSkipping.go, if_pos hc]
        simpa [hc] using ih
      · rw [fgetcSkipping.go, if_neg hc]
        exact Or.inr ⟨c, ⟨rest⟩, hc, rfl, by simp [hc]⟩

@[simp] theorem unread_ungetc (b : UInt8) (s : ByteStream) :
    (s.ungetc b).unread = s.unread + 1 := rfl

end ByteStream

end PowerJudge
