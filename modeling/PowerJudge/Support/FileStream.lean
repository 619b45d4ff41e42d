import Mathlib.Data.List.TakeWhile
import PowerJudge.Support.ByteStream

/-!
# Files open for reading

The state that `stdio` keeps of a file open for reading: the position in the file,
the bytes that were pushed back, and the end-of-file indicator.  A stream stands at
an offset of its file when at most one byte is pushed back, and that byte is the one
read last; it then reads the file on from there.
-/

namespace PowerJudge

/-- An open file; `pushedBack` are the bytes pushed back and not read again, the last
one first. -/
structure FileStream where
  contents : Bytes
  position : ℕ
  pushedBack : Bytes
  eof : Bool
  deriving DecidableEq, Repr

namespace FileStream

/-- A file of which `n` bytes have been read. -/
def reading (contents : Bytes) (n : ℕ) : FileStream := ⟨contents, n, [], false⟩

/-- A file at whose end a byte was asked for. -/
def ended (contents : Bytes) : FileStream := ⟨contents, contents.length, [], true⟩

/-- `fgetc`; `none` is `EOF`. -/
def fgetc (s : FileStream) : Option UInt8 × FileStream :=
  match s.pushedBack with
  | b :: rest => (some b, { s with pushedBack := rest })
  | [] =>
      match s.contents[s.position]? with
      | some b => (some b, { s with position := s.position + 1 })
      | none => (none, { s with eof := true })

/-- `ungetc`, which does not push back `EOF`. -/
def ungetc (c : Option UInt8) (s : FileStream) : FileStream :=
  match c with
  | some b => { s with pushedBack := b :: s.pushedBack, eof := false }
  | none => s

/-! ## The unread bytes -/

/-- The bytes that are still to be read, those pushed back first. -/
def toByteStream (s : FileStream) : ByteStream := ⟨s.pushedBack ++ s.contents.drop s.position⟩

def unread (s : FileStream) : ℕ := s.toByteStream.unread

theorem toByteStream_of_fgetc_some {b : UInt8} {s s' : FileStream} (h : s.fgetc = (some b, s')) :
    s.toByteStream = s'.toByteStream.ungetc b := by
  rw [fgetc] at h
  split at h
  · next hpushed =>
      cases h
      simp [toByteStream, ByteStream.ungetc, hpushed]
  · next hpushed =>
      split at h
      · next hread =>
          cases h
          obtain ⟨hlt, hb⟩ := List.getElem?_eq_some_iff.mp hread
          simp [toByteStream, ByteStream.ungetc, hpushed, ← hb]
      · cases h

theorem toByteStream_of_fgetc_none {s s' : FileStream} (h : s.fgetc = (none, s')) :
    s.toByteStream = ⟨[]⟩ ∧ s'.toByteStream = ⟨[]⟩ ∧ s'.eof = true := by
  rw [fgetc] at h
  split at h
  · cases h
  · next hpushed =>
      split at h
      · cases h
      · next hread =>
          cases h
          have hle := List.getElem?_eq_none_iff.mp hread
          simp [toByteStream, hpushed, hle]

theorem toByteStream_ungetc (b : UInt8) (s : FileStream) :
    (s.ungetc (some b)).toByteStream = s.toByteStream.ungetc b := rfl

theorem unread_fgetc {b : UInt8} {s s' : FileStream} (h : s.fgetc = (some b, s')) :
    s'.unread + 1 = s.unread := by
  rw [unread, unread, toByteStream_of_fgetc_some h, ByteStream.unread_ungetc]

theorem unread_ungetc_le (c : Option UInt8) (s : FileStream) :
    (s.ungetc c).unread ≤ s.unread + 1 := by
  cases c with
  | none => exact Nat.le_succ _
  | some b => exact Nat.le_refl _

/-- Read on while the bytes satisfy `p`. -/
def fgetcWhile (p : UInt8 → Bool) (s : FileStream) : Option UInt8 × FileStream :=
  match _hread : s.fgetc with
  | (none, s') => (none, s')
  | (some b, s') => if p b then s'.fgetcWhile p else (some b, s')
termination_by s.unread
decreasing_by
  have hlt := unread_fgetc _hread
  omega

theorem fgetcWhile_of_none {p : UInt8 → Bool} {s s' : FileStream} (h : s.fgetc = (none, s')) :
    s.fgetcWhile p = (none, s') := by
  rw [fgetcWhile]
  split
  · next hread => rw [← hread, h]
  · next hread =>
      rw [h] at hread
      cases hread

theorem fgetcWhile_of_some {p : UInt8 → Bool} {s s' : FileStream} {b : UInt8}
    (h : s.fgetc = (some b, s')) :
    s.fgetcWhile p = if p b then s'.fgetcWhile p else (some b, s') := by
  rw [fgetcWhile]
  split
  · next hread =>
      rw [h] at hread
      cases hread
  · next hread =>
      rw [h] at hread
      cases hread
      rfl

theorem eof_of_fgetcWhile {p : UInt8 → Bool} {s s' : FileStream}
    (h : s.fgetcWhile p = (none, s')) : s'.eof = true := by
  induction s using fgetcWhile.induct (p := p) with
  | case1 s t hread =>
      rw [fgetcWhile_of_none hread] at h
      cases h
      exact (toByteStream_of_fgetc_none hread).2.2
  | case2 s b t hread hb ih =>
      rw [fgetcWhile_of_some hread, if_pos hb] at h
      exact ih h
  | case3 s b t hread hb =>
      rw [fgetcWhile_of_some hread, if_neg hb] at h
      cases h

/-- A byte that was read is gone. -/
theorem unread_fgetcWhile {p : UInt8 → Bool} {b : UInt8} {s s' : FileStream}
    (h : s.fgetcWhile p = (some b, s')) : s'.unread < s.unread := by
  induction s using fgetcWhile.induct (p := p) with
  | case1 s t hread =>
      rw [fgetcWhile_of_none hread] at h
      cases h
  | case2 s c t hread hc ih =>
      rw [fgetcWhile_of_some hread, if_pos hc] at h
      have hlt := ih h
      have hone := unread_fgetc hread
      omega
  | case3 s c t hread hc =>
      rw [fgetcWhile_of_some hread, if_neg hc] at h
      have hone := unread_fgetc hread
      cases h
      omega

/-- Skipping a byte value is the loop of the stream of unread bytes. -/
theorem toByteStream_fgetcSkipping (skip : UInt8) (s : FileStream) :
    s.toByteStream.fgetcSkipping skip =
      ((s.fgetcWhile fun b => b = skip).1, (s.fgetcWhile fun b => b = skip).2.toByteStream) := by
  induction s using fgetcWhile.induct (p := fun b => b = skip) with
  | case1 s t hread =>
      obtain ⟨hs, ht, -⟩ := toByteStream_of_fgetc_none hread
      rw [fgetcWhile_of_none hread, hs, ht]
      rfl
  | case2 s b t hread hb ih =>
      rw [fgetcWhile_of_some hread, if_pos hb, ← ih, toByteStream_of_fgetc_some hread,
        ByteStream.fgetcSkipping_eq]
      simp only [ByteStream.fgetc, ByteStream.ungetc, of_decide_eq_true hb, if_true]
  | case3 s b t hread hb =>
      have hne : b ≠ skip := fun heq => hb (decide_eq_true heq)
      rw [fgetcWhile_of_some hread, if_neg hb, toByteStream_of_fgetc_some hread,
        ByteStream.fgetcSkipping_eq]
      simp [ByteStream.fgetc, ByteStream.ungetc, hne]

theorem fgetcWhile_eq_none_iff {p : UInt8 → Bool} {s : FileStream} :
    (s.fgetcWhile p).1 = none ↔ s.toByteStream.rest.all p = true := by
  induction s using fgetcWhile.induct (p := p) with
  | case1 s t hread =>
      rw [fgetcWhile_of_none hread, (toByteStream_of_fgetc_none hread).1]
      simp
  | case2 s b t hread hb ih =>
      rw [fgetcWhile_of_some hread, if_pos hb, ih, toByteStream_of_fgetc_some hread]
      simp [ByteStream.ungetc, hb]
  | case3 s b t hread hb =>
      rw [fgetcWhile_of_some hread, if_neg hb, toByteStream_of_fgetc_some hread]
      simp [ByteStream.ungetc, hb]

/-! ## Streams that stand at an offset -/

/-- The next byte to be read is the one at `n`; at most one byte is pushed back. -/
def StandsAt (s : FileStream) (contents : Bytes) (n : ℕ) : Prop :=
  s = reading contents n ∨
    ∃ b, contents[n]? = some b ∧ s = (reading contents (n + 1)).ungetc (some b)

variable {contents : Bytes} {n : ℕ} {s : FileStream}

theorem standsAt_reading (contents : Bytes) (n : ℕ) : (reading contents n).StandsAt contents n :=
  Or.inl rfl

theorem standsAt_ungetc {b : UInt8} (h : contents[n]? = some b) :
    ((reading contents (n + 1)).ungetc (some b)).StandsAt contents n :=
  Or.inr ⟨b, h, rfl⟩

theorem StandsAt.fgetc_of_some {b : UInt8} (h : s.StandsAt contents n)
    (hread : contents[n]? = some b) : s.fgetc = (some b, reading contents (n + 1)) := by
  rcases h with rfl | ⟨c, hc, rfl⟩
  · simp only [fgetc, reading, hread]
  · rw [hread] at hc
    cases hc
    rfl

theorem StandsAt.fgetc_of_none (h : s.StandsAt contents n) (hread : contents[n]? = none) :
    s.fgetc = (none, { reading contents n with eof := true }) := by
  rcases h with rfl | ⟨c, hc, rfl⟩
  · simp only [fgetc, reading, hread]
  · rw [hread] at hc
    cases hc

/-- From `n` on, the bytes `skipped` satisfy `p`, and the next byte `b` does not. -/
structure NextByte (p : UInt8 → Bool) (contents : Bytes) (n : ℕ) (skipped : Bytes) (b : UInt8) :
    Prop where
  drop_eq : contents.drop n = skipped ++ b :: contents.drop (n + skipped.length + 1)
  skipped : ∀ c ∈ skipped, p c = true
  fails : p b = false

variable {p : UInt8 → Bool} {skipped : Bytes} {b : UInt8}

theorem nextByte_or_all (p : UInt8 → Bool) (contents : Bytes) (n : ℕ) :
    (∃ skipped b, NextByte p contents n skipped b) ∨ ∀ b ∈ contents.drop n, p b = true := by
  by_cases hall : ∀ b ∈ contents.drop n, p b = true
  · exact Or.inr hall
  · have hrest : (contents.drop n).dropWhile p ≠ [] :=
      fun hnil => hall (List.dropWhile_eq_nil_iff.mp hnil)
    obtain ⟨b, rest, hb⟩ := List.exists_cons_of_ne_nil hrest
    have hskipped : ∀ c ∈ (contents.drop n).takeWhile p, p c = true :=
      fun c hc => List.mem_takeWhile_imp hc
    have hdrop : (contents.drop n).takeWhile p ++ b :: rest = contents.drop n := by
      rw [← hb, List.takeWhile_append_dropWhile]
    have hfails : p b = false := by
      have hhead := List.head_dropWhile_not p hrest
      simpa only [hb, List.head_cons] using hhead
    generalize (contents.drop n).takeWhile p = skipped at hskipped hdrop
    refine Or.inl ⟨skipped, b, ?_, hskipped, hfails⟩
    rw [← List.drop_drop, ← List.drop_drop, ← hdrop, List.drop_left]
    rfl

theorem NextByte.read (h : NextByte p contents n skipped b) :
    contents[n + skipped.length]? = some b := by
  rw [← List.getElem?_drop, h.drop_eq, List.getElem?_append_right (Nat.le_refl _), Nat.sub_self]
  rfl

/-- The stream reads the file on from its offset. -/
theorem StandsAt.fgetcWhile_of_next (h : s.StandsAt contents n)
    (hnext : NextByte p contents n skipped b) :
    s.fgetcWhile p = (some b, reading contents (n + skipped.length + 1)) := by
  induction skipped generalizing s n with
  | nil =>
      rw [fgetcWhile_of_some (h.fgetc_of_some hnext.read), hnext.fails]
      rfl
  | cons c skipped ih =>
      have hread : contents[n]? = some c := by
        rw [← Nat.add_zero n, ← List.getElem?_drop, hnext.drop_eq]
        rfl
      have hlater : n + (c :: skipped).length = n + 1 + skipped.length := by
        rw [List.length_cons]
        omega
      have htail : NextByte p contents (n + 1) skipped b := by
        refine ⟨?_, fun d hd => hnext.skipped d (List.mem_cons_of_mem c hd), hnext.fails⟩
        rw [← List.drop_drop, hnext.drop_eq, hlater]
        rfl
      rw [fgetcWhile_of_some (h.fgetc_of_some hread), if_pos (hnext.skipped c List.mem_cons_self),
        ih (standsAt_reading contents (n + 1)) htail, hlater]

theorem StandsAt.fgetcWhile_of_all (h : s.StandsAt contents n) (hn : n ≤ contents.length)
    (hall : ∀ b ∈ contents.drop n, p b = true) : s.fgetcWhile p = (none, ended contents) := by
  induction hm : contents.length - n generalizing s n with
  | zero =>
      obtain rfl : n = contents.length := by omega
      have hread : contents[contents.length]? = none := List.getElem?_eq_none (Nat.le_refl _)
      rw [fgetcWhile_of_none (h.fgetc_of_none hread)]
      rfl
  | succ m ih =>
      have hlt : n < contents.length := by omega
      have hread : contents[n]? = some contents[n] := List.getElem?_eq_getElem hlt
      rw [List.drop_eq_getElem_cons hlt] at hall
      have hnext := ih (standsAt_reading contents (n + 1)) hlt
        (fun b hb => hall b (List.mem_cons_of_mem _ hb)) (by omega)
      rw [fgetcWhile_of_some (h.fgetc_of_some hread), if_pos (hall _ List.mem_cons_self), hnext]

/-! ## What was consumed -/

/-- The number of consumed bytes that satisfy `q`; the end of the file counts as one. -/
def consumed (q : UInt8 → Bool) (s : FileStream) : ℕ :=
  (s.contents.take (s.position - s.pushedBack.length)).countP q + if s.eof then 1 else 0

theorem consumed_reading (q : UInt8 → Bool) (contents : Bytes) (n : ℕ) :
    (reading contents n).consumed q = (contents.take n).countP q := rfl

theorem consumed_ended (q : UInt8 → Bool) (contents : Bytes) :
    (ended contents).consumed q = contents.countP q + 1 := by
  simp [consumed, ended]

/-- The bytes passed over do not count where they fail `q`. -/
theorem NextByte.countP_take {q : UInt8 → Bool} (h : NextByte p contents n skipped b)
    (hq : ∀ c, p c = true → q c = false) :
    (contents.take (n + skipped.length)).countP q = (contents.take n).countP q := by
  have hzero : skipped.countP q = 0 := by
    rw [List.countP_eq_zero]
    intro c hc
    rw [hq c (h.skipped c hc)]
    exact Bool.false_ne_true
  rw [List.take_add, h.drop_eq, List.take_left, List.countP_append, hzero, Nat.add_zero]

theorem countP_of_all {q : UInt8 → Bool} (hall : ∀ b ∈ contents.drop n, p b = true)
    (hq : ∀ c, p c = true → q c = false) : contents.countP q = (contents.take n).countP q := by
  have hzero : (contents.drop n).countP q = 0 := by
    rw [List.countP_eq_zero]
    intro c hc
    rw [hq c (hall c hc)]
    exact Bool.false_ne_true
  calc contents.countP q = (contents.take n ++ contents.drop n).countP q := by
        rw [List.take_append_drop]
    _ = (contents.take n).countP q := by rw [List.countP_append, hzero, Nat.add_zero]

theorem countP_take_succ {q : UInt8 → Bool} {k : ℕ} (hread : contents[k]? = some b)
    (hb : q b = true) :
    (contents.take (k + 1)).countP q = (contents.take k).countP q + 1 := by
  rw [List.take_add_one, hread, List.countP_append]
  simp [hb]

theorem countP_take_le {q : UInt8 → Bool} {k : ℕ} (h : n ≤ k) :
    (contents.take n).countP q ≤ (contents.take k).countP q := by
  have hsublist : (contents.take n).Sublist (contents.take k) := by
    rw [← Nat.min_eq_left h, ← List.take_take]
    exact List.take_sublist _ _
  exact hsublist.countP_le

end FileStream

end PowerJudge
