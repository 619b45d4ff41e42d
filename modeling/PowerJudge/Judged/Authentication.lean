import Mathlib.Data.List.TakeWhile
import PowerJudge.Judged.Connection

/-!
# The bytes that authenticate a client

`work` reads up to `BUFF_SIZE` bytes into a buffer of that size and scans the
buffer as a C string.  The scan ends in the buffer unless the buffer is full of
bytes other than NUL, and the answer is about the bytes before the first NUL.
-/

namespace PowerJudge

/-- The stack from the buffer of `work` on, zeroed and read into.  The bytes of
`stack` behind the buffer are left. -/
def receiveBuffer (stack : Memory) (received : Received) : Memory :=
  Memory.store (fun i => if i < buffSize then 0 else stack i) 0 received.1

/-- The scans of the received bytes stop in the buffer, and `check_password` accepts
the password and nothing else. -/
structure AuthenticatesReceived (stack : Memory) (password : CString) (received : Received) :
    Prop where
  /-- The scan of the log call, and those of `check_password`. -/
  inside : (receiveBuffer stack received).text? 0 buffSize ≠ none
  accepts : ∀ message, (receiveBuffer stack received).IsString 0 message →
    (checkPassword password.1 message = true ↔ received.1 = password.1)

theorem checkPassword_iff {password message : Bytes} :
    checkPassword password message = true ↔ message = password := by
  rw [checkPassword]
  split_ifs with hlength
  · refine iff_of_false (by simp) ?_
    rintro rfl
    exact hlength rfl
  · have hlength : password.length = message.length := not_not.mp hlength
    rw [List.take_length, hlength, List.take_length, decide_eq_true_eq]
    exact eq_comm

/-! ## The string in the buffer -/

theorem ne_zero_of_mem_bufferString {received : Bytes} {b : UInt8}
    (hb : b ∈ bufferString received) : b ≠ 0 := by
  simpa using List.mem_takeWhile_imp hb

/-- What is received is the string, or goes on after it with a NUL. -/
theorem bufferString_cases (received : Bytes) :
    received = bufferString received ∨ bufferString received ++ [0] <+: received := by
  by_cases hmem : (0 : UInt8) ∈ received
  · obtain ⟨before, after, rfl, hfirst⟩ := List.eq_append_cons_of_mem hmem
    have hnul : ∀ b ∈ before, decide (b ≠ 0) = true :=
      fun b hb => decide_eq_true fun heq => hfirst (heq ▸ hb)
    have hstring : bufferString (before ++ 0 :: after) = before := by
      rw [bufferString, List.takeWhile_append_of_pos hnul]
      simp
    refine Or.inr ⟨after, ?_⟩
    rw [hstring, List.append_assoc, List.singleton_append]
  · refine Or.inl ?_
    have hnul : ∀ b ∈ received, decide (b ≠ 0) = true :=
      fun b hb => decide_eq_true fun heq => hmem (heq ▸ hb)
    exact (List.takeWhile_eq_self_iff.mpr hnul).symm

/-- What is received is in the buffer. -/
theorem receiveBuffer_holds (stack : Memory) (received : Received) {bytes : Bytes}
    (hpart : bytes <+: received.1) : (receiveBuffer stack received).Holds 0 bytes := by
  intro i hi
  rw [hpart.getElem hi, receiveBuffer, Memory.store_add]

theorem receiveBuffer_isString (stack : Memory) {received : Received}
    (hstops : received.1.length < buffSize ∨ 0 ∈ received.1) :
    (receiveBuffer stack received).IsString 0 (bufferString received.1) := by
  have hnul : ∀ b ∈ bufferString received.1, b ≠ 0 := fun b hb => ne_zero_of_mem_bufferString hb
  rcases bufferString_cases received.1 with hall | hpart
  · have hmem : (0 : UInt8) ∉ received.1 := fun h => hnul 0 (hall ▸ h) rfl
    have hlength := hstops.resolve_right hmem
    rw [← hall] at hnul ⊢
    apply Memory.isString_iff.mpr
    refine ⟨hnul, receiveBuffer_holds stack received (List.prefix_refl _), ?_⟩
    rw [receiveBuffer, Memory.store_of_ge _ (le_refl _), if_pos]
    simpa using hlength
  · exact ⟨hnul, receiveBuffer_holds stack received hpart⟩

/-- A buffer that is full of other bytes than NUL does not end a scan. -/
theorem receiveBuffer_text?_eq_none {stack : Memory} {received : Received}
    (hfull : ¬(received.1.length < buffSize ∨ 0 ∈ received.1)) :
    (receiveBuffer stack received).text? 0 buffSize = none := by
  obtain ⟨hlength, hnul⟩ := not_or.mp hfull
  apply Memory.text?_eq_none_iff.mpr
  intro i hi hbyte
  have hlt : i < received.1.length := Nat.lt_of_lt_of_le hi (Nat.le_of_not_lt hlength)
  rw [receiveBuffer_holds stack received (List.prefix_refl _) i hlt] at hbyte
  exact hnul (hbyte ▸ List.getElem_mem hlt)

theorem length_bufferString_lt {received : Received}
    (hstops : received.1.length < buffSize ∨ 0 ∈ received.1) :
    (bufferString received.1).length < buffSize := by
  rcases bufferString_cases received.1 with hall | hpart
  · have hmem : (0 : UInt8) ∉ received.1 := fun h => ne_zero_of_mem_bufferString (hall ▸ h) rfl
    rw [← hall]
    exact hstops.resolve_right hmem
  · have hlength := hpart.length_le
    rw [List.length_append, List.length_singleton] at hlength
    exact Nat.lt_of_lt_of_le hlength received.2

/-! ## Authentication -/

/-- The string in the buffer is a password exactly when the password is received,
alone or with a NUL and anything behind it. -/
theorem bufferString_eq_iff {password : CString} {received : Bytes} :
    bufferString received = password.1 ↔
      received = password.1 ∨ password.1 ++ [0] <+: received := by
  have hnul : ∀ b ∈ password.1, decide (b ≠ 0) = true :=
    fun b hb => decide_eq_true (password.2 b hb)
  constructor
  · intro h
    rw [← h]
    exact bufferString_cases received
  · rintro (h | ⟨rest, h⟩)
    · rw [h]
      exact List.takeWhile_eq_self_iff.mpr hnul
    · rw [← h, List.append_assoc, bufferString, List.takeWhile_append_of_pos hnul]
      simp

/-- A client is authenticated by the bytes it sends exactly when they end in the
buffer or have a NUL, and are not the password with a NUL behind it. -/
theorem authenticatesReceived_iff (stack : Memory) (password : CString) (received : Received) :
    AuthenticatesReceived stack password received ↔
      (received.1.length < buffSize ∨ 0 ∈ received.1) ∧ ¬password.1 ++ [0] <+: received.1 := by
  have hexclusive : received.1 = password.1 → ¬password.1 ++ [0] <+: received.1 := by
    rintro heq hpart
    have hlength := hpart.length_le
    rw [heq, List.length_append] at hlength
    exact Nat.not_succ_le_self _ hlength
  by_cases hstops : received.1.length < buffSize ∨ 0 ∈ received.1
  · have hstring := receiveBuffer_isString stack hstops
    have hinside : (receiveBuffer stack received).text? 0 buffSize =
        some (bufferString received.1) :=
      Memory.text?_eq_some_iff.mpr ⟨hstring, length_bufferString_lt hstops⟩
    constructor
    · intro h
      refine ⟨hstops, ?_⟩
      intro hpart
      have haccepts := (h.accepts _ hstring).mp
        (checkPassword_iff.mpr (bufferString_eq_iff.mpr (Or.inr hpart)))
      exact hexclusive haccepts hpart
    · rintro ⟨-, hnot⟩
      refine ⟨by simp [hinside], ?_⟩
      intro message hmessage
      rw [hmessage.unique hstring, checkPassword_iff, bufferString_eq_iff]
      exact or_iff_left hnot
  · refine iff_of_false ?_ fun h => hstops h.1
    exact fun h => h.inside (receiveBuffer_text?_eq_none hstops)

def configuredPassword : CString :=
  ⟨ascii "123456", @of_decide_eq_true _ (List.decidableBAll (fun b => b ≠ 0) _) (by decide)⟩

/-- A full buffer of blanks. -/
def fullOfBlanks : Received := ⟨List.replicate buffSize 32, by simp⟩

/-- The password with its terminator, and more behind it. -/
def passwordAndMore : Received := ⟨configuredPassword.1 ++ [0, 120], by decide⟩

/-- The scan of a full buffer runs into the stack behind it, and what follows a NUL
is not compared. -/
theorem received_not_compared :
    ((receiveBuffer (fun _ => 0) fullOfBlanks).text? 0 buffSize = none ∧
      ¬AuthenticatesReceived (fun _ => 0) configuredPassword fullOfBlanks) ∧
    (checkPassword configuredPassword.1 (bufferString passwordAndMore.1) = true ∧
      ¬AuthenticatesReceived (fun _ => 0) configuredPassword passwordAndMore) := by
  have hfull : ¬(fullOfBlanks.1.length < buffSize ∨ 0 ∈ fullOfBlanks.1) := by
    rintro (hlength | hmem)
    · rw [fullOfBlanks, List.length_replicate] at hlength
      exact Nat.lt_irrefl _ hlength
    · exact absurd (List.eq_of_mem_replicate hmem) (by decide)
  have hnone := @receiveBuffer_text?_eq_none (fun _ => 0) fullOfBlanks hfull
  have hstring := @receiveBuffer_isString (fun _ => 0) passwordAndMore (Or.inl (by decide))
  have haccepted : checkPassword configuredPassword.1 (bufferString passwordAndMore.1) = true := by
    decide
  refine ⟨⟨hnone, fun h => h.inside hnone⟩, haccepted, ?_⟩
  intro h
  exact absurd ((h.accepts _ hstring).mp haccepted) (by decide)

end PowerJudge
