import Mathlib.Data.Nat.Notation

/-!
# Wait statuses

A wait status is the integer that `waitpid` and `wait4` store.  The macros of
`sys/wait.h` read it; the encoders build the statuses the kernel stores for a
process that exited, was killed, or was stopped.
-/

namespace PowerJudge

/-- The integer stored by `waitpid` and `wait4`. -/
structure WaitStatus where
  raw : ℕ
  deriving DecidableEq, Repr

namespace WaitStatus

def termSig (status : WaitStatus) : ℕ := status.raw % 128

def exitStatus (status : WaitStatus) : ℕ := status.raw / 256 % 256

def stopSig (status : WaitStatus) : ℕ := status.raw / 256 % 256

def ifExited (status : WaitStatus) : Prop := status.termSig = 0

/-- `((signed char) ((status & 0x7f) + 1) >> 1) > 0` leaves out `0` and `0x7f`. -/
def ifSignaled (status : WaitStatus) : Prop :=
  status.termSig ≠ 0 ∧ status.termSig ≠ 127

def ifStopped (status : WaitStatus) : Prop := status.raw % 256 = 127

instance (status : WaitStatus) : Decidable status.ifExited :=
  inferInstanceAs (Decidable (_ = _))

instance (status : WaitStatus) : Decidable status.ifSignaled :=
  inferInstanceAs (Decidable (_ ∧ _))

instance (status : WaitStatus) : Decidable status.ifStopped :=
  inferInstanceAs (Decidable (_ = _))

/-! ## Statuses stored by the kernel -/

/-- The status of a process that called `exit(code)`. -/
def ofExit (code : ℕ) : WaitStatus := ⟨code % 256 * 256⟩

/-- The status of a process killed by `signo`, with or without a core dump. -/
def ofKill (signo : ℕ) (core : Bool) : WaitStatus :=
  ⟨signo + if core then 128 else 0⟩

/-- The status of a process stopped by `signo`. -/
def ofStop (signo : ℕ) : WaitStatus := ⟨signo % 256 * 256 + 127⟩

theorem ifExited_ofExit (code : ℕ) : (ofExit code).ifExited := by
  simp only [ifExited, termSig, ofExit]
  omega

theorem exitStatus_ofExit (code : ℕ) : (ofExit code).exitStatus = code % 256 := by
  simp only [exitStatus, ofExit]
  omega

theorem termSig_ofKill {signo : ℕ} (core : Bool) (h : signo < 128) :
    (ofKill signo core).termSig = signo := by
  cases core <;> simp only [termSig, ofKill] <;> simp <;> omega

theorem ifSignaled_ofKill {signo : ℕ} (core : Bool) (h0 : 0 < signo) (h : signo < 127) :
    (ofKill signo core).ifSignaled := by
  rw [ifSignaled, termSig_ofKill core (by omega)]
  omega

theorem ifStopped_ofStop (signo : ℕ) : (ofStop signo).ifStopped := by
  simp only [ifStopped, ofStop]
  omega

theorem stopSig_ofStop {signo : ℕ} (h : signo < 256) : (ofStop signo).stopSig = signo := by
  simp only [stopSig, ofStop]
  omega

/-! ## No status answers two of the macros -/

theorem not_ifExited_of_ifSignaled {status : WaitStatus} (h : status.ifSignaled) :
    ¬status.ifExited :=
  h.1

theorem not_ifExited_of_ifStopped {status : WaitStatus} (h : status.ifStopped) :
    ¬status.ifExited := by
  simp only [ifStopped, ifExited, termSig] at h ⊢
  omega

theorem not_ifSignaled_of_ifStopped {status : WaitStatus} (h : status.ifStopped) :
    ¬status.ifSignaled := by
  simp only [ifStopped, ifSignaled, termSig] at h ⊢
  omega

end WaitStatus

/-! ## Signals -/

def sigTrap : ℕ := 5

def sigSegv : ℕ := 11

def sigAlrm : ℕ := 14

def sigChld : ℕ := 17

def sigXcpu : ℕ := 24

def sigXfsz : ℕ := 25

def sigVtalrm : ℕ := 26

end PowerJudge
