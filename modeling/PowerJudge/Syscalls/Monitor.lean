import Mathlib.Data.List.Induction
import PowerJudge.Support.Ledger
import PowerJudge.Syscalls.Tables

/-!
# The syscall monitor

The two globals of `syscalls.cpp` and the functions that read and write them.
`is_valid_syscall` is reduced once to the ledger operations; every later result
uses that reduction.
-/

namespace PowerJudge

/-- The globals `syscalls` and `in_syscall`.  The ids below 1024 are the array;
an id from 1024 on is the `int` that lies behind it in memory. -/
structure Monitor where
  syscalls : ℕ → ℤ
  inSyscall : Bool

/-- The globals at program start. -/
def Monitor.programStart : Monitor where
  syscalls := fun _ => 0
  inSyscall := true

def Monitor.setQuota (m : Monitor) (id : ℕ) (count : ℤ) : Monitor :=
  { m with syscalls := Function.update m.syscalls id count }

/-- `init_syscalls`: `memset` the array, then write the entries in order.  The
phase flag is not touched. -/
def initSyscalls (lang : Lang) (m : Monitor) : Monitor :=
  { m with
    syscalls := (syscallTable lang).foldl
      (fun syscalls entry => Function.update syscalls entry.1 entry.2)
      (fun id => if id < 1024 then 0 else m.syscalls id) }

/-- `is_valid_syscall`. -/
def isValidSyscall (syscallId : ℕ) (m : Monitor) : Bool × Monitor :=
  let m := { m with inSyscall := !m.inSyscall }
  if m.syscalls syscallId = 0 then
    (false, m)
  else if 0 < m.syscalls syscallId then
    if !m.inSyscall then
      (true, m.setQuota syscallId (m.syscalls syscallId - 1))
    else (true, m)
  else (true, m)

/-- The check `syscall_id > 0 && !is_valid_syscall(syscall_id)` that `judge`
makes at a stop; the answer is whether the stop is let through. -/
def checkStop (syscallId : ℤ) (m : Monitor) : Bool × Monitor :=
  if 0 < syscallId then isValidSyscall syscallId.toNat m else (true, m)

/-! ## Reduction to the ledger -/

/-- Only exhausted ids are rejected, and a use is charged at every second
checked stop. -/
theorem isValidSyscall_eq (syscallId : ℕ) (m : Monitor) :
    isValidSyscall syscallId m =
      (decide (m.syscalls syscallId ≠ 0),
        { syscalls := if m.inSyscall then Ledger.charge m.syscalls syscallId
            else m.syscalls
          inSyscall := !m.inSyscall }) := by
  rcases lt_trichotomy (m.syscalls syscallId) 0 with hneg | hzero | hpos
  · have hne : m.syscalls syscallId ≠ 0 := by omega
    have hnpos : ¬0 < m.syscalls syscallId := by omega
    simp [isValidSyscall, hne, hnpos, Ledger.charge]
  · simp [isValidSyscall, hzero, Ledger.charge]
  · have hne : m.syscalls syscallId ≠ 0 := by omega
    cases hphase : m.inSyscall with
    | false => simp [isValidSyscall, hne, hpos, hphase]
    | true => simp [isValidSyscall, hne, hpos, hphase, Ledger.charge, Monitor.setQuota]

@[simp] theorem checkStop_zero (m : Monitor) : checkStop 0 m = (true, m) := rfl

theorem checkStop_natCast {syscallId : ℕ} (h : 0 < syscallId) (m : Monitor) :
    checkStop syscallId m = isValidSyscall syscallId m := by
  simp [checkStop, h]

/-- A checked stop never raises a quota, and leaves an unlimited one alone. -/
theorem checkStop_syscalls (syscallId : ℤ) (m : Monitor) (id : ℕ) :
    (0 ≤ m.syscalls id →
      0 ≤ (checkStop syscallId m).2.syscalls id ∧
        (checkStop syscallId m).2.syscalls id ≤ m.syscalls id) ∧
    (m.syscalls id < 0 → (checkStop syscallId m).2.syscalls id = m.syscalls id) := by
  by_cases hchecked : 0 < syscallId
  · have hledger := Ledger.charge_bounds m.syscalls syscallId.toNat id
    rw [checkStop, if_pos hchecked, isValidSyscall_eq]
    cases m.inSyscall with
    | false => simp
    | true => simpa using hledger
  · rw [checkStop, if_neg hchecked]
    simp

/-! ## The table after `init_syscalls` -/

/-- The last entry for an id in a table, `0` if there is none. -/
def lastEntry (table : List (ℕ × ℤ)) (id : ℕ) : ℤ :=
  (table.reverse.lookup id).getD 0

theorem foldl_update_eq_lastEntry
    (table : List (ℕ × ℤ)) (start : ℕ → ℤ) (id : ℕ) :
    table.foldl (fun syscalls entry => Function.update syscalls entry.1 entry.2) start id =
      (table.reverse.lookup id).getD (start id) := by
  induction table using List.reverseRecOn with
  | nil => rfl
  | append_singleton table entry ih =>
      rw [List.foldl_append, List.foldl_cons, List.foldl_nil, List.reverse_append,
        List.reverse_singleton, List.singleton_append, List.lookup_cons]
      by_cases h : id = entry.1
      · simp [h]
      · rw [Function.update_of_ne h, ih, beq_false_of_ne h]

theorem initSyscalls_syscalls {lang : Lang} {m : Monitor} {id : ℕ} (h : id < 1024) :
    (initSyscalls lang m).syscalls id = lastEntry (syscallTable lang) id := by
  simp [initSyscalls, foldl_update_eq_lastEntry, lastEntry, h]

@[simp] theorem initSyscalls_inSyscall (lang : Lang) (m : Monitor) :
    (initSyscalls lang m).inSyscall = m.inSyscall := rfl

end PowerJudge
