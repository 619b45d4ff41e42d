import PowerJudge.Syscalls.Monitor

/-!
# The monitor enforces the table of the language

A single-threaded program shows the judge one stop for its `execve` and then an
enter stop and an exit stop for every call.  The monitor is compared with the
ledger of the language's table: the enter stop of the first overdraft is the
first stop it rejects.
-/

namespace PowerJudge

/-- Position of the first rejected stop. -/
def firstRejected : Monitor → List ℤ → Option ℕ
  | _, [] => none
  | m, syscallId :: rest =>
      if (checkStop syscallId m).1 then
        (firstRejected (checkStop syscallId m).2 rest).map (· + 1)
      else some 0

/-- The enter stop and the exit stop of every call, in order. -/
def callStops : List ℕ → List ℤ
  | [] => []
  | id :: calls => (id : ℤ) :: (id : ℤ) :: callStops calls

/-- The stops of a program: its `execve`, then its calls. -/
def programStops (calls : List ℕ) : List ℤ :=
  (sysExecve : ℤ) :: callStops calls

/-- The ledger a program of a language has after its own `execve`.  `judge` does
not check id 0. -/
def quota (lang : Lang) : Ledger ℕ := fun id =>
  let entry := lastEntry (syscallTable lang) id
  if id = 0 then syscallsInfinite
  else if id = sysExecve ∧ 0 < entry then entry - 1
  else entry

/-! ## One call -/

/-- The ledger a monitor stands for between two calls. -/
def Monitor.allowance (m : Monitor) : Ledger ℕ :=
  Function.update m.syscalls 0 syscallsInfinite

/-- The monitor after a call of `id` that was let through. -/
def Monitor.afterCall (m : Monitor) (id : ℕ) : Monitor :=
  if id = 0 then m else { m with syscalls := Ledger.charge m.syscalls id }

@[simp] theorem Monitor.afterCall_inSyscall (m : Monitor) (id : ℕ) :
    (m.afterCall id).inSyscall = m.inSyscall := by
  unfold Monitor.afterCall
  split <;> rfl

theorem Monitor.afterCall_syscalls {m : Monitor} {id : ℕ} (h : id ≠ 0) :
    (m.afterCall id).syscalls = Ledger.charge m.syscalls id := by
  rw [Monitor.afterCall, if_neg h]

theorem Monitor.allowance_zero (m : Monitor) : m.allowance 0 = syscallsInfinite :=
  Function.update_self _ _ _

theorem Monitor.allowance_of_pos {m : Monitor} {id : ℕ} (h : id ≠ 0) :
    m.allowance id = m.syscalls id :=
  Function.update_of_ne h _ _

theorem Monitor.allowance_afterCall (m : Monitor) (id : ℕ) :
    (m.afterCall id).allowance = m.allowance.charge id := by
  by_cases hid : id = 0
  · subst hid
    have hneg : m.allowance 0 < 0 := by
      rw [m.allowance_zero]
      decide
    rw [Ledger.charge_of_neg hneg]
    simp [Monitor.afterCall]
  · funext other
    by_cases hother : other = 0
    · subst hother
      rw [Ledger.charge_of_ne (Ne.symm hid), Monitor.allowance_zero,
        Monitor.allowance_zero]
    · rw [Monitor.allowance_of_pos hother, Monitor.afterCall_syscalls hid]
      by_cases h : other = id
      · subst h
        simp only [Ledger.charge, Monitor.allowance_of_pos hother]
        split
        · simp
        · rw [Monitor.allowance_of_pos hother]
      · rw [Ledger.charge_of_ne h, Ledger.charge_of_ne h,
          Monitor.allowance_of_pos hother]

/-- Between two calls the phase flag is down: an exhausted id is rejected at its
enter stop, and every other call is charged at its exit stop. -/
theorem firstRejected_call
    {m : Monitor} (hphase : m.inSyscall = false) (id : ℕ) (rest : List ℤ) :
    firstRejected m ((id : ℤ) :: (id : ℤ) :: rest) =
      if m.allowance id = 0 then some 0
      else (firstRejected (m.afterCall id) rest).map (· + 2) := by
  rcases Nat.eq_zero_or_pos id with rfl | hid
  · have hne : m.allowance 0 ≠ 0 := by
      rw [m.allowance_zero]
      decide
    rw [if_neg hne]
    simp [firstRejected, Monitor.afterCall, Option.map_map, Function.comp_def]
  · rw [Monitor.allowance_of_pos (by omega)]
    by_cases hzero : m.syscalls id = 0
    · simp [firstRejected, checkStop_natCast hid, isValidSyscall_eq, hzero]
    · have hafter : m.afterCall id =
          { syscalls := Ledger.charge m.syscalls id, inSyscall := false } := by
        rw [Monitor.afterCall, if_neg (by omega), ← hphase]
      rw [if_neg hzero, hafter]
      simp [firstRejected, checkStop_natCast hid, isValidSyscall_eq, hzero, hphase,
        Option.map_map, Function.comp_def]

/-! ## A run of calls -/

/-- Between two calls the next rejected stop is the enter stop of the next
overdraft. -/
theorem firstRejected_callStops
    {m : Monitor} (hphase : m.inSyscall = false) (calls : List ℕ) (n : ℕ) :
    firstRejected m (callStops calls) = some n ↔
      ∃ i, n = 2 * i ∧ m.allowance.FirstOverdraft calls i := by
  induction calls generalizing m n with
  | nil =>
      constructor
      · intro h
        cases h
      · rintro ⟨i, -, hover, -⟩
        exact (Ledger.not_overdrawn_nil _ _ hover).elim
  | cons id calls ih =>
      rw [callStops, firstRejected_call hphase]
      by_cases hzero : m.allowance id = 0
      · rw [if_pos hzero]
        constructor
        · intro h
          exact ⟨0, by simpa using h.symm, Ledger.firstOverdraft_zero_iff.mpr hzero⟩
        · rintro ⟨i, rfl, hover, hfirst⟩
          cases i with
          | zero => rfl
          | succ i =>
              exact (hfirst 0 (by omega) (Ledger.overdrawn_zero_iff.mpr hzero)).elim
      · rw [if_neg hzero, Option.map_eq_some_iff]
        have ih' := fun k => @ih (m.afterCall id) (by simpa using hphase) k
        simp only [ih', Monitor.allowance_afterCall]
        constructor
        · rintro ⟨k, ⟨i, rfl, hover⟩, rfl⟩
          exact ⟨i + 1, by omega, (Ledger.firstOverdraft_succ_iff hzero).mpr hover⟩
        · rintro ⟨i, rfl, hover⟩
          cases i with
          | zero => exact (hzero (Ledger.firstOverdraft_zero_iff.mp hover)).elim
          | succ i =>
              exact ⟨2 * i, ⟨i, rfl, (Ledger.firstOverdraft_succ_iff hzero).mp hover⟩,
                by omega⟩

/-! ## From program start -/

theorem lastEntry_execve_ne_zero (lang : Lang) :
    lastEntry (syscallTable lang) sysExecve ≠ 0 := by
  cases lang <;> decide

/-- The monitor once the stop of the program's `execve` was checked. -/
def Monitor.afterExecve (lang : Lang) (m : Monitor) : Monitor :=
  { syscalls := Ledger.charge (initSyscalls lang m).syscalls sysExecve
    inSyscall := false }

theorem firstRejected_programStops
    (lang : Lang) {m : Monitor} (hphase : m.inSyscall = true) (calls : List ℕ) :
    firstRejected (initSyscalls lang m) (programStops calls) =
      (firstRejected (Monitor.afterExecve lang m) (callStops calls)).map (· + 1) := by
  have hexecve : 0 < sysExecve := by decide
  have hentry : (initSyscalls lang m).syscalls sysExecve ≠ 0 := by
    rw [initSyscalls_syscalls (by decide)]
    exact lastEntry_execve_ne_zero lang
  simp [programStops, firstRejected, checkStop_natCast hexecve, isValidSyscall_eq,
    hentry, hphase, Monitor.afterExecve]

theorem allowance_afterExecve
    (lang : Lang) (m : Monitor) {id : ℕ} (hid : id < 1024) :
    (Monitor.afterExecve lang m).allowance id = quota lang id := by
  by_cases hzero : id = 0
  · subst hzero
    rw [Monitor.allowance_zero]
    simp [quota]
  · rw [Monitor.allowance_of_pos hzero]
    change Ledger.charge (initSyscalls lang m).syscalls sysExecve id = _
    by_cases hexecve : id = sysExecve
    · subst hexecve
      simp only [quota, hzero, Ledger.charge, initSyscalls_syscalls hid, if_false,
        true_and]
      split
      · simp
      · exact initSyscalls_syscalls hid
    · rw [Ledger.charge_of_ne hexecve, initSyscalls_syscalls hid]
      simp [quota, hzero, hexecve]

/-- From program start, whatever lies behind the array, the first rejected stop
is the enter stop of the first call of a limited id whose quota is spent.  Stop
`2 * i + 1` is the enter stop of call `i` and stop `2 * i + 2` its exit stop, so
no exit stop is rejected, and neither is an unlimited id or id 0. -/
theorem monitor_enforces_quota
    (lang : Lang) (behind : ℕ → ℤ) (calls : List ℕ)
    (hcalls : ∀ id ∈ calls, id < 1024) (n : ℕ) :
    firstRejected (initSyscalls lang { syscalls := behind, inSyscall := true })
        (programStops calls) = some n ↔
      ∃ i, n = 2 * i + 1 ∧ (quota lang).FirstOverdraft calls i := by
  rw [firstRejected_programStops lang rfl, Option.map_eq_some_iff]
  simp only [firstRejected_callStops
    (m := Monitor.afterExecve lang { syscalls := behind, inSyscall := true }) rfl]
  have hledger : ∀ i,
      (Monitor.afterExecve lang { syscalls := behind, inSyscall := true }).allowance.FirstOverdraft
        calls i ↔ (quota lang).FirstOverdraft calls i := by
    intro i
    apply Ledger.firstOverdraft_congr
    intro id hid
    exact allowance_afterExecve lang _ (hcalls id hid)
  constructor
  · rintro ⟨k, ⟨i, rfl, hover⟩, rfl⟩
    exact ⟨i, rfl, (hledger i).mp hover⟩
  · rintro ⟨i, rfl, hover⟩
    exact ⟨2 * i, ⟨i, rfl, (hledger i).mpr hover⟩, rfl⟩

/-- A C program may call `uname` once. -/
theorem monitor_enforces_quota_uname :
    firstRejected (initSyscalls .c11 { syscalls := fun _ => 0, inSyscall := true })
        (programStops [sysUname, sysRead, sysUname]) = some 5 ↔
      ∃ i, 5 = 2 * i + 1 ∧
        (quota .c11).FirstOverdraft [sysUname, sysRead, sysUname] i :=
  monitor_enforces_quota .c11 (fun _ => 0) [sysUname, sysRead, sysUname] (by decide) 5

end PowerJudge
