import PowerJudge.Judge.Afresh

/-!
# The whitelist and the numbers it is asked about

`is_valid_syscall` indexes the table with any positive number.  The accesses it
makes are listed beside its result.  The check decides by the table exactly for
the numbers below its length; from there on it reads what lies behind.
-/

namespace PowerJudge

variable {sol : OjSolution} {c : TestCase} {r : Report} {p : Progress} {origRax : BitVec 64}

/-! ## Accesses -/

/-- An access to an element of `syscalls`. -/
inductive Access where
  | read (index : ℕ)
  | write (index : ℕ)
  deriving DecidableEq, Repr

def Access.index : Access → ℕ
  | .read index => index
  | .write index => index

/-- `is_valid_syscall` with its accesses to `syscalls`, in order. -/
def isValidSyscallLogged (syscallId : ℕ) (m : Monitor) : (Bool × Monitor) × List Access :=
  let m := { m with inSyscall := !m.inSyscall }
  if m.syscalls syscallId = 0 then ((false, m), [.read syscallId])
  else if 0 < m.syscalls syscallId then
    if !m.inSyscall then
      ((true, m.setQuota syscallId (m.syscalls syscallId - 1)),
        [.read syscallId, .read syscallId, .read syscallId, .write syscallId])
    else ((true, m), [.read syscallId, .read syscallId])
  else ((true, m), [.read syscallId, .read syscallId])

/-- Without the accesses it is `is_valid_syscall`. -/
theorem isValidSyscallLogged_fst (syscallId : ℕ) (m : Monitor) :
    (isValidSyscallLogged syscallId m).1 = isValidSyscall syscallId m := by
  unfold isValidSyscallLogged isValidSyscall
  dsimp only
  split_ifs <;> rfl

/-- The first access reads the element of the number, and no access is to any
other element. -/
theorem isValidSyscallLogged_accesses (syscallId : ℕ) (m : Monitor) :
    .read syscallId ∈ (isValidSyscallLogged syscallId m).2 ∧
      ∀ access ∈ (isValidSyscallLogged syscallId m).2, access.index = syscallId := by
  unfold isValidSyscallLogged
  dsimp only
  split_ifs <;> simp [Access.index]

/-- The accesses of the check in `judge`. -/
def checkAccesses (syscallId : ℤ) (m : Monitor) : List Access :=
  if 0 < syscallId then (isValidSyscallLogged syscallId.toNat m).2 else []

theorem checkAccesses_inside_iff (syscallId : ℤ) (m : Monitor) :
    (∀ access ∈ checkAccesses syscallId m, access.index < 1024) ↔ syscallId < 1024 := by
  unfold checkAccesses
  split_ifs with hchecked
  · obtain ⟨hread, hindex⟩ := isValidSyscallLogged_accesses syscallId.toNat m
    constructor
    · intro h
      have hlt := h _ hread
      rw [hindex _ hread] at hlt
      omega
    · intro h access haccess
      rw [hindex access haccess]
      omega
  · exact iff_of_true (by simp) (by omega)

/-! ## Numbers without an entry -/

/-- The monitors that a case of a language can have, from whatever monitor the
earlier cases left. -/
inductive Supervised (lang : Lang) : Monitor → Prop where
  | start (m : Monitor) : Supervised lang (initSyscalls lang m)
  | stop {m : Monitor} (h : Supervised lang m) (origRax : BitVec 64) :
      Supervised lang (checkStop (syscallIdOf origRax) m).2

/-- A number without an entry never gets a quota. -/
theorem Supervised.syscalls_eq_zero {lang : Lang} {m : Monitor} (h : Supervised lang m) {id : ℕ}
    (hid : id < 1024) (hentry : lastEntry (syscallTable lang) id = 0) : m.syscalls id = 0 := by
  induction h with
  | start m => rw [initSyscalls_syscalls hid, hentry]
  | @stop m h origRax ih =>
      have hquota := (checkStop_syscalls (syscallIdOf origRax) m id).1 (by omega)
      omega

theorem lastEntry_eq_zero_iff {lang : Lang} {id : ℕ} :
    lastEntry (syscallTable lang) id = 0 ↔ ∀ entry ∈ syscallTable lang, entry.1 ≠ id := by
  constructor
  · rintro hzero entry hentry rfl
    have hmem := lastEntry_mem hentry
    rw [hzero] at hmem
    rcases syscallTable_count lang _ hmem with hpos | hinfinite
    · exact lt_irrefl _ hpos
    · cases hinfinite
  · intro hnone
    rcases lastEntry_cases (syscallTable lang) id with hzero | hmem
    · exact hzero
    · exact (hnone _ hmem rfl).elim

/-! ## The check in `judge` -/

/-- The check stays inside the table, and rejects `number` if it is positive and
has no entry. -/
structure WhitelistDecides (sol : OjSolution) (c : TestCase) (r : Report) (p : Progress)
    (origRax : BitVec 64) (number : ℤ) : Prop where
  inside : ∀ access ∈ checkAccesses (syscallIdOf origRax) p.monitor, access.index < 1024
  rejected : 0 < number → (∀ entry ∈ syscallTable sol.lang, (entry.1 : ℤ) ≠ number) →
    ∃ p', onReport sol c r p = .returned (.leave p') ∧ p'.result = .rf

/-- A stop of `SIGTRAP` below the memory limit is rejected as the monitor says. -/
theorem onReport_rejects_iff (hstop : r.status.ifStopped) (htrap : r.status.stopSig = sigTrap)
    (hregs : r.origRax = some origRax)
    (hmemory : max p.memoryUsage r.rusage.maxrss ≤ sol.memoryLimit) :
    (∃ p', onReport sol c r p = .returned (.leave p') ∧ p'.result = .rf) ↔
      0 < syscallIdOf origRax ∧ p.monitor.syscalls (syscallIdOf origRax).toNat = 0 := by
  have hsignal : fatalSignal r.status = none := by
    simp [fatalSignal, WaitStatus.not_ifSignaled_of_ifStopped hstop, htrap]
  have hrax : checkedRax sol r p = some origRax := by
    simp [checkedRax, WaitStatus.not_ifExited_of_ifStopped hstop, hsignal, Nat.not_lt.mpr hmemory,
      hregs]
  have hdecision : (checkStop (syscallIdOf origRax) p.monitor).1 = false ↔
      0 < syscallIdOf origRax ∧ p.monitor.syscalls (syscallIdOf origRax).toNat = 0 := by
    unfold checkStop
    split_ifs with hchecked
    · simp [isValidSyscall_accepts, hchecked]
    · simp [hchecked]
  rw [(onReport_of_checkedRax hrax).1, stopBranch_of_memory_le hmemory hregs, ← hdecision]
  cases (checkStop (syscallIdOf origRax) p.monitor).1 with
  | false => simp
  | true => cases r.resumes <;> simp

/-- A number that fits an `int` is the number the check uses. -/
theorem syscallIdOf_eq_toInt (h : -2 ^ 31 ≤ origRax.toInt) (hlt : origRax.toInt < 2 ^ 31) :
    syscallIdOf origRax = origRax.toInt := by
  have hnat := BitVec.toInt_eq_toNat_cond origRax
  rw [syscallIdOf, BitVec.toInt_setWidth, Int.bmod_def]
  split at hnat
  · split <;> omega
  · split <;> omega

/-- A number without an entry, below the length of the table, is rejected. -/
theorem rejects_of_no_entry (hstop : r.status.ifStopped) (htrap : r.status.stopSig = sigTrap)
    (hregs : r.origRax = some origRax)
    (hmemory : max p.memoryUsage r.rusage.maxrss ≤ sol.memoryLimit)
    (hmonitor : Supervised sol.lang p.monitor)
    (hpos : 0 < syscallIdOf origRax) (hlt : syscallIdOf origRax < 1024)
    (hentry : ∀ entry ∈ syscallTable sol.lang, (entry.1 : ℤ) ≠ syscallIdOf origRax) :
    ∃ p', onReport sol c r p = .returned (.leave p') ∧ p'.result = .rf := by
  rw [onReport_rejects_iff hstop htrap hregs hmemory]
  refine ⟨hpos, hmonitor.syscalls_eq_zero (by omega) ?_⟩
  rw [lastEntry_eq_zero_iff]
  intro entry hmem
  have hne := hentry entry hmem
  omega

/-- The whitelist decides exactly for the numbers that index the table, when the
number is the `int` that the check uses.  When it is the register itself, what
does not fit an `int` must in addition fall on an exhausted number. -/
theorem whitelist_decides_iff
    (hstop : r.status.ifStopped) (htrap : r.status.stopSig = sigTrap)
    (hregs : r.origRax = some origRax)
    (hmemory : max p.memoryUsage r.rusage.maxrss ≤ sol.memoryLimit)
    (hmonitor : Supervised sol.lang p.monitor) :
    (WhitelistDecides sol c r p origRax (syscallIdOf origRax) ↔ syscallIdOf origRax < 1024) ∧
    (WhitelistDecides sol c r p origRax origRax.toInt ↔
      syscallIdOf origRax < 1024 ∧
        (origRax.toInt < 2 ^ 31 ∨
          0 < syscallIdOf origRax ∧ p.monitor.syscalls (syscallIdOf origRax).toNat = 0)) := by
  have hinside := checkAccesses_inside_iff (syscallIdOf origRax) p.monitor
  have hrejects := onReport_rejects_iff (c := c) hstop htrap hregs hmemory
  have hnoEntry := rejects_of_no_entry (c := c) hstop htrap hregs hmemory hmonitor
  refine ⟨⟨?_, ?_⟩, ⟨?_, ?_⟩⟩
  · intro h
    exact hinside.mp h.inside
  · intro hlt
    exact ⟨hinside.mpr hlt, fun hpos hentry => hnoEntry hpos hlt hentry⟩
  · intro h
    refine ⟨hinside.mp h.inside, ?_⟩
    by_cases hfits : origRax.toInt < 2 ^ 31
    · exact Or.inl hfits
    · refine Or.inr (hrejects.mp (h.rejected (by omega) ?_))
      intro entry hmem
      have hsmall := syscallTable_id_lt sol.lang entry hmem
      omega
  · rintro ⟨hlt, hfits | hexhausted⟩
    · refine ⟨hinside.mpr hlt, ?_⟩
      intro hpos
      have hsame : syscallIdOf origRax = origRax.toInt :=
        syscallIdOf_eq_toInt (by omega) hfits
      rw [← hsame] at hpos ⊢
      exact fun hentry => hnoEntry hpos hlt hentry
    · exact ⟨hinside.mpr hlt, fun _ _ => hrejects.mpr hexhausted⟩

/-- A `SIGTRAP` stop with a given number. -/
def Report.syscallStop (origRax : BitVec 64) : Report :=
  { Report.idle (.ofStop sigTrap) with origRax := some origRax }

/-- `getpid` has no entry for C. -/
theorem whitelist_decides_iff_getpid :
    (WhitelistDecides (.init .c11) (.quiet [] []) (.syscallStop 39)
        (startCase (.init .c11) .start) 39 (syscallIdOf 39) ↔ syscallIdOf 39 < 1024) ∧
      (WhitelistDecides (.init .c11) (.quiet [] []) (.syscallStop 39)
          (startCase (.init .c11) .start) 39 (39 : BitVec 64).toInt ↔
        syscallIdOf 39 < 1024 ∧
          ((39 : BitVec 64).toInt < 2 ^ 31 ∨
            0 < syscallIdOf 39 ∧
              (startCase (.init .c11) .start).monitor.syscalls (syscallIdOf 39).toNat = 0)) :=
  whitelist_decides_iff (by decide) (by decide) rfl (by decide) (.start _)

/-- The number 5000 reads behind the table, and where the `int` there is positive
it is let through and decremented. -/
theorem whitelist_reads_behind :
    .read 5000 ∈ checkAccesses (syscallIdOf 5000) (initSyscalls .c11 .programStart) ∧
      (checkStop (syscallIdOf 5000) (initSyscalls .c11 ⟨fun _ => 1, true⟩)).1 = true ∧
      (checkStop (syscallIdOf 5000) (initSyscalls .c11 ⟨fun _ => 1, true⟩)).2.syscalls 5000 = 0 := by
  decide

end PowerJudge
