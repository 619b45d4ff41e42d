import Mathlib.Algebra.Group.Nat.Defs
import PowerJudge.Syscalls.Monitor

/-!
# Decisions on a sequence of stops

The decisions that `is_valid_syscall` takes on the stops of a case, up to the
first rejection.  Alike monitors, in which every number has the same quota and a
quota that is not exhausted is charged in the same phase, take the same
decisions; a number that is not alike is told apart by its repetition.
-/

namespace PowerJudge

/-- Check stops until one is rejected: the decisions of `is_valid_syscall`, and
the monitor after them. -/
def decideStops : Monitor → List ℤ → List Bool × Monitor
  | m, [] => ([], m)
  | m, syscallId :: rest =>
      if 0 < syscallId then
        let checked := checkStop syscallId m
        if checked.1 then
          let later := decideStops checked.2 rest
          (true :: later.1, later.2)
        else ([false], checked.2)
      else decideStops m rest

variable {m m' : Monitor}

theorem decideStops_cons_unchecked {syscallId : ℤ} (h : ¬0 < syscallId) (rest : List ℤ) :
    decideStops m (syscallId :: rest) = decideStops m rest := by
  rw [decideStops, if_neg h]

theorem decideStops_cons_accepted {syscallId : ℤ} (h : 0 < syscallId)
    (haccepted : (checkStop syscallId m).1 = true) (rest : List ℤ) :
    decideStops m (syscallId :: rest) =
      (true :: (decideStops (checkStop syscallId m).2 rest).1,
        (decideStops (checkStop syscallId m).2 rest).2) := by
  rw [decideStops, if_pos h]
  simp only [haccepted, if_true]

theorem decideStops_cons_rejected {syscallId : ℤ} (h : 0 < syscallId)
    (hrejected : (checkStop syscallId m).1 = false) (rest : List ℤ) :
    decideStops m (syscallId :: rest) = ([false], (checkStop syscallId m).2) := by
  rw [decideStops, if_pos h]
  simp [hrejected]

/-- The monitor after a stop that is let through, checked or not. -/
theorem decideStops_monitor_of_accepted {syscallId : ℤ}
    (haccepted : (checkStop syscallId m).1 = true) (rest : List ℤ) :
    (decideStops m (syscallId :: rest)).2 = (decideStops (checkStop syscallId m).2 rest).2 := by
  by_cases h : 0 < syscallId
  · rw [decideStops_cons_accepted h haccepted]
  · rw [decideStops_cons_unchecked h, checkStop, if_neg h]

theorem decideStops_monitor_of_rejected {syscallId : ℤ}
    (hrejected : (checkStop syscallId m).1 = false) (rest : List ℤ) :
    (decideStops m (syscallId :: rest)).2 = (checkStop syscallId m).2 := by
  by_cases h : 0 < syscallId
  · rw [decideStops_cons_rejected h hrejected]
  · rw [checkStop, if_neg h] at hrejected
    cases hrejected

/-- Every decision toggles the phase flag. -/
theorem decideStops_inSyscall (m : Monitor) (stops : List ℤ) :
    (decideStops m stops).2.inSyscall =
      (m.inSyscall ^^ decide ((decideStops m stops).1.length % 2 = 1)) := by
  induction stops generalizing m with
  | nil => simp [decideStops]
  | cons syscallId rest ih =>
      by_cases hchecked : 0 < syscallId
      · have htoggle : (checkStop syscallId m).2.inSyscall = !m.inSyscall := by
          rw [checkStop, if_pos hchecked, isValidSyscall_eq]
        cases hdecision : (checkStop syscallId m).1 with
        | true =>
            have hparity : ∀ n : ℕ, decide ((n + 1) % 2 = 1) = !decide (n % 2 = 1) := by
              intro n
              rw [← decide_not, decide_eq_decide]
              omega
            rw [decideStops_cons_accepted hchecked hdecision, ih, htoggle, List.length_cons,
              hparity, Bool.not_xor, Bool.xor_not]
        | false =>
            rw [decideStops_cons_rejected hchecked hdecision, htoggle]
            simp
      · rw [decideStops_cons_unchecked hchecked]
        exact ih m

/-! ## Monitors that are alike -/

/-- Quotas that no sequence of stops with their number tells apart, in phases
that may differ: both are unlimited, or they are equal and exhausted or charged
in the same phase. -/
def AlikeQuotas (phase phase' : Bool) (quota quota' : ℤ) : Prop :=
  (quota < 0 ∧ quota' < 0) ∨ (quota = quota' ∧ (quota = 0 ∨ phase = phase'))

/-- Monitors with alike quotas for every number that can be checked. -/
def Monitor.Alike (m m' : Monitor) : Prop :=
  ∀ id : ℕ, 0 < id → id < 2 ^ 31 →
    AlikeQuotas m.inSyscall m'.inSyscall (m.syscalls id) (m'.syscalls id)

theorem AlikeQuotas.eq_zero_iff {phase phase' : Bool} {quota quota' : ℤ}
    (h : AlikeQuotas phase phase' quota quota') : quota = 0 ↔ quota' = 0 := by
  rcases h with ⟨hneg, hneg'⟩ | ⟨rfl, -⟩
  · omega
  · rfl

/-- A quota after a stop with its own number. -/
def ownStop (phase : Bool) (quota : ℤ) : ℤ :=
  if phase = true ∧ 0 < quota then quota - 1 else quota

theorem isValidSyscall_syscalls_self (id : ℕ) (m : Monitor) :
    (isValidSyscall id m).2.syscalls id = ownStop m.inSyscall (m.syscalls id) := by
  rw [isValidSyscall_eq, ownStop]
  cases hphase : m.inSyscall with
  | false => simp
  | true =>
      by_cases hpos : 0 < m.syscalls id
      · simp [hpos, Ledger.charge_self]
      · simp [hpos, Ledger.charge]

theorem isValidSyscall_syscalls_of_ne {syscallId id : ℕ} (h : id ≠ syscallId) (m : Monitor) :
    (isValidSyscall syscallId m).2.syscalls id = m.syscalls id := by
  rw [isValidSyscall_eq]
  cases m.inSyscall with
  | false => rfl
  | true => exact Ledger.charge_of_ne h

@[simp] theorem isValidSyscall_inSyscall (id : ℕ) (m : Monitor) :
    (isValidSyscall id m).2.inSyscall = !m.inSyscall := by
  rw [isValidSyscall_eq]

theorem isValidSyscall_accepts (id : ℕ) (m : Monitor) :
    (isValidSyscall id m).1 = decide (m.syscalls id ≠ 0) := by
  rw [isValidSyscall_eq]

theorem AlikeQuotas.not_phases {phase phase' : Bool} {quota quota' : ℤ}
    (h : AlikeQuotas phase phase' quota quota') : AlikeQuotas (!phase) (!phase') quota quota' := by
  rcases h with hneg | ⟨rfl, hzero | rfl⟩
  · exact Or.inl hneg
  · exact Or.inr ⟨rfl, Or.inl hzero⟩
  · exact Or.inr ⟨rfl, Or.inr rfl⟩

theorem AlikeQuotas.afterStop {phase phase' : Bool} {quota quota' : ℤ}
    (h : AlikeQuotas phase phase' quota quota') :
    AlikeQuotas (!phase) (!phase') (ownStop phase quota) (ownStop phase' quota') := by
  rcases h with ⟨hneg, hneg'⟩ | ⟨rfl, rfl | rfl⟩
  · refine Or.inl ⟨?_, ?_⟩
    · simp [ownStop, hneg, Int.not_lt.mpr hneg.le]
    · simp [ownStop, hneg', Int.not_lt.mpr hneg'.le]
  · exact Or.inr ⟨by simp [ownStop], Or.inl (by simp [ownStop])⟩
  · exact Or.inr ⟨rfl, Or.inr rfl⟩

/-- A checked stop keeps monitors alike. -/
theorem Monitor.Alike.afterStop (h : m.Alike m') (syscallId : ℕ) :
    (isValidSyscall syscallId m).2.Alike (isValidSyscall syscallId m').2 := by
  intro id hpos hlt
  rw [isValidSyscall_inSyscall, isValidSyscall_inSyscall]
  by_cases hid : id = syscallId
  · subst hid
    rw [isValidSyscall_syscalls_self, isValidSyscall_syscalls_self]
    exact (h id hpos hlt).afterStop
  · rw [isValidSyscall_syscalls_of_ne hid, isValidSyscall_syscalls_of_ne hid]
    exact (h id hpos hlt).not_phases

/-- A stop whose number has alike quotas leaves equal quotas equal. -/
theorem AlikeQuotas.syscalls_eq {syscallId id : ℕ}
    (h : AlikeQuotas m.inSyscall m'.inSyscall (m.syscalls syscallId) (m'.syscalls syscallId))
    (heq : m.syscalls id = m'.syscalls id) :
    (isValidSyscall syscallId m).2.syscalls id = (isValidSyscall syscallId m').2.syscalls id := by
  by_cases hid : id = syscallId
  · subst hid
    rw [isValidSyscall_syscalls_self, isValidSyscall_syscalls_self, ← heq]
    rw [← heq] at h
    rcases h with ⟨hneg, -⟩ | ⟨-, hzero | hphase⟩
    · simp [ownStop, Int.not_lt.mpr hneg.le]
    · simp [ownStop, hzero]
    · rw [hphase]
  · rw [isValidSyscall_syscalls_of_ne hid, isValidSyscall_syscalls_of_ne hid, heq]

/-- Alike monitors take the same decisions and keep equal quotas equal. -/
theorem Monitor.Alike.decideStops_eq (h : m.Alike m') {stops : List ℤ}
    (hstops : ∀ syscallId ∈ stops, syscallId < 2 ^ 31) :
    (decideStops m stops).1 = (decideStops m' stops).1 ∧
      ∀ id, m.syscalls id = m'.syscalls id →
        (decideStops m stops).2.syscalls id = (decideStops m' stops).2.syscalls id := by
  induction stops generalizing m m' with
  | nil => exact ⟨rfl, fun _ heq => heq⟩
  | cons syscallId rest ih =>
      have hrest : ∀ later ∈ rest, later < 2 ^ 31 :=
        fun later hlater => hstops later (List.mem_cons_of_mem _ hlater)
      by_cases hchecked : 0 < syscallId
      · obtain ⟨id, rfl⟩ := Int.eq_ofNat_of_zero_le hchecked.le
        have hpos : 0 < id := by omega
        have hlt : id < 2 ^ 31 := by
          have hbound := hstops id List.mem_cons_self
          omega
        have hquotas := h id hpos hlt
        have hcheck : ∀ m : Monitor, checkStop (id : ℤ) m = isValidSyscall id m :=
          checkStop_natCast hpos
        have hdecision : (isValidSyscall id m).1 = (isValidSyscall id m').1 := by
          rw [isValidSyscall_accepts, isValidSyscall_accepts, decide_eq_decide, not_iff_not]
          exact hquotas.eq_zero_iff
        cases haccepted : (isValidSyscall id m').1 with
        | true =>
            rw [decideStops_cons_accepted hchecked (by rw [hcheck, hdecision, haccepted]),
              decideStops_cons_accepted hchecked (by rw [hcheck, haccepted]), hcheck, hcheck]
            obtain ⟨hdecisions, hremaining⟩ := ih (h.afterStop id) hrest
            refine ⟨by rw [hdecisions], ?_⟩
            intro other heq
            exact hremaining other (hquotas.syscalls_eq heq)
        | false =>
            rw [decideStops_cons_rejected hchecked (by rw [hcheck, hdecision, haccepted]),
              decideStops_cons_rejected hchecked (by rw [hcheck, haccepted]), hcheck, hcheck]
            exact ⟨rfl, fun other heq => hquotas.syscalls_eq heq⟩
      · rw [decideStops_cons_unchecked hchecked, decideStops_cons_unchecked hchecked]
        exact ih h hrest

/-! ## Telling monitors apart -/

/-- How many stops with one number are accepted. -/
def stopsLeft (phase : Bool) (quota : ℤ) : ℕ :=
  if quota = 0 then 0 else 2 * quota.toNat - if phase then 1 else 0

theorem stopsLeft_ownStop {phase : Bool} {quota : ℤ} (h : 0 < quota) :
    stopsLeft phase quota = stopsLeft (!phase) (ownStop phase quota) + 1 := by
  have hne : quota ≠ 0 := by omega
  cases phase with
  | false =>
      simp only [stopsLeft, ownStop, hne, if_false, Bool.not_false, if_true,
        Bool.false_eq_true, false_and]
      omega
  | true =>
      simp only [stopsLeft, ownStop, hne, h, if_false, Bool.not_true, if_true,
        Bool.false_eq_true, and_self]
      split
      · omega
      · omega

/-- The decisions on a number that keeps coming. -/
theorem decideStops_replicate {id : ℕ} (hid : 0 < id) (hquota : 0 ≤ m.syscalls id) (k : ℕ) :
    (decideStops m (List.replicate k (id : ℤ))).1 =
      if k ≤ stopsLeft m.inSyscall (m.syscalls id) then List.replicate k true
      else List.replicate (stopsLeft m.inSyscall (m.syscalls id)) true ++ [false] := by
  induction k generalizing m with
  | zero => simp [decideStops]
  | succ k ih =>
      have hchecked : 0 < (id : ℤ) := by omega
      have haccepts : (checkStop (id : ℤ) m).1 = decide (m.syscalls id ≠ 0) := by
        rw [checkStop_natCast hid, isValidSyscall_accepts]
      rw [List.replicate_succ]
      by_cases hzero : m.syscalls id = 0
      · rw [decideStops_cons_rejected hchecked (by simp [haccepts, hzero])]
        simp [stopsLeft, hzero]
      · have hpos : 0 < m.syscalls id := by omega
        have hquota' : 0 ≤ ownStop m.inSyscall (m.syscalls id) := by
          unfold ownStop
          split <;> omega
        rw [decideStops_cons_accepted hchecked (by simp [haccepts, hzero]),
          checkStop_natCast hid, ih (by rwa [isValidSyscall_syscalls_self]),
          isValidSyscall_inSyscall, isValidSyscall_syscalls_self, stopsLeft_ownStop hpos]
        by_cases hle : k ≤ stopsLeft (!m.inSyscall) (ownStop m.inSyscall (m.syscalls id))
        · simp [hle, List.replicate_succ]
        · simp [hle, List.replicate_succ]

theorem decideStops_replicate_unlimited {id : ℕ} (hid : 0 < id) (hquota : m.syscalls id < 0)
    (k : ℕ) : (decideStops m (List.replicate k (id : ℤ))).1 = List.replicate k true := by
  induction k generalizing m with
  | zero => rfl
  | succ k ih =>
      have hchecked : 0 < (id : ℤ) := by omega
      have hsame : (isValidSyscall id m).2.syscalls id = m.syscalls id := by
        rw [isValidSyscall_syscalls_self, ownStop, if_neg (by omega)]
      have haccepts : (checkStop (id : ℤ) m).1 = true := by
        rw [checkStop_natCast hid, isValidSyscall_accepts, decide_eq_true_iff]
        omega
      rw [List.replicate_succ, decideStops_cons_accepted hchecked haccepts,
        checkStop_natCast hid, ih (by rwa [hsame]), ← List.replicate_succ]

theorem stopsLeft_eq_iff {phase phase' : Bool} {quota quota' : ℤ} (h : 0 ≤ quota)
    (h' : 0 ≤ quota') :
    stopsLeft phase quota = stopsLeft phase' quota' ↔
      AlikeQuotas phase phase' quota quota' := by
  unfold stopsLeft AlikeQuotas
  cases phase <;> cases phase' <;> simp <;> split <;> split <;> omega

/-- A limited number is rejected in the end. -/
theorem false_mem_decideStops {id : ℕ} (hid : 0 < id) (hquota : 0 ≤ m.syscalls id) :
    false ∈ (decideStops m (List.replicate
      (stopsLeft m.inSyscall (m.syscalls id) + 1) (id : ℤ))).1 := by
  rw [decideStops_replicate hid hquota, if_neg (by omega)]
  simp

theorem false_not_mem_decideStops {id : ℕ} (hid : 0 < id) (hquota : m.syscalls id < 0) (k : ℕ) :
    false ∉ (decideStops m (List.replicate k (id : ℤ))).1 := by
  rw [decideStops_replicate_unlimited hid hquota]
  simp

/-- Numbers whose repetition is never told apart have alike quotas. -/
theorem alikeQuotas_of_decisions {id : ℕ} (hid : 0 < id)
    (h : ∀ k, (decideStops m (List.replicate k (id : ℤ))).1 =
      (decideStops m' (List.replicate k (id : ℤ))).1) :
    AlikeQuotas m.inSyscall m'.inSyscall (m.syscalls id) (m'.syscalls id) := by
  by_cases hquota : m.syscalls id < 0
  · by_cases hquota' : m'.syscalls id < 0
    · exact Or.inl ⟨hquota, hquota'⟩
    · have hmem := false_mem_decideStops hid (Int.not_lt.mp hquota')
      rw [← h] at hmem
      exact (false_not_mem_decideStops hid hquota _ hmem).elim
  · by_cases hquota' : m'.syscalls id < 0
    · have hmem := false_mem_decideStops hid (Int.not_lt.mp hquota)
      rw [h] at hmem
      exact (false_not_mem_decideStops hid hquota' _ hmem).elim
    · rw [← stopsLeft_eq_iff (Int.not_lt.mp hquota) (Int.not_lt.mp hquota')]
      have hlong := h (stopsLeft m.inSyscall (m.syscalls id) +
        stopsLeft m'.inSyscall (m'.syscalls id) + 1)
      rw [decideStops_replicate hid (Int.not_lt.mp hquota),
        decideStops_replicate hid (Int.not_lt.mp hquota'), if_neg (by omega),
        if_neg (by omega)] at hlong
      simpa using congrArg List.length hlong

/-! ## After `init_syscalls` -/

theorem mem_of_lookup_reverse {table : List (ℕ × ℤ)} {id : ℕ} {count : ℤ}
    (h : table.reverse.lookup id = some count) : (id, count) ∈ table := by
  obtain ⟨before, after, hsplit, -⟩ := List.lookup_eq_some_iff.mp h
  rw [← List.mem_reverse, hsplit]
  simp

/-- An id has no entry, or the last of its entries counts. -/
theorem lastEntry_cases (table : List (ℕ × ℤ)) (id : ℕ) :
    lastEntry table id = 0 ∨ (id, lastEntry table id) ∈ table := by
  unfold lastEntry
  cases hlookup : table.reverse.lookup id with
  | none => exact Or.inl rfl
  | some count => exact Or.inr (mem_of_lookup_reverse hlookup)

theorem lastEntry_mem {table : List (ℕ × ℤ)} {entry : ℕ × ℤ} (h : entry ∈ table) :
    (entry.1, lastEntry table entry.1) ∈ table := by
  unfold lastEntry
  cases hlookup : table.reverse.lookup entry.1 with
  | none =>
      have hne := List.lookup_eq_none_iff.mp hlookup entry (List.mem_reverse.mpr h)
      simp at hne
  | some count => exact mem_of_lookup_reverse hlookup

theorem initSyscalls_syscalls_of_ge {lang : Lang} {id : ℕ} (h : 1024 ≤ id) :
    (initSyscalls lang m).syscalls id = m.syscalls id := by
  have hnone : (syscallTable lang).reverse.lookup id = none := by
    rw [List.lookup_eq_none_iff]
    intro entry hentry
    have hlt := syscallTable_id_lt lang entry (List.mem_reverse.mp hentry)
    rw [bne_iff_ne]
    omega
  have hge : ¬id < 1024 := by omega
  simp [initSyscalls, foldl_update_eq_lastEntry, hnone, hge]

/-- The table of a language allows some number a limited number of times. -/
def Limits (lang : Lang) : Prop :=
  ∃ id : ℕ, 0 < id ∧ id < 1024 ∧ 0 < lastEntry (syscallTable lang) id

/-- Only the tables of Pascal and Python limit nothing. -/
theorem limits_iff (lang : Lang) :
    Limits lang ↔ lang ≠ .pascal ∧ lang ≠ .python27 ∧ lang ≠ .python3 := by
  have hunlimited : ∀ {lang : Lang}, (∀ entry ∈ syscallTable lang, entry.2 ≤ 0) →
      ¬Limits lang := by
    rintro lang hentries ⟨id, -, -, hlimited⟩
    rcases lastEntry_cases (syscallTable lang) id with hzero | hmem
    · omega
    · have hle := hentries _ hmem
      omega
  cases lang with
  | pascal => exact iff_of_false (hunlimited (by decide)) (by simp)
  | python27 => exact iff_of_false (hunlimited (by decide)) (by simp)
  | python3 => exact iff_of_false (hunlimited (by decide)) (by simp)
  | kotlin => exact iff_of_true ⟨sysExitGroup, by decide⟩ (by decide)
  | c99 => exact iff_of_true ⟨sysExecve, by decide⟩ (by decide)
  | c11 => exact iff_of_true ⟨sysExecve, by decide⟩ (by decide)
  | cpp98 => exact iff_of_true ⟨sysExecve, by decide⟩ (by decide)
  | cpp11 => exact iff_of_true ⟨sysExecve, by decide⟩ (by decide)
  | cpp14 => exact iff_of_true ⟨sysExecve, by decide⟩ (by decide)
  | cpp17 => exact iff_of_true ⟨sysExecve, by decide⟩ (by decide)
  | java => exact iff_of_true ⟨sysExecve, by decide⟩ (by decide)

/-- The table is written anew, so the phases and the memory behind the table
decide whether two monitors start a case alike. -/
theorem alike_initSyscalls_iff {lang : Lang} :
    (initSyscalls lang m).Alike (initSyscalls lang m') ↔
      (m.inSyscall = m'.inSyscall ∨ ¬Limits lang) ∧
        ∀ id : ℕ, 1024 ≤ id → id < 2 ^ 31 →
          AlikeQuotas m.inSyscall m'.inSyscall (m.syscalls id) (m'.syscalls id) := by
  unfold Monitor.Alike
  rw [initSyscalls_inSyscall, initSyscalls_inSyscall]
  constructor
  · intro h
    constructor
    · by_cases hphase : m.inSyscall = m'.inSyscall
      · exact Or.inl hphase
      · refine Or.inr ?_
        rintro ⟨id, hpos, hlt, hlimited⟩
        have hquotas := h id hpos (by omega)
        rw [initSyscalls_syscalls hlt, initSyscalls_syscalls hlt] at hquotas
        rcases hquotas with ⟨hneg, -⟩ | ⟨-, hzero | heq⟩
        · omega
        · omega
        · exact hphase heq
    · intro id hge hlt
      have hquotas := h id (by omega) hlt
      rwa [initSyscalls_syscalls_of_ge hge, initSyscalls_syscalls_of_ge hge] at hquotas
  · rintro ⟨hphase, hbehind⟩ id hpos hlt
    by_cases hid : id < 1024
    · rw [initSyscalls_syscalls hid, initSyscalls_syscalls hid]
      rcases hphase with hphase | hunlimited
      · exact Or.inr ⟨rfl, Or.inr hphase⟩
      · have hle : ¬0 < lastEntry (syscallTable lang) id :=
          fun hlimited => hunlimited ⟨id, hpos, hid, hlimited⟩
        unfold AlikeQuotas
        omega
    · have hge : 1024 ≤ id := Nat.le_of_not_lt hid
      rw [initSyscalls_syscalls_of_ge hge, initSyscalls_syscalls_of_ge hge]
      exact hbehind id hge hlt

end PowerJudge
