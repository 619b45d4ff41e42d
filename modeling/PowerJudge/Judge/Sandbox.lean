import Mathlib.Data.List.Forall2
import Mathlib.Tactic.IntervalCases
import PowerJudge.Judge.Accepted
import PowerJudge.Judge.Afresh
import PowerJudge.Judge.NormalExit
import PowerJudge.Syscalls.Quota

/-!
# The judge as a sandbox

A traced program stops before and after each of its system calls, and the call is
executed only if the judge resumes the program where it stopped before it.  The wait
loop, the monitor and these stops together let exactly the calls before the first
overdraft of the language's quota be executed.
-/

namespace PowerJudge

variable {sol : OjSolution} {c : TestCase}

/-! ## A traced program -/

/-- The system calls that a single-threaded program makes, one after the other; from
the last one it does not return. -/
structure Program where
  calls : List ℕ
  exitCall : ℕ
  exitCall_pos : 0 < exitCall
  inTable : ∀ id ∈ calls ++ [exitCall], id < 1024

/-- All calls of the program, with the exit. -/
def Program.ids (program : Program) : List ℕ := program.calls ++ [program.exitCall]

/-- A stop of a traced process. -/
inductive TraceStop where
  | execve
  | enter (id : ℕ)
  | leave (id : ℕ)
  deriving DecidableEq, Repr

/-- The number in `orig_rax` at the stop. -/
def TraceStop.id : TraceStop → ℕ
  | .execve => sysExecve
  | .enter id => id
  | .leave id => id

/-- The call that is executed when the process is resumed from the stop. -/
def TraceStop.executes? : TraceStop → Option ℕ
  | .enter id => some id
  | _ => none

/-- The stops of a sequence of calls that return. -/
def callsStops (calls : List ℕ) : List TraceStop :=
  calls.flatMap fun id => [.enter id, .leave id]

/-- The stops of the program, as long as it is resumed. -/
def Program.stops (program : Program) : List TraceStop :=
  .execve :: (callsStops program.calls ++ [.enter program.exitCall])

/-- The report of a stop, from which the judge can resume the process. -/
structure ReportsStop (stop : TraceStop) (r : Report) : Prop where
  status : r.status = .ofStop sigTrap
  origRax : r.origRax = some (BitVec.ofNat 64 stop.id)
  resumes : r.resumes = true

/-- The report stays within the limits. -/
def Report.Within (sol : OjSolution) (r : Report) : Prop :=
  r.rusage.maxrss ≤ sol.memoryLimit ∧ r.rusage.utimeMs ≤ sol.timeLimit

/-- The executor of the case is the program: it shows its stops, exits normally and can
be compared, all within the limits. -/
structure RunsProgram (sol : OjSolution) (program : Program) (c : TestCase) : Prop where
  forks : c.forks = true
  compared : ∃ result, compareCase sol c = .returned result
  reported : ∃ stops last, c.reports = stops.map some ++ [some last] ∧
    List.Forall₂ ReportsStop program.stops stops ∧ last.status.ifExited ∧
    NormalQuit sol last.status ∧ ∀ r ∈ stops ++ [last], r.Within sol

/-- The number of times that the wait loop resumes the executor. -/
def resumes (sol : OjSolution) (c : TestCase) : List (Option Report) → Progress → ℕ
  | [], _ => 0
  | none :: _, _ => 0
  | some r :: rest, p =>
      match onReport sol c r p with
      | .returned (.again p') => resumes sol c rest p' + 1
      | _ => 0

/-- The calls of the program that are executed in a call of `judge`. -/
def CaseRun.executed (sol : OjSolution) (program : Program) (j : CaseRun) : List ℕ :=
  (program.stops.take (resumes sol j.case j.case.reports (startCase sol j.before))).filterMap
    TraceStop.executes?

/-! ## The stops of a program -/

theorem callsStops_cons (id : ℕ) (calls : List ℕ) :
    callsStops (id :: calls) = .enter id :: .leave id :: callsStops calls := rfl

theorem length_callsStops (calls : List ℕ) : (callsStops calls).length = 2 * calls.length := by
  induction calls with
  | nil => rfl
  | cons id calls ih =>
      rw [callsStops_cons, List.length_cons, List.length_cons, ih, List.length_cons]
      omega

theorem Program.length_stops (program : Program) :
    program.stops.length = 2 * program.calls.length + 2 := by
  rw [Program.stops, List.length_cons, List.length_append, length_callsStops,
    List.length_singleton]

/-- Resuming as far as the enter stop of a call executes the calls before it. -/
theorem filterMap_take_callsStops (calls : List ℕ) (exitCall : ℕ) {i : ℕ}
    (hi : i ≤ calls.length) :
    ((callsStops calls ++ [TraceStop.enter exitCall]).take (2 * i)).filterMap TraceStop.executes? =
      (calls ++ [exitCall]).take i := by
  induction calls generalizing i with
  | nil =>
      obtain rfl : i = 0 := Nat.le_zero.mp hi
      rfl
  | cons id calls ih =>
      cases i with
      | zero => rfl
      | succ i =>
          have hrest := ih (Nat.le_of_succ_le_succ hi)
          have htwice : 2 * (i + 1) = 2 * i + 1 + 1 := by omega
          rw [callsStops_cons, List.cons_append, List.cons_append, htwice, List.take_succ_cons,
            List.take_succ_cons, List.cons_append, List.take_succ_cons, ← hrest]
          rfl

theorem filterMap_callsStops (calls : List ℕ) (exitCall : ℕ) :
    (callsStops calls ++ [TraceStop.enter exitCall]).filterMap TraceStop.executes? =
      calls ++ [exitCall] := by
  induction calls with
  | nil => rfl
  | cons id calls ih =>
      rw [callsStops_cons, List.cons_append, List.cons_append, List.cons_append, ← ih]
      rfl

/-- The numbers that the monitor is shown. -/
def stopIds (stops : List TraceStop) : List ℤ := stops.map fun stop => (stop.id : ℤ)

theorem stopIds_callsStops (calls : List ℕ) : stopIds (callsStops calls) = callStops calls := by
  induction calls with
  | nil => rfl
  | cons id calls ih =>
      rw [callsStops_cons, callStops, ← ih]
      rfl

/-- All but the last stop that the calls would have if the exit returned. -/
theorem stopIds_stops (program : Program) :
    stopIds program.stops ++ [(program.exitCall : ℤ)] = programStops program.ids := by
  have happend : ∀ calls, callStops (calls ++ [program.exitCall]) =
      callStops calls ++ [(program.exitCall : ℤ), (program.exitCall : ℤ)] := by
    intro calls
    induction calls with
    | nil => rfl
    | cons id calls ih => rw [List.cons_append, callStops, ih, callStops]; rfl
  have hstops : stopIds program.stops =
      (sysExecve : ℤ) :: (callStops program.calls ++ [(program.exitCall : ℤ)]) := by
    rw [← stopIds_callsStops]
    simp [stopIds, Program.stops, TraceStop.id]
  rw [hstops, programStops, Program.ids, happend]
  simp

/-! ## The first rejected stop -/

/-- The first rejected stop of a part of the stops is that of all of them, if it lies
in the part. -/
theorem firstRejected_append_iff {m : Monitor} {stops more : List ℤ} {n : ℕ} :
    firstRejected m stops = some n ↔ firstRejected m (stops ++ more) = some n ∧
      n < stops.length := by
  induction stops generalizing m n with
  | nil => simp [firstRejected]
  | cons syscallId rest ih =>
      rw [List.cons_append, firstRejected, firstRejected]
      split
      · rw [Option.map_eq_some_iff, Option.map_eq_some_iff, List.length_cons]
        constructor
        · rintro ⟨k, hk, rfl⟩
          obtain ⟨hall, hlt⟩ := ih.mp hk
          exact ⟨⟨k, hall, rfl⟩, by omega⟩
        · rintro ⟨⟨k, hk, rfl⟩, hlt⟩
          exact ⟨k, ih.mpr ⟨hk, by omega⟩, rfl⟩
      · rw [List.length_cons]
        refine ⟨fun h => ⟨h, ?_⟩, fun h => h.1⟩
        obtain rfl := Option.some.inj h
        omega

theorem Ledger.FirstOverdraft.lt_length {ledger : Ledger ℕ} {uses : List ℕ} {i : ℕ}
    (h : ledger.FirstOverdraft uses i) : i < uses.length := by
  obtain ⟨⟨key, hkey, -⟩, -⟩ := h
  exact (List.getElem?_eq_some_iff.mp hkey).1

/-- The first stop of the program that is rejected is the enter stop of the first
overdraft. -/
theorem firstRejected_stops_iff (lang : Lang) {m : Monitor} (hphase : m.inSyscall = true)
    (program : Program) {n : ℕ} :
    firstRejected (initSyscalls lang m) (stopIds program.stops) = some n ↔
      ∃ i, n = 2 * i + 1 ∧ (quota lang).FirstOverdraft program.ids i := by
  have hledger : ∀ i, (Monitor.afterExecve lang m).allowance.FirstOverdraft program.ids i ↔
      (quota lang).FirstOverdraft program.ids i := by
    intro i
    apply Ledger.firstOverdraft_congr
    exact fun id hid => allowance_afterExecve lang m (program.inTable id hid)
  have hlength : (stopIds program.stops).length = 2 * program.calls.length + 2 := by
    rw [stopIds, List.length_map, program.length_stops]
  rw [@firstRejected_append_iff _ _ [(program.exitCall : ℤ)], stopIds_stops,
    firstRejected_programStops lang hphase, Option.map_eq_some_iff, hlength]
  have hcalls := fun k => @firstRejected_callStops (Monitor.afterExecve lang m) rfl program.ids k
  simp only [hcalls, hledger]
  constructor
  · rintro ⟨⟨k, ⟨i, rfl, hover⟩, rfl⟩, -⟩
    exact ⟨i, rfl, hover⟩
  · rintro ⟨i, rfl, hover⟩
    have hlt := hover.lt_length
    rw [Program.ids, List.length_append, List.length_singleton] at hlt
    exact ⟨⟨2 * i, ⟨i, rfl, hover⟩, rfl⟩, by omega⟩

/-! ## The phase flag -/

/-- The monitor after stops that were all shown to it. -/
def afterStops (m : Monitor) (stops : List ℤ) : Monitor :=
  stops.foldl (fun m syscallId => (checkStop syscallId m).2) m

theorem afterStops_append (m : Monitor) (stops more : List ℤ) :
    afterStops m (stops ++ more) = afterStops (afterStops m stops) more :=
  List.foldl_append

theorem checkStop_inSyscall {id : ℕ} (hid : 0 < id) (m : Monitor) :
    (checkStop (id : ℤ) m).2.inSyscall = !m.inSyscall := by
  rw [checkStop_natCast hid, isValidSyscall_inSyscall]

/-- The two stops of a call are both checked, or neither is. -/
theorem afterStops_callStops_inSyscall (m : Monitor) (calls : List ℕ) :
    (afterStops m (callStops calls)).inSyscall = m.inSyscall := by
  induction calls generalizing m with
  | nil => rfl
  | cons id calls ih =>
      have hcall : (checkStop (id : ℤ) (checkStop (id : ℤ) m).2).2.inSyscall = m.inSyscall := by
        rcases Nat.eq_zero_or_pos id with rfl | hid
        · rfl
        · rw [checkStop_inSyscall hid, checkStop_inSyscall hid, Bool.not_not]
      exact (ih _).trans hcall

theorem take_callStops {calls : List ℕ} {i : ℕ} {id : ℕ} (hid : calls[i]? = some id) :
    (callStops calls).take (2 * i + 1) = callStops (calls.take i) ++ [(id : ℤ)] := by
  induction calls generalizing i with
  | nil => simp at hid
  | cons first calls ih =>
      cases i with
      | zero =>
          obtain rfl : first = id := by simpa using hid
          rfl
      | succ i =>
          have hrest := ih (i := i) (by simpa using hid)
          have htwice : 2 * (i + 1) + 1 = 2 * i + 1 + 1 + 1 := by omega
          rw [callStops, htwice, List.take_succ_cons, List.take_succ_cons, hrest,
            List.take_succ_cons, callStops, List.cons_append, List.cons_append]

/-- From an `execve` to the enter stop of a checked call the flag is toggled an even
number of times. -/
theorem afterStops_programStops_inSyscall (m : Monitor) {calls : List ℕ} {i id : ℕ}
    (hget : calls[i]? = some id) (hid : 0 < id) :
    (afterStops m ((programStops calls).take (2 * i + 2))).inSyscall = m.inSyscall := by
  have hexecve : 0 < sysExecve := by decide
  rw [programStops, List.take_succ_cons, take_callStops hget, ← List.singleton_append,
    afterStops_append, afterStops_append]
  change (checkStop (id : ℤ) (afterStops (checkStop (sysExecve : ℤ) m).2 _)).2.inSyscall = _
  rw [checkStop_inSyscall hid, afterStops_callStops_inSyscall, checkStop_inSyscall hexecve,
    Bool.not_not]

/-! ## The wait loop on a program -/

/-- What the judge does at a stop of a program within its memory limit. -/
theorem onReport_of_reportsStop {stop : TraceStop} {r : Report} {p : Progress}
    (h : ReportsStop stop r) (hid : stop.id < 2 ^ 31)
    (hmemory : max p.memoryUsage r.rusage.maxrss ≤ sol.memoryLimit) :
    onReport sol c r p =
      if (checkStop (stop.id : ℤ) p.monitor).1 then
        .returned (.again { p with
          memoryUsage := max p.memoryUsage r.rusage.maxrss
          monitor := (checkStop (stop.id : ℤ) p.monitor).2 })
      else
        .returned (.leave { p with
          result := .rf
          memoryUsage := max p.memoryUsage r.rusage.maxrss
          monitor := (checkStop (stop.id : ℤ) p.monitor).2 }) := by
  have hstopped : r.status.ifStopped ∧ r.status.stopSig = sigTrap := by
    rw [h.status]
    decide
  have hexited : ¬r.status.ifExited := fun hexited =>
    WaitStatus.not_ifExited_of_ifStopped hstopped.1 hexited
  have hsignal : fatalSignal r.status = none := by
    rw [h.status]
    decide
  rw [onReport_of_stopped hexited hsignal, stopBranch_of_memory_le hmemory h.origRax,
    syscallIdOf_ofNat hid, h.resumes]
  rfl

theorem firstRejected_cons_accepted {m : Monitor} {syscallId : ℤ} {rest : List ℤ}
    (h : (checkStop syscallId m).1 = true) :
    firstRejected m (syscallId :: rest) =
      (firstRejected (checkStop syscallId m).2 rest).map (· + 1) := by
  rw [firstRejected, if_pos h]

theorem firstRejected_cons_rejected {m : Monitor} {syscallId : ℤ} {rest : List ℤ}
    (h : (checkStop syscallId m).1 = false) : firstRejected m (syscallId :: rest) = some 0 := by
  rw [firstRejected, h]
  rfl

/-- How the globals differ after stops that keep the program within its limits. -/
structure ShownWithin (sol : OjSolution) (shown : List ℤ) (p q : Progress) : Prop where
  timeUsage : q.timeUsage = p.timeUsage
  memory_le : q.memoryUsage ≤ sol.memoryLimit
  monitor : q.monitor = afterStops p.monitor shown

/-- If no stop is rejected, the loop takes them all and goes on with the rest of the
reports. -/
theorem waitLoop_of_accepted {shown : List TraceStop} {stops : List Report} {p : Progress}
    (hreports : List.Forall₂ ReportsStop shown stops)
    (hids : ∀ stop ∈ shown, stop.id < 2 ^ 31)
    (hmemory : ∀ r ∈ stops, r.rusage.maxrss ≤ sol.memoryLimit)
    (hp : p.memoryUsage ≤ sol.memoryLimit)
    (haccepted : firstRejected p.monitor (stopIds shown) = none)
    (rest : List (Option Report)) :
    ∃ mid, ShownWithin sol (stopIds shown) p mid ∧ mid.result = p.result ∧
      waitLoop sol c (stops.map some ++ rest) p = waitLoop sol c rest mid ∧
      resumes sol c (stops.map some ++ rest) p = resumes sol c rest mid + shown.length := by
  induction hreports generalizing p with
  | nil => exact ⟨p, ⟨rfl, hp, rfl⟩, rfl, rfl, rfl⟩
  | @cons stop r shown stops hstop hreports ih =>
      have hmax : max p.memoryUsage r.rusage.maxrss ≤ sol.memoryLimit :=
        max_le hp (hmemory r List.mem_cons_self)
      have hstep := onReport_of_reportsStop (c := c) hstop
        (hids stop List.mem_cons_self) hmax
      have hcons : stopIds (stop :: shown) = (stop.id : ℤ) :: stopIds shown := rfl
      rw [hcons] at haccepted
      cases hcheck : (checkStop (stop.id : ℤ) p.monitor).1 with
      | false =>
          rw [firstRejected_cons_rejected hcheck] at haccepted
          cases haccepted
      | true =>
          rw [firstRejected_cons_accepted hcheck, Option.map_eq_none_iff] at haccepted
          rw [if_pos hcheck] at hstep
          obtain ⟨mid, hshown, hresult, hloop, hcount⟩ := @ih { p with
              memoryUsage := max p.memoryUsage r.rusage.maxrss
              monitor := (checkStop (stop.id : ℤ) p.monitor).2 }
            (fun stop' h => hids stop' (List.mem_cons_of_mem _ h))
            (fun r' h => hmemory r' (List.mem_cons_of_mem _ h)) hmax haccepted
          refine ⟨mid, ⟨hshown.timeUsage, hshown.memory_le, hshown.monitor⟩,
            hresult, ?_, ?_⟩
          · rw [List.map_cons, List.cons_append, waitLoop, hstep, Outcome.bind_returned]
            exact hloop
          · rw [List.map_cons, List.cons_append, resumes, hstep, List.length_cons]
            dsimp only
            rw [hcount, Nat.add_assoc]

/-- If a stop is rejected, the loop resumes the program from the stops before it and
leaves with `OJ_RF`. -/
theorem waitLoop_of_rejected {shown : List TraceStop} {stops : List Report} {p : Progress}
    {n : ℕ} (hreports : List.Forall₂ ReportsStop shown stops)
    (hids : ∀ stop ∈ shown, stop.id < 2 ^ 31)
    (hmemory : ∀ r ∈ stops, r.rusage.maxrss ≤ sol.memoryLimit)
    (hp : p.memoryUsage ≤ sol.memoryLimit)
    (hrejected : firstRejected p.monitor (stopIds shown) = some n)
    (rest : List (Option Report)) :
    ∃ q, ∃ last ∈ stops, ShownWithin sol ((stopIds shown).take (n + 1)) p q ∧ q.result = .rf ∧
      waitLoop sol c (stops.map some ++ rest) p = .returned (q, last) ∧
      resumes sol c (stops.map some ++ rest) p = n := by
  induction hreports generalizing p n with
  | nil => cases hrejected
  | @cons stop r shown stops hstop hreports ih =>
      have hmax : max p.memoryUsage r.rusage.maxrss ≤ sol.memoryLimit :=
        max_le hp (hmemory r List.mem_cons_self)
      have hstep := onReport_of_reportsStop (c := c) hstop
        (hids stop List.mem_cons_self) hmax
      have hcons : stopIds (stop :: shown) = (stop.id : ℤ) :: stopIds shown := rfl
      rw [hcons] at hrejected ⊢
      cases hcheck : (checkStop (stop.id : ℤ) p.monitor).1 with
      | false =>
          rw [firstRejected_cons_rejected hcheck] at hrejected
          obtain rfl := Option.some.inj hrejected
          rw [hcheck, if_neg Bool.false_ne_true] at hstep
          refine ⟨{ p with
              result := .rf
              memoryUsage := max p.memoryUsage r.rusage.maxrss
              monitor := (checkStop (stop.id : ℤ) p.monitor).2 },
            r, List.mem_cons_self, ⟨rfl, hmax, rfl⟩, rfl, ?_, ?_⟩
          · rw [List.map_cons, List.cons_append, waitLoop, hstep, Outcome.bind_returned]
          · rw [List.map_cons, List.cons_append, resumes, hstep]
      | true =>
          rw [firstRejected_cons_accepted hcheck, Option.map_eq_some_iff] at hrejected
          obtain ⟨k, hrejected, rfl⟩ := hrejected
          rw [if_pos hcheck] at hstep
          obtain ⟨q, last, hlast, hshown, hresult, hloop, hcount⟩ := @ih { p with
              memoryUsage := max p.memoryUsage r.rusage.maxrss
              monitor := (checkStop (stop.id : ℤ) p.monitor).2 } k
            (fun stop' h => hids stop' (List.mem_cons_of_mem _ h))
            (fun r' h => hmemory r' (List.mem_cons_of_mem _ h)) hmax hrejected
          refine ⟨q, last, List.mem_cons_of_mem _ hlast,
            ⟨hshown.timeUsage, hshown.memory_le, hshown.monitor⟩, hresult, ?_, ?_⟩
          · rw [List.map_cons, List.cons_append, waitLoop, hstep, Outcome.bind_returned]
            exact hloop
          · rw [List.map_cons, List.cons_append, resumes, hstep]
            exact congrArg (· + 1) hcount

/-! ## One case -/

/-- What an earlier case leaves to the next one. -/
structure Steady (sol : OjSolution) (p : Progress) : Prop where
  time_le : p.timeUsage ≤ sol.timeLimit
  memory_le : p.memoryUsage ≤ sol.memoryLimit
  inSyscall : p.monitor.inSyscall = true

theorem steady_start : Steady sol .start :=
  ⟨Nat.zero_le _, Nat.zero_le _, rfl⟩

theorem Program.id_lt (program : Program) : ∀ stop ∈ program.stops, stop.id < 2 ^ 31 := by
  have hcalls : ∀ calls : List ℕ, (∀ id ∈ calls, id < 1024) →
      ∀ stop ∈ callsStops calls, stop.id < 2 ^ 31 := by
    intro calls hcalls stop hstop
    obtain ⟨id, hid, hstop⟩ := List.mem_flatMap.mp hstop
    have hlt := hcalls id hid
    rcases List.mem_cons.mp hstop with rfl | hstop
    · exact hlt.trans (by decide)
    · obtain rfl := List.mem_singleton.mp hstop
      exact hlt.trans (by decide)
  intro stop hstop
  rcases List.mem_cons.mp hstop with rfl | hstop
  · decide
  · rcases List.mem_append.mp hstop with hstop | hstop
    · exact hcalls program.calls (fun id hid => program.inTable id (by simp [hid])) stop hstop
    · obtain rfl := List.mem_singleton.mp hstop
      exact (program.inTable program.exitCall (by simp)).trans (by decide)

/-- A resumed program executes the calls whose enter stop it was resumed from. -/
theorem Program.executed_take (program : Program) {i : ℕ} (hi : i ≤ program.calls.length) :
    (program.stops.take (2 * i + 1)).filterMap TraceStop.executes? = program.ids.take i := by
  rw [Program.stops, List.take_succ_cons, Program.ids, ← filterMap_take_callsStops _ _ hi]
  rfl

theorem Program.executed_all (program : Program) :
    (program.stops.take program.stops.length).filterMap TraceStop.executes? = program.ids := by
  rw [List.take_length, Program.stops, Program.ids, ← filterMap_callsStops]
  rfl

theorem Program.ids_length (program : Program) :
    program.ids.length = program.calls.length + 1 := by
  rw [Program.ids, List.length_append, List.length_singleton]

/-- Up to the enter stop of a call nothing depends on whether the exit returns. -/
theorem Program.stopIds_take (program : Program) {i : ℕ} (hi : i ≤ program.calls.length) :
    (stopIds program.stops).take (2 * i + 2) = (programStops program.ids).take (2 * i + 2) := by
  have hlength : 2 * i + 2 ≤ (stopIds program.stops).length := by
    rw [stopIds, List.length_map, program.length_stops]
    omega
  rw [← stopIds_stops, List.take_append_of_le_length hlength]

/-- The id of an overdraft is one that `judge` checks. -/
theorem quota_firstOverdraft_pos {lang : Lang} {ids : List ℕ} {i : ℕ}
    (h : (quota lang).FirstOverdraft ids i) : ∃ id, ids[i]? = some id ∧ 0 < id := by
  obtain ⟨⟨id, hget, hlimited, -⟩, -⟩ := h
  refine ⟨id, hget, Nat.pos_of_ne_zero ?_⟩
  rintro rfl
  have hzero : quota lang 0 = syscallsInfinite := by simp [quota]
  rw [hzero] at hlimited
  exact absurd hlimited (by decide)

theorem permitted_of_accepted {shown : List TraceStop} {stops : List Report} {m : Monitor}
    (hreports : List.Forall₂ ReportsStop shown stops)
    (hids : ∀ stop ∈ shown, stop.id < 2 ^ 31)
    (haccepted : firstRejected m (stopIds shown) = none) : Permitted stops m := by
  induction hreports generalizing m with
  | nil => trivial
  | @cons stop r shown stops hstop hreports ih =>
      have hid := syscallIdOf_ofNat (hids stop List.mem_cons_self)
      have hcons : stopIds (stop :: shown) = (stop.id : ℤ) :: stopIds shown := rfl
      rw [hcons] at haccepted
      cases hcheck : (checkStop (stop.id : ℤ) m).1 with
      | false =>
          rw [firstRejected_cons_rejected hcheck] at haccepted
          cases haccepted
      | true =>
          rw [firstRejected_cons_accepted hcheck, Option.map_eq_none_iff] at haccepted
          refine ⟨_, hstop.origRax, by rw [hid]; exact hcheck, ?_⟩
          rw [hid]
          exact ih (fun stop' h => hids stop' (List.mem_cons_of_mem _ h)) haccepted

theorem fatalSignal_of_sigTrap : fatalSignal (.ofStop sigTrap) = none := by decide

theorem ReportsStop.stopped {stop : TraceStop} {r : Report} (h : ReportsStop stop r) :
    ¬r.status.ifExited ∧ fatalSignal r.status = none := by
  have hstopped : (WaitStatus.ofStop sigTrap).ifStopped := by decide
  rw [h.status]
  exact ⟨fun hexited => WaitStatus.not_ifExited_of_ifStopped hstopped hexited,
    fatalSignal_of_sigTrap⟩

theorem stopped_of_reports {shown : List TraceStop} {stops : List Report}
    (hreports : List.Forall₂ ReportsStop shown stops) :
    ∀ r ∈ stops, ¬r.status.ifExited ∧ fatalSignal r.status = none := by
  induction hreports with
  | nil => simp
  | cons hstop hreports ih => exact List.forall_mem_cons.mpr ⟨hstop.stopped, ih⟩

/-- An overdraft is never executed. -/
theorem judge_of_overdraft {program : Program} {p p' : Progress} {ok : Bool} {i : ℕ}
    (hruns : RunsProgram sol program c) (hsteady : Steady sol p)
    (hover : (quota sol.lang).FirstOverdraft program.ids i)
    (h : judge sol c p = .returned (p', ok)) :
    p'.result = .rf ∧ Steady sol p' ∧
      CaseRun.executed sol program ⟨c, p, p'⟩ = program.ids.take i := by
  obtain ⟨stops, last, htaken, hreports, -, -, hwithin⟩ := hruns.reported
  have hi : i ≤ program.calls.length := by
    have hlt := hover.lt_length
    rw [program.ids_length] at hlt
    omega
  have hrejected : firstRejected (startCase sol p).monitor (stopIds program.stops) =
      some (2 * i + 1) :=
    (firstRejected_stops_iff sol.lang hsteady.inSyscall program).mpr ⟨i, rfl, hover⟩
  have hmemory : ∀ r ∈ stops, r.rusage.maxrss ≤ sol.memoryLimit :=
    fun r hr => (hwithin r (List.mem_append_left _ hr)).1
  have hstart : (startCase sol p).memoryUsage ≤ sol.memoryLimit := hsteady.memory_le
  obtain ⟨q, r, hr, hshown, hresult, hloop, hcount⟩ :=
    waitLoop_of_rejected (c := c) hreports program.id_lt hmemory hstart hrejected [some last]
  rw [← htaken] at hloop hcount
  obtain ⟨-, q', r', hloop', hsettle⟩ := judge_waitLoop h
  rw [hloop] at hloop'
  cases hloop'
  have hrWithin := hwithin r (List.mem_append_left _ hr)
  have hqtime : q.timeUsage ≤ sol.timeLimit := hshown.timeUsage.trans_le hsteady.time_le
  have hmax := max_le hshown.memory_le hrWithin.1
  have htime := max_le hqtime hrWithin.2
  have hsettled := settle_of_within (c := c) hmax htime (by rw [hresult]; decide)
  have hp' : (settle sol c r q).1 = p' := congrArg Prod.fst hsettle
  rw [if_neg (by rw [hresult]; decide), hp'] at hsettled
  obtain ⟨id, hget, hpos⟩ := quota_firstOverdraft_pos hover
  have hflag : q.monitor.inSyscall = true := by
    rw [hshown.monitor, program.stopIds_take hi]
    exact (afterStops_programStops_inSyscall _ hget hpos).trans hsteady.inSyscall
  refine ⟨?_, ?_, ?_⟩
  · rw [hsettled]
    exact hresult
  · rw [hsettled]
    exact ⟨htime, hmax, hflag⟩
  · rw [CaseRun.executed, hcount, program.executed_take hi]

theorem mergeResult_ne_rf {previous outcome : OjResult} (h : IsCaseOutcome outcome) :
    mergeResult previous outcome ≠ .rf := by
  unfold mergeResult
  split_ifs
  · decide
  · rcases h with h | h | h | h <;> rw [h] <;> decide
  · decide

/-- A program that never overdraws is executed to its end. -/
theorem judge_of_noOverdraft {program : Program} {p p' : Progress} {ok : Bool}
    (hruns : RunsProgram sol program c) (hsteady : Steady sol p)
    (hover : ∀ i, ¬(quota sol.lang).FirstOverdraft program.ids i)
    (h : judge sol c p = .returned (p', ok)) :
    p'.result ≠ .rf ∧ (ok = true ∨ ¬Exhausts sol c → Steady sol p') ∧
      CaseRun.executed sol program ⟨c, p, p'⟩ = program.ids := by
  obtain ⟨stops, last, htaken, hreports, hexited, hquit, hwithin⟩ := hruns.reported
  obtain ⟨outcome, hcompare⟩ := hruns.compared
  have haccepted : firstRejected (startCase sol p).monitor (stopIds program.stops) = none := by
    rw [Option.eq_none_iff_forall_ne_some]
    intro n hn
    obtain ⟨i, -, hi⟩ := (firstRejected_stops_iff sol.lang hsteady.inSyscall program).mp hn
    exact hover i hi
  have hexits : ExitsAfter sol c (startCase sol p).monitor stops last :=
    { taken := ⟨[], htaken⟩
      stopped := stopped_of_reports hreports
      permitted := permitted_of_accepted hreports program.id_lt haccepted
      exited := hexited
      quit := hquit
      memory_le := fun r hr => (hwithin r hr).1
      time_le := (hwithin last (by simp)).2 }
  have heffect := judge_of_exitsAfter hexits hsteady.time_le hsteady.memory_le hcompare h
  have hmemory : ∀ r ∈ stops, r.rusage.maxrss ≤ sol.memoryLimit :=
    fun r hr => (hwithin r (List.mem_append_left _ hr)).1
  have hstart : (startCase sol p).memoryUsage ≤ sol.memoryLimit := hsteady.memory_le
  obtain ⟨mid, hshown, -, hloop, hcount⟩ :=
    waitLoop_of_accepted (c := c) hreports program.id_lt hmemory hstart haccepted [some last]
  rw [← htaken] at hloop hcount
  rw [waitLoop_cons_exit hexited hquit hcompare] at hloop
  have hexit : resumes sol c [some last] mid = 0 := by
    rw [resumes, onReport, if_pos hexited, exitBranch, if_pos hquit, hcompare]
    rfl
  obtain ⟨-, q, r, hloop', hsettle⟩ := judge_waitLoop h
  rw [hloop] at hloop'
  cases hloop'
  have hflag : p'.monitor.inSyscall = true := by
    have hget : program.ids[program.calls.length]? = some program.exitCall := by
      simp [Program.ids]
    have hall : stopIds program.stops = (programStops program.ids).take
        (2 * program.calls.length + 2) := by
      rw [← program.stopIds_take le_rfl, List.take_of_length_le]
      rw [stopIds, List.length_map, program.length_stops]
    have hmonitor := @settle_monitor sol c last
      { mid with result := mergeResult mid.result outcome }
    rw [hsettle] at hmonitor
    rw [hmonitor]
    change mid.monitor.inSyscall = true
    rw [hshown.monitor, hall]
    exact (afterStops_programStops_inSyscall _ hget program.exitCall_pos).trans
      hsteady.inSyscall
  refine ⟨?_, ?_, ?_⟩
  · by_cases hwa : outcome = .wa
    · intro hrf
      have hresult := heffect.result_of_wa hwa
      rw [hrf] at hresult
      exact absurd hresult (by decide)
    · rw [heffect.result_of_ne_wa hwa]
      exact mergeResult_ne_rf (compareCase_isCaseOutcome hcompare)
  · intro hgo
    refine ⟨heffect.time_le, heffect.memory_le_iff.mpr ?_, hflag⟩
    rintro ⟨hwa, hexhausts⟩
    rcases hgo with hok | hnot
    · subst hwa
      have hsettled := settle_flag sol c last { mid with result := mergeResult mid.result .wa }
      rw [hsettle] at hsettled
      exact heffect.result_ne_ac_of_wa (hsettled.mp hok)
    · exact hnot hexhausts
  · rw [CaseRun.executed, hcount, hexit, Nat.zero_add, program.executed_all]

/-! ## A run -/

/-- What the cases of a run hand on, if the run goes on after them, holds before each of
its calls. -/
theorem before_of_mem_trace_of_cases {Inv : Progress → Prop} {cases : List TestCase}
    {p : Progress} (hp : Inv p)
    (hstep : ∀ c ∈ cases, ∀ q q' ok, judge sol c q = .returned (q', ok) → Inv q →
      (ok = true ∨ sol.judgeType ≠ acm) → Inv q')
    {j : CaseRun} (hj : j ∈ trace sol cases p) : Inv j.before := by
  induction cases generalizing p with
  | nil => cases hj
  | cons c cases ih =>
      obtain ⟨p', ok, hjudge, rfl | ⟨hgo, hrest⟩⟩ := mem_trace_cons hj
      · exact hp
      · have hp' := hstep c List.mem_cons_self p p' ok hjudge hp hgo
        exact ih hp' (fun c' hc' => hstep c' (List.mem_cons_of_mem _ hc')) hrest

/-- A program that asks for the name of its system twice. -/
def unameTwice : Program where
  calls := [sysUname, sysRead, sysUname]
  exitCall := sysExitGroup
  exitCall_pos := by decide
  inTable := by decide

/-- A report from which the judge can resume the process. -/
def TraceStop.report (stop : TraceStop) : Report :=
  { Report.idle (.ofStop sigTrap) with origRax := some (BitVec.ofNat 64 stop.id) }

/-- The case of a program that exits with status 0. -/
def Program.case (program : Program) : TestCase :=
  { TestCase.quiet [] [] with
    reports := (program.stops.map TraceStop.report).map some ++ [some (.idle (.ofExit 0))] }

theorem Program.runsProgram (program : Program) (lang : Lang) :
    RunsProgram (OjSolution.init lang) program program.case where
  forks := rfl
  compared := by
    have hequal : compareLoop ⟨⟨[]⟩, ⟨[]⟩, 0, 0, .ac⟩ = .ac := by decide +kernel
    exact ⟨.ac, congrArg Outcome.returned hequal⟩
  reported := by
    refine ⟨program.stops.map TraceStop.report, .idle (.ofExit 0), rfl, ?_,
      WaitStatus.ifExited_ofExit 0, Or.inr (WaitStatus.exitStatus_ofExit 0), ?_⟩
    · rw [List.forall₂_map_right_iff, List.forall₂_same]
      exact fun stop _ => ⟨rfl, rfl, rfl⟩
    · intro r hr
      rcases List.mem_append.mp hr with hr | hr
      · obtain ⟨stop, -, rfl⟩ := List.mem_map.mp hr
        exact ⟨Nat.zero_le _, by simp [TraceStop.report, Report.idle, Rusage.utimeMs]⟩
      · obtain rfl := List.mem_singleton.mp hr
        exact ⟨Nat.zero_le _, by simp [Report.idle, Rusage.utimeMs]⟩

end PowerJudge
