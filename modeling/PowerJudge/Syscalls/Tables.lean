import PowerJudge.Core.Codes

/-!
# Syscall tables

The `SC_*` arrays of `syscalls.cpp` for x86-64.  An entry pairs a syscall id
with the number of calls allowed; `SYSCALLS_INFINITE` allows any number, and an
id without an entry allows none.  The closing `SYSCALLS_END` is the end of the
list.
-/

namespace PowerJudge

/-! ## The `SYS_*` numbers the tables name -/

def sysRead : ℕ := 0

def sysWrite : ℕ := 1

def sysOpen : ℕ := 2

def sysClose : ℕ := 3

def sysStat : ℕ := 4

def sysFstat : ℕ := 5

def sysLstat : ℕ := 6

def sysLseek : ℕ := 8

def sysMmap : ℕ := 9

def sysMprotect : ℕ := 10

def sysMunmap : ℕ := 11

def sysBrk : ℕ := 12

def sysRtSigaction : ℕ := 13

def sysRtSigprocmask : ℕ := 14

def sysIoctl : ℕ := 16

def sysWritev : ℕ := 20

def sysAccess : ℕ := 21

def sysMremap : ℕ := 25

def sysSocket : ℕ := 41

def sysConnect : ℕ := 42

def sysClone : ℕ := 56

def sysExecve : ℕ := 59

def sysUname : ℕ := 63

def sysFcntl : ℕ := 72

def sysGetdents : ℕ := 78

def sysGetcwd : ℕ := 79

def sysReadlink : ℕ := 89

def sysGettimeofday : ℕ := 96

def sysGetrlimit : ℕ := 97

def sysSysinfo : ℕ := 99

def sysGetuid : ℕ := 102

def sysGetgid : ℕ := 104

def sysGeteuid : ℕ := 107

def sysGetegid : ℕ := 108

def sysArchPrctl : ℕ := 158

def sysGettid : ℕ := 186

def sysTime : ℕ := 201

def sysFutex : ℕ := 202

def sysSetThreadArea : ℕ := 205

def sysGetThreadArea : ℕ := 211

def sysGetdents64 : ℕ := 217

def sysSetTidAddress : ℕ := 218

def sysClockGettime : ℕ := 228

def sysExitGroup : ℕ := 231

def sysTgkill : ℕ := 234

def sysOpenat : ℕ := 257

def sysSetRobustList : ℕ := 273

def sysPrlimit64 : ℕ := 302

def syscallsInfinite : ℤ := -1

/-- `SC_C`. -/
def scC : List (ℕ × ℤ) :=
  [(252, 2), (sysAccess, 16), (sysArchPrctl, 1), (sysBrk, syscallsInfinite),
    (sysClose, 1), (sysClockGettime, syscallsInfinite), (sysExecve, 1),
    (sysExitGroup, 1), (sysFstat, 3), (sysGetThreadArea, 1), (sysGettid, 1),
    (sysOpen, syscallsInfinite), (sysMmap, syscallsInfinite), (sysMprotect, 16),
    (sysMunmap, syscallsInfinite), (sysRead, syscallsInfinite), (sysReadlink, 1),
    (sysRtSigprocmask, 1), (sysSetThreadArea, 1), (sysTgkill, 2),
    (sysTime, syscallsInfinite), (sysUname, 1), (sysWrite, syscallsInfinite),
    (sysWritev, syscallsInfinite), (sysLseek, syscallsInfinite)]

/-- `SC_CPP`. -/
def scCpp : List (ℕ × ℤ) :=
  [(252, 2), (sysAccess, 16), (sysArchPrctl, 1), (sysBrk, syscallsInfinite),
    (sysClose, 1), (sysClockGettime, 1), (sysExecve, 1), (sysExitGroup, 1),
    (sysFstat, 3), (sysFutex, syscallsInfinite), (sysGetThreadArea, 1),
    (sysGettid, 1), (sysMprotect, 16), (sysMmap, syscallsInfinite),
    (sysMunmap, syscallsInfinite), (sysOpen, syscallsInfinite),
    (sysRead, syscallsInfinite), (sysReadlink, 1), (sysRtSigprocmask, 1),
    (sysSetThreadArea, 1), (sysSetTidAddress, 1), (sysTgkill, 1),
    (sysTime, syscallsInfinite), (sysUname, 1), (sysWrite, syscallsInfinite),
    (sysWritev, syscallsInfinite), (sysLseek, syscallsInfinite)]

/-- `SC_PASCAL`. -/
def scPascal : List (ℕ × ℤ) :=
  [(158, syscallsInfinite), (191, syscallsInfinite), (231, syscallsInfinite),
    (252, syscallsInfinite), (4, syscallsInfinite), (sysBrk, syscallsInfinite),
    (sysClose, syscallsInfinite), (sysExecve, syscallsInfinite),
    (sysExitGroup, syscallsInfinite), (sysGetrlimit, syscallsInfinite),
    (sysIoctl, syscallsInfinite), (sysMmap, syscallsInfinite),
    (sysMunmap, syscallsInfinite), (sysOpen, syscallsInfinite),
    (sysRead, syscallsInfinite), (sysReadlink, syscallsInfinite),
    (sysRtSigaction, syscallsInfinite), (sysSetThreadArea, syscallsInfinite),
    (sysTime, syscallsInfinite), (sysUname, syscallsInfinite),
    (sysWrite, syscallsInfinite)]

/-- `SC_JAVA`. -/
def scJava : List (ℕ × ℤ) :=
  [(110, syscallsInfinite), (111, syscallsInfinite), (13, syscallsInfinite),
    (sysArchPrctl, 1), (16, syscallsInfinite), (22, syscallsInfinite),
    (33, syscallsInfinite), (39, syscallsInfinite), (6, syscallsInfinite),
    (61, syscallsInfinite), (79, syscallsInfinite), (8, syscallsInfinite),
    (sysAccess, 16), (sysBrk, 4), (sysClockGettime, syscallsInfinite),
    (sysClone, 1), (sysClose, syscallsInfinite), (sysExecve, 1), (sysExitGroup, 1),
    (sysGetThreadArea, 1), (sysFcntl, syscallsInfinite),
    (sysFstat, syscallsInfinite), (sysFutex, syscallsInfinite), (sysGetdents64, 2),
    (sysGetegid, syscallsInfinite), (sysGeteuid, syscallsInfinite),
    (sysGetgid, syscallsInfinite), (sysGetrlimit, 1), (sysOpenat, 1),
    (sysGetuid, syscallsInfinite), (sysMmap, syscallsInfinite),
    (sysMprotect, syscallsInfinite), (sysMunmap, syscallsInfinite),
    (sysOpen, syscallsInfinite), (sysRead, syscallsInfinite), (sysReadlink, 2),
    (sysRtSigaction, 2), (sysRtSigprocmask, 1), (sysSetRobustList, 1),
    (sysSetThreadArea, 1), (sysSetTidAddress, 1), (sysTime, syscallsInfinite),
    (sysStat, syscallsInfinite), (sysUname, 1), (sysWrite, syscallsInfinite),
    (sysOpenat, syscallsInfinite), (sysPrlimit64, syscallsInfinite)]

/-- `SC_PYTHON`. -/
def scPython : List (ℕ × ℤ) :=
  [(32, syscallsInfinite), (131, syscallsInfinite), (318, syscallsInfinite),
    (102, syscallsInfinite), (117, syscallsInfinite), (146, syscallsInfinite),
    (158, syscallsInfinite), (191, syscallsInfinite), (257, syscallsInfinite),
    (39, syscallsInfinite), (41, syscallsInfinite), (42, syscallsInfinite),
    (60, syscallsInfinite), (sysAccess, syscallsInfinite), (sysBrk, syscallsInfinite),
    (sysClose, syscallsInfinite), (sysExecve, syscallsInfinite),
    (sysExitGroup, syscallsInfinite), (sysFcntl, syscallsInfinite),
    (sysFstat, syscallsInfinite), (sysFutex, syscallsInfinite),
    (sysGetcwd, syscallsInfinite), (sysGetdents, syscallsInfinite),
    (sysGetegid, syscallsInfinite), (sysGeteuid, syscallsInfinite),
    (sysGetgid, syscallsInfinite), (sysGetrlimit, syscallsInfinite),
    (sysGetuid, syscallsInfinite), (sysIoctl, syscallsInfinite),
    (sysLseek, syscallsInfinite), (sysLstat, syscallsInfinite),
    (sysMmap, syscallsInfinite), (sysMprotect, syscallsInfinite),
    (sysMremap, syscallsInfinite), (sysMunmap, syscallsInfinite),
    (sysOpen, syscallsInfinite), (sysRead, syscallsInfinite),
    (sysReadlink, syscallsInfinite), (sysRtSigaction, syscallsInfinite),
    (sysRtSigprocmask, syscallsInfinite), (sysSetRobustList, syscallsInfinite),
    (sysSetTidAddress, syscallsInfinite), (sysStat, syscallsInfinite),
    (sysSysinfo, syscallsInfinite), (sysWrite, syscallsInfinite),
    (sysPrlimit64, syscallsInfinite)]

/-- `SC_KOTLIN`. -/
def scKotlin : List (ℕ × ℤ) :=
  [(110, syscallsInfinite), (111, syscallsInfinite), (13, syscallsInfinite),
    (16, syscallsInfinite), (22, syscallsInfinite), (33, syscallsInfinite),
    (39, syscallsInfinite), (6, syscallsInfinite), (61, syscallsInfinite),
    (79, syscallsInfinite), (8, syscallsInfinite), (sysAccess, 16),
    (sysArchPrctl, 16), (sysBrk, syscallsInfinite),
    (sysClockGettime, syscallsInfinite), (sysClone, 16),
    (sysClose, syscallsInfinite), (sysExecve, syscallsInfinite), (sysExitGroup, 1),
    (sysGetThreadArea, 1), (sysFcntl, syscallsInfinite),
    (sysFstat, syscallsInfinite), (sysFutex, syscallsInfinite), (sysGetdents64, 2),
    (sysGetegid, syscallsInfinite), (sysGeteuid, syscallsInfinite),
    (sysGetgid, syscallsInfinite), (sysGetrlimit, syscallsInfinite), (sysOpenat, 1),
    (sysGetuid, syscallsInfinite), (sysMmap, syscallsInfinite),
    (sysMprotect, syscallsInfinite), (sysMunmap, syscallsInfinite),
    (sysOpen, syscallsInfinite), (sysRead, syscallsInfinite), (sysReadlink, 2),
    (sysRtSigaction, 16), (sysRtSigprocmask, syscallsInfinite),
    (sysSetRobustList, 1), (sysSetThreadArea, 1), (sysSetTidAddress, 1),
    (sysTime, syscallsInfinite), (sysStat, syscallsInfinite), (sysSysinfo, 4),
    (sysUname, 16), (sysWrite, syscallsInfinite), (sysRtSigaction, syscallsInfinite),
    (sysSocket, 4), (sysConnect, 4), (sysGettimeofday, syscallsInfinite),
    (sysAccess, syscallsInfinite), (sysOpenat, syscallsInfinite),
    (sysPrlimit64, syscallsInfinite)]

/-- The table that `init_syscalls` picks for a language. -/
def syscallTable : Lang → List (ℕ × ℤ)
  | .c11 | .c99 => scC
  | .cpp98 | .cpp11 | .cpp14 | .cpp17 => scCpp
  | .pascal => scPascal
  | .java => scJava
  | .python27 | .python3 => scPython
  | .kotlin => scKotlin

/-- Every table entry lies inside `syscalls[1024]`. -/
theorem syscallTable_id_lt (lang : Lang) :
    ∀ entry ∈ syscallTable lang, entry.1 < 1024 := by
  cases lang <;> decide

/-- A table entry allows a positive number of calls or any number. -/
theorem syscallTable_count (lang : Lang) :
    ∀ entry ∈ syscallTable lang, 0 < entry.2 ∨ entry.2 = syscallsInfinite := by
  cases lang <;> decide

end PowerJudge
