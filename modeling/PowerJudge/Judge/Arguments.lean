import PowerJudge.Judge.Case
import PowerJudge.Support.Decimal

/-!
# The command line of the judge

`parse_arguments` and `check_arguments`, with every way in which they leave the
process.
-/

namespace PowerJudge

/-! ## Strings -/

def slash : UInt8 := 47

/-- `"%s/%s"`. -/
def joinPath (directory name : Bytes) : Bytes := directory ++ slash :: name

/-! ## Options -/

/-- The command line as `getopt` delivers it, and what the surroundings answer. -/
structure Arguments where
  /-- The option characters with their arguments; `'?'` for an unknown option. -/
  options : List (Char × Bytes)
  realpath : Bytes → Option Bytes
  /-- Whether `log_open` can open the log file. -/
  logOpens : Bool
  /-- `access(_, F_OK) != -1`, for the source file. -/
  sourceExists : Bytes → Bool

/-- The globals that the options are stored in. -/
structure Options where
  sid : ℤ
  pid : ℤ
  lang : ℤ
  judgeType : ℤ
  /-- An `unsigned int`. -/
  timeLimit : ℕ
  /-- An `unsigned int`. -/
  memoryLimit : ℕ
  cid : ℤ
  workDirRoot : Bytes
  dataDirRoot : Bytes
  timeLimit_lt : timeLimit < 2 ^ 32
  memoryLimit_lt : memoryLimit < 2 ^ 32

/-- The globals after `init`. -/
def Options.init : Options where
  sid := 0
  pid := 0
  lang := 0
  judgeType := acm
  timeLimit := 1000
  memoryLimit := 65536
  cid := 0
  workDirRoot := ascii "."
  dataDirRoot := []
  timeLimit_lt := by decide
  memoryLimit_lt := by decide

/-- `(unsigned int) n`. -/
def toUnsigned (n : ℤ) : ℕ := (n % 2 ^ 32).toNat

theorem toUnsigned_lt (n : ℤ) : toUnsigned n < 2 ^ 32 := by
  unfold toUnsigned
  omega

/-- The `switch` over one option. -/
def applyOption (args : Arguments) (o : Options) (option : Char × Bytes) :
    Outcome ExitReason Options :=
  match option.1 with
  | 's' => .returned { o with sid := atoi option.2 }
  | 'p' => .returned { o with pid := atoi option.2 }
  | 'l' => .returned { o with lang := atoi option.2 }
  | 'j' => .returned { o with judgeType := atoi option.2 }
  | 't' =>
      .returned { o with
        timeLimit := toUnsigned (atoi option.2)
        timeLimit_lt := toUnsigned_lt _ }
  | 'm' =>
      .returned { o with
        memoryLimit := toUnsigned (atoi option.2)
        memoryLimit_lt := toUnsigned_lt _ }
  | 'w' | 'd' =>
      match args.realpath option.2 with
      | some path => .returned { o with workDirRoot := path }
      | none => .exited .badParam
  | 'D' =>
      match args.realpath option.2 with
      | some path => .returned { o with dataDirRoot := path }
      | none => .exited .badParam
  | 'c' => .returned { o with cid := atoi option.2 }
  | _ => .exited .badParam

/-- The loop over the options. -/
def applyOptions (args : Arguments) :
    List (Char × Bytes) → Options → Outcome ExitReason Options
  | [], o => .returned o
  | option :: options, o => (applyOption args o option).bind (applyOptions args options)

/-- `check_arguments`, with the language it lets through. -/
def checkArguments (o : Options) : Outcome ExitReason Lang :=
  if o.sid = 0 then .exited .missParam
  else if o.pid = 0 then .exited .missParam
  else if o.dataDirRoot.length = 0 then .exited .missParam
  else
    match Lang.ofId o.lang with
    | some lang => .returned lang
    | none => .exited .badParam

/-- `lang_ext`. -/
def langExt : Lang → Bytes
  | .c11 => ascii "c"
  | .cpp11 => ascii "cc"
  | .pascal => ascii "pas"
  | .java => ascii "java"
  | .python27 => ascii "py"
  | .c99 => ascii "c"
  | .cpp98 => ascii "cc"
  | .cpp14 => ascii "cc"
  | .cpp17 => ascii "cc"
  | .python3 => ascii "py"
  | .kotlin => ascii "kt"

def javaTimeFactor : ℕ := 3

def javaMemoryFactor : ℕ := 3

def pythonTimeFactor : ℕ := 3

def pythonMemoryFactor : ℕ := 3

def kotlinTimeFactor : ℕ := 3

def kotlinMemoryFactor : ℕ := 3

/-- The factor by which the time limit of a language is multiplied. -/
def timeFactor : Lang → ℕ
  | .java => javaTimeFactor
  | .python27 => pythonTimeFactor
  | .python3 => pythonTimeFactor
  | .kotlin => kotlinTimeFactor
  | _ => 1

/-- The factor by which the memory limit of a language is multiplied. -/
def memoryFactor : Lang → ℕ
  | .java => javaMemoryFactor
  | .python27 => pythonMemoryFactor
  | .python3 => pythonMemoryFactor
  | .kotlin => kotlinMemoryFactor
  | _ => 1

theorem timeFactor_le (lang : Lang) : timeFactor lang ≤ 3 := by
  cases lang <;> decide

theorem memoryFactor_le (lang : Lang) : memoryFactor lang ≤ 3 := by
  cases lang <;> decide

/-- What is judged, and where. -/
structure Submission where
  sol : OjSolution
  cid : ℤ
  sid : ℤ
  workDir : Bytes
  dataDir : Bytes

/-- The part of `oj_solution` that the later phases read; `spj` is still
unset. -/
def Options.solution (o : Options) (lang : Lang) : OjSolution where
  lang := lang
  timeLimit := o.timeLimit * timeFactor lang
  memoryLimit := o.memoryLimit * memoryFactor lang
  judgeType := o.judgeType
  spj := false
  timeLimit_lt := by
    have hlimit := o.timeLimit_lt
    have hfactor := timeFactor_le lang
    calc
      o.timeLimit * timeFactor lang ≤ o.timeLimit * 3 := Nat.mul_le_mul_left _ hfactor
      _ < 3 * 2 ^ 32 := by omega
  memoryLimit_lt := by
    have hlimit := o.memoryLimit_lt
    have hfactor := memoryFactor_le lang
    calc
      o.memoryLimit * memoryFactor lang ≤ o.memoryLimit * 3 :=
        Nat.mul_le_mul_left _ hfactor
      _ < 3 * 2 ^ 32 := by omega

/-- `parse_arguments`. -/
def parseArguments (args : Arguments) : Outcome ExitReason Submission :=
  (applyOptions args args.options .init).bind fun o =>
    if !args.logOpens then .exited .failure
    else
      (checkArguments o).bind fun lang =>
        let workDir := joinPath o.workDirRoot (formatInt o.sid)
        let dataDir := joinPath o.dataDirRoot (formatInt o.pid)
        let sourceFile := joinPath workDir (ascii "Main." ++ langExt lang)
        if !args.sourceExists sourceFile then .exited .noSourceCode
        else
          .returned
            { sol := o.solution lang
              cid := o.cid
              sid := o.sid
              workDir := workDir
              dataDir := dataDir }

/-- Whatever is judged has the limits of the options, with the factor of its
language. -/
theorem parseArguments_eq_returned {args : Arguments} {submission : Submission}
    (h : parseArguments args = .returned submission) :
    ∃ o lang, submission.sol = Options.solution o lang := by
  rw [parseArguments, Outcome.bind_eq_returned_iff] at h
  obtain ⟨o, -, h⟩ := h
  split at h
  · cases h
  · rw [Outcome.bind_eq_returned_iff] at h
    obtain ⟨lang, -, h⟩ := h
    dsimp only at h
    split at h
    · cases h
    · cases h
      exact ⟨o, lang, rfl⟩

end PowerJudge
