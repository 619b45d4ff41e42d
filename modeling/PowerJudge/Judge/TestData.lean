import PowerJudge.Judge.Arguments

/-!
# The data directory

`data_filter` is used twice, before and after `check_spj`: once to size the
alarm of the whole run and once to find the cases.  The two counts are compared
here; with a special judge the second one also takes the cases without a
standard output.
-/

namespace PowerJudge

/-! ## The filter -/

def dotIn : Bytes := ascii ".in"

def dotOut : Bytes := ascii ".out"

/-- `checkInFile`. -/
def checkInFile (filename : Bytes) : ℕ :=
  if filename.length ≤ 3 ∨ filename.drop (filename.length - 3) ≠ dotIn then 0
  else filename.length - 3

/-- The data directory of a problem. -/
structure DataDir where
  /-- The names that `scandir` reads. -/
  entries : List Bytes
  /-- `access(_, F_OK) != -1` for a name in the directory. -/
  access : Bytes → Bool
  /-- Whether `spj` exists after `g++` has run on a source with this name. -/
  compiles : Bytes → Bool
  /-- `scandir` counts in an `int`. -/
  length_lt : entries.length < 2 ^ 31

/-- `data_filter`. -/
def dataFilter (dir : DataDir) (spj : Bool) (name : Bytes) : Bool :=
  let namelen := checkInFile name
  if namelen = 0 then false
  else if spj then true
  else dir.access (name.take namelen ++ dotOut)

/-- The number of names that `scandir` selects with `data_filter`. -/
def numOfTest (dir : DataDir) (spj : Bool) : ℕ :=
  dir.entries.countP (dataFilter dir spj)

/-- `check_spj_source`. -/
def checkSpjSource (dir : DataDir) (name : Bytes) : Bool :=
  dir.access name && dir.compiles name

/-- `check_spj`. -/
def checkSpj (dir : DataDir) : Bool :=
  if dir.access (ascii "spj") then true
  else if checkSpjSource dir (ascii "spj.cc") then true
  else checkSpjSource dir (ascii "spj.c")

/-! ## The two counts -/

variable {dir : DataDir}

/-- An input file whose standard output is missing. -/
def lacksOutput (dir : DataDir) (name : Bytes) : Bool :=
  checkInFile name ≠ 0 && !dir.access (name.take (checkInFile name) ++ dotOut)

/-- The number of input files without a standard output. -/
def numLacking (dir : DataDir) : ℕ := dir.entries.countP (lacksOutput dir)

theorem dataFilter_spj (name : Bytes) :
    dataFilter dir true name = (dataFilter dir false name || lacksOutput dir name) := by
  by_cases hin : checkInFile name = 0
  · simp [dataFilter, lacksOutput, hin]
  · simp [dataFilter, lacksOutput, hin]

theorem not_lacksOutput_of_dataFilter {name : Bytes}
    (h : dataFilter dir false name = true) : lacksOutput dir name = false := by
  by_cases hin : checkInFile name = 0
  · simp [lacksOutput, hin]
  · simpa [dataFilter, lacksOutput, hin] using h

/-- With a special judge the cases without a standard output are counted too. -/
theorem numOfTest_spj (dir : DataDir) :
    numOfTest dir true = numOfTest dir false + numLacking dir := by
  unfold numOfTest numLacking
  induction dir.entries with
  | nil => rfl
  | cons name entries ih =>
      rw [List.countP_cons, List.countP_cons, List.countP_cons, ih, dataFilter_spj]
      by_cases hfilter : dataFilter dir false name = true
      · simp [hfilter, not_lacksOutput_of_dataFilter hfilter]
        omega
      · simp [hfilter]
        omega

theorem numOfTest_lt (dir : DataDir) (spj : Bool) : numOfTest dir spj < 2 ^ 31 :=
  lt_of_le_of_lt List.countP_le_length dir.length_lt

end PowerJudge
