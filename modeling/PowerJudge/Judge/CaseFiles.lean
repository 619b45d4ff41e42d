import Mathlib.Data.List.Infix
import PowerJudge.Judge.DiffReport
import PowerJudge.Judge.Watchdog

/-!
# The files of the cases

The cases are the input files of the data directory, in the order of their names.  Each
has its standard output beside it, its user output in the work directory, and the report
of its difference is appended to a file that all cases share.  The run over these files is
compared with the run in which every case has its files for itself.  The programs write to
their stdout and stderr only.
-/

namespace PowerJudge

/-! ## The names -/

/-- `scandir` with `data_filter` and `alphasort`, which compares bytes in the locale that a
program starts with. -/
def scanCases (dir : DataDir) (spj : Bool) : List Bytes :=
  (dir.entries.filter (dataFilter dir spj)).mergeSort fun a b => a ≤ b

def pathSize : ℕ := 4096

/-- What `snprintf` leaves of a path in a buffer of `size` bytes. -/
def printPath (size : ℕ) (directory name : Bytes) : Bytes :=
  (joinPath directory name).take (size - 1)

/-- The paths that `prepare_files` prints; `link` is that of the symbolic link. -/
structure CasePaths where
  infile : Bytes
  outfile : Bytes
  userfile : Bytes
  link : Bytes
  deriving DecidableEq, Repr

/-- The name of a case without `.in`. -/
def stem (filename : Bytes) : Bytes := filename.take (filename.length - 3)

/-- `prepare_files`. -/
def prepareFiles (workDir dataDir filename : Bytes) : CasePaths where
  infile := printPath pathSize dataDir (stem filename ++ dotIn)
  outfile := printPath pathSize dataDir (stem filename ++ dotOut)
  userfile := printPath pathSize workDir (stem filename ++ dotOut)
  link := printPath pathSize workDir (stem filename ++ dotIn)

/-- The path of `stderr_file_executive`. -/
def errorPath (workDir : Bytes) : Bytes :=
  printPath pathSize workDir (ascii "stderr_executive.txt")

/-- The path that `make_diff_out2` opens. -/
def diffPath (workDir : Bytes) : Bytes := printPath buffSize workDir (ascii "diff.out")

/-! ## The run over files -/

/-- The contents of files by their paths; `none` where there is no file. -/
abbrev Files := Bytes → Option Bytes

/-- What an executor and its surroundings do in one case: `case` with the files left open,
the bytes written to the redirected stdout, what the file of stderr holds then, and the
buffers of `make_diff_out2` as they come from the stack. -/
structure Behaviour where
  case : TestCase
  stdout : Bytes
  stderr : Option Bytes
  line1 : Memory
  line2 : Memory

/-- The case with the contents of its two files. -/
def Behaviour.reading (b : Behaviour) (fileOut fileUser : Option Bytes) : TestCase :=
  { b.case with fileOut := fileOut, fileUser := fileUser }

/-- Whether `judge` calls `oj_compare_output`. -/
def comparesFiles (sol : OjSolution) (c : TestCase) (p : Progress) : Bool :=
  match c.forks, waitLoop sol c c.reports (startCase sol p) with
  | true, .returned (_, last) =>
      last.status.ifExited && decide (NormalQuit sol last.status) && !sol.spj
  | _, _ => false

/-- The report of a case, empty if there is none; `none` where `make_diff_out2` reads past
the end of a buffer. -/
def reportOf (sol : OjSolution) (b : Behaviour) (c : TestCase) (p : Progress) (path : Bytes) :
    Option Bytes :=
  if comparesFiles sol c p then compareDiffOut b.line1 b.line2 c.fileOut c.fileUser path []
  else some []

/-- The files when the executor has opened its stdout for writing, and has written. -/
def withOutput (workDir dataDir : Bytes) (entry : Bytes × Behaviour) (files : Files) : Files :=
  Function.update (Function.update files (errorPath workDir) entry.2.stderr)
    (prepareFiles workDir dataDir entry.1).userfile (some entry.2.stdout)

/-- The case as the judge reads it from the files. -/
def readCase (workDir dataDir : Bytes) (entry : Bytes × Behaviour) (files : Files) : TestCase :=
  entry.2.reading (files (prepareFiles workDir dataDir entry.1).outfile)
    (files (prepareFiles workDir dataDir entry.1).userfile)

/-- The files when a report is appended, for which the file is made if it is missing. -/
def withReport (workDir report : Bytes) (files : Files) : Files :=
  if report = [] then files
  else Function.update files (diffPath workDir)
    (some ((files (diffPath workDir)).getD [] ++ report))

/-- A case as it was judged. -/
structure FileRun where
  entry : Bytes × Behaviour
  case : TestCase
  before : Progress
  report : Bytes

/-- The call of `judge` in a run over files. -/
def FileRun.call (sol : OjSolution) (run : FileRun) : Call := ⟨sol, run.case, run.before⟩

/-- The loop of `run_solution` over the cases, with the files that it leaves. -/
def runOnFiles (sol : OjSolution) (workDir dataDir : Bytes) :
    List (Bytes × Behaviour) → Files → Progress → Option (List FileRun × Files)
  | [], files, _ => some ([], files)
  | entry :: rest, files, p =>
      let written := withOutput workDir dataDir entry files
      let c := readCase workDir dataDir entry written
      (reportOf sol entry.2 c p (prepareFiles workDir dataDir entry.1).outfile).bind fun report =>
        let reported := withReport workDir report written
        match judge sol c p with
        | .returned (p', ok) =>
            if ok ∨ sol.judgeType ≠ acm then
              (runOnFiles sol workDir dataDir rest reported p').map fun ended =>
                (⟨entry, c, p, report⟩ :: ended.1, ended.2)
            else some ([⟨entry, c, p, report⟩], reported)
        | _ => some ([⟨entry, c, p, report⟩], reported)

variable {sol : OjSolution} {workDir dataDir : Bytes} {name name' : Bytes}

/-! ## Paths -/

/-- A path is taken apart at its last slash. -/
theorem joinPath_inj {directory directory' : Bytes} (hname : slash ∉ name)
    (hname' : slash ∉ name') (h : joinPath directory name = joinPath directory' name') :
    directory = directory' ∧ name = name' := by
  rw [joinPath, joinPath, List.append_eq_append_iff] at h
  have hsplit : ∀ {between before after : Bytes}, slash ∉ before →
      slash :: before = between ++ slash :: after → between = [] ∧ before = after := by
    intro between before after hbefore heq
    cases between with
    | nil => exact ⟨rfl, (List.cons.inj heq).2⟩
    | cons b between =>
        have hmem : slash ∈ before := by
          rw [(List.cons.inj heq).2]
          simp
        exact (hbefore hmem).elim
  rcases h with ⟨between, rfl, heq⟩ | ⟨between, rfl, heq⟩
  · obtain ⟨rfl, rfl⟩ := hsplit hname heq
    exact ⟨(List.append_nil _).symm, rfl⟩
  · obtain ⟨rfl, rfl⟩ := hsplit hname' heq
    exact ⟨List.append_nil _, rfl⟩

/-- The directories of a run: the names that `run_solution` prints fit its buffers, and the
data directory is not within the work directory. -/
structure Directories (workDir dataDir : Bytes) : Prop where
  apart : ¬joinPath workDir [] <+: joinPath dataDir []
  work_lt : workDir.length + 21 < pathSize
  data_lt : dataDir.length + 4 < pathSize

theorem Directories.ne (h : Directories workDir dataDir) : workDir ≠ dataDir := by
  rintro rfl
  exact h.apart (List.prefix_refl _)

/-- The name of an input file in a directory, which is short enough for its paths. -/
structure IsInput (workDir dataDir name : Bytes) : Prop where
  suffix : checkInFile name ≠ 0
  slash_not_mem : slash ∉ name
  work_lt : workDir.length + name.length + 2 < pathSize
  data_lt : dataDir.length + name.length + 2 < pathSize

theorem eq_stem_append (h : checkInFile name ≠ 0) : name = stem name ++ dotIn := by
  have hin : name.drop (name.length - 3) = dotIn := by
    by_contra hne
    exact h (by simp [checkInFile, hne])
  rw [← hin, stem, List.take_append_drop]

theorem length_stem (h : checkInFile name ≠ 0) : (stem name).length + 3 = name.length := by
  have hlength := congrArg List.length (eq_stem_append h)
  rw [List.length_append] at hlength
  have hdot : dotIn.length = 3 := by decide
  omega

theorem slash_not_mem_stem (h : slash ∉ name) (extension : Bytes)
    (hextension : slash ∉ extension) : slash ∉ stem name ++ extension := by
  rw [List.mem_append, not_or]
  exact ⟨fun hmem => h (List.mem_of_mem_take hmem), hextension⟩

theorem printPath_eq {size : ℕ} {directory : Bytes}
    (h : directory.length + name.length + 1 < size) :
    printPath size directory name = joinPath directory name := by
  rw [printPath, List.take_of_length_le]
  rw [joinPath, List.length_append, List.length_cons]
  omega

theorem IsInput.outfile_eq (h : IsInput workDir dataDir name) :
    (prepareFiles workDir dataDir name).outfile = joinPath dataDir (stem name ++ dotOut) := by
  have hlength := length_stem h.suffix
  have hdata := h.data_lt
  have hdot : dotOut.length = 4 := by decide
  apply printPath_eq
  rw [List.length_append]
  omega

theorem IsInput.userfile_eq (h : IsInput workDir dataDir name) :
    (prepareFiles workDir dataDir name).userfile = joinPath workDir (stem name ++ dotOut) := by
  have hlength := length_stem h.suffix
  have hwork := h.work_lt
  have hdot : dotOut.length = 4 := by decide
  apply printPath_eq
  rw [List.length_append]
  omega

theorem Directories.diffPath_eq (h : Directories workDir dataDir) :
    diffPath workDir = joinPath workDir (ascii "diff.out") := by
  have hwork := h.work_lt
  have hname : (ascii "diff.out").length = 8 := by decide
  have hsize : pathSize < buffSize := by decide
  apply printPath_eq
  omega

theorem Directories.errorPath_eq (h : Directories workDir dataDir) :
    errorPath workDir = joinPath workDir (ascii "stderr_executive.txt") := by
  have hwork := h.work_lt
  have hname : (ascii "stderr_executive.txt").length = 20 := by decide
  apply printPath_eq
  omega

theorem Directories.spjPath_eq (h : Directories workDir dataDir) :
    printPath pathSize dataDir (ascii "spj") = joinPath dataDir (ascii "spj") := by
  have hdata := h.data_lt
  have hname : (ascii "spj").length = 3 := by decide
  apply printPath_eq
  omega

theorem slash_not_mem_dotOut : slash ∉ dotOut := by decide

/-- The input file itself is what the link and the redirection name. -/
theorem IsInput.infile_eq (h : IsInput workDir dataDir name) :
    (prepareFiles workDir dataDir name).infile = joinPath dataDir name := by
  have hdata := h.data_lt
  have hprint : (prepareFiles workDir dataDir name).infile =
      printPath pathSize dataDir (stem name ++ dotIn) := rfl
  rw [hprint, ← eq_stem_append h.suffix]
  apply printPath_eq
  omega

/-- Two cases have their user outputs in two files. -/
theorem IsInput.userfile_inj (h : IsInput workDir dataDir name)
    (h' : IsInput workDir dataDir name')
    (heq : (prepareFiles workDir dataDir name).userfile =
      (prepareFiles workDir dataDir name').userfile) : name = name' := by
  rw [h.userfile_eq, h'.userfile_eq] at heq
  have hnames := (joinPath_inj (slash_not_mem_stem h.slash_not_mem _ slash_not_mem_dotOut)
    (slash_not_mem_stem h'.slash_not_mem _ slash_not_mem_dotOut) heq).2
  rw [eq_stem_append h.suffix, eq_stem_append h'.suffix, List.append_cancel_right hnames]

/-- A file of the data directory is none of the work directory. -/
theorem Directories.joinPath_ne (hdirs : Directories workDir dataDir) (hname : slash ∉ name)
    (hname' : slash ∉ name') : joinPath dataDir name ≠ joinPath workDir name' :=
  fun heq => hdirs.ne (joinPath_inj hname hname' heq).1.symm

theorem IsInput.slash_not_mem_userfile (h : IsInput workDir dataDir name) :
    slash ∉ stem name ++ dotOut :=
  slash_not_mem_stem h.slash_not_mem _ slash_not_mem_dotOut

/-- A user output is no file of stderr. -/
theorem IsInput.userfile_ne_errorPath (h : IsInput workDir dataDir name)
    (hdirs : Directories workDir dataDir) :
    (prepareFiles workDir dataDir name).userfile ≠ errorPath workDir := by
  intro heq
  rw [h.userfile_eq, hdirs.errorPath_eq] at heq
  have hname := (joinPath_inj h.slash_not_mem_userfile (by decide) heq).2
  have hsuffix : dotOut <:+ ascii "stderr_executive.txt" := ⟨stem name, hname⟩
  exact absurd hsuffix (by decide)

theorem Directories.diffPath_ne_errorPath (h : Directories workDir dataDir) :
    diffPath workDir ≠ errorPath workDir := by
  intro heq
  rw [h.diffPath_eq, h.errorPath_eq] at heq
  have hname := (joinPath_inj (by decide) (by decide) heq).2
  exact absurd hname (by decide)

/-- The report has its file for itself unless an input is called `diff.in`. -/
theorem IsInput.userfile_eq_diffPath_iff (h : IsInput workDir dataDir name)
    (hdirs : Directories workDir dataDir) :
    (prepareFiles workDir dataDir name).userfile = diffPath workDir ↔
      name = ascii "diff.in" := by
  rw [h.userfile_eq, hdirs.diffPath_eq]
  have hout : ascii "diff.out" = ascii "diff" ++ dotOut := by decide
  have hin : ascii "diff.in" = ascii "diff" ++ dotIn := by decide
  constructor
  · intro heq
    have hnames := (joinPath_inj (slash_not_mem_stem h.slash_not_mem _ slash_not_mem_dotOut)
      (by decide) heq).2
    rw [hout] at hnames
    rw [eq_stem_append h.suffix, hin, List.append_cancel_right hnames]
  · intro heq
    have hstem : stem name ++ dotIn = ascii "diff" ++ dotIn := by
      rw [← hin, ← heq, ← eq_stem_append h.suffix]
    rw [hout, List.append_cancel_right hstem]

/-! ## One case -/

/-- The cases that are left after a case. -/
def goesOn (sol : OjSolution) (c : TestCase) (p : Progress) : Option Progress :=
  match judge sol c p with
  | .returned (p', ok) => if ok ∨ sol.judgeType ≠ acm then some p' else none
  | _ => none

theorem calls_cons (sol : OjSolution) (c : TestCase) (cases : List TestCase) (p : Progress) :
    calls sol (c :: cases) p = ⟨sol, c, p⟩ :: ((goesOn sol c p).map (calls sol cases)).getD [] := by
  rw [calls, goesOn]
  cases judge sol c p with
  | exited reason => rfl
  | crashed => rfl
  | blocked => rfl
  | returned judged =>
      dsimp only
      split <;> rfl

/-- What a run leaves: its first case, and the run of the rest if the loop goes on. -/
theorem runOnFiles_cons {entry : Bytes × Behaviour} {rest : List (Bytes × Behaviour)}
    {files files' : Files} {p : Progress} {runs : List FileRun}
    (h : runOnFiles sol workDir dataDir (entry :: rest) files p = some (runs, files')) :
    ∃ report later, runs = ⟨entry, readCase workDir dataDir entry
        (withOutput workDir dataDir entry files), p, report⟩ :: later ∧
      reportOf sol entry.2 (readCase workDir dataDir entry
        (withOutput workDir dataDir entry files)) p
        (prepareFiles workDir dataDir entry.1).outfile = some report ∧
      match goesOn sol (readCase workDir dataDir entry
          (withOutput workDir dataDir entry files)) p with
      | some p' => runOnFiles sol workDir dataDir rest
          (withReport workDir report (withOutput workDir dataDir entry files)) p' =
            some (later, files')
      | none => later = [] ∧
          files' = withReport workDir report (withOutput workDir dataDir entry files) := by
  rw [runOnFiles, Option.bind_eq_some_iff] at h
  obtain ⟨report, hreport, h⟩ := h
  unfold goesOn
  cases hjudge : judge sol (readCase workDir dataDir entry
      (withOutput workDir dataDir entry files)) p with
  | exited reason =>
      simp only [hjudge] at h
      cases h
      exact ⟨report, [], rfl, hreport, rfl, rfl⟩
  | crashed =>
      simp only [hjudge] at h
      cases h
      exact ⟨report, [], rfl, hreport, rfl, rfl⟩
  | blocked =>
      simp only [hjudge] at h
      cases h
      exact ⟨report, [], rfl, hreport, rfl, rfl⟩
  | returned judged =>
      obtain ⟨p', ok⟩ := judged
      simp only [hjudge] at h
      by_cases hgo : ok = true ∨ sol.judgeType ≠ acm
      · rw [if_pos hgo, Option.map_eq_some_iff] at h
        obtain ⟨⟨later, last⟩, hrest, heq⟩ := h
        cases heq
        exact ⟨report, later, rfl, hreport, by simpa [hgo] using hrest⟩
      · rw [if_neg hgo] at h
        cases h
        exact ⟨report, [], rfl, hreport, by simp [hgo]⟩

theorem withReport_of_ne {path : Bytes} (h : path ≠ diffPath workDir) (report : Bytes)
    (files : Files) : withReport workDir report files path = files path := by
  unfold withReport
  split
  · rfl
  · exact Function.update_of_ne h _ _

theorem withReport_diffPath (workDir report : Bytes) (files : Files) :
    (withReport workDir report files (diffPath workDir)).getD [] =
      (files (diffPath workDir)).getD [] ++ report := by
  unfold withReport
  split
  · next hnone => rw [hnone, List.append_nil]
  · rw [Function.update_self, Option.getD_some]

theorem withOutput_of_ne {entry : Bytes × Behaviour} {path : Bytes}
    (h : path ≠ (prepareFiles workDir dataDir entry.1).userfile)
    (herror : path ≠ errorPath workDir) (files : Files) :
    withOutput workDir dataDir entry files path = files path := by
  rw [withOutput, Function.update_of_ne h, Function.update_of_ne herror]

theorem withOutput_userfile (entry : Bytes × Behaviour) (files : Files) :
    withOutput workDir dataDir entry files (prepareFiles workDir dataDir entry.1).userfile =
      some entry.2.stdout :=
  Function.update_self _ _ _

/-! ## The run -/

/-- A case with its files for itself. -/
def ownCase (workDir dataDir : Bytes) (files : Files) (entry : Bytes × Behaviour) : TestCase :=
  entry.2.reading (files (prepareFiles workDir dataDir entry.1).outfile) (some entry.2.stdout)

/-- What a case writes keeps the files of the data directory. -/
theorem data_kept (hdirs : Directories workDir dataDir) {entry : Bytes × Behaviour}
    (hentry : IsInput workDir dataDir entry.1) (hname : slash ∉ name) (files : Files)
    (report : Bytes) :
    withReport workDir report (withOutput workDir dataDir entry files) (joinPath dataDir name) =
      files (joinPath dataDir name) := by
  have hdiff : joinPath dataDir name ≠ diffPath workDir := by
    rw [hdirs.diffPath_eq]
    exact hdirs.joinPath_ne hname (by decide)
  have herror : joinPath dataDir name ≠ errorPath workDir := by
    rw [hdirs.errorPath_eq]
    exact hdirs.joinPath_ne hname (by decide)
  have huser : joinPath dataDir name ≠ (prepareFiles workDir dataDir entry.1).userfile := by
    rw [hentry.userfile_eq]
    exact hdirs.joinPath_ne hname hentry.slash_not_mem_userfile
  rw [withReport_of_ne hdiff, withOutput_of_ne huser herror]

/-- Every case is judged as if it had its files for itself. -/
theorem runOnFiles_calls (hdirs : Directories workDir dataDir) {entries : List (Bytes × Behaviour)}
    (hinput : ∀ entry ∈ entries, IsInput workDir dataDir entry.1) {files files₀ files' : Files}
    (hfiles : ∀ entry ∈ entries, files (prepareFiles workDir dataDir entry.1).outfile =
      files₀ (prepareFiles workDir dataDir entry.1).outfile)
    {p : Progress} {runs : List FileRun}
    (h : runOnFiles sol workDir dataDir entries files p = some (runs, files')) :
    runs.map (FileRun.call sol) = calls sol (entries.map (ownCase workDir dataDir files₀)) p := by
  induction entries generalizing files p runs with
  | nil =>
      cases h
      rfl
  | cons entry rest ih =>
      have hentry := hinput entry List.mem_cons_self
      have hown : readCase workDir dataDir entry (withOutput workDir dataDir entry files) =
          ownCase workDir dataDir files₀ entry := by
        have hkept := data_kept hdirs hentry hentry.slash_not_mem_userfile files []
        rw [withReport, if_pos rfl, ← hentry.outfile_eq] at hkept
        rw [readCase, withOutput_userfile, hkept, hfiles entry List.mem_cons_self]
        rfl
      obtain ⟨report, later, rfl, -, hlater⟩ := runOnFiles_cons h
      rw [hown] at hlater ⊢
      rw [List.map_cons, List.map_cons, calls_cons, FileRun.call]
      congr 1
      cases hgo : goesOn sol (ownCase workDir dataDir files₀ entry) p with
      | none =>
          rw [hgo] at hlater
          rw [hlater.1]
          rfl
      | some p' =>
          rw [hgo] at hlater
          apply ih (fun e he => hinput e (List.mem_cons_of_mem _ he)) _ hlater
          intro e he
          have hother := hinput e (List.mem_cons_of_mem _ he)
          rw [hother.outfile_eq, data_kept hdirs hentry hother.slash_not_mem_userfile,
            ← hother.outfile_eq]
          exact hfiles e (List.mem_cons_of_mem _ he)

/-- The cases judged are the first ones. -/
theorem runOnFiles_entries {entries : List (Bytes × Behaviour)} {files files' : Files}
    {p : Progress} {runs : List FileRun}
    (h : runOnFiles sol workDir dataDir entries files p = some (runs, files')) :
    runs.map FileRun.entry <+: entries := by
  induction entries generalizing files p runs with
  | nil =>
      cases h
      exact List.prefix_refl _
  | cons entry rest ih =>
      obtain ⟨report, later, rfl, -, hlater⟩ := runOnFiles_cons h
      rw [List.map_cons, List.prefix_cons_inj]
      split at hlater
      · exact ih hlater
      · rw [hlater.1]
        exact List.nil_prefix

/-- Nothing is written but the user outputs, stderr and the report. -/
theorem runOnFiles_frame {entries : List (Bytes × Behaviour)} {files files' : Files}
    {p : Progress} {runs : List FileRun} {path : Bytes} (hdiff : path ≠ diffPath workDir)
    (herror : path ≠ errorPath workDir)
    (h : runOnFiles sol workDir dataDir entries files p = some (runs, files'))
    (huser : ∀ run ∈ runs, path ≠ (prepareFiles workDir dataDir run.entry.1).userfile) :
    files' path = files path := by
  induction entries generalizing files p runs with
  | nil =>
      cases h
      rfl
  | cons entry rest ih =>
      obtain ⟨report, later, rfl, -, hlater⟩ := runOnFiles_cons h
      have hhead := huser _ List.mem_cons_self
      have hkept : withReport workDir report (withOutput workDir dataDir entry files) path =
          files path := by
        rw [withReport_of_ne hdiff, withOutput_of_ne hhead herror]
      split at hlater
      · rw [ih hlater fun run hrun => huser run (List.mem_cons_of_mem _ hrun), hkept]
      · rw [hlater.2, hkept]

/-- The files of the data directory are left. -/
theorem runOnFiles_data (hdirs : Directories workDir dataDir) (hname : slash ∉ name)
    {entries : List (Bytes × Behaviour)}
    (hinput : ∀ entry ∈ entries, IsInput workDir dataDir entry.1)
    {files files' : Files} {p : Progress} {runs : List FileRun}
    (h : runOnFiles sol workDir dataDir entries files p = some (runs, files')) :
    files' (joinPath dataDir name) = files (joinPath dataDir name) := by
  induction entries generalizing files p runs with
  | nil =>
      cases h
      rfl
  | cons entry rest ih =>
      obtain ⟨report, later, rfl, -, hlater⟩ := runOnFiles_cons h
      have hkept := data_kept hdirs (hinput entry List.mem_cons_self) hname files report
      split at hlater
      · rw [ih (fun e he => hinput e (List.mem_cons_of_mem _ he)) hlater, hkept]
      · rw [hlater.2, hkept]

/-- The user output of every case that was judged is still there at the end of the loop. -/
theorem runOnFiles_userfile (hdirs : Directories workDir dataDir)
    {entries : List (Bytes × Behaviour)} (hinput : ∀ entry ∈ entries, IsInput workDir dataDir entry.1)
    (hnodup : (entries.map Prod.fst).Nodup)
    (hdiff : ∀ entry ∈ entries, entry.1 ≠ ascii "diff.in") {files files' : Files}
    {p : Progress} {runs : List FileRun}
    (h : runOnFiles sol workDir dataDir entries files p = some (runs, files')) :
    ∀ run ∈ runs, files' (prepareFiles workDir dataDir run.entry.1).userfile =
      some run.entry.2.stdout := by
  induction entries generalizing files p runs with
  | nil =>
      cases h
      simp
  | cons entry rest ih =>
      have hentry := hinput entry List.mem_cons_self
      have hapart : (prepareFiles workDir dataDir entry.1).userfile ≠ diffPath workDir :=
        fun heq => hdiff entry List.mem_cons_self ((hentry.userfile_eq_diffPath_iff hdirs).mp heq)
      obtain ⟨report, later, rfl, -, hlater⟩ := runOnFiles_cons h
      rw [List.map_cons, List.nodup_cons] at hnodup
      have hwritten : withReport workDir report (withOutput workDir dataDir entry files)
          (prepareFiles workDir dataDir entry.1).userfile = some entry.2.stdout := by
        rw [withReport_of_ne hapart, withOutput_userfile]
      rw [List.forall_mem_cons]
      split at hlater
      · refine ⟨?_, ih (fun e he => hinput e (List.mem_cons_of_mem _ he)) hnodup.2
          (fun e he => hdiff e (List.mem_cons_of_mem _ he)) hlater⟩
        rw [runOnFiles_frame hapart (hentry.userfile_ne_errorPath hdirs) hlater, hwritten]
        intro run hrun heq
        have hmem : run.entry ∈ rest :=
          (runOnFiles_entries hlater).subset (List.mem_map_of_mem hrun)
        have hname := hentry.userfile_inj (hinput _ (List.mem_cons_of_mem _ hmem)) heq
        exact hnodup.1 (hname ▸ List.mem_map_of_mem hmem)
      · obtain ⟨rfl, rfl⟩ := hlater
        exact ⟨hwritten, by simp⟩

/-- The reports of all cases follow each other in their file. -/
theorem runOnFiles_diffPath (hdirs : Directories workDir dataDir)
    {entries : List (Bytes × Behaviour)} (hinput : ∀ entry ∈ entries, IsInput workDir dataDir entry.1)
    (hdiff : ∀ entry ∈ entries, entry.1 ≠ ascii "diff.in") {files files' : Files}
    {p : Progress} {runs : List FileRun}
    (h : runOnFiles sol workDir dataDir entries files p = some (runs, files')) :
    (files' (diffPath workDir)).getD [] =
      (files (diffPath workDir)).getD [] ++ (runs.map FileRun.report).flatten := by
  induction entries generalizing files p runs with
  | nil =>
      cases h
      simp
  | cons entry rest ih =>
      have hapart : diffPath workDir ≠ (prepareFiles workDir dataDir entry.1).userfile :=
        fun heq => hdiff entry List.mem_cons_self
          (((hinput entry List.mem_cons_self).userfile_eq_diffPath_iff hdirs).mp heq.symm)
      obtain ⟨report, later, rfl, -, hlater⟩ := runOnFiles_cons h
      have hreported := withReport_diffPath workDir report
        (withOutput workDir dataDir entry files)
      rw [withOutput_of_ne hapart hdirs.diffPath_ne_errorPath] at hreported
      rw [List.map_cons, List.flatten_cons, ← List.append_assoc, ← hreported]
      split at hlater
      · exact ih (fun e he => hinput e (List.mem_cons_of_mem _ he))
          (fun e he => hdiff e (List.mem_cons_of_mem _ he)) hlater
      · obtain ⟨rfl, rfl⟩ := hlater
        simp

/-- Every report is that of its case. -/
theorem runOnFiles_report {entries : List (Bytes × Behaviour)} {files files' : Files}
    {p : Progress} {runs : List FileRun}
    (h : runOnFiles sol workDir dataDir entries files p = some (runs, files')) :
    ∀ run ∈ runs, reportOf sol run.entry.2 run.case run.before
      (prepareFiles workDir dataDir run.entry.1).outfile = some run.report := by
  induction entries generalizing files p runs with
  | nil =>
      cases h
      simp
  | cons entry rest ih =>
      obtain ⟨report, later, rfl, hreport, hlater⟩ := runOnFiles_cons h
      rw [List.forall_mem_cons]
      split at hlater
      · exact ⟨hreport, ih hlater⟩
      · rw [hlater.1]
        exact ⟨hreport, by simp⟩

/-! ## The scanned names -/

variable {dir dir' : DataDir} {spj : Bool}

theorem mem_scanCases : name ∈ scanCases dir spj ↔
    name ∈ dir.entries ∧ dataFilter dir spj name = true := by
  rw [scanCases, List.mem_mergeSort, List.mem_filter]

theorem scanCases_nodup (spj : Bool) (hnodup : dir.entries.Nodup) : (scanCases dir spj).Nodup :=
  (List.mergeSort_perm _ _).nodup_iff.mpr (hnodup.filter _)

theorem IsInput.of_mem_scanCases
    (hinput : ∀ name ∈ dir.entries, checkInFile name ≠ 0 → IsInput workDir dataDir name)
    (hmem : name ∈ scanCases dir spj) : IsInput workDir dataDir name := by
  obtain ⟨hentry, hfilter⟩ := mem_scanCases.mp hmem
  refine hinput name hentry ?_
  intro hzero
  simp [dataFilter, hzero] at hfilter

/-- The cases are in the order of their names, each of them once. -/
theorem scanCases_pairwise (spj : Bool) (hnodup : dir.entries.Nodup) :
    (scanCases dir spj).Pairwise (· < ·) := by
  have hsorted : (scanCases dir spj).Pairwise fun a b => decide (a ≤ b) = true := by
    apply List.pairwise_mergeSort
    · intro a b c hab hbc
      exact decide_eq_true (List.le_trans (of_decide_eq_true hab) (of_decide_eq_true hbc))
    · intro a b
      rw [Bool.or_eq_true, decide_eq_true_iff, decide_eq_true_iff]
      exact List.le_total a b
  refine (hsorted.and (scanCases_nodup spj hnodup)).imp ?_
  rintro a b ⟨hle, hne⟩
  exact (List.le_iff_lt_or_eq.mp (of_decide_eq_true hle)).resolve_right hne

/-- The order in which the directory lists its entries does not matter. -/
theorem scanCases_congr (hnodup : dir.entries.Nodup) (hperm : dir'.entries.Perm dir.entries)
    (haccess : dir'.access = dir.access) : scanCases dir' spj = scanCases dir spj := by
  have hfilter : dataFilter dir' spj = dataFilter dir spj := by
    funext name
    rw [dataFilter, dataFilter, haccess]
  have hcases : (scanCases dir' spj).Perm (scanCases dir spj) := by
    unfold scanCases
    rw [hfilter]
    exact (List.mergeSort_perm _ _).trans
      ((hperm.filter _).trans (List.mergeSort_perm _ _).symm)
  refine hcases.eq_of_pairwise ?_ (scanCases_pairwise spj (hperm.nodup_iff.mpr hnodup))
    (scanCases_pairwise spj hnodup)
  intro a b _ _ hab hba
  exact (List.lt_asymm hab hba).elim

theorem case_mem_of_mem_calls {cases : List TestCase} {p : Progress} {call : Call}
    (h : call ∈ calls sol cases p) : call.case ∈ cases := by
  induction cases generalizing p with
  | nil => cases h
  | cons c cases ih =>
      rw [calls_cons] at h
      rcases List.mem_cons.mp h with rfl | h
      · exact List.mem_cons_self
      · cases hgo : goesOn sol c p with
        | none =>
            rw [hgo] at h
            cases h
        | some p' =>
            rw [hgo] at h
            exact List.mem_cons_of_mem _ (ih h)

/-- Without a special judge a case has a standard output beside it. -/
theorem outfile_of_mem_scanCases {files : Files}
    (hinput : IsInput workDir dataDir name) (hmem : name ∈ scanCases dir false)
    (hexists : ∀ name, dir.access name = true → files (joinPath dataDir name) ≠ none) :
    files (prepareFiles workDir dataDir name).outfile ≠ none := by
  have hfilter := (mem_scanCases.mp hmem).2
  rw [hinput.outfile_eq]
  apply hexists
  rw [dataFilter, if_neg hinput.suffix, if_neg Bool.false_ne_true] at hfilter
  have hlength : checkInFile name = name.length - 3 := by
    have hsuffix := hinput.suffix
    unfold checkInFile at hsuffix ⊢
    split at hsuffix
    · exact (hsuffix rfl).elim
    · next hin => rw [if_neg hin]
  rwa [hlength] at hfilter

end PowerJudge
