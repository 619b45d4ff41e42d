import PowerJudge.Judge.CaseFiles

/-!
# The files of a solution

Around the loop over the cases, `run_solution` writes to its directories too: it compiles
the special judge of the problem, and it copies the runtime of Python into the work
directory and removes it again, with the user outputs whose names look like a part of it.
-/

namespace PowerJudge

/-! ## Around the loop -/

/-- What the commands of `run_solution` leave where they write: the runtime of Python, and
the special judge. -/
structure Commands where
  runtime : Files
  spj : Option Bytes

/-- The directories that `copy_python_runtime` makes and `clean_workdir` removes. -/
def runtimeDirs : List Bytes := [ascii "lib", ascii "lib64", ascii "bin", ascii "usr"]

/-- The path is one of these directories, below one of them, or matches
`<work_dir>/python*`. -/
def IsRuntime (workDir path : Bytes) : Prop :=
  (∃ directory ∈ runtimeDirs, path = joinPath workDir directory ∨
    joinPath (joinPath workDir directory) [] <+: path) ∨
  (joinPath workDir (ascii "python") <+: path ∧ slash ∉ path.drop (workDir.length + 1))

instance (workDir path : Bytes) : Decidable (IsRuntime workDir path) :=
  inferInstanceAs (Decidable (_ ∨ _ ∧ _))

/-- `copy_python_runtime_python2` and `copy_python_runtime_python3`. -/
def copyPythonRuntime (workDir : Bytes) (commands : Commands) (files : Files) : Files :=
  fun path =>
    if IsRuntime workDir path ∨ path = joinPath workDir (ascii "error.log") then
      commands.runtime path
    else files path

/-- `clean_workdir`. -/
def cleanWorkdir (workDir : Bytes) (files : Files) : Files :=
  fun path => if IsRuntime workDir path then none else files path

/-- The files after `check_spj`, which compiles a source if there is no `spj`. -/
def checkSpjFiles (dataDir : Bytes) (dir : DataDir) (commands : Commands) (files : Files) : Files :=
  if dir.access (ascii "spj") then files
  else if dir.access (ascii "spj.cc") ∨ dir.access (ascii "spj.c") then
    Function.update files (printPath pathSize dataDir (ascii "spj")) commands.spj
  else files

/-- Whether the runtime of Python is copied. -/
def copiesRuntime (fastJudge : Bool) (lang : Lang) : Bool := !fastJudge && lang.isPython

/-- The case did not end the judge. -/
def FileRun.returns (sol : OjSolution) (run : FileRun) : Bool :=
  match judge sol run.case run.before with
  | .returned _ => true
  | _ => false

/-- The solution after `check_spj`. -/
def OjSolution.checked (sol : OjSolution) (dir : DataDir) : OjSolution :=
  { sol with spj := checkSpj dir }

section RunSolution

variable (fastJudge : Bool) (commands : Commands) (sol : OjSolution) (workDir dataDir : Bytes)
  (dir : DataDir)

/-- The files before the loop of `run_solution`. -/
def beforeCases (files : Files) : Files :=
  checkSpjFiles dataDir dir commands
    (if copiesRuntime fastJudge sol.lang then copyPythonRuntime workDir commands files else files)

/-- Whether `clean_workdir` is called: a judge that ends in a case does not clean up. -/
def cleansUp (runs : List FileRun) : Bool :=
  copiesRuntime fastJudge sol.lang && runs.all (FileRun.returns (sol.checked dir))

/-- The files after the loop. -/
def afterCases (runs : List FileRun) (files : Files) : Files :=
  if cleansUp fastJudge sol dir runs then cleanWorkdir workDir files else files

/-- `run_solution` on the files, up to `output_acm_result`. -/
def runSolutionOnFiles (behaviour : Bytes → Behaviour) (files : Files) :
    Option (List FileRun × Files) :=
  (runOnFiles (sol.checked dir) workDir dataDir
    ((scanCases dir (sol.checked dir).spj).map fun name => (name, behaviour name))
    (beforeCases fastJudge commands sol workDir dataDir dir files) .start).map
      fun ended => (ended.1, afterCases fastJudge sol workDir dir ended.1 ended.2)

end RunSolution

variable {sol : OjSolution} {workDir dataDir : Bytes} {name name' : Bytes}
  {dir : DataDir}

/-! ## The runtime of Python -/

theorem joinPath_prefix_iff (directory : Bytes) :
    joinPath directory name <+: joinPath directory name' ↔ name <+: name' := by
  rw [joinPath, joinPath, List.prefix_append_right_inj, List.prefix_cons_inj]

/-- The runtime is in the work directory. -/
theorem IsRuntime.within {path : Bytes} (h : IsRuntime workDir path) :
    joinPath workDir [] <+: path := by
  have hbelow : ∀ name, joinPath workDir [] <+: joinPath workDir name :=
    fun name => (joinPath_prefix_iff workDir).mpr List.nil_prefix
  rcases h with ⟨directory, -, rfl | hpath⟩ | ⟨hpath, -⟩
  · exact hbelow directory
  · refine List.IsPrefix.trans ?_ hpath
    rw [joinPath, joinPath, joinPath, List.append_assoc]
    exact (List.prefix_append_right_inj _).mpr ⟨directory ++ [slash], rfl⟩
  · exact (hbelow _).trans hpath

/-- A file with a dot in its name is of the runtime if its name begins with `python`. -/
theorem isRuntime_joinPath_iff (hname : slash ∉ name) (hdot : 46 ∈ name) :
    IsRuntime workDir (joinPath workDir name) ↔ ascii "python" <+: name := by
  have hdrop : (joinPath workDir name).drop (workDir.length + 1) = name := by
    simp [joinPath]
  constructor
  · rintro (⟨directory, hdirectory, heq | hbelow⟩ | ⟨hpython, -⟩)
    · have hsame : name = directory := List.append_cancel_left heq |> List.cons.inj |>.2
      have hnodot : ∀ directory ∈ runtimeDirs, 46 ∉ directory := by decide
      exact (hnodot directory hdirectory (hsame ▸ hdot)).elim
    · have hsplit : joinPath (joinPath workDir directory) [] =
          joinPath workDir (directory ++ [slash]) := by simp [joinPath]
      rw [hsplit, joinPath_prefix_iff] at hbelow
      exact (hname (hbelow.subset (by simp))).elim
    · exact (joinPath_prefix_iff workDir).mp hpython
  · intro hprefix
    refine Or.inr ⟨(joinPath_prefix_iff workDir).mpr hprefix, ?_⟩
    rwa [hdrop]

/-- A beginning without a dot is one of what is before the dot. -/
theorem prefix_append_dot_iff {word before after : Bytes} (hword : 46 ∉ word) :
    word <+: before ++ 46 :: after ↔ word <+: before := by
  refine ⟨fun h => ?_, fun h => h.trans (List.prefix_append _ _)⟩
  rcases List.prefix_or_prefix_of_prefix h (List.prefix_append before _) with hin | ⟨rest, rfl⟩
  · exact hin
  · rw [List.prefix_append_right_inj] at h
    cases rest with
    | nil => rw [List.append_nil]
    | cons b rest =>
        obtain ⟨tail, htail⟩ := h
        have hb : b = 46 := (List.cons.inj htail).1
        exact (hword (by simp [hb])).elim

theorem IsInput.isRuntime_userfile_iff (h : IsInput workDir dataDir name) :
    IsRuntime workDir (prepareFiles workDir dataDir name).userfile ↔
      ascii "python" <+: name := by
  have hout : dotOut = 46 :: ascii "out" := by decide
  have hin : dotIn = 46 :: ascii "in" := by decide
  have hbefore : ascii "python" <+: name ↔ ascii "python" <+: stem name := by
    conv_lhs => rw [eq_stem_append h.suffix, hin]
    exact prefix_append_dot_iff (by decide)
  rw [h.userfile_eq, isRuntime_joinPath_iff h.slash_not_mem_userfile (by simp [hout]), hbefore,
    hout]
  exact prefix_append_dot_iff (by decide)

/-- No file of the data directory is of the runtime. -/
theorem Directories.not_isRuntime (hdirs : Directories workDir dataDir) (hname : slash ∉ name) :
    ¬IsRuntime workDir (joinPath dataDir name) := by
  intro hruntime
  apply hdirs.apart
  have hdata : joinPath dataDir [] <+: joinPath dataDir name :=
    (joinPath_prefix_iff dataDir).mpr List.nil_prefix
  rcases List.prefix_or_prefix_of_prefix hruntime.within hdata with hin | ⟨rest, hrest⟩
  · exact hin
  · have hwork := hruntime.within
    have hlonger : joinPath dataDir name = joinPath dataDir [] ++ name := by simp [joinPath]
    rw [← hrest, hlonger, List.prefix_append_right_inj] at hwork
    rcases List.eq_nil_or_concat rest with rfl | ⟨before, b, rfl⟩
    · rw [← hrest, List.append_nil]
    · have hlast : b = slash := by
        have heq := congrArg List.getLast? hrest
        rw [joinPath, joinPath, List.concat_eq_append, ← List.append_assoc, List.getLast?_concat,
          List.getLast?_concat] at heq
        exact Option.some.inj heq
      exact (hname (hwork.subset (by simp [hlast]))).elim

theorem Directories.not_isRuntime_diffPath (hdirs : Directories workDir dataDir) :
    ¬IsRuntime workDir (diffPath workDir) := by
  rw [hdirs.diffPath_eq, isRuntime_joinPath_iff (by decide) (by decide)]
  decide

/-! ## The whole run -/

/-- A file of the data directory is what it was before the cases, unless it is the special
judge and compiled. -/
theorem beforeCases_data (fastJudge : Bool) (commands : Commands)
    (hdirs : Directories workDir dataDir) (hname : slash ∉ name)
    (hspj : name ≠ ascii "spj" ∨ dir.access (ascii "spj") = true) (files : Files) :
    beforeCases fastJudge commands sol workDir dataDir dir files (joinPath dataDir name) =
      files (joinPath dataDir name) := by
  have herror : joinPath dataDir name ≠ joinPath workDir (ascii "error.log") :=
    hdirs.joinPath_ne hname (by decide)
  have hcopied : copyPythonRuntime workDir commands files (joinPath dataDir name) =
      files (joinPath dataDir name) := by
    rw [copyPythonRuntime, if_neg (not_or.mpr ⟨hdirs.not_isRuntime hname, herror⟩)]
  have hchecked : ∀ files : Files, checkSpjFiles dataDir dir commands files
      (joinPath dataDir name) = files (joinPath dataDir name) := by
    intro files
    rw [checkSpjFiles]
    split_ifs with hexists hsource
    · rfl
    · have hne : name ≠ ascii "spj" := hspj.resolve_right hexists
      rw [hdirs.spjPath_eq, Function.update_of_ne]
      exact fun heq => hne (joinPath_inj hname (by decide) heq).2
    · rfl
  rw [beforeCases, hchecked]
  split
  · exact hcopied
  · rfl

/-- The standard output of a case is none of the files that are written before the cases. -/
theorem beforeCases_outfile (fastJudge : Bool) (commands : Commands)
    (hdirs : Directories workDir dataDir) (h : IsInput workDir dataDir name) (files : Files) :
    beforeCases fastJudge commands sol workDir dataDir dir files
        (prepareFiles workDir dataDir name).outfile =
      files (prepareFiles workDir dataDir name).outfile := by
  have hname : stem name ++ dotOut ≠ ascii "spj" := by
    intro hname
    have hsuffix : dotOut <:+ ascii "spj" := ⟨stem name, hname⟩
    exact absurd hsuffix (by decide)
  rw [h.outfile_eq]
  exact beforeCases_data fastJudge commands hdirs h.slash_not_mem_userfile (Or.inl hname) files

/-- The reports of earlier runs are kept before the cases. -/
theorem beforeCases_diffPath (fastJudge : Bool) (commands : Commands)
    (hdirs : Directories workDir dataDir) (files : Files) :
    beforeCases fastJudge commands sol workDir dataDir dir files (diffPath workDir) =
      files (diffPath workDir) := by
  have herror : diffPath workDir ≠ joinPath workDir (ascii "error.log") := by
    rw [hdirs.diffPath_eq]
    intro heq
    exact absurd (joinPath_inj (by decide) (by decide) heq).2 (by decide)
  have hspj : diffPath workDir ≠ printPath pathSize dataDir (ascii "spj") := by
    rw [hdirs.diffPath_eq, hdirs.spjPath_eq]
    exact (hdirs.joinPath_ne (by decide) (by decide)).symm
  have hcopied : copyPythonRuntime workDir commands files (diffPath workDir) =
      files (diffPath workDir) := by
    rw [copyPythonRuntime, if_neg (not_or.mpr ⟨hdirs.not_isRuntime_diffPath, herror⟩)]
  rw [beforeCases, checkSpjFiles]
  split_ifs
  · exact hcopied
  · rfl
  · rw [Function.update_of_ne hspj, hcopied]
  · rw [Function.update_of_ne hspj]
  · exact hcopied
  · rfl

theorem afterCases_of_not_isRuntime (fastJudge : Bool) (runs : List FileRun) {path : Bytes}
    (h : ¬IsRuntime workDir path) (files : Files) :
    afterCases fastJudge sol workDir dir runs files path = files path := by
  rw [afterCases]
  split
  · rw [cleanWorkdir, if_neg h]
  · rfl

/-- A user output is removed with the runtime if it is called like a part of it. -/
theorem afterCases_userfile (fastJudge : Bool) (runs : List FileRun)
    (h : IsInput workDir dataDir name) (files : Files) :
    afterCases fastJudge sol workDir dir runs files (prepareFiles workDir dataDir name).userfile =
      if cleansUp fastJudge sol dir runs ∧ ascii "python" <+: name then none
      else files (prepareFiles workDir dataDir name).userfile := by
  rw [afterCases]
  by_cases hclean : cleansUp fastJudge sol dir runs = true
  · rw [if_pos hclean, cleanWorkdir]
    simp only [h.isRuntime_userfile_iff, hclean, true_and]
  · rw [if_neg hclean, if_neg fun hboth => hclean hboth.1]

/-- In every run of `run_solution` over the files of its directories: the cases are judged in
the order of their names, each of them at most once and in the same order however the
directory lists them.  Every case is judged as if it had its input, its standard output and
its user output for itself, and without a special judge both outputs can be read.  Unless an
input is called `diff.in`, the shared file has the reports of all cases behind each other, and
all user outputs are still there at the end but those that `clean_workdir` takes for the
runtime of Python.  Nothing in the data directory is written but a missing special judge. -/
theorem cases_keep_own_files {fastJudge : Bool} {commands : Commands}
    (hnodup : dir.entries.Nodup) (hdirs : Directories workDir dataDir)
    (hinput : ∀ name ∈ dir.entries, checkInFile name ≠ 0 → IsInput workDir dataDir name)
    {files files' : Files}
    (hexists : ∀ name, dir.access name = true → files (joinPath dataDir name) ≠ none)
    (behaviour : Bytes → Behaviour) {runs : List FileRun}
    (h : runSolutionOnFiles fastJudge commands sol workDir dataDir dir behaviour files =
      some (runs, files')) :
    (scanCases dir (checkSpj dir)).Pairwise (· < ·) ∧
    (∀ dir' : DataDir, dir'.entries.Perm dir.entries → dir'.access = dir.access →
      scanCases dir' (checkSpj dir) = scanCases dir (checkSpj dir)) ∧
    (runs.map fun run => run.entry.1) <+: scanCases dir (checkSpj dir) ∧
    (∀ run ∈ runs, (prepareFiles workDir dataDir run.entry.1).infile =
      joinPath dataDir run.entry.1) ∧
    runs.map (FileRun.call (sol.checked dir)) = calls (sol.checked dir)
      ((scanCases dir (checkSpj dir)).map fun name => ownCase workDir dataDir files
        (name, behaviour name)) .start ∧
    (checkSpj dir = false → ∀ run ∈ runs, run.case.fileOut ≠ none ∧ run.case.fileUser ≠ none) ∧
    (ascii "diff.in" ∉ dir.entries →
      (∀ run ∈ runs, files' (prepareFiles workDir dataDir run.entry.1).userfile =
        if cleansUp fastJudge sol dir runs ∧ ascii "python" <+: run.entry.1 then none
        else some run.entry.2.stdout) ∧
      (files' (diffPath workDir)).getD [] =
        (files (diffPath workDir)).getD [] ++ (runs.map FileRun.report).flatten) ∧
    ∀ name, slash ∉ name → (name ≠ ascii "spj" ∨ dir.access (ascii "spj") = true) →
      files' (joinPath dataDir name) = files (joinPath dataDir name) := by
  obtain ⟨⟨runs', ended⟩, hloop, heq⟩ := Option.map_eq_some_iff.mp h
  obtain ⟨hruns, hended⟩ := Prod.mk.inj heq
  dsimp only at hruns hended
  subst runs' files'
  have hscanned : ∀ name ∈ scanCases dir (checkSpj dir), IsInput workDir dataDir name :=
    fun name => IsInput.of_mem_scanCases hinput
  have hentries : ∀ entry ∈ (scanCases dir (checkSpj dir)).map fun name => (name, behaviour name),
      IsInput workDir dataDir entry.1 := by
    intro entry hentry
    obtain ⟨name, hname, rfl⟩ := List.mem_map.mp hentry
    exact hscanned name hname
  have hjudged : (runs.map fun run => run.entry.1) <+: scanCases dir (checkSpj dir) := by
    have hfirst := (runOnFiles_entries hloop).map Prod.fst
    simpa [List.map_map, Function.comp_def, OjSolution.checked] using hfirst
  have hrunInput : ∀ run ∈ runs, IsInput workDir dataDir run.entry.1 :=
    fun run hrun => hscanned _ (hjudged.subset (List.mem_map_of_mem hrun))
  have hstart : ∀ entry ∈ (scanCases dir (checkSpj dir)).map fun name => (name, behaviour name),
      beforeCases fastJudge commands sol workDir dataDir dir files
          (prepareFiles workDir dataDir entry.1).outfile =
        files (prepareFiles workDir dataDir entry.1).outfile :=
    fun entry hentry =>
      beforeCases_outfile fastJudge commands hdirs (hentries entry hentry) files
  have hcalls := runOnFiles_calls hdirs hentries hstart hloop
  rw [List.map_map] at hcalls
  refine ⟨scanCases_pairwise (checkSpj dir) hnodup,
    fun dir' hperm haccess => scanCases_congr hnodup hperm haccess, hjudged,
    fun run hrun => (hrunInput run hrun).infile_eq, hcalls, ?_, ?_, ?_⟩
  · intro hspj run hrun
    have hcall : run.call (sol.checked dir) ∈ runs.map (FileRun.call (sol.checked dir)) :=
      List.mem_map_of_mem hrun
    rw [hcalls] at hcall
    obtain ⟨name, hname, hcase⟩ := List.mem_map.mp (case_mem_of_mem_calls hcall)
    have hread : run.case = ownCase workDir dataDir files (name, behaviour name) := hcase.symm
    change name ∈ scanCases dir (checkSpj dir) at hname
    have hnameInput := hscanned name hname
    rw [hspj] at hname
    rw [hread]
    refine ⟨outfile_of_mem_scanCases hnameInput hname hexists, ?_⟩
    simp [ownCase, Behaviour.reading]
  · intro hdiff
    have hnot : ∀ entry ∈ (scanCases dir (checkSpj dir)).map fun name => (name, behaviour name),
        entry.1 ≠ ascii "diff.in" := by
      intro entry hentry heq
      obtain ⟨name, hname, rfl⟩ := List.mem_map.mp hentry
      exact hdiff (heq ▸ (mem_scanCases.mp hname).1)
    have hdistinct : (((scanCases dir (checkSpj dir)).map fun name =>
        (name, behaviour name)).map Prod.fst).Nodup := by
      rw [List.map_map]
      simpa [Function.comp_def] using scanCases_nodup (checkSpj dir) hnodup
    constructor
    · intro run hrun
      rw [afterCases_userfile fastJudge _ (hrunInput run hrun),
        runOnFiles_userfile hdirs hentries hdistinct hnot hloop run hrun]
    · rw [afterCases_of_not_isRuntime fastJudge _ hdirs.not_isRuntime_diffPath,
        runOnFiles_diffPath hdirs hentries hnot hloop,
        beforeCases_diffPath fastJudge commands hdirs files]
  · intro name hname hspj
    rw [afterCases_of_not_isRuntime fastJudge _ (hdirs.not_isRuntime hname),
      runOnFiles_data hdirs hname hentries hloop,
      beforeCases_data fastJudge commands hdirs hname hspj files]

/-- A program that writes a line and is killed. -/
def killedBehaviour : Behaviour where
  case := { TestCase.quiet [] [] with reports := [some (.idle (.ofKill sigSegv false))] }
  stdout := ascii "1"
  stderr := some []
  line1 := fun _ => 0
  line2 := fun _ => 0

theorem scanCases_oneCase : scanCases .oneCase false = [ascii "a.in"] := by
  have hfilter : DataDir.oneCase.entries.filter (dataFilter .oneCase false) = [ascii "a.in"] := by
    decide
  rw [scanCases, hfilter, List.mergeSort_singleton]

/-- The commands of a run that needs none. -/
def noCommands : Commands := ⟨fun _ => none, none⟩

theorem cases_keep_own_files_killed :
    ∃ run files', runSolutionOnFiles false noCommands (.init .cpp11) (ascii "/work/1")
        (ascii "/data/1") .oneCase (fun _ => killedBehaviour) (fun _ => some []) =
          some ([run], files') ∧
      run.entry.1 = ascii "a.in" ∧ files' (ascii "/work/1/a.out") = some (ascii "1") ∧
      files' (ascii "/data/1/a.out") = some [] := by
  have hinput : ∀ name ∈ DataDir.oneCase.entries, checkInFile name ≠ 0 →
      IsInput (ascii "/work/1") (ascii "/data/1") name := by
    intro name hname hsuffix
    have hentries : DataDir.oneCase.entries = [ascii "a.in", ascii "a.out"] := rfl
    rw [hentries, List.mem_cons, List.mem_singleton] at hname
    rcases hname with rfl | rfl
    · exact ⟨hsuffix, by decide, by decide, by decide⟩
    · exact (hsuffix (by decide)).elim
  have hrun : ∃ run files', runSolutionOnFiles false noCommands (.init .cpp11) (ascii "/work/1")
      (ascii "/data/1") .oneCase (fun _ => killedBehaviour) (fun _ => some []) =
        some ([run], files') ∧ run.entry = (ascii "a.in", killedBehaviour) := by
    have hspj : ((OjSolution.init .cpp11).checked .oneCase).spj = false := by decide
    rw [runSolutionOnFiles, hspj, scanCases_oneCase]
    exact ⟨_, _, rfl, rfl⟩
  obtain ⟨run, files', hrun, hentry⟩ := hrun
  obtain ⟨-, -, -, -, -, -, hfiles, hother⟩ := cases_keep_own_files (by decide)
    ⟨by decide, by decide, by decide⟩ hinput (fun _ _ => by simp) (fun _ => killedBehaviour) hrun
  have huser := (hfiles (by decide)).1 run List.mem_cons_self
  rw [hentry] at huser
  have hdata : files' (joinPath (ascii "/data/1") (ascii "a.out")) = some [] :=
    hother (ascii "a.out") (by decide) (Or.inl (by decide))
  have hpath : joinPath (ascii "/data/1") (ascii "a.out") = ascii "/data/1/a.out" := by decide
  exact ⟨run, files', hrun, congrArg Prod.fst hentry, huser, hpath ▸ hdata⟩

/-- The output of a case is taken for a part of Python. -/
example :
    cleanWorkdir (ascii "/work/1") (fun _ => some []) (ascii "/work/1/python1.out") = none := by
  decide

end PowerJudge
