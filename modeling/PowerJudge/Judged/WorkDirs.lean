import Mathlib.Data.List.Nodup
import PowerJudge.Judged.Order

/-!
# Whose result a file holds

The path of `result.txt` is made of the contest, as far as there is one, and of the
number of the solution.  Two requests share the file only if they agree in both, and
in every run a file holds what it held before the daemon was started, until the judge of
such a request opens it.  From then on it holds what the judges of such requests have
written, one over the other.
-/

namespace PowerJudge

variable {config : Config} {s s' : State}

/-! ## Paths -/

/-- The contest of a request, 0 if it has none. -/
def Request.contest (request : Request) : ℤ := max request.cid 0

/-- The number of the solution, as the judge reads it. -/
def Request.number (request : Request) : ℤ := atoi request.sid

/-- The requests are for the same solution of the same contest. -/
def SameSolution (request request' : Request) : Prop :=
  request.contest = request'.contest ∧ request.number = request'.number

instance (request request' : Request) : Decidable (SameSolution request request') :=
  inferInstanceAs (Decidable (_ ∧ _))

theorem workDir_of_pos {request : Request} (h : request.cid > 0) :
    workDir config request = joinPath config.tempDir (ascii "c" ++ formatInt request.contest) := by
  have hcontest : request.contest = request.cid := max_eq_left (Int.le_of_lt h)
  rw [workDir, if_pos h, hcontest]

theorem workDir_of_not_pos (config : Config) {request : Request} (h : ¬request.cid > 0) :
    workDir config request = config.tempDir ∧ request.contest = 0 :=
  ⟨if_neg h, max_eq_right (Int.not_lt.mp h)⟩

/-- No number begins with the letter of the contest directories. -/
theorem formatInt_append_ne (n : ℤ) (rest rest' : Bytes) :
    formatInt n ++ rest ≠ ascii "c" ++ rest' := by
  intro h
  obtain ⟨sign, digits, hformat, hsign, hne, hdigits⟩ := formatInt_eq_append n
  obtain ⟨d, digits, rfl⟩ := List.exists_cons_of_ne_nil hne
  have hletter : ascii "c" = [99] := by decide
  rw [hformat, hletter, List.singleton_append] at h
  rcases hsign with rfl | rfl
  · have hd : isDigit d = true := hdigits d List.mem_cons_self
    rw [(List.cons.inj h).1] at hd
    exact absurd hd (by decide)
  · exact absurd (List.cons.inj h).1 (by decide)

/-- Below a directory, the file of a solution is found by its number. -/
theorem resultTxt_joinPath (directory : Bytes) (n : ℤ) :
    resultTxt (joinPath directory (formatInt n)) =
      directory ++ slash :: (formatInt n ++ slash :: ascii "result.txt") := by
  simp [resultTxt, joinPath]

theorem resultTxt_joinPath_inj {directory : Bytes} {n n' : ℤ}
    (h : resultTxt (joinPath directory (formatInt n)) =
      resultTxt (joinPath directory (formatInt n'))) : n = n' := by
  rw [resultTxt_joinPath, resultTxt_joinPath, List.append_cancel_left_eq] at h
  exact formatInt_inj rfl rfl (List.cons.inj h).2

/-- The files of a contest are apart from those outside of contests. -/
theorem resultTxt_contest_ne (directory : Bytes) (n contest n' : ℤ) :
    resultTxt (joinPath directory (formatInt n)) ≠
      resultTxt (joinPath (joinPath directory (ascii "c" ++ formatInt contest))
        (formatInt n')) := by
  intro h
  rw [resultTxt_joinPath, resultTxt_joinPath, joinPath, List.append_assoc,
    List.append_cancel_left_eq, List.cons_append, List.append_assoc] at h
  exact formatInt_append_ne n _ _ (List.cons.inj h).2

theorem resultTxt_contest_inj {directory : Bytes} {contest contest' n n' : ℤ}
    (h : resultTxt (joinPath (joinPath directory (ascii "c" ++ formatInt contest))
        (formatInt n)) =
      resultTxt (joinPath (joinPath directory (ascii "c" ++ formatInt contest'))
        (formatInt n'))) : contest = contest' ∧ n = n' := by
  rw [resultTxt_joinPath, resultTxt_joinPath, joinPath, joinPath, List.append_assoc,
    List.append_assoc, List.append_cancel_left_eq, List.cons_append, List.cons_append,
    List.append_assoc, List.append_assoc] at h
  have hcontest := List.append_cancel_left (List.cons.inj h).2
  obtain rfl := formatInt_inj rfl rfl hcontest
  exact ⟨rfl, formatInt_inj rfl rfl (List.cons.inj (List.append_cancel_left hcontest)).2⟩

/-- Two requests have the same file exactly when they are for the same solution. -/
theorem writePath_eq_iff {request request' : Request} :
    writePath config request = writePath config request' ↔ SameSolution request request' := by
  unfold writePath SameSolution Request.number
  by_cases hcid : request.cid > 0
  · rw [workDir_of_pos hcid]
    by_cases hcid' : request'.cid > 0
    · rw [workDir_of_pos hcid']
      constructor
      · exact resultTxt_contest_inj
      · rintro ⟨hcontest, hnumber⟩
        rw [hcontest, hnumber]
    · obtain ⟨hdir, hcontest⟩ := workDir_of_not_pos config hcid'
      rw [hdir, hcontest]
      refine iff_of_false (fun h => resultTxt_contest_ne _ _ _ _ h.symm) ?_
      rintro ⟨hzero, -⟩
      unfold Request.contest at hzero
      omega
  · obtain ⟨hdir, hcontest⟩ := workDir_of_not_pos config hcid
    rw [hdir, hcontest]
    by_cases hcid' : request'.cid > 0
    · rw [workDir_of_pos hcid']
      refine iff_of_false (resultTxt_contest_ne _ _ _ _) ?_
      rintro ⟨hzero, -⟩
      unfold Request.contest at hzero
      omega
    · obtain ⟨hdir', hcontest'⟩ := workDir_of_not_pos config hcid'
      rw [hdir', hcontest']
      constructor
      · exact fun h => ⟨rfl, resultTxt_joinPath_inj h⟩
      · rintro ⟨-, hnumber⟩
        rw [hnumber]

/-! ## The files -/

/-- The judge of some child has opened the file. -/
def Opened (config : Config) (s : State) (path : Bytes) : Prop :=
  ∃ c < s.childCount, s.childFile config c = path ∧ (s.child c).phase.output ≠ .untouched

/-- The file holds the records of these judges, one written over the other. -/
structure Overlays (config : Config) (s : State) (path : Bytes) (writers : List (ℕ × Record)) :
    Prop where
  nodup : (writers.map Prod.fst).Nodup
  written : ∀ x ∈ writers, x.1 < s.childCount ∧ s.childFile config x.1 = path ∧
    (s.child x.1).phase.output = .written x.2
  file : s.file path = some (overlay (writers.map fun x => recordText x.2.numbers))

/-- The file is as it was at the start, or as the judges that have opened it have made
it. -/
structure Provenance (config : Config) (start : Bytes → ResultTxt) (s : State) (path : Bytes) :
    Prop where
  unopened : ¬Opened config s path → s.file path = start path
  opened : Opened config s path → ∃ writers, Overlays config s path writers

/-- A step that leaves the file and the judges that write it alone. -/
theorem Provenance.of_same {start : Bytes → ResultTxt} {path : Bytes}
    (h : Provenance config start s path) (hcount : s.childCount ≤ s'.childCount)
    (hpath : ∀ c < s.childCount, s'.childFile config c = s.childFile config c)
    (houtput : ∀ c < s.childCount, s.childFile config c = path →
      (s'.child c).phase.output = (s.child c).phase.output)
    (hnew : ∀ c < s'.childCount, s.childCount ≤ c → (s'.child c).phase.output = .untouched)
    (hfile : s'.file path = s.file path) : Provenance config start s' path := by
  have hopened : Opened config s' path ↔ Opened config s path := by
    constructor
    · rintro ⟨c, hc, hown, hne⟩
      have hold : c < s.childCount := by
        by_contra hge
        exact hne (hnew c hc (Nat.le_of_not_lt hge))
      rw [hpath c hold] at hown
      rw [houtput c hold hown] at hne
      exact ⟨c, hold, hown, hne⟩
    · rintro ⟨c, hc, hown, hne⟩
      refine ⟨c, Nat.lt_of_lt_of_le hc hcount, (hpath c hc).trans hown, ?_⟩
      rw [houtput c hc hown]
      exact hne
  refine ⟨fun hnot => hfile.trans (h.unopened fun hold => hnot (hopened.mpr hold)), ?_⟩
  intro hopen
  obtain ⟨writers, hwriters⟩ := h.opened (hopened.mp hopen)
  refine ⟨writers, hwriters.nodup, fun x hx => ?_, hfile.trans hwriters.file⟩
  obtain ⟨hc, hown, hwritten⟩ := hwriters.written x hx
  exact ⟨Nat.lt_of_lt_of_le hc hcount, (hpath _ hc).trans hown,
    (houtput _ hc hown).trans hwritten⟩

/-- The provenance of all files, and that the jobs at work are accepted requests. -/
structure Traceable (config : Config) (start : Bytes → ResultTxt) (s : State) : Prop where
  held : ∀ t job, (s.phase t).job? = some job → job < s.requests.length
  made : ∀ c < s.childCount, (s.child c).job < s.requests.length
  file : ∀ path, Provenance config start s path

theorem traceable_start (start : Bytes → ResultTxt) : Traceable config start (.start start) where
  held := by simp [State.start, WorkerPhase.job?]
  made := by simp [State.start]
  file := fun _ => ⟨fun _ => rfl, by simp [Opened, State.start]⟩

variable {start : Bytes → ResultTxt}

/-- The children and the files stay, and no thread gets a job that is not accepted. -/
theorem Traceable.of_same (h : Traceable config start s)
    (hheld : ∀ t job, (s'.phase t).job? = some job → job < s'.requests.length)
    (hlength : s.requests.length ≤ s'.requests.length)
    (hrequest : ∀ job < s.requests.length, s'.request job = s.request job)
    (hcount : s'.childCount = s.childCount) (hchild : s'.child = s.child)
    (hfile : s'.file = s.file) : Traceable config start s' where
  held := hheld
  made := by
    intro c hc
    rw [hcount] at hc
    rw [hchild]
    exact Nat.lt_of_lt_of_le (h.made c hc) hlength
  file := by
    intro path
    apply (h.file path).of_same
    · rw [hcount]
    · intro c hc
      rw [State.childFile, State.childFile, hchild, hrequest _ (h.made c hc)]
    · intro c _ _
      rw [hchild]
    · intro c hc hge
      rw [hcount] at hc
      omega
    · rw [hfile]

/-- A thread that turns to a job that is accepted. -/
theorem Traceable.held_update (h : Traceable config start s) {t : Thread} {next : WorkerPhase}
    (hnext : ∀ job, next.job? = some job → job < s.requests.length) (t' : Thread) (job : ℕ)
    (hjob : (Function.update s.phase t next t').job? = some job) : job < s.requests.length := by
  by_cases ht : t' = t
  · rw [ht, Function.update_self] at hjob
    exact hnext job hjob
  · rw [Function.update_of_ne ht] at hjob
    exact h.held t' job hjob

theorem job_setChild (c : ℕ) (next : ChildPhase) (c' : ℕ) :
    (s.setChild c next c').job = (s.child c').job := by
  unfold State.setChild
  by_cases heq : c' = c
  · rw [heq, Function.update_self]
  · rw [Function.update_of_ne heq]

theorem childFile_setChild (c : ℕ) (next : ChildPhase) (file : Bytes → ResultTxt) (c' : ℕ) :
    State.childFile config { s with child := s.setChild c next, file := file } c' =
      s.childFile config c' := by
  change writePath config (s.request (s.setChild c next c').job) = _
  rw [job_setChild]
  rfl

/-- A child goes on, and only its file with it. -/
theorem Traceable.setChild (h : Traceable config start s) {c : ℕ} {next : ChildPhase}
    {file : Bytes → ResultTxt}
    (hothers : ∀ path, path ≠ s.childFile config c → file path = s.file path)
    (hown : Provenance config start { s with child := s.setChild c next, file := file }
      (s.childFile config c)) :
    Traceable config start { s with child := s.setChild c next, file := file } := by
  refine ⟨h.held, fun c' hc' => (job_setChild c next c').symm ▸ h.made c' hc', fun path => ?_⟩
  by_cases hpath : path = s.childFile config c
  · rw [hpath]
    exact hown
  · apply (h.file path).of_same
    · exact Nat.le_refl _
    · exact fun c' _ => childFile_setChild c next file c'
    · intro c' _ hc'
      have hne : c' ≠ c := by
        rintro rfl
        exact hpath hc'.symm
      simp only [State.setChild, Function.update_of_ne hne]
    · intro c' hc' hge
      dsimp only at hc'
      omega
    · exact hothers path hpath

/-- A child goes on that has nothing to do with its file. -/
theorem Traceable.setChild_same (h : Traceable config start s) {c : ℕ} {next : ChildPhase}
    (hnext : next.output = (s.child c).phase.output) :
    Traceable config start { s with child := s.setChild c next } := by
  refine h.setChild (fun _ _ => rfl) ?_
  apply (h.file _).of_same
  · exact Nat.le_refl _
  · exact fun c' _ => childFile_setChild c next s.file c'
  · intro c' _ _
    by_cases heq : c' = c
    · simp only [State.setChild, heq, Function.update_self]
      exact hnext
    · simp only [State.setChild, Function.update_of_ne heq]
  · intro c' hc' hge
    dsimp only at hc'
    omega
  · rfl

/-- A judge that opens its file cuts it. -/
theorem Traceable.truncate (h : Traceable config start s) {c : ℕ} (hc : c < s.childCount) :
    Traceable config start { s with
      child := s.setChild c (.judging .truncated)
      file := Function.update s.file (s.childFile config c) (some []) } := by
  refine h.setChild (fun _ hne => Function.update_of_ne hne _ _) ⟨fun hnot => ?_, fun _ => ?_⟩
  · refine (hnot ⟨c, hc, childFile_setChild _ _ _ c, ?_⟩).elim
    simp only [State.setChild, Function.update_self]
    simp [ChildPhase.output]
  · exact ⟨[], List.nodup_nil, by simp, Function.update_self _ _ _⟩

/-- A judge writes its record over what others have written since the file was cut. -/
theorem Traceable.write (h : Traceable config start s) {c : ℕ} (hc : c < s.childCount)
    (hphase : (s.child c).phase = .judging .truncated) (record : Record) :
    Traceable config start { s with
      child := s.setChild c (.judging (.written record))
      file := Function.update s.file (s.childFile config c)
        (some (writeFromStart (s.contents (s.childFile config c))
          (recordText record.numbers))) } := by
  have hopened : Opened config s (s.childFile config c) := by
    refine ⟨c, hc, rfl, ?_⟩
    rw [hphase]
    simp [ChildPhase.output]
  obtain ⟨writers, hwriters⟩ := (h.file _).opened hopened
  have hnew : c ∉ writers.map Prod.fst := by
    intro hmem
    obtain ⟨x, hx, rfl⟩ := List.mem_map.mp hmem
    have hwritten := (hwriters.written x hx).2.2
    rw [hphase] at hwritten
    cases hwritten
  have hself : (s.setChild c (.judging (.written record)) c).phase.output = .written record := by
    simp only [State.setChild, Function.update_self]
    rfl
  refine h.setChild (fun _ hne => Function.update_of_ne hne _ _) ⟨fun hnot => ?_, fun _ => ?_⟩
  · refine (hnot ⟨c, hc, childFile_setChild _ _ _ c, ?_⟩).elim
    rw [hself]
    simp
  · refine ⟨writers ++ [(c, record)], ?_, ?_, ?_⟩
    · rw [List.map_append, List.map_singleton, ← List.concat_eq_append]
      exact List.Nodup.concat hnew hwriters.nodup
    · intro x hx
      rw [childFile_setChild]
      rcases List.mem_append.mp hx with hx | hx
      · obtain ⟨hlt, hown, hwritten⟩ := hwriters.written x hx
        have hne : x.1 ≠ c := fun heq => hnew (heq ▸ List.mem_map_of_mem hx)
        refine ⟨hlt, hown, ?_⟩
        simp only [State.setChild, Function.update_of_ne hne]
        exact hwritten
      · rw [List.mem_singleton.mp hx]
        exact ⟨hc, rfl, hself⟩
    · simp only [Function.update_self, State.contents, hwriters.file, Option.getD_some,
        List.map_append, List.map_singleton, overlay_concat]

/-- The end of a child leaves a thread alone or takes it with it. -/
theorem endThread_cases (s : State) (c : ℕ) (t : Thread) :
    s.endThread c t = s.phase t ∨ s.endThread c t = .gone := by
  cases hphase : (s.child c).phase with
  | copy p =>
      simp only [State.endThread, hphase]
      by_cases ht : t = ⟨p, 0⟩
      · rw [ht, Function.update_self]
        exact Or.inr rfl
      · rw [Function.update_of_ne ht]
        exact Or.inl rfl
  | _ => exact Or.inl (by rw [State.endThread, hphase])

theorem traceable_step {e : Event} (hs : Ordered s) (h : Traceable config start s)
    (hstep : step config s e = some s') : Traceable config start s' := by
  cases steps_of_step hstep with
  | accept request =>
      have hlength : (s.requests ++ [request]).length = s.requests.length + 1 := by simp
      refine h.of_same (fun t job hjob => ?_) (by simp) (fun job hjob => ?_) rfl rfl rfl
      · have hlt := h.held t job hjob
        simp only [hlength]
        omega
      · simp [State.request, List.getElem?_append_left hjob]
  | @take t job rest _ _ hqueue =>
      refine h.of_same (h.held_update ?_) (Nat.le_refl _) (fun _ _ => rfl) rfl rfl rfl
      rintro j ⟨⟩
      exact hs.queue_accepted t.process job (hqueue ▸ List.mem_cons_self)
  | @fork t job hphase =>
      have hjob : job < s.requests.length := h.held t job (by rw [hphase]; rfl)
      have hold : ∀ c < s.childCount, Function.update s.child s.childCount
          ⟨job, .starting (s.processQueue t.process) (s.sendQueue t.process)⟩ c = s.child c :=
        fun c hc => Function.update_of_ne (Nat.ne_of_lt hc) _ _
      refine ⟨h.held_update (by rintro j ⟨⟩; exact hjob), fun c hc => ?_, fun path => ?_⟩
      · by_cases hnew : c = s.childCount
        · simp only [hnew, Function.update_self]
          exact hjob
        · have hlt : c < s.childCount := by
            dsimp only at hc
            omega
          simp only [hold c hlt]
          exact h.made c hlt
      · apply (h.file path).of_same
        · exact Nat.le_succ _
        · intro c hc
          rw [State.childFile, State.childFile]
          simp only [hold c hc]
          rfl
        · intro c hc _
          simp only [hold c hc]
        · intro c hc hge
          obtain rfl : c = s.childCount := by
            dsimp only at hc
            omega
          simp only [Function.update_self]
          rfl
        · rfl
  | @forkFailed t job hphase =>
      refine h.of_same (h.held_update ?_) (Nat.le_refl _) (fun _ _ => rfl) rfl rfl rfl
      rintro j ⟨⟩
      exact h.held t job (by rw [hphase]; rfl)
  | exec _ hphase => exact h.setChild_same (by rw [hphase]; rfl)
  | @execFailed c processQueue sendQueue hc hphase =>
      have hnext : Traceable config start { s with child := s.setChild c (.copy s.processCount) } :=
        h.setChild_same (by rw [hphase]; rfl)
      refine hnext.of_same (h.held_update ?_) (Nat.le_refl _) (fun _ _ => rfl) rfl rfl rfl
      rintro j ⟨⟩
      exact h.made c hc
  | truncate hc _ => exact h.truncate hc
  | @write c record hc hphase _ => exact h.write hc hphase record
  | @finish c status hc _ =>
      have hnext : Traceable config start
          { s with child := s.setChild c (.ended status (s.child c).phase.output) } :=
        h.setChild_same rfl
      refine hnext.of_same (fun t job hjob => ?_) (Nat.le_refl _) (fun _ _ => rfl) rfl rfl rfl
      dsimp only at hjob
      rcases endThread_cases s c t with hkept | hgone
      · rw [hkept] at hjob
        exact h.held t job hjob
      · rw [hgone] at hjob
        cases hjob
  | @wait t job c outcome waited hphase _ =>
      refine h.of_same (h.held_update ?_) (Nat.le_refl _) (fun _ _ => rfl) rfl rfl rfl
      rintro j ⟨⟩
      exact h.held t job (by rw [hphase]; rfl)
  | push =>
      exact h.of_same (h.held_update (by rintro j ⟨⟩)) (Nat.le_refl _) (fun _ _ => rfl) rfl rfl rfl
  | pop | read | post | postFailed =>
      exact h.of_same h.held (Nat.le_refl _) (fun _ _ => rfl) rfl rfl rfl

/-! ## Runs -/

/-- In every run the result file of a solution is as it was at the start until a judge opens
it that was started for the same solution; then it holds the records that such judges have
written, one over the other. -/
theorem result_file_provenance (config : Config) (start : Bytes → ResultTxt)
    (events : List Event) (s : State)
    (hrun : Transition.runAll (step config) (.start start) events = some s)
    (request : Request) :
    Provenance config start s (writePath config request) ∧
      ∀ c < s.childCount, (s.child c).job < s.requests.length ∧
        (s.childFile config c = writePath config request ↔
          SameSolution (s.request (s.child c).job) request) := by
  have hstep : ∀ s e t, Ordered s ∧ Traceable config start s → step config s e = some t →
      Ordered t ∧ Traceable config start t :=
    fun s e t hs hnext => ⟨ordered_step hs.1 hnext, traceable_step hs.1 hs.2 hnext⟩
  have hinv := Transition.runAll_preserves hstep ⟨ordered_start start, traceable_start start⟩ hrun
  exact ⟨hinv.2.file _, fun c hc => ⟨hinv.2.made c hc, writePath_eq_iff⟩⟩

/-- Two judges of one solution, of which the first to open the file is the last to
write. -/
def bothOpen : List Event :=
  [.accept { c11Request "1" with cid := 7 }, .accept { c11Request "1" with cid := 7 },
    .take ⟨0, 0⟩, .take ⟨0, 1⟩, .fork ⟨0, 0⟩ true, .fork ⟨0, 1⟩ true, .exec 0 true,
    .exec 1 true, .truncate 0, .truncate 1, .write 1 ⟨.ac, 1515, 10240, 0⟩,
    .write 0 ⟨.wa, 31, 2048, 2⟩]

/-- They leave a mixture in their file, and the file of the submission with the same number
outside of contests alone. -/
theorem result_file_provenance_contest :
    ∃ s, Transition.runAll (step twoWorkers) (.start fun _ => none) bothOpen = some s ∧
      s.file (writePath twoWorkers { c11Request "1" with cid := 7 }) =
        some (ascii "4 31 2048 20 0") ∧
      s.file (writePath twoWorkers (c11Request "1")) = none := by
  have hrun : ∃ s, Transition.runAll (step twoWorkers) (.start fun _ => none) bothOpen =
      some s ∧ s.file (writePath twoWorkers { c11Request "1" with cid := 7 }) =
        some (ascii "4 31 2048 20 0") ∧
      ∀ c < s.childCount, ¬SameSolution (s.request (s.child c).job) (c11Request "1") :=
    ⟨_, rfl, by decide, by decide⟩
  obtain ⟨s, hs, hmixed, hother⟩ := hrun
  obtain ⟨hfile, hsame⟩ := result_file_provenance twoWorkers (fun _ => none) bothOpen s hs
    (c11Request "1")
  refine ⟨s, hs, hmixed, hfile.unopened ?_⟩
  rintro ⟨c, hc, hpath, -⟩
  exact hother c hc ((hsame c hc).2.mp hpath)

end PowerJudge
