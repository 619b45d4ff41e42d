import PowerJudge.Judge.CaseFiles
import PowerJudge.Judged.SendResult

/-!
# The files that are uploaded

`send_multi_result` cuts the file that explains a result at `MAX_UPLOAD_FILE_SIZE` before
curl reads it.  The file stays in the work directory, and the judge of a later request for
the same solution writes at its end, also while a result is being sent.  So a file is
uploaded as the first bytes of all that was ever written to it, of whichever request.
-/

namespace PowerJudge

open Transition

/-! ## Writing to files -/

/-- The files when something is written at the end of one of them. -/
def appendFile (path text : Bytes) (files : Files) : Files :=
  Function.update files path (some ((files path).getD [] ++ text))

/-- What a file holds when a text is written at an offset; a gap is filled with zeros. -/
def overwrite (offset : ℕ) (text content : Bytes) : Bytes :=
  content.take offset ++ List.replicate (offset - content.length) 0 ++ text ++
    content.drop (offset + text.length)

/-- `truncate`, which also makes a shorter file longer. -/
def setLength (n : ℕ) (content : Bytes) : Bytes :=
  content.take n ++ List.replicate (n - content.length) 0

/-- The reports of one run of the judge are written at the end of `diff.out`. -/
theorem runOnFiles_appends {sol : OjSolution} {workDir dataDir : Bytes}
    (hdirs : Directories workDir dataDir) {entries : List (Bytes × Behaviour)}
    (hinput : ∀ entry ∈ entries, IsInput workDir dataDir entry.1)
    (hdiff : ∀ entry ∈ entries, entry.1 ≠ ascii "diff.in") {files files' : Files} {p : Progress}
    {runs : List FileRun}
    (h : runOnFiles sol workDir dataDir entries files p = some (runs, files')) :
    (files' (diffPath workDir)).getD [] =
      (appendFile (diffPath workDir) (runs.map FileRun.report).flatten files
        (diffPath workDir)).getD [] := by
  rw [runOnFiles_diffPath hdirs hinput hdiff h, appendFile, Function.update_self, Option.getD_some]

/-! ## Sending, call by call -/

/-- `MAX_UPLOAD_FILE_SIZE`. -/
def maxUploadFileSize : ℕ := 4096

/-- Where `SendWork` is within `send_multi_result`. -/
inductive SendPhase where
  | idle
  | starting (filePath : Option Bytes) (solution : FinishedSolution)
  /-- `file_size` has returned for a file that is there. -/
  | measured (path : Bytes) (solution : FinishedSolution) (long : Bool)
  /-- The form has its fields. -/
  | formed (found : Option Bytes) (solution : FinishedSolution)
  /-- Curl has the form. -/
  | performing (form : PostedForm)

structure UploadState where
  files : Files
  phase : SendPhase
  /-- The calls of `send_multi_result` that have initialised curl, or have failed to. -/
  attempts : ℕ

inductive FileEvent where
  /-- A file is opened with `"a+"` and written to. -/
  | append (path text : Bytes)
  /-- A file is opened with `"w"`. -/
  | empty (path : Bytes)
  | overwrite (path : Bytes) (offset : ℕ) (text : Bytes)
  /-- `send_multi_result` is called for a solution. -/
  | send (filePath : Option Bytes) (solution : FinishedSolution)
  /-- `access` and `file_size`. -/
  | measure
  /-- The rest of `truncate_upload_file`; `ok` is the outcome of `truncate`. -/
  | truncate (ok : Bool)
  | init
  /-- Curl reads the file and posts the form. -/
  | upload

/-- The form of a solution with the file that was found. -/
def FinishedSolution.form (solution : FinishedSolution) (found : Option Bytes) : PostedForm where
  sid := solution.sid
  token := solution.token
  cid := solution.cid
  numbers := solution.numbers
  error := found

/-- `truncate_upload_file` after `file_size`. -/
def cutFile (path : Bytes) (files : Files) : Files :=
  Function.update files path ((files path).map (setLength maxUploadFileSize))

/-- One event of a judge or of the thread of `SendWork`; `curl` are the handles of the calls
of `send_multi_result`. -/
def fileStep (curl : ℕ → CurlInit) (s : UploadState) : FileEvent → Option UploadState
  | .append path text => some { s with files := appendFile path text s.files }
  | .empty path => some { s with files := Function.update s.files path (some []) }
  | .overwrite path offset text =>
      if text = [] then none
      else some { s with
        files := Function.update s.files path
          (some (overwrite offset text ((s.files path).getD []))) }
  | .send filePath solution =>
      match s.phase with
      | .idle => some { s with phase := .starting filePath solution }
      | _ => none
  | .measure =>
      match s.phase with
      | .starting filePath solution =>
          match filePath.bind fun path => (s.files path).map fun content => (path, content) with
          | some (path, content) =>
              some { s with
                phase := .measured path solution (decide (maxUploadFileSize < content.length)) }
          | none => some { s with phase := .formed none solution }
      | _ => none
  | .truncate ok =>
      match s.phase with
      | .measured path solution long =>
          some { s with
            files := if long && ok then cutFile path s.files else s.files
            phase := .formed (some path) solution }
      | _ => none
  | .init =>
      match s.phase with
      | .formed found solution =>
          if (curl s.attempts).ok then
            some { s with
              phase := .performing (solution.form found)
              attempts := s.attempts + 1 }
          else
            some { s with
              phase := .starting (some (solution.systemError.path (ascii "error.txt")))
                solution.systemError
              attempts := s.attempts + 1 }
      | _ => none
  | .upload =>
      match s.phase with
      | .performing _ => some { s with phase := .idle }
      | _ => none

/-- What curl reads from a file if it reads now: a path and the contents. -/
def UploadState.upload? (s : UploadState) : Option (Bytes × Bytes) :=
  match s.phase with
  | .performing form =>
      form.error.bind fun path => (s.files path).map fun content => (path, content)
  | _ => none

/-- What is written, whether it is cut later on or not. -/
def writtenFile (files : Files) : FileEvent → Files
  | .append path text => appendFile path text files
  | .empty path => Function.update files path (some [])
  | .overwrite path offset text =>
      Function.update files path (some (overwrite offset text ((files path).getD [])))
  | _ => files

/-- The files if none was ever cut. -/
def history (files : Files) (events : List FileEvent) : Files := events.foldl writtenFile files

/-- A file is not emptied between `file_size` and `truncate`. -/
def KeepsMeasured (s : UploadState) (e : FileEvent) : Prop :=
  ∀ path solution long, s.phase = .measured path solution long → e ≠ .empty path

/-- A file is not emptied and nothing is written over it. -/
def FileEvent.Keeps (path : Bytes) : FileEvent → Prop
  | .empty other => other ≠ path
  | .overwrite other _ _ => other ≠ path
  | _ => True

/-- Nothing is written to a file, and `truncate` does not fail. -/
def FileEvent.Quiet (path : Bytes) : FileEvent → Prop
  | .append other _ => other ≠ path
  | .empty other => other ≠ path
  | .overwrite other _ _ => other ≠ path
  | .truncate ok => ok = true
  | _ => True

/-- A judge writes to a file. -/
def FileEvent.OfJudge : FileEvent → Prop
  | .append _ _ => True
  | .empty _ => True
  | .overwrite _ _ _ => True
  | _ => False

/-- A step of `send_multi_result` before the form is performed. -/
def FileEvent.OfSender : FileEvent → Prop
  | .measure => True
  | .truncate _ => True
  | .init => True
  | _ => False

/-! ## Where files begin alike -/

/-- The first `n` elements of two lists decide those of what is written behind them. -/
theorem take_append_congr {α : Type*} {n : ℕ} {xs ys : List α} (h : xs.take n = ys.take n)
    (zs : List α) : (xs ++ zs).take n = (ys ++ zs).take n := by
  have hlength := congrArg List.length h
  rw [List.length_take, List.length_take] at hlength
  have hrest : n - xs.length = n - ys.length := by omega
  rw [List.take_append, List.take_append, h, hrest]

/-- The same files are there, and they begin alike. -/
def SameHead (files files' : Files) : Prop :=
  ∀ path, (files path).map (List.take maxUploadFileSize) =
    (files' path).map (List.take maxUploadFileSize)

theorem SameHead.refl (files : Files) : SameHead files files := fun _ => rfl

theorem SameHead.trans {files files' files'' : Files} (h : SameHead files files')
    (h' : SameHead files' files'') : SameHead files files'' :=
  fun path => (h path).trans (h' path)

theorem SameHead.getD {files files' : Files} (h : SameHead files files') (path : Bytes) :
    ((files path).getD []).take maxUploadFileSize =
      ((files' path).getD []).take maxUploadFileSize := by
  have hpath := h path
  cases hfile : files path with
  | none =>
      rw [hfile] at hpath
      cases hfile' : files' path with
      | none => rfl
      | some content' =>
          rw [hfile'] at hpath
          cases hpath
  | some content =>
      rw [hfile] at hpath
      cases hfile' : files' path with
      | none =>
          rw [hfile'] at hpath
          cases hpath
      | some content' =>
          rw [hfile'] at hpath
          exact Option.some.inj hpath

theorem SameHead.update {files files' : Files} (h : SameHead files files') (path : Bytes)
    {content content' : Bytes}
    (hcontent : content.take maxUploadFileSize = content'.take maxUploadFileSize) :
    SameHead (Function.update files path (some content))
      (Function.update files' path (some content')) := by
  intro other
  by_cases hother : other = path
  · subst hother
    rw [Function.update_self, Function.update_self]
    exact congrArg some hcontent
  · rw [Function.update_of_ne hother, Function.update_of_ne hother]
    exact h other

theorem SameHead.append {files files' : Files} (h : SameHead files files') (path text : Bytes) :
    SameHead (appendFile path text files) (appendFile path text files') :=
  h.update path (take_append_congr (h.getD path) text)

/-- A text that is written at an offset leaves the other bytes. -/
theorem getElem?_overwrite (offset : ℕ) (text content : Bytes) (i : ℕ) :
    (overwrite offset text content)[i]? =
      if i < offset then some ((content[i]?).getD 0)
      else if i < offset + text.length then text[i - offset]?
      else content[i]? := by
  have hfront : (content.take offset ++
      List.replicate (offset - content.length) (0 : UInt8)).length = offset := by
    rw [List.length_append, List.length_take, List.length_replicate]
    omega
  rw [overwrite, List.append_assoc, List.getElem?_append, hfront]
  split_ifs with hbefore hwithin
  · rw [List.getElem?_append, List.length_take, List.getElem?_take, List.getElem?_replicate]
    by_cases hin : i < content.length
    · simp [hin, hbefore]
    · have hmin : ¬i < min offset content.length := by omega
      have hgap : i - min offset content.length < offset - content.length := by omega
      simp [hmin, hgap, hin]
  · rw [List.getElem?_append_left (by omega)]
  · have hskip : offset + text.length + (i - offset - text.length) = i := by omega
    rw [List.getElem?_append_right (by omega), List.getElem?_drop, hskip]

/-- The first bytes of a file decide those after a text is written over it. -/
theorem take_overwrite_congr {n : ℕ} {content content' : Bytes}
    (h : content.take n = content'.take n) (offset : ℕ) (text : Bytes) :
    (overwrite offset text content).take n = (overwrite offset text content').take n := by
  apply List.ext_getElem?
  intro i
  rw [List.getElem?_take, List.getElem?_take]
  split
  · next hi =>
      have hsame : content[i]? = content'[i]? := by
        have hget := congrArg (fun bytes => bytes[i]?) h
        simpa only [List.getElem?_take, if_pos hi] using hget
      rw [getElem?_overwrite, getElem?_overwrite, hsame]
  · rfl

theorem SameHead.overwrite {files files' : Files} (h : SameHead files files') (path : Bytes)
    (offset : ℕ) (text : Bytes) :
    SameHead
      (Function.update files path (some (PowerJudge.overwrite offset text ((files path).getD []))))
      (Function.update files' path
        (some (PowerJudge.overwrite offset text ((files' path).getD [])))) :=
  h.update path (take_overwrite_congr (h.getD path) offset text)

/-- What is written keeps files alike. -/
theorem SameHead.written {files files' : Files} (h : SameHead files files') (e : FileEvent) :
    SameHead (writtenFile files e) (writtenFile files' e) := by
  cases e with
  | append path text => exact h.append path text
  | empty path => exact h.update path rfl
  | overwrite path offset text => exact h.overwrite path offset text
  | _ => exact h

/-- Cutting a file that is long enough leaves its beginning. -/
theorem sameHead_cutFile {path content : Bytes} {files : Files}
    (hcontent : files path = some content) (hlong : maxUploadFileSize < content.length) :
    SameHead (cutFile path files) files := by
  have hset : setLength maxUploadFileSize content = content.take maxUploadFileSize := by
    rw [setLength, Nat.sub_eq_zero_of_le hlong.le, List.replicate_zero, List.append_nil]
  intro other
  by_cases hother : other = path
  · subst hother
    rw [cutFile, Function.update_self, hcontent, Option.map_some, Option.map_some, hset,
      List.take_take, Nat.min_self, Option.map_some]
  · rw [cutFile, Function.update_of_ne hother]

/-! ## Steps -/

variable {curl : ℕ → CurlInit} {files : Files} {s t : UploadState}

/-- The file that will be cut is still long. -/
def UploadState.LongEnough (s : UploadState) : Prop :=
  ∀ path solution, s.phase = .measured path solution true →
    ∃ content, s.files path = some content ∧ maxUploadFileSize < content.length

/-- The files begin as those that were never cut, and the next cut keeps it so. -/
structure UploadState.BeginsAs (s : UploadState) (whole : Files) : Prop where
  sameHead : SameHead s.files whole
  longEnough : s.LongEnough

/-- Writing to a file makes it no shorter, unless it is emptied. -/
theorem writtenFile_longer {path content : Bytes} {e : FileEvent} (hempty : e ≠ .empty path)
    (hcontent : files path = some content) :
    ∃ content', writtenFile files e path = some content' ∧ content.length ≤ content'.length := by
  cases e with
  | append other text =>
      rw [writtenFile, appendFile]
      by_cases hother : path = other
      · subst hother
        refine ⟨content ++ text, by rw [Function.update_self, hcontent, Option.getD_some], ?_⟩
        rw [List.length_append]
        omega
      · exact ⟨content, by rw [Function.update_of_ne hother, hcontent], le_refl _⟩
  | empty other =>
      have hother : path ≠ other := fun heq => hempty (heq ▸ rfl)
      exact ⟨content, by rw [writtenFile, Function.update_of_ne hother, hcontent], le_refl _⟩
  | overwrite other offset text =>
      rw [writtenFile]
      by_cases hother : path = other
      · subst hother
        refine ⟨_, Function.update_self _ _ _, ?_⟩
        rw [hcontent, Option.getD_some, PowerJudge.overwrite]
        simp only [List.length_append, List.length_take, List.length_replicate, List.length_drop]
        omega
      · exact ⟨content, by rw [Function.update_of_ne hother, hcontent], le_refl _⟩
  | _ => exact ⟨content, hcontent, le_refl _⟩

/-- What one event can do: a judge writes, or the sender goes on. -/
inductive FileMove (curl : ℕ → CurlInit) (s : UploadState) : FileEvent → UploadState → Prop where
  | written {e : FileEvent} (hjudge : e.OfJudge) :
      FileMove curl s e { s with files := writtenFile s.files e }
  | send {filePath : Option Bytes} {solution : FinishedSolution} (hphase : s.phase = .idle) :
      FileMove curl s (.send filePath solution) { s with phase := .starting filePath solution }
  | found {path content : Bytes} {solution : FinishedSolution}
      (hphase : s.phase = .starting (some path) solution) (hfile : s.files path = some content) :
      FileMove curl s .measure { s with
        phase := .measured path solution (decide (maxUploadFileSize < content.length)) }
  | missing {filePath : Option Bytes} {solution : FinishedSolution}
      (hphase : s.phase = .starting filePath solution)
      (hfile : ∀ path, filePath = some path → s.files path = none) :
      FileMove curl s .measure { s with phase := .formed none solution }
  | truncate {ok long : Bool} {path : Bytes} {solution : FinishedSolution}
      (hphase : s.phase = .measured path solution long) :
      FileMove curl s (.truncate ok) { s with
        files := if long && ok then cutFile path s.files else s.files
        phase := .formed (some path) solution }
  | performs {found : Option Bytes} {solution : FinishedSolution}
      (hphase : s.phase = .formed found solution) (hok : (curl s.attempts).ok = true) :
      FileMove curl s .init { s with
        phase := .performing (solution.form found)
        attempts := s.attempts + 1 }
  | again {found : Option Bytes} {solution : FinishedSolution}
      (hphase : s.phase = .formed found solution) (hok : (curl s.attempts).ok ≠ true) :
      FileMove curl s .init { s with
        phase := .starting (some (solution.systemError.path (ascii "error.txt")))
          solution.systemError
        attempts := s.attempts + 1 }
  | upload {form : PostedForm} (hphase : s.phase = .performing form) :
      FileMove curl s .upload { s with phase := .idle }

theorem fileStep_cases {e : FileEvent} (h : fileStep curl s e = some t) : FileMove curl s e t := by
  cases e with
  | append path text =>
      cases h
      exact .written trivial
  | empty path =>
      cases h
      exact .written trivial
  | overwrite path offset text =>
      rw [fileStep] at h
      split at h
      · cases h
      · cases h
        exact .written trivial
  | send filePath solution =>
      rw [fileStep] at h
      cases hphase : s.phase with
      | idle =>
          rw [hphase] at h
          cases h
          exact .send hphase
      | _ => simp [hphase] at h
  | measure =>
      rw [fileStep] at h
      cases hphase : s.phase with
      | starting filePath solution =>
          rw [hphase] at h
          dsimp only at h
          split at h
          · next path content hfound =>
              cases h
              obtain ⟨path', rfl, hread⟩ := Option.bind_eq_some_iff.mp hfound
              obtain ⟨content', hfile, heq⟩ := Option.map_eq_some_iff.mp hread
              cases heq
              exact .found hphase hfile
          · next hmissing =>
              cases h
              refine .missing hphase ?_
              rintro path rfl
              simpa using hmissing
      | _ => simp [hphase] at h
  | truncate ok =>
      rw [fileStep] at h
      cases hphase : s.phase with
      | measured path solution long =>
          rw [hphase] at h
          cases h
          exact .truncate hphase
      | _ => simp [hphase] at h
  | init =>
      rw [fileStep] at h
      cases hphase : s.phase with
      | formed found solution =>
          rw [hphase] at h
          dsimp only at h
          split at h
          · next hok =>
              cases h
              exact .performs hphase hok
          · next hok =>
              cases h
              exact .again hphase hok
      | _ => simp [hphase] at h
  | upload =>
      rw [fileStep] at h
      cases hphase : s.phase with
      | performing form =>
          rw [hphase] at h
          cases h
          exact .upload hphase
      | _ => simp [hphase] at h

/-! ## Runs -/

theorem UploadState.BeginsAs.step {whole : Files} {e : FileEvent} (h : s.BeginsAs whole)
    (hkeeps : KeepsMeasured s e) (hstep : fileStep curl s e = some t) :
    t.BeginsAs (writtenFile whole e) := by
  obtain ⟨hsame, hlong⟩ := h
  cases fileStep_cases hstep with
  | written hjudge =>
      refine ⟨hsame.written e, ?_⟩
      intro path solution hphase
      obtain ⟨content, hcontent, hlength⟩ := hlong path solution hphase
      obtain ⟨content', hcontent', hlonger⟩ :=
        writtenFile_longer (hkeeps path solution true hphase) hcontent
      exact ⟨content', hcontent', hlength.trans_le hlonger⟩
  | send hphase => exact ⟨hsame, fun _ _ hphase' => by cases hphase'⟩
  | @found path content solution hphase hfile =>
      refine ⟨hsame, ?_⟩
      intro path' solution' hphase'
      obtain ⟨rfl, -, hlength⟩ := SendPhase.measured.inj hphase'
      exact ⟨content, hfile, of_decide_eq_true hlength⟩
  | missing hphase hfile => exact ⟨hsame, fun _ _ hphase' => by cases hphase'⟩
  | @truncate ok long path solution hphase =>
      refine ⟨?_, fun _ _ hphase' => by cases hphase'⟩
      dsimp only
      split
      · next hcut =>
          obtain ⟨rfl, -⟩ := Bool.and_eq_true_iff.mp hcut
          obtain ⟨content, hcontent, hlength⟩ := hlong path solution hphase
          exact (sameHead_cutFile hcontent hlength).trans hsame
      · exact hsame
  | performs hphase hok => exact ⟨hsame, fun _ _ hphase' => by cases hphase'⟩
  | again hphase hok => exact ⟨hsame, fun _ _ hphase' => by cases hphase'⟩
  | upload hphase => exact ⟨hsame, fun _ _ hphase' => by cases hphase'⟩

/-- The files are the ones that were never cut, as far as their beginnings go. -/
theorem UploadState.BeginsAs.run {whole : Files} {events : List FileEvent} (h : s.BeginsAs whole)
    (hmeets : Meets (fileStep curl) KeepsMeasured s events)
    (hrun : runAll (fileStep curl) s events = some t) : t.BeginsAs (history whole events) := by
  induction events generalizing s whole with
  | nil =>
      cases hrun
      exact h
  | cons e events ih =>
      obtain ⟨mid, hfirst, hrest⟩ := runAll_cons_eq_some hrun
      exact ih (h.step hmeets.head hfirst) (hmeets.tail hfirst) hrest

theorem getD_prefix_writtenFile {path : Bytes} {e : FileEvent} (hkeeps : e.Keeps path)
    (files : Files) : (files path).getD [] <+: (writtenFile files e path).getD [] := by
  cases e with
  | append other text =>
      rw [writtenFile, appendFile]
      by_cases hother : path = other
      · subst hother
        rw [Function.update_self]
        exact List.prefix_append _ _
      · rw [Function.update_of_ne hother]
  | empty other => rw [writtenFile, Function.update_of_ne (Ne.symm hkeeps)]
  | overwrite other offset text => rw [writtenFile, Function.update_of_ne (Ne.symm hkeeps)]
  | _ => exact List.prefix_refl _

theorem getD_prefix_history {path : Bytes} {events : List FileEvent}
    (hkeeps : ∀ e ∈ events, e.Keeps path) (files : Files) :
    (files path).getD [] <+: (history files events path).getD [] := by
  induction events generalizing files with
  | nil => exact List.prefix_refl _
  | cons e events ih =>
      have hfirst := getD_prefix_writtenFile (hkeeps e List.mem_cons_self) files
      exact hfirst.trans (ih (fun e he => hkeeps e (List.mem_cons_of_mem _ he)) _)

/-! ## What has been cut -/

/-- A file that is there is no longer than an upload may be. -/
def ShortFile (files : Files) (path : Bytes) : Prop :=
  ∀ content, files path = some content → content.length ≤ maxUploadFileSize

/-- The file of the sender is short, or about to be cut. -/
def UploadState.Trimmed (s : UploadState) (path : Bytes) : Prop :=
  match s.phase with
  | .measured path' _ long => path' = path → long = false → ShortFile s.files path
  | .formed found _ => found = some path → ShortFile s.files path
  | .performing form => form.error = some path → ShortFile s.files path
  | _ => True

theorem shortFile_cutFile (path : Bytes) (files : Files) : ShortFile (cutFile path files) path := by
  intro content hcontent
  rw [cutFile, Function.update_self] at hcontent
  obtain ⟨whole, -, rfl⟩ := Option.map_eq_some_iff.mp hcontent
  rw [setLength, List.length_append, List.length_take, List.length_replicate]
  omega

theorem writtenFile_of_quiet {path : Bytes} {e : FileEvent} (hquiet : e.Quiet path)
    (files : Files) : writtenFile files e path = files path := by
  cases e with
  | append other text => exact Function.update_of_ne (Ne.symm hquiet) _ _
  | empty other => exact Function.update_of_ne (Ne.symm hquiet) _ _
  | overwrite other offset text => exact Function.update_of_ne (Ne.symm hquiet) _ _
  | _ => rfl

theorem UploadState.Trimmed.step {path : Bytes} {e : FileEvent} (h : s.Trimmed path)
    (hquiet : e.Quiet path) (hstep : fileStep curl s e = some t) : t.Trimmed path := by
  cases fileStep_cases hstep with
  | written hjudge =>
      unfold UploadState.Trimmed ShortFile at h ⊢
      dsimp only
      rw [writtenFile_of_quiet hquiet]
      exact h
  | send hphase => trivial
  | @found path' content solution hphase hfile =>
      rintro rfl hshort content' hcontent'
      obtain rfl : content = content' := Option.some.inj (hfile.symm.trans hcontent')
      exact Nat.le_of_not_lt (of_decide_eq_false hshort)
  | missing hphase hfile => exact fun hnone => by cases hnone
  | @truncate ok long path' solution hphase =>
      intro hfound
      obtain rfl : path' = path := Option.some.inj hfound
      obtain rfl : ok = true := hquiet
      rw [UploadState.Trimmed, hphase] at h
      dsimp only
      split
      · exact shortFile_cutFile path' s.files
      · next hlong => exact h rfl (by simpa using hlong)
  | @performs found solution hphase hok =>
      rw [UploadState.Trimmed, hphase] at h
      exact h
  | again hphase hok => trivial
  | upload hphase => trivial

/-- `file_size` looks at the file that is cut. -/
theorem trimmed_measure (path : Bytes) (hstep : fileStep curl s .measure = some t) :
    t.Trimmed path := by
  cases fileStep_cases hstep with
  | written hjudge => exact hjudge.elim
  | @found path' content solution hphase hfile =>
      rintro rfl hshort content' hcontent'
      obtain rfl : content = content' := Option.some.inj (hfile.symm.trans hcontent')
      exact Nat.le_of_not_lt (of_decide_eq_false hshort)
  | missing hphase hfile => exact fun hnone => by cases hnone

theorem upload?_eq_some {path content : Bytes} (h : s.upload? = some (path, content)) :
    s.files path = some content ∧ ∃ form, s.phase = .performing form ∧ form.error = some path := by
  rw [UploadState.upload?] at h
  split at h
  · next form hphase =>
      obtain ⟨path', herror, hread⟩ := Option.bind_eq_some_iff.mp h
      obtain ⟨content', hcontent, heq⟩ := Option.map_eq_some_iff.mp hread
      cases heq
      exact ⟨hcontent, form, hphase, herror⟩
  · cases h

theorem UploadState.Trimmed.run {path : Bytes} {events : List FileEvent} (h : s.Trimmed path)
    (hquiet : ∀ e ∈ events, e.Quiet path) (hrun : runAll (fileStep curl) s events = some t) :
    t.Trimmed path := by
  induction events generalizing s with
  | nil =>
      cases hrun
      exact h
  | cons e events ih =>
      obtain ⟨mid, hfirst, hrest⟩ := runAll_cons_eq_some hrun
      exact ih (h.step (hquiet e List.mem_cons_self) hfirst)
        (fun e he => hquiet e (List.mem_cons_of_mem _ he)) hrest

/-- What is uploaded has been cut, if nothing has been written since its size was asked for. -/
theorem upload_length_le {before after : List FileEvent} {path content : Bytes}
    (hrun : runAll (fileStep curl) s (before ++ .measure :: after) = some t)
    (hquiet : ∀ e ∈ after, e.Quiet path) (hupload : t.upload? = some (path, content)) :
    content.length ≤ maxUploadFileSize := by
  obtain ⟨mid, -, hrest⟩ := runAll_append_eq_some hrun
  obtain ⟨measured, hmeasure, hafter⟩ := runAll_cons_eq_some hrest
  obtain ⟨hcontent, form, hphase, herror⟩ := upload?_eq_some hupload
  have htrimmed := (trimmed_measure path hmeasure).run hquiet hafter
  rw [UploadState.Trimmed, hphase] at htrimmed
  exact htrimmed herror content hcontent

/-! ## The form -/

/-- What the calls that are left post, if the files stay where they are. -/
def SendPhase.Sends (env : SendEnv) (attempts : ℕ) (form : PostedForm) : SendPhase → Prop
  | .idle => False
  | .starting filePath solution =>
      ∃ fuel, sendMultiResult env fuel attempts filePath solution = some form
  | .measured path solution _ => ∀ filePath, filePath.filter env.access = some path →
      ∃ fuel, sendMultiResult env fuel attempts filePath solution = some form
  | .formed found solution => ∀ filePath, filePath.filter env.access = found →
      ∃ fuel, sendMultiResult env fuel attempts filePath solution = some form
  | .performing form' => form' = form

/-- The surroundings of the sender. -/
def UploadState.env (s : UploadState) (resultTxt : Option Bytes) (curl : ℕ → CurlInit) : SendEnv :=
  ⟨resultTxt, fun path => (s.files path).isSome, curl⟩

/-- The sender leaves every file where it is. -/
theorem env_of_ofSender {e : FileEvent} (hsender : e.OfSender) (resultTxt : Option Bytes)
    (hstep : fileStep curl s e = some t) : t.env resultTxt curl = s.env resultTxt curl := by
  cases fileStep_cases hstep with
  | written hjudge => cases e <;> first | exact hjudge.elim | exact hsender.elim
  | send hphase => exact hsender.elim
  | found hphase hfile => rfl
  | missing hphase hfile => rfl
  | @truncate ok long path solution hphase =>
      have haccess : (fun other => ((if (long && ok) = true then cutFile path s.files
          else s.files) other).isSome) = fun other => (s.files other).isSome := by
        funext other
        split
        · by_cases hother : other = path
          · subst hother
            rw [cutFile, Function.update_self, Option.isSome_map]
          · rw [cutFile, Function.update_of_ne hother]
        · rfl
      rw [UploadState.env, UploadState.env, haccess]
  | performs hphase hok => rfl
  | again hphase hok => rfl
  | upload hphase => exact hsender.elim

theorem sends_of_step {e : FileEvent} (hsender : e.OfSender) (resultTxt : Option Bytes)
    {form : PostedForm} (hstep : fileStep curl s e = some t)
    (h : t.phase.Sends (s.env resultTxt curl) t.attempts form) :
    s.phase.Sends (s.env resultTxt curl) s.attempts form := by
  cases fileStep_cases hstep with
  | written hjudge => cases e <;> first | exact hjudge.elim | exact hsender.elim
  | send hphase => exact hsender.elim
  | @found path content solution hphase hfile =>
      rw [hphase]
      have haccess : (s.env resultTxt curl).access path = true := by simp [UploadState.env, hfile]
      exact h (some path) (Option.filter_some_pos haccess)
  | @missing filePath solution hphase hfile =>
      rw [hphase]
      apply h filePath
      rw [Option.filter_eq_none_iff]
      intro path hpath
      simp [UploadState.env, hfile path hpath]
  | truncate hphase =>
      rw [hphase]
      exact h
  | @performs found solution hphase hok =>
      rw [hphase]
      intro filePath hfound
      have hinit : ((s.env resultTxt curl).curl s.attempts).ok = true := hok
      refine ⟨1, ?_⟩
      rw [sendMultiResult, if_pos hinit, hfound]
      exact congrArg some h
  | @again found solution hphase hok =>
      rw [hphase]
      intro filePath hfound
      obtain ⟨fuel, hsends⟩ := h
      have hinit : ((s.env resultTxt curl).curl s.attempts).ok ≠ true := hok
      refine ⟨fuel + 2, ?_⟩
      rw [sendMultiResult, if_neg hinit, updateSystemError]
      exact hsends
  | upload hphase => exact hsender.elim

/-- The calls of the sender, one by one, make the form of `sendMultiResult`. -/
theorem performs_sendMultiResult (resultTxt : Option Bytes) {events : List FileEvent}
    (hsender : ∀ e ∈ events, e.OfSender) (hrun : runAll (fileStep curl) s events = some t)
    {form : PostedForm} (hphase : t.phase = .performing form) :
    s.phase.Sends (s.env resultTxt curl) s.attempts form := by
  induction events generalizing s with
  | nil =>
      cases hrun
      rw [hphase]
      exact rfl
  | cons e events ih =>
      obtain ⟨mid, hfirst, hrest⟩ := runAll_cons_eq_some hrun
      have hlater := ih (fun e he => hsender e (List.mem_cons_of_mem _ he)) hrest
      have hhead := hsender e List.mem_cons_self
      rw [env_of_ofSender hhead resultTxt hfirst] at hlater
      exact sends_of_step hhead resultTxt hfirst hlater

/-! ## What is uploaded -/

/-- What is uploaded begins as the file that was never cut. -/
theorem upload_take_eq {whole : Files} {path content : Bytes} (h : s.BeginsAs whole)
    (hupload : s.upload? = some (path, content)) :
    ∃ full, whole path = some full ∧
      content.take maxUploadFileSize = full.take maxUploadFileSize := by
  have hpath := h.sameHead path
  rw [(upload?_eq_some hupload).1] at hpath
  obtain ⟨full, hfull, heq⟩ := Option.map_eq_some_iff.mp hpath.symm
  exact ⟨full, hfull, heq.symm⟩

/-- Over any requests for a solution, also while a result is being sent, a file is uploaded
with the first bytes of all that was written to it since it was last opened with `"w"`, and
with these only if it was cut and nothing was written afterwards.  Once an upload has reached
the limit, every later one begins the same, whatever has been reported since. -/
theorem uploads_first_reports {events : List FileEvent} {path content : Bytes}
    (hidle : s.phase = .idle) (hmeets : Meets (fileStep curl) KeepsMeasured s events)
    (hrun : runAll (fileStep curl) s events = some t) (hupload : t.upload? = some (path, content)) :
    (∃ full, history s.files events path = some full ∧
      content.take maxUploadFileSize = full.take maxUploadFileSize ∧
      ∀ before after, events = before ++ .measure :: after → (∀ e ∈ after, e.Quiet path) →
        content = full.take maxUploadFileSize) ∧
    ∀ later u content', Meets (fileStep curl) KeepsMeasured t later →
      runAll (fileStep curl) t later = some u → (∀ e ∈ later, e.Keeps path) →
      u.upload? = some (path, content') →
      content.take maxUploadFileSize <+: content'.take maxUploadFileSize ∧
        (maxUploadFileSize ≤ content.length →
          content'.take maxUploadFileSize = content.take maxUploadFileSize) := by
  have hstart : s.BeginsAs s.files :=
    ⟨SameHead.refl s.files, fun _ _ hphase => by rw [hidle] at hphase; cases hphase⟩
  obtain ⟨hcontent, form, hphase, herror⟩ := upload?_eq_some hupload
  constructor
  · obtain ⟨full, hfull, htake⟩ := upload_take_eq (hstart.run hmeets hrun) hupload
    refine ⟨full, hfull, htake, ?_⟩
    rintro before after rfl hquiet
    rw [← htake, List.take_of_length_le (upload_length_le hrun hquiet hupload)]
  · intro later u content' hmeets' hlater hkeeps hupload'
    have hnow : t.BeginsAs t.files :=
      ⟨SameHead.refl t.files, fun _ _ hphase' => by rw [hphase] at hphase'; cases hphase'⟩
    obtain ⟨full, hfull, htake⟩ := upload_take_eq (hnow.run hmeets' hlater) hupload'
    have hgrown := getD_prefix_history hkeeps t.files
    rw [hfull, hcontent] at hgrown
    obtain ⟨rest, hrest⟩ := hgrown
    dsimp only [Option.getD_some] at hrest
    rw [htake, ← hrest]
    refine ⟨?_, fun hlong => List.take_append_of_le_length hlong⟩
    rw [List.take_append]
    exact List.prefix_append _ _

/-- The calls that post a solution at once. -/
def postEvents (path : Bytes) : List FileEvent :=
  [.send (some path) acceptedSolution, .measure, .truncate true, .init]

/-- Curl is always initialised. -/
def steadyCurl : ℕ → CurlInit := fun _ => ⟨true, true⟩

/-- A long file is sent with its first bytes. -/
theorem runAll_postEvents {path content : Bytes} (hidle : s.phase = .idle)
    (hfile : s.files path = some content) (hlong : maxUploadFileSize < content.length) :
    ∃ t, runAll (fileStep steadyCurl) s (postEvents path) = some t ∧
      t.phase = .performing (acceptedSolution.form (some path)) ∧
      t.upload? = some (path, content.take maxUploadFileSize) := by
  obtain ⟨files, phase, attempts⟩ := s
  obtain rfl : phase = .idle := hidle
  have hset : setLength maxUploadFileSize content = content.take maxUploadFileSize := by
    rw [setLength, Nat.sub_eq_zero_of_le hlong.le, List.replicate_zero, List.append_nil]
  dsimp only at hfile
  refine ⟨⟨cutFile path files, .performing (acceptedSolution.form (some path)), attempts + 1⟩,
    ?_, rfl, ?_⟩
  · simp [postEvents, runAll, fileStep, hfile, hlong, steadyCurl, CurlInit.ok]
  · simp [UploadState.upload?, FinishedSolution.form, cutFile, hfile, hset]

/-- No event of a sender empties a file. -/
theorem meets_keepsMeasured {events : List FileEvent} (h : ∀ e ∈ events, ∀ path, e ≠ .empty path)
    (s : UploadState) : Meets (fileStep curl) KeepsMeasured s events := by
  induction events generalizing s with
  | nil => trivial
  | cons e events ih =>
      refine ⟨fun path _ _ _ => h e List.mem_cons_self path, ?_⟩
      split
      · exact ih (fun e he => h e (List.mem_cons_of_mem _ he)) _
      · trivial

def workDiff : Bytes := ascii "/work/1/diff.out"

/-- A report of 5000 bytes is uploaded again when another request has added to it. -/
theorem uploads_first_reports_stale :
    ∃ (content content' : Bytes) (t u : UploadState),
      runAll (fileStep steadyCurl) ⟨fun _ => none, .idle, 0⟩
        (.append workDiff (List.replicate 5000 65) :: postEvents workDiff) = some t ∧
      t.upload? = some (workDiff, content) ∧
      runAll (fileStep steadyCurl) t (.upload :: .append workDiff [66] :: postEvents workDiff) =
        some u ∧
      u.upload? = some (workDiff, content') ∧
      content'.take maxUploadFileSize = content.take maxUploadFileSize := by
  have hlong : maxUploadFileSize < (List.replicate 5000 (65 : UInt8)).length := by
    rw [List.length_replicate]
    decide
  generalize List.replicate 5000 (65 : UInt8) = report at hlong ⊢
  generalize workDiff = path
  obtain ⟨t, hpost, hphase, hupload⟩ := @runAll_postEvents
    ⟨appendFile path report fun _ => none, .idle, 0⟩ path report rfl
    (by simp [appendFile]) hlong
  have hcut : t.files path = some (report.take maxUploadFileSize) := (upload?_eq_some hupload).1
  have hlong' : maxUploadFileSize < (report.take maxUploadFileSize ++ [66]).length := by
    rw [List.length_append, List.length_take_of_le hlong.le]
    exact Nat.lt_succ_self _
  obtain ⟨u, hpost', -, hupload'⟩ := @runAll_postEvents
    ⟨appendFile path [66] t.files, .idle, t.attempts⟩ path
    (report.take maxUploadFileSize ++ [66]) rfl (by simp [appendFile, hcut]) hlong'
  have hrun : runAll (fileStep steadyCurl) ⟨fun _ => none, .idle, 0⟩
      (.append path report :: postEvents path) = some t := hpost
  have hrun' : runAll (fileStep steadyCurl) t (.upload :: .append path [66] :: postEvents path) =
      some u := by
    rw [runAll_cons_of_step (t := { t with phase := .idle }) (by rw [fileStep, hphase])]
    exact hpost'
  have hkeeps : ∀ e ∈ FileEvent.upload :: .append path [66] :: postEvents path,
      ∀ other, e ≠ .empty other := by
    simp [postEvents]
  have hsame := (uploads_first_reports rfl (meets_keepsMeasured (by simp [postEvents]) _) hrun
    hupload).2 _ u _ (meets_keepsMeasured hkeeps t) hrun' (by simp [postEvents, FileEvent.Keeps])
    hupload'
  refine ⟨_, _, t, u, hrun, hupload, hrun', hupload', hsame.2 ?_⟩
  rw [List.length_take_of_le hlong.le]

end PowerJudge
