import Mathlib.Data.List.Infix
import Mathlib.Logic.Function.Basic
import PowerJudge.Support.ByteStream
import PowerJudge.Support.Transition

/-!
# The rotation of the log

Judges that run at the same time share one log.  Each of them first measures it, renames it
if it is full, and then opens it for appending; it keeps the file it has opened, whatever
its name is later.  The machine has a step for each of these calls, so that the steps of
several judges come in any order.
-/

namespace PowerJudge

open Transition

/-! ## The machine -/

/-- `MAX_LOG_FILE_SIZE`. -/
def maxLogFileSize : ℕ := 1048576 * 2 ^ 4

/-- The files of a log, by numbers that are never used again, and what its two names stand
for. -/
structure LogDir where
  content : ℕ → Bytes
  inodes : ℕ
  log : Option ℕ
  backup : Option ℕ

/-- `rename` of the log to its backup; it fails if there is no log. -/
def LogDir.rename (dir : LogDir) : LogDir :=
  match dir.log with
  | some i => { dir with log := none, backup := some i }
  | none => dir

/-- `fopen` of the log for appending, which makes a file if there is none. -/
def LogDir.openAppend (dir : LogDir) : ℕ × LogDir :=
  match dir.log with
  | some i => (i, dir)
  | none => (dir.inodes,
      { dir with
        content := Function.update dir.content dir.inodes []
        inodes := dir.inodes + 1
        log := some dir.inodes })

/-- Where a process is.  The file that it has found full is remembered for the statements
only. -/
inductive LogStage where
  | closed
  | full (measured : ℕ)
  | checked
  | opened (inode : ℕ)
  deriving DecidableEq, Repr

structure LogState where
  dir : LogDir
  stage : ℕ → LogStage

inductive LogEvent where
  /-- `file_size` in `check_and_rename_log`. -/
  | measure (p : ℕ)
  /-- `rename` in `check_and_rename_log`. -/
  | rename (p : ℕ)
  /-- `fopen` in `log_open`. -/
  | openLog (p : ℕ)
  /-- `write` in `log_write`. -/
  | write (p : ℕ) (line : Bytes)
  /-- `log_close`. -/
  | close (p : ℕ)
  deriving DecidableEq, Repr

def LogState.moveTo (s : LogState) (p : ℕ) (stage : LogStage) : LogState :=
  { s with stage := Function.update s.stage p stage }

/-- The stage after the log is measured. -/
def LogDir.measured (dir : LogDir) : LogStage :=
  match dir.log with
  | some i => if (dir.content i).length < maxLogFileSize then .checked else .full i
  | none => .checked

def logStep (s : LogState) : LogEvent → Option LogState
  | .measure p =>
      match s.stage p with
      | .closed => some (s.moveTo p s.dir.measured)
      | _ => none
  | .rename p =>
      match s.stage p with
      | .full _ => some { s.moveTo p .checked with dir := s.dir.rename }
      | _ => none
  | .openLog p =>
      match s.stage p with
      | .checked => some { s.moveTo p (.opened s.dir.openAppend.1) with dir := s.dir.openAppend.2 }
      | _ => none
  | .write p line =>
      match s.stage p with
      | .opened i =>
          some { s with
            dir := { s.dir with
              content := Function.update s.dir.content i (s.dir.content i ++ line) } }
      | _ => none
  | .close p =>
      match s.stage p with
      | .opened _ => some (s.moveTo p .closed)
      | _ => none

/-! ## Steps -/

variable {s t : LogState} {p : ℕ}

/-- Everything that a step can do. -/
theorem logStep_cases {e : LogEvent} (h : logStep s e = some t) :
    (∃ p, e = .measure p ∧ s.stage p = .closed ∧ t = s.moveTo p s.dir.measured) ∨
    (∃ p i, e = .rename p ∧ s.stage p = .full i ∧
      t = { s.moveTo p .checked with dir := s.dir.rename }) ∨
    (∃ p, e = .openLog p ∧ s.stage p = .checked ∧
      t = { s.moveTo p (.opened s.dir.openAppend.1) with dir := s.dir.openAppend.2 }) ∨
    (∃ p line i, e = .write p line ∧ s.stage p = .opened i ∧
      t = { s with
        dir := { s.dir with
          content := Function.update s.dir.content i (s.dir.content i ++ line) } }) ∨
    (∃ p, e = .close p ∧ t = s.moveTo p .closed) := by
  cases e with
  | measure p =>
      simp only [logStep] at h
      split at h
      · next hstage => exact Or.inl ⟨p, rfl, hstage, (Option.some.inj h).symm⟩
      · cases h
  | rename p =>
      simp only [logStep] at h
      split at h
      · next i hstage => exact Or.inr (Or.inl ⟨p, i, rfl, hstage, (Option.some.inj h).symm⟩)
      · cases h
  | openLog p =>
      simp only [logStep] at h
      split at h
      · next hstage =>
          exact Or.inr (Or.inr (Or.inl ⟨p, rfl, hstage, (Option.some.inj h).symm⟩))
      · cases h
  | write p line =>
      simp only [logStep] at h
      split at h
      · next i hstage =>
          exact Or.inr (Or.inr (Or.inr (Or.inl
            ⟨p, line, i, rfl, hstage, (Option.some.inj h).symm⟩)))
      · cases h
  | close p =>
      simp only [logStep] at h
      split at h
      · exact Or.inr (Or.inr (Or.inr (Or.inr ⟨p, rfl, (Option.some.inj h).symm⟩)))
      · cases h

/-! ## What a rotation keeps -/

/-- The file has one of the two names. -/
def LogDir.Linked (dir : LogDir) (i : ℕ) : Prop := dir.log = some i ∨ dir.backup = some i

/-- The backup is full, and is made later than the file. -/
def LogDir.Outlived (dir : LogDir) (i : ℕ) : Prop :=
  ∃ b, dir.backup = some b ∧ i < b ∧ maxLogFileSize ≤ (dir.content b).length

/-- The log is the last file that was made, the backup is an earlier one, and all others
are outlived. -/
structure LogDir.Rotated (dir : LogDir) : Prop where
  log_last : ∀ i, dir.log = some i → i + 1 = dir.inodes
  backup_lt : ∀ b, dir.backup = some b → b < dir.inodes
  backup_lt_log : ∀ b i, dir.backup = some b → dir.log = some i → b < i
  kept : ∀ i < dir.inodes, dir.Linked i ∨ dir.Outlived i

theorem LogDir.Outlived.of_content {dir dir' : LogDir} {i : ℕ} (h : dir.Outlived i)
    (hbackup : dir'.backup = dir.backup)
    (hcontent : ∀ b, dir.backup = some b → (dir.content b).length ≤ (dir'.content b).length) :
    dir'.Outlived i := by
  obtain ⟨b, hb, hlt, hfull⟩ := h
  exact ⟨b, hbackup.trans hb, hlt, hfull.trans (hcontent b hb)⟩

/-- A full log may take the place of the backup. -/
theorem LogDir.Rotated.rename {dir : LogDir} {i : ℕ} (h : dir.Rotated) (hlog : dir.log = some i)
    (hfull : maxLogFileSize ≤ (dir.content i).length) : dir.rename.Rotated := by
  have hdir : dir.rename = { dir with log := none, backup := some i } := by
    rw [LogDir.rename, hlog]
  rw [hdir]
  have hlast := h.log_last i hlog
  refine ⟨?_, ?_, ?_, ?_⟩
  · intro j hj
    cases hj
  · intro b hb
    obtain rfl := Option.some.inj hb
    exact Nat.lt_of_succ_le hlast.le
  · intro b j _ hj
    cases hj
  · intro j hj
    dsimp only at hj
    by_cases hji : j = i
    · exact Or.inl (Or.inr (congrArg some hji.symm))
    · exact Or.inr ⟨i, rfl, by omega, hfull⟩

theorem LogDir.Rotated.openAppend {dir : LogDir} (h : dir.Rotated) :
    dir.openAppend.2.Rotated := by
  cases hlog : dir.log with
  | some i =>
      have hopen : dir.openAppend = (i, dir) := by rw [LogDir.openAppend, hlog]
      rw [hopen]
      exact h
  | none =>
      have hopen : dir.openAppend = (dir.inodes,
          { dir with
            content := Function.update dir.content dir.inodes []
            inodes := dir.inodes + 1
            log := some dir.inodes }) := by
        rw [LogDir.openAppend, hlog]
      rw [hopen]
      refine ⟨?_, ?_, ?_, ?_⟩
      · intro i hi
        rw [Option.some.inj hi]
      · intro b hb
        exact Nat.lt_succ_of_lt (h.backup_lt b hb)
      · intro b i hb hi
        rw [← Option.some.inj hi]
        exact h.backup_lt b hb
      · intro i hi
        rcases Nat.lt_succ_iff_lt_or_eq.mp hi with hlt | heq
        · rcases h.kept i hlt with (hname | hname) | houtlived
          · rw [hlog] at hname
            cases hname
          · exact Or.inl (Or.inr hname)
          · refine Or.inr (houtlived.of_content rfl ?_)
            intro b hb
            have hne : b ≠ dir.inodes := Nat.ne_of_lt (h.backup_lt b hb)
            dsimp only
            rw [Function.update_of_ne hne]
        · exact Or.inl (Or.inl (congrArg some heq.symm))

theorem LogDir.Rotated.append {dir : LogDir} (h : dir.Rotated) (i : ℕ) (line : Bytes) :
    LogDir.Rotated { dir with
      content := Function.update dir.content i (dir.content i ++ line) } where
  log_last := h.log_last
  backup_lt := h.backup_lt
  backup_lt_log := h.backup_lt_log
  kept := by
    intro j hj
    refine (h.kept j hj).imp_right fun houtlived => houtlived.of_content rfl ?_
    intro b hb
    by_cases hbi : b = i
    · subst hbi
      simp
    · dsimp only
      rw [Function.update_of_ne hbi]

/-- What the judges know about the files. -/
structure Kept (s : LogState) : Prop where
  rotated : s.dir.Rotated
  full_lt : ∀ p i, s.stage p = .full i → i < s.dir.inodes
  full : ∀ p i, s.stage p = .full i → maxLogFileSize ≤ (s.dir.content i).length

/-- No judge renames another file than the one that it has found full. -/
def RenamesMeasured (s : LogState) : LogEvent → Prop
  | .rename p => ∀ i, s.stage p = .full i → s.dir.log = some i
  | _ => True

/-- The files of the other judges only grow. -/
theorem Kept.of_dir {dir : LogDir} {stage : LogStage} (h : Kept s) (hrotated : dir.Rotated)
    (hinodes : s.dir.inodes ≤ dir.inodes)
    (hcontent : ∀ i < s.dir.inodes, (s.dir.content i).length ≤ (dir.content i).length)
    (hfull : ∀ i, stage = .full i → i < dir.inodes ∧ maxLogFileSize ≤ (dir.content i).length) :
    Kept { s.moveTo p stage with dir := dir } where
  rotated := hrotated
  full_lt := by
    intro q i hq
    by_cases hqp : q = p
    · subst hqp
      exact (hfull i (by simpa [LogState.moveTo] using hq)).1
    · have hsame : s.stage q = .full i := by simpa [LogState.moveTo, hqp] using hq
      exact (h.full_lt q i hsame).trans_le hinodes
  full := by
    intro q i hq
    by_cases hqp : q = p
    · subst hqp
      exact (hfull i (by simpa [LogState.moveTo] using hq)).2
    · have hsame : s.stage q = .full i := by simpa [LogState.moveTo, hqp] using hq
      exact (h.full q i hsame).trans (hcontent i (h.full_lt q i hsame))

theorem LogDir.measured_eq_full {dir : LogDir} {i : ℕ} (h : dir.measured = .full i) :
    dir.log = some i ∧ maxLogFileSize ≤ (dir.content i).length := by
  unfold LogDir.measured at h
  split at h
  · next j hlog =>
      split at h
      · cases h
      · next hfull =>
          cases h
          exact ⟨hlog, Nat.not_lt.mp hfull⟩
  · cases h

theorem LogDir.openAppend_content (dir : LogDir) {i : ℕ} (hi : i < dir.inodes) :
    dir.openAppend.2.content i = dir.content i := by
  unfold LogDir.openAppend
  split
  · rfl
  · exact Function.update_of_ne (Nat.ne_of_lt hi) _ _

theorem LogDir.inodes_le_openAppend (dir : LogDir) : dir.inodes ≤ dir.openAppend.2.inodes := by
  unfold LogDir.openAppend
  split
  · exact Nat.le_refl _
  · exact Nat.le_succ _

theorem LogDir.rename_content (dir : LogDir) :
    dir.rename.content = dir.content ∧ dir.rename.inodes = dir.inodes := by
  unfold LogDir.rename
  split <;> exact ⟨rfl, rfl⟩

theorem LogDir.rename_log (dir : LogDir) : dir.rename.log = none := by
  unfold LogDir.rename
  split
  · rfl
  · assumption

theorem kept_step (s : LogState) (e : LogEvent) (t : LogState) (h : Kept s)
    (hmeasured : RenamesMeasured s e) (hstep : logStep s e = some t) : Kept t := by
  rcases logStep_cases hstep with ⟨p, rfl, -, rfl⟩ | ⟨p, i, rfl, hstage, rfl⟩ | ⟨p, rfl, -, rfl⟩ |
    ⟨p, line, i, rfl, -, rfl⟩ | ⟨p, rfl, rfl⟩
  · refine Kept.of_dir h h.rotated (Nat.le_refl _) (fun _ _ => Nat.le_refl _) ?_
    intro i hi
    obtain ⟨hlog, hfull⟩ := LogDir.measured_eq_full hi
    exact ⟨Nat.lt_of_succ_le (h.rotated.log_last i hlog).le, hfull⟩
  · have hrename := s.dir.rename_content
    refine h.of_dir (h.rotated.rename (hmeasured i hstage) (h.full p i hstage))
      hrename.2.ge ?_ ?_
    · intro j _
      rw [hrename.1]
    · intro j hj
      cases hj
  · refine h.of_dir h.rotated.openAppend s.dir.inodes_le_openAppend ?_ ?_
    · intro j hj
      rw [s.dir.openAppend_content hj]
    · intro j hj
      cases hj
  · refine ⟨h.rotated.append i line, h.full_lt, ?_⟩
    intro q j hq
    have hbefore := h.full q j hq
    dsimp only
    by_cases hji : j = i
    · subst hji
      rw [Function.update_self, List.length_append]
      omega
    · rwa [Function.update_of_ne hji]
  · refine Kept.of_dir h h.rotated (Nat.le_refl _) (fun _ _ => Nat.le_refl _) ?_
    intro i hi
    cases hi

/-! ## What a file holds -/

/-- The files that were made hold what they held, and perhaps more. -/
structure Grows (s t : LogState) : Prop where
  inodes_le : s.dir.inodes ≤ t.dir.inodes
  content : ∀ i < s.dir.inodes, s.dir.content i <+: t.dir.content i

theorem Grows.refl (s : LogState) : Grows s s := ⟨Nat.le_refl _, fun _ _ => List.prefix_refl _⟩

theorem Grows.trans {u : LogState} (h : Grows s t) (h' : Grows t u) : Grows s u where
  inodes_le := h.inodes_le.trans h'.inodes_le
  content := fun i hi => (h.content i hi).trans (h'.content i (hi.trans_le h.inodes_le))

theorem grows_step {e : LogEvent} (hstep : logStep s e = some t) : Grows s t := by
  rcases logStep_cases hstep with ⟨p, rfl, -, rfl⟩ | ⟨p, i, rfl, -, rfl⟩ | ⟨p, rfl, -, rfl⟩ |
    ⟨p, line, i, rfl, -, rfl⟩ | ⟨p, rfl, rfl⟩
  · exact ⟨Nat.le_refl _, fun _ _ => List.prefix_refl _⟩
  · have hrename := s.dir.rename_content
    refine ⟨hrename.2.ge, fun j _ => ?_⟩
    dsimp only
    rw [hrename.1]
  · refine ⟨s.dir.inodes_le_openAppend, fun j hj => ?_⟩
    dsimp only
    rw [s.dir.openAppend_content hj]
  · refine ⟨Nat.le_refl _, fun j _ => ?_⟩
    dsimp only
    by_cases hji : j = i
    · subst hji
      rw [Function.update_self]
      exact List.prefix_append _ _
    · rw [Function.update_of_ne hji]
  · exact ⟨Nat.le_refl _, fun _ _ => List.prefix_refl _⟩

theorem grows_run {events : List LogEvent} (h : runAll logStep s events = some t) : Grows s t :=
  runAll_preserves (fun _ _ _ hgrows hstep => Grows.trans hgrows (grows_step hstep))
    (Grows.refl s) h

/-- The log and the files that the judges have open are made. -/
structure Made (s : LogState) : Prop where
  log_lt : ∀ i, s.dir.log = some i → i < s.dir.inodes
  opened_lt : ∀ p i, s.stage p = .opened i → i < s.dir.inodes

theorem Made.moveTo {stage : LogStage} (h : Made s) (hstage : ∀ i, stage ≠ .opened i) :
    Made (s.moveTo p stage) where
  log_lt := h.log_lt
  opened_lt := by
    intro q i hq
    by_cases hqp : q = p
    · subst hqp
      exact (hstage i (by simpa [LogState.moveTo] using hq)).elim
    · exact h.opened_lt q i (by simpa [LogState.moveTo, hqp] using hq)

theorem LogDir.measured_ne_opened (dir : LogDir) (i : ℕ) : dir.measured ≠ .opened i := by
  unfold LogDir.measured
  split
  · split <;> simp
  · simp

theorem LogDir.openAppend_log (dir : LogDir) : dir.openAppend.2.log = some dir.openAppend.1 := by
  unfold LogDir.openAppend
  split
  · assumption
  · rfl

theorem LogDir.openAppend_lt {dir : LogDir} (h : ∀ i, dir.log = some i → i < dir.inodes) :
    dir.openAppend.1 < dir.openAppend.2.inodes := by
  unfold LogDir.openAppend
  split
  · next i hlog => exact h i hlog
  · exact Nat.lt_succ_self _

theorem made_step (s : LogState) (e : LogEvent) (t : LogState) (h : Made s)
    (hstep : logStep s e = some t) : Made t := by
  rcases logStep_cases hstep with ⟨p, rfl, -, rfl⟩ | ⟨p, i, rfl, -, rfl⟩ | ⟨p, rfl, -, rfl⟩ |
    ⟨p, line, i, rfl, -, rfl⟩ | ⟨p, rfl, rfl⟩
  · exact h.moveTo s.dir.measured_ne_opened
  · have hmoved : Made (s.moveTo p .checked) := h.moveTo (by simp)
    refine ⟨?_, fun q j hq => (hmoved.opened_lt q j hq).trans_le s.dir.rename_content.2.ge⟩
    intro j hj
    dsimp only at hj
    rw [s.dir.rename_log] at hj
    cases hj
  · refine ⟨?_, ?_⟩
    · intro j hj
      dsimp only at hj
      rw [s.dir.openAppend_log] at hj
      cases hj
      exact LogDir.openAppend_lt h.log_lt
    · intro q j hq
      by_cases hqp : q = p
      · subst hqp
        have hj : s.dir.openAppend.1 = j := by simpa [LogState.moveTo] using hq
        exact hj ▸ LogDir.openAppend_lt h.log_lt
      · have hsame : s.stage q = .opened j := by simpa [LogState.moveTo, hqp] using hq
        exact (h.opened_lt q j hsame).trans_le s.dir.inodes_le_openAppend
  · exact ⟨h.log_lt, h.opened_lt⟩
  · exact h.moveTo (by simp)

/-! ## Runs -/

/-- The files at the start: no judge is running, and there may be a log and a backup. -/
structure LogState.Start (s : LogState) : Prop where
  rotated : s.dir.Rotated
  linked : ∀ i < s.dir.inodes, s.dir.Linked i
  closed : ∀ p, s.stage p = .closed

theorem LogState.Start.kept (h : s.Start) : Kept s where
  rotated := h.rotated
  full_lt := by
    intro p i hp
    rw [h.closed p] at hp
    cases hp
  full := by
    intro p i hp
    rw [h.closed p] at hp
    cases hp

theorem LogState.Start.made (h : s.Start) : Made s where
  log_lt := fun i hi => Nat.lt_of_succ_le (h.rotated.log_last i hi).le
  opened_lt := by
    intro p i hp
    rw [h.closed p] at hp
    cases hp

/-- In every run, in any order of the steps of any number of judges, each line that is
written stays where it is written, below all that its file held.  As long as no judge
renames another file than the one that it has measured, each file keeps a name until
a full file of later lines is the backup. -/
theorem rotation_keeps_newest {events : List LogEvent} (hstart : s.Start)
    (hrun : runAll logStep s events = some t) :
    (∀ before p line after, events = before ++ .write p line :: after →
      ∃ u i, runAll logStep s before = some u ∧ u.stage p = .opened i ∧
        u.dir.content i ++ line <+: t.dir.content i) ∧
    (Meets logStep RenamesMeasured s events →
      ∀ i < t.dir.inodes, t.dir.Linked i ∨ t.dir.Outlived i) := by
  refine ⟨?_, ?_⟩
  · intro before p line after hevents
    rw [hevents] at hrun
    obtain ⟨u, hbefore, hrest⟩ := runAll_append_eq_some hrun
    obtain ⟨v, hwrite, hafter⟩ := runAll_cons_eq_some hrest
    rcases logStep_cases hwrite with ⟨q, hq, -⟩ | ⟨q, i, hq, -⟩ | ⟨q, hq, -⟩ |
      ⟨q, line', i, hq, hstage, hv⟩ | ⟨q, hq, -⟩
    · cases hq
    · cases hq
    · cases hq
    · cases hq
      have hmade : Made u := runAll_preserves made_step hstart.made hbefore
      have hgrown : Grows v t := grows_run hafter
      have hcontent := hgrown.content i
      rw [hv] at hcontent
      dsimp only at hcontent
      rw [Function.update_self] at hcontent
      exact ⟨u, i, hbefore, hstage, hcontent (hmade.opened_lt p i hstage)⟩
    · cases hq
  · intro hmeasured
    exact (runAll_invariant kept_step hstart.kept hmeasured hrun).rotated.kept

/-- A log that is full is renamed once, and the lines that follow are in a new one. -/
theorem rotation_keeps_newest_full :
    ∃ (s t : LogState) (events : List LogEvent), s.Start ∧ runAll logStep s events = some t ∧
      Meets logStep RenamesMeasured s events ∧ t.dir.log = some 1 ∧ t.dir.backup = some 0 ∧
      ∀ i < t.dir.inodes, t.dir.Linked i ∨ t.dir.Outlived i := by
  let s : LogState :=
    ⟨⟨fun _ => List.replicate maxLogFileSize 0, 1, some 0, none⟩, fun _ => .closed⟩
  have hstart : s.Start := by
    refine ⟨⟨?_, ?_, ?_, ?_⟩, ?_, fun _ => rfl⟩ <;> simp [s, LogDir.Linked, eq_comm]
  have hmeasure : logStep s (.measure 0) = some (s.moveTo 0 (.full 0)) := by
    simp [logStep, s, LogDir.measured]
  have hrun : ∃ t, runAll logStep s [.measure 0, .rename 0, .openLog 0, .write 0 [65]] = some t ∧
      t.dir.log = some 1 ∧ t.dir.backup = some 0 := by
    rw [runAll_cons_of_step hmeasure]
    simp [runAll, logStep, s, LogState.moveTo, LogDir.rename, LogDir.openAppend]
  have hmeets : Meets logStep RenamesMeasured s
      [.measure 0, .rename 0, .openLog 0, .write 0 [65]] := by
    refine ⟨trivial, ?_⟩
    rw [hmeasure]
    refine ⟨?_, ?_⟩
    · simp [RenamesMeasured, s, LogState.moveTo]
    · simp [Meets, RenamesMeasured, logStep, s, LogState.moveTo, LogDir.rename,
        LogDir.openAppend]
  obtain ⟨t, ht, hlog, hbackup⟩ := hrun
  exact ⟨s, t, _, hstart, ht, hmeets, hlog, hbackup, (rotation_keeps_newest hstart ht).2 hmeets⟩

/-- Two judges have found the same log full.  The second renames the log that the first
has made, and what was full has no name and no later file in its place. -/
theorem stale_rename_loses {q i : ℕ} (hkept : Kept s) (hlog : s.dir.log = some i) (hpq : p ≠ q)
    (hp : s.stage p = .full i) (hq : s.stage q = .full i) :
    ∃ t, runAll logStep s [.rename p, .openLog p, .rename q] = some t ∧
      t.dir.backup = some s.dir.inodes ∧ t.dir.content s.dir.inodes = [] ∧
      ¬ t.dir.Linked i ∧ ¬ t.dir.Outlived i := by
  have hlt := hkept.full_lt p i hp
  have hrun : ∃ t, runAll logStep s [.rename p, .openLog p, .rename q] = some t ∧
      t.dir.log = none ∧ t.dir.backup = some s.dir.inodes ∧
      t.dir.content s.dir.inodes = [] := by
    simp [runAll, logStep, hp, hq, hlog, hpq.symm, LogState.moveTo, LogDir.rename,
      LogDir.openAppend]
  obtain ⟨t, ht, hnone, hbackup, hempty⟩ := hrun
  refine ⟨t, ht, hbackup, hempty, ?_, ?_⟩
  · rintro (hname | hname)
    · rw [hnone] at hname
      cases hname
    · rw [hbackup] at hname
      exact Nat.ne_of_gt hlt (Option.some.inj hname)
  · rintro ⟨b, hb, -, hfull⟩
    rw [hbackup] at hb
    cases hb
    rw [hempty] at hfull
    simp [maxLogFileSize] at hfull

end PowerJudge
