import Mathlib.Data.List.GetD
import PowerJudge.Judged.Reports

/-!
# The result file between two runs

`update_result` runs in another thread than the worker that has waited for the
judge, and the path of `result.txt` depends on the contest and the solution
only.  A report is that of its own run as long as no other judge opens the file
before it has been read, and a judge that writes a file which another has written since
it was opened leaves nothing behind its record that continues it.
-/

namespace PowerJudge

variable {config : Config} {s s' : State}

/-! ## Runs and their files -/

/-- The judge process of the job has written the record. -/
def HasWritten (s : State) (job : ℕ) (record : Record) : Prop :=
  ∃ c, IsRunOf s c job ∧ (s.child c).phase.output = .written record

def OutputStage.IsWritten : OutputStage → Prop
  | .written _ => True
  | _ => False

instance : DecidablePred OutputStage.IsWritten
  | .untouched | .truncated => isFalse id
  | .written _ => isTrue trivial

theorem OutputStage.isWritten_iff {output : OutputStage} :
    output.IsWritten ↔ ∃ record, output = .written record := by
  cases output <;> simp [OutputStage.IsWritten]

/-- The job for which the thread waits, or pushes a success. -/
def WorkerPhase.awaits? : WorkerPhase → Option ℕ
  | .waiting job _ => some job
  | .pushing job code => if code = ExitReason.ok.code then some job else none
  | _ => none

/-- A success of the job is in the `SendQueue`, or popped from it. -/
def Sent (s : State) (job : ℕ) : Prop :=
  (ExitReason.ok.code, job) ∈ s.sendQueue 0 ∨ s.sender = .sending ExitReason.ok.code job

/-- The file of the job may still be read for it. -/
def Unread (s : State) (job : ℕ) : Prop :=
  (∃ x ∈ s.taken, (s.phase x.1).awaits? = some job) ∨ Sent s job

instance (s : State) (job : ℕ) : Decidable (Sent s job) :=
  inferInstanceAs (Decidable (_ ∨ _))

instance (s : State) (job : ℕ) : Decidable (Unread s job) :=
  inferInstanceAs (Decidable (_ ∨ _))

/-- The file that the child writes holds no result of another run that may still
be read. -/
def SparesUnread (config : Config) (s : State) (c : ℕ) : Prop :=
  ∀ c' < s.childCount, c' ≠ c → (s.child c').phase.output.IsWritten →
    Unread s (s.child c').job →
    readPath config (s.request (s.child c').job) ≠ s.childFile config c

instance (config : Config) (s : State) (c : ℕ) : Decidable (SparesUnread config s c) :=
  inferInstanceAs (Decidable (∀ c' < s.childCount, _))

/-- Every child becomes a judge, which ends with the status 0 after it has written
its result. -/
def EndsWell (s : State) : Event → Prop
  | .exec _ ok => ok = true
  | .finish c status =>
      status = .ofExit ExitReason.ok.code ∧ (s.child c).phase.output.IsWritten
  | _ => True

instance (s : State) : DecidablePred (EndsWell s)
  | .exec _ ok => inferInstanceAs (Decidable (ok = true))
  | .finish _ _ => inferInstanceAs (Decidable (_ ∧ _))
  | .accept _ | .take _ | .fork _ _ | .truncate _ | .write _ _ | .wait _ _ | .push _
  | .pop | .read | .post _ => isTrue trivial

/-- The judge for which the thread waits has written its result. -/
def AwaitsWritten (s : State) (t : Thread) : Prop :=
  ∀ c < s.childCount, s.phase t = .waiting (s.child c).job c →
    (s.child c).phase.output.IsWritten

instance (s : State) (t : Thread) : Decidable (AwaitsWritten s t) :=
  inferInstanceAs (Decidable (∀ c < s.childCount, _))

theorem EndsWell.execSucceeds {e : Event} (h : EndsWell s e) : ExecSucceeds e := by
  cases e with
  | exec c ok => exact h
  | _ => trivial

/-- What the file that the child writes holds behind the text of the record does not
continue the record. -/
def EndsRecord (config : Config) (s : State) (c : ℕ) (record : Record) : Prop :=
  EndsField ((s.contents (s.childFile config c)).drop (recordText record.numbers).length)

instance (config : Config) (s : State) (c : ℕ) (record : Record) :
    Decidable (EndsRecord config s c record) :=
  inferInstanceAs (Decidable (_ = true))

/-- A judge opens and writes only a file that holds no other unread result, and
writes the one that is read for its request, so that its record ends there; `waitpid`
does not fail before that. -/
def KeepsUnread (config : Config) (s : State) : Event → Prop
  | .truncate c => SparesUnread config s c
  | .write c record =>
      SparesUnread config s c ∧
        readPath config (s.request (s.child c).job) = s.childFile config c ∧
        EndsRecord config s c record
  | .wait t .failed => AwaitsWritten s t
  | _ => True

instance (config : Config) (s : State) : DecidablePred (KeepsUnread config s)
  | .truncate c => inferInstanceAs (Decidable (SparesUnread config s c))
  | .write _ _ => inferInstanceAs (Decidable (_ ∧ _ ∧ _))
  | .wait t .failed => inferInstanceAs (Decidable (AwaitsWritten s t))
  | .wait _ (.stopped _) | .wait _ .ended | .accept _ | .take _ | .fork _ _ | .exec _ _
  | .finish _ _ | .push _ | .pop | .read | .post _ => isTrue trivial

/-- The numbers have been read for the job, or posted for it. -/
def Answers (s : State) (job : ℕ) (numbers : RecordNumbers) : Prop :=
  s.sender = .reporting job (.verdict numbers) ∨ (job, .verdict numbers) ∈ s.posted

/-- What is read and posted for a job is the record of its own run. -/
structure OwnVerdicts (config : Config) (s : State) : Prop where
  /-- A job has at most one run. -/
  unique : ∀ c c' job, IsRunOf s c job → IsRunOf s c' job → c = c'
  /-- What `update_result` finds in the file that it is about to read. -/
  read : ∀ job, s.sender = .sending ExitReason.ok.code job →
    ∃ record, HasWritten s job record ∧
      updateResult (s.file (readPath config (s.request job))) =
        .verdict record.numbers.scanned
  posted : ∀ job numbers, Answers s job numbers →
    ∃ record, HasWritten s job record ∧ numbers = record.numbers.scanned

/-! ## The invariant -/

/-- The file begins with the text of the record, which ends there. -/
def Holds (file : ResultTxt) (record : Record) : Prop :=
  ∃ rest, EndsField rest ∧ file = some (recordText record.numbers ++ rest)

theorem Holds.updateResult {file : ResultTxt} {record : Record} (h : Holds file record)
    (hlong : record.numbers.AreLong) :
    updateResult file = .verdict record.numbers.scanned := by
  obtain ⟨rest, hrest, rfl⟩ := h
  exact updateResult_of_scanRecord (scanRecord_append hlong hrest)

/-- Every result that may still be read is in its file. -/
structure Owned (config : Config) (s : State) : Prop where
  ended : ∀ c < s.childCount, ∀ status output,
    (s.child c).phase = .ended status output → output.IsWritten
  long : ∀ job record, HasWritten s job record → record.numbers.AreLong
  pushing : ∀ t job, s.phase t = .pushing job ExitReason.ok.code →
    ∃ record, HasWritten s job record
  sent : ∀ job, Sent s job → ∃ record, HasWritten s job record
  kept : ∀ job record, HasWritten s job record → Unread s job →
    Holds (s.file (readPath config (s.request job))) record
  posted : ∀ job numbers, Answers s job numbers →
    ∃ record, HasWritten s job record ∧ numbers = record.numbers.scanned

/-- What `update_result` finds for a job that has been pushed as a success. -/
theorem Owned.read (h : Owned config s) {job : ℕ} (hsent : Sent s job) :
    ∃ record, HasWritten s job record ∧
      updateResult (s.file (readPath config (s.request job))) =
        .verdict record.numbers.scanned := by
  obtain ⟨record, hrecord⟩ := h.sent job hsent
  have hholds := h.kept job record hrecord (Or.inr hsent)
  exact ⟨record, hrecord, hholds.updateResult (h.long job record hrecord)⟩

theorem Owned.ownVerdicts (h : Owned config s) (hone : OneRun s) : OwnVerdicts config s where
  unique := hone.unique
  read := fun _ hsender => h.read (Or.inr hsender)
  posted := h.posted

theorem owned_start (file : Bytes → ResultTxt) : Owned config (.start file) where
  ended := by simp [State.start]
  long := by simp [HasWritten, IsRunOf, State.start]
  pushing := by simp [State.start]
  sent := by simp [Sent, State.start]
  kept := by simp [HasWritten, IsRunOf, State.start]
  posted := by simp [Answers, State.start]

/-! ## Steps of the threads -/

/-- The two states have the same children and files. -/
structure SameRuns (s s' : State) : Prop where
  childCount : s'.childCount = s.childCount
  child : s'.child = s.child
  file : s'.file = s.file

theorem SameRuns.isRunOf_iff (h : SameRuns s s') {c job : ℕ} :
    IsRunOf s' c job ↔ IsRunOf s c job := by
  rw [IsRunOf, IsRunOf, h.childCount, h.child]

theorem SameRuns.hasWritten_iff (h : SameRuns s s') {job : ℕ} {record : Record} :
    HasWritten s' job record ↔ HasWritten s job record := by
  simp only [HasWritten, h.isRunOf_iff, h.child]

/-- A step that leaves the children and the files alone and makes no further file
unread. -/
theorem Owned.of_sameRuns (h : Owned config s) (hsame : SameRuns s s')
    (hrequest : ∀ c job, IsRunOf s c job → s'.request job = s.request job)
    (hpushing : ∀ t job, s'.phase t = .pushing job ExitReason.ok.code →
      ∃ record, HasWritten s job record)
    (hsent : ∀ job, Sent s' job → ∃ record, HasWritten s job record)
    (hunread : ∀ job, Unread s' job → Unread s job)
    (hposted : ∀ job numbers, Answers s' job numbers →
      ∃ record, HasWritten s job record ∧ numbers = record.numbers.scanned) :
    Owned config s' where
  ended := by
    rw [hsame.childCount, hsame.child]
    exact h.ended
  long := by
    simp only [hsame.hasWritten_iff]
    exact h.long
  pushing := by
    simp only [hsame.hasWritten_iff]
    exact hpushing
  sent := by
    simp only [hsame.hasWritten_iff]
    exact hsent
  kept := by
    intro job record hwritten hunread'
    rw [hsame.hasWritten_iff] at hwritten
    obtain ⟨c, hrun, -⟩ := id hwritten
    rw [hsame.file, hrequest c job hrun]
    exact h.kept job record hwritten (hunread job hunread')
  posted := by
    simp only [hsame.hasWritten_iff]
    exact hposted

/-- No file becomes unread by the step of a thread that awaits no other job. -/
theorem Unread.of_update {t : Thread} {next : WorkerPhase} {job : ℕ}
    (hnext : next.awaits? = some job → Unread s job)
    (h : ∃ x ∈ s.taken, (Function.update s.phase t next x.1).awaits? = some job) :
    Unread s job := by
  obtain ⟨x, hx, hawaits⟩ := h
  by_cases ht : x.1 = t
  · rw [ht, Function.update_self] at hawaits
    exact hnext hawaits
  · rw [Function.update_of_ne ht] at hawaits
    exact Or.inl ⟨x, hx, hawaits⟩

/-- The file of the job that a thread awaits is unread. -/
theorem Accounted.unread {stage : ℕ → Stage} (h : Accounted s stage) {t : Thread} {job : ℕ}
    (hjob : (s.phase t).job? = some job) (hawaits : (s.phase t).awaits? = some job) :
    Unread s job :=
  Or.inl ⟨(t, job), h.taker t job hjob, hawaits⟩

theorem Owned.accept (h : Owned config s) {stage : ℕ → Stage} (hs : Accounted s stage)
    (hone : OneRun s) (request : Request) (processQueue : ℕ → List ℕ) :
    Owned config { s with
      requests := s.requests ++ [request]
      processQueue := processQueue } := by
  apply h.of_sameRuns
  · exact ⟨rfl, rfl, rfl⟩
  · intro c job hrun
    exact List.getD_append _ _ _ _ (hone.job_lt hs hrun)
  · exact h.pushing
  · exact h.sent
  · exact fun job hunread => hunread
  · exact h.posted

theorem Owned.take (h : Owned config s) (t : Thread) (job : ℕ)
    (processQueue : ℕ → List ℕ) :
    Owned config { s with
      processQueue := processQueue
      phase := Function.update s.phase t (.holding job)
      taken := s.taken ++ [(t, job)] } := by
  apply h.of_sameRuns
  · exact ⟨rfl, rfl, rfl⟩
  · exact fun _ _ _ => rfl
  · exact fun t' j hphase => h.pushing t' j (of_update_ne hphase nofun)
  · exact h.sent
  · rintro j (⟨x, hx, hawaits⟩ | hsent)
    · rcases List.mem_append.mp hx with hx | hx
      · exact Unread.of_update (by simp [WorkerPhase.awaits?]) ⟨x, hx, hawaits⟩
      · obtain rfl := List.mem_singleton.mp hx
        simp [WorkerPhase.awaits?] at hawaits
    · exact Or.inr hsent
  · exact h.posted

/-- A thread comes to push a number for its job, which is a success only if the
judge has written its result. -/
theorem Owned.toPushing (h : Owned config s) {t : Thread} {job code : ℕ}
    (hcode : code = ExitReason.ok.code →
      Unread s job ∧ ∃ record, HasWritten s job record) :
    Owned config { s with phase := Function.update s.phase t (.pushing job code) } := by
  apply h.of_sameRuns
  · exact ⟨rfl, rfl, rfl⟩
  · exact fun _ _ _ => rfl
  · intro t' j hphase
    rcases update_cases hphase with ⟨-, hnext⟩ | hphase
    · obtain ⟨rfl, hok⟩ := WorkerPhase.pushing.inj hnext
      exact (hcode hok).2
    · exact h.pushing t' j hphase
  · exact h.sent
  · rintro j (hawaits | hsent)
    · refine Unread.of_update ?_ hawaits
      intro hnext
      rw [WorkerPhase.awaits?] at hnext
      split at hnext
      · next hok =>
          obtain rfl : job = j := Option.some.inj hnext
          exact (hcode hok).1
      · cases hnext
    · exact Or.inr hsent
  · exact h.posted

theorem Owned.push (h : Owned config s) {stage : ℕ → Stage} (hs : Accounted s stage)
    {t : Thread} {job code : ℕ} (hphase : s.phase t = .pushing job code)
    (pushes : List ℕ) :
    Owned config { s with
      sendQueue := Function.update s.sendQueue t.process
        (s.sendQueue t.process ++ [(code, job)])
      phase := Function.update s.phase t .idle
      pushes := pushes } := by
  have ht : t.process = 0 := hs.process_eq_zero (by simp [hphase])
  have hsent : ∀ j,
      ((ExitReason.ok.code, j) ∈ Function.update s.sendQueue t.process
          (s.sendQueue t.process ++ [(code, job)]) 0 ∨
        s.sender = .sending ExitReason.ok.code j) →
      Sent s j ∨ s.phase t = .pushing j ExitReason.ok.code := by
    rintro j (hmem | hsender)
    · rw [ht, Function.update_self] at hmem
      rcases List.mem_append.mp hmem with hmem | hmem
      · exact Or.inl (Or.inl hmem)
      · obtain ⟨hok, rfl⟩ := Prod.mk.inj (List.mem_singleton.mp hmem)
        exact Or.inr (by rw [hphase, hok])
    · exact Or.inl (Or.inr hsender)
  apply h.of_sameRuns
  · exact ⟨rfl, rfl, rfl⟩
  · exact fun _ _ _ => rfl
  · exact fun t' j hnext => h.pushing t' j (of_update_ne hnext nofun)
  · intro j hj
    rcases hsent j hj with hj | hpushing
    · exact h.sent j hj
    · exact h.pushing t j hpushing
  · rintro j (hawaits | hj)
    · exact Unread.of_update (by simp [WorkerPhase.awaits?]) hawaits
    · rcases hsent j hj with hj | hpushing
      · exact Or.inr hj
      · apply hs.unread (t := t)
        · rw [hpushing]
          rfl
        · rw [hpushing]
          rfl
  · exact h.posted

theorem Owned.pop (h : Owned config s) {code job : ℕ} {rest : List (ℕ × ℕ)}
    (hqueue : s.sendQueue 0 = (code, job) :: rest) :
    Owned config { s with
      sendQueue := Function.update s.sendQueue 0 rest
      sender := .sending code job } := by
  have hsent : ∀ j,
      ((ExitReason.ok.code, j) ∈ Function.update s.sendQueue 0 rest 0 ∨
        SenderPhase.sending code job = .sending ExitReason.ok.code j) → Sent s j := by
    rintro j (hmem | hsender)
    · rw [Function.update_self] at hmem
      exact Or.inl (by rw [hqueue]; exact List.mem_cons_of_mem _ hmem)
    · obtain ⟨rfl, rfl⟩ := SenderPhase.sending.inj hsender
      exact Or.inl (by rw [hqueue]; exact List.mem_cons_self)
  apply h.of_sameRuns
  · exact ⟨rfl, rfl, rfl⟩
  · exact fun _ _ _ => rfl
  · exact h.pushing
  · exact fun j hj => h.sent j (hsent j hj)
  · rintro j (hawaits | hj)
    · exact Or.inl hawaits
    · exact Or.inr (hsent j hj)
  · rintro j numbers (hsender | hmem)
    · cases hsender
    · exact h.posted j numbers (Or.inr hmem)

/-- A step of the sender that leaves no item unread and answers only with what the judges
have written. -/
theorem Owned.of_sender (h : Owned config s) {next : SenderPhase} {posted : List (ℕ × Posted)}
    (hnext : ∀ code job, next ≠ .sending code job)
    (hposted : ∀ job numbers,
      next = .reporting job (.verdict numbers) ∨ (job, .verdict numbers) ∈ posted →
        ∃ record, HasWritten s job record ∧ numbers = record.numbers.scanned) :
    Owned config { s with sender := next, posted := posted } := by
  apply h.of_sameRuns
  · exact ⟨rfl, rfl, rfl⟩
  · exact fun _ _ _ => rfl
  · exact h.pushing
  · rintro j (hmem | hsending)
    · exact h.sent j (Or.inl hmem)
    · exact (hnext _ _ hsending).elim
  · rintro j (hawaits | hmem | hsending)
    · exact Or.inl hawaits
    · exact Or.inr (Or.inl hmem)
    · exact (hnext _ _ hsending).elim
  · exact hposted

theorem Owned.read_step (h : Owned config s) {code job : ℕ}
    (hsender : s.sender = .sending code job) :
    Owned config { s with
      sender := .reporting job
        (sendWork code (s.file (readPath config (s.request job)))) } := by
  refine h.of_sender nofun ?_
  rintro j numbers (hnext | hmem)
  · obtain ⟨rfl, hresult⟩ := SenderPhase.reporting.inj hnext
    rw [sendWork] at hresult
    split at hresult
    · next hok =>
        subst hok
        obtain ⟨record, hwritten, hread⟩ := h.read (Or.inr hsender)
        rw [hread] at hresult
        exact ⟨record, hwritten, (Posted.verdict.inj hresult).symm⟩
    · cases hresult
  · exact h.posted j numbers (Or.inr hmem)

theorem Owned.post (h : Owned config s) {job : ℕ} {result : Posted}
    (hsender : s.sender = .reporting job result) :
    Owned config { s with
      sender := .idle
      posted := s.posted ++ [(job, result)] } := by
  refine h.of_sender nofun ?_
  rintro j numbers (hnext | hmem)
  · cases hnext
  · rcases List.mem_append.mp hmem with hmem | hmem
    · exact h.posted j numbers (Or.inr hmem)
    · obtain ⟨rfl, rfl⟩ := Prod.mk.inj (List.mem_singleton.mp hmem)
      exact h.posted j numbers (Or.inl hsender)

/-! ## Steps of the children -/

theorem hasWritten_fork {job j : ℕ} {start : ChildPhase} {record : Record}
    {phase : Thread → WorkerPhase} (hstart : start.output = .untouched) :
    HasWritten { s with
        childCount := s.childCount + 1
        child := Function.update s.child s.childCount ⟨job, start⟩
        phase := phase } j record ↔ HasWritten s j record := by
  constructor
  · rintro ⟨c, hrun, hwritten⟩
    dsimp only at hwritten
    by_cases hc : c = s.childCount
    · rw [hc, Function.update_self] at hwritten
      rw [hstart] at hwritten
      cases hwritten
    · rw [Function.update_of_ne hc] at hwritten
      rcases isRunOf_fork.mp hrun with hrun | ⟨hnew, -⟩
      · exact ⟨c, hrun, hwritten⟩
      · exact (hc hnew).elim
  · rintro ⟨c, hrun, hwritten⟩
    have hc : c ≠ s.childCount := Nat.ne_of_lt hrun.1
    refine ⟨c, isRunOf_fork.mpr (Or.inl hrun), ?_⟩
    simp only [Function.update_of_ne hc]
    exact hwritten

theorem Owned.fork (h : Owned config s) (hone : OneRun s) {t : Thread} {job : ℕ}
    (hphase : s.phase t = .holding job) (processQueue : List ℕ) (sendQueue : List (ℕ × ℕ)) :
    Owned config { s with
      childCount := s.childCount + 1
      child := Function.update s.child s.childCount ⟨job, .starting processQueue sendQueue⟩
      phase := Function.update s.phase t (.waiting job s.childCount) } := by
  have hstart : (ChildPhase.starting processQueue sendQueue).output = .untouched := rfl
  exact
    { ended := by
        intro c hc status output hended
        by_cases hnew : c = s.childCount
        · rw [hnew] at hended
          simp at hended
        · simp only [Function.update_of_ne hnew] at hended
          exact h.ended c (by dsimp only at hc; omega) status output hended
      long := by
        simp only [hasWritten_fork hstart]
        exact h.long
      pushing := by
        intro t' j hnext
        simp only [hasWritten_fork hstart]
        exact h.pushing t' j (of_update_ne hnext nofun)
      sent := by
        intro j hj
        simp only [hasWritten_fork hstart]
        exact h.sent j hj
      kept := by
        intro j record hwritten hunread
        rw [hasWritten_fork hstart] at hwritten
        obtain ⟨c, hrun, -⟩ := id hwritten
        apply h.kept j record hwritten
        rcases hunread with hawaits | hsent
        · refine Unread.of_update ?_ hawaits
          intro hnext
          obtain rfl : job = j := Option.some.inj hnext
          exact (hone.unforked t job hphase c hrun).elim
        · exact Or.inr hsent
      posted := by
        simp only [hasWritten_fork hstart]
        exact h.posted }

/-- What has been written is of the child that makes the step, or of another. -/
theorem hasWritten_setChild {c job : ℕ} {next : ChildPhase} {record : Record}
    {file : Bytes → ResultTxt}
    (h : HasWritten { s with child := s.setChild c next, file := file } job record) :
    IsRunOf s c job ∧ next.output = .written record ∨
      ∃ c', c' ≠ c ∧ IsRunOf s c' job ∧ (s.child c').phase.output = .written record := by
  obtain ⟨c', hrun, hwritten⟩ := h
  rw [isRunOf_setChild] at hrun
  by_cases hc : c' = c
  · subst hc
    simp only [State.setChild, Function.update_self] at hwritten
    exact Or.inl ⟨hrun, hwritten⟩
  · simp only [State.setChild, Function.update_of_ne hc] at hwritten
    exact Or.inr ⟨c', hc, hrun, hwritten⟩

/-- A child that keeps what it has written takes nothing away. -/
theorem HasWritten.setChild {c job : ℕ} {next : ChildPhase} {record : Record}
    (h : HasWritten s job record)
    (hold : ∀ record, (s.child c).phase.output = .written record →
      next.output = .written record) (file : Bytes → ResultTxt) :
    HasWritten { s with child := s.setChild c next, file := file } job record := by
  obtain ⟨c', hrun, hwritten⟩ := h
  refine ⟨c', isRunOf_setChild.mpr hrun, ?_⟩
  by_cases hc : c' = c
  · subst hc
    simp only [State.setChild, Function.update_self]
    exact hold record hwritten
  · simp only [State.setChild, Function.update_of_ne hc]
    exact hwritten

/-- A step of one child that loses no result. -/
theorem Owned.of_setChild (h : Owned config s) {c : ℕ} {next : ChildPhase}
    {file : Bytes → ResultTxt}
    (hold : ∀ record, (s.child c).phase.output = .written record →
      next.output = .written record)
    (hended : ∀ status output, next = .ended status output → output.IsWritten)
    (hlong : ∀ record, next.output = .written record → record.numbers.AreLong)
    (hself : ∀ record, next.output = .written record → Unread s (s.child c).job →
      Holds (file (readPath config (s.request (s.child c).job))) record)
    (hother : ∀ c' < s.childCount, c' ≠ c → (s.child c').phase.output.IsWritten →
      Unread s (s.child c').job →
      file (readPath config (s.request (s.child c').job)) =
        s.file (readPath config (s.request (s.child c').job))) :
    Owned config { s with child := s.setChild c next, file := file } := by
  have hpersists : ∀ job, (∃ record, HasWritten s job record) →
      ∃ record, HasWritten { s with child := s.setChild c next, file := file } job record := by
    rintro job ⟨record, hwritten⟩
    exact ⟨record, hwritten.setChild hold file⟩
  exact
    { ended := by
        intro c' hc' status output hphase
        by_cases hc : c' = c
        · subst hc
          simp only [State.setChild, Function.update_self] at hphase
          exact hended status output hphase
        · simp only [State.setChild, Function.update_of_ne hc] at hphase
          exact h.ended c' hc' status output hphase
      long := by
        intro job record hwritten
        rcases hasWritten_setChild hwritten with ⟨-, hnext⟩ | ⟨c', -, hrun, houtput⟩
        · exact hlong record hnext
        · exact h.long job record ⟨c', hrun, houtput⟩
      pushing := fun t job hphase => hpersists job (h.pushing t job hphase)
      sent := fun job hsent => hpersists job (h.sent job hsent)
      kept := by
        intro job record hwritten hunread
        rcases hasWritten_setChild hwritten with ⟨hrun, hnext⟩ | ⟨c', hc, hrun, houtput⟩
        · obtain ⟨-, rfl⟩ := hrun
          exact hself record hnext hunread
        · have hkept := h.kept job record ⟨c', hrun, houtput⟩ hunread
          obtain ⟨hlt, rfl⟩ := hrun
          have hisWritten := OutputStage.isWritten_iff.mpr ⟨record, houtput⟩
          rw [← hother c' hlt hc hisWritten hunread] at hkept
          exact hkept
      posted := by
        intro job numbers hanswers
        obtain ⟨record, hwritten, hnumbers⟩ := h.posted job numbers hanswers
        exact ⟨record, hwritten.setChild hold file, hnumbers⟩ }

/-- A judge changes the file that it writes, which no other run needs. -/
theorem Owned.of_judging (h : Owned config s) {c : ℕ} {output next : OutputStage}
    (hphase : (s.child c).phase = .judging output) (houtput : ¬output.IsWritten)
    (hspares : SparesUnread config s c) {contents : ResultTxt}
    (hself : ∀ record, next = .written record →
      record.numbers.AreLong ∧ Holds contents record ∧
        readPath config (s.request (s.child c).job) = s.childFile config c) :
    Owned config { s with
      child := s.setChild c (.judging next)
      file := Function.update s.file (s.childFile config c) contents } := by
  apply h.of_setChild
  · intro record hold
    rw [hphase] at hold
    exact (houtput (OutputStage.isWritten_iff.mpr ⟨record, hold⟩)).elim
  · intro status output hended
    cases hended
  · exact fun record hnext => (hself record hnext).1
  · intro record hnext _
    obtain ⟨-, hholds, hpath⟩ := hself record hnext
    rw [hpath, Function.update_self]
    exact hholds
  · intro c' hc' hne hwritten hunread
    rw [Function.update_of_ne (hspares c' hc' hne hwritten hunread)]

/-- The number that is pushed after `waitpid` is a success only if the judge has
written its result. -/
theorem Owned.written_of_wait (h : Owned config s) (hone : OneRun s) {t : Thread} {job c : ℕ}
    {outcome : WaitOutcome} {waited : Option WaitStatus}
    (hphase : s.phase t = .waiting job c)
    (hkeeps : KeepsUnread config s (.wait t outcome))
    (hwait : waitpid (s.child c).phase.endStatus outcome = some waited)
    (hcode : runPushes true waited = ExitReason.ok.code) :
    (s.child c).phase.output.IsWritten := by
  cases outcome with
  | failed =>
      obtain ⟨hc, rfl⟩ := hone.waiting t job c hphase
      exact hkeeps c hc hphase
  | stopped signo =>
      simp only [waitpid] at hwait
      split at hwait
      · next hstop =>
          cases hwait
          exact (pushedCode_ofStop hstop.2.1 hstop.2.2 hcode).elim
      · cases hwait
  | ended =>
      obtain ⟨status, hstatus, -⟩ := Option.map_eq_some_iff.mp hwait
      have hc := (hone.waiting t job c hphase).1
      unfold ChildPhase.endStatus at hstatus
      split at hstatus
      · next output hended =>
          rw [hended]
          exact h.ended c hc _ output hended
      · cases hstatus

/-! ## Runs -/

theorem owned_step {stage : ℕ → Stage} {e : Event} (hs : Accounted s stage)
    (hone : OneRun s) (h : Owned config s) (hends : EndsWell s e) (hkeeps : KeepsUnread config s e)
    (hstep : step config s e = some s') : Owned config s' := by
  cases steps_of_step hstep with
  | accept request => exact h.accept hs hone request _
  | @take t job => exact h.take t job _
  | fork hphase => exact h.fork hone hphase _ _
  | forkFailed =>
      apply h.toPushing
      intro hcode
      cases hcode
  | exec hc hphase =>
      apply h.of_setChild
      · intro record hold
        rw [hphase] at hold
        cases hold
      · intro status output hended
        cases hended
      · intro record hnext
        cases hnext
      · intro record hnext
        cases hnext
      · exact fun _ _ _ _ _ => rfl
  | execFailed => cases hends
  | truncate hc hphase =>
      apply h.of_judging hphase id hkeeps
      intro record hnext
      cases hnext
  | write hc hphase hlong =>
      apply h.of_judging hphase id hkeeps.1
      intro record hnext
      rw [← OutputStage.written.inj hnext]
      exact ⟨hlong, ⟨_, hkeeps.2.2, rfl⟩, hkeeps.2.1⟩
  | @finish c status hc hmay =>
      rw [endThread_of_noCopy hs.noCopy]
      apply h.of_setChild
      · exact fun _ hold => hold
      · intro status' output hended
        obtain ⟨-, rfl⟩ := ChildPhase.ended.inj hended
        exact hends.2
      · exact fun record hnext => h.long _ record ⟨c, ⟨hc, rfl⟩, hnext⟩
      · exact fun record hnext hunread => h.kept _ record ⟨c, ⟨hc, rfl⟩, hnext⟩ hunread
      · exact fun _ _ _ _ _ => rfl
  | @wait t job c outcome waited hphase hwait =>
      apply h.toPushing
      intro hcode
      have hwritten := h.written_of_wait hone hphase hkeeps hwait hcode
      obtain ⟨record, hrecord⟩ := OutputStage.isWritten_iff.mp hwritten
      refine ⟨hs.unread (t := t) ?_ ?_, record, c, hone.waiting t job c hphase, hrecord⟩
      · rw [hphase]
        rfl
      · rw [hphase]
        rfl
  | push hphase => exact h.push hs hphase _
  | pop _ hqueue => exact h.pop hqueue
  | read hsender => exact h.read_step hsender
  | post hsender => exact h.post hsender
  | postFailed =>
      refine h.of_sender nofun ?_
      rintro j numbers (hnext | hmem)
      · cases hnext
      · exact h.posted j numbers (Or.inr hmem)

/-- The steps from the taking of a job to the push of its success, by the first
worker and with the judge process `c`. -/
def judged (c : ℕ) (record : Record) : List Event :=
  [.take ⟨0, 0⟩, .fork ⟨0, 0⟩ true, .exec c true, .truncate c, .write c record,
    .finish c (.ofExit 0), .wait ⟨0, 0⟩ .ended, .push ⟨0, 0⟩]

/-- Two requests for one solution, of which the second is judged when the first has
been reported. -/
def rejudgedAfterReport : List Event :=
  [.accept (c11Request "1"), .accept (c11Request "1")] ++
    judged 0 ⟨.ac, 15, 1024, 0⟩ ++ [.pop, .read, .post true] ++
    judged 1 ⟨.wa, 31, 2048, 2⟩ ++ [.pop, .read, .post true]

/-- Two requests for one solution, of which the second is judged before the first
is reported. -/
def rejudgedBeforeReport : List Event :=
  [.accept (c11Request "1"), .accept (c11Request "1")] ++
    judged 0 ⟨.ac, 15, 1024, 0⟩ ++ judged 1 ⟨.wa, 31, 2048, 2⟩ ++ [.pop, .read, .post true]

end PowerJudge
