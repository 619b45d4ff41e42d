import Mathlib.Logic.Function.Basic
import PowerJudge.Judged.Supervise
import PowerJudge.Support.Transition

/-!
# The daemon as a machine

The state holds the queues, the worker threads, the processes that `fork` has
made and the result files; an event is one step of one of the parties.  An
accepted request is a job, named by its number, and the lists `taken`, `pushes`
and `posted` record what has happened to the jobs.

A child whose `execl` fails returns from `run` into the loop of its thread, with
the copies of both queues that `fork` has made: it goes on as a process of its
own.  Two judges may have one file open: each cuts it when it opens it, and writes
from its start.
-/

namespace PowerJudge

/-! ## Requests -/

/-- What `parse_arguments` of the daemon reads from a request. -/
structure Request where
  sid : Bytes
  cid : ℤ
  pid : Bytes
  language : Bytes
  timeLimit : Bytes
  memoryLimit : Bytes
  token : Bytes
  deriving DecidableEq, Repr

instance : Inhabited Request := ⟨⟨[], 0, [], [], [], [], []⟩⟩

/-- The settings of `judged.conf` that are used here. -/
structure Config where
  tempDir : Bytes
  dataDir : Bytes
  threadNum : ℕ

/-- The work directory that `run` chooses. -/
def workDir (config : Config) (request : Request) : Bytes :=
  if request.cid > 0 then joinPath config.tempDir (ascii "c" ++ formatInt request.cid)
  else config.tempDir

/-- The options with which `run` starts the judge. -/
def judgeOptions (config : Config) (request : Request) : List (Char × Bytes) :=
  [('s', request.sid), ('p', request.pid), ('l', request.language),
    ('t', request.timeLimit), ('m', request.memoryLimit),
    ('w', workDir config request), ('D', config.dataDir), ('c', formatInt request.cid)]

/-- `result.txt` of a work directory. -/
def resultTxt (directory : Bytes) : Bytes := joinPath directory (ascii "result.txt")

/-- The file that `update_result` opens. -/
def readPath (config : Config) (request : Request) : Bytes :=
  resultTxt (joinPath (workDir config request) request.sid)

/-- The file that the judge started for the request writes. -/
def writePath (config : Config) (request : Request) : Bytes :=
  resultTxt (joinPath (workDir config request) (formatInt (atoi request.sid)))

/-- The judge started with these options works in the directory of
`writePath`. -/
theorem workDir_of_judgeOptions {config : Config} {request : Request} {args : Arguments}
    {submission : Submission} (hoptions : args.options = judgeOptions config request)
    (hrealpath : ∀ path, args.realpath path = some path)
    (h : parseArguments args = .returned submission) :
    resultTxt submission.workDir = writePath config request := by
  rw [parseArguments, Outcome.bind_eq_returned_iff] at h
  obtain ⟨o, happly, h⟩ := h
  simp only [hoptions, judgeOptions, applyOptions, applyOption, Outcome.bind_returned,
    hrealpath] at happly
  cases happly
  split at h
  · cases h
  · rw [Outcome.bind_eq_returned_iff] at h
    obtain ⟨lang, -, h⟩ := h
    dsimp only at h
    split at h
    · cases h
    · cases h
      rfl

/-! ## The state -/

/-- A worker thread of a process; process 0 is the daemon. -/
@[ext]
structure Thread where
  process : ℕ
  worker : ℕ
  deriving DecidableEq, Repr

/-- Where a worker thread is in `ThreadWork` and `run`. -/
inductive WorkerPhase where
  | idle
  /-- Before `fork`. -/
  | holding (job : ℕ)
  /-- In `waitpid`. -/
  | waiting (job child : ℕ)
  /-- Before `SendQueue.push`. -/
  | pushing (job code : ℕ)
  /-- Its process is no more. -/
  | gone
  deriving DecidableEq, Repr

/-- The job whose `run` the thread is in. -/
def WorkerPhase.job? : WorkerPhase → Option ℕ
  | .idle => none
  | .holding job => some job
  | .waiting job _ => some job
  | .pushing job _ => some job
  | .gone => none

/-- How far a judge process has got in `output_acm_result`. -/
inductive OutputStage where
  | untouched
  /-- `result.txt` has been opened for writing, and so cut. -/
  | truncated
  | written (record : Record)
  deriving DecidableEq, Repr

/-- A process made by `fork` in `run`. -/
inductive ChildPhase where
  /-- Before `execl`, with the copies of the two queues. -/
  | starting (processQueue : List ℕ) (sendQueue : List (ℕ × ℕ))
  | judging (output : OutputStage)
  | ended (status : WaitStatus) (output : OutputStage)
  /-- After a failed `execl`: the process with this number. -/
  | copy (process : ℕ)
  deriving DecidableEq, Repr

structure Child where
  job : ℕ
  phase : ChildPhase
  deriving DecidableEq, Repr

/-- Where the thread `SendWork` is. -/
inductive SenderPhase where
  | idle
  /-- Before `update_result`. -/
  | sending (code job : ℕ)
  /-- In `send_multi_result`. -/
  | reporting (job : ℕ) (result : Posted)
  deriving DecidableEq, Repr

/-- The job of the item that `SendWork` has popped. -/
def SenderPhase.job? : SenderPhase → Option ℕ
  | .idle => none
  | .sending _ job => some job
  | .reporting job _ => some job

structure State where
  /-- The accepted requests; a job is an index of this list. -/
  requests : List Request
  processCount : ℕ
  processQueue : ℕ → List ℕ
  /-- The pairs of `SendQueue`, a number and a job. -/
  sendQueue : ℕ → List (ℕ × ℕ)
  phase : Thread → WorkerPhase
  childCount : ℕ
  child : ℕ → Child
  sender : SenderPhase
  file : Bytes → ResultTxt
  taken : List (Thread × ℕ)
  /-- The jobs pushed on the `SendQueue` of the daemon. -/
  pushes : List ℕ
  posted : List (ℕ × Posted)

/-- The daemon after its start, with any files left in the work directories. -/
def State.start (file : Bytes → ResultTxt) : State where
  requests := []
  processCount := 1
  processQueue := fun _ => []
  sendQueue := fun _ => []
  phase := fun _ => .idle
  childCount := 0
  child := fun _ => ⟨0, .judging .untouched⟩
  sender := .idle
  file := file
  taken := []
  pushes := []
  posted := []

/-- The request of a job. -/
def State.request (s : State) (job : ℕ) : Request := s.requests.getD job default

/-! ## The steps -/

/-- How a call of `waitpid` returns. -/
inductive WaitOutcome where
  | failed
  | stopped (signo : ℕ)
  | ended
  deriving DecidableEq, Repr

/-- The answer of `waitpid`, `none` when the outcome is impossible. -/
def waitpid (ended : Option WaitStatus) : WaitOutcome → Option (Option WaitStatus)
  | .failed => if ended = none then some none else none
  | .stopped signo =>
      if ended = none ∧ 0 < signo ∧ signo < 256 then some (some (.ofStop signo)) else none
  | .ended => ended.map some

/-- The machine's `waitpid` answers as one does. -/
theorem waitpid_answers {ended : Option WaitStatus} {outcome : WaitOutcome}
    {waited : Option WaitStatus} (h : waitpid ended outcome = some waited) :
    Waitpid ended waited := by
  cases outcome with
  | failed =>
      simp only [waitpid] at h
      split at h
      · next hended =>
          cases h
          rw [hended]
          exact .failed
      · cases h
  | stopped signo =>
      simp only [waitpid] at h
      split at h
      · next hended =>
          cases h
          rw [hended.1]
          exact .stopped hended.2.1 hended.2.2
      · cases h
  | ended =>
      obtain ⟨status, rfl, rfl⟩ := Option.map_eq_some_iff.mp h
      exact .ended status

def ChildPhase.endStatus : ChildPhase → Option WaitStatus
  | .ended status _ => some status
  | _ => none

def ChildPhase.output : ChildPhase → OutputStage
  | .judging output => output
  | .ended _ output => output
  | _ => .untouched

/-- One step of one party. -/
inductive Event where
  /-- `work` pushes a request that it has answered. -/
  | accept (request : Request)
  /-- A worker pops a job. -/
  | take (t : Thread)
  | fork (t : Thread) (ok : Bool)
  | exec (c : ℕ) (ok : Bool)
  /-- The judge opens `result.txt` for writing. -/
  | truncate (c : ℕ)
  /-- The judge writes its record and closes the file. -/
  | write (c : ℕ) (record : Record)
  /-- A child ends. -/
  | finish (c : ℕ) (status : WaitStatus)
  | wait (t : Thread) (outcome : WaitOutcome)
  /-- A worker pushes its job on the `SendQueue`. -/
  | push (t : Thread)
  /-- `SendWork` pops an item. -/
  | pop
  /-- `SendWork` reads the result, if the item is a success. -/
  | read
  /-- `send_multi_result` initialises curl and posts what there is to post, or fails to. -/
  | post (ok : Bool)
  deriving DecidableEq, Repr

/-- The threads there are: those of the daemon and the one thread of each
copy. -/
def Runs (config : Config) (s : State) (t : Thread) : Prop :=
  if t.process = 0 then t.worker < config.threadNum
  else t.process < s.processCount ∧ t.worker = 0

instance (config : Config) (s : State) (t : Thread) : Decidable (Runs config s t) :=
  inferInstanceAs (Decidable (if t.process = 0 then t.worker < config.threadNum
    else t.process < s.processCount ∧ t.worker = 0))

/-- Replace the phase of a child. -/
def State.setChild (s : State) (c : ℕ) (phase : ChildPhase) : ℕ → Child :=
  Function.update s.child c ⟨(s.child c).job, phase⟩

/-- The file that a child writes when it is a judge. -/
def State.childFile (config : Config) (s : State) (c : ℕ) : Bytes :=
  writePath config (s.request (s.child c).job)

/-- The ways in which a child can end. -/
def ChildPhase.MayEnd (status : WaitStatus) : ChildPhase → Prop
  | .starting _ _ => status.ifSignaled
  | .judging _ => status.ifExited ∨ status.ifSignaled
  | .ended _ _ => False
  | .copy _ => CopyEnds status

instance (status : WaitStatus) : DecidablePred (ChildPhase.MayEnd status)
  | .starting _ _ => inferInstanceAs (Decidable status.ifSignaled)
  | .judging _ => inferInstanceAs (Decidable (_ ∨ _))
  | .ended _ _ => isFalse id
  | .copy _ => inferInstanceAs (Decidable (CopyEnds status))

/-- The threads after the end of a child: a copy takes its thread with it. -/
def State.endThread (s : State) (c : ℕ) : Thread → WorkerPhase :=
  match (s.child c).phase with
  | .copy p => Function.update s.phase ⟨p, 0⟩ .gone
  | _ => s.phase

/-- The bytes of a file, none if there is no file. -/
def State.contents (s : State) (path : Bytes) : Bytes := (s.file path).getD []

/-- The state after an event, if the event is possible. -/
def step (config : Config) (s : State) : Event → Option State
  | .accept request =>
      some { s with
        requests := s.requests ++ [request]
        processQueue := Function.update s.processQueue 0
          (s.processQueue 0 ++ [s.requests.length]) }
  | .take t =>
      if Runs config s t ∧ s.phase t = .idle then
        match s.processQueue t.process with
        | [] => none
        | job :: rest =>
            some { s with
              processQueue := Function.update s.processQueue t.process rest
              phase := Function.update s.phase t (.holding job)
              taken := s.taken ++ [(t, job)] }
      else none
  | .fork t ok =>
      match s.phase t with
      | .holding job =>
          if ok then
            some { s with
              childCount := s.childCount + 1
              child := Function.update s.child s.childCount
                ⟨job, .starting (s.processQueue t.process) (s.sendQueue t.process)⟩
              phase := Function.update s.phase t (.waiting job s.childCount) }
          else
            some { s with
              phase := Function.update s.phase t (.pushing job (runPushes false none)) }
      | _ => none
  | .exec c ok =>
      if c < s.childCount then
        match (s.child c).phase with
        | .starting processQueue sendQueue =>
            if ok then some { s with child := s.setChild c (.judging .untouched) }
            else
              some { s with
                processCount := s.processCount + 1
                processQueue := Function.update s.processQueue s.processCount processQueue
                sendQueue := Function.update s.sendQueue s.processCount sendQueue
                phase := Function.update s.phase ⟨s.processCount, 0⟩
                  (.pushing (s.child c).job ExitReason.execError.code)
                child := s.setChild c (.copy s.processCount) }
        | _ => none
      else none
  | .truncate c =>
      if c < s.childCount ∧ (s.child c).phase = .judging .untouched then
        some { s with
          child := s.setChild c (.judging .truncated)
          file := Function.update s.file (s.childFile config c) (some []) }
      else none
  | .write c record =>
      if c < s.childCount ∧ (s.child c).phase = .judging .truncated ∧
          record.numbers.AreLong then
        some { s with
          child := s.setChild c (.judging (.written record))
          file := Function.update s.file (s.childFile config c)
            (some (writeFromStart (s.contents (s.childFile config c))
              (recordText record.numbers))) }
      else none
  | .finish c status =>
      if c < s.childCount ∧ (s.child c).phase.MayEnd status then
        some { s with
          child := s.setChild c (.ended status (s.child c).phase.output)
          phase := s.endThread c }
      else none
  | .wait t outcome =>
      match s.phase t with
      | .waiting job c =>
          match waitpid (s.child c).phase.endStatus outcome with
          | some waited =>
              some { s with
                phase := Function.update s.phase t (.pushing job (runPushes true waited)) }
          | none => none
      | _ => none
  | .push t =>
      match s.phase t with
      | .pushing job code =>
          some { s with
            sendQueue := Function.update s.sendQueue t.process
              (s.sendQueue t.process ++ [(code, job)])
            phase := Function.update s.phase t .idle
            pushes := if t.process = 0 then s.pushes ++ [job] else s.pushes }
      | _ => none
  | .pop =>
      match s.sender, s.sendQueue 0 with
      | .idle, (code, job) :: rest =>
          some { s with
            sendQueue := Function.update s.sendQueue 0 rest
            sender := .sending code job }
      | _, _ => none
  | .read =>
      match s.sender with
      | .sending code job =>
          some { s with
            sender := .reporting job (sendWork code (s.file (readPath config (s.request job)))) }
      | _ => none
  | .post ok =>
      match s.sender with
      | .reporting job result =>
          if ok then some { s with sender := .idle, posted := s.posted ++ [(job, result)] }
          -- `update_system_error` calls `send_multi_result` again, with `OJ_SE`.
          else some { s with sender := .reporting job .systemError }
      | _ => none

/-! ## What a step can do -/

/-- Every step of the machine, with what it requires and the state it leads to. -/
inductive Steps (config : Config) (s : State) : Event → State → Prop where
  | accept (request : Request) :
      Steps config s (.accept request) { s with
        requests := s.requests ++ [request]
        processQueue := Function.update s.processQueue 0
          (s.processQueue 0 ++ [s.requests.length]) }
  | take {t : Thread} {job : ℕ} {rest : List ℕ} (hruns : Runs config s t)
      (hidle : s.phase t = .idle) (hqueue : s.processQueue t.process = job :: rest) :
      Steps config s (.take t) { s with
        processQueue := Function.update s.processQueue t.process rest
        phase := Function.update s.phase t (.holding job)
        taken := s.taken ++ [(t, job)] }
  | fork {t : Thread} {job : ℕ} (hphase : s.phase t = .holding job) :
      Steps config s (.fork t true) { s with
        childCount := s.childCount + 1
        child := Function.update s.child s.childCount
          ⟨job, .starting (s.processQueue t.process) (s.sendQueue t.process)⟩
        phase := Function.update s.phase t (.waiting job s.childCount) }
  | forkFailed {t : Thread} {job : ℕ} (hphase : s.phase t = .holding job) :
      Steps config s (.fork t false) { s with
        phase := Function.update s.phase t (.pushing job (runPushes false none)) }
  | exec {c : ℕ} {processQueue : List ℕ} {sendQueue : List (ℕ × ℕ)}
      (hc : c < s.childCount)
      (hphase : (s.child c).phase = .starting processQueue sendQueue) :
      Steps config s (.exec c true) { s with child := s.setChild c (.judging .untouched) }
  | execFailed {c : ℕ} {processQueue : List ℕ} {sendQueue : List (ℕ × ℕ)}
      (hc : c < s.childCount)
      (hphase : (s.child c).phase = .starting processQueue sendQueue) :
      Steps config s (.exec c false) { s with
        processCount := s.processCount + 1
        processQueue := Function.update s.processQueue s.processCount processQueue
        sendQueue := Function.update s.sendQueue s.processCount sendQueue
        phase := Function.update s.phase ⟨s.processCount, 0⟩
          (.pushing (s.child c).job ExitReason.execError.code)
        child := s.setChild c (.copy s.processCount) }
  | truncate {c : ℕ} (hc : c < s.childCount)
      (hphase : (s.child c).phase = .judging .untouched) :
      Steps config s (.truncate c) { s with
        child := s.setChild c (.judging .truncated)
        file := Function.update s.file (s.childFile config c) (some []) }
  | write {c : ℕ} {record : Record} (hc : c < s.childCount)
      (hphase : (s.child c).phase = .judging .truncated) (hlong : record.numbers.AreLong) :
      Steps config s (.write c record) { s with
        child := s.setChild c (.judging (.written record))
        file := Function.update s.file (s.childFile config c)
          (some (writeFromStart (s.contents (s.childFile config c))
            (recordText record.numbers))) }
  | finish {c : ℕ} {status : WaitStatus} (hc : c < s.childCount)
      (hmay : (s.child c).phase.MayEnd status) :
      Steps config s (.finish c status) { s with
        child := s.setChild c (.ended status (s.child c).phase.output)
        phase := s.endThread c }
  | wait {t : Thread} {job c : ℕ} {outcome : WaitOutcome} {waited : Option WaitStatus}
      (hphase : s.phase t = .waiting job c)
      (hwait : waitpid (s.child c).phase.endStatus outcome = some waited) :
      Steps config s (.wait t outcome) { s with
        phase := Function.update s.phase t (.pushing job (runPushes true waited)) }
  | push {t : Thread} {job code : ℕ} (hphase : s.phase t = .pushing job code) :
      Steps config s (.push t) { s with
        sendQueue := Function.update s.sendQueue t.process
          (s.sendQueue t.process ++ [(code, job)])
        phase := Function.update s.phase t .idle
        pushes := if t.process = 0 then s.pushes ++ [job] else s.pushes }
  | pop {code job : ℕ} {rest : List (ℕ × ℕ)} (hidle : s.sender = .idle)
      (hqueue : s.sendQueue 0 = (code, job) :: rest) :
      Steps config s .pop { s with
        sendQueue := Function.update s.sendQueue 0 rest
        sender := .sending code job }
  | read {code job : ℕ} (hsender : s.sender = .sending code job) :
      Steps config s .read { s with
        sender := .reporting job (sendWork code (s.file (readPath config (s.request job)))) }
  | post {job : ℕ} {result : Posted} (hsender : s.sender = .reporting job result) :
      Steps config s (.post true) { s with
        sender := .idle
        posted := s.posted ++ [(job, result)] }
  | postFailed {job : ℕ} {result : Posted} (hsender : s.sender = .reporting job result) :
      Steps config s (.post false) { s with sender := .reporting job .systemError }

variable {config : Config} {s s' : State}

theorem steps_of_step {e : Event} (h : step config s e = some s') : Steps config s e s' := by
  cases e with
  | accept request =>
      cases h
      exact .accept request
  | take t =>
      simp only [step] at h
      split at h
      · next hruns =>
          split at h
          · cases h
          · next job rest hqueue =>
              cases h
              exact .take hruns.1 hruns.2 hqueue
      · cases h
  | fork t ok =>
      simp only [step] at h
      split at h
      · next job hphase =>
          cases ok with
          | true =>
              cases h
              exact .fork hphase
          | false =>
              cases h
              exact .forkFailed hphase
      · cases h
  | exec c ok =>
      simp only [step] at h
      split at h
      · next hc =>
          split at h
          · next processQueue sendQueue hphase =>
              cases ok with
              | true =>
                  cases h
                  exact .exec hc hphase
              | false =>
                  cases h
                  exact .execFailed hc hphase
          · cases h
      · cases h
  | truncate c =>
      simp only [step] at h
      split at h
      · next hc =>
          cases h
          exact .truncate hc.1 hc.2
      · cases h
  | write c record =>
      simp only [step] at h
      split at h
      · next hc =>
          cases h
          exact .write hc.1 hc.2.1 hc.2.2
      · cases h
  | finish c status =>
      simp only [step] at h
      split at h
      · next hc =>
          cases h
          exact .finish hc.1 hc.2
      · cases h
  | wait t outcome =>
      simp only [step] at h
      split at h
      · next job c hphase =>
          split at h
          · next waited hwait =>
              cases h
              exact .wait hphase hwait
          · cases h
      · cases h
  | push t =>
      simp only [step] at h
      split at h
      · next job code hphase =>
          cases h
          exact .push hphase
      · cases h
  | pop =>
      simp only [step] at h
      split at h
      · next code job rest hidle hqueue =>
          cases h
          exact .pop hidle hqueue
      · cases h
  | read =>
      simp only [step] at h
      split at h
      · next code job hsender =>
          cases h
          exact .read hsender
      · cases h
  | post ok =>
      simp only [step] at h
      split at h
      · next job result hsender =>
          cases ok with
          | true =>
              cases h
              exact .post hsender
          | false =>
              cases h
              exact .postFailed hsender
      · cases h

/-! ## What a run records -/

def Event.request? : Event → Option Request
  | .accept request => some request
  | _ => none

def Event.taker? : Event → Option Thread
  | .take t => some t
  | _ => none

/-- A worker of the daemon pushes its job. -/
def Event.isPush : Event → Bool
  | .push t => t.process = 0
  | _ => false

def Event.isPost : Event → Bool
  | .post ok => ok
  | _ => false

/-- The records of the state are those of the events. -/
structure Recorded (events : List Event) (s : State) : Prop where
  requests : s.requests = events.filterMap Event.request?
  takers : s.taken.map Prod.fst = events.filterMap Event.taker?
  pushes : s.pushes.length = (events.map fun e => e.isPush.toNat).sum
  posted : s.posted.length = (events.map fun e => e.isPost.toNat).sum

/-- What one event adds to the records. -/
theorem records_step {e : Event} (hstep : step config s e = some s') :
    s'.requests = s.requests ++ e.request?.toList ∧
      s'.taken.map Prod.fst = s.taken.map Prod.fst ++ e.taker?.toList ∧
      s'.pushes.length = s.pushes.length + e.isPush.toNat ∧
      s'.posted.length = s.posted.length + e.isPost.toNat := by
  cases steps_of_step hstep with
  | accept request => simp [Event.request?, Event.taker?, Event.isPush, Event.isPost]
  | take => simp [Event.request?, Event.taker?, Event.isPush, Event.isPost]
  | @push t job code _ =>
      by_cases ht : t.process = 0
      · simp [Event.request?, Event.taker?, Event.isPush, Event.isPost, ht]
      · simp [Event.request?, Event.taker?, Event.isPush, Event.isPost, ht]
  | post => simp [Event.request?, Event.taker?, Event.isPush, Event.isPost]
  | _ => simp [Event.request?, Event.taker?, Event.isPush, Event.isPost]

theorem recorded_run {file : Bytes → ResultTxt} {events : List Event}
    (hrun : Transition.runAll (step config) (.start file) events = some s) :
    Recorded events s where
  requests := Transition.runAll_records State.requests Event.request?
    (fun _ _ _ hstep => (records_step hstep).1) hrun
  takers := Transition.runAll_records (fun s : State => s.taken.map Prod.fst) Event.taker?
    (fun _ _ _ hstep => (records_step hstep).2.1) hrun
  pushes := by
    have hsum := Transition.runAll_sum (fun s : State => s.pushes.length)
      (fun e => e.isPush.toNat) (fun _ _ _ hstep => (records_step hstep).2.2.1) hrun
    rwa [State.start, List.length_nil, Nat.zero_add] at hsum
  posted := by
    have hsum := Transition.runAll_sum (fun s : State => s.posted.length)
      (fun e => e.isPost.toNat) (fun _ _ _ hstep => (records_step hstep).2.2.2) hrun
    rwa [State.start, List.length_nil, Nat.zero_add] at hsum

end PowerJudge
