import PowerJudge.Judged.Authentication
import PowerJudge.Support.Transition

/-!
# A client and the daemon on one connection

The client writes its password, waits for an answer, writes its request, and waits again; the
daemon reads twice.  TCP delivers what was written in its order, in parts of any size.  The
machine has a step for each call of either side, in any order in which they can happen.
-/

namespace PowerJudge

open Transition

namespace Handshake

/-! ## The machine -/

/-- What a client sends. -/
structure Client where
  password : Bytes
  line : Bytes
  password_ne : password ≠ []
  line_ne : line ≠ []

/-- The bytes of a read; none if it has failed. -/
def bytesOf (read : Option Received) : Bytes := (read.map Subtype.val).getD []

inductive ClientPhase where
  | connected
  | awaitsAnswer
  | answered
  | awaitsReceipt
  | ended
  /-- `fatal_error`, or killed. -/
  | failed
  deriving DecidableEq, Repr

inductive DaemonPhase where
  | reading
  | checking (first : Option Received)
  | authenticated (first : Option Received)
  | parsing (first second : Option Received)
  /-- The answer is written; `accepted` is the request to be pushed. -/
  | closing (first second : Option Received) (accepted : Option Request)
  /-- The socket is closed. -/
  | pushing (first second : Option Received) (accepted : Request)
  | closed (first second : Option Received)
  deriving DecidableEq, Repr

structure State where
  client : ClientPhase
  daemon : DaemonPhase
  /-- What is under way to the daemon, and to the client. -/
  toDaemon : Bytes
  toClient : Bytes
  /-- All that the client has written and read. -/
  sent : Bytes
  heard : Bytes
  replies : List Bytes
  pushed : Option Request
  deriving DecidableEq, Repr

def State.start : State where
  client := .connected
  daemon := .reading
  toDaemon := []
  toClient := []
  sent := []
  heard := []
  replies := []
  pushed := none

inductive Event where
  | sendPassword
  | sendLine
  /-- A `read` of the client. -/
  | hear (n : ℕ)
  | hearEnd
  | fail
  /-- A `read` of the daemon. -/
  | receive (n : ℕ)
  | receiveEnd
  | receiveFails
  /-- `check_password` and the answer. -/
  | check
  /-- `parse_arguments` and the answer. -/
  | parse
  | close
  /-- `ProcessQueue.push`. -/
  | push
  deriving DecidableEq, Repr

/-- The client has closed its socket. -/
def ClientPhase.IsDone (phase : ClientPhase) : Prop := phase = .ended ∨ phase = .failed

instance (phase : ClientPhase) : Decidable phase.IsDone := inferInstanceAs (Decidable (_ ∨ _))

def DaemonPhase.IsDone : DaemonPhase → Prop
  | .closed _ _ => True
  | _ => False

/-- The daemon has closed its socket. -/
def DaemonPhase.HasClosed : DaemonPhase → Prop
  | .pushing _ _ _ => True
  | .closed _ _ => True
  | _ => False

instance : DecidablePred DaemonPhase.HasClosed
  | .pushing _ _ _ | .closed _ _ => isTrue trivial
  | .reading | .checking _ | .authenticated _ | .parsing _ _ | .closing _ _ _ => isFalse id

/-- The request that is still to be pushed. -/
def DaemonPhase.accepted? : DaemonPhase → Option Request
  | .closing _ _ accepted => accepted
  | .pushing _ _ accepted => some accepted
  | _ => none

/-- The phase after a `read` of the client that delivers something. -/
def ClientPhase.hearing : ClientPhase → Option ClientPhase
  | .awaitsAnswer => some .answered
  | .awaitsReceipt => some .ended
  | _ => none

/-- The phase after a `read` of the daemon. -/
def DaemonPhase.received (read : Option Received) : DaemonPhase → Option DaemonPhase
  | .reading => some (.checking read)
  | .authenticated first => some (.parsing first read)
  | _ => none

def takeReceived (n : ℕ) (bytes : Bytes) : Received :=
  ⟨(bytes.take n).take buffSize, List.length_take_le _ _⟩

/-- The size of the buffer of the client. -/
def clientBuffer : ℕ := 256

def step (password : Bytes) (c : Client) (s : State) : Event → Option State
  | .sendPassword =>
      if s.client = .connected then
        some { s with
          client := .awaitsAnswer
          toDaemon := s.toDaemon ++ c.password
          sent := s.sent ++ c.password }
      else none
  | .sendLine =>
      if s.client = .answered then
        some { s with
          client := .awaitsReceipt
          toDaemon := s.toDaemon ++ c.line
          sent := s.sent ++ c.line }
      else none
  | .hear n =>
      if 0 < n ∧ n ≤ clientBuffer ∧ n ≤ s.toClient.length then
        s.client.hearing.map fun phase =>
          { s with
            client := phase
            toClient := s.toClient.drop n
            heard := s.heard ++ s.toClient.take n }
      else none
  | .hearEnd =>
      if s.toClient = [] ∧ s.daemon.HasClosed then
        s.client.hearing.map fun _ => { s with client := .failed }
      else none
  | .fail => if s.client.IsDone then none else some { s with client := .failed }
  | .receive n =>
      if 0 < n ∧ n ≤ buffSize ∧ n ≤ s.toDaemon.length then
        (s.daemon.received (some (takeReceived n s.toDaemon))).map fun phase =>
          { s with daemon := phase, toDaemon := s.toDaemon.drop n }
      else none
  | .receiveEnd =>
      if s.toDaemon = [] ∧ s.client.IsDone then
        (s.daemon.received (some (takeReceived 0 []))).map fun phase =>
          { s with daemon := phase }
      else none
  | .receiveFails => (s.daemon.received none).map fun phase => { s with daemon := phase }
  | .check =>
      match s.daemon with
      | .checking first =>
          if checkPassword password (bufferString (bytesOf first)) then
            some { s with
              daemon := .authenticated first
              toClient := s.toClient ++ authenticationOk
              replies := [authenticationOk] }
          else
            some { s with
              daemon := .closing first none none
              toClient := s.toClient ++ authenticationFailed
              replies := [authenticationFailed] }
      | _ => none
  | .parse =>
      match s.daemon with
      | .parsing first second =>
          let result := work password first second
          some { s with
            daemon := .closing first second result.pushed
            toClient := s.toClient ++ (result.replies.drop 1).flatten
            replies := result.replies }
      | _ => none
  | .close =>
      match s.daemon with
      | .closing first second none => some { s with daemon := .closed first second }
      | .closing first second (some accepted) =>
          some { s with daemon := .pushing first second accepted }
      | _ => none
  | .push =>
      match s.daemon with
      | .pushing first second accepted =>
          some { s with daemon := .closed first second, pushed := some accepted }
      | _ => none

/-! ## Steps -/

variable {password : Bytes} {c : Client} {s s' : State}

theorem hearing_cases {phase next : ClientPhase} (h : phase.hearing = some next) :
    phase = .awaitsAnswer ∧ next = .answered ∨ phase = .awaitsReceipt ∧ next = .ended := by
  unfold ClientPhase.hearing at h
  split at h
  · exact Or.inl ⟨rfl, (Option.some.inj h).symm⟩
  · exact Or.inr ⟨rfl, (Option.some.inj h).symm⟩
  · cases h

theorem received_cases {phase next : DaemonPhase} {read : Option Received}
    (h : phase.received read = some next) :
    phase = .reading ∧ next = .checking read ∨
      ∃ first, phase = .authenticated first ∧ next = .parsing first read := by
  unfold DaemonPhase.received at h
  split at h
  · exact Or.inl ⟨rfl, (Option.some.inj h).symm⟩
  · next first => exact Or.inr ⟨first, rfl, (Option.some.inj h).symm⟩
  · cases h

theorem bytesOf_takeReceived {n : ℕ} (hn : n ≤ buffSize) (bytes : Bytes) :
    bytesOf (some (takeReceived n bytes)) = bytes.take n := by
  change (bytes.take n).take buffSize = bytes.take n
  rw [List.take_take, Nat.min_eq_right hn]

/-- A step in which the daemon reads: a part of what is under way, nothing at the end of the
connection, or nothing in a failure. -/
def Reads (s s' : State) : Prop :=
  ∃ read next rest, s.daemon.received read = some next ∧ bytesOf read ++ rest = s.toDaemon ∧
    s' = { s with daemon := next, toDaemon := rest }

/-- A step in which the daemon answers, closes its socket or pushes the request. -/
inductive Answers (password : Bytes) (s : State) : State → Prop where
  | accepts {first : Option Received} (hphase : s.daemon = .checking first)
      (hpassword : checkPassword password (bufferString (bytesOf first)) = true) :
      Answers password s { s with
        daemon := .authenticated first
        toClient := s.toClient ++ authenticationOk
        replies := [authenticationOk] }
  | refuses {first : Option Received} (hphase : s.daemon = .checking first)
      (hpassword : ¬checkPassword password (bufferString (bytesOf first)) = true) :
      Answers password s { s with
        daemon := .closing first none none
        toClient := s.toClient ++ authenticationFailed
        replies := [authenticationFailed] }
  | parses {first second : Option Received} (hphase : s.daemon = .parsing first second) :
      Answers password s { s with
        daemon := .closing first second (work password first second).pushed
        toClient := s.toClient ++ ((work password first second).replies.drop 1).flatten
        replies := (work password first second).replies }
  | closes {first second : Option Received} (hphase : s.daemon = .closing first second none) :
      Answers password s { s with daemon := .closed first second }
  | accepted {first second : Option Received} {accepted : Request}
      (hphase : s.daemon = .closing first second (some accepted)) :
      Answers password s { s with daemon := .pushing first second accepted }
  | pushes {first second : Option Received} {accepted : Request}
      (hphase : s.daemon = .pushing first second accepted) :
      Answers password s { s with daemon := .closed first second, pushed := some accepted }

/-- Everything that a step can do. -/
inductive Moves (password : Bytes) (c : Client) (s : State) : State → Prop where
  | sendsPassword (hphase : s.client = .connected) :
      Moves password c s { s with
        client := .awaitsAnswer
        toDaemon := s.toDaemon ++ c.password
        sent := s.sent ++ c.password }
  | sendsLine (hphase : s.client = .answered) :
      Moves password c s { s with
        client := .awaitsReceipt
        toDaemon := s.toDaemon ++ c.line
        sent := s.sent ++ c.line }
  | hears {n : ℕ} {next : ClientPhase} (hpos : 0 < n) (hn : n ≤ s.toClient.length)
      (hnext : s.client.hearing = some next) :
      Moves password c s { s with
        client := next
        toClient := s.toClient.drop n
        heard := s.heard ++ s.toClient.take n }
  | fails (hopen : ¬s.client.IsDone) : Moves password c s { s with client := .failed }
  | reads {s' : State} (hreads : Reads s s') : Moves password c s s'
  | answers {s' : State} (hanswers : Answers password s s') : Moves password c s s'

theorem not_isDone_of_hearing {phase next : ClientPhase} (h : phase.hearing = some next) :
    ¬phase.IsDone := by
  rcases hearing_cases h with ⟨rfl, -⟩ | ⟨rfl, -⟩
  · decide
  · decide

theorem step_cases {e : Event} (h : step password c s e = some s') : Moves password c s s' := by
  cases e with
  | sendPassword =>
      simp only [step] at h
      split at h
      · next hphase =>
          cases h
          exact .sendsPassword hphase
      · cases h
  | sendLine =>
      simp only [step] at h
      split at h
      · next hphase =>
          cases h
          exact .sendsLine hphase
      · cases h
  | hear n =>
      simp only [step] at h
      split at h
      · next hn =>
          obtain ⟨next, hnext, rfl⟩ := Option.map_eq_some_iff.mp h
          exact .hears hn.1 hn.2.2 hnext
      · cases h
  | hearEnd =>
      simp only [step] at h
      split at h
      · obtain ⟨next, hnext, rfl⟩ := Option.map_eq_some_iff.mp h
        exact .fails (not_isDone_of_hearing hnext)
      · cases h
  | fail =>
      simp only [step] at h
      split at h
      · cases h
      · next hopen =>
          cases h
          exact .fails hopen
  | receive n =>
      simp only [step] at h
      split at h
      · next hn =>
          obtain ⟨next, hnext, rfl⟩ := Option.map_eq_some_iff.mp h
          refine .reads ⟨_, next, _, hnext, ?_, rfl⟩
          rw [bytesOf_takeReceived hn.2.1, List.take_append_drop]
      · cases h
  | receiveEnd =>
      simp only [step] at h
      split at h
      · obtain ⟨next, hnext, rfl⟩ := Option.map_eq_some_iff.mp h
        exact .reads ⟨_, next, _, hnext, rfl, rfl⟩
      · cases h
  | receiveFails =>
      obtain ⟨next, hnext, rfl⟩ := Option.map_eq_some_iff.mp h
      exact .reads ⟨_, next, _, hnext, rfl, rfl⟩
  | check =>
      simp only [step] at h
      split at h
      · next first hphase =>
          split at h
          · next hpassword =>
              cases h
              exact .answers (.accepts hphase hpassword)
          · next hpassword =>
              cases h
              exact .answers (.refuses hphase hpassword)
      · cases h
  | parse =>
      simp only [step] at h
      split at h
      · next first second hphase =>
          cases h
          exact .answers (.parses hphase)
      · cases h
  | close =>
      simp only [step] at h
      split at h
      · next first second hphase =>
          cases h
          exact .answers (.closes hphase)
      · next first second accepted hphase =>
          cases h
          exact .answers (.accepted hphase)
      · cases h
  | push =>
      simp only [step] at h
      split at h
      · next first second accepted hphase =>
          cases h
          exact .answers (.pushes hphase)
      · cases h

/-! ## What each side has done -/

/-- What the client has written and read in a phase. -/
def ClientPhase.Has (c : Client) (sent heard : Bytes) : ClientPhase → Prop
  | .connected => sent = [] ∧ heard = []
  | .awaitsAnswer => sent = c.password ∧ heard = []
  | .answered => sent = c.password ∧ heard ≠ []
  | .awaitsReceipt | .ended => sent = c.password ++ c.line ∧ heard ≠ []
  | .failed => sent <+: c.password ++ c.line ∧ (c.password.length < sent.length → heard ≠ [])

/-- The bytes that the daemon has read. -/
def DaemonPhase.read : DaemonPhase → Bytes
  | .reading => []
  | .checking first | .authenticated first => bytesOf first
  | .parsing first second | .closing first second _ | .pushing first second _
  | .closed first second => bytesOf first ++ bytesOf second

/-- What the daemon has answered in a phase. -/
def DaemonPhase.Has (password : Bytes) (c : Client) (replies : List Bytes)
    (pushed : Option Request) : DaemonPhase → Prop
  | .reading => replies = [] ∧ pushed = none
  | .checking first => replies = [] ∧ pushed = none ∧ bytesOf first <+: c.password
  | .authenticated first | .parsing first _ =>
      replies = [authenticationOk] ∧ pushed = none ∧ bytesOf first <+: c.password ∧
        checkPassword password (bufferString (bytesOf first)) = true
  | .closing first second accepted =>
      pushed = none ∧ WorkResult.mk replies accepted = work password first second ∧
        bytesOf first <+: c.password
  | .pushing first second accepted =>
      pushed = none ∧ WorkResult.mk replies (some accepted) = work password first second ∧
        bytesOf first <+: c.password
  | .closed first second =>
      WorkResult.mk replies pushed = work password first second ∧ bytesOf first <+: c.password

/-- Nothing is lost on the way, and each side is where its reads and writes have led it. -/
structure Proper (password : Bytes) (c : Client) (s : State) : Prop where
  sent : s.daemon.read ++ s.toDaemon = s.sent
  heard : s.heard ++ s.toClient = s.replies.flatten
  client : s.client.Has c s.sent s.heard
  daemon : s.daemon.Has password c s.replies s.pushed

theorem proper_start : Proper password c .start := ⟨rfl, rfl, ⟨rfl, rfl⟩, ⟨rfl, rfl⟩⟩

theorem ClientPhase.Has.sent_prefix {sent heard : Bytes} {phase : ClientPhase}
    (h : phase.Has c sent heard) : sent <+: c.password ++ c.line := by
  cases phase with
  | connected => rw [h.1]; exact List.nil_prefix
  | awaitsAnswer => rw [h.1]; exact List.prefix_append _ _
  | answered => rw [h.1]; exact List.prefix_append _ _
  | awaitsReceipt => exact h.1 ▸ List.prefix_refl _
  | ended => exact h.1 ▸ List.prefix_refl _
  | failed => exact h.1

/-- The request is written only after an answer. -/
theorem ClientPhase.Has.sent_length_le {sent : Bytes} {phase : ClientPhase}
    (h : phase.Has c sent []) : sent.length ≤ c.password.length := by
  cases phase with
  | connected => rw [h.1]; exact Nat.zero_le _
  | awaitsAnswer => rw [h.1]
  | answered => exact (h.2 rfl).elim
  | awaitsReceipt => exact (h.2 rfl).elim
  | ended => exact (h.2 rfl).elim
  | failed => exact Nat.le_of_not_lt fun hlong => h.2 hlong rfl

theorem ClientPhase.Has.failed {sent heard : Bytes} {phase : ClientPhase}
    (h : phase.Has c sent heard) : ClientPhase.failed.Has c sent heard := by
  refine ⟨h.sent_prefix, fun hlong hnone => ?_⟩
  rw [hnone] at h
  exact Nat.not_le_of_lt hlong h.sent_length_le

/-! ## The steps -/

/-- A read of the daemon takes the next bytes.  The first one comes before the client has
written anything but its password. -/
theorem Proper.receive (h : Proper password c s) {read : Option Received} {next : DaemonPhase}
    {rest : Bytes} (hnext : s.daemon.received read = some next)
    (hread : bytesOf read ++ rest = s.toDaemon) :
    Proper password c { s with daemon := next, toDaemon := rest } where
  sent := by
    have hsent := h.sent
    rcases received_cases hnext with ⟨hphase, rfl⟩ | ⟨first, hphase, rfl⟩
    · rw [hphase, ← hread] at hsent
      exact hsent
    · rw [hphase, ← hread] at hsent
      dsimp only [DaemonPhase.read] at hsent ⊢
      rw [List.append_assoc]
      exact hsent
  heard := h.heard
  client := h.client
  daemon := by
    have hdaemon := h.daemon
    rcases received_cases hnext with ⟨hphase, rfl⟩ | ⟨first, hphase, rfl⟩
    · rw [hphase] at hdaemon
      have hsent := h.sent
      have hheard := h.heard
      have hclient := h.client
      rw [hphase] at hsent
      rw [hdaemon.1] at hheard
      rw [(List.append_eq_nil_iff.mp hheard).1] at hclient
      refine ⟨hdaemon.1, hdaemon.2, ?_⟩
      have hprefix : bytesOf read <+: s.sent := by
        rw [← hsent, ← hread]
        exact List.prefix_append _ _
      have hlength := hprefix.length_le.trans hclient.sent_length_le
      have hwhole := hprefix.trans hclient.sent_prefix
      exact List.prefix_of_prefix_length_le hwhole (List.prefix_append _ _) hlength
    · rw [hphase] at hdaemon
      exact hdaemon

theorem work_of_checkPassword {first second : Option Received}
    (h : checkPassword password (bufferString (bytesOf first)) = true) :
    ∃ rest, (work password first second).replies = authenticationOk :: rest := by
  simp only [work, bytesOf] at h ⊢
  rw [if_pos h]
  split_ifs
  · exact ⟨_, rfl⟩
  · exact ⟨_, rfl⟩
  · exact ⟨_, rfl⟩

theorem work_of_not_checkPassword {first : Option Received} (second : Option Received)
    (h : ¬checkPassword password (bufferString (bytesOf first)) = true) :
    work password first second = ⟨[authenticationFailed], none⟩ := by
  simp only [work, bytesOf] at h ⊢
  rw [if_neg h]

theorem Proper.answer (h : Proper password c s) (hanswers : Answers password s s') :
    Proper password c s' := by
  have hsent := h.sent
  have hheard := h.heard
  have hdaemon := h.daemon
  cases hanswers with
  | accepts hphase hpassword =>
      rw [hphase] at hdaemon hsent
      rw [hdaemon.1] at hheard
      refine ⟨hsent, ?_, h.client, rfl, hdaemon.2.1, hdaemon.2.2, hpassword⟩
      dsimp only
      rw [← List.append_assoc, hheard]
      rfl
  | refuses hphase hpassword =>
      rw [hphase] at hdaemon hsent
      rw [hdaemon.1] at hheard
      refine ⟨?_, ?_, h.client, hdaemon.2.1, ?_, hdaemon.2.2⟩
      · dsimp only [DaemonPhase.read, bytesOf, Option.map_none, Option.getD_none]
        rw [List.append_nil]
        exact hsent
      · dsimp only
        rw [← List.append_assoc, hheard]
        rfl
      · exact (work_of_not_checkPassword none hpassword).symm
  | @parses first second hphase =>
      rw [hphase] at hdaemon hsent
      rw [hdaemon.1] at hheard
      obtain ⟨rest, hreplies⟩ := @work_of_checkPassword password first second hdaemon.2.2.2
      refine ⟨hsent, ?_, h.client, hdaemon.2.1, rfl, hdaemon.2.2.1⟩
      dsimp only
      rw [← List.append_assoc, hheard, hreplies]
      simp
  | closes hphase =>
      rw [hphase] at hdaemon hsent
      refine ⟨hsent, hheard, h.client, ?_, hdaemon.2.2⟩
      rw [hdaemon.1]
      exact hdaemon.2.1
  | accepted hphase =>
      rw [hphase] at hdaemon hsent
      exact ⟨hsent, hheard, h.client, hdaemon⟩
  | pushes hphase =>
      rw [hphase] at hdaemon hsent
      exact ⟨hsent, hheard, h.client, hdaemon.2⟩

theorem proper_step (s : State) (e : Event) (s' : State) (h : Proper password c s)
    (hstep : step password c s e = some s') : Proper password c s' := by
  have hclient := h.client
  cases step_cases hstep with
  | sendsPassword hphase =>
      rw [hphase] at hclient
      refine ⟨?_, h.heard, ⟨?_, hclient.2⟩, h.daemon⟩
      · rw [← List.append_assoc, h.sent]
      · rw [hclient.1, List.nil_append]
  | sendsLine hphase =>
      rw [hphase] at hclient
      refine ⟨?_, h.heard, ⟨?_, hclient.2⟩, h.daemon⟩
      · rw [← List.append_assoc, h.sent]
      · rw [hclient.1]
  | @hears n next hpos hn hnext =>
      refine ⟨h.sent, ?_, ?_, h.daemon⟩
      · rw [List.append_assoc, List.take_append_drop, h.heard]
      · have hne : s.heard ++ s.toClient.take n ≠ [] := by
          rw [← List.length_pos_iff, List.length_append, List.length_take_of_le hn]
          omega
        rcases hearing_cases hnext with ⟨hphase, rfl⟩ | ⟨hphase, rfl⟩
        · rw [hphase] at hclient
          exact ⟨hclient.1, hne⟩
        · rw [hphase] at hclient
          exact ⟨hclient.1, hne⟩
  | fails => exact ⟨h.sent, h.heard, hclient.failed, h.daemon⟩
  | reads hreads =>
      obtain ⟨read, next, rest, hnext, hread, rfl⟩ := hreads
      exact h.receive hnext hread
  | answers hanswers => exact h.answer hanswers

/-! ## Every run ends -/

def ClientPhase.weight : ClientPhase → ℕ
  | .connected => 4
  | .awaitsAnswer => 3
  | .answered => 2
  | .awaitsReceipt => 1
  | .ended | .failed => 0

def DaemonPhase.weight : DaemonPhase → ℕ
  | .reading => 6
  | .checking _ => 5
  | .authenticated _ => 4
  | .parsing _ _ => 3
  | .closing _ _ _ => 2
  | .pushing _ _ _ => 1
  | .closed _ _ => 0

/-- The calls that are left. -/
def State.remaining (s : State) : ℕ := s.client.weight + s.daemon.weight

theorem remaining_step {e : Event} (hstep : step password c s e = some s') :
    s'.remaining + 1 ≤ s.remaining := by
  unfold State.remaining
  cases step_cases hstep with
  | sendsPassword hphase =>
      simp only [hphase, ClientPhase.weight]
      omega
  | sendsLine hphase =>
      simp only [hphase, ClientPhase.weight]
      omega
  | hears hpos hn hnext =>
      rcases hearing_cases hnext with ⟨hphase, rfl⟩ | ⟨hphase, rfl⟩
      · simp only [hphase, ClientPhase.weight]
        omega
      · simp only [hphase, ClientPhase.weight]
        omega
  | fails hopen =>
      have hpos : 0 < s.client.weight := by
        cases hphase : s.client with
        | ended => exact (hopen (Or.inl hphase)).elim
        | failed => exact (hopen (Or.inr hphase)).elim
        | _ => decide
      change 0 + s.daemon.weight + 1 ≤ s.client.weight + s.daemon.weight
      omega
  | reads hreads =>
      obtain ⟨read, next, rest, hnext, -, rfl⟩ := hreads
      rcases received_cases hnext with ⟨hphase, rfl⟩ | ⟨first, hphase, rfl⟩
      · simp only [hphase, DaemonPhase.weight]
        omega
      · simp only [hphase, DaemonPhase.weight]
        omega
  | answers hanswers =>
      cases hanswers with
      | accepts hphase | refuses hphase | parses hphase | closes hphase | accepted hphase
      | pushes hphase =>
          simp only [hphase, DaemonPhase.weight]
          omega

/-! ## No run gets stuck -/

/-- A call that goes on without a failure. -/
def CanGoOn (password : Bytes) (c : Client) (s : State) : Prop :=
  ∃ e, e ≠ .fail ∧ e ≠ .receiveFails ∧ (step password c s e).isSome = true

theorem canGoOn_receive (hne : s.toDaemon ≠ [])
    (hnext : ∀ read, ∃ next, s.daemon.received read = some next) : CanGoOn password c s := by
  have hlength := List.length_pos_iff.mpr hne
  obtain ⟨next, hphase⟩ := hnext (some (takeReceived 1 s.toDaemon))
  refine ⟨.receive 1, by simp, by simp, ?_⟩
  rw [step, if_pos ⟨Nat.one_pos, by decide, hlength⟩, hphase, Option.map_some, Option.isSome_some]

theorem canGoOn_receiveEnd (hend : s.toDaemon = []) (hdone : s.client.IsDone)
    (hnext : ∀ read, ∃ next, s.daemon.received read = some next) : CanGoOn password c s := by
  obtain ⟨next, hphase⟩ := hnext (some (takeReceived 0 []))
  refine ⟨.receiveEnd, by simp, by simp, ?_⟩
  rw [step, if_pos ⟨hend, hdone⟩, hphase, Option.map_some, Option.isSome_some]

theorem canGoOn_sendPassword (h : s.client = .connected) : CanGoOn password c s := by
  refine ⟨.sendPassword, by simp, by simp, ?_⟩
  rw [step, if_pos h, Option.isSome_some]

theorem canGoOn_sendLine (h : s.client = .answered) : CanGoOn password c s := by
  refine ⟨.sendLine, by simp, by simp, ?_⟩
  rw [step, if_pos h, Option.isSome_some]

theorem canGoOn_hear {next : ClientPhase} (hne : s.toClient ≠ [])
    (hnext : s.client.hearing = some next) : CanGoOn password c s := by
  have hlength := List.length_pos_iff.mpr hne
  refine ⟨.hear 1, by simp, by simp, ?_⟩
  rw [step, if_pos ⟨Nat.one_pos, by decide, hlength⟩, hnext, Option.map_some, Option.isSome_some]

/-- A client that waits for a daemon which has closed hears what is left, or the end. -/
theorem canGoOn_listen {next : ClientPhase} (hdone : s.daemon.HasClosed)
    (hnext : s.client.hearing = some next) : CanGoOn password c s := by
  by_cases hne : s.toClient = []
  · refine ⟨.hearEnd, by simp, by simp, ?_⟩
    rw [step, if_pos ⟨hne, hdone⟩, hnext, Option.map_some, Option.isSome_some]
  · exact canGoOn_hear hne hnext

theorem Proper.canGoOn (h : Proper password c s) (hopen : ¬(s.client.IsDone ∧ s.daemon.IsDone)) :
    CanGoOn password c s := by
  have hclient := h.client
  have hdaemon := h.daemon
  have hsent := h.sent
  have hheard := h.heard
  cases hphase : s.daemon with
  | checking first =>
      by_cases hpassword : checkPassword password (bufferString (bytesOf first)) = true
      · refine ⟨.check, by simp, by simp, ?_⟩
        simp only [step, hphase]
        rw [if_pos hpassword, Option.isSome_some]
      · refine ⟨.check, by simp, by simp, ?_⟩
        simp only [step, hphase]
        rw [if_neg hpassword, Option.isSome_some]
  | parsing first second =>
      refine ⟨.parse, by simp, by simp, ?_⟩
      simp only [step, hphase, Option.isSome_some]
  | closing first second accepted =>
      refine ⟨.close, by simp, by simp, ?_⟩
      cases accepted with
      | none => simp only [step, hphase, Option.isSome_some]
      | some accepted => simp only [step, hphase, Option.isSome_some]
  | pushing first second accepted =>
      refine ⟨.push, by simp, by simp, ?_⟩
      simp only [step, hphase, Option.isSome_some]
  | reading =>
      have hnext : ∀ read, ∃ next, s.daemon.received read = some next :=
        fun read => ⟨.checking read, by rw [hphase]; rfl⟩
      by_cases hne : s.toDaemon = []
      · rw [hphase, hne] at hsent
        rw [hphase] at hdaemon
        rw [hdaemon.1] at hheard
        rw [← hsent, (List.append_eq_nil_iff.mp hheard).1] at hclient
        cases hwhere : s.client with
        | connected => exact canGoOn_sendPassword hwhere
        | awaitsAnswer =>
            rw [hwhere] at hclient
            exact (c.password_ne hclient.1.symm).elim
        | answered =>
            rw [hwhere] at hclient
            exact (hclient.2 rfl).elim
        | awaitsReceipt =>
            rw [hwhere] at hclient
            exact (hclient.2 rfl).elim
        | ended => exact canGoOn_receiveEnd hne (Or.inl hwhere) hnext
        | failed => exact canGoOn_receiveEnd hne (Or.inr hwhere) hnext
      · exact canGoOn_receive hne hnext
  | authenticated first =>
      have hnext : ∀ read, ∃ next, s.daemon.received read = some next :=
        fun read => ⟨.parsing first read, by rw [hphase]; rfl⟩
      by_cases hne : s.toDaemon = []
      · rw [hphase, hne] at hsent
        rw [hphase] at hdaemon
        rw [hdaemon.1] at hheard
        cases hwhere : s.client with
        | connected => exact canGoOn_sendPassword hwhere
        | awaitsAnswer =>
            rw [hwhere] at hclient
            rw [hclient.2, List.nil_append] at hheard
            refine canGoOn_hear ?_ (congrArg ClientPhase.hearing hwhere)
            rw [hheard]
            decide
        | answered => exact canGoOn_sendLine hwhere
        | awaitsReceipt =>
            -- the request has been written, and the first read has left some of it
            rw [hwhere] at hclient
            have hlength := hdaemon.2.2.1.length_le
            have hline := List.length_pos_iff.mpr c.line_ne
            have hall := congrArg List.length (hsent.trans hclient.1)
            simp only [DaemonPhase.read, List.append_nil, List.length_append] at hall
            omega
        | ended => exact canGoOn_receiveEnd hne (Or.inl hwhere) hnext
        | failed => exact canGoOn_receiveEnd hne (Or.inr hwhere) hnext
      · exact canGoOn_receive hne hnext
  | closed first second =>
      have hdone : s.daemon.IsDone := by rw [hphase]; trivial
      have hclosed : s.daemon.HasClosed := by rw [hphase]; trivial
      cases hwhere : s.client with
      | connected => exact canGoOn_sendPassword hwhere
      | awaitsAnswer => exact canGoOn_listen hclosed (congrArg ClientPhase.hearing hwhere)
      | answered => exact canGoOn_sendLine hwhere
      | awaitsReceipt => exact canGoOn_listen hclosed (congrArg ClientPhase.hearing hwhere)
      | ended => exact (hopen ⟨Or.inl hwhere, hdone⟩).elim
      | failed => exact (hopen ⟨Or.inr hwhere, hdone⟩).elim

/-! ## What a run has shown the client -/

/-- The replies to a request that is not pushed. -/
theorem work_replies_of_none {first second : Option Received}
    (h : (work password first second).pushed = none) :
    (work password first second).replies ∈
      [[authenticationFailed], [authenticationOk], [authenticationOk, missingParameters]] := by
  simp only [work] at h ⊢
  split at h
  · next hpassword =>
      rw [if_pos hpassword]
      split at h
      · next hempty =>
          rw [if_pos hempty]
          simp
      · next hsome =>
          rw [if_neg hsome]
          split at h
          · next hfew =>
              rw [if_pos hfew]
              simp
          · cases h
  · next hpassword =>
      rw [if_neg hpassword]
      simp

/-- A request that is pushed was read after the password. -/
theorem work_of_pushed {first second : Option Received} {r : Request}
    (h : (work password first second).pushed = some r) :
    bufferString (bytesOf first) = password ∧ bytesOf second ≠ [] ∧
      r = readSolution (Judged.parseArguments (bufferString (bytesOf second)) zeroSolution).2 := by
  simp only [work] at h
  split at h
  · next hpassword =>
      split at h
      · cases h
      · next hsome =>
          split at h
          · cases h
          · exact ⟨checkPassword_iff.mp hpassword,
              fun hempty => hsome (congrArg List.length hempty), (Option.some.inj h).symm⟩
  · cases h

/-- What the daemon has pushed or still has to push. -/
def State.accepted? (s : State) : Option Request := s.pushed.or s.daemon.accepted?

/-- The client is told of the acceptance only of a request that is pushed, or about to be. -/
theorem Proper.accepted_of_heard (h : Proper password c s)
    (htold : authenticationOk ++ requestReceived <+: s.heard) : s.accepted? ≠ none := by
  have hheard : authenticationOk ++ requestReceived <+: s.replies.flatten := by
    rw [← h.heard]
    exact htold.trans (List.prefix_append _ _)
  have hdaemon := h.daemon
  intro hnone
  obtain ⟨hpushed, haccepted⟩ := Option.or_eq_none_iff.mp hnone
  have hreplies : s.replies ∈ [[], [authenticationFailed], [authenticationOk],
      [authenticationOk, missingParameters]] := by
    have hdone : ∀ {first second accepted}, accepted = none →
        WorkResult.mk s.replies accepted = work password first second →
        s.replies ∈ [[authenticationFailed], [authenticationOk],
          [authenticationOk, missingParameters]] := by
      intro first second accepted hnone hwork
      have hpushed : (work password first second).pushed = none := by rw [← hwork, hnone]
      have hmem := work_replies_of_none hpushed
      rwa [← hwork] at hmem
    cases hphase : s.daemon with
    | reading =>
        rw [hphase] at hdaemon
        rw [hdaemon.1]
        exact List.mem_cons_self
    | checking first =>
        rw [hphase] at hdaemon
        rw [hdaemon.1]
        exact List.mem_cons_self
    | authenticated first =>
        rw [hphase] at hdaemon
        rw [hdaemon.1]
        exact List.mem_cons_of_mem _ (List.mem_cons_of_mem _ List.mem_cons_self)
    | parsing first second =>
        rw [hphase] at hdaemon
        rw [hdaemon.1]
        exact List.mem_cons_of_mem _ (List.mem_cons_of_mem _ List.mem_cons_self)
    | closing first second accepted =>
        rw [hphase] at hdaemon haccepted
        exact List.mem_cons_of_mem _ (hdone haccepted hdaemon.2.1)
    | pushing first second accepted =>
        rw [hphase] at haccepted
        cases haccepted
    | closed first second =>
        rw [hphase] at hdaemon
        exact List.mem_cons_of_mem _ (hdone hpushed hdaemon.1)
  have hnever : ∀ replies ∈ [[], [authenticationFailed], [authenticationOk],
      [authenticationOk, missingParameters]],
      ¬(authenticationOk ++ requestReceived <+: replies.flatten) := by decide
  exact hnever _ hreplies hheard

/-- What is accepted is what `work` pushes. -/
theorem Proper.work_of_accepted (h : Proper password c s) {r : Request}
    (haccepted : s.accepted? = some r) :
    ∃ first second, s.daemon.read = bytesOf first ++ bytesOf second ∧
      WorkResult.mk s.replies (some r) = work password first second ∧
      bytesOf first <+: c.password := by
  have hdaemon := h.daemon
  rw [State.accepted?] at haccepted
  cases hphase : s.daemon with
  | closing first second accepted =>
      rw [hphase] at hdaemon haccepted
      obtain rfl : accepted = some r := by
        rw [hdaemon.1, Option.none_or] at haccepted
        exact haccepted
      exact ⟨first, second, rfl, hdaemon.2⟩
  | pushing first second accepted =>
      rw [hphase] at hdaemon haccepted
      obtain rfl : accepted = r := by
        rw [hdaemon.1, Option.none_or] at haccepted
        exact Option.some.inj haccepted
      exact ⟨first, second, rfl, hdaemon.2⟩
  | closed first second =>
      rw [hphase] at hdaemon haccepted
      have hpushed : s.pushed = some r := by
        rw [← haccepted]
        exact Option.or_none.symm
      rw [hpushed] at hdaemon
      exact ⟨first, second, rfl, hdaemon⟩
  | reading =>
      rw [hphase] at hdaemon haccepted
      rw [hdaemon.2] at haccepted
      cases haccepted
  | checking first =>
      rw [hphase] at hdaemon haccepted
      rw [hdaemon.2.1] at haccepted
      cases haccepted
  | authenticated first =>
      rw [hphase] at hdaemon haccepted
      rw [hdaemon.2.1] at haccepted
      cases haccepted
  | parsing first second =>
      rw [hphase] at hdaemon haccepted
      rw [hdaemon.2.1] at haccepted
      cases haccepted

/-- A client with the right password has at most cut off the end of its request. -/
theorem Proper.accepted_part (h : Proper password c s) (hpassword : c.password = password)
    {r : Request} (haccepted : s.accepted? = some r) :
    ∃ part, part <+: c.line ∧ part ≠ [] ∧
      r = readSolution (Judged.parseArguments (bufferString part) zeroSolution).2 := by
  obtain ⟨first, second, hread, hwork, hfirst⟩ := h.work_of_accepted haccepted
  have hpushed : (work password first second).pushed = some r := by rw [← hwork]
  obtain ⟨hstring, hne, hr⟩ := work_of_pushed hpushed
  have hshort : password <+: bytesOf first := hstring ▸ List.takeWhile_prefix _
  rw [hpassword] at hfirst
  have hwhole : bytesOf first = password :=
    hfirst.eq_of_length (Nat.le_antisymm hfirst.length_le hshort.length_le)
  have hsent : s.daemon.read <+: c.password ++ c.line := by
    refine List.IsPrefix.trans ?_ h.client.sent_prefix
    rw [← h.sent]
    exact List.prefix_append _ _
  rw [hread, hpassword, hwhole] at hsent
  exact ⟨bytesOf second, (List.prefix_append_right_inj password).mp hsent, hne, hr⟩

/-- However the calls of the two sides are interleaved and TCP cuts what they write: the
connection ends after at most ten calls and is never stuck before; the daemon does what
`work` does on a first read from the password and a second one of what follows; the client
reads the replies in order, and is told of the acceptance only of a request that is pushed, or
will be as soon as the daemon has closed its socket; and with the right password only a part
of the request itself can be accepted. -/
theorem connection_safe {events : List Event}
    (hrun : runAll (step password c) .start events = some s) :
    events.length ≤ 10 ∧
    (¬(s.client.IsDone ∧ s.daemon.IsDone) → CanGoOn password c s) ∧
    s.heard <+: s.replies.flatten ∧
    (∀ first second, s.daemon = .closed first second →
      WorkResult.mk s.replies s.pushed = work password first second ∧
        bytesOf first <+: c.password ∧
        bytesOf first ++ bytesOf second <+: c.password ++ c.line) ∧
    (authenticationOk ++ requestReceived <+: s.heard →
      s.accepted? ≠ none ∧ (s.daemon.IsDone → s.pushed ≠ none)) ∧
    (c.password = password → ∀ r, s.accepted? = some r → ∃ part, part <+: c.line ∧ part ≠ [] ∧
      r = readSolution (Judged.parseArguments (bufferString part) zeroSolution).2) := by
  have hproper : Proper password c s := runAll_preserves proper_step proper_start hrun
  refine ⟨?_, hproper.canGoOn, ?_, ?_, ?_, ?_⟩
  · have hlength := runAll_length_le State.remaining (fun _ _ _ => remaining_step) hrun
    have hstart : State.start.remaining = 10 := rfl
    omega
  · rw [← hproper.heard]
    exact List.prefix_append _ _
  · intro first second hphase
    have hdaemon := hproper.daemon
    rw [hphase] at hdaemon
    refine ⟨hdaemon.1, hdaemon.2, ?_⟩
    refine List.IsPrefix.trans ?_ hproper.client.sent_prefix
    rw [← hproper.sent, hphase]
    exact List.prefix_append _ _
  · intro htold
    have haccepted := hproper.accepted_of_heard htold
    refine ⟨haccepted, ?_⟩
    intro hdone
    cases hphase : s.daemon with
    | closed first second =>
        have hnone : (DaemonPhase.closed first second).accepted? = none := rfl
        rw [State.accepted?, hphase, hnone, Option.or_none] at haccepted
        exact haccepted
    | _ => simp [hphase, DaemonPhase.IsDone] at hdone
  · exact fun hpassword r => hproper.accepted_part hpassword

/-- The client that is told of the acceptance, although half of its token is not read. -/
def toldClient : Client := ⟨clientPassword.1, clientRequest.line, by decide, by decide⟩

def toldEvents : List Event :=
  [.sendPassword, .receive 6, .check, .hear 18, .sendLine, .receive 30, .parse, .hear 19, .close,
    .push]

def toldState : State where
  client := .ended
  daemon := .closed (some (takeReceived 6 clientPassword.1))
    (some (takeReceived 30 clientRequest.line))
  toDaemon := ascii "456"
  toClient := []
  sent := clientPassword.1 ++ clientRequest.line
  heard := authenticationOk ++ requestReceived
  replies := [authenticationOk, requestReceived]
  pushed := some { clientRequest with token := ascii "123" }

theorem connection_safe_cut : toldState.pushed ≠ none ∧
    ∃ part, part <+: clientRequest.line ∧ part ≠ [] ∧
      { clientRequest with token := ascii "123" } =
        readSolution (Judged.parseArguments (bufferString part) zeroSolution).2 := by
  have hrun : runAll (step clientPassword.1 toldClient) .start toldEvents = some toldState := by
    decide +kernel
  obtain ⟨-, -, -, -, htold, hpart⟩ := connection_safe hrun
  exact ⟨(htold (List.prefix_refl _)).2 trivial, hpart rfl _ rfl⟩

end Handshake

end PowerJudge
