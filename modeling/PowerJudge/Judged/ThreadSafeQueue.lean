import Mathlib.Algebra.BigOperators.Group.Finset.Piecewise
import Mathlib.Data.Fintype.Basic
import PowerJudge.Support.Transition

/-!
# The thread-safe queue

`push` and `GetFrontAndPop` of `ThreadSafeQueue`, step by step, for any number of
threads: a thread takes the mutex, works on the queue and the condition variable,
and releases the mutex.  A thread that waits is blocked until it is notified or
wakes up by itself, and has to take the mutex again to test the predicate.
-/

namespace PowerJudge

namespace ThreadSafeQueue

/-! ## The threads -/

/-- Where a thread is. -/
inductive Phase (α : Type*) where
  | outside
  /-- In `push`, before the mutex. -/
  | pushing (x : α)
  /-- Before `q.push(x)`. -/
  | enqueueing (x : α)
  /-- Before `data_cond.notify_one()`. -/
  | notifying
  /-- Before the mutex is released at the end of `push`. -/
  | pushed
  /-- In `GetFrontAndPop`, before the mutex. -/
  | popping
  /-- Before the predicate of `wait`. -/
  | testing
  /-- In `wait`, not notified. -/
  | blocked
  /-- In `wait`, notified, before the mutex. -/
  | notified
  /-- In `wait`, awake without a notification, before the mutex. -/
  | awake
  /-- Before `q.front()` and `q.pop()`. -/
  | taking
  /-- Before the mutex is released at the end of `GetFrontAndPop`. -/
  | popped (x : α)

namespace Phase

variable {α : Type*}

/-- The thread holds the mutex. -/
def inSection : Phase α → Bool
  | .enqueueing _ => true
  | .notifying => true
  | .pushed => true
  | .testing => true
  | .taking => true
  | .popped _ => true
  | _ => false

def isBlocked : Phase α → Bool
  | .blocked => true
  | _ => false

def isNotified : Phase α → Bool
  | .notified => true
  | _ => false

/-- The item that a call of `push` has still to put into the queue. -/
def item? : Phase α → Option α
  | .pushing x => some x
  | .enqueueing x => some x
  | _ => none

/-- The item that a call of `GetFrontAndPop` has taken. -/
def ret? : Phase α → Option α
  | .popped x => some x
  | _ => none

theorem eq_blocked {p : Phase α} (h : p.isBlocked = true) : p = .blocked := by
  cases p <;> first | rfl | cases h

/-- The thread is about to test the predicate after a notification, to take an
item, or to notify another thread. -/
def attends : Phase α → Bool
  | .notifying => true
  | .testing => true
  | .notified => true
  | .taking => true
  | _ => false

end Phase

/-- The queue and its threads. -/
structure State (τ α : Type*) where
  phase : τ → Phase α
  /-- The thread that holds the mutex. -/
  owner : Option τ
  queue : List α
  /-- `front` or `pop` was applied to an empty queue. -/
  underflow : Bool

/-- A step of a thread. -/
inductive Event (τ α : Type*) where
  /-- A call of `push`. -/
  | push (t : τ) (x : α)
  /-- A call of `GetFrontAndPop`. -/
  | getFrontAndPop (t : τ)
  | lock (t : τ)
  | enqueue (t : τ)
  /-- `notify_one`, with the thread that it wakes up. -/
  | notifyOne (t : τ) (woken : Option τ)
  /-- The predicate of `wait`. -/
  | test (t : τ)
  /-- `front` and `pop`. -/
  | dequeue (t : τ)
  | unlock (t : τ)
  /-- A wake-up without a notification. -/
  | wake (t : τ)

variable {τ α : Type*} [DecidableEq τ] [Fintype τ]

/-- An empty queue, before any call. -/
def State.start : State τ α where
  phase := fun _ => .outside
  owner := none
  queue := []
  underflow := false

/-- The state after a thread has moved to another phase. -/
def State.move (s : State τ α) (t : τ) (p : Phase α) : State τ α :=
  { s with phase := Function.update s.phase t p }

/-- The state after a step, if the step is possible. -/
def step (s : State τ α) : Event τ α → Option (State τ α)
  | .push t x =>
      match s.phase t with
      | .outside => some (s.move t (.pushing x))
      | _ => none
  | .getFrontAndPop t =>
      match s.phase t with
      | .outside => some (s.move t .popping)
      | _ => none
  | .lock t =>
      match s.owner, s.phase t with
      | none, .pushing x => some { s.move t (.enqueueing x) with owner := some t }
      | none, .popping => some { s.move t .testing with owner := some t }
      | none, .notified => some { s.move t .testing with owner := some t }
      | none, .awake => some { s.move t .testing with owner := some t }
      | _, _ => none
  | .enqueue t =>
      match s.phase t with
      | .enqueueing x =>
          some { s.move t .notifying with queue := s.queue ++ [x] }
      | _ => none
  | .notifyOne t woken =>
      match s.phase t, woken with
      | .notifying, some c =>
          if (s.phase c).isBlocked then some ((s.move t .pushed).move c .notified) else none
      | .notifying, none =>
          if ∀ c, (s.phase c).isBlocked = false then some (s.move t .pushed) else none
      | _, _ => none
  | .test t =>
      match s.phase t with
      | .testing =>
          if s.queue.isEmpty then some { s.move t .blocked with owner := none }
          else some (s.move t .taking)
      | _ => none
  | .dequeue t =>
      match s.phase t, s.queue with
      | .taking, x :: rest =>
          some { s.move t (.popped x) with queue := rest }
      | .taking, [] => some { s.move t .outside with owner := none, underflow := true }
      | _, _ => none
  | .unlock t =>
      match s.phase t with
      | .pushed => some { s.move t .outside with owner := none }
      | .popped _ => some { s.move t .outside with owner := none }
      | _ => none
  | .wake t =>
      match s.phase t with
      | .blocked => some (s.move t .awake)
      | _ => none

/-! ## The items of a run -/

/-- The items of the calls of `push` that the threads have made last. -/
def calls (call : τ → Option α) : Event τ α → τ → Option α
  | .push t x => Function.update call t (some x)
  | _ => call

/-- The items that have been pushed, in order: each by the thread that has last called
`push` with it. -/
def pushedItems : (τ → Option α) → List (Event τ α) → List α
  | _, [] => []
  | call, .enqueue t :: events => (call t).toList ++ pushedItems call events
  | call, e :: events => pushedItems (calls call e) events

/-- The items that the calls of `GetFrontAndPop` have taken, in order. -/
def poppedItems : State τ α → List (Event τ α) → List α
  | _, [] => []
  | s, e :: events =>
      match step s e, e with
      | some s', .dequeue t => (s'.phase t).ret?.toList ++ poppedItems s' events
      | some s', _ => poppedItems s' events
      | none, _ => []

/-- The threads in a phase of some kind. -/
def threads (phase : τ → Phase α) (kind : Phase α → Bool) : Finset τ :=
  Finset.univ.filter fun t => kind (phase t)

/-! ## Invariants -/

/-- Only the owner of the mutex is in a critical section. -/
def Exclusive (phase : τ → Phase α) (owner : Option τ) : Prop :=
  ∀ t, (phase t).inSection = true → owner = some t

/-- A thread that is about to take an item finds one. -/
def Stocked (phase : τ → Phase α) (queue : List α) : Prop :=
  ∀ t, phase t = .taking → queue ≠ []

/-- When a thread is blocked, as many threads attend to the queue as there are
items. -/
def Attended (phase : τ → Phase α) (queue : List α) : Prop :=
  ∀ t, (phase t).isBlocked = true → queue.length ≤ (threads phase Phase.attends).card

structure Invariant (s : State τ α) : Prop where
  noUnderflow : s.underflow = false
  exclusive : Exclusive s.phase s.owner
  stocked : Stocked s.phase s.queue
  attended : Attended s.phase s.queue

section Updates

variable {phase : τ → Phase α} {owner : Option τ} {queue : List α} {t : τ} {p : Phase α}

omit [Fintype τ] in
/-- A thread that is not in a section after its move. -/
theorem Exclusive.outside (h : Exclusive phase owner) (hp : p.inSection = false) :
    Exclusive (Function.update phase t p) owner := by
  intro u hu
  by_cases hut : u = t
  · rw [hut, Function.update_self, hp] at hu
    cases hu
  · rw [Function.update_of_ne hut] at hu
    exact h u hu

omit [Fintype τ] in
/-- A thread takes the free mutex. -/
theorem Exclusive.enter (h : Exclusive phase none) :
    Exclusive (Function.update phase t p) (some t) := by
  intro u hu
  by_cases hut : u = t
  · rw [hut]
  · rw [Function.update_of_ne hut] at hu
    cases h u hu

omit [Fintype τ] in
/-- The owner moves on in its section. -/
theorem Exclusive.stay (h : Exclusive phase owner) (ht : (phase t).inSection = true) :
    Exclusive (Function.update phase t p) owner := by
  intro u hu
  by_cases hut : u = t
  · rw [hut]
    exact h t ht
  · rw [Function.update_of_ne hut] at hu
    exact h u hu

omit [Fintype τ] in
/-- The owner releases the mutex. -/
theorem Exclusive.leave (h : Exclusive phase owner) (ht : (phase t).inSection = true)
    (hp : p.inSection = false) : Exclusive (Function.update phase t p) none := by
  intro u hu
  by_cases hut : u = t
  · rw [hut, Function.update_self, hp] at hu
    cases hu
  · rw [Function.update_of_ne hut] at hu
    have howner := (h t ht).symm.trans (h u hu)
    exact (hut (Option.some.inj howner).symm).elim

omit [Fintype τ] in
theorem Stocked.move (h : Stocked phase queue) (hp : p = .taking → queue ≠ []) :
    Stocked (Function.update phase t p) queue := by
  intro u hu
  by_cases hut : u = t
  · rw [hut, Function.update_self] at hu
    exact hp hu
  · rw [Function.update_of_ne hut] at hu
    exact h u hu

omit [Fintype τ] in
/-- While the owner moves on, no other thread is about to take an item. -/
theorem Exclusive.stocked (h : Exclusive phase owner) (ht : (phase t).inSection = true)
    (hp : p ≠ .taking) (queue : List α) : Stocked (Function.update phase t p) queue := by
  intro u hu
  by_cases hut : u = t
  · rw [hut, Function.update_self] at hu
    exact (hp hu).elim
  · rw [Function.update_of_ne hut] at hu
    have hother : (phase u).inSection = true := by
      rw [hu]
      rfl
    have howner := (h u hother).symm.trans (h t ht)
    exact (hut (Option.some.inj howner)).elim

/-- A move changes the number of threads of a kind by the thread that moves. -/
theorem card_threads_update (phase : τ → Phase α) (t : τ) (p : Phase α) (kind : Phase α → Bool) :
    (threads (Function.update phase t p) kind).card + (kind (phase t)).toNat =
      (threads phase kind).card + (kind p).toNat := by
  have hcount : ∀ phase : τ → Phase α,
      (threads phase kind).card = (kind (phase t)).toNat +
        ∑ u ∈ Finset.univ.erase t, (kind (phase u)).toNat := by
    intro phase
    rw [threads, Finset.card_filter, ← Finset.add_sum_erase _ _ (Finset.mem_univ t)]
    congr 1
    · cases kind (phase t) <;> rfl
    · refine Finset.sum_congr rfl fun u _ => ?_
      cases kind (phase u) <;> rfl
  have hothers : ∑ u ∈ Finset.univ.erase t, (kind (Function.update phase t p u)).toNat =
      ∑ u ∈ Finset.univ.erase t, (kind (phase u)).toNat := by
    refine Finset.sum_congr rfl fun u hu => ?_
    rw [Function.update_of_ne (Finset.ne_of_mem_erase hu)]
  rw [hcount, hcount phase, hothers, Function.update_self]
  omega

/-- A move that does not block keeps the queue attended, when the items do not
outgrow the threads that attend. -/
theorem Attended.move {queue' : List α} (h : Attended phase queue) (hp : p.isBlocked = false)
    (hcount : queue'.length + (phase t).attends.toNat ≤ queue.length + p.attends.toNat) :
    Attended (Function.update phase t p) queue' := by
  intro u hu
  by_cases hut : u = t
  · rw [hut, Function.update_self, hp] at hu
    cases hu
  · rw [Function.update_of_ne hut] at hu
    have hbound := h u hu
    have hcard := card_threads_update phase t p Phase.attends
    omega

/-- The notified thread attends to the queue in place of the thread that notifies
it. -/
theorem Attended.notify {c : τ} (h : Attended phase queue) (ht : phase t = .notifying)
    (hc : phase c = .blocked) :
    Attended (Function.update (Function.update phase t .pushed) c .notified) queue := by
  have hct : c ≠ t := by
    rintro rfl
    cases hc.symm.trans ht
  have hpushed := card_threads_update phase t .pushed Phase.attends
  have hnotified := card_threads_update (Function.update phase t .pushed) c .notified Phase.attends
  rw [Function.update_of_ne hct, hc] at hnotified
  rw [ht] at hpushed
  simp only [Phase.attends, Bool.toNat_true, Bool.toNat_false] at hpushed hnotified
  have hbound := h c (by rw [hc]; rfl)
  intro u _
  omega

/-- Nobody is blocked when there is nobody to notify. -/
theorem Attended.notify_none (hnone : ∀ c, (phase c).isBlocked = false)
    (hp : p.isBlocked = false) : Attended (Function.update phase t p) queue := by
  intro u hu
  by_cases hut : u = t
  · rw [hut, Function.update_self, hp] at hu
    cases hu
  · rw [Function.update_of_ne hut, hnone u] at hu
    cases hu

end Updates

/-! ## Every step keeps the invariant -/

namespace Invariant

variable {s : State τ α} {t : τ}

/-- A thread moves outside the critical sections. -/
theorem move_outside {p : Phase α} (h : Invariant s) (hsection : p.inSection = false)
    (hblocked : p.isBlocked = false) (htaking : p ≠ .taking)
    (hattends : (s.phase t).attends.toNat ≤ p.attends.toNat) : Invariant (s.move t p) where
  noUnderflow := h.noUnderflow
  exclusive := h.exclusive.outside hsection
  stocked := h.stocked.move fun heq => (htaking heq).elim
  attended := h.attended.move hblocked (Nat.add_le_add_left hattends _)

/-- A thread takes the free mutex. -/
theorem lock {p : Phase α} (h : Invariant s) (howner : s.owner = none)
    (hblocked : p.isBlocked = false) (htaking : p ≠ .taking)
    (hattends : (s.phase t).attends.toNat ≤ p.attends.toNat) :
    Invariant { s.move t p with owner := some t } where
  noUnderflow := h.noUnderflow
  exclusive := (howner ▸ h.exclusive).enter
  stocked := h.stocked.move fun heq => (htaking heq).elim
  attended := h.attended.move hblocked (Nat.add_le_add_left hattends _)

theorem unlock (h : Invariant s) (hsection : (s.phase t).inSection = true)
    (hattends : (s.phase t).attends = false) :
    Invariant { s.move t .outside with owner := none } where
  noUnderflow := h.noUnderflow
  exclusive := h.exclusive.leave hsection rfl
  stocked := h.stocked.move (by rintro ⟨⟩)
  attended := by
    apply h.attended.move
    · rfl
    · rw [hattends]
      exact Nat.le_refl _

theorem enqueue {x : α} (h : Invariant s) (ht : s.phase t = .enqueueing x) :
    Invariant { s.move t .notifying with queue := s.queue ++ [x] } where
  noUnderflow := h.noUnderflow
  exclusive := h.exclusive.stay (by rw [ht]; rfl)
  stocked := fun _ _ => List.append_ne_nil_of_right_ne_nil _ (List.cons_ne_nil x [])
  attended := by
    apply h.attended.move
    · rfl
    · rw [ht, List.length_append]
      exact Nat.le_refl _

/-- The notification goes to a blocked thread. -/
theorem notify {c : τ} (h : Invariant s) (ht : s.phase t = .notifying)
    (hc : s.phase c = .blocked) : Invariant ((s.move t .pushed).move c .notified) where
  noUnderflow := h.noUnderflow
  exclusive := (h.exclusive.stay (by rw [ht]; rfl)).outside rfl
  stocked := (h.stocked.move (by rintro ⟨⟩)).move (by rintro ⟨⟩)
  attended := h.attended.notify ht hc

/-- There is no thread to notify. -/
theorem notify_none (h : Invariant s) (ht : s.phase t = .notifying)
    (hnone : ∀ c, (s.phase c).isBlocked = false) : Invariant (s.move t .pushed) where
  noUnderflow := h.noUnderflow
  exclusive := h.exclusive.stay (by rw [ht]; rfl)
  stocked := h.stocked.move (by rintro ⟨⟩)
  attended := Attended.notify_none hnone rfl

/-- The predicate does not hold. -/
theorem block (h : Invariant s) (ht : s.phase t = .testing) (hqueue : s.queue = []) :
    Invariant { s.move t .blocked with owner := none } where
  noUnderflow := h.noUnderflow
  exclusive := h.exclusive.leave (by rw [ht]; rfl) rfl
  stocked := h.stocked.move (by rintro ⟨⟩)
  attended := by
    intro _ _
    exact hqueue ▸ Nat.zero_le _

/-- The predicate holds. -/
theorem pass (h : Invariant s) (ht : s.phase t = .testing) (hqueue : s.queue ≠ []) :
    Invariant (s.move t .taking) where
  noUnderflow := h.noUnderflow
  exclusive := h.exclusive.stay (by rw [ht]; rfl)
  stocked := h.stocked.move fun _ => hqueue
  attended := h.attended.move rfl (by rw [ht]; rfl)

theorem dequeue {x : α} {rest : List α} (h : Invariant s) (ht : s.phase t = .taking)
    (hqueue : s.queue = x :: rest) :
    Invariant { s.move t (.popped x) with queue := rest } where
  noUnderflow := h.noUnderflow
  exclusive := h.exclusive.stay (by rw [ht]; rfl)
  stocked := h.exclusive.stocked (by rw [ht]; rfl) (by rintro ⟨⟩) rest
  attended := by
    apply h.attended.move
    · rfl
    · rw [ht, hqueue]
      exact Nat.le_refl _

omit [DecidableEq τ] in
theorem start : Invariant (State.start : State τ α) where
  noUnderflow := rfl
  exclusive := fun _ h => nomatch h
  stocked := fun _ h => nomatch h
  attended := fun _ h => nomatch h

/-- Every step of every thread keeps the invariant. -/
theorem step {s' : State τ α} {e : Event τ α} (h : Invariant s)
    (hstep : ThreadSafeQueue.step s e = some s') : Invariant s' := by
  cases e with
  | push t x =>
      simp only [ThreadSafeQueue.step] at hstep
      split at hstep
      · next ht =>
          cases hstep
          exact h.move_outside rfl rfl (by rintro ⟨⟩) (by rw [ht]; rfl)
      · cases hstep
  | getFrontAndPop t =>
      simp only [ThreadSafeQueue.step] at hstep
      split at hstep
      · next ht =>
          cases hstep
          exact h.move_outside rfl rfl (by rintro ⟨⟩) (by rw [ht]; rfl)
      · cases hstep
  | lock t =>
      simp only [ThreadSafeQueue.step] at hstep
      split at hstep
      · next howner ht =>
          cases hstep
          exact h.lock howner rfl (by rintro ⟨⟩) (by rw [ht]; rfl)
      · next howner ht =>
          cases hstep
          exact h.lock howner rfl (by rintro ⟨⟩) (by rw [ht]; exact Nat.zero_le 1)
      · next howner ht =>
          cases hstep
          exact h.lock howner rfl (by rintro ⟨⟩) (by rw [ht]; rfl)
      · next howner ht =>
          cases hstep
          exact h.lock howner rfl (by rintro ⟨⟩) (by rw [ht]; exact Nat.zero_le 1)
      · cases hstep
  | enqueue t =>
      simp only [ThreadSafeQueue.step] at hstep
      split at hstep
      · next ht =>
          cases hstep
          exact h.enqueue ht
      · cases hstep
  | notifyOne t woken =>
      simp only [ThreadSafeQueue.step] at hstep
      split at hstep
      · next c ht =>
          split at hstep
          · next hc =>
              cases hstep
              exact h.notify ht (Phase.eq_blocked hc)
          · cases hstep
      · next ht =>
          split at hstep
          · next hnone =>
              cases hstep
              exact h.notify_none ht hnone
          · cases hstep
      · cases hstep
  | test t =>
      simp only [ThreadSafeQueue.step] at hstep
      split at hstep
      · next ht =>
          split at hstep
          · next hqueue =>
              cases hstep
              exact h.block ht (List.isEmpty_iff.mp hqueue)
          · next hqueue =>
              cases hstep
              exact h.pass ht fun hnil => hqueue (List.isEmpty_iff.mpr hnil)
      · cases hstep
  | dequeue t =>
      simp only [ThreadSafeQueue.step] at hstep
      split at hstep
      · next ht hqueue =>
          cases hstep
          exact h.dequeue ht hqueue
      · next ht hqueue => exact (h.stocked t ht hqueue).elim
      · cases hstep
  | unlock t =>
      simp only [ThreadSafeQueue.step] at hstep
      split at hstep
      · next ht =>
          cases hstep
          exact h.unlock (by rw [ht]; rfl) (by rw [ht]; rfl)
      · next ht =>
          cases hstep
          exact h.unlock (by rw [ht]; rfl) (by rw [ht]; rfl)
      · cases hstep
  | wake t =>
      simp only [ThreadSafeQueue.step] at hstep
      split at hstep
      · next ht =>
          cases hstep
          exact h.move_outside rfl rfl (by rintro ⟨⟩) (by rw [ht]; rfl)
      · cases hstep

theorem run {events : List (Event τ α)}
    (hrun : Transition.runAll ThreadSafeQueue.step .start events = some s) : Invariant s :=
  Transition.runAll_preserves (fun _ _ _ hs hstep => hs.step hstep) start hrun

omit [DecidableEq τ] in
/-- Outside the critical sections only the notified threads attend to the
queue. -/
theorem attending_eq_notified (h : Invariant s) (howner : s.owner = none) :
    threads s.phase Phase.attends = threads s.phase Phase.isNotified := by
  refine Finset.filter_congr fun t _ => ?_
  have hsection : ¬(s.phase t).inSection = true := by
    intro hsection
    cases howner.symm.trans (h.exclusive t hsection)
  cases hphase : s.phase t <;> rw [hphase] at hsection <;>
    first
    | exact Iff.rfl
    | exact (hsection rfl).elim

end Invariant

/-! ## Nothing is lost -/

section Order

variable {s s' : State τ α} {call : τ → Option α}

/-- The items that the threads are about to put into the queue are those of their calls. -/
def Called (call : τ → Option α) (phase : τ → Phase α) : Prop :=
  ∀ t x, (phase t).item? = some x → call t = some x

omit [Fintype τ] in
theorem Called.move {phase : τ → Phase α} {t : τ} {p : Phase α} (h : Called call phase)
    (hp : ∀ x, p.item? = some x → (phase t).item? = some x) :
    Called call (Function.update phase t p) := by
  intro u x hu
  by_cases hut : u = t
  · rw [hut, Function.update_self] at hu
    rw [hut]
    exact h t x (hp x hu)
  · rw [Function.update_of_ne hut] at hu
    exact h u x hu

omit [Fintype τ] in
/-- A call of `push` begins. -/
theorem Called.push {phase : τ → Phase α} (h : Called call phase) (t : τ) (x : α) :
    Called (Function.update call t (some x)) (Function.update phase t (.pushing x)) := by
  intro u y hu
  by_cases hut : u = t
  · rw [hut, Function.update_self] at hu ⊢
    exact hu
  · rw [Function.update_of_ne hut] at hu ⊢
    exact h u y hu

/-- The calls are followed by every step. -/
theorem Called.step {e : Event τ α} (h : Called call s.phase)
    (hstep : ThreadSafeQueue.step s e = some s') : Called (calls call e) s'.phase := by
  cases e with
  | push t x =>
      simp only [ThreadSafeQueue.step] at hstep
      split at hstep
      · cases hstep
        exact h.push t x
      · cases hstep
  | lock t =>
      simp only [ThreadSafeQueue.step] at hstep
      split at hstep
      · next ht =>
          cases hstep
          exact h.move fun x hx => by rw [ht]; exact hx
      · cases hstep
        exact h.move nofun
      · cases hstep
        exact h.move nofun
      · cases hstep
        exact h.move nofun
      · cases hstep
  | notifyOne t woken =>
      simp only [ThreadSafeQueue.step] at hstep
      split at hstep
      · next c ht =>
          split at hstep
          · cases hstep
            have hpushed : Called call (s.move t .pushed).phase := h.move nofun
            exact hpushed.move nofun
          · cases hstep
      · split at hstep
        · cases hstep
          exact h.move nofun
        · cases hstep
      · cases hstep
  | test t =>
      simp only [ThreadSafeQueue.step] at hstep
      split at hstep
      · split at hstep
        · cases hstep
          exact h.move nofun
        · cases hstep
          exact h.move nofun
      · cases hstep
  | getFrontAndPop t | enqueue t | dequeue t | unlock t | wake t =>
      simp only [ThreadSafeQueue.step] at hstep
      split at hstep
      all_goals
        cases hstep
        try exact h.move nofun

/-- Every step that is no `q.push(x)` and no `q.pop()` leaves the queue alone. -/
theorem queue_step {e : Event τ α} (hstep : ThreadSafeQueue.step s e = some s')
    (henqueue : ∀ t, e ≠ .enqueue t) (hdequeue : ∀ t, e ≠ .dequeue t) : s'.queue = s.queue := by
  cases e with
  | enqueue t => exact (henqueue t rfl).elim
  | dequeue t => exact (hdequeue t rfl).elim
  | _ =>
      simp only [ThreadSafeQueue.step] at hstep
      split at hstep
      all_goals
        try split at hstep
        all_goals
          cases hstep
          try rfl

theorem enqueue_step {t : τ} (h : Called call s.phase)
    (hstep : ThreadSafeQueue.step s (.enqueue t) = some s') :
    s'.queue = s.queue ++ (call t).toList := by
  simp only [ThreadSafeQueue.step] at hstep
  split at hstep
  · next x ht =>
      cases hstep
      rw [h t x (by rw [ht]; rfl)]
      rfl
  · cases hstep

theorem dequeue_step {t : τ} (hstep : ThreadSafeQueue.step s (.dequeue t) = some s') :
    s.queue = (s'.phase t).ret?.toList ++ s'.queue := by
  simp only [ThreadSafeQueue.step] at hstep
  split at hstep
  · next hqueue =>
      cases hstep
      simp [State.move, Phase.ret?, hqueue]
  · next hqueue =>
      cases hstep
      simp [State.move, Phase.ret?, hqueue]
  · cases hstep

/-- From any state on, what has been popped and what is left is what was there and what has
been pushed. -/
theorem order_run {events : List (Event τ α)} (h : Called call s.phase)
    (hrun : Transition.runAll ThreadSafeQueue.step s events = some s') :
    poppedItems s events ++ s'.queue = s.queue ++ pushedItems call events := by
  induction events generalizing s call with
  | nil =>
      cases hrun
      simp [poppedItems, pushedItems]
  | cons e events ih =>
      obtain ⟨u, hstep, hrest⟩ := Transition.runAll_cons_eq_some hrun
      have hlater := ih (h.step hstep) hrest
      cases e with
      | enqueue t =>
          rw [enqueue_step h hstep, List.append_assoc] at hlater
          simp only [poppedItems, hstep, pushedItems]
          exact hlater
      | dequeue t =>
          simp only [poppedItems, hstep, pushedItems]
          rw [List.append_assoc, hlater, dequeue_step hstep, List.append_assoc]
      | _ =>
          rw [queue_step hstep nofun nofun] at hlater
          simp only [poppedItems, hstep, pushedItems]
          exact hlater

end Order

/-- After every interleaving the items popped and the items left are the items pushed, in
order; nothing was ever popped from an empty queue; and whenever no thread is in a critical
section and some thread is blocked, every item has a notified thread that has not yet tested
the predicate again. -/
theorem queue_loses_nothing {events : List (Event τ α)} {s : State τ α}
    (hrun : Transition.runAll step .start events = some s) :
    poppedItems .start events ++ s.queue = pushedItems (fun _ => none) events ∧
    s.underflow = false ∧
    (s.owner = none → (∃ t, (s.phase t).isBlocked = true) →
      s.queue.length ≤ (threads s.phase Phase.isNotified).card) := by
  have hinv := Invariant.run hrun
  have hstart : Called (fun _ : τ => (none : Option α)) (State.start : State τ α).phase := by
    intro t x hx
    cases hx
  refine ⟨order_run hstart hrun, hinv.noUnderflow, ?_⟩
  rintro howner ⟨t, ht⟩
  rw [← hinv.attending_eq_notified howner]
  exact hinv.attended t ht

/-- Two consumers wait, and a producer pushes an item. -/
def wakeOne : List (Event (Fin 3) ℕ) :=
  [.getFrontAndPop 0, .lock 0, .test 0, .getFrontAndPop 1, .lock 1, .test 1,
    .push 2 7, .lock 2, .enqueue 2, .notifyOne 2 (some 1), .unlock 2]

/-- One of them stays blocked, and the item has the other one. -/
theorem queue_loses_nothing_wakeOne :
    ∃ s, Transition.runAll step .start wakeOne = some s ∧
      poppedItems .start wakeOne = [] ∧ s.queue = [7] ∧
      pushedItems (fun _ => none) wakeOne = [7] ∧
      poppedItems .start wakeOne ++ s.queue = pushedItems (fun _ => none) wakeOne ∧
      (s.phase 0).isBlocked = true ∧
      s.queue.length ≤ (threads s.phase Phase.isNotified).card := by
  have hrun : ∃ s, Transition.runAll step .start wakeOne = some s ∧ s.queue = [7] ∧
      s.owner = none ∧ (s.phase 0).isBlocked = true :=
    ⟨_, rfl, rfl, rfl, rfl⟩
  obtain ⟨s, hs, hqueue, howner, hblocked⟩ := hrun
  obtain ⟨horder, -, hbound⟩ := queue_loses_nothing hs
  exact ⟨s, hs, rfl, hqueue, rfl, horder, hblocked, hbound howner ⟨0, hblocked⟩⟩

end ThreadSafeQueue

end PowerJudge
