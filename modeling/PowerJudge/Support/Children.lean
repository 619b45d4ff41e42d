import Mathlib.Data.Nat.Notation
import Mathlib.Logic.Function.Basic

/-!
# The children of a process

A process forks children, waits for them and kills them.  The table says what has become of
each child, from the calls made about it: a child that is alive is neither waited for to its
end nor killed, and the name of one that is gone may be in use by another process.  A process
that leaves while it tells of a child leaves it as it is.
-/

namespace PowerJudge

namespace Children

variable {κ : Type*}

/-- What a call does to a child. -/
inductive Act where
  | fork
  /-- A wait that returns the end of the child. -/
  | reap
  | kill
  /-- A message about the child. -/
  | tell
  /-- A call that leaves the child as it is. -/
  | look
  deriving DecidableEq, Repr

inductive Status where
  | absent
  | alive
  /-- Killed, and not waited for. -/
  | doomed
  | gone
  deriving DecidableEq, Repr

def Status.after : Status → Act → Status
  | _, .fork => .alive
  | _, .reap => .gone
  | .gone, .kill => .gone
  | _, .kill => .doomed
  | s, .tell => s
  | s, .look => s

theorem Status.after_kill_ne_alive (s : Status) : s.after .kill ≠ .alive := by
  cases s <;> simp [Status.after]

/-- What has become of each child. -/
abbrev Table (κ : Type*) := κ → Status

/-- No child has been forked. -/
def Table.start : Table κ := fun _ => .absent

/-- No child is alive. -/
def Table.Quiet (t : Table κ) : Prop := ∀ k, t k ≠ .alive

/-- No other child than this one is alive. -/
def Table.Serves (t : Table κ) (k : κ) : Prop := ∀ l, t l = .alive → l = k

def Table.AtMostOne (t : Table κ) : Prop := ∀ k l, t k = .alive → t l = .alive → k = l

variable {t : Table κ} {k : κ}

theorem Table.quiet_start : (Table.start : Table κ).Quiet := fun _ h => by cases h

theorem Table.Quiet.serves (h : t.Quiet) (k : κ) : t.Serves k :=
  fun l halive => (h l halive).elim

theorem Table.Serves.atMostOne (h : t.Serves k) : t.AtMostOne :=
  fun l l' hl hl' => (h l hl).trans (h l' hl').symm

theorem Table.Serves.quiet (h : t.Serves k) (hk : t k ≠ .alive) : t.Quiet :=
  fun l halive => hk (h l halive ▸ halive)

variable [DecidableEq κ]

/-- The table after a call. -/
def Table.step (t : Table κ) (call : κ × Act) : Table κ :=
  Function.update t call.1 ((t call.1).after call.2)

def Table.replay (t : Table κ) (calls : List (κ × Act)) : Table κ := calls.foldl Table.step t

/-- There is never more than one child alive. -/
def Sequential (t : Table κ) (calls : List (κ × Act)) : Prop :=
  ∀ before, before <+: calls → (t.replay before).AtMostOne

/-- Some call is made about a child in such a state. -/
def Somewhere (P : Status → Act → Prop) (t : Table κ) (calls : List (κ × Act)) : Prop :=
  ∃ before k act after, calls = before ++ (k, act) :: after ∧ P (t.replay before k) act

/-- A child that is gone is killed. -/
def Stray : Table κ → List (κ × Act) → Prop :=
  Somewhere fun status act => act = .kill ∧ status = .gone

/-- There is a message about a child that is alive: a process that leaves there leaves the
child alive. -/
def Abandons : Table κ → List (κ × Act) → Prop :=
  Somewhere fun status act => act = .tell ∧ status = .alive

variable {calls more : List (κ × Act)}

/-! ## The table -/

@[simp] theorem Table.step_self (t : Table κ) (k : κ) (act : Act) :
    t.step (k, act) k = (t k).after act := Function.update_self k _ t

theorem Table.step_of_ne (t : Table κ) {k l : κ} (h : l ≠ k) (act : Act) :
    t.step (k, act) l = t l := Function.update_of_ne h _ t

@[simp] theorem Table.step_look (t : Table κ) (k : κ) : t.step (k, .look) = t := by
  have hstays : (t k).after .look = t k := by cases t k <;> rfl
  rw [Table.step, hstays, Function.update_eq_self]

@[simp] theorem Table.step_tell (t : Table κ) (k : κ) : t.step (k, .tell) = t := by
  have hstays : (t k).after .tell = t k := by cases t k <;> rfl
  rw [Table.step, hstays, Function.update_eq_self]

/-- A call about a child leaves it the only one that can be alive. -/
theorem Table.Serves.step (h : t.Serves k) (act : Act) : (t.step (k, act)).Serves k := by
  intro l halive
  by_cases hl : l = k
  · exact hl
  · rw [Table.step_of_ne t hl] at halive
    exact h l halive

@[simp] theorem Table.replay_nil (t : Table κ) : t.replay [] = t := rfl

@[simp] theorem Table.replay_cons (t : Table κ) (call : κ × Act) (calls : List (κ × Act)) :
    t.replay (call :: calls) = (t.step call).replay calls := rfl

theorem Table.replay_append (t : Table κ) (calls more : List (κ × Act)) :
    t.replay (calls ++ more) = (t.replay calls).replay more := List.foldl_append

/-! ## One child after the other -/

theorem sequential_nil (h : t.AtMostOne) : Sequential t [] := by
  intro before hbefore
  rw [List.prefix_nil.mp hbefore]
  exact h

theorem sequential_cons {call : κ × Act} (h : t.AtMostOne)
    (hrest : Sequential (t.step call) calls) : Sequential t (call :: calls) := by
  intro before hbefore
  rcases List.prefix_cons_iff.mp hbefore with rfl | ⟨before', rfl, hpart⟩
  · exact h
  · exact hrest before' hpart

/-- Calls about one child, while no other is alive. -/
theorem sequential_of_serves (h : t.Serves k) (hcalls : ∀ call ∈ calls, call.1 = k) :
    Sequential t calls ∧ (t.replay calls).Serves k := by
  induction calls generalizing t with
  | nil => exact ⟨sequential_nil h.atMostOne, h⟩
  | cons call calls ih =>
      obtain ⟨l, act⟩ := call
      obtain rfl : l = k := hcalls _ List.mem_cons_self
      obtain ⟨hrest, hserves⟩ :=
        ih (h.step act) fun call hcall => hcalls call (List.mem_cons_of_mem _ hcall)
      exact ⟨sequential_cons h.atMostOne hrest, hserves⟩

theorem Sequential.append (h : Sequential t calls) (hmore : Sequential (t.replay calls) more) :
    Sequential t (calls ++ more) := by
  induction calls generalizing t with
  | nil => exact hmore
  | cons call calls ih =>
      refine sequential_cons (h [] List.nil_prefix) (ih ?_ hmore)
      exact fun before hbefore => h (call :: before) (List.cons_prefix_cons.mpr ⟨rfl, hbefore⟩)

/-! ## Calls at the wrong time -/

variable {P : Status → Act → Prop}

@[simp] theorem not_somewhere_nil : ¬Somewhere P t [] := by
  rintro ⟨before, k, act, after, heq, -⟩
  cases before with
  | nil => cases heq
  | cons call before => cases heq

theorem somewhere_cons_iff {call : κ × Act} :
    Somewhere P t (call :: calls) ↔ P (t call.1) call.2 ∨ Somewhere P (t.step call) calls := by
  constructor
  · rintro ⟨before, k, act, after, heq, hstate⟩
    cases before with
    | nil =>
        obtain ⟨rfl, -⟩ := List.cons.inj heq
        exact Or.inl hstate
    | cons first before =>
        obtain ⟨rfl, hrest⟩ := List.cons.inj heq
        exact Or.inr ⟨before, k, act, after, hrest, hstate⟩
  · rintro (hstate | ⟨before, k, act, after, rfl, hstate⟩)
    · exact ⟨[], call.1, call.2, calls, rfl, hstate⟩
    · exact ⟨call :: before, k, act, after, rfl, hstate⟩

theorem somewhere_append_iff :
    Somewhere P t (calls ++ more) ↔ Somewhere P t calls ∨ Somewhere P (t.replay calls) more := by
  induction calls generalizing t with
  | nil => simp
  | cons call calls ih =>
      rw [List.cons_append, somewhere_cons_iff, somewhere_cons_iff, ih, or_assoc]
      rfl

/-- Calls of another kind are in no such state. -/
theorem not_somewhere_of_forall (h : ∀ call ∈ calls, ∀ status, ¬P status call.2) :
    ¬Somewhere P t calls := by
  rintro ⟨before, k, act, after, rfl, hstate⟩
  exact h (k, act) (List.mem_append_right _ List.mem_cons_self) _ hstate

end Children

end PowerJudge
