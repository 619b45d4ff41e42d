import Mathlib.Data.List.Basic
import Mathlib.Logic.Function.Basic

/-!
# Writers of separate cells

Writers change a common state, each of them one cell of it, in any order.  Every cell is
then left as its own writer's values leave it, as if there were no others.  The module is
independent of the state, of the values and of how a value is written.
-/

namespace PowerJudge

variable {ι κ σ β υ : Type*}

/-- The values of one writer in an interleaving of several. -/
def writtenBy [DecidableEq ι] (i : ι) (events : List (ι × υ)) : List υ :=
  (events.filter fun event => event.1 = i).map Prod.snd

/-- The state after the events. -/
def runWriters (write : ι → υ → σ → σ) (s : σ) (events : List (ι × υ)) : σ :=
  events.foldl (fun s event => write event.1 event.2 s) s

/-- A writer that writes one of the values meant for it sets the value of its cell, and
leaves the other cells. -/
structure WritesCell (meant : υ → Prop) (read : σ → κ → β) (write : ι → υ → σ → σ)
    (cell : ι → κ) (set : ι → υ → β → β) : Prop where
  own : ∀ i v s, meant v → read (write i v s) (cell i) = set i v (read s (cell i))
  other : ∀ i v s key, meant v → key ≠ cell i → read (write i v s) key = read s key

variable {meant : υ → Prop} {read : σ → κ → β} {write : ι → υ → σ → σ} {cell : ι → κ}
  {set : ι → υ → β → β}

theorem writtenBy_cons_self [DecidableEq ι] (i : ι) (v : υ) (events : List (ι × υ)) :
    writtenBy i ((i, v) :: events) = v :: writtenBy i events := by
  simp [writtenBy]

theorem writtenBy_cons_of_ne [DecidableEq ι] {i j : ι} (h : j ≠ i) (v : υ)
    (events : List (ι × υ)) : writtenBy i ((j, v) :: events) = writtenBy i events := by
  simp [writtenBy, h]

/-- A cell of one writer shows the values of that writer. -/
theorem WritesCell.read_own [DecidableEq ι] (h : WritesCell meant read write cell set)
    (hcell : Function.Injective cell) (i : ι) {events : List (ι × υ)}
    (hmeant : ∀ event ∈ events, meant event.2) (s : σ) :
    read (runWriters write s events) (cell i) =
      (writtenBy i events).foldl (fun b v => set i v b) (read s (cell i)) := by
  induction events generalizing s with
  | nil => rfl
  | cons event events ih =>
      obtain ⟨j, v⟩ := event
      have hrun : runWriters write s ((j, v) :: events) =
          runWriters write (write j v s) events := rfl
      have hv : meant v := hmeant (j, v) List.mem_cons_self
      rw [hrun, ih fun event hevent => hmeant event (List.mem_cons_of_mem _ hevent)]
      by_cases hj : j = i
      · subst hj
        rw [writtenBy_cons_self, List.foldl_cons, h.own j v s hv]
      · have hapart : cell i ≠ cell j := fun heq => hj (hcell heq).symm
        rw [writtenBy_cons_of_ne hj, h.other j v s _ hv hapart]

/-- A cell of no writer stays as it is. -/
theorem WritesCell.read_other (h : WritesCell meant read write cell set) {key : κ}
    (hkey : ∀ i, key ≠ cell i) {events : List (ι × υ)}
    (hmeant : ∀ event ∈ events, meant event.2) (s : σ) :
    read (runWriters write s events) key = read s key := by
  induction events generalizing s with
  | nil => rfl
  | cons event events ih =>
      have hhead := h.other event.1 event.2 s key (hmeant event List.mem_cons_self) (hkey event.1)
      have htail := ih (fun later hlater => hmeant later (List.mem_cons_of_mem _ hlater))
        (write event.1 event.2 s)
      exact htail.trans hhead

/-- Every event is among the values of its writer. -/
theorem mem_writtenBy [DecidableEq ι] {events : List (ι × υ)} {event : ι × υ}
    (h : event ∈ events) : event.2 ∈ writtenBy event.1 events :=
  List.mem_map.mpr ⟨event, List.mem_filter.mpr ⟨h, by simp⟩, rfl⟩

end PowerJudge
