import Mathlib.Data.List.Nodup
import Mathlib.Order.Lattice

/-!
# The pending events of a simulator

Events with a time, in the order in which they were scheduled; each has a number of its own.

* `Timers`: the events; the numbers rise from one event to the next, so that they are distinct.
* `schedule`, `cancel`, `isRunning`: one event more, or less; whether it is still there.
* `first`: the event that is taken next, the earliest one, and of those the first scheduled.
* `mem_schedule`, `mem_cancel`, `isRunning_iff`, `eq_of_number`: reading the events back.
* **`le_of_first`**: no event that is left is earlier than the one that is taken.
-/

universe u v

/-- The pending events of a simulator: number, time and what is to be done. -/
structure Timers (τ : Type u) (α : Type v) where
  pending : List (ℕ × τ × α)
  /-- the number of the next event -/
  next : ℕ
  rising : (pending.map Prod.fst).Pairwise (· < ·)
  below : ∀ q ∈ pending, q.1 < next

namespace Timers

variable {τ : Type u} {α : Type v}

def empty : Timers τ α := ⟨[], 0, List.Pairwise.nil, nofun⟩

/-- One event more, with the next number. -/
def schedule (t : Timers τ α) (time : τ) (a : α) : Timers τ α where
  pending := t.pending ++ [(t.next, time, a)]
  next := t.next + 1
  rising := by
    rw [List.map_append, List.pairwise_append]
    refine ⟨t.rising, List.pairwise_singleton _ _, fun i hi j hj => ?_⟩
    obtain ⟨q, hq, rfl⟩ := List.mem_map.mp hi
    rw [List.map_singleton, List.mem_singleton] at hj
    exact hj ▸ t.below q hq
  below q hq := by
    rcases List.mem_append.mp hq with hq | hq
    · exact Nat.lt_succ_of_lt (t.below q hq)
    · rw [List.mem_singleton.mp hq]
      exact Nat.lt_succ_self _

/-- The event with the number, if it is there, removed. -/
def cancel (t : Timers τ α) (id : ℕ) : Timers τ α where
  pending := t.pending.filter fun q => q.1 ≠ id
  next := t.next
  rising := t.rising.sublist (List.filter_sublist.map Prod.fst)
  below q hq := t.below q (List.mem_filter.mp hq).1

/-- The event with the number has not been taken yet. -/
def isRunning (t : Timers τ α) (id : ℕ) : Bool := t.pending.any fun q => q.1 = id

variable {t : Timers τ α} {q q' : ℕ × τ × α} {id : ℕ} {time : τ} {a : α}

theorem mem_schedule :
    q ∈ (t.schedule time a).pending ↔ q ∈ t.pending ∨ q = (t.next, time, a) := by
  simp [schedule]

theorem mem_cancel : q ∈ (t.cancel id).pending ↔ q ∈ t.pending ∧ q.1 ≠ id := by
  simp [cancel]

theorem isRunning_iff : t.isRunning id = true ↔ ∃ q ∈ t.pending, q.1 = id := by
  simp [isRunning]

theorem pending_cancel_single (h : t.pending = [q]) : (t.cancel q.1).pending = [] := by
  simp [cancel, h]

/-- Two pending events with one number are one event. -/
theorem eq_of_number (hq : q ∈ t.pending) (hq' : q' ∈ t.pending) (h : q.1 = q'.1) : q = q' := by
  have hnodup : (t.pending.map Prod.fst).Nodup := t.rising.imp fun h => Nat.ne_of_lt h
  exact List.inj_on_of_nodup_map hnodup hq hq' h

section First

variable [LinearOrder τ]

/-- One event is taken before another one: it is earlier, or was scheduled first. -/
def Precedes (q q' : ℕ × τ × α) : Prop := q.2.1 < q'.2.1 ∨ q.2.1 = q'.2.1 ∧ q.1 ≤ q'.1

instance (q q' : ℕ × τ × α) : Decidable (Precedes q q') := inferInstanceAs (Decidable (_ ∨ _))

/-- The event that is taken next. -/
def first (t : Timers τ α) : Option (ℕ × τ × α) :=
  t.pending.find? fun q => t.pending.all fun q' => Precedes q q'

theorem mem_of_first (h : t.first = some q) : q ∈ t.pending := List.mem_of_find?_eq_some h

/-- **No event is earlier** than the one that is taken. -/
theorem le_of_first (h : t.first = some q) (hq' : q' ∈ t.pending) : q.2.1 ≤ q'.2.1 := by
  have hall := List.find?_some h
  rcases of_decide_eq_true (List.all_eq_true.mp hall q' hq') with hlt | ⟨heq, -⟩
  · exact le_of_lt hlt
  · exact le_of_eq heq

theorem first_single (h : t.pending = [q]) : t.first = some q := by
  simp [first, h, Precedes]

end First

end Timers
