import IncSim.Lib.LastWriter
import Mathlib.Data.Set.Insert

/-!
# Requests in flight

A history of requests that are sent and answered, and a set that suppresses requests in flight.

* `Flight`: one event of the history; `InFlight`: the last event of a key is a request.
* `SingleFlight`: between two requests of one key there is an answer.
* `Tracks`: the set has the keys in flight, and the history is single-flight; **`Tracks.sent`**,
  **`Tracks.answered`**: a request that is not in flight, and an answer, keep this.
-/

universe u

/-- A request for a key, or its answer. -/
inductive Flight (κ : Type u)
  | sent (k : κ)
  | answered (k : κ)

namespace Flight

open LastWriter

variable {κ : Type}

def key : Flight κ → κ
  | sent k => k
  | answered k => k

variable [DecidableEq κ]

/-- The last event of the key is a request. -/
def InFlight (l : List (Flight κ)) (k : κ) : Prop := latest key k l = some (sent k)

/-- Between two requests of one key there is an answer. -/
def SingleFlight (l : List (Flight κ)) : Prop :=
  ∀ l₁ l₂ l₃ k, l = l₁ ++ sent k :: (l₂ ++ sent k :: l₃) → answered k ∈ l₂

/-- The set suppresses exactly the requests in flight, and has suppressed all others. -/
structure Tracks (s : Set κ) (l : List (Flight κ)) : Prop where
  mem_iff : ∀ k, k ∈ s ↔ InFlight l k
  single : SingleFlight l

variable {l l₂ : List (Flight κ)} {k k' : κ} {s : Set κ}

theorem inFlight_sent : InFlight (l ++ [sent k']) k ↔ k = k' ∨ InFlight l k := by
  rw [InFlight, latest_concat]
  by_cases h : k' = k
  · subst h
    simp [key]
  · have hne : (sent k' : Flight κ).key ≠ k := h
    rw [if_neg hne, or_iff_right (Ne.symm h)]
    rfl

theorem inFlight_answered : InFlight (l ++ [answered k']) k ↔ k ≠ k' ∧ InFlight l k := by
  rw [InFlight, latest_concat]
  by_cases h : k' = k
  · subst h
    simp [key]
  · have hne : (answered k' : Flight κ).key ≠ k := h
    rw [if_neg hne, and_iff_right (Ne.symm h)]
    rfl

/-- What follows a request without an answer leaves it in flight. -/
theorem inFlight_of_not_answered {l₁ : List (Flight κ)} (h : answered k ∉ l₂) :
    InFlight (l₁ ++ sent k :: l₂) k := by
  induction l₂ using List.reverseRecOn with
  | nil => exact inFlight_sent.mpr (Or.inl rfl)
  | append_singleton l₂ e ih =>
    have hl := ih fun hmem => h (List.mem_append_left _ hmem)
    have heq : l₁ ++ sent k :: (l₂ ++ [e]) = (l₁ ++ sent k :: l₂) ++ [e] := by simp
    rw [heq]
    cases e with
    | sent k' => exact inFlight_sent.mpr (Or.inr hl)
    | answered k' =>
      refine inFlight_answered.mpr ⟨fun hk => h ?_, hl⟩
      rw [hk]
      exact List.mem_append_right _ List.mem_cons_self

namespace SingleFlight

omit [DecidableEq κ] in
theorem nil : SingleFlight ([] : List (Flight κ)) := by
  intro l₁ l₂ l₃ k h
  simp at h

/-- Two requests in a longer history are in the history before, or the second one is the last event. -/
theorem concat {e : Flight κ} (h : SingleFlight l) (he : ∀ k, e = sent k → ¬ InFlight l k) :
    SingleFlight (l ++ [e]) := by
  intro l₁ l₂ l₃ k heq
  rcases List.eq_nil_or_concat l₃ with rfl | ⟨l₃, x, rfl⟩
  · have hsplit : l ++ [e] = (l₁ ++ sent k :: l₂) ++ [sent k] := by simp [heq]
    obtain ⟨rfl, hlast⟩ := List.append_inj' hsplit rfl
    by_contra hnot
    exact he k (List.cons.inj hlast).1 (inFlight_of_not_answered hnot)
  · have hsplit : l ++ [e] = (l₁ ++ sent k :: (l₂ ++ sent k :: l₃)) ++ [x] := by simp [heq]
    exact h l₁ l₂ l₃ k (List.append_inj' hsplit rfl).1

end SingleFlight

namespace Tracks

theorem nil : Tracks (∅ : Set κ) [] := ⟨fun k => iff_of_false (Set.notMem_empty k) nofun, .nil⟩

/-- **A request** for a key that the set does not suppress. -/
theorem sent (h : Tracks s l) (hk : k ∉ s) : Tracks (insert k s) (l ++ [sent k]) where
  mem_iff k' := by rw [inFlight_sent, Set.mem_insert_iff, h.mem_iff]
  single := by
    refine h.single.concat fun k' hk' => ?_
    cases hk'
    exact fun hin => hk ((h.mem_iff k).mpr hin)

/-- **An answer** takes the key out of the set. -/
theorem answered (h : Tracks s l) (k : κ) : Tracks (s \ {k}) (l ++ [answered k]) where
  mem_iff k' := by
    rw [inFlight_answered, Set.mem_sdiff, Set.mem_singleton_iff, h.mem_iff, and_comm]
  single := h.single.concat nofun

end Tracks

end Flight
