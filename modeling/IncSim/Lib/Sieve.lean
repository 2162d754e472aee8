import IncSim.Lib.Grouping

/-!
# Sieves

Elements are added one by one to a list that takes an element only when nothing in it covers it.

* `add`, `sieve`: one element, all elements.
* `pairwise_sieve`, `exists_covers`: what is kept is not covered by what was kept before, and what is
  added is covered.
* **`sieve_eq_firsts_iff`**: only repetitions are left out exactly when no element is covered by
  an earlier one.
-/

namespace Sieve

open Grouping

universe u

variable {α : Type u} (covers : α → α → Prop) [DecidableRel covers]

/-- Add an element that nothing in the list covers. -/
def add (l : List α) (a : α) : List α := if ∃ b ∈ l, covers b a then l else l ++ [a]

def sieve (l : List α) : List α := l.foldl (add covers) []

variable {covers} {l : List α} {a : α}

theorem sieve_concat (l : List α) (a : α) : sieve covers (l ++ [a]) = add covers (sieve covers l) a := by
  rw [sieve, List.foldl_append]
  rfl

theorem subset_add (l : List α) (a : α) : l ⊆ add covers l a := by
  unfold add
  split_ifs
  · exact List.Subset.refl l
  · exact List.subset_append_left l [a]

theorem sieve_subset : sieve covers l ⊆ l := by
  induction l using List.reverseRecOn with
  | nil => exact List.Subset.refl []
  | append_singleton l a ih =>
    rw [sieve_concat, add]
    split_ifs
    · exact List.subset_append_of_subset_left _ ih
    · exact List.append_subset.mpr ⟨List.subset_append_of_subset_left _ ih,
        List.subset_append_right l [a]⟩

/-- What is kept is not covered by what was kept before. -/
theorem pairwise_sieve : (sieve covers l).Pairwise fun a b => ¬ covers a b := by
  induction l using List.reverseRecOn with
  | nil => exact List.Pairwise.nil
  | append_singleton l a ih =>
    rw [sieve_concat, add]
    split_ifs with h
    · exact ih
    · refine List.pairwise_append.mpr ⟨ih, List.pairwise_singleton _ a, fun b hb a' ha' hcovers => ?_⟩
      rw [List.mem_singleton.mp ha'] at hcovers
      exact h ⟨b, hb, hcovers⟩

variable (covers) in
/-- What is added is covered by something that is kept. -/
theorem exists_covers (hrefl : ∀ a, covers a a) (ha : a ∈ l) : ∃ b ∈ sieve covers l, covers b a := by
  induction l using List.reverseRecOn with
  | nil => exact absurd ha List.not_mem_nil
  | append_singleton l a' ih =>
    rw [sieve_concat]
    rcases List.mem_append.mp ha with ha | ha
    · obtain ⟨b, hb, hcovers⟩ := ih ha
      exact ⟨b, subset_add _ _ hb, hcovers⟩
    · rw [List.mem_singleton.mp ha]
      unfold add
      split_ifs with h
      · exact h
      · exact ⟨a', List.mem_append_right _ (List.mem_singleton_self a'), hrefl a'⟩

variable (covers) [DecidableEq α]

/-- **Only repetitions are left out** exactly when no element is covered by an earlier one. -/
theorem sieve_eq_firsts_iff (hrefl : ∀ a, covers a a) :
    sieve covers l = firsts l ↔ (firsts l).Pairwise fun a b => ¬ covers a b := by
  refine ⟨fun h => h ▸ pairwise_sieve, fun h => ?_⟩
  induction l using List.reverseRecOn with
  | nil => rfl
  | append_singleton l a ih =>
    rw [firsts_concat] at h ⊢
    rw [sieve_concat]
    by_cases ha : a ∈ firsts l
    · rw [noted, if_pos ha] at h ⊢
      rw [add, ih h, if_pos ⟨a, ha, hrefl a⟩]
    · rw [noted, if_neg ha] at h ⊢
      obtain ⟨hl, -, hlast⟩ := List.pairwise_append.mp h
      have hnone : ¬ ∃ b ∈ firsts l, covers b a := by
        rintro ⟨b, hb, hba⟩
        exact hlast b hb a (List.mem_singleton_self a) hba
      rw [add, ih hl, if_neg hnone]

end Sieve
