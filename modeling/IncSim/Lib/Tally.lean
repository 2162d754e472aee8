import Mathlib.Data.List.Basic
import Mathlib.Data.List.Chain
import Mathlib.Data.List.Infix

/-!
# A counter that stops at zero

`tally c l` counts from `c` up at `true` and down at `false`, and stays at zero when it is there.

* `tally_append`, `tally_concat_true`.
* **`tally_eq_zero`**: when the counter ends at zero.
* `Alternates`, `tally_of_alternates`: steps up and down that take turns.
* `LastDown`, `lastDown_append`: a switch that follows the last step.
-/

namespace Tally

variable {c : ℕ} {l : List Bool}

/-- Count up at `true`, and down at `false` as long as there is something to count. -/
def tally (c : ℕ) (l : List Bool) : ℕ := l.foldl (fun c up => if up then c + 1 else c - 1) c

theorem tally_append (c : ℕ) (l l' : List Bool) : tally c (l ++ l') = tally (tally c l) l' :=
  List.foldl_append

theorem tally_concat_true : tally c (l ++ [true]) = tally c l + 1 := by
  rw [tally_append]
  rfl

/-- **The counter ends at zero** exactly when there are enough steps down for what it starts with and
for the steps up, over the whole and in every final segment. -/
theorem tally_eq_zero : tally c l = 0 ↔
    c + l.count true ≤ l.count false ∧ ∀ s, s <:+ l → s.count true ≤ s.count false := by
  induction l generalizing c with
  | nil => simp [tally]
  | cons up l ih =>
    have hcons : (∀ s, s <:+ up :: l → s.count true ≤ s.count false) ↔
        (up :: l).count true ≤ (up :: l).count false ∧
          ∀ s, s <:+ l → s.count true ≤ s.count false := by
      simp only [List.suffix_cons_iff, forall_eq_or_imp]
    have hl : (∀ s, s <:+ l → s.count true ≤ s.count false) → l.count true ≤ l.count false :=
      fun h => h l (List.suffix_refl l)
    rw [hcons]
    cases up with
    | true =>
      show tally (c + 1) l = 0 ↔ _
      rw [ih]
      simp only [List.count_cons_self, List.count_cons_of_ne (by decide : true ≠ false)]
      constructor
      · rintro ⟨h, hs⟩
        exact ⟨by omega, by omega, hs⟩
      · rintro ⟨h, -, hs⟩
        exact ⟨by omega, hs⟩
    | false =>
      show tally (c - 1) l = 0 ↔ _
      rw [ih]
      simp only [List.count_cons_self, List.count_cons_of_ne (by decide : false ≠ true)]
      constructor
      · rintro ⟨h, hs⟩
        have := hl hs
        exact ⟨by omega, by omega, hs⟩
      · rintro ⟨h, -, hs⟩
        have := hl hs
        exact ⟨by omega, hs⟩

/-- Every final segment of the empty start has no more steps up than down. -/
theorem tally_zero_eq_zero : tally 0 l = 0 ↔ ∀ s, s <:+ l → s.count true ≤ s.count false := by
  rw [tally_eq_zero, Nat.zero_add]
  exact and_iff_right_of_imp fun h => h l (List.suffix_refl l)

/-- Steps up and steps down take turns. -/
def Alternates (l : List Bool) : Prop := l.IsChain (· ≠ ·)

/-- **Steps that take turns** are counted as one or none, by the last of them. -/
theorem tally_of_alternates (h : Alternates l) :
    tally 0 l = if l.getLast? = some true then 1 else 0 := by
  induction l using List.reverseRecOn with
  | nil => rfl
  | append_singleton l up ih =>
    obtain ⟨hl, -, hturn⟩ := List.isChain_append.mp h
    rw [tally_append, ih hl, List.getLast?_concat]
    cases up with
    | false =>
      show tally (if l.getLast? = some true then 1 else 0) [false] = 0
      split_ifs <;> rfl
    | true =>
      have hlast : ¬ l.getLast? = some true := fun hlast => hturn true hlast true rfl rfl
      rw [if_neg hlast]
      rfl

/-- The last step is down, or there is no step and `P` holds before. -/
def LastDown (P : Prop) (l : List Bool) : Prop := l.getLast? = some false ∨ l = [] ∧ P

variable {P : Prop}

@[simp] theorem lastDown_nil : LastDown P [] ↔ P := by simp [LastDown]

@[simp] theorem lastDown_concat (l : List Bool) (up : Bool) : LastDown P (l ++ [up]) ↔ up = false := by
  simp [LastDown]

/-- **The steps of two lists**, one after the other. -/
theorem lastDown_append (l l' : List Bool) : LastDown P (l ++ l') ↔ LastDown (LastDown P l) l' := by
  induction l' using List.reverseRecOn with
  | nil => rw [List.append_nil, lastDown_nil]
  | append_singleton l' up _ => rw [← List.append_assoc, lastDown_concat, lastDown_concat]

end Tally
