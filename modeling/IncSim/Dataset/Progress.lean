import IncSim.Dataset.Served
import Mathlib.Order.Interval.Finset.Nat

/-!
# Progress of the operand loop

`generate_input_list` draws an operand again while its text occurs in the list so far, so that an
operand is rejected once a number is there that begins with its digits.

* `begins_iff`: the digits of a number, one by one; `begins_le`.
* `mem_leaves`, **`card_leaves`**: the numbers up to `num_data` that no other one begins with.
* `inputLoop_of_collect`: the loop as drawing with rejection, from the draws to the list.
* **`progress_iff`**: an operand is always left to accept, and the finished list holds different
  operands, exactly when at most as many inputs are asked for as there are such numbers.
-/

namespace IncSim

open PartialRun

namespace DataGen

/-! ## Digits -/

variable {v w numData : ℕ}

theorem begins_iff : Begins w v ↔ v = w ∨ 10 ≤ w ∧ Begins (w / 10) v := by
  unfold Begins Text.decimal
  by_cases hw : 10 ≤ w
  · rw [Nat.toDigits_of_base_le (by decide) hw, List.prefix_concat_iff, and_iff_right hw,
      ← Nat.toDigits_of_base_le (by decide) hw]
    exact or_congr_left ⟨fun h => decimal_injective h, congrArg _⟩
  · have hlt : w < 10 := Nat.lt_of_not_le hw
    rw [or_iff_left fun h => hw h.1, Nat.toDigits_of_lt_base hlt]
    refine ⟨fun h => ?_, fun h => ?_⟩
    · have hlen : 0 < (Nat.toDigits 10 v).length := Nat.length_toDigits_pos
      have heq := h.eq_of_length_le hlen
      rw [← Nat.toDigits_of_lt_base hlt] at heq
      exact decimal_injective heq
    · rw [h, Nat.toDigits_of_lt_base hlt]

/-- A number that begins with other digits is at least ten times as large. -/
theorem begins_le (h : Begins w v) : v = w ∨ 1 ≤ v ∧ 10 * v ≤ w := by
  induction w using Nat.strong_induction_on with
  | _ w ih =>
    rcases begins_iff.mp h with rfl | ⟨hw, h⟩
    · exact Or.inl rfl
    · rcases ih (w / 10) (by omega) h with rfl | ⟨hv, hle⟩ <;> omega

theorem begins_ten_mul (hv : 1 ≤ v) : Begins (10 * v) v := by
  refine begins_iff.mpr (Or.inr ⟨by omega, ?_⟩)
  rw [Nat.mul_div_cancel_left v (by decide)]
  exact refl v

/-! ## The numbers that no other one begins with -/

/-- The numbers of the operands. -/
abbrev numbers (numData : ℕ) : Finset ℕ := Finset.range (numData + 1)

theorem mem_leaves : v ∈ Draws.leaves Begins (numbers numData) ↔
    v ≤ numData ∧ (v = 0 ∨ numData < 10 * v) := by
  rw [Draws.leaves, Finset.mem_filter, Finset.mem_range, Nat.lt_succ_iff]
  refine and_congr_right fun hv => ⟨fun h => ?_, fun h w hw hbegins => ?_⟩
  · by_contra hnot
    rw [not_or, Nat.not_lt] at hnot
    have hv₁ : 1 ≤ v := Nat.one_le_iff_ne_zero.mpr hnot.1
    have hten := h (10 * v) (Finset.mem_range.mpr (Nat.lt_succ_of_le hnot.2)) (begins_ten_mul hv₁)
    omega
  · rw [Finset.mem_range] at hw
    rcases begins_le hbegins with rfl | ⟨hv₁, hle⟩
    · rfl
    · omega

/-- **How many they are.** -/
theorem card_leaves (numData : ℕ) :
    (Draws.leaves Begins (numbers numData)).card = numData + 1 - numData / 10 := by
  have hleaves : Draws.leaves Begins (numbers numData) =
      numbers numData \ Finset.Ico 1 (numData / 10 + 1) := by
    ext v
    rw [mem_leaves, Finset.mem_sdiff, Finset.mem_range, Finset.mem_Ico]
    omega
  have hsub : Finset.Ico 1 (numData / 10 + 1) ⊆ numbers numData := by
    intro v hv
    rw [Finset.mem_Ico] at hv
    rw [Finset.mem_range]
    omega
  rw [hleaves, Finset.card_sdiff_of_subset hsub, Finset.card_range, Nat.card_Ico,
    Nat.add_sub_cancel]

/-- One of them begins with the digits of any number. -/
theorem exists_leaf (hv : v ∈ numbers numData) :
    ∃ w ∈ Draws.leaves Begins (numbers numData), Begins w v := by
  rw [Finset.mem_range, Nat.lt_succ_iff] at hv
  induction hn : numData - v using Nat.strong_induction_on generalizing v with
  | _ n ih =>
    by_cases hleaf : v = 0 ∨ numData < 10 * v
    · exact ⟨v, mem_leaves.mpr ⟨hv, hleaf⟩, refl v⟩
    · rw [not_or, Nat.not_lt] at hleaf
      obtain ⟨w, hw, hbegins⟩ := ih (numData - 10 * v) (by omega) hleaf.2 rfl
      exact ⟨w, hw, IsTrans.trans _ _ _ hbegins (begins_ten_mul (Nat.one_le_iff_ne_zero.mpr hleaf.1))⟩

/-! ## The loop -/

variable {ds rest vs vs' : List ℕ}

/-- Draws up to `num_data`: what is accepted makes the list. -/
theorem inputLoop_of_collect {j : ℕ} (vs : List ℕ) (hds : ∀ d ∈ ds, d ∈ numbers numData)
    (h : Draws.collect Begins j vs ds = some (vs', rest)) :
    inputLoop numData j (inputsText vs) ds = .ok (inputsText vs', rest) := by
  induction ds generalizing j vs with
  | nil =>
    cases j with
    | zero =>
      cases h
      rfl
    | succ j => cases h
  | cons d ds ih =>
    cases j with
    | zero =>
      cases h
      rfl
    | succ j =>
      have htail : ∀ d ∈ ds, d ∈ numbers numData := fun d' h' => hds d' (List.mem_cons_of_mem _ h')
      have hd : d % (numData + 1) = d :=
        Nat.mod_eq_of_lt (Finset.mem_range.mp (hds d List.mem_cons_self))
      rw [Draws.collect] at h
      rw [inputLoop, hd]
      split_ifs at h with hcovers
      · rw [if_pos ((find_operand vs d).mpr hcovers)]
        exact ih vs htail h
      · rw [if_neg ((find_operand vs d).not.mpr hcovers), ← inputsText_concat]
        exact ih _ htail h

/-- An operand is accepted behind a list. -/
theorem find_operand_eq_none : Text.find (operandName v) (inputsText vs) = none ↔
    ∀ w ∈ vs, ¬ Begins w v := by
  rw [← Option.not_isSome_iff_eq_none, find_operand]
  simp

/-- **The operands of a finished list** are different, and as many as asked for. -/
theorem nodup_operands {numInputs : ℕ} {inputs : Str}
    (h : generateInputList numInputs numData ds = .ok (inputs, rest)) :
    (operands inputs).Nodup ∧ (operands inputs).length = numInputs := by
  obtain ⟨used, vs, -, hops, hcollect⟩ := generateInputList_collect h
  have hnodup : vs.Nodup := by
    refine (Draws.pairwise_collect List.Pairwise.nil hcollect).imp fun {a b} hbegins => ?_
    rintro rfl
    exact hbegins (refl a)
  rw [hops]
  refine ⟨hnodup.map operandName_injective, ?_⟩
  rw [List.length_map, Draws.length_collect hcollect]
  simp

/-! ## Progress -/

/-- Behind every list that the loop can build some operand is accepted, and a finished list holds
different operands. -/
def Progress (numData numInputs : ℕ) : Prop :=
  (∀ j < numInputs, ∀ ds s rest, inputLoop numData j [] ds = .ok (s, rest) →
    ∃ v ≤ numData, Text.find (operandName v) s = none) ∧
  ∀ ds inputs rest, generateInputList numInputs numData ds = .ok (inputs, rest) →
    (operands inputs).Nodup ∧ (operands inputs).length = numInputs

/-- **The loop can always make progress** exactly when at most as many inputs are asked for as there
are numbers up to `num_data` that no other one begins with. -/
theorem progress_iff (numData numInputs : ℕ) :
    Progress numData numInputs ↔ numInputs ≤ numData + 1 - numData / 10 := by
  rw [Progress, and_iff_left fun ds inputs rest => nodup_operands, ← card_leaves,
    ← Draws.uncovered_iff fun v => exists_leaf]
  constructor
  · intro h j hj ds vs rest hds hcollect
    obtain ⟨v, hv, hnone⟩ := h j hj ds _ rest (inputLoop_of_collect [] hds hcollect)
    exact ⟨v, Finset.mem_range.mpr (Nat.lt_succ_of_le hv), find_operand_eq_none.mp hnone⟩
  · intro h j hj ds s rest hrun
    have hempty : ([] : Str) = inputsText [] := rfl
    rw [hempty] at hrun
    obtain ⟨used, vs, -, rfl, hcollect⟩ := inputLoop_ok hrun
    have hused : ∀ d ∈ used.map fun r => r % (numData + 1), d ∈ numbers numData :=
      List.forall_mem_map.mpr fun r _ => Finset.mem_range.mpr (Nat.mod_lt r (Nat.succ_pos numData))
    obtain ⟨v, hv, hnone⟩ := h j hj _ vs [] hused hcollect
    exact ⟨v, Nat.lt_succ_iff.mp (Finset.mem_range.mp hv), find_operand_eq_none.mpr hnone⟩

/-- Ten data items and eleven inputs, with `Operand_10` drawn first: `Operand_1` is left, and it is
rejected forever. -/
theorem not_progress_ten : ¬ Progress 10 11 := by
  rintro ⟨h, -⟩
  have hrun : inputLoop 10 10 [] [10, 0, 2, 3, 4, 5, 6, 7, 8, 9] =
      .ok (inputsText [10, 0, 2, 3, 4, 5, 6, 7, 8, 9], []) :=
    inputLoop_of_collect [] (by decide) (by decide)
  obtain ⟨v, hv, hnone⟩ := h 10 (by decide) _ _ _ hrun
  rw [find_operand_eq_none] at hnone
  have hstuck : ∀ v ≤ 10, ∃ w ∈ [10, 0, 2, 3, 4, 5, 6, 7, 8, 9], Begins w v := by decide
  obtain ⟨w, hw, hbegins⟩ := hstuck v hv
  exact hnone w hw hbegins

end DataGen

end IncSim
