import Mathlib.Data.Finset.Card
import Mathlib.Order.Defs.Unbundled

/-!
# Drawing with rejection

Values are drawn from a list until enough of them are accepted; a value is rejected when an accepted
one covers it.

* `collect`: the accepted values and the draws that are left.
* **`mem_collect_iff`**: where covering is a preorder, a value is accepted exactly when it is the
  first of the draws that covers it.
* `length_collect`, `pairwise_collect`: how many values are accepted; no one covers a later one.
* `leaves`, **`uncovered_iff`**: some value of a set is always left to accept exactly when no more are
  asked for than only they themselves cover.
-/

namespace Draws

variable {α : Type*} (covers : α → α → Prop) [DecidableRel covers]

/-- Draw until `j` more values are accepted. -/
def collect : ℕ → List α → List α → Option (List α × List α)
  | 0, acc, ds => some (acc, ds)
  | _ + 1, _, [] => none
  | j + 1, acc, d :: ds =>
    if ∃ a ∈ acc, covers a d then collect (j + 1) acc ds else collect j (acc ++ [d]) ds

variable {covers} {j : ℕ} {acc acc' ds rest : List α}

theorem length_collect (h : collect covers j acc ds = some (acc', rest)) :
    acc'.length = acc.length + j := by
  induction ds generalizing j acc with
  | nil =>
    cases j with
    | zero =>
      cases h
      rfl
    | succ j => cases h
  | cons d ds ih =>
    cases j with
    | zero =>
      cases h
      rfl
    | succ j =>
      rw [collect] at h
      split_ifs at h
      · exact ih h
      · rw [ih h, List.length_append, List.length_singleton]
        omega

/-- **A value is accepted** exactly when no value accepted before covers it and it is the first of
the draws that covers it. -/
theorem mem_collect_iff [Std.Refl covers] [IsTrans α covers]
    (h : collect covers j acc ds = some (acc', rest)) :
    ∃ used, ds = used ++ rest ∧ ∀ m, m ∈ acc' ↔
      m ∈ acc ∨ ((∀ a ∈ acc, ¬ covers a m) ∧ used.find? (covers · m) = some m) := by
  induction ds generalizing j acc with
  | nil =>
    cases j with
    | zero =>
      cases h
      exact ⟨[], rfl, fun m => by simp⟩
    | succ j => cases h
  | cons d ds ih =>
    cases j with
    | zero =>
      cases h
      exact ⟨[], rfl, fun m => by simp⟩
    | succ j =>
      rw [collect] at h
      split_ifs at h with hd
      · -- `d` is rejected: what it covers is covered already
        obtain ⟨used, rfl, hmem⟩ := ih h
        refine ⟨d :: used, rfl, fun m => ?_⟩
        rw [hmem m]
        refine or_congr_right (and_congr_right fun hm => ?_)
        obtain ⟨a, ha, had⟩ := hd
        have hdm : ¬ covers d m := fun hdm => hm a ha (IsTrans.trans a d m had hdm)
        rw [List.find?_cons_of_neg (by simpa using hdm)]
      · obtain ⟨used, rfl, hmem⟩ := ih h
        refine ⟨d :: used, rfl, fun m => ?_⟩
        have hacc : ∀ a ∈ acc, ¬ covers a d := fun a ha had => hd ⟨a, ha, had⟩
        rw [hmem m, List.mem_append, List.mem_singleton]
        by_cases hdm : covers d m
        · rw [List.find?_cons_of_pos (by simpa using hdm), Option.some.injEq]
          constructor
          · rintro ((hm | rfl) | ⟨hm, -⟩)
            · exact Or.inl hm
            · exact Or.inr ⟨hacc, rfl⟩
            · exact absurd hdm (hm d (by simp))
          · rintro (hm | ⟨-, rfl⟩)
            · exact Or.inl (Or.inl hm)
            · exact Or.inl (Or.inr rfl)
        · have hne : m ≠ d := by
            rintro rfl
            exact hdm (refl m)
          rw [List.find?_cons_of_neg (by simpa using hdm), or_iff_left hne]
          refine or_congr_right (and_congr_left fun _ => ?_)
          simp only [List.mem_append, List.mem_singleton, or_imp, forall_and, forall_eq]
          exact and_iff_left hdm

/-- No accepted value covers a later one. -/
theorem pairwise_collect (hacc : acc.Pairwise fun a b => ¬ covers a b)
    (h : collect covers j acc ds = some (acc', rest)) : acc'.Pairwise fun a b => ¬ covers a b := by
  induction ds generalizing j acc with
  | nil =>
    cases j with
    | zero =>
      cases h
      exact hacc
    | succ j => cases h
  | cons d ds ih =>
    cases j with
    | zero =>
      cases h
      exact hacc
    | succ j =>
      rw [collect] at h
      split_ifs at h with hd
      · exact ih hacc h
      · refine ih (List.pairwise_append.mpr ⟨hacc, List.pairwise_singleton _ d, ?_⟩) h
        intro a ha b hb hab
        rw [List.mem_singleton] at hb
        exact hd ⟨a, ha, hb ▸ hab⟩

theorem mem_of_mem_collect (h : collect covers j acc ds = some (acc', rest)) {a : α} (ha : a ∈ acc') :
    a ∈ acc ∨ a ∈ ds := by
  induction ds generalizing j acc with
  | nil =>
    cases j with
    | zero =>
      cases h
      exact Or.inl ha
    | succ j => cases h
  | cons d ds ih =>
    cases j with
    | zero =>
      cases h
      exact Or.inl ha
    | succ j =>
      rw [collect] at h
      split_ifs at h
      · exact (ih h).imp_right (List.mem_cons_of_mem d)
      · rcases ih h with hacc | hds
        · rcases List.mem_append.mp hacc with hacc | hd
          · exact Or.inl hacc
          · exact Or.inr (List.mem_cons.mpr (Or.inl (List.mem_singleton.mp hd)))
        · exact Or.inr (List.mem_cons_of_mem d hds)

/-- Draws are accepted one after the other when none covers a later one. -/
theorem collect_of_pairwise (h : (acc ++ ds).Pairwise fun a b => ¬ covers a b) :
    collect covers ds.length acc ds = some (acc ++ ds, []) := by
  induction ds generalizing acc with
  | nil => rw [List.append_nil, List.length_nil, collect]
  | cons d ds ih =>
    have hd : ¬ ∃ a ∈ acc, covers a d := by
      rintro ⟨a, ha, had⟩
      exact (List.pairwise_append.mp h).2.2 a ha d List.mem_cons_self had
    rw [List.append_cons] at h
    rw [List.length_cons, collect, if_neg hd, ih h, ← List.append_cons]

/-! ## Running out of values -/

section Leaves

variable [DecidableEq α] {S : Finset α}

variable (covers) in
/-- The values of a set that only they themselves cover. -/
def leaves (S : Finset α) : Finset α := S.filter fun v => ∀ w ∈ S, covers w v → w = v

theorem exists_uncovered (hacc : ∀ a ∈ acc, a ∈ S) (h : acc.length < (leaves covers S).card) :
    ∃ v ∈ S, ∀ a ∈ acc, ¬ covers a v := by
  have hcard : acc.toFinset.card < (leaves covers S).card :=
    (List.toFinset_card_le acc).trans_lt h
  obtain ⟨v, hv, hnot⟩ := Finset.exists_mem_notMem_of_card_lt_card hcard
  rw [List.mem_toFinset] at hnot
  obtain ⟨hvS, hleaf⟩ := Finset.mem_filter.mp hv
  refine ⟨v, hvS, fun a ha hav => hnot ?_⟩
  rw [← hleaf a (hacc a ha) hav]
  exact ha

theorem pairwise_leaves : (leaves covers S).toList.Pairwise fun a b => ¬ covers a b := by
  refine (Finset.nodup_toList _).imp_of_mem fun ha hb hne hcovers => hne ?_
  have hleaf := (Finset.mem_filter.mp (Finset.mem_toList.mp hb)).2
  exact hleaf _ (Finset.mem_filter.mp (Finset.mem_toList.mp ha)).1 hcovers

/-- **There is always a value to accept** exactly when at most as many are asked for as there are
leaves: the leaves themselves leave nothing to accept. -/
theorem uncovered_iff (hcover : ∀ v ∈ S, ∃ w ∈ leaves covers S, covers w v) {n : ℕ} :
    (∀ j < n, ∀ ds acc rest, (∀ d ∈ ds, d ∈ S) → collect covers j [] ds = some (acc, rest) →
      ∃ v ∈ S, ∀ a ∈ acc, ¬ covers a v) ↔ n ≤ (leaves covers S).card := by
  constructor
  · intro h
    by_contra hlt
    have hrun : collect covers (leaves covers S).card [] (leaves covers S).toList =
        some ((leaves covers S).toList, []) := by
      rw [← Finset.length_toList]
      exact collect_of_pairwise pairwise_leaves
    have hmem : ∀ d ∈ (leaves covers S).toList, d ∈ S :=
      fun d hd => (Finset.mem_filter.mp (Finset.mem_toList.mp hd)).1
    obtain ⟨v, hv, hnone⟩ := h _ (Nat.lt_of_not_le hlt) _ _ _ hmem hrun
    obtain ⟨w, hw, hwv⟩ := hcover v hv
    exact hnone w (Finset.mem_toList.mpr hw) hwv
  · intro h j hj ds acc rest hds hrun
    refine exists_uncovered (fun a ha => ?_) ?_
    · exact hds a ((mem_of_mem_collect hrun ha).resolve_left List.not_mem_nil)
    · rw [length_collect hrun, List.length_nil, Nat.zero_add]
      exact hj.trans_le h

end Leaves

end Draws
