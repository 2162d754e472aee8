import IncSim.Lib.Sieve
import IncSim.Topology.Reader

/-!
# Lists of names with commas

`INC_Computation::AddToInputList` and `IncOrchestrationComputeNode::AddProvidedData` look for a name
in the whole text of the list, so that a part of a name that is there counts as there.

* `addToList`: the update that both make; `inputList_foldl`, `providedData_foldl`.
* `commaList`, **`foldl_addToList`**: the list is made of the names that are no part of an earlier one.
* `contains_foldl_addToList`: a name is found when it is a part of an added one.
* **`commaLists_iff`**: the lists are the sets of the added names exactly when no part of a name gets
  in the way.
-/

namespace IncSim

open Grouping

/-! ## The update -/

/-- A value is added to a list. -/
def addToList (list value : Str) : Str :=
  if list = "null".toList then value
  else if Str.contains list value then list
  else list ++ ',' :: value

theorem inputList_foldl (names : List Str) (f : IncComputation) :
    (names.foldl Topology.addToInputList f).inputList = names.foldl addToList f.inputList := by
  induction names generalizing f with
  | nil => rfl
  | cons v names ih =>
    have hone : (Topology.addToInputList f v).inputList = addToList f.inputList v := by
      unfold Topology.addToInputList addToList
      split_ifs <;> rfl
    rw [List.foldl_cons, List.foldl_cons, ih, hone]

theorem providedData_foldl (names : List Str) (n : ComputeNode) :
    (names.foldl ComputeNode.addProvidedData n).providedData =
      names.foldl addToList n.providedData := by
  induction names generalizing n with
  | nil => rfl
  | cons v names ih =>
    have hone : (n.addProvidedData v).providedData = addToList n.providedData v := by
      unfold ComputeNode.addProvidedData addToList
      split_ifs <;> rfl
    rw [List.foldl_cons, List.foldl_cons, ih, hone]

/-! ## The list of the names that are kept -/

/-- A name for a list with commas. -/
def Plain (v : Str) : Prop := v ≠ [] ∧ ',' ∉ v ∧ v ≠ "null".toList

instance (v : Str) : Decidable (Plain v) :=
  inferInstanceAs (Decidable (v ≠ [] ∧ ',' ∉ v ∧ v ≠ "null".toList))

/-- `b` is a part of `a`. -/
abbrev hasPart (a b : Str) : Prop := b <:+: a

/-- The text of a list of names. -/
def commaList (l : List Str) : Str := if l = [] then "null".toList else [','].intercalate l

variable {names l : List Str} {v : Str}

theorem commaList_eq_null_iff (hl : ∀ a ∈ l, Plain a) : commaList l = "null".toList ↔ l = [] := by
  refine ⟨fun h => ?_, fun h => if_pos h⟩
  by_contra hne
  rw [commaList, if_neg hne] at h
  have hsplit : ("null".toList).splitOn ',' = l := by
    rw [← h]
    exact List.splitOn_intercalate ',' (fun a ha => (hl a ha).2.1) hne
  refine (hl "null".toList ?_).2.2 rfl
  rw [← hsplit]
  decide

theorem splitOn_commaList (hl : ∀ a ∈ l, Plain a) (hne : l ≠ []) : (commaList l).splitOn ',' = l := by
  rw [commaList, if_neg hne]
  exact List.splitOn_intercalate ',' (fun a ha => (hl a ha).2.1) hne

theorem contains_commaList (hv : Plain v) (hne : l ≠ []) :
    Str.contains (commaList l) v = true ↔ ∃ a ∈ l, hasPart a v := by
  rw [Str.contains_iff, commaList, if_neg hne, Text.infix_intercalate_iff hv.2.1 hv.1]

/-- **One name** is added unless it is a part of a name in the list. -/
theorem addToList_commaList (hl : ∀ a ∈ l, Plain a) (hv : Plain v) :
    addToList (commaList l) v = commaList (Sieve.add hasPart l v) := by
  have hnull := commaList_eq_null_iff hl
  unfold addToList Sieve.add
  by_cases hne : l = []
  · subst hne
    rw [if_pos (hnull.mpr rfl), if_neg (by simp)]
    simp [commaList]
  · rw [if_neg (hnull.not.mpr hne)]
    by_cases hcontains : Str.contains (commaList l) v = true
    · rw [if_pos hcontains, if_pos ((contains_commaList hv hne).mp hcontains)]
    · rw [if_neg hcontains, if_neg ((contains_commaList hv hne).not.mp hcontains), commaList,
        commaList, if_neg hne, if_neg (List.concat_ne_nil v l), Text.intercalate_concat hne]

theorem plain_sieve (hnames : ∀ a ∈ names, Plain a) : ∀ a ∈ Sieve.sieve hasPart names, Plain a :=
  fun a ha => hnames a (Sieve.sieve_subset ha)

/-- **All names**: those are kept that are no part of a name before them. -/
theorem foldl_addToList (hnames : ∀ a ∈ names, Plain a) :
    names.foldl addToList "null".toList = commaList (Sieve.sieve hasPart names) := by
  induction names using List.reverseRecOn with
  | nil => rfl
  | append_singleton names v ih =>
    have hinit : ∀ a ∈ names, Plain a := fun a ha => hnames a (List.mem_append_left _ ha)
    have hv : Plain v := hnames v (List.mem_append_right _ (List.mem_singleton_self v))
    rw [List.foldl_append, ih hinit, Sieve.sieve_concat]
    exact addToList_commaList (plain_sieve hinit) hv

theorem sieve_eq_nil_iff : Sieve.sieve hasPart names = [] ↔ names = [] := by
  constructor
  · intro h
    by_contra hne
    obtain ⟨a, ha⟩ := List.exists_mem_of_ne_nil names hne
    obtain ⟨b, hb, -⟩ := Sieve.exists_covers hasPart List.infix_refl ha
    rw [h] at hb
    exact absurd hb List.not_mem_nil
  · rintro rfl
    rfl

/-- A name is found exactly when it is a part of a name that was added. -/
theorem contains_foldl_addToList (hnames : ∀ a ∈ names, Plain a) (hne : names ≠ []) (hv : Plain v) :
    Str.contains (names.foldl addToList "null".toList) v = true ↔ ∃ a ∈ names, hasPart a v := by
  rw [foldl_addToList hnames, contains_commaList hv (sieve_eq_nil_iff.not.mpr hne)]
  constructor
  · rintro ⟨a, ha, hpart⟩
    exact ⟨a, Sieve.sieve_subset ha, hpart⟩
  · rintro ⟨a, ha, hpart⟩
    obtain ⟨b, hb, hba⟩ := Sieve.exists_covers hasPart List.infix_refl ha
    exact ⟨b, hb, hpart.trans hba⟩

/-- The list splits into the added names exactly when none is a part of an earlier one. -/
theorem splitOn_foldl_addToList_iff (hnames : ∀ a ∈ names, Plain a) :
    (names.foldl addToList "null".toList).splitOn ',' = firsts names ↔
      names ≠ [] ∧ (firsts names).Pairwise fun a b => ¬ hasPart a b := by
  rw [foldl_addToList hnames]
  by_cases hne : names = []
  · subst hne
    exact iff_of_false (by decide) fun h => h.1 rfl
  · rw [splitOn_commaList (plain_sieve hnames) (sieve_eq_nil_iff.not.mpr hne),
      Sieve.sieve_eq_firsts_iff hasPart List.infix_refl, and_iff_right hne]

/-! ## The two lists -/

/-- **The lists are the sets of the added names** exactly when some name is added, no name is
a part of one that comes first before it, and the name that is looked for is a part of an added name
only when it is added itself. -/
theorem commaLists_iff {f : IncComputation} {n : ComputeNode} (hf : f.inputList = "null".toList)
    (hn : n.providedData = "null".toList) (hnames : ∀ a ∈ names, Plain a) (hv : Plain v) :
    (((names.foldl Topology.addToInputList f).inputList.splitOn ',' = firsts names ∧
      (names.foldl ComputeNode.addProvidedData n).providedData.splitOn ',' = firsts names) ∧
      ((names.foldl ComputeNode.addProvidedData n).checkProvidedDataList v = true ↔ v ∈ names)) ↔
    (names ≠ [] ∧ (firsts names).Pairwise fun a b => ¬ b <:+: a) ∧
      ∀ a ∈ names, v <:+: a → v ∈ names := by
  rw [inputList_foldl, providedData_foldl, ComputeNode.checkProvidedDataList, providedData_foldl, hf,
    hn, splitOn_foldl_addToList_iff hnames, and_self]
  refine and_congr_right fun h => ?_
  rw [contains_foldl_addToList hnames h.1 hv]
  constructor
  · exact fun hmem a ha hpart => hmem.mp ⟨a, ha, hpart⟩
  · refine fun hmem => ⟨?_, fun hv => ⟨v, hv, List.infix_refl v⟩⟩
    rintro ⟨a, ha, hpart⟩
    exact hmem a ha hpart

section Names

/-- A fresh function and a fresh node. -/
def someFunction : IncComputation := .fresh "function".toList 0 0 2

def someNode : ComputeNode := .fresh "compute_node_0".toList 0 0 []

/-- Two operands with one digit each, one of them added twice. -/
theorem commaLists_operands :
    let names := ["Operand_1", "Operand_2", "Operand_1"].map String.toList
    ((names.foldl Topology.addToInputList someFunction).inputList.splitOn ',' = firsts names ∧
      (names.foldl ComputeNode.addProvidedData someNode).providedData.splitOn ',' = firsts names) ∧
      ((names.foldl ComputeNode.addProvidedData someNode).checkProvidedDataList
        "Operand_2".toList = true ↔ "Operand_2".toList ∈ names) :=
  (commaLists_iff rfl rfl (by decide) (by decide)).mpr (by decide)

/-- `Operand_1` is not added behind `Operand_10`. -/
theorem addToInputList_operand_ten :
    let names := ["Operand_10", "Operand_1"].map String.toList
    (∀ a ∈ names, Plain a) ∧
      (names.foldl Topology.addToInputList someFunction).inputList.splitOn ',' =
        ["Operand_10".toList] ∧
      (names.foldl Topology.addToInputList someFunction).inputList.splitOn ',' ≠ firsts names := by
  decide

end Names

end IncSim
