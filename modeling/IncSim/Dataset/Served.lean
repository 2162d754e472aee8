import Mathlib.Data.Finset.Card
import IncSim.Dataset.Generator

/-!
# Requested and provided operands

Both loops draw operand numbers between 0 and `num_data`; one keeps all but one of them, the other
keeps a number unless a number of the same request begins with its digits.

* `providedLoop_ok`, `inputLoop_ok`: both loops as drawing with rejection.
* `exists_unique_left_out`: exactly one number is not provided.
* `FromDraws`: the operands of a request, read off the numbers drawn for it.
* **`served_iff`**: every requested operand is provided exactly when no request draws the number that
  is left out before any other number that begins with its digits.
-/

namespace IncSim

open PartialRun

namespace DataGen

theorem comma_not_mem_operandName (v : ℕ) : ',' ∉ operandName v := by
  intro h
  rcases List.mem_append.mp h with h | h
  · revert h
    decide
  · exact Text.not_mem_decimal (by decide) v h

/-! ## Provided data -/

variable {numData : ℕ} {ds rest : List ℕ} {vs : List ℕ}

/-- **The provided names** are drawn with rejection of what is there. -/
theorem providedLoop_ok {i : ℕ} {names : List Str} (hlt : numData + 1 < 2 ^ 31)
    (h : providedLoop numData i (vs.map operandName) ds = .ok (names, rest)) :
    ∃ used vs', ds = used ++ rest ∧ names = vs'.map operandName ∧
      Draws.collect Eq i vs (used.map fun r => r % (numData + 1)) = some (vs', []) := by
  induction ds generalizing i vs with
  | nil =>
    cases i with
    | zero =>
      cases h
      exact ⟨[], vs, rfl, rfl, rfl⟩
    | succ i => cases h
  | cons r ds ih =>
    cases i with
    | zero =>
      cases h
      exact ⟨[], vs, rfl, rfl, rfl⟩
    | succ i =>
      rw [providedLoop_succ hlt] at h
      split_ifs at h with hr <;> rw [List.mem_map_of_injective operandName_injective] at hr
      · obtain ⟨used, vs', rfl, hnames, hcollect⟩ := ih h
        refine ⟨r :: used, vs', rfl, hnames, ?_⟩
        rw [List.map_cons, Draws.collect, if_pos ⟨_, hr, rfl⟩]
        exact hcollect
      · have hmap : vs.map operandName ++ [operandName (r % (numData + 1))] =
            (vs ++ [r % (numData + 1)]).map operandName := by rw [List.map_append]; rfl
        rw [hmap] at h
        obtain ⟨used, vs', rfl, hnames, hcollect⟩ := ih h
        refine ⟨r :: used, vs', rfl, hnames, ?_⟩
        rw [List.map_cons, Draws.collect, if_neg]
        · exact hcollect
        · rintro ⟨a, ha, rfl⟩
          exact hr ha

/-! ## Operands of a request -/

/-- The decimal digits of `w` begin with those of `v`. -/
def Begins (w v : ℕ) : Prop := Text.decimal v <+: Text.decimal w

instance : DecidableRel Begins := fun _ _ => inferInstanceAs (Decidable (_ <+: _))

instance : Std.Refl Begins := ⟨fun _ => List.prefix_refl _⟩

instance : IsTrans ℕ Begins := ⟨fun _ _ _ hab hbc => hbc.trans hab⟩

/-- The list of operands, each with a comma behind it. -/
def inputsText (vs : List ℕ) : Str := vs.flatMap fun v => operandName v ++ [',']

theorem inputsText_concat (vs : List ℕ) (v : ℕ) :
    inputsText (vs ++ [v]) = inputsText vs ++ operandName v ++ [','] := by
  simp [inputsText]

/-- **The search for an operand** finds the operands whose numbers begin with its digits. -/
theorem find_operand (vs : List ℕ) (v : ℕ) :
    (Text.find (operandName v) (inputsText vs)).isSome = true ↔ ∃ w ∈ vs, Begins w v := by
  have hname : ∀ w, operandName w = 'O' :: ("perand_".toList ++ Text.decimal w) := fun _ => rfl
  have hcomma : ',' ∉ Text.decimal v := Text.not_mem_decimal (by decide) v
  induction vs with
  | nil =>
    refine iff_of_false ?_ (by simp)
    rw [hname]
    exact Bool.false_ne_true
  | cons w vs ih =>
    have htext : inputsText (w :: vs) =
        'O' :: (("perand_".toList ++ Text.decimal w ++ [',']) ++ inputsText vs) := by
      simp only [inputsText, List.flatMap_cons, hname w, List.cons_append]
    have hhead : "perand_".toList ++ Text.decimal v <+:
        ("perand_".toList ++ Text.decimal w ++ [',']) ++ inputsText vs ↔ Begins w v := by
      rw [List.append_assoc, List.append_assoc, List.prefix_append_right_inj]
      constructor
      · exact Text.isPrefix_of_append hcomma
      · exact fun h => h.trans (List.prefix_append _ _)
    rw [List.exists_mem_cons_iff, htext, hname v]
    by_cases hw : Begins w v
    · refine iff_of_true ?_ (Or.inl hw)
      rw [Text.find_of_isPrefix (List.cons_prefix_cons.mpr ⟨rfl, hhead.mpr hw⟩)]
      rfl
    · have hfree : 'O' ∉ "perand_".toList ++ Text.decimal w ++ [','] := by
        have hdigits : 'O' ∉ Text.decimal w := Text.not_mem_decimal (by decide) w
        simp [hdigits]
      rw [or_iff_right hw, Text.find_skip hfree (fun h => hw (hhead.mp h)), Option.isSome_map]
      exact ih

/-- **The operands of a request** are drawn with rejection of what a longer number begins with. -/
theorem inputLoop_ok {j : ℕ} {s : Str}
    (h : inputLoop numData j (inputsText vs) ds = .ok (s, rest)) :
    ∃ used vs', ds = used ++ rest ∧ s = inputsText vs' ∧
      Draws.collect Begins j vs (used.map fun r => r % (numData + 1)) = some (vs', []) := by
  induction ds generalizing j vs with
  | nil =>
    cases j with
    | zero =>
      cases h
      exact ⟨[], vs, rfl, rfl, rfl⟩
    | succ j => cases h
  | cons r ds ih =>
    cases j with
    | zero =>
      cases h
      exact ⟨[], vs, rfl, rfl, rfl⟩
    | succ j =>
      rw [inputLoop] at h
      split_ifs at h with hr <;> rw [find_operand] at hr
      · obtain ⟨used, vs', rfl, hs, hcollect⟩ := ih h
        refine ⟨r :: used, vs', rfl, hs, ?_⟩
        rw [List.map_cons, Draws.collect, if_pos hr]
        exact hcollect
      · rw [← inputsText_concat] at h
        obtain ⟨used, vs', rfl, hs, hcollect⟩ := ih h
        refine ⟨r :: used, vs', rfl, hs, ?_⟩
        rw [List.map_cons, Draws.collect, if_neg hr]
        exact hcollect

/-- The operands in a list of inputs. -/
def operands (inputs : Str) : List Str :=
  if inputs = "null".toList then [] else inputs.splitOn ','

theorem operands_inputsText {vs : List ℕ} (h : vs ≠ []) :
    operands (inputsText vs).dropLast = vs.map operandName := by
  have hfree : ∀ t ∈ vs.map operandName, ',' ∉ t := by
    intro t ht
    obtain ⟨v, -, rfl⟩ := List.mem_map.mp ht
    exact comma_not_mem_operandName v
  have htext : (inputsText vs).dropLast = [','].intercalate (vs.map operandName) := by
    rw [← Text.dropLast_flatMap_append, List.flatMap_map]
    rfl
  have hsplit : (inputsText vs).dropLast.splitOn ',' = vs.map operandName := by
    rw [htext, List.splitOn_intercalate _ hfree (by simpa using h)]
  have hnull : (inputsText vs).dropLast ≠ "null".toList := by
    intro hn
    have hone : "null".toList.splitOn ',' = ["null".toList] :=
      List.splitOn_eq_singleton (by decide)
    rw [hn, hone] at hsplit
    obtain ⟨v, -, hv⟩ := List.mem_map.mp (hsplit ▸ List.mem_singleton_self "null".toList)
    have hO : (operandName v)[0]? = some 'O' := rfl
    rw [hv] at hO
    exact absurd hO (by decide)
  rw [operands, if_neg hnull, hsplit]

/-- **The inputs of a request** are drawn with rejection. -/
theorem generateInputList_collect {numInputs : ℤ} {inputs : Str}
    (h : generateInputList numInputs numData ds = .ok (inputs, rest)) :
    ∃ used vs : List ℕ, ds = used ++ rest ∧ operands inputs = vs.map operandName ∧
      Draws.collect Begins numInputs.toNat [] (used.map fun r => r % (numData + 1)) =
        some (vs, []) := by
  unfold generateInputList at h
  split_ifs at h with hzero
  · cases h
    rw [hzero]
    exact ⟨[], [], rfl, rfl, rfl⟩
  · obtain ⟨⟨s, ds'⟩, hloop, h⟩ := bind_eq_ok.mp h
    obtain ⟨s', hpop, h⟩ := bind_eq_ok.mp h
    cases h
    have hempty : ([] : Str) = inputsText [] := rfl
    rw [hempty] at hloop
    obtain ⟨used, vs, hds, hs, hcollect⟩ := inputLoop_ok hloop
    unfold popBack at hpop
    split_ifs at hpop with hne
    have hvs : vs ≠ [] := by
      rintro rfl
      exact hne hs
    obtain rfl := Except.ok.inj hpop
    refine ⟨used, vs, hds, ?_, hcollect⟩
    rw [hs, operands_inputsText hvs]

/-- As many as asked for, and a number is among them exactly when it is the first of the draws that
begins with its digits. -/
theorem generateInputList_ok {numInputs : ℤ} {inputs : Str}
    (h : generateInputList numInputs numData ds = .ok (inputs, rest)) :
    ∃ used vs : List ℕ, ds = used ++ rest ∧ operands inputs = vs.map operandName ∧
      vs.length = numInputs.toNat ∧ ∀ m, m ∈ vs ↔
        (used.map fun r => r % (numData + 1)).find? (fun w => Begins w m) = some m := by
  obtain ⟨used, vs, hds, hops, hcollect⟩ := generateInputList_collect h
  obtain ⟨all, hall, hmem⟩ := Draws.mem_collect_iff hcollect
  rw [List.append_nil] at hall
  subst hall
  refine ⟨used, vs, hds, hops, ?_, fun m => ?_⟩
  · rw [Draws.length_collect hcollect, List.length_nil, Nat.zero_add]
  · rw [hmem m]
    simp

/-! ## All requests -/

theorem drawn_append (numData : ℕ) (used rest : List ℕ) :
    drawn numData (used ++ rest) rest = used.map fun r => r % (numData + 1) := by
  rw [drawn, List.length_append, Nat.add_sub_cancel, List.take_left]

theorem le_of_mem_drawn {numData m : ℕ} {ds ds' : List ℕ} (h : m ∈ drawn numData ds ds') :
    m ≤ numData := by
  obtain ⟨r, -, rfl⟩ := List.mem_map.mp h
  exact Nat.lt_succ_iff.mp (Nat.mod_lt _ (Nat.succ_pos _))

/-- The operands of the request are the numbers that come first, among those drawn for it that begin
with their digits. -/
def FromDraws (numData : ℕ) (r : Request) : Prop :=
  (∀ m ∈ r.draws, m ≤ numData) ∧ ∃ vs : List ℕ, operands r.inputs = vs.map operandName ∧
    ∀ m, m ∈ vs ↔ r.draws.find? (fun w => Begins w m) = some m

variable {p : GenParams} {t : Tables}

theorem everyRequest_fromDraws : EveryRequest p t (FromDraws p.numData) := by
  intro consumer func arity ds r rest _ h
  obtain ⟨a, -, h⟩ := bind_eq_ok.mp h
  obtain ⟨⟨inputs, ds'⟩, hinputs, h⟩ := bind_eq_ok.mp h
  obtain ⟨f, -, h⟩ := bind_eq_ok.mp h
  obtain ⟨freq, -, h⟩ := bind_eq_ok.mp h
  obtain ⟨start, -, h⟩ := bind_eq_ok.mp h
  obtain ⟨stop, -, h⟩ := bind_eq_ok.mp h
  cases h
  obtain ⟨used, vs, rfl, hops, -, hmem⟩ := generateInputList_ok hinputs
  refine ⟨fun m => ?_, vs, hops, fun m => ?_⟩
  · exact le_of_mem_drawn
  · dsimp only
    rw [drawn_append]
    exact hmem m

/-! ## Requested and provided -/

theorem mem_dataRows {n c : ℕ} {names : List Str} {name : Str} :
    (∃ row ∈ dataRows n c names, row.getD 1 [] = name) ↔ name ∈ names := by
  induction names generalizing c with
  | nil => simp [dataRows]
  | cons name' names ih =>
    rw [dataRows, List.exists_mem_cons_iff, ih, List.mem_cons]
    exact or_congr_left eq_comm

/-- Every requested operand is provided. -/
def Served (d : Dataset) : Prop :=
  ∀ r ∈ d.requests, ∀ o ∈ operands r.inputs, ∃ row ∈ d.data, row.getD 1 [] = o

/-- In no request the number `m` comes before all other draws that begin with its digits. -/
def NeverFirst (d : Dataset) (m : ℕ) : Prop :=
  ∀ r ∈ d.requests, r.draws.find? (fun w => Begins w m) ≠ some m

/-- **Provided data**: the names of the numbers drawn for it, and there are `num_data` of them. -/
theorem generateProvidedData_ok {names : List Str} (hlt : numData < 2 ^ 32)
    (h : generateProvidedData numData ds = .ok (names, rest)) :
    ∃ vs : List ℕ, names = vs.map operandName ∧ vs.Nodup ∧ vs.length = numData ∧
      ∀ m, m ∈ vs ↔ m ∈ drawn numData ds rest := by
  have hlt := lt_of_generateProvidedData hlt h
  rw [generateProvidedData, ← List.map_nil (f := operandName)] at h
  obtain ⟨used, vs, rfl, hnames, hcollect⟩ := providedLoop_ok hlt h
  obtain ⟨all, hall, hmem⟩ := Draws.mem_collect_iff hcollect
  rw [List.append_nil] at hall
  subst hall
  refine ⟨vs, hnames, Draws.pairwise_collect List.Pairwise.nil hcollect, ?_, fun m => ?_⟩
  · rw [Draws.length_collect hcollect, List.length_nil, Nat.zero_add]
  · rw [hmem m, drawn_append]
    simp only [List.not_mem_nil, false_or, false_implies, implies_true, true_and]
    constructor
    · exact List.mem_of_find?_eq_some
    · intro hm
      have hsome : ((used.map fun r => r % (numData + 1)).find? fun w => decide (w = m)).isSome := by
        exact List.find?_isSome.mpr ⟨m, hm, decide_eq_true rfl⟩
      obtain ⟨w, hw⟩ := Option.isSome_iff_exists.mp hsome
      have heq : w = m := by simpa using List.find?_some hw
      rw [hw, heq]

section Whole

variable {R : Type} [Zero R] [DecidableEq R] [LE R] [DecidableLE R] {dist : ℕ → R} {us : List R}
  {d : Dataset}

/-- **One number is left out** by the loop that draws the provided data. -/
theorem exists_unique_left_out (h : generateData p dist ds us = .ok d) :
    ∃! m, m ≤ p.numData ∧ m ∉ d.dataDraws := by
  obtain ⟨funcs, ds₁, names, ds₂, ds₃, t, s, -, hnames, -, -, -, -, -, -, -, -, hdraws⟩ :=
    generateData_ok h
  obtain ⟨vs, -, hnodup, hlen, hmem⟩ := generateProvidedData_ok p.numData_lt hnames
  have hle : ∀ m ∈ vs, m < p.numData + 1 := by
    intro m hm
    rw [hmem] at hm
    exact Nat.lt_succ_iff.mpr (le_of_mem_drawn hm)
  have hsub : vs.toFinset ⊆ Finset.range (p.numData + 1) := by
    intro m hm
    rw [Finset.mem_range]
    exact hle m (List.mem_toFinset.mp hm)
  have hcard : (Finset.range (p.numData + 1) \ vs.toFinset).card = 1 := by
    rw [Finset.card_sdiff_of_subset hsub, Finset.card_range, List.toFinset_card_of_nodup hnodup, hlen]
    omega
  obtain ⟨m, hm⟩ := Finset.card_eq_one.mp hcard
  have hiff : ∀ k, (k ≤ p.numData ∧ k ∉ d.dataDraws) ↔ k = m := by
    intro k
    rw [hdraws, ← hmem, ← Finset.mem_singleton, ← hm, Finset.mem_sdiff, Finset.mem_range,
      List.mem_toFinset, Nat.lt_succ_iff]
  exact ⟨m, (hiff m).mpr rfl, fun k hk => (hiff k).mp hk⟩

/-- **Every requested operand is provided** exactly when the number that is left out comes first in
no request. -/
theorem served_iff (h : generateData p dist ds us = .ok d) :
    Served d ↔ ∀ m ≤ p.numData, m ∉ d.dataDraws → NeverFirst d m := by
  obtain ⟨funcs, ds₁, names, ds₂, ds₃, t, s, -, hnames, -, hall, -, -, -, -, hrequests, hdata, hdraws⟩ :=
    generateData_ok h
  obtain ⟨vs, rfl, -, -, hmem⟩ := generateProvidedData_ok p.numData_lt hnames
  have hfrom : ∀ r ∈ d.requests, FromDraws p.numData r := by
    rw [hrequests]
    exact allRequests_forall everyRequest_fromDraws (List.forall_mem_nil _) hall
  have hserved : ∀ m, (∃ row ∈ d.data, row.getD 1 [] = operandName m) ↔ m ∈ d.dataDraws := by
    intro m
    rw [hdata, mem_dataRows, List.mem_map_of_injective operandName_injective, hmem, hdraws]
  constructor
  · intro hs m _ hm r hr hfirst
    obtain ⟨-, ws, hops, hws⟩ := hfrom r hr
    refine hm ((hserved m).mp (hs r hr _ ?_))
    rw [hops]
    exact List.mem_map_of_mem ((hws m).mpr hfirst)
  · intro hnever r hr o ho
    obtain ⟨hle, ws, hops, hws⟩ := hfrom r hr
    rw [hops] at ho
    obtain ⟨m, hm, rfl⟩ := List.mem_map.mp ho
    rw [hserved]
    by_contra hnot
    have hfirst := (hws m).mp hm
    exact hnever m (hle m (List.mem_of_find?_eq_some hfirst)) hnot r hr hfirst

end Whole

instance (d : Dataset) (m : ℕ) : Decidable (NeverFirst d m) :=
  inferInstanceAs (Decidable (∀ r ∈ d.requests, _ ≠ _))

/-- Two consumers, one function with one input, one data item. -/
def oneFunctionParams : GenParams := .zipfRun 2 1 2 4 1 1 200 1 1

/-- Draws for one function, one data item, four times, a frequency, and three rounds of one request
each; every request draws `x`. -/
def drawsWith (x : ℕ) : List ℕ := [0, 0, 0, 0, 0, 0, 0, 0, x, 0, x, 0, x]

/-- That run, with probabilities in thousandths. -/
def generateOne (x : ℕ) : Except GenFault Dataset :=
  generateData oneFunctionParams (fun i => 1000 * i) (drawsWith x) [500, 500, 500]

/-- The data item gets number 0, the requests ask for number 1. -/
theorem not_served : ¬ ∀ (p : GenParams) (dist : ℕ → ℕ) (ds us : List ℕ) (d : Dataset),
    1 ≤ p.numData → 1 ≤ p.numConsumerNodes → generateData p dist ds us = .ok d → Served d := by
  intro hall
  have hrun : generateOne 1 = .ok _ := rfl
  have hserved := hall _ _ _ _ _ (by decide) (by decide) hrun
  have hrow := hserved _ List.mem_cons_self (operandName 1) (by decide)
  revert hrow
  decide

/-- All requests ask for number 0. -/
theorem served_iff_generateOne : ∃ d, generateOne 0 = .ok d ∧ Served d := by
  have hrun : generateOne 0 = .ok _ := rfl
  exact ⟨_, hrun, (served_iff hrun).mpr (by decide)⟩

end DataGen

end IncSim
