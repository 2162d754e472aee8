import IncSim.Dataset.Generator

/-!
# The arithmetic of the generator

Quotients, remainders, indexes and times of `DataGen::generate_data`, as the scenario calls it from
its command line.

* `CommandLine`, `params`: the options, and the arguments that are made of them.
* `NoFault`, `NoFault.bind`, `noFault_run`: computations that end at most because the stream does.
* `Closed`, `drawIn_fault`: ranges with an `int` behind every draw, and ranges without draws.
* `Prepared`, `prepare`, `generateData_eq`: what is there before the first request.
* `Safe`: no fault, and times in their order, whatever is drawn.
* `Sound`; **`arithmetic_safe_iff`**: the command lines with safe arithmetic.
-/

namespace IncSim

open PartialRun

/-- The options of the scenario that `generate_data` gets, numbers of type `uint32_t`, the last two of
type `int`; the number of data is overwritten with the number of consumers. -/
structure CommandLine where
  consumerNodes : ℕ
  t1Nodes : ℕ
  t2Nodes : ℕ
  t3Nodes : ℕ
  cloudConfig : ℕ
  functions : ℕ
  inputRange : ℤ
  simTime : ℕ
  consumers_lt : consumerNodes < 2 ^ 32
  t1_lt : t1Nodes < 2 ^ 32
  t2_lt : t2Nodes < 2 ^ 32
  t3_lt : t3Nodes < 2 ^ 32
  functions_lt : functions < 2 ^ 32
  le_inputRange : -2 ^ 31 ≤ inputRange
  inputRange_lt : inputRange < 2 ^ 31
  simTime_lt : simTime < 2 ^ 31

/-- The arguments of `generate_data`. -/
def CommandLine.params (c : CommandLine) : GenParams :=
  { numConsumerNodes := c.consumerNodes, t1Nodes := c.t1Nodes, t2Nodes := c.t2Nodes
    t3Nodes := c.t3Nodes, cloudScale := c.cloudConfig, numFunc := c.functions
    numData := c.consumerNodes, inputRange := (0, c.inputRange), simTime := c.simTime
    zipf := true, nfnLoadDistributionScenario := true, homogeneousNodes := false
    consumers_lt := c.consumers_lt, t1_lt := c.t1_lt, t2_lt := c.t2_lt, t3_lt := c.t3_lt
    numFunc_lt := c.functions_lt, numData_lt := c.consumers_lt
    simTime_lt := lt_trans c.simTime_lt (by decide)
    le_inputRange := ⟨show -2 ^ 31 ≤ (0 : ℤ) by decide, c.le_inputRange⟩
    inputRange_lt := ⟨show (0 : ℤ) < 2 ^ 31 by decide, c.inputRange_lt⟩ }

namespace DataGen

theorem toString_injective : Function.Injective toString := by
  have hminus : ∀ n, '-' ∉ Text.decimal n := fun n => Text.free_decimal ['-'] (by decide) n '-' (by decide)
  intro a b h
  unfold toString at h
  split_ifs at h with ha hb hb
  · have habs := decimal_injective (List.cons.inj h).2
    omega
  · exact absurd (h ▸ List.mem_cons_self) (hminus b.natAbs)
  · exact absurd (h ▸ List.mem_cons_self) (hminus a.natAbs)
  · have habs := decimal_injective h
    omega

/-! ## Runs without a fault -/

section NoFault

variable {α β σ ε : Type} {x : Except GenFault α} {f : α → Except GenFault β}

/-- The computation ends with a value, or with the stream of random numbers. -/
def NoFault (x : Except GenFault α) : Prop := ∀ f, x = .error f → f = .outOfDraws

theorem noFault_ok (a : α) : NoFault (.ok a) := nofun

theorem noFault_outOfDraws : NoFault (.error .outOfDraws : Except GenFault α) :=
  fun _ h => (Except.error.inj h).symm

theorem NoFault.bind (hx : NoFault x) (hf : ∀ a, x = .ok a → NoFault (f a)) : NoFault (x >>= f) := by
  cases x with
  | error e => exact fun e' he => hx e' (congrArg Except.error (Except.error.inj he))
  | ok a => exact hf a rfl

/-- What begins a computation without a fault has none. -/
theorem NoFault.of_bind (h : NoFault (x >>= f)) : NoFault x := by
  intro e he
  exact h e (by rw [he]; rfl)

/-- A run whose steps give no fault. -/
theorem noFault_run {step : σ → ε → Except GenFault σ} {es : List ε}
    (hstep : ∀ s, ∀ e ∈ es, NoFault (step s e)) (s : σ) : NoFault (run step s es) := by
  induction es generalizing s with
  | nil => exact noFault_ok s
  | cons e es ih =>
    rw [run, List.foldlM_cons]
    refine (hstep s e List.mem_cons_self).bind fun t _ => ?_
    exact ih (fun s e he => hstep s e (List.mem_cons_of_mem _ he)) t

theorem at?_eq_ok {l : List α} {i : ℕ} (hi : i < l.length) : ∃ a ∈ l, at? l i = .ok a := by
  refine ⟨l[i], List.getElem_mem hi, ?_⟩
  rw [at?, List.getElem?_eq_getElem hi]

theorem noFault_at? {l : List α} {i : ℕ} (hi : i < l.length) : NoFault (at? l i) := by
  obtain ⟨a, -, ha⟩ := at?_eq_ok hi
  rw [ha]
  exact noFault_ok a

theorem noFault_rand (ds : List ℕ) : NoFault (rand ds) := by
  cases ds with
  | nil => exact noFault_outOfDraws
  | cons r ds => exact noFault_ok _

end NoFault

/-! ## Rounds that add one element -/

section Rounds

variable {β δ : Type} {step : List β × δ → ℕ → Except GenFault (List β × δ)} {n : ℕ} {l : List β}
  {d d' : δ}

/-- A loop in which every round adds one element. -/
theorem run_range_ok {P : β → Prop}
    (hstep : ∀ q i q', step q i = .ok q' → ∃ b, q'.1 = q.1 ++ [b] ∧ P b)
    (h : run step ([], d) (List.range n) = .ok (l, d')) : l.length = n ∧ ∀ b ∈ l, P b := by
  induction n generalizing l d' with
  | zero =>
    cases h
    exact ⟨rfl, nofun⟩
  | succ n ih =>
    rw [List.range_succ] at h
    obtain ⟨⟨l₁, d₁⟩, h₁, hs⟩ := run_concat.mp h
    obtain ⟨hlen, hP⟩ := ih h₁
    obtain ⟨b, hb, hPb⟩ := hstep _ _ _ hs
    obtain rfl : l = l₁ ++ [b] := hb
    refine ⟨by rw [List.length_append, hlen]; rfl, fun b' hb' => ?_⟩
    rcases List.mem_append.mp hb' with hb' | hb'
    · exact hP b' hb'
    · exact (List.mem_singleton.mp hb') ▸ hPb

/-- A loop in which every round draws the same number and adds one element. -/
theorem run_replicate {step : List β × List ℕ → ℕ → Except GenFault (List β × List ℕ)} {r : ℕ}
    {g : ℕ → β} {n : ℕ} (hstep : ∀ l ds, ∀ i < n, step (l, r :: ds) i = .ok (l ++ [g i], ds))
    (rest : List ℕ) :
    run step ([], List.replicate n r ++ rest) (List.range n) = .ok ((List.range n).map g, rest) := by
  induction n generalizing rest with
  | zero => rfl
  | succ n ih =>
    have hlast := hstep ((List.range n).map g) rest n (Nat.lt_succ_self n)
    have hbefore := ih (fun l ds i hi => hstep l ds i (Nat.lt_succ_of_lt hi)) (r :: rest)
    rw [List.range_succ, List.replicate_succ', List.append_assoc, List.map_append]
    exact run_concat.mpr ⟨_, hbefore, hlast⟩

end Rounds

/-! ## Numbers drawn in a range -/

section Draws

variable {min max v : ℤ} {r : ℕ}

/-- A range with an `int` behind every draw. -/
structure Closed (min max : ℤ) : Prop extends Drawable min max where
  least : IsInt min
  greatest : IsInt (min + |max - min + 1| - 1)

theorem drawIn_eq_ok (h : Closed min max) (r : ℕ) :
    drawIn min max r = .ok ((r : ℤ).tmod (max - min + 1) + min) := by
  have hnonneg := Int.tmod_nonneg (max - min + 1) (Int.natCast_nonneg r)
  have hlt := Int.tmod_lt_of_pos (r : ℤ) (abs_pos.mpr h.ne_zero)
  have hleast := h.least
  have hgreatest := h.greatest
  rw [tmod_abs] at hlt
  unfold IsInt at hleast hgreatest
  rw [drawIn_eq h.toDrawable]
  exact if_pos ⟨by omega, by omega⟩

theorem noFault_drawIn (h : Closed min max) (r : ℕ) : NoFault (drawIn min max r) := by
  rw [drawIn_eq_ok h]
  exact noFault_ok _

theorem inInt_ne_outOfDraws {i : ℤ} : inInt i ≠ .error .outOfDraws := by
  unfold inInt
  split_ifs
  · exact ok_ne_error
  · nofun

/-- **A range that cannot be drawn from** ends the run. -/
theorem drawIn_fault (h : ¬ Drawable min max) (r : ℕ) : ¬ NoFault (drawIn min max r) := by
  intro hnf
  have hne : drawIn min max r ≠ .error .outOfDraws := by
    refine bind_ne_error inInt_ne_outOfDraws fun _ _ =>
      bind_ne_error inInt_ne_outOfDraws fun _ _ => ?_
    split_ifs
    · nofun
    · exact inInt_ne_outOfDraws
  cases hdraw : drawIn min max r with
  | ok v => exact h (drawIn_eq_ok_iff.mp hdraw).1
  | error e => exact hne (hnf e hdraw ▸ hdraw)

end Draws

/-! ## Functions -/

section Functions

variable {b v : ℤ} {ds rest : List ℕ}

/-- A range without a number of inputs to choose: the loop draws on and on. -/
theorem drawNumInputs_endless (hb : b = 0 ∨ b = -2) (ds : List ℕ) :
    drawNumInputs (0, b) ds = .error .outOfDraws := by
  induction ds with
  | nil => rfl
  | cons r ds ih =>
    have hzero : drawIn 0 b r = .ok 0 := by
      rw [drawIn_eq_ok_iff]
      rcases hb with rfl | rfl
      · exact ⟨by decide, by simp, by decide⟩
      · exact ⟨by decide, by simp, by decide⟩
    rw [drawNumInputs, hzero, ok_bind, if_pos rfl]
    exact ih

/-- The ranges for numbers of inputs. -/
theorem drawable_inputs (hlo : -2 ^ 31 ≤ b) (hhi : b < 2 ^ 31) :
    Drawable 0 b ↔ b ≠ -1 ∧ b ≠ 2 ^ 31 - 1 := by
  constructor
  · rintro ⟨-, hdivisor, hzero⟩
    unfold IsInt at hdivisor
    omega
  · rintro ⟨h₁, h₂⟩
    refine ⟨?_, ?_, by omega⟩
    · unfold IsInt
      omega
    · unfold IsInt
      omega

theorem closed_inputs (h : Drawable 0 b) : Closed 0 b where
  toDrawable := h
  least := by decide
  greatest := by
    have hdivisor := h.divisor
    have hnonneg := abs_nonneg (b - 0 + 1)
    unfold IsInt at hdivisor ⊢
    rcases abs_choice (b - 0 + 1) with habs | habs <;> omega

theorem noFault_drawNumInputs (h : Drawable 0 b) (ds : List ℕ) :
    NoFault (drawNumInputs (0, b) ds) := by
  induction ds with
  | nil => exact noFault_outOfDraws
  | cons r ds ih =>
    refine (noFault_drawIn (closed_inputs h) r).bind fun v _ => ?_
    split_ifs
    · exact ih
    · exact noFault_ok _

theorem drawNumInputs_bounds (hlo : -2 ^ 31 ≤ b) (h : drawNumInputs (0, b) ds = .ok (v, rest)) :
    1 ≤ v ∧ v + 1 < 2 ^ 31 := by
  induction ds with
  | nil => cases h
  | cons r ds ih =>
    obtain ⟨w, hw, h⟩ := bind_eq_ok.mp h
    split_ifs at h with hzero
    · exact ih h
    · cases h
      have hdivisor := (drawIn_eq_ok_iff.mp hw).1.divisor
      have hbounds : 0 ≤ v ∧ v ≤ 0 + |b - 0 + 1| - 1 := drawIn_bounds hw
      unfold IsInt at hdivisor
      rcases abs_choice (b - 0 + 1) with habs | habs <;> omega

theorem inputSignature_eq_ok (hv : 1 ≤ v) (hlt : v + 1 < 2 ^ 31) :
    ∃ s, inputSignature v = .ok s := by
  have hne : (List.range' 1 v.toNat).flatMap (fun j => operandName (j % 2) ++ [',']) ≠ [] := by
    intro hnil
    have hone := List.flatMap_eq_nil_iff.mp hnil 1 (by rw [List.mem_range'_1]; omega)
    exact absurd hone (by simp)
  rw [inputSignature_eq hv, if_pos hlt, popBack, if_neg hne]
  exact ⟨_, rfl⟩

theorem noFault_generateFuncList (hlo : -2 ^ 31 ≤ b) (h : Drawable 0 b) (n : ℕ) (ds : List ℕ) :
    NoFault (generateFuncList n (0, b) ds) := by
  refine noFault_run (fun q i _ => ?_) _
  refine (noFault_drawNumInputs h q.2).bind fun a ha => ?_
  obtain ⟨hpos, hlt⟩ := drawNumInputs_bounds hlo ha
  obtain ⟨s, hs⟩ := inputSignature_eq_ok hpos hlt
  dsimp only
  rw [hs]
  exact noFault_ok _

/-- The first draw for a function. -/
theorem generateFuncList_fault (h : ¬ Drawable 0 b) {n : ℕ} (hn : 1 ≤ n) (r : ℕ) (ds : List ℕ) :
    ¬ NoFault (generateFuncList n (0, b) (r :: ds)) := by
  obtain ⟨m, hm⟩ := Nat.exists_eq_succ_of_ne_zero (Nat.one_le_iff_ne_zero.mp hn)
  rw [generateFuncList, hm, List.range_succ_eq_map, run, List.foldlM_cons, funcRound, drawNumInputs]
  simp only [bind_assoc]
  exact fun hnf => drawIn_fault h r hnf.of_bind

/-- The functions have inputs. -/
theorem generateFuncList_inputs {n : ℕ} {funcs : List FuncProperties} (hlo : -2 ^ 31 ≤ b)
    (h : generateFuncList n (0, b) ds = .ok (funcs, rest)) :
    funcs.length = n ∧ ∀ f ∈ funcs, 1 ≤ f.numInputs := by
  refine run_range_ok (fun q i q' hq => ?_) h
  obtain ⟨⟨v, ds⟩, hv, hq⟩ := bind_eq_ok.mp hq
  obtain ⟨s, -, hq⟩ := bind_eq_ok.mp hq
  cases hq
  exact ⟨_, rfl, (drawNumInputs_bounds hlo hv).1⟩

end Functions

/-! ## Operands -/

theorem noFault_inputLoop (numData j : ℕ) (s : Str) (ds : List ℕ) :
    NoFault (inputLoop numData j s ds) := by
  fun_induction inputLoop numData j s ds with
  | case1 => exact noFault_ok _
  | case2 => exact noFault_outOfDraws
  | case3 _ _ _ _ _ _ ih => exact ih
  | case4 _ _ _ _ _ _ ih => exact ih

/-- An operand that is written stays. -/
theorem ne_nil_of_inputLoop {numData j : ℕ} {s s' : Str} {ds ds' : List ℕ}
    (hj : s ≠ [] ∨ 1 ≤ j) (h : inputLoop numData j s ds = .ok (s', ds')) : s' ≠ [] := by
  fun_induction inputLoop numData j s ds with
  | case1 =>
    cases h
    exact hj.resolve_right (by omega)
  | case2 => cases h
  | case3 _ _ _ _ _ _ ih => exact ih hj h
  | case4 _ _ _ _ _ _ ih => exact ih (Or.inl (by simp)) h

theorem noFault_generateInputList {v : ℤ} (hv : 1 ≤ v) (numData : ℕ) (ds : List ℕ) :
    NoFault (generateInputList v numData ds) := by
  rw [generateInputList, if_neg (by omega)]
  refine (noFault_inputLoop _ _ _ _).bind fun a ha => ?_
  dsimp only
  rw [popBack, if_neg (ne_nil_of_inputLoop (Or.inr (by omega)) ha)]
  exact noFault_ok _

theorem noFault_generateProvidedData {numData : ℕ} (h : numData + 1 < 2 ^ 31) (ds : List ℕ) :
    NoFault (generateProvidedData numData ds) := by
  have hloop : ∀ i names, NoFault (providedLoop numData i names ds) := by
    induction ds with
    | nil =>
      intro i names
      cases i with
      | zero => exact noFault_ok _
      | succ i => exact noFault_outOfDraws
    | cons r ds ih =>
      intro i names
      cases i with
      | zero => exact noFault_ok _
      | succ i =>
        rw [providedLoop_succ h]
        split_ifs
        · exact ih (i + 1) names
        · exact ih i _
  exact hloop _ _

/-- The first draw for the data: `2 ^ 31 - 1` has no successor of type `int`. -/
theorem generateProvidedData_fault {numData : ℕ} (h : numData + 1 = 2 ^ 31) (r : ℕ) (ds : List ℕ) :
    ¬ NoFault (generateProvidedData numData (r :: ds)) := by
  obtain rfl : numData = 2147483646 + 1 := by omega
  have hrange : ¬ Drawable 0 (asInt (2147483646 + 1)) := by decide
  rw [generateProvidedData, providedLoop]
  exact fun hnf => drawIn_fault hrange r hnf.of_bind

/-! ## Times and frequencies -/

section Times

variable {min max : ℤ} {n : ℕ} {ds rest : List ℕ} {times : List Str}

theorem noFault_times (h : Closed min max) (n : ℕ) (ds : List ℕ) :
    NoFault (run (timeRound min max) ([], ds) (List.range n)) := by
  refine noFault_run (fun q i _ => ?_) _
  refine (noFault_rand q.2).bind fun a _ => ?_
  exact (noFault_drawIn h a.1).bind fun v _ => noFault_ok _

/-- The times are within their range. -/
theorem times_ok (h : run (timeRound min max) ([], ds) (List.range n) = .ok (times, rest)) :
    times.length = n ∧ ∀ s ∈ times, ∃ v, s = toString v ∧ min ≤ v ∧ v ≤ min + |max - min + 1| - 1 := by
  refine run_range_ok (fun q i q' hq => ?_) h
  obtain ⟨⟨r, ds⟩, -, hq⟩ := bind_eq_ok.mp hq
  obtain ⟨v, hv, hq⟩ := bind_eq_ok.mp hq
  cases hq
  exact ⟨_, rfl, v, rfl, drawIn_bounds hv⟩

/-- The first time is not drawn. -/
theorem times_fault (h : ¬ Drawable min max) (hn : 1 ≤ n) (r : ℕ) (ds : List ℕ) :
    ¬ NoFault (run (timeRound min max) ([], r :: ds) (List.range n)) := by
  obtain ⟨n, rfl⟩ := Nat.exists_eq_succ_of_ne_zero (Nat.one_le_iff_ne_zero.mp hn)
  rw [List.range_succ_eq_map, run, List.foldlM_cons, timeRound, rand, ok_bind]
  simp only [bind_assoc]
  exact fun hnf => drawIn_fault h r hnf.of_bind

/-- The same number drawn for every time. -/
theorem times_replicate (h : Closed min max) (n r : ℕ) (rest : List ℕ) :
    run (timeRound min max) ([], List.replicate n r ++ rest) (List.range n) =
      .ok (List.replicate n (toString ((r : ℤ).tmod (max - min + 1) + min)), rest) := by
  have hstep : ∀ l ds, ∀ i < n, timeRound min max (l, r :: ds) i =
      .ok (l ++ [toString ((r : ℤ).tmod (max - min + 1) + min)], ds) := by
    intro l ds i _
    rw [timeRound, rand, ok_bind]
    dsimp only
    rw [drawIn_eq_ok h]
    rfl
  rw [run_replicate hstep rest, List.map_const', List.length_range]

end Times

section Frequencies

variable {funcs : List FuncProperties} {n : ℕ} {ds rest : List ℕ} {freqs : List Str}

theorem freqList_eq_ok (r : ℕ) : ∃ freq, at? freqList (r % 5) = .ok freq := by
  obtain ⟨freq, -, h⟩ := at?_eq_ok (l := freqList) (i := r % 5) (Nat.mod_lt r (by decide))
  exact ⟨freq, h⟩

theorem noFault_generateIntLifetime (hn : n ≤ funcs.length) (ds : List ℕ) :
    NoFault (generateIntLifetime funcs n ds) := by
  refine noFault_run (fun q i hi => ?_) _
  have hlt := lt_of_lt_of_le (List.mem_range.mp hi) hn
  refine (noFault_at? hlt).bind fun _ _ => (noFault_rand q.2).bind fun a _ => ?_
  obtain ⟨freq, hfreq⟩ := freqList_eq_ok a.1
  dsimp only
  rw [hfreq]
  exact noFault_ok _

theorem length_generateIntLifetime (h : generateIntLifetime funcs n ds = .ok (freqs, rest)) :
    freqs.length = n := by
  refine (run_range_ok (P := fun _ => True) (fun q i q' hq => ?_) h).1
  obtain ⟨_, -, hq⟩ := bind_eq_ok.mp hq
  obtain ⟨⟨r, ds⟩, -, hq⟩ := bind_eq_ok.mp hq
  obtain ⟨freq, -, hq⟩ := bind_eq_ok.mp hq
  cases hq
  exact ⟨_, rfl, trivial⟩

end Frequencies

/-! ## Requests -/

section Requests

variable {R : Type} [Zero R] [DecidableEq R] [LE R] [DecidableLE R] {p : GenParams} {t : Tables}
  {dist : ℕ → R}

/-- Tables with an entry for each function and each consumer; every function has inputs. -/
structure Tables.Fit (p : GenParams) (t : Tables) : Prop where
  funcs : t.funcs.length = p.numFunc
  inputs : ∀ f ∈ t.funcs, 1 ≤ f.numInputs
  freqs : t.freqs.length = p.numFunc
  starts : t.starts.length = p.numConsumerNodes
  stops : t.stops.length = p.numConsumerNodes

theorem noFault_request (ht : t.Fit p) {consumer func : ℕ} (hc : consumer < p.numConsumerNodes)
    (hf : func < p.numFunc) (ds : List ℕ) :
    NoFault (request p.numData t consumer func func ds) := by
  obtain ⟨a, ha, hfunc⟩ := at?_eq_ok (ht.funcs.symm ▸ hf)
  rw [request, hfunc, ok_bind]
  refine (noFault_generateInputList (ht.inputs a ha) _ _).bind fun q _ => ?_
  refine (noFault_ok a).bind fun _ _ => ?_
  refine (noFault_at? (ht.freqs.symm ▸ hf)).bind fun _ _ => ?_
  refine (noFault_at? (ht.starts.symm ▸ hc)).bind fun _ _ => ?_
  exact (noFault_at? (ht.stops.symm ▸ hc)).bind fun _ _ => noFault_ok _

omit [Zero R] [DecidableEq R] in
/-- The function that is chosen is one of them. -/
theorem zipfIndex_lt {basis : ℕ} (hb : 1 ≤ basis) (x : R) : zipfIndex dist basis x - 1 < basis := by
  unfold zipfIndex
  cases hfind : (List.range' 1 basis).find? fun i => x ≤ dist i with
  | none => exact hb
  | some i =>
    have hmem := List.mem_range'_1.mp (List.mem_of_find?_eq_some hfind)
    rw [Option.getD_some]
    omega

theorem noFault_zipfRequest (ht : t.Fit p) (hn : 1 ≤ p.numFunc) {consumer : ℕ}
    (hc : consumer < p.numConsumerNodes) (s : GenState R) :
    NoFault (zipfRequest p t dist consumer s) := by
  have huniform : ∀ us : List R, NoFault (uniform us) := by
    intro us
    induction us with
    | nil => exact noFault_outOfDraws
    | cons x us ih =>
      rw [uniform]
      split_ifs
      · exact ih
      · exact noFault_ok _
  have hzipf : NoFault (getNextZipf dist p.numFunc s.uniforms) :=
    (huniform _).bind fun _ _ => noFault_ok _
  refine hzipf.bind fun a ha => ?_
  obtain ⟨⟨x, us⟩, -, ha⟩ := bind_eq_ok.mp ha
  cases ha
  exact (noFault_request ht hc (zipfIndex_lt hn x) _).bind fun _ _ => noFault_ok _

omit [Zero R] [DecidableEq R] [LE R] [DecidableLE R] in
theorem loadedConsumer_divisionByZero (hl : p.nfnLoadDistributionScenario = true)
    (hlt : p.numConsumerNodes < p.t3Nodes) (k loadIndex i : ℕ) :
    loadedConsumer p k loadIndex i = .error .divisionByZero := by
  have hzero : p.numConsumerNodes / p.t3Nodes = 0 := Nat.div_eq_of_lt hlt
  rw [loadedConsumer, if_pos hl, consumersPerNode, if_pos (Or.inr hzero)]
  rfl

/-- **The consumer section** has no fault when there are consumers for each node of the last tier. -/
theorem noFault_allRequests (ht : t.Fit p) (hf : 1 ≤ p.numFunc) (hz : p.zipf = true)
    (hl : p.nfnLoadDistributionScenario = true) (h₃ : 1 ≤ p.t3Nodes)
    (hn : ¬ (2 ≤ p.numConsumerNodes ∧ p.numConsumerNodes < p.t3Nodes)) (s : GenState R) :
    NoFault (allRequests p t dist s) := by
  have hround : ∀ k loadIndex s, ∀ i ∈ List.range (p.numConsumerNodes / 2),
      NoFault (requestRound p t dist k loadIndex s i) := by
    intro k loadIndex s i hi
    have hlt := List.mem_range.mp hi
    have hpos : 1 ≤ p.numConsumerNodes / p.t3Nodes := Nat.div_pos (by omega) h₃
    have hok : loadedConsumer p k loadIndex i = .ok ((i % (p.numConsumerNodes / p.t3Nodes) +
        (if p.zipf then loadIndex else loadIndex * k) * (p.numConsumerNodes / p.t3Nodes)) %
          2 ^ 32) := by
      rw [loadedConsumer, if_pos hl, consumersPerNode, if_neg (by omega)]
      rfl
    rw [requestRound, hok, ok_bind]
    split_ifs with hskip
    · exact noFault_ok s
    · refine noFault_zipfRequest ht hf ?_ s
      rw [hl, Bool.true_and, decide_eq_true_eq] at hskip
      exact Nat.lt_of_not_le hskip
  have hload : ∀ s, ∀ k ∈ List.range 3, NoFault (loadRound p t dist s k) := by
    intro s k _
    refine (noFault_rand s.draws).bind fun a _ => ?_
    exact noFault_run (hround k _) _
  refine (noFault_run hload s).bind fun s _ => ?_
  rw [if_pos hl]
  refine noFault_run (fun s i hi => ?_) s
  rw [usualRound, if_pos hz]
  exact noFault_zipfRequest ht hf (List.mem_range.mp hi) s

/-- With too few consumers the first request divides by zero. -/
theorem allRequests_divisionByZero (hl : p.nfnLoadDistributionScenario = true)
    (hn : 2 ≤ p.numConsumerNodes) (hlt : p.numConsumerNodes < p.t3Nodes) {s : GenState R}
    (hs : s.draws ≠ []) : allRequests p t dist s = .error .divisionByZero := by
  obtain ⟨r, ds, hds⟩ := List.exists_cons_of_ne_nil hs
  have hround : ∀ loadIndex s, run (requestRound p t dist 0 loadIndex) s
      (List.range (p.numConsumerNodes / 2)) = .error .divisionByZero := by
    intro loadIndex s
    obtain ⟨m, hm⟩ := Nat.exists_eq_succ_of_ne_zero (show p.numConsumerNodes / 2 ≠ 0 by omega)
    rw [hm, List.range_succ_eq_map, run, List.foldlM_cons, requestRound,
      loadedConsumer_divisionByZero hl hlt]
    rfl
  have hfirst : loadRound p t dist s 0 = .error .divisionByZero := by
    rw [loadRound, hds, rand, ok_bind]
    exact hround _ _
  have hthree : List.range 3 = [0, 1, 2] := rfl
  rw [allRequests, hthree, run, List.foldlM_cons, hfirst]
  rfl

end Requests

/-! ## Before the first request -/

/-- What `generate_data` has made before the first request, and the draws that are left. -/
structure Prepared (R : Type) where
  router : List Row
  links : List Row
  names : List Str
  tables : Tables
  dist : ℕ → R
  dataDraws : List ℕ
  draws : List ℕ

/-- `generate_data` up to the first request. -/
def prepare {R : Type} (p : GenParams) (dist : ℕ → R) (ds : List ℕ) :
    Except GenFault (Prepared R) := do
  let router ← routerSection p
  let links ← linksSection p
  let (funcs, ds₁) ← generateFuncList p.numFunc p.inputRange ds
  let (names, ds₂) ← generateProvidedData p.numData ds₁
  let (starts, ds₃) ← generateStartTime p.numConsumerNodes p.simTime ds₂
  let (stops, ds₄) ← generateStopTime p.numConsumerNodes p.simTime ds₃
  let dist ← createZipfDist dist p.numFunc
  let (freqs, ds₅) ← generateIntLifetime funcs p.numFunc ds₄
  pure ⟨router, links, names, ⟨funcs, freqs, starts, stops⟩, dist, drawn p.numData ds₁ ds₂, ds₅⟩

/-- The requests come last. -/
theorem generateData_eq {R : Type} [Zero R] [DecidableEq R] [LE R] [DecidableLE R] (p : GenParams)
    (dist : ℕ → R) (ds : List ℕ) (us : List R) :
    generateData p dist ds us = prepare p dist ds >>= fun q =>
      allRequests p q.tables q.dist ⟨q.draws, us, []⟩ >>= fun s => pure
        { router := q.router
          links := q.links
          functions := q.tables.funcs.map FuncProperties.row
          initialStatus := q.tables.funcs.map fun f => [computeName 0, f.name]
          requests := s.requests
          data := dataRows p.numConsumerNodes 0 q.names
          dataDraws := q.dataDraws } := by
  simp [generateData, prepare, bind_assoc]

/-- The divisor of the latitude of node `i`, where it is a quotient. -/
def latitudeDivisor (p : GenParams) (i : ℕ) : Option ℕ :=
  match tier p i with
  | .two => some p.t2Nodes
  | .three => some p.t3Nodes
  | _ => none

/-- **Safe arithmetic.** Whatever is drawn, there is no division by zero, no index outside its vector
and no overflow of an `int`, and every consumer starts before it stops. -/
structure Safe {R : Type} [Zero R] [DecidableEq R] [LE R] [DecidableLE R] (p : GenParams)
    (dist : ℕ → R) : Prop where
  latitude : ∀ i d, latitudeDivisor p i = some d → d ≠ 0
  noFault : ∀ ds us, NoFault (generateData p dist ds us)
  times : ∀ ds q, prepare p dist ds = .ok q → ∀ i < p.numConsumerNodes, ∃ a b : ℤ,
    q.tables.starts[i]? = some (toString a) ∧ q.tables.stops[i]? = some (toString b) ∧ a < b

/-! ## Command lines with safe arithmetic -/

/-- The times are drawn from ranges that are not empty and do not meet: behind an inverted range the
start time is at most `12 - sim_time / 3`. -/
def TimesSound (simTime : ℕ) : Prop := 14 ≤ simTime ∧ simTime ≤ 17 ∨ 21 ≤ simTime

/-- The sections in front of the functions can be written, and either no function ever gets its inputs,
so that the generator does not come to the times, or no divisor is 0, the times are in order and
the sums of the other sections stay within their types. -/
def Sound (c : CommandLine) : Prop :=
  Writable c.params ∧ (c.inputRange = 0 ∨ c.inputRange = -2 ∨
    (c.inputRange ≠ -1 ∧ c.inputRange ≠ 2 ^ 31 - 1 ∧ c.consumerNodes + 1 < 2 ^ 31 ∧
      c.functions + 1 < 2 ^ 32 ∧ TimesSound c.simTime ∧
      ¬ (2 ≤ c.consumerNodes ∧ c.consumerNodes < c.t3Nodes)))

section Sound

variable {R : Type} {c : CommandLine} {dist : ℕ → R} {ds : List ℕ} {q : Prepared R}

/-! ## The ranges of the times -/

theorem generateStartTime_eq (c : CommandLine) (ds : List ℕ) :
    generateStartTime c.params.numConsumerNodes c.params.simTime ds =
      run (timeRound 7 ((c.simTime / 3 : ℕ) : ℤ)) ([], ds) (List.range c.consumerNodes) := by
  have hlt := c.simTime_lt
  have hmax : asInt (c.simTime / 3) = ((c.simTime / 3 : ℕ) : ℤ) := if_pos (by omega)
  show run (timeRound 7 (asInt (c.simTime / 3))) _ _ = _
  rw [hmax]
  rfl

theorem generateStopTime_eq (c : CommandLine) (ds : List ℕ) :
    generateStopTime c.params.numConsumerNodes c.params.simTime ds =
      run (timeRound ((2 * c.simTime / 3 : ℕ) : ℤ) ((c.simTime : ℤ) - 2)) ([], ds)
        (List.range c.consumerNodes) := by
  have hlt := c.simTime_lt
  have hmin : asInt (2 * c.simTime % 2 ^ 32 / 3) = ((2 * c.simTime / 3 : ℕ) : ℤ) := by
    rw [Nat.mod_eq_of_lt (by omega)]
    exact if_pos (by omega)
  have hmax : asInt ((c.simTime + (2 ^ 32 - 2)) % 2 ^ 32) = (c.simTime : ℤ) - 2 := by
    unfold asInt
    split_ifs <;> omega
  show run (timeRound (asInt (2 * c.simTime % 2 ^ 32 / 3))
    (asInt ((c.simTime + (2 ^ 32 - 2)) % 2 ^ 32))) _ _ = _
  rw [hmin, hmax]
  rfl

theorem closed_start (h : ((c.simTime / 3 : ℕ) : ℤ) - 7 + 1 ≠ 0) :
    Closed 7 ((c.simTime / 3 : ℕ) : ℤ) := by
  have hlt := c.simTime_lt
  refine ⟨⟨?_, ?_, h⟩, by decide, ?_⟩
  · unfold IsInt
    omega
  · unfold IsInt
    omega
  · unfold IsInt
    rcases abs_choice (((c.simTime / 3 : ℕ) : ℤ) - 7 + 1) with habs | habs <;> omega

theorem closed_stop (h : (c.simTime : ℤ) - 2 - ((2 * c.simTime / 3 : ℕ) : ℤ) + 1 ≠ 0) :
    Closed ((2 * c.simTime / 3 : ℕ) : ℤ) ((c.simTime : ℤ) - 2) := by
  have hlt := c.simTime_lt
  refine ⟨⟨?_, ?_, h⟩, ?_, ?_⟩
  · unfold IsInt
    omega
  · unfold IsInt
    omega
  · unfold IsInt
    omega
  · unfold IsInt
    rcases abs_choice ((c.simTime : ℤ) - 2 - ((2 * c.simTime / 3 : ℕ) : ℤ) + 1) with habs | habs <;>
      omega

theorem startRange_ne_zero (h : TimesSound c.simTime) : ((c.simTime / 3 : ℕ) : ℤ) - 7 + 1 ≠ 0 := by
  unfold TimesSound at h
  omega

theorem stopRange_ne_zero (h : 4 ≤ c.simTime) :
    (c.simTime : ℤ) - 2 - ((2 * c.simTime / 3 : ℕ) : ℤ) + 1 ≠ 0 := by
  omega

/-! ## The sections before the requests -/

theorem noFault_prepare (hw : ∃ router links, routerSection c.params = .ok router ∧
      linksSection c.params = .ok links)
    (hb : Drawable 0 c.inputRange) (hn : c.consumerNodes + 1 < 2 ^ 31)
    (hf : c.functions + 1 < 2 ^ 32) (ht : TimesSound c.simTime) (ds : List ℕ) :
    NoFault (prepare c.params dist ds) := by
  obtain ⟨router, links, hrouter, hlinks⟩ := hw
  have hstop : 4 ≤ c.simTime := by
    unfold TimesSound at ht
    omega
  have hdist : createZipfDist dist c.params.numFunc = .ok dist :=
    createZipfDist_eq_ok_iff.mpr ⟨by show c.functions < (c.functions + 1) % 2 ^ 32; omega, rfl⟩
  unfold prepare
  rw [hrouter, ok_bind, hlinks, ok_bind]
  refine (noFault_generateFuncList c.le_inputRange hb _ _).bind fun a ha => ?_
  refine (noFault_generateProvidedData hn _).bind ?_
  rintro ⟨names, ds₂⟩ -
  dsimp only
  rw [generateStartTime_eq]
  refine (noFault_times (closed_start (startRange_ne_zero ht)) _ _).bind ?_
  rintro ⟨starts, ds₃⟩ -
  dsimp only
  rw [generateStopTime_eq]
  refine (noFault_times (closed_stop (stopRange_ne_zero hstop)) _ _).bind ?_
  rintro ⟨stops, ds₄⟩ -
  dsimp only
  rw [hdist, ok_bind]
  refine (noFault_generateIntLifetime
    (generateFuncList_inputs c.le_inputRange ha).1.ge _).bind fun _ _ => ?_
  exact noFault_ok _

/-- What is there before the first request. -/
theorem prepare_ok (h : prepare c.params dist ds = .ok q) : q.tables.Fit c.params ∧ q.dist = dist ∧
    (∀ s ∈ q.tables.starts, ∃ v, s = toString v ∧ 7 ≤ v ∧
      v ≤ 7 + |((c.simTime / 3 : ℕ) : ℤ) - 7 + 1| - 1) ∧
    ∀ s ∈ q.tables.stops, ∃ v, s = toString v ∧ ((2 * c.simTime / 3 : ℕ) : ℤ) ≤ v := by
  obtain ⟨router, -, h⟩ := bind_eq_ok.mp h
  obtain ⟨links, -, h⟩ := bind_eq_ok.mp h
  obtain ⟨⟨funcs, ds₁⟩, hfuncs, h⟩ := bind_eq_ok.mp h
  obtain ⟨⟨names, ds₂⟩, -, h⟩ := bind_eq_ok.mp h
  obtain ⟨⟨starts, ds₃⟩, hstarts, h⟩ := bind_eq_ok.mp h
  obtain ⟨⟨stops, ds₄⟩, hstops, h⟩ := bind_eq_ok.mp h
  obtain ⟨dist', hdist, h⟩ := bind_eq_ok.mp h
  obtain ⟨⟨freqs, ds₅⟩, hfreqs, h⟩ := bind_eq_ok.mp h
  cases h
  obtain ⟨-, rfl⟩ := createZipfDist_eq_ok_iff.mp hdist
  obtain ⟨hlen, hinputs⟩ := generateFuncList_inputs c.le_inputRange hfuncs
  rw [generateStartTime_eq] at hstarts
  rw [generateStopTime_eq] at hstops
  obtain ⟨hstartlen, hstart⟩ := times_ok hstarts
  obtain ⟨hstoplen, hstop⟩ := times_ok hstops
  refine ⟨⟨hlen, hinputs, length_generateIntLifetime hfreqs, hstartlen, hstoplen⟩, rfl, hstart, ?_⟩
  intro s hs
  obtain ⟨v, hv, hle, -⟩ := hstop s hs
  exact ⟨v, hv, hle⟩

/-- The loop over the functions does not end. -/
theorem prepare_endless (hw : ∃ router links, routerSection c.params = .ok router ∧
      linksSection c.params = .ok links)
    (hf : 1 ≤ c.functions) (hb : c.inputRange = 0 ∨ c.inputRange = -2) (ds : List ℕ) :
    prepare c.params dist ds = .error .outOfDraws := by
  obtain ⟨router, links, hrouter, hlinks⟩ := hw
  obtain ⟨m, hm⟩ := Nat.exists_eq_succ_of_ne_zero (Nat.one_le_iff_ne_zero.mp hf)
  have hfuncs : generateFuncList c.params.numFunc c.params.inputRange ds = .error .outOfDraws := by
    change generateFuncList c.functions (0, c.inputRange) ds = _
    rw [generateFuncList, hm, List.range_succ_eq_map, run, List.foldlM_cons, funcRound,
      drawNumInputs_endless hb]
    rfl
  unfold prepare
  rw [hrouter, ok_bind, hlinks, ok_bind, hfuncs]
  rfl

/-! ## Streams that show a fault -/

theorem one_tmod {m : ℤ} (hm : 2 ≤ |m|) : (1 : ℤ).tmod m = 1 := by
  have habs : (1 : ℤ).tmod |m| = (1 : ℤ).tmod m := tmod_abs 1 m
  rw [← habs]
  exact Int.tmod_eq_of_lt (by decide) (by omega)

/-- Functions with one input each. -/
theorem generateFuncList_replicate {b : ℤ} (hb : b ≠ 0 ∧ b ≠ -2) (hrange : Drawable 0 b) (n : ℕ)
    (rest : List ℕ) : ∃ funcs, generateFuncList n (0, b) (List.replicate n 1 ++ rest) =
      .ok (funcs, rest) := by
  obtain ⟨signature, hsignature⟩ := inputSignature_eq_ok (le_refl 1) (by decide)
  have hstep : ∀ l ds, ∀ i < n, funcRound (0, b) (l, 1 :: ds) i =
      .ok (l ++ [⟨funcName i, 1, signature⟩], ds) := by
    intro l ds i _
    have hzero := hrange.ne_zero
    have hnonneg := abs_nonneg (b - 0 + 1)
    have hone : drawIn 0 b 1 = .ok 1 := by
      rw [drawIn_eq_ok (closed_inputs hrange), Nat.cast_one, one_tmod]
      · rfl
      · rcases abs_choice (b - 0 + 1) with habs | habs <;> omega
    have hinputs : drawNumInputs (0, b) (1 :: ds) = .ok (1, ds) := by
      rw [drawNumInputs, hone, ok_bind, if_neg (by decide)]
      rfl
    rw [funcRound, hinputs, ok_bind]
    dsimp only
    rw [hsignature]
    rfl
  exact ⟨_, run_replicate hstep rest⟩

/-- The names in their order. -/
theorem providedLoop_range {numData j k : ℕ} (hlt : numData + 1 < 2 ^ 31) (hle : k + j ≤ numData + 1)
    (rest : List ℕ) :
    providedLoop numData j ((List.range k).map operandName) (List.range' k j ++ rest) =
      .ok ((List.range (k + j)).map operandName, rest) := by
  induction j generalizing k with
  | zero => rw [providedLoop, List.range'_zero, List.nil_append, Nat.add_zero]
  | succ j ih =>
    have hmod : k % (numData + 1) = k := Nat.mod_eq_of_lt (by omega)
    have hnew : operandName k ∉ (List.range k).map operandName := by
      intro hmem
      obtain ⟨i, hi, heq⟩ := List.mem_map.mp hmem
      rw [operandName_injective heq] at hi
      exact absurd (List.mem_range.mp hi) (lt_irrefl k)
    rw [List.range'_succ, List.cons_append, providedLoop_succ hlt, hmod, if_neg hnew,
      ← List.map_singleton, ← List.map_append, ← List.range_succ, ih (by omega),
      Nat.succ_add_eq_add_succ]

theorem generateIntLifetime_replicate {funcs : List FuncProperties} {n : ℕ}
    (hn : n ≤ funcs.length) (rest : List ℕ) :
    ∃ freqs, generateIntLifetime funcs n (List.replicate n 0 ++ rest) = .ok (freqs, rest) := by
  obtain ⟨freq, hfreq⟩ := freqList_eq_ok 0
  have hstep : ∀ l ds, ∀ i < n, lifetimeRound funcs (l, 0 :: ds) i =
      .ok (l ++ [freq], ds) := by
    intro l ds i hi
    obtain ⟨f, -, hf⟩ := at?_eq_ok (lt_of_lt_of_le hi hn)
    rw [lifetimeRound, hf, ok_bind, rand, ok_bind]
    dsimp only
    rw [hfreq]
    rfl
  exact ⟨_, run_replicate hstep rest⟩

theorem generateStartTime_replicate (hstart : ((c.simTime / 3 : ℕ) : ℤ) - 7 + 1 ≠ 0) (r : ℕ)
    (rest : List ℕ) : generateStartTime c.params.numConsumerNodes c.params.simTime
      (List.replicate c.consumerNodes r ++ rest) =
        .ok (List.replicate c.consumerNodes
          (toString ((r : ℤ).tmod (((c.simTime / 3 : ℕ) : ℤ) - 7 + 1) + 7)), rest) := by
  rw [generateStartTime_eq]
  exact times_replicate (closed_start hstart) c.consumerNodes r rest

theorem generateStopTime_replicate
    (hstop : (c.simTime : ℤ) - 2 - ((2 * c.simTime / 3 : ℕ) : ℤ) + 1 ≠ 0) (rest : List ℕ) :
    generateStopTime c.params.numConsumerNodes c.params.simTime
      (List.replicate c.consumerNodes 0 ++ rest) =
        .ok (List.replicate c.consumerNodes (toString ((2 * c.simTime / 3 : ℕ) : ℤ)), rest) := by
  have h := times_replicate (closed_stop hstop) c.consumerNodes 0 rest
  rw [Nat.cast_zero, Int.zero_tmod, Int.zero_add] at h
  rw [generateStopTime_eq]
  exact h

/-- The functions and the names can be drawn. -/
structure Begun (c : CommandLine) : Prop where
  written : ∃ router links, routerSection c.params = .ok router ∧ linksSection c.params = .ok links
  inputs : c.inputRange ≠ 0 ∧ c.inputRange ≠ -2
  range : Drawable 0 c.inputRange

/-- What is left of `prepare` behind the functions, on a stream that goes on with `rest`. -/
theorem Begun.exists_funcs (h : Begun c) (dist : ℕ → R) (rest : List ℕ) : ∃ ds funcs router links,
    funcs.length = c.functions ∧ prepare c.params dist ds =
      generateProvidedData c.consumerNodes rest >>= fun names =>
        generateStartTime c.params.numConsumerNodes c.params.simTime names.2 >>= fun a =>
          generateStopTime c.params.numConsumerNodes c.params.simTime a.2 >>= fun b =>
            createZipfDist dist c.functions >>= fun dist =>
              generateIntLifetime funcs c.functions b.2 >>= fun d =>
                .ok ⟨router, links, names.1, ⟨funcs, d.1, a.1, b.1⟩, dist,
                  drawn c.consumerNodes rest names.2, d.2⟩ := by
  obtain ⟨router, links, hrouter, hlinks⟩ := h.written
  obtain ⟨funcs, hfuncs⟩ := generateFuncList_replicate h.inputs h.range c.functions rest
  refine ⟨List.replicate c.functions 1 ++ rest, funcs, router, links,
    (generateFuncList_inputs c.le_inputRange hfuncs).1, ?_⟩
  unfold prepare
  rw [hrouter, ok_bind, hlinks, ok_bind]
  change generateFuncList c.functions (0, c.inputRange) _ >>= _ = _
  rw [hfuncs, ok_bind]
  rfl

/-- What is left behind the names. -/
theorem Begun.exists_names (h : Begun c) (dist : ℕ → R) (hlt : c.consumerNodes + 1 < 2 ^ 31)
    (rest : List ℕ) :
    ∃ ds funcs router links names dataDraws,
    funcs.length = c.functions ∧ prepare c.params dist ds =
      generateStartTime c.params.numConsumerNodes c.params.simTime rest >>= fun a =>
        generateStopTime c.params.numConsumerNodes c.params.simTime a.2 >>= fun b =>
          createZipfDist dist c.functions >>= fun dist =>
            generateIntLifetime funcs c.functions b.2 >>= fun d =>
              .ok ⟨router, links, names, ⟨funcs, d.1, a.1, b.1⟩, dist, dataDraws, d.2⟩ := by
  have hnames : generateProvidedData c.consumerNodes (List.range' 0 c.consumerNodes ++ rest) = _ :=
    providedLoop_range (k := 0) hlt (by omega) rest
  obtain ⟨ds, funcs, router, links, hlen, hq⟩ :=
    h.exists_funcs dist (List.range' 0 c.consumerNodes ++ rest)
  rw [hnames, ok_bind] at hq
  exact ⟨ds, funcs, router, links, _, _, hlen, hq⟩

/-- The times are drawn, and the stream goes on with `rest`. -/
theorem Begun.exists_prepare_ok (h : Begun c) (dist : ℕ → R)
    (hlt : c.consumerNodes + 1 < 2 ^ 31) (hzipf : c.functions + 1 < 2 ^ 32)
    (hstart : ((c.simTime / 3 : ℕ) : ℤ) - 7 + 1 ≠ 0)
    (hstop : (c.simTime : ℤ) - 2 - ((2 * c.simTime / 3 : ℕ) : ℤ) + 1 ≠ 0) (r : ℕ) (rest : List ℕ) :
    ∃ ds q, prepare c.params dist ds = .ok q ∧ q.draws = rest ∧
      q.tables.starts = List.replicate c.consumerNodes
        (toString ((r : ℤ).tmod (((c.simTime / 3 : ℕ) : ℤ) - 7 + 1) + 7)) ∧
      q.tables.stops = List.replicate c.consumerNodes (toString ((2 * c.simTime / 3 : ℕ) : ℤ)) := by
  obtain ⟨ds, funcs, router, links, names, dataDraws, hlen, hq⟩ :=
    h.exists_names dist hlt (List.replicate c.consumerNodes r ++
      (List.replicate c.consumerNodes 0 ++ (List.replicate c.functions 0 ++ rest)))
  obtain ⟨freqs, hfreqs⟩ := generateIntLifetime_replicate hlen.ge rest
  have hdist : createZipfDist dist c.functions = .ok dist :=
    createZipfDist_eq_ok_iff.mpr ⟨by omega, rfl⟩
  rw [generateStartTime_replicate hstart, ok_bind, generateStopTime_replicate hstop, ok_bind, hdist,
    ok_bind, hfreqs, ok_bind] at hq
  exact ⟨ds, _, hq, rfl, rfl, rfl⟩

theorem linksSection_ne_outOfDraws {p : GenParams} : linksSection p ≠ .error .outOfDraws := by
  refine bind_ne_error ?_ fun _ _ => bind_ne_error ?_ fun _ _ => ok_ne_error
  · rw [computeLinks_eq]
    split_ifs
    · exact ok_ne_error
    · exact ok_ne_error
    · simp
  · by_cases h₃ : p.t3Nodes = 0
    · rw [consumerLinks, if_pos h₃]
      simp
    · rw [consumerLinks_eq (by omega)]
      split_ifs
      · exact ok_ne_error
      · simp

/-! ## Both directions -/

variable [Zero R] [DecidableEq R] [LE R] [DecidableLE R]

/-- **Sound command lines are safe.** -/
theorem safe_of_sound (hn : 1 ≤ c.consumerNodes) (h₂ : 1 ≤ c.t2Nodes) (h₃ : 1 ≤ c.t3Nodes)
    (hf : 1 ≤ c.functions) (hc : Sound c) : Safe c.params dist := by
  obtain ⟨hw, hc⟩ := hc
  have hw := (writable_iff (p := c.params) hn h₃).mp hw
  refine ⟨fun i d hd => ?_, fun ds us => ?_, fun ds q hq i hi => ?_⟩
  · unfold latitudeDivisor at hd
    split at hd
    · cases hd
      exact Nat.one_le_iff_ne_zero.mp h₂
    · cases hd
      exact Nat.one_le_iff_ne_zero.mp h₃
    · cases hd
  · rw [generateData_eq]
    rcases hc with hb | hb | ⟨hb₁, hb₂, hdata, hzipf, ht, hload⟩
    · rw [prepare_endless hw hf (Or.inl hb)]
      exact noFault_outOfDraws
    · rw [prepare_endless hw hf (Or.inr hb)]
      exact noFault_outOfDraws
    · have hb := (drawable_inputs c.le_inputRange c.inputRange_lt).mpr ⟨hb₁, hb₂⟩
      refine (noFault_prepare hw hb hdata hzipf ht ds).bind fun q hq => ?_
      have hfit := (prepare_ok hq).1
      exact (noFault_allRequests hfit hf rfl rfl h₃ hload _).bind fun s _ => noFault_ok _
  · rcases hc with hb | hb | ⟨-, -, -, -, ht, -⟩
    · rw [prepare_endless hw hf (Or.inl hb)] at hq
      cases hq
    · rw [prepare_endless hw hf (Or.inr hb)] at hq
      cases hq
    · obtain ⟨hfit, -, hstarts, hstops⟩ := prepare_ok hq
      have hi₁ : i < q.tables.starts.length := hfit.starts ▸ hi
      have hi₂ : i < q.tables.stops.length := hfit.stops ▸ hi
      obtain ⟨a, ha, -, hle⟩ := hstarts _ (List.getElem_mem hi₁)
      obtain ⟨b, hb, hge⟩ := hstops _ (List.getElem_mem hi₂)
      refine ⟨a, b, ?_, ?_, ?_⟩
      · rw [List.getElem?_eq_getElem hi₁, ha]
      · rw [List.getElem?_eq_getElem hi₂, hb]
      · unfold TimesSound at ht
        have hnonneg := abs_nonneg (((c.simTime / 3 : ℕ) : ℤ) - 7 + 1)
        rcases abs_choice (((c.simTime / 3 : ℕ) : ℤ) - 7 + 1) with habs | habs <;> omega

/-- Safe command lines have no fault before the first request. -/
theorem Safe.noFault_prepare (hs : Safe c.params dist) (ds : List ℕ) :
    NoFault (prepare c.params dist ds) := by
  have h := hs.noFault ds []
  rw [generateData_eq] at h
  exact h.of_bind

/-- The sections in front of the functions are written. -/
theorem Safe.written (hs : Safe c.params dist) :
    ∃ router links, routerSection c.params = .ok router ∧ linksSection c.params = .ok links := by
  have h := hs.noFault_prepare []
  unfold prepare at h
  cases hrouter : routerSection c.params with
  | error e =>
    have he := h e (by rw [hrouter]; rfl)
    rw [routerSection_eq] at hrouter
    split_ifs at hrouter
    cases hrouter
    cases he
  | ok router =>
    cases hlinks : linksSection c.params with
    | error e =>
      have he := h e (by rw [hrouter, ok_bind, hlinks]; rfl)
      subst he
      exact absurd hlinks linksSection_ne_outOfDraws
    | ok links => exact ⟨router, links, rfl, rfl⟩

/-- The latest start time is before the earliest stop time. -/
theorem Safe.times_lt (hs : Safe c.params dist) (h : Begun c) (hn : 1 ≤ c.consumerNodes)
    (hlt : c.consumerNodes + 1 < 2 ^ 31) (hzipf : c.functions + 1 < 2 ^ 32)
    (hstart : ((c.simTime / 3 : ℕ) : ℤ) - 7 + 1 ≠ 0)
    (hstop : (c.simTime : ℤ) - 2 - ((2 * c.simTime / 3 : ℕ) : ℤ) + 1 ≠ 0) :
    |((c.simTime / 3 : ℕ) : ℤ) - 7 + 1| - 1 + 7 < ((2 * c.simTime / 3 : ℕ) : ℤ) := by
  have hpos := abs_pos.mpr hstart
  obtain ⟨r, hr⟩ := Int.eq_ofNat_of_zero_le (show 0 ≤ |((c.simTime / 3 : ℕ) : ℤ) - 7 + 1| - 1 by omega)
  have htmod : (r : ℤ).tmod (((c.simTime / 3 : ℕ) : ℤ) - 7 + 1) = r := by
    rw [← tmod_abs]
    exact Int.tmod_eq_of_lt (Int.natCast_nonneg r) (by omega)
  obtain ⟨ds, q, hq, -, hstarts, hstops⟩ :=
    h.exists_prepare_ok dist hlt hzipf hstart hstop r []
  obtain ⟨a, b, ha, hb', hlt⟩ := hs.times ds q hq 0 hn
  have hfirst : 0 < c.consumerNodes := hn
  rw [hstarts, List.getElem?_replicate, if_pos hfirst, htmod] at ha
  rw [hstops, List.getElem?_replicate, if_pos hfirst] at hb'
  rw [hr, toString_injective (Option.some.inj ha), toString_injective (Option.some.inj hb')]
  exact hlt

/-- The range of the numbers of inputs can be drawn from. -/
theorem Safe.drawable (hs : Safe c.params dist) (hf : 1 ≤ c.functions)
    (hw : ∃ router links, routerSection c.params = .ok router ∧ linksSection c.params = .ok links) :
    Drawable 0 c.inputRange := by
  by_contra hrange
  obtain ⟨router, links, hrouter, hlinks⟩ := hw
  have h := hs.noFault_prepare [0]
  unfold prepare at h
  rw [hrouter, ok_bind, hlinks, ok_bind] at h
  exact generateFuncList_fault hrange hf 0 [] h.of_bind

/-- **Safe command lines are sound.** -/
theorem sound_of_safe (h₃ : 1 ≤ c.t3Nodes) (hn : 1 ≤ c.consumerNodes) (hf : 1 ≤ c.functions)
    (hsim : 1 ≤ c.simTime) (hs : Safe c.params dist) : Sound c := by
  have hw := hs.written
  have hwritable := (writable_iff (p := c.params) hn h₃).mpr hw
  have hcount : c.consumerNodes < 2 ^ 31 := hwritable.counters.1
  refine ⟨hwritable, ?_⟩
  by_cases hb₀ : c.inputRange = 0
  · exact Or.inl hb₀
  by_cases hb₂ : c.inputRange = -2
  · exact Or.inr (Or.inl hb₂)
  have hrange := hs.drawable hf hw
  have hb := (drawable_inputs c.le_inputRange c.inputRange_lt).mp hrange
  have hbegun : Begun c := ⟨hw, ⟨hb₀, hb₂⟩, hrange⟩
  have hdata : c.consumerNodes + 1 < 2 ^ 31 := by
    by_contra hge
    obtain ⟨ds, funcs, router, links, -, hq⟩ := hbegun.exists_funcs dist [0]
    have h := hs.noFault_prepare ds
    rw [hq] at h
    exact generateProvidedData_fault (by omega) 0 [] h.of_bind
  have hstart : ((c.simTime / 3 : ℕ) : ℤ) - 7 + 1 ≠ 0 := by
    intro hzero
    obtain ⟨ds, funcs, router, links, names, dataDraws, -, hq⟩ :=
      hbegun.exists_names dist hdata [0]
    have h := hs.noFault_prepare ds
    rw [hq, generateStartTime_eq] at h
    exact times_fault (fun hd => hd.ne_zero hzero) hn 0 [] h.of_bind
  have hstop : (c.simTime : ℤ) - 2 - ((2 * c.simTime / 3 : ℕ) : ℤ) + 1 ≠ 0 := by
    intro hzero
    obtain ⟨ds, funcs, router, links, names, dataDraws, -, hq⟩ :=
      hbegun.exists_names dist hdata (List.replicate c.consumerNodes 0 ++ [0])
    have h := hs.noFault_prepare ds
    rw [hq, generateStartTime_replicate hstart, ok_bind, generateStopTime_eq] at h
    exact times_fault (fun hd => hd.ne_zero hzero) hn 0 [] h.of_bind
  have hzipf : c.functions + 1 < 2 ^ 32 := by
    by_contra hge
    have hlt := c.functions_lt
    have hdist : createZipfDist dist c.functions = .error .outOfRange := if_pos (by omega)
    obtain ⟨ds, funcs, router, links, names, dataDraws, -, hq⟩ := hbegun.exists_names dist
      hdata (List.replicate c.consumerNodes 0 ++ (List.replicate c.consumerNodes 0 ++ []))
    have h := hs.noFault_prepare ds
    rw [hq, generateStartTime_replicate hstart, ok_bind, generateStopTime_replicate hstop, ok_bind,
      hdist] at h
    cases h _ rfl
  refine Or.inr (Or.inr ⟨hb.1, hb.2, hdata, hzipf, ?_, ?_⟩)
  · have hlt := hs.times_lt hbegun hn hdata hzipf hstart hstop
    have hle := neg_le_abs (((c.simTime / 3 : ℕ) : ℤ) - 7 + 1)
    unfold TimesSound
    omega
  · rintro ⟨htwo, hlt⟩
    obtain ⟨ds, q, hq, hdraws, -, -⟩ :=
      hbegun.exists_prepare_ok dist hdata hzipf hstart hstop 0 [0]
    have hfault : generateData c.params dist ds [] = .error .divisionByZero := by
      rw [generateData_eq, hq, ok_bind, allRequests_divisionByZero rfl htwo hlt]
      · rfl
      · rw [hdraws]
        exact List.cons_ne_nil _ _
    cases hs.noFault ds [] _ hfault

end Sound

end DataGen

open DataGen

/-- **The arithmetic of the generator** is safe exactly on the sound command lines. -/
theorem arithmetic_safe_iff {R : Type} [Zero R] [DecidableEq R] [LE R] [DecidableLE R]
    (c : CommandLine) (dist : ℕ → R) (hn : 1 ≤ c.consumerNodes) (h₂ : 1 ≤ c.t2Nodes)
    (h₃ : 1 ≤ c.t3Nodes) (hf : 1 ≤ c.functions) (hsim : 1 ≤ c.simTime) :
    Safe c.params dist ↔ Sound c :=
  ⟨sound_of_safe h₃ hn hf hsim, safe_of_sound hn h₂ h₃ hf⟩

/-- Options with input range 2, the default. -/
def CommandLine.ofOptions (n t1 t2 t3 functions : UInt32) (simTime : Int32) : CommandLine :=
  { consumerNodes := n.toNat, t1Nodes := t1.toNat, t2Nodes := t2.toNat, t3Nodes := t3.toNat
    cloudConfig := 1, functions := functions.toNat, inputRange := (2 : Int32).toInt
    simTime := simTime.toNatClampNeg
    consumers_lt := n.toNat_lt, t1_lt := t1.toNat_lt, t2_lt := t2.toNat_lt, t3_lt := t3.toNat_lt
    functions_lt := functions.toNat_lt, le_inputRange := Int32.le_toInt 2
    inputRange_lt := Int32.toInt_lt 2, simTime_lt := simTime.toNatClampNeg_lt }

/-- The defaults of the scenario. -/
def defaultCommandLine : CommandLine := .ofOptions 20 1 2 4 80 200

theorem arithmetic_safe_default : Safe defaultCommandLine.params (fun i => i : ℕ → ℕ) :=
  (arithmetic_safe_iff defaultCommandLine _ (by decide) (by decide) (by decide) (by decide)
    (by decide)).mpr ⟨⟨by decide, by decide⟩,
      Or.inr (Or.inr ⟨by decide, by decide, by decide, by decide, Or.inr (by decide), by decide⟩)⟩

/-- One node in each tier, one consumer, one function, and a simulation of 18 s. -/
def shortSimulation : CommandLine := .ofOptions 1 1 1 1 1 18

/-- The start time is drawn modulo 0. -/
theorem shortSimulation_divisionByZero :
    generateData shortSimulation.params (fun i => i : ℕ → ℕ) [1, 0, 0] [] =
        .error .divisionByZero ∧
      ¬ Safe shortSimulation.params (fun i => i : ℕ → ℕ) := by
  have hfault : generateData shortSimulation.params (fun i => i : ℕ → ℕ) [1, 0, 0] [] =
      .error .divisionByZero := rfl
  refine ⟨hfault, fun hs => ?_⟩
  cases hs.noFault _ _ _ hfault

end IncSim
