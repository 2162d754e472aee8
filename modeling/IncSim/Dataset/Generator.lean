import IncSim.Dataset.Hierarchy
import IncSim.Lib.Draws

/-!
# The topology generator

The sections of the topology file that `DataGen::generate_data` fills at random: functions, consumer
requests and provided data. The results of `rand ()` come from a list, those of the uniform random
variable from another; a run that needs more draws than there are does not finish.

* `IsInt`, `drawIn`, `Drawable`: a draw from a range, by arithmetic of type `int`.
* `generateFuncList`, `generateInputList`, `generateProvidedData`, `generateStartTime`,
  `generateStopTime`, `generateIntLifetime`: the loops that draw.
* `lt_of_generateProvidedData`: how large `num_data` is where the provided data have been drawn.
* `createZipfDist`, `getNextZipf`: the choice of a function; the probabilities are a parameter.
* `Request`, `requestRound`, `allRequests`: the consumer section; `NoRequests`, `requests_eq_nil_iff`:
  when it is empty.
* `Dataset`, `generateData`, `Dataset.lines`: the whole file.
-/

namespace IncSim

open PartialRun

namespace DataGen

/-! ## Draws -/

/-- `std::vector::at`. -/
def at? {α : Type} (l : List α) (i : ℕ) : Except GenFault α :=
  match l[i]? with
  | some a => .ok a
  | none => .error .outOfRange

/-- A value of type `int`. -/
def IsInt (i : ℤ) : Prop := -2 ^ 31 ≤ i ∧ i < 2 ^ 31

instance (i : ℤ) : Decidable (IsInt i) := inferInstanceAs (Decidable (_ ∧ _))

/-- A result of `int` arithmetic. -/
def inInt (i : ℤ) : Except GenFault ℤ := if IsInt i then .ok i else .error .signedOverflow

/-- A `uint32_t` as an `int`. -/
def asInt (n : ℕ) : ℤ := if n < 2 ^ 31 then n else n - 2 ^ 32

/-- `rand () % (max - min + 1) + min`. -/
def drawIn (min max : ℤ) (r : ℕ) : Except GenFault ℤ := do
  let difference ← inInt (max - min)
  let divisor ← inInt (difference + 1)
  if divisor = 0 then .error .divisionByZero else inInt ((r : ℤ).tmod divisor + min)

def rand : List ℕ → Except GenFault (ℕ × List ℕ)
  | [] => .error .outOfDraws
  | r :: ds => .ok (r, ds)

/-- `std::to_string` of an `int`. -/
def toString (i : ℤ) : Str := if i < 0 then '-' :: Text.decimal i.natAbs else Text.decimal i.natAbs

/-- `std::string::pop_back`, undefined on the empty string. -/
def popBack (s : Str) : Except GenFault Str := if s = [] then .error .outOfRange else .ok s.dropLast

def operandName (v : ℕ) : Str := "Operand_".toList ++ Text.decimal v

def funcName (i : ℕ) : Str := "func-".toList ++ Text.decimal i

theorem inInt_eq_ok_iff {i v : ℤ} : inInt i = .ok v ↔ IsInt i ∧ v = i := by
  unfold inInt
  split_ifs with h
  · rw [Except.ok.injEq, and_iff_right h, eq_comm]
  · exact iff_of_false nofun fun hv => h hv.1

/-- A range from which `int` arithmetic draws. -/
structure Drawable (min max : ℤ) : Prop where
  difference : IsInt (max - min)
  divisor : IsInt (max - min + 1)
  ne_zero : max - min + 1 ≠ 0

instance (min max : ℤ) : Decidable (Drawable min max) :=
  decidable_of_iff (IsInt (max - min) ∧ IsInt (max - min + 1) ∧ max - min + 1 ≠ 0)
    ⟨fun h => ⟨h.1, h.2.1, h.2.2⟩, fun h => ⟨h.1, h.2, h.3⟩⟩

/-- **A draw.** -/
theorem drawIn_eq {min max : ℤ} (h : Drawable min max) (r : ℕ) :
    drawIn min max r = inInt ((r : ℤ).tmod (max - min + 1) + min) := by
  have hdifference : inInt (max - min) = .ok (max - min) := if_pos h.difference
  have hdivisor : inInt (max - min + 1) = .ok (max - min + 1) := if_pos h.divisor
  rw [drawIn, hdifference, ok_bind, hdivisor, ok_bind, if_neg h.ne_zero]

theorem drawIn_eq_ok_iff {min max v : ℤ} {r : ℕ} : drawIn min max r = .ok v ↔
    Drawable min max ∧ v = (r : ℤ).tmod (max - min + 1) + min ∧ IsInt v := by
  constructor
  · intro h
    obtain ⟨_, hx, h⟩ := bind_eq_ok.mp h
    obtain ⟨hdifference, rfl⟩ := inInt_eq_ok_iff.mp hx
    obtain ⟨_, hx, h⟩ := bind_eq_ok.mp h
    obtain ⟨hdivisor, rfl⟩ := inInt_eq_ok_iff.mp hx
    split_ifs at h with hzero
    obtain ⟨hv, rfl⟩ := inInt_eq_ok_iff.mp h
    exact ⟨⟨hdifference, hdivisor, hzero⟩, rfl, hv⟩
  · rintro ⟨hrange, rfl, hv⟩
    rw [drawIn_eq hrange]
    exact if_pos hv

/-- The sign of the divisor does not count. -/
theorem tmod_abs (a m : ℤ) : a.tmod |m| = a.tmod m := by
  rcases abs_choice m with h | h
  · rw [h]
  · rw [h, Int.tmod_neg]

theorem drawIn_bounds {min max v : ℤ} {r : ℕ} (h : drawIn min max r = .ok v) :
    min ≤ v ∧ v ≤ min + |max - min + 1| - 1 := by
  obtain ⟨hrange, rfl, -⟩ := drawIn_eq_ok_iff.mp h
  have hnonneg := Int.tmod_nonneg (max - min + 1) (Int.natCast_nonneg r)
  have hlt := Int.tmod_lt_of_pos (r : ℤ) (abs_pos.mpr hrange.ne_zero)
  rw [tmod_abs] at hlt
  omega

/-- A drawn number that is not negative is written as a number. -/
theorem toString_natCast (n : ℕ) : toString (n : ℤ) = Text.decimal n := by
  unfold toString
  rw [if_neg (by omega), Int.natAbs_natCast]

theorem operandName_injective : Function.Injective operandName :=
  fun _ _ h => decimal_injective (List.append_cancel_left h)

/-! ## Functions -/

/-- `funcProperties`, the members that differ between functions. -/
structure FuncProperties where
  name : Str
  numInputs : ℤ
  inputSignature : Str

/-- The number of inputs: drawn again while it is 0. -/
def drawNumInputs (range : ℤ × ℤ) : List ℕ → Except GenFault (ℤ × List ℕ)
  | [] => .error .outOfDraws
  | r :: ds => do
    let v ← drawIn range.1 range.2 r
    if v = 0 then drawNumInputs range ds else pure (v, ds)

/-- The signature of a function: its operands, counted modulo 2 by an `int`. -/
def inputSignature (numInputs : ℤ) : Except GenFault Str :=
  if numInputs = 0 then .ok "null".toList
  else do
    let operands ← (List.range' 1 numInputs.toNat).mapM fun j => do
      let _ ← incr j
      pure (operandName (j % 2) ++ [','])
    popBack operands.flatten

/-- Round `i` of the loop of `generate_func_list`. -/
def funcRound (range : ℤ × ℤ) (q : List FuncProperties × List ℕ) (i : ℕ) :
    Except GenFault (List FuncProperties × List ℕ) := do
  let (numInputs, ds) ← drawNumInputs range q.2
  let signature ← inputSignature numInputs
  pure (q.1 ++ [⟨funcName i, numInputs, signature⟩], ds)

def generateFuncList (numFunc : ℕ) (range : ℤ × ℤ) (ds : List ℕ) :
    Except GenFault (List FuncProperties × List ℕ) :=
  run (funcRound range) ([], ds) (List.range numFunc)

theorem drawNumInputs_ok {range : ℤ × ℤ} {ds rest : List ℕ} {v : ℤ} (ha : 0 ≤ range.1)
    (hab : range.1 ≤ range.2) (h : drawNumInputs range ds = .ok (v, rest)) :
    1 ≤ v ∧ v ≤ range.2 := by
  induction ds with
  | nil => cases h
  | cons r ds ih =>
    rw [drawNumInputs] at h
    obtain ⟨w, hw, h⟩ := bind_eq_ok.mp h
    split_ifs at h with hzero
    · exact ih h
    · cases h
      have hbounds := drawIn_bounds hw
      have habs : |range.2 - range.1 + 1| = range.2 - range.1 + 1 := abs_of_pos (by omega)
      rw [habs] at hbounds
      omega

/-- The signature of a function with inputs; their counter must not overflow. -/
theorem inputSignature_eq {n : ℤ} (hn : 1 ≤ n) : inputSignature n =
    if n + 1 < 2 ^ 31 then
      popBack ((List.range' 1 n.toNat).flatMap fun j => operandName (j % 2) ++ [','])
    else .error .signedOverflow := by
  have hround : ∀ j, (incr j >>= fun _ => pure (operandName (j % 2) ++ [','])) =
      if j + 1 < 2 ^ 31 then .ok (operandName (j % 2) ++ [',']) else .error .signedOverflow := by
    intro j
    unfold incr
    split_ifs <;> rfl
  unfold inputSignature
  rw [if_neg (by omega), mapM_eq_ite hround]
  by_cases hlt : n + 1 < 2 ^ 31
  · have hall : ∀ j ∈ List.range' 1 n.toNat, j + 1 < 2 ^ 31 := by
      intro j hj
      rw [List.mem_range'_1] at hj
      omega
    rw [if_pos hall, if_pos hlt, ok_bind, List.flatMap_def]
  · have hnot : ¬ ∀ j ∈ List.range' 1 n.toNat, j + 1 < 2 ^ 31 := by
      intro h
      have hlast := h n.toNat (List.mem_range'_1.mpr (by omega))
      omega
    rw [if_neg hnot, if_neg hlt]
    rfl

/-- **The functions**: their names are numbered, and a signature has as many operands as inputs. -/
theorem generateFuncList_ok {numFunc : ℕ} {range : ℤ × ℤ} {ds rest : List ℕ}
    {funcs : List FuncProperties} (ha : 0 ≤ range.1) (hab : range.1 ≤ range.2)
    (h : generateFuncList numFunc range ds = .ok (funcs, rest)) :
    funcs.length = numFunc ∧ ∀ i f, funcs[i]? = some f → f.name = funcName i ∧
      inputSignature f.numInputs = .ok f.inputSignature ∧ 1 ≤ f.numInputs ∧ f.numInputs ≤ range.2 := by
  unfold generateFuncList at h
  induction numFunc generalizing funcs rest with
  | zero =>
    cases h
    exact ⟨rfl, fun i f hf => absurd hf (by simp)⟩
  | succ n ih =>
    rw [List.range_succ] at h
    obtain ⟨⟨funcs', ds'⟩, h', hround⟩ := run_concat.mp h
    obtain ⟨hlen, hfuncs⟩ := ih h'
    obtain ⟨⟨v, ds₁⟩, hv, hround⟩ := bind_eq_ok.mp hround
    obtain ⟨signature, hsignature, hround⟩ := bind_eq_ok.mp hround
    cases hround
    refine ⟨by rw [List.length_append, hlen]; rfl, fun i f hf => ?_⟩
    rw [List.getElem?_append] at hf
    split_ifs at hf with hi
    · exact hfuncs i f hf
    · rw [hlen] at hi hf
      obtain ⟨hlt, -⟩ := List.getElem?_eq_some_iff.mp hf
      rw [List.length_singleton] at hlt
      obtain rfl : i = n := by omega
      obtain rfl := List.mem_singleton.mp (List.mem_of_getElem? hf)
      exact ⟨rfl, hsignature, drawNumInputs_ok ha hab hv⟩

/-! ## Operands of a request -/

/-- The loop of `generate_input_list` with `j` inputs to go: an operand is drawn again while it
occurs in the list so far. -/
-- Its `int`s stay in range: the loops of the functions and of the provided data have ended before, so
-- that the inputs could be counted and `num_data` has a successor.
def inputLoop (numData : ℕ) : ℕ → Str → List ℕ → Except GenFault (Str × List ℕ)
  | 0, s, ds => .ok (s, ds)
  | _ + 1, _, [] => .error .outOfDraws
  | j + 1, s, r :: ds =>
    let operand := operandName (r % (numData + 1))
    if (Text.find operand s).isSome then inputLoop numData (j + 1) s ds
    else inputLoop numData j (s ++ operand ++ [',']) ds

def generateInputList (numInputs : ℤ) (numData : ℕ) (ds : List ℕ) :
    Except GenFault (Str × List ℕ) :=
  if numInputs = 0 then .ok ("null".toList, ds)
  else do
    let (s, ds) ← inputLoop numData numInputs.toNat [] ds
    let s ← popBack s
    pure (s, ds)

/-! ## Provided data -/

/-- The loop of `generate_provided_data` with `i` names to go: a name is drawn again while it is
provided. -/
def providedLoop (numData : ℕ) : ℕ → List Str → List ℕ → Except GenFault (List Str × List ℕ)
  | 0, names, ds => .ok (names, ds)
  | _ + 1, _, [] => .error .outOfDraws
  | i + 1, names, r :: ds => do
    let v ← drawIn 0 (asInt numData) r
    let name := "Operand_".toList ++ toString v
    if name ∈ names then providedLoop numData (i + 1) names ds
    else providedLoop numData i (names ++ [name]) ds

def generateProvidedData (numData : ℕ) (ds : List ℕ) : Except GenFault (List Str × List ℕ) :=
  providedLoop numData numData [] ds

section Provided

variable {numData : ℕ} {ds rest : List ℕ} {names : List Str}

/-- The draws of the loop, when `num_data` is an `int` that has a successor. -/
theorem drawIn_asInt (h : numData + 1 < 2 ^ 31) (r : ℕ) :
    drawIn 0 (asInt numData) r = .ok ((r % (numData + 1) : ℕ) : ℤ) := by
  have hmax : asInt numData = numData := if_pos (by omega)
  have hlt : r % (numData + 1) < numData + 1 := Nat.mod_lt r (Nat.succ_pos numData)
  rw [drawIn_eq_ok_iff, hmax]
  unfold IsInt
  refine ⟨⟨by unfold IsInt; omega, by unfold IsInt; omega, by omega⟩, ?_, by omega⟩
  rw [Int.tmod_eq_emod_of_nonneg (Int.natCast_nonneg r)]
  push_cast
  rw [Int.sub_zero, Int.add_zero]

/-- A round of the loop then. -/
theorem providedLoop_succ (h : numData + 1 < 2 ^ 31) (i : ℕ) (names : List Str) (r : ℕ)
    (ds : List ℕ) : providedLoop numData (i + 1) names (r :: ds) =
      if operandName (r % (numData + 1)) ∈ names then providedLoop numData (i + 1) names ds
      else providedLoop numData i (names ++ [operandName (r % (numData + 1))]) ds := by
  rw [providedLoop, drawIn_asInt h, ok_bind, toString_natCast]
  rfl

/-- The names are different, and all are drawn. -/
theorem nodup_providedLoop {S names₀ : List Str} {i : ℕ}
    (hS : ∀ r v, drawIn 0 (asInt numData) r = .ok v → "Operand_".toList ++ toString v ∈ S)
    (hnodup : names₀.Nodup) (hsub : names₀ ⊆ S)
    (h : providedLoop numData i names₀ ds = .ok (names, rest)) :
    names.Nodup ∧ names ⊆ S ∧ names.length = names₀.length + i := by
  induction ds generalizing i names₀ with
  | nil =>
    cases i with
    | zero =>
      cases h
      exact ⟨hnodup, hsub, rfl⟩
    | succ i => cases h
  | cons r ds ih =>
    cases i with
    | zero =>
      cases h
      exact ⟨hnodup, hsub, rfl⟩
    | succ i =>
      rw [providedLoop] at h
      obtain ⟨v, hv, h⟩ := bind_eq_ok.mp h
      dsimp only at h
      split_ifs at h with hmem
      · exact ih hnodup hsub h
      · have hnew : (names₀ ++ ["Operand_".toList ++ toString v]).Nodup := by
          rw [← List.concat_eq_append]
          exact hnodup.concat hmem
        obtain ⟨h₁, h₂, h₃⟩ := ih hnew
          (List.append_subset.mpr ⟨hsub, List.cons_subset.mpr ⟨hS r v hv, List.nil_subset S⟩⟩) h
        refine ⟨h₁, h₂, ?_⟩
        rw [h₃, List.length_append, List.length_singleton]
        omega

/-- **The loop ends** only where `num_data` is an `int` that has a successor: for larger numbers the
range of the draws is empty, too large, or smaller than the number of names. -/
theorem lt_of_generateProvidedData (hlt : numData < 2 ^ 32)
    (h : generateProvidedData numData ds = .ok (names, rest)) : numData + 1 < 2 ^ 31 := by
  by_contra hge
  -- how many numbers can be drawn, none for `2 ^ 31 - 1`
  obtain ⟨m, hm⟩ : ∃ m, m = (2 ^ 32 - numData - 1) % 2 ^ 31 := ⟨_, rfl⟩
  have hS : ∀ r v, drawIn 0 (asInt numData) r = .ok v →
      "Operand_".toList ++ toString v ∈ (List.range m).map operandName := by
    intro r v hv
    have hbounds := drawIn_bounds hv
    obtain ⟨⟨-, hdivisor, hzero⟩, -, -⟩ := drawIn_eq_ok_iff.mp hv
    unfold IsInt at hdivisor
    -- a number from `2 ^ 31` on becomes a negative bound
    have hbig : 2 ^ 31 ≤ numData := by
      unfold asInt at hdivisor
      split_ifs at hdivisor <;> omega
    have hmax : asInt numData = numData - 2 ^ 32 := if_neg (by omega)
    rw [hmax] at hbounds hdivisor hzero
    have habs : |(numData : ℤ) - 2 ^ 32 - 0 + 1| = -((numData : ℤ) - 2 ^ 32 - 0 + 1) :=
      abs_of_nonpos (by omega)
    rw [habs] at hbounds
    obtain ⟨w, rfl⟩ := Int.eq_ofNat_of_zero_le hbounds.1
    rw [toString_natCast]
    exact List.mem_map_of_mem (List.mem_range.mpr (by omega))
  obtain ⟨hnodup, hsub, hlen⟩ := nodup_providedLoop hS List.nodup_nil (List.nil_subset _) h
  have hle := (List.subperm_of_subset hnodup hsub).length_le
  rw [List.length_map, List.length_range, hlen, List.length_nil, Nat.zero_add] at hle
  omega

end Provided

/-! ## Times and frequencies -/

/-- One time between `min` and `max`. -/
def timeRound (min max : ℤ) (q : List Str × List ℕ) (_ : ℕ) : Except GenFault (List Str × List ℕ) := do
  let (r, ds) ← rand q.2
  let v ← drawIn min max r
  pure (q.1 ++ [toString v], ds)

def generateStartTime (numConsumerNodes simTime : ℕ) (ds : List ℕ) :
    Except GenFault (List Str × List ℕ) :=
  run (timeRound 7 (asInt (simTime / 3))) ([], ds) (List.range numConsumerNodes)

def generateStopTime (numConsumerNodes simTime : ℕ) (ds : List ℕ) :
    Except GenFault (List Str × List ℕ) :=
  run (timeRound (asInt (2 * simTime % 2 ^ 32 / 3)) (asInt ((simTime + (2 ^ 32 - 2)) % 2 ^ 32)))
    ([], ds) (List.range numConsumerNodes)

def freqList : List Str := ["5", "7.5", "10", "12.5", "15"].map String.toList

/-- The lifetime that `generate_int_lifetime` gives to every function. -/
def lifetime : Str := "20".toList

/-- Round `i` of the loop of `generate_int_lifetime`: a request frequency. -/
def lifetimeRound (funcs : List FuncProperties) (q : List Str × List ℕ) (i : ℕ) :
    Except GenFault (List Str × List ℕ) := do
  let _ ← at? funcs i
  let (r, ds) ← rand q.2
  let freq ← at? freqList (r % 5)
  pure (q.1 ++ [freq], ds)

def generateIntLifetime (funcs : List FuncProperties) (numFunc : ℕ) (ds : List ℕ) :
    Except GenFault (List Str × List ℕ) :=
  run (lifetimeRound funcs) ([], ds) (List.range numFunc)

/-! ## The choice of a function -/

section Zipf

variable {R : Type} [Zero R] [DecidableEq R] [LE R] [DecidableLE R]

/-- A value of the uniform random variable that is not 0. -/
def uniform : List R → Except GenFault (R × List R)
  | [] => .error .outOfDraws
  | x :: us => if x = 0 then uniform us else .ok (x, us)

/-- The first index in `1, ..., basis` whose cumulated probability reaches `x`, else 1. -/
def zipfIndex (dist : ℕ → R) (basis : ℕ) (x : R) : ℕ :=
  ((List.range' 1 basis).find? fun i => x ≤ dist i).getD 1

/-- `createZipfMandelbrotDist`, whose values are `dist`; its vector has `f_N + 1` places, a `uint32_t`. -/
def createZipfDist (dist : ℕ → R) (numFunc : ℕ) : Except GenFault (ℕ → R) :=
  if (numFunc + 1) % 2 ^ 32 ≤ numFunc then .error .outOfRange else .ok dist

omit [Zero R] [DecidableEq R] [LE R] [DecidableLE R] in
theorem createZipfDist_eq_ok_iff {dist dist' : ℕ → R} {numFunc : ℕ} :
    createZipfDist dist numFunc = .ok dist' ↔ numFunc < (numFunc + 1) % 2 ^ 32 ∧ dist = dist' := by
  unfold createZipfDist
  split_ifs with h
  · exact iff_of_false nofun fun h' => Nat.not_lt.mpr h h'.1
  · rw [Except.ok.injEq, and_iff_right (Nat.not_le.mp h)]

/-- `getNextZipfMandelbrotRandomNumber`, where `dist` holds what `createZipfMandelbrotDist` computes. -/
def getNextZipf (dist : ℕ → R) (basis : ℕ) (us : List R) : Except GenFault (ℕ × List R) := do
  let (x, us) ← uniform us
  pure (zipfIndex dist basis x, us)

end Zipf

/-! ## Requests -/

/-- A line of the consumer section. The numbers drawn for its inputs, modulo `num_data + 1`, are kept
beside it. -/
structure Request where
  consumer : ℕ
  func : Str
  inputs : Str
  freq : Str
  start : Str
  stop : Str
  draws : List ℕ

def Request.row (r : Request) : Row :=
  [consumerName r.consumer, r.func, r.inputs, r.freq, lifetime, r.start, r.stop]

/-- What the requests are made of. -/
structure Tables where
  funcs : List FuncProperties
  freqs : List Str
  starts : List Str
  stops : List Str

/-- The numbers that were drawn between two states of the stream, modulo `num_data + 1`. -/
def drawn (numData : ℕ) (ds ds' : List ℕ) : List ℕ :=
  (ds.take (ds.length - ds'.length)).map fun r => r % (numData + 1)

/-- A request of a consumer for function `func`, with as many inputs as function `arity` has. -/
def request (numData : ℕ) (t : Tables) (consumer func arity : ℕ) (ds : List ℕ) :
    Except GenFault (Request × List ℕ) := do
  let a ← at? t.funcs arity
  let (inputs, ds') ← generateInputList a.numInputs numData ds
  let f ← at? t.funcs func
  let freq ← at? t.freqs func
  let start ← at? t.starts consumer
  let stop ← at? t.stops consumer
  pure (⟨consumer, f.name, inputs, freq, start, stop, drawn numData ds ds'⟩, ds')

/-- The two streams of random numbers, and the requests so far. -/
structure GenState (R : Type) where
  draws : List ℕ
  uniforms : List R
  requests : List Request

section Requests

variable {R : Type} [Zero R] [DecidableEq R] [LE R] [DecidableLE R]

variable (p : GenParams) (t : Tables) (dist : ℕ → R)

/-- A request for function `func`, with the inputs of function `arity`. -/
def plainRequest (consumer func arity : ℕ) (s : GenState R) : Except GenFault (GenState R) := do
  let (r, ds) ← request p.numData t consumer func arity s.draws
  pure { s with draws := ds, requests := s.requests ++ [r] }

/-- A request for a function chosen by its popularity. -/
def zipfRequest (consumer : ℕ) (s : GenState R) : Except GenFault (GenState R) := do
  let (index, us) ← getNextZipf dist p.numFunc s.uniforms
  plainRequest p t consumer (index - 1) (index - 1) { s with uniforms := us }

/-- The number of consumers at one node of the last tier, as a divisor. -/
def consumersPerNode : Except GenFault ℕ :=
  if p.t3Nodes = 0 ∨ p.numConsumerNodes / p.t3Nodes = 0 then .error .divisionByZero
  else .ok (p.numConsumerNodes / p.t3Nodes)

/-- The consumer of round `i`: in the load scenario one of the consumers at the loaded node, by an
expression of type `uint32_t`. -/
def loadedConsumer (k loadIndex i : ℕ) : Except GenFault ℕ :=
  if p.nfnLoadDistributionScenario then do
    let w ← consumersPerNode p
    pure ((i % w + (if p.zipf then loadIndex else loadIndex * k) * w) % 2 ^ 32)
  else pure i

/-- Round `i` of the inner loop of the consumer section. -/
def requestRound (k loadIndex : ℕ) (s : GenState R) (i : ℕ) : Except GenFault (GenState R) := do
  let j ← loadedConsumer p k loadIndex i
  if p.nfnLoadDistributionScenario && p.numConsumerNodes ≤ j then pure s
  else if p.zipf then zipfRequest p t dist j s
  else plainRequest p t j j i s

/-- Round `k` of the outer loop of the consumer section. -/
def loadRound (s : GenState R) (k : ℕ) : Except GenFault (GenState R) := do
  let (r, ds) ← rand s.draws
  run (requestRound p t dist k (r % (p.numConsumerNodes / 20 + 1))) { s with draws := ds }
    (List.range (p.numConsumerNodes / 2))

/-- The usual request of consumer `i` in the load scenario. -/
def usualRound (s : GenState R) (i : ℕ) : Except GenFault (GenState R) :=
  if p.zipf then zipfRequest p t dist i s else plainRequest p t i i i s

/-- The consumer section. -/
def allRequests (s : GenState R) : Except GenFault (GenState R) := do
  let s ← run (loadRound p t dist) s (List.range 3)
  if p.nfnLoadDistributionScenario then
    run (usualRound p t dist) s (List.range p.numConsumerNodes)
  else pure s

/-! ## What holds of all requests -/

variable {p t dist} {P : Request → Prop} {s s' : GenState R}

/-- `P` holds of every request that can be made; with `zipf` a request has the inputs of its own
function. -/
def EveryRequest (p : GenParams) (t : Tables) (P : Request → Prop) : Prop :=
  ∀ consumer func arity ds r rest, (p.zipf = true → func = arity) →
    request p.numData t consumer func arity ds = .ok (r, rest) → P r

omit [Zero R] [DecidableEq R] [LE R] [DecidableLE R] in
theorem plainRequest_forall (hP : EveryRequest p t P) {consumer func arity : ℕ}
    (ha : p.zipf = true → func = arity) (hs : ∀ r ∈ s.requests, P r)
    (h : plainRequest p t consumer func arity s = .ok s') : ∀ r ∈ s'.requests, P r := by
  obtain ⟨⟨r, ds⟩, hr, h⟩ := bind_eq_ok.mp h
  cases h
  intro r' hr'
  rcases List.mem_append.mp hr' with hr' | hr'
  · exact hs r' hr'
  · rw [List.mem_singleton.mp hr']
    exact hP consumer func arity s.draws r ds ha hr

theorem zipfRequest_forall (hP : EveryRequest p t P) {consumer : ℕ} (hs : ∀ r ∈ s.requests, P r)
    (h : zipfRequest p t dist consumer s = .ok s') : ∀ r ∈ s'.requests, P r := by
  obtain ⟨⟨index, us⟩, -, h⟩ := bind_eq_ok.mp h
  refine plainRequest_forall hP (fun _ => rfl) ?_ h
  exact hs

theorem requestRound_forall (hP : EveryRequest p t P) {k loadIndex i : ℕ}
    (hs : ∀ r ∈ s.requests, P r) (h : requestRound p t dist k loadIndex s i = .ok s') :
    ∀ r ∈ s'.requests, P r := by
  obtain ⟨j, -, h⟩ := bind_eq_ok.mp h
  split_ifs at h with hskip hz
  · cases h
    exact hs
  · exact zipfRequest_forall hP hs h
  · exact plainRequest_forall hP (fun hz' => absurd hz' hz) hs h

theorem loadRound_forall (hP : EveryRequest p t P) {k : ℕ} (hs : ∀ r ∈ s.requests, P r)
    (h : loadRound p t dist s k = .ok s') : ∀ r ∈ s'.requests, P r := by
  obtain ⟨⟨r, ds⟩, -, h⟩ := bind_eq_ok.mp h
  refine run_invariant (P := fun s : GenState R => ∀ r ∈ s.requests, P r)
    (fun s i s' hs hround => requestRound_forall hP hs hround) ?_ h
  exact hs

theorem usualRound_forall (hP : EveryRequest p t P) {i : ℕ} (hs : ∀ r ∈ s.requests, P r)
    (h : usualRound p t dist s i = .ok s') : ∀ r ∈ s'.requests, P r := by
  unfold usualRound at h
  split_ifs at h with hz
  · exact zipfRequest_forall hP hs h
  · exact plainRequest_forall hP (fun _ => rfl) hs h

/-- **The consumer section.** What holds of every request that can be made holds of all requests. -/
theorem allRequests_forall (hP : EveryRequest p t P) (hs : ∀ r ∈ s.requests, P r)
    (h : allRequests p t dist s = .ok s') : ∀ r ∈ s'.requests, P r := by
  obtain ⟨s₁, hload, h⟩ := bind_eq_ok.mp h
  have hs₁ : ∀ r ∈ s₁.requests, P r :=
    run_invariant (P := fun s : GenState R => ∀ r ∈ s.requests, P r)
      (fun s k s' hs hround => loadRound_forall hP hs hround) hs hload
  split_ifs at h
  · exact run_invariant (P := fun s : GenState R => ∀ r ∈ s.requests, P r)
      (fun s i s' hs hround => usualRound_forall hP hs hround) hs₁ h
  · cases h
    exact hs₁

/-! ## How many requests there are -/

omit [Zero R] [DecidableEq R] [LE R] [DecidableLE R] in
theorem length_plainRequest {consumer func arity : ℕ}
    (h : plainRequest p t consumer func arity s = .ok s') :
    s'.requests.length = s.requests.length + 1 := by
  obtain ⟨⟨r, ds⟩, -, h⟩ := bind_eq_ok.mp h
  cases h
  exact List.length_append

theorem length_zipfRequest {consumer : ℕ} (h : zipfRequest p t dist consumer s = .ok s') :
    s'.requests.length = s.requests.length + 1 := by
  obtain ⟨⟨index, us⟩, -, h⟩ := bind_eq_ok.mp h
  have hlen := length_plainRequest h
  exact hlen

theorem length_usualRound {i : ℕ} (h : usualRound p t dist s i = .ok s') :
    s'.requests.length = s.requests.length + 1 := by
  unfold usualRound at h
  split_ifs at h
  · exact length_zipfRequest h
  · exact length_plainRequest h

theorem length_requestRound (hload : p.nfnLoadDistributionScenario = false) {k loadIndex i : ℕ}
    (h : requestRound p t dist k loadIndex s i = .ok s') :
    s'.requests.length = s.requests.length + 1 := by
  obtain ⟨j, -, h⟩ := bind_eq_ok.mp h
  rw [hload, Bool.false_and, if_neg Bool.false_ne_true] at h
  split_ifs at h
  · exact length_zipfRequest h
  · exact length_plainRequest h

/-- Only in the load scenario can a round be skipped. -/
theorem length_loadRound (hload : p.nfnLoadDistributionScenario = false ∨ p.numConsumerNodes < 2)
    {k : ℕ} (h : loadRound p t dist s k = .ok s') :
    s'.requests.length = s.requests.length + p.numConsumerNodes / 2 := by
  obtain ⟨⟨r, ds⟩, -, h⟩ := bind_eq_ok.mp h
  rcases hload with hload | hfew
  · have hlen := run_add (f := fun s : GenState R => s.requests.length) (k := 1)
      (fun s i s' hround => length_requestRound hload hround) h
    rwa [List.length_range, Nat.mul_one] at hlen
  · have hnone : p.numConsumerNodes / 2 = 0 := by omega
    rw [hnone] at h ⊢
    cases h
    rfl

/-- The consumer section is empty. -/
def NoRequests (p : GenParams) : Prop :=
  p.numConsumerNodes = 0 ∨ p.numConsumerNodes = 1 ∧ p.nfnLoadDistributionScenario = false

instance : DecidablePred NoRequests := fun _ => inferInstanceAs (Decidable (_ ∨ _))

/-- **There are no requests** without consumers, or with one in the usual scenario. -/
theorem requests_eq_nil_iff (hs : s.requests = []) (h : allRequests p t dist s = .ok s') :
    s'.requests = [] ↔ NoRequests p := by
  obtain ⟨s₁, hloads, h⟩ := bind_eq_ok.mp h
  have hlen : (p.nfnLoadDistributionScenario = false ∨ p.numConsumerNodes < 2) →
      s₁.requests.length = 3 * (p.numConsumerNodes / 2) := by
    intro hload
    have hlen := run_add (f := fun s : GenState R => s.requests.length) (k := p.numConsumerNodes / 2)
      (fun s k s' hround => length_loadRound hload hround) hloads
    rwa [hs, List.length_nil, Nat.zero_add] at hlen
  rw [← List.length_eq_zero_iff, NoRequests]
  split_ifs at h with hload
  · have hlast := run_add (f := fun s : GenState R => s.requests.length) (k := 1)
      (fun s i s' hround => length_usualRound hround) h
    rw [List.length_range, Nat.mul_one] at hlast
    rw [hlast, hload]
    constructor
    · intro hzero
      exact Or.inl (by omega)
    · rintro (hzero | ⟨-, hfalse⟩)
      · rw [hlen (Or.inr (by omega))]
        omega
      · cases hfalse
  · cases h
    have hload : p.nfnLoadDistributionScenario = false := Bool.eq_false_of_not_eq_true hload
    rw [hlen (Or.inl hload), hload]
    simp only [and_true]
    omega

end Requests

/-! ## The file -/

/-- The line of a function. -/
def FuncProperties.row (f : FuncProperties) : Row :=
  [f.name, f.inputSignature] ++
    ["docker", "100", "16", "1", "3.0", "4000", "10000", "500"].map String.toList

/-- The initial data section from consumer `consIndex` on; behind the last consumer comes the first. -/
def dataRows (numConsumerNodes : ℕ) : ℕ → List Str → List Row
  | _, [] => []
  | consIndex, name :: l =>
    [consumerName consIndex, name, "500".toList, "2".toList] ::
      dataRows numConsumerNodes (if consIndex + 1 = numConsumerNodes then 0 else consIndex + 1) l

/-- What `generate_data` writes, section by section. The numbers drawn for the provided data, modulo
`num_data + 1`, are kept beside it. -/
structure Dataset where
  router : List Row
  links : List Row
  functions : List Row
  initialStatus : List Row
  requests : List Request
  data : List Row
  dataDraws : List ℕ

def generateData {R : Type} [Zero R] [DecidableEq R] [LE R] [DecidableLE R] (p : GenParams)
    (dist : ℕ → R) (ds : List ℕ) (us : List R) : Except GenFault Dataset := do
  let router ← routerSection p
  let links ← linksSection p
  let (funcs, ds₁) ← generateFuncList p.numFunc p.inputRange ds
  let (names, ds₂) ← generateProvidedData p.numData ds₁
  let (starts, ds₃) ← generateStartTime p.numConsumerNodes p.simTime ds₂
  let (stops, ds₄) ← generateStopTime p.numConsumerNodes p.simTime ds₃
  let dist ← createZipfDist dist p.numFunc
  let (freqs, ds₅) ← generateIntLifetime funcs p.numFunc ds₄
  let s ← allRequests p ⟨funcs, freqs, starts, stops⟩ dist ⟨ds₅, us, []⟩
  pure
    { router := router
      links := links
      functions := funcs.map FuncProperties.row
      initialStatus := funcs.map fun f => [computeName 0, f.name]
      requests := s.requests
      data := dataRows p.numConsumerNodes 0 names
      dataDraws := drawn p.numData ds₁ ds₂ }

/-- **What a dataset is made of.** -/
theorem generateData_ok {R : Type} [Zero R] [DecidableEq R] [LE R] [DecidableLE R] {p : GenParams}
    {dist : ℕ → R} {ds : List ℕ} {us : List R} {d : Dataset}
    (h : generateData p dist ds us = .ok d) :
    ∃ funcs ds₁ names ds₂ ds₃ t s, generateFuncList p.numFunc p.inputRange ds = .ok (funcs, ds₁) ∧
      generateProvidedData p.numData ds₁ = .ok (names, ds₂) ∧
      t.funcs = funcs ∧ allRequests p t dist ⟨ds₃, us, []⟩ = .ok s ∧
      routerSection p = .ok d.router ∧ linksSection p = .ok d.links ∧
      d.functions = funcs.map FuncProperties.row ∧
      d.initialStatus = funcs.map (fun f => [computeName 0, f.name]) ∧ d.requests = s.requests ∧
      d.data = dataRows p.numConsumerNodes 0 names ∧ d.dataDraws = drawn p.numData ds₁ ds₂ := by
  unfold generateData at h
  obtain ⟨router, hrouter, h⟩ := bind_eq_ok.mp h
  obtain ⟨links, hlinks, h⟩ := bind_eq_ok.mp h
  obtain ⟨⟨funcs, ds₁⟩, hfuncs, h⟩ := bind_eq_ok.mp h
  obtain ⟨⟨names, ds₂⟩, hnames, h⟩ := bind_eq_ok.mp h
  obtain ⟨⟨starts, ds₃⟩, -, h⟩ := bind_eq_ok.mp h
  obtain ⟨⟨stops, ds₄⟩, -, h⟩ := bind_eq_ok.mp h
  obtain ⟨dist', hdist, h⟩ := bind_eq_ok.mp h
  obtain ⟨⟨freqs, ds₅⟩, -, h⟩ := bind_eq_ok.mp h
  obtain ⟨s, hs, h⟩ := bind_eq_ok.mp h
  cases h
  obtain ⟨-, rfl⟩ := createZipfDist_eq_ok_iff.mp hdist
  exact ⟨funcs, ds₁, names, ds₂, ds₅, ⟨funcs, freqs, starts, stops⟩, s, hfuncs, hnames, rfl, hs,
    hrouter, hlinks, rfl, rfl, rfl, rfl, rfl⟩

/-- A section of the file. -/
def sectionLines (title : String) (rows : List Row) : List Str := title.toList :: rows.map Row.line

/-- The lines of the file; the last one is empty. -/
def Dataset.lines (d : Dataset) : List Str :=
  sectionLines "router" d.router ++ [] :: sectionLines "links" d.links ++
    [] :: sectionLines "functions" d.functions ++
    [] :: sectionLines "initial function status" d.initialStatus ++
    [] :: sectionLines "consumer section" (d.requests.map Request.row) ++
    [] :: sectionLines "initial data section" d.data ++ [[]]

end DataGen

end IncSim
