import IncSim.Lib.Deal
import IncSim.Lib.Run
import IncSim.Ndn.Name

/-!
# The generated hierarchy

The `router` and `links` sections that `DataGen::generate_data` writes: the orchestrator, the compute
nodes in their tiers, the consumers, and the links between them. Counts are of type `uint32_t`, so
their sums are taken modulo `2 ^ 32`; some loops count in an `int`.

* `GenFault`, `GenParams`, `Row`: what ends a run, the arguments, a line with its columns.
* `incr`, `counted`: a loop over an `int`.
* `tier`, `nodeProperties`, `nodeList`, `routerSection`: the nodes.
* `computeLinks`, `consumerLinks`, `linksSection`: the links.
* `computeLinks_eq`, `consumerLinks_eq_ok_iff`: the links in closed form, and when their loops end.
* `Writable`, `TiersFit`; **`links_sound_iff`**: all links connect declared nodes, and each tier-3 node
  has one link to tier 2, exactly for the tier sizes that fit; `tiersFit_iff`: where no sum wraps these
  are those with `t1 + t3 = 2 * t2 + 1`.
-/

namespace IncSim

open PartialRun

/-- What ends a run of the generator. -/
inductive GenFault
  /-- an index is outside its vector -/
  | outOfRange
  | divisionByZero
  /-- an `int` leaves its range -/
  | signedOverflow
  /-- the given stream of random numbers ends while a loop still draws -/
  | outOfDraws
  deriving DecidableEq

/-- The arguments of `DataGen::generate_data`, numbers of type `uint32_t` and a range of type `int`;
`frequency_range` is not used. -/
structure GenParams where
  numConsumerNodes : ℕ
  t1Nodes : ℕ
  t2Nodes : ℕ
  t3Nodes : ℕ
  cloudScale : ℕ
  numFunc : ℕ
  numData : ℕ
  inputRange : ℤ × ℤ
  simTime : ℕ
  zipf : Bool
  nfnLoadDistributionScenario : Bool
  homogeneousNodes : Bool
  consumers_lt : numConsumerNodes < 2 ^ 32
  t1_lt : t1Nodes < 2 ^ 32
  t2_lt : t2Nodes < 2 ^ 32
  t3_lt : t3Nodes < 2 ^ 32
  numFunc_lt : numFunc < 2 ^ 32
  numData_lt : numData < 2 ^ 32
  simTime_lt : simTime < 2 ^ 32
  le_inputRange : -2 ^ 31 ≤ inputRange.1 ∧ -2 ^ 31 ≤ inputRange.2
  inputRange_lt : inputRange.1 < 2 ^ 31 ∧ inputRange.2 < 2 ^ 31

/-- A line of the topology file, as its columns. -/
abbrev Row := List Str

/-- The columns with tabs between them. -/
def Row.line (r : Row) : Str := ['\t'].intercalate r

/-- The first column. -/
def Row.name (r : Row) : Str := r.getD 0 []

def computeName (i : ℕ) : Str := "compute_node_".toList ++ Text.decimal i

def consumerName (i : ℕ) : Str := "consumer_".toList ++ Text.decimal i

def orchestratorName : Str := "orchestrator".toList

namespace DataGen

variable (p : GenParams)

/-! ## Counters -/

/-- `++` of an `int`. -/
def incr (i : ℕ) : Except GenFault ℕ :=
  if i + 1 < 2 ^ 31 then .ok (i + 1) else .error .signedOverflow

/-- A loop whose counter is an `int`, from `a` on: a row in each of `n` rounds. -/
def counted (row : ℕ → Row) (a n : ℕ) : Except GenFault (List Row) :=
  (List.range' a n).mapM fun i => do
    let _ ← incr i
    pure (row i)

/-! ## The router section -/

/-- `nodeProperties`. -/
structure NodeProperties where
  name : Str
  lati : Str
  longi : Str
  ramMb : Str
  romGb : Str
  clockSpeedMips : Str
  cores : Str
  queue : Str

/-- What the loop over the compute nodes takes node `i` for. -/
inductive Tier
  | cloud
  | gateway
  | two
  | three
  | unassigned
  deriving DecidableEq

def tier (i : ℕ) : Tier :=
  if i = 1 then .cloud
  else if i = 2 then .gateway
  else if 2 < i ∧ i ≤ (p.t2Nodes + 2) % 2 ^ 32 then .two
  else if (p.t2Nodes + p.t1Nodes + 1) % 2 ^ 32 < i then .three
  else .unassigned

/-- Resources and queue of a node. -/
def NodeProperties.resources (n : NodeProperties) (clockSpeedMips cores ramMb romGb queue : String) :
    NodeProperties :=
  { n with
    clockSpeedMips := clockSpeedMips.toList, cores := cores.toList, ramMb := ramMb.toList
    romGb := romGb.toList, queue := queue.toList }

/-- The node of round `i` of the loop over the compute nodes. -/
def nodeProperties (i : ℕ) : NodeProperties :=
  let node : NodeProperties := ⟨computeName (i - 1), [], [], [], [], [], [], []⟩
  let node :=
    if p.homogeneousNodes then node.resources "8000" "100" "10000" "10000" "100"
    else
      match tier p i with
      | .cloud =>
        if p.cloudScale = 1 then node.resources "40000" "1000" "81920" "10000" "1000"
        else if p.cloudScale = 2 then node.resources "40000" "2000" "163840" "10000" "2000"
        else if p.cloudScale = 3 then node.resources "40000" "4000" "327680" "20000" "4000"
        else node
      | .gateway =>
        if p.cloudScale = 1 then node.resources "20000" "500" "40960" "5000" "500"
        else if p.cloudScale = 2 then node.resources "20000" "1000" "81920" "5000" "1000"
        else if p.cloudScale = 3 then node.resources "40000" "2000" "163840" "5000" "2000"
        else node
      | .two => node.resources "8000" "40" "8192" "800" "40"
      | .three => node.resources "4000" "20" "6144" "400" "20"
      | .unassigned => node
  match tier p i with
  | .cloud => { node with lati := "500".toList, longi := "1000".toList }
  | .gateway => { node with lati := "500".toList, longi := "800".toList }
  | .two =>
    { node with
      lati := Text.decimal (1000 / p.t2Nodes * (i - 2) % 2 ^ 32), longi := "600".toList }
  | .three =>
    -- the difference is one of `uint32_t`
    let distance := (i + (2 ^ 32 - (p.t2Nodes + 2) % 2 ^ 32)) % 2 ^ 32
    { node with
      lati := Text.decimal (1000 / p.t3Nodes * distance % 2 ^ 32), longi := "400".toList }
  | .unassigned => node

/-- The rounds of the loop over the compute nodes, which begins at 1. The sum wraps, and what it
becomes as an `int` is compared as a `uint32_t` again. -/
def nodeCount : ℕ := (p.t1Nodes + p.t2Nodes + p.t3Nodes + 2) % 2 ^ 32 - 1

/-- `m_node_list` after the loop over the compute nodes. -/
def nodeList : List NodeProperties := (List.range' 1 (nodeCount p)).map (nodeProperties p)

def orchestratorRow : Row :=
  ["orchestrator", "100", "30", "10", "4000", "40960", "2000", "10", "l1,l2,l3",
    "docker,python,java"].map String.toList

def NodeProperties.row (n : NodeProperties) : Row :=
  [n.name, n.longi, n.lati, n.cores, n.clockSpeedMips, n.ramMb, n.romGb, n.queue,
    "l2,l3".toList, "docker,python,java".toList]

def consumerRow (i : ℕ) : Row :=
  [consumerName i, "20".toList, Text.decimal i] ++ List.replicate 6 "NaN".toList

def routerSection : Except GenFault (List Row) := do
  let consumers ← counted consumerRow 0 p.numConsumerNodes
  pure (orchestratorRow :: (nodeList p).map NodeProperties.row ++ consumers)

/-! ## The links section -/

/-- A line of the links section: capacity, metric, delay, queue length. -/
def linkRow (source target : Str) (capacity metric delay maxPackets : String) : Row :=
  [source, target, capacity.toList, metric.toList, delay.toList, maxPackets.toList]

def orchestratorLinks : List Row :=
  (nodeList p).tail.map fun n => linkRow orchestratorName n.name "10000Mbps" "50" "5ms" "1000"

/-- A link between two compute nodes. -/
def computeLink (i j : ℕ) (delay : String) : Row :=
  linkRow (computeName i) (computeName j) "10000Mbps" "1" delay "1000"

/-- Round `i` of the loop over the links between compute nodes; `q.1` is its counter `k`, an `int` like
the counter `l` of the inner loop. Where round 1 has ended, `t2_nodes + 2` is an `int`. -/
def computeLinkRound (q : ℕ × List Row) (i : ℕ) : Except GenFault (ℕ × List Row) := do
  let q := if i = 0 then (q.1, q.2 ++ [computeLink i (i + 1) "200ms"]) else q
  if i = 1 then
    let rows ← counted (computeLink i · "25ms") 2 ((p.t2Nodes + 1) % 2 ^ 32 - 1)
    pure (q.1, q.2 ++ rows)
  else if 1 < i then
    let k := if i = 2 then p.t2Nodes + 2 else q.1
    let k₁ ← incr k
    let k₂ ← incr k₁
    pure (k₂, q.2 ++ [computeLink i k "5ms", computeLink i k₁ "5ms"])
  else pure q

/-- The loop runs while `i <= t2_nodes + 1`; with `2 ^ 32 - 2` nodes it had no end if round 1 had one. -/
def computeLinks : Except GenFault (List Row) := do
  let q ← run (computeLinkRound p) (0, []) (List.range ((p.t2Nodes + 1) % 2 ^ 32 + 1))
  pure q.2

/-- The link of a consumer to `m_node_list.at (t2_nodes + 2 + i)`. -/
def consumerLink (i suffix : ℕ) : Except GenFault Row :=
  match (nodeList p)[(p.t2Nodes + 2 + i) % 2 ^ 32]? with
  | some n => .ok (linkRow n.name (consumerName suffix) "250Mbps" "1" "2ms" "10")
  | none => .error .outOfRange

/-- The links of the consumers: `q` for each node of the last tier, then one more while there are
consumers left. No suffix is above the number of consumers, so none wraps. -/
def consumerLinks : Except GenFault (List Row) :=
  if p.t3Nodes = 0 then .error .divisionByZero
  else do
    let q := p.numConsumerNodes / p.t3Nodes
    let even ← ((List.range p.t3Nodes).flatMap fun i => (List.range q).map fun j => (i, j + i * q)).mapM
      fun s => consumerLink p s.1 s.2
    let rest ← ((List.range p.t3Nodes).takeWhile fun i => i + q * p.t3Nodes < p.numConsumerNodes).mapM
      fun i => consumerLink p i (i + q * p.t3Nodes)
    pure (even ++ rest)

def linksSection : Except GenFault (List Row) := do
  let compute ← computeLinks p
  let consumers ← consumerLinks p
  pure (orchestratorLinks p ++ compute ++ consumers)

/-! ## Names -/

theorem decimal_injective : Function.Injective Text.decimal := by
  intro i j h
  have hi : Nat.ofDigitChars 10 (Text.decimal i) 0 = i := Nat.ofDigitChars_ten_toDigits
  have hj : Nat.ofDigitChars 10 (Text.decimal j) 0 = j := Nat.ofDigitChars_ten_toDigits
  rw [← hi, h, hj]

theorem computeName_injective : Function.Injective computeName :=
  fun _ _ h => decimal_injective (List.append_cancel_left h)

theorem consumerName_injective : Function.Injective consumerName :=
  fun _ _ h => decimal_injective (List.append_cancel_left h)

theorem computeName_ne_consumerName (i j : ℕ) : computeName i ≠ consumerName j := by
  intro h
  have hm : (computeName i)[2]? = some 'm' := rfl
  have hn : (consumerName j)[2]? = some 'n' := rfl
  rw [h, hn] at hm
  exact absurd (Option.some.inj hm) (by decide)

theorem computeName_ne_orchestratorName (i : ℕ) : computeName i ≠ orchestratorName := by
  intro h
  have hc : (computeName i)[0]? = some 'c' := rfl
  have ho : orchestratorName[0]? = some 'o' := rfl
  rw [h, ho] at hc
  exact absurd (Option.some.inj hc) (by decide)

variable {p} {i j : ℕ}

theorem name_nodeProperties (i : ℕ) : (nodeProperties p i).name = computeName (i - 1) := by
  unfold nodeProperties
  dsimp only
  split <;> split_ifs <;> rfl

theorem getElem?_nodeList : ((nodeList p)[i]?).map NodeProperties.name =
    if i < nodeCount p then some (computeName i) else none := by
  unfold nodeList
  rw [List.getElem?_map, Option.map_map]
  split_ifs with hi
  · rw [List.getElem?_range' hi]
    exact congrArg some ((name_nodeProperties _).trans (congrArg computeName (by omega)))
  · rw [List.getElem?_eq_none (by rw [List.length_range']; omega)]
    rfl

theorem exists_node (h : i < nodeCount p) :
    ∃ n, (nodeList p)[i]? = some n ∧ n.name = computeName i := by
  have hname := getElem?_nodeList (p := p) (i := i)
  rw [if_pos h] at hname
  exact Option.map_eq_some_iff.mp hname

theorem getElem?_nodeList_eq_none (h : nodeCount p ≤ i) : (nodeList p)[i]? = none := by
  have hname := getElem?_nodeList (p := p) (i := i)
  rw [if_neg (by omega)] at hname
  exact Option.map_eq_none_iff.mp hname

theorem nodeCount_lt : nodeCount p < 2 ^ 32 - 1 := by
  unfold nodeCount
  omega

/-! ## Loops over an `int` -/

theorem incr_eq_ok (h : i + 1 < 2 ^ 31) : incr i = .ok (i + 1) := if_pos h

theorem incr_eq_error (h : 2 ^ 31 ≤ i + 1) : incr i = .error .signedOverflow :=
  if_neg (Nat.not_lt.mpr h)

/-- **A loop over an `int`** ends when its counter does not reach the end of the type. -/
theorem counted_eq (row : ℕ → Row) (a n : ℕ) : counted row a n =
    if n = 0 ∨ a + n < 2 ^ 31 then .ok ((List.range' a n).map row)
    else .error .signedOverflow := by
  have hround : ∀ i, (incr i >>= fun _ => pure (row i)) =
      if i + 1 < 2 ^ 31 then .ok (row i) else .error .signedOverflow := by
    intro i
    unfold incr
    split_ifs <;> rfl
  have hall : (∀ i ∈ List.range' a n, i + 1 < 2 ^ 31) ↔ n = 0 ∨ a + n < 2 ^ 31 := by
    simp only [List.mem_range'_1]
    constructor
    · intro h
      by_contra hn
      have hlast := h (a + n - 1) (by omega)
      omega
    · intro h i hi
      omega
  unfold counted
  rw [mapM_eq_ite hround]
  simp only [hall]

/-- **The router section** ends when the consumers can be counted. -/
theorem routerSection_eq : routerSection p =
    if p.numConsumerNodes < 2 ^ 31 then .ok (orchestratorRow :: (nodeList p).map NodeProperties.row ++
      (List.range p.numConsumerNodes).map consumerRow)
    else .error .signedOverflow := by
  unfold routerSection
  have hiff : (p.numConsumerNodes = 0 ∨ 0 + p.numConsumerNodes < 2 ^ 31) ↔
      p.numConsumerNodes < 2 ^ 31 := by omega
  rw [counted_eq, ← List.range_eq_range']
  simp only [hiff]
  split_ifs <;> rfl

theorem routerSection_eq_ok_iff {rows : List Row} : routerSection p = .ok rows ↔
    p.numConsumerNodes < 2 ^ 31 ∧
      rows = orchestratorRow :: (nodeList p).map NodeProperties.row ++
        (List.range p.numConsumerNodes).map consumerRow := by
  rw [routerSection_eq]
  split_ifs with h
  · rw [Except.ok.injEq, eq_comm, and_iff_right h]
  · exact iff_of_false nofun fun hn => h hn.1

/-! ## The links between compute nodes -/

theorem range_isPrefix {m n : ℕ} (h : m ≤ n) : List.range m <+: List.range n := by
  obtain ⟨k, rfl⟩ := Nat.exists_eq_add_of_le h
  rw [List.range_add]
  exact List.prefix_append _ _

/-- A round for a node of tier 2. -/
theorem computeLinkRound_of_le {k : ℕ} (q : ℕ × List Row) (hi : 2 ≤ i)
    (hk : (if i = 2 then p.t2Nodes + 2 else q.1) = k) : computeLinkRound p q i =
      if k + 2 < 2 ^ 31 then
        .ok (k + 2, q.2 ++ [computeLink i k "5ms", computeLink i (k + 1) "5ms"])
      else .error .signedOverflow := by
  unfold computeLinkRound
  dsimp only
  rw [if_neg (show ¬ i = 0 by omega), if_neg (show ¬ i = 1 by omega), if_pos (show 1 < i by omega),
    hk]
  by_cases h₁ : k + 1 < 2 ^ 31
  · rw [incr_eq_ok h₁, ok_bind]
    by_cases h₂ : k + 2 < 2 ^ 31
    · rw [incr_eq_ok h₂, if_pos h₂]
      rfl
    · rw [incr_eq_error (by omega), if_neg h₂]
      rfl
  · rw [incr_eq_error (by omega), if_neg (by omega)]
    rfl

/-- The links of the gateway. -/
def gatewayLinks (p : GenParams) : List Row :=
  [computeLink 0 1 "200ms"] ++ (List.range' 2 p.t2Nodes).map (computeLink 1 · "25ms")

/-- The first two rounds. -/
theorem run_computeLinkRound_two (h : p.t2Nodes + 1 < 2 ^ 32) :
    run (computeLinkRound p) (0, []) (List.range 2) =
      if p.t2Nodes + 2 < 2 ^ 31 then .ok (0, gatewayLinks p) else .error .signedOverflow := by
  have htwo : List.range 2 = [0, 1] := rfl
  have hzero : computeLinkRound p (0, []) 0 = .ok (0, [computeLink 0 1 "200ms"]) := rfl
  rw [htwo, run_cons_of_ok hzero]
  have hn : (p.t2Nodes + 1) % 2 ^ 32 - 1 = p.t2Nodes := by omega
  have hone : computeLinkRound p (0, [computeLink 0 1 "200ms"]) 1 =
      if p.t2Nodes + 2 < 2 ^ 31 then .ok (0, gatewayLinks p) else .error .signedOverflow := by
    have hiff : (p.t2Nodes = 0 ∨ 2 + p.t2Nodes < 2 ^ 31) ↔ p.t2Nodes + 2 < 2 ^ 31 := by omega
    unfold computeLinkRound
    dsimp only
    rw [if_pos rfl, if_neg (show ¬ (1 : ℕ) = 0 by decide), hn, counted_eq]
    simp only [hiff]
    split_ifs <;> rfl
  rw [run, List.foldlM_cons, hone]
  split_ifs <;> rfl

/-- The rounds up to `m + 1`. -/
theorem run_computeLinkRound {m : ℕ} (hp : p.t2Nodes + 1 < 2 ^ 32)
    (h : p.t2Nodes + 2 + 2 * m < 2 ^ 31) :
    run (computeLinkRound p) (0, []) (List.range (m + 2)) =
      .ok (if m = 0 then 0 else p.t2Nodes + 2 + 2 * m, gatewayLinks p ++
        (List.range (2 * m)).map fun s => computeLink (2 + s / 2) (p.t2Nodes + 2 + s) "5ms") := by
  induction m with
  | zero =>
    have hempty : List.range (2 * 0) = [] := rfl
    rw [run_computeLinkRound_two hp, if_pos (by omega), if_pos rfl, hempty, List.map_nil,
      List.append_nil]
  | succ m ih =>
    have hk : (if m + 2 = 2 then p.t2Nodes + 2 else if m = 0 then 0 else p.t2Nodes + 2 + 2 * m) =
        p.t2Nodes + 2 + 2 * m := by
      split_ifs <;> omega
    have hrange : List.range (2 * (m + 1)) = List.range (2 * m) ++ [2 * m, 2 * m + 1] := by
      rw [show 2 * (m + 1) = 2 * m + 1 + 1 by omega, List.range_succ, List.range_succ,
        List.append_assoc]
      rfl
    have hfst : 2 + 2 * m / 2 = m + 2 := by omega
    have hsnd : 2 + (2 * m + 1) / 2 = m + 2 := by omega
    rw [show m + 1 + 2 = m + 2 + 1 by omega, List.range_succ, run_concat_eq, ih (by omega), ok_bind,
      computeLinkRound_of_le _ (by omega) hk, if_pos (by omega), hrange, List.map_append,
      ← List.append_assoc, if_neg (Nat.succ_ne_zero m), List.map_cons, List.map_cons, List.map_nil,
      hfst, hsnd]
    rfl

/-- **The links between compute nodes.** With `2 ^ 32 - 1` nodes of tier 2 the bound of the loop is 0;
else the counter `k` comes to `3 * t2 + 2`. -/
theorem computeLinks_eq : computeLinks p =
    if p.t2Nodes + 1 = 2 ^ 32 then .ok [computeLink 0 1 "200ms"]
    else if 3 * p.t2Nodes + 2 < 2 ^ 31 then .ok (gatewayLinks p ++
      (List.range (2 * p.t2Nodes)).map fun s =>
        computeLink (2 + s / 2) (p.t2Nodes + 2 + s) "5ms")
    else .error .signedOverflow := by
  have hp := p.t2_lt
  unfold computeLinks
  split_ifs with hwrap hk
  · rw [hwrap]
    rfl
  · rw [Nat.mod_eq_of_lt (by omega), run_computeLinkRound (by omega) (by omega)]
    rfl
  · -- the run does not get past the round in which a counter overflows
    suffices hrun : run (computeLinkRound p) (0, [])
        (List.range ((p.t2Nodes + 1) % 2 ^ 32 + 1)) = .error .signedOverflow by
      rw [hrun]
      rfl
    rw [Nat.mod_eq_of_lt (by omega)]
    by_cases hl : p.t2Nodes + 2 < 2 ^ 31
    · obtain ⟨m, hm⟩ : ∃ m, m = (2 ^ 31 - 1 - (p.t2Nodes + 2)) / 2 := ⟨_, rfl⟩
      refine run_error_of_isPrefix (range_isPrefix (show m + 2 + 1 ≤ p.t2Nodes + 1 + 1 by omega)) ?_
      rw [List.range_succ, run_concat_eq, run_computeLinkRound (by omega) (by omega), ok_bind,
        computeLinkRound_of_le (k := p.t2Nodes + 2 + 2 * m) _ (by omega) (by split_ifs <;> omega),
        if_neg (by omega)]
    · refine run_error_of_isPrefix (range_isPrefix (show 2 ≤ p.t2Nodes + 1 + 1 by omega)) ?_
      rw [run_computeLinkRound_two (by omega), if_neg hl]

/-- The last node that a link between compute nodes names. -/
def lastLinked (p : GenParams) : ℕ := if p.t2Nodes + 1 = 2 ^ 32 then 1 else 3 * p.t2Nodes + 1

/-- A link between compute nodes leads to a later one, at most to the last. -/
theorem mem_computeLinks {r : Row} {rows : List Row} (h : computeLinks p = .ok rows) (hr : r ∈ rows) :
    ∃ i j, i < j ∧ j ≤ lastLinked p ∧
      ∃ delay ∈ ["200ms", "25ms", "5ms"], r = computeLink i j delay := by
  unfold lastLinked
  rw [computeLinks_eq] at h
  split_ifs at h ⊢
  · cases h
    exact ⟨0, 1, by decide, le_rfl, _, by decide, List.mem_singleton.mp hr⟩
  · cases h
    rcases List.mem_append.mp hr with hr | hr
    · rcases List.mem_append.mp hr with hr | hr
      · exact ⟨0, 1, by decide, by omega, _, by decide, List.mem_singleton.mp hr⟩
      · obtain ⟨l, hl, rfl⟩ := List.mem_map.mp hr
        rw [List.mem_range'_1] at hl
        exact ⟨1, l, by omega, by omega, _, by decide, rfl⟩
    · obtain ⟨s, hs, rfl⟩ := List.mem_map.mp hr
      rw [List.mem_range] at hs
      exact ⟨_, _, by omega, by omega, _, by decide, rfl⟩

/-- Some link leads to the last of these nodes. -/
theorem exists_lastLinked {rows : List Row} (h : computeLinks p = .ok rows) :
    ∃ r ∈ rows, r.getD 1 [] = computeName (lastLinked p) := by
  unfold lastLinked
  rw [computeLinks_eq] at h
  split_ifs at h ⊢
  · cases h
    exact ⟨_, List.mem_singleton_self _, rfl⟩
  · cases h
    by_cases h₂ : p.t2Nodes = 0
    · rw [h₂]
      exact ⟨_, List.mem_append_left _ (List.mem_append_left _ (List.mem_singleton_self _)), rfl⟩
    · have hlast : computeLink (2 + (2 * p.t2Nodes - 1) / 2) (p.t2Nodes + 2 + (2 * p.t2Nodes - 1)) "5ms" ∈
          (List.range (2 * p.t2Nodes)).map fun s =>
            computeLink (2 + s / 2) (p.t2Nodes + 2 + s) "5ms" :=
        List.mem_map.mpr ⟨2 * p.t2Nodes - 1, List.mem_range.mpr (by omega), rfl⟩
      refine ⟨_, List.mem_append_right _ hlast, ?_⟩
      show computeName (p.t2Nodes + 2 + (2 * p.t2Nodes - 1)) = computeName (3 * p.t2Nodes + 1)
      exact congrArg computeName (by omega)

/-! ## The links of the consumers -/

/-- The row that is written for a node of the last tier and a consumer. -/
def attach (p : GenParams) (s : ℕ × ℕ) : Row :=
  linkRow (computeName ((p.t2Nodes + 2 + s.1) % 2 ^ 32)) (consumerName s.2) "250Mbps" "1" "2ms" "10"

/-- A consumer link is written for a node that is there. -/
theorem consumerLink_eq (i suffix : ℕ) : consumerLink p i suffix =
    if (p.t2Nodes + 2 + i) % 2 ^ 32 < nodeCount p then .ok (attach p (i, suffix))
    else .error .outOfRange := by
  unfold consumerLink
  split_ifs with h
  · obtain ⟨n, hn, hname⟩ := exists_node h
    rw [hn, attach, ← hname]
  · rw [getElem?_nodeList_eq_none (Nat.not_lt.mp h)]

/-- **The links of the consumers**, as pairs of a node of the last tier and a consumer. -/
def consumerPairs (p : GenParams) : List (ℕ × ℕ) :=
  let q := p.numConsumerNodes / p.t3Nodes
  ((List.range p.t3Nodes).flatMap fun i => (List.range q).map fun j => (i, j + i * q)) ++
    ((List.range p.t3Nodes).takeWhile fun i => i + q * p.t3Nodes < p.numConsumerNodes).map
      fun i => (i, i + q * p.t3Nodes)

/-- The loops deal the consumers out. -/
theorem consumerPairs_eq_deal : consumerPairs p = Deal.deal p.t3Nodes p.numConsumerNodes := rfl

theorem lt_of_mem_consumerPairs {s : ℕ × ℕ} (hs : s ∈ consumerPairs p) :
    s.1 < p.t3Nodes ∧ s.2 < p.numConsumerNodes :=
  Deal.lt_of_mem_deal hs

/-- The nodes of the last tier that get a consumer are there. -/
def ConsumersFit (p : GenParams) : Prop :=
  ∀ i < min p.t3Nodes p.numConsumerNodes, (p.t2Nodes + 2 + i) % 2 ^ 32 < nodeCount p

theorem consumersFit_iff_pairs : ConsumersFit p ↔
    ∀ s ∈ consumerPairs p, (p.t2Nodes + 2 + s.1) % 2 ^ 32 < nodeCount p := by
  unfold ConsumersFit
  rw [consumerPairs_eq_deal]
  simp only [← Deal.mem_map_fst_deal, List.forall_mem_map]

/-- The index of the last of these nodes tells. -/
theorem consumersFit_iff (h₃ : 1 ≤ p.t3Nodes) (hn : 1 ≤ p.numConsumerNodes) : ConsumersFit p ↔
    (p.t2Nodes + 2) % 2 ^ 32 + min p.t3Nodes p.numConsumerNodes ≤ nodeCount p := by
  have hlt := nodeCount_lt (p := p)
  constructor
  · intro h
    by_contra hle
    have hfirst := h 0 (by omega)
    have hout := h (nodeCount p - (p.t2Nodes + 2) % 2 ^ 32) (by omega)
    omega
  · intro h i hi
    omega

instance : Decidable (ConsumersFit p) :=
  inferInstanceAs (Decidable (∀ i < min p.t3Nodes p.numConsumerNodes, _))

theorem consumerLinks_eq (h₃ : 1 ≤ p.t3Nodes) : consumerLinks p =
    if ConsumersFit p then .ok ((consumerPairs p).map (attach p)) else .error .outOfRange := by
  have hpairs := consumersFit_iff_pairs (p := p)
  unfold consumerPairs at hpairs ⊢
  dsimp only at hpairs ⊢
  unfold consumerLinks
  rw [if_neg (by omega)]
  dsimp only
  rw [mapM_eq_ite fun s => consumerLink_eq s.1 s.2, mapM_eq_ite fun i => consumerLink_eq i _]
  simp only [List.forall_mem_append, List.forall_mem_map] at hpairs
  by_cases heven : ∀ s ∈ (List.range p.t3Nodes).flatMap fun i =>
      (List.range (p.numConsumerNodes / p.t3Nodes)).map fun j =>
        (i, j + i * (p.numConsumerNodes / p.t3Nodes)),
      (p.t2Nodes + 2 + s.1) % 2 ^ 32 < nodeCount p
  · rw [if_pos heven, ok_bind]
    by_cases hrest : ∀ i ∈ (List.range p.t3Nodes).takeWhile fun i =>
        i + p.numConsumerNodes / p.t3Nodes * p.t3Nodes < p.numConsumerNodes,
        (p.t2Nodes + 2 + i) % 2 ^ 32 < nodeCount p
    · rw [if_pos hrest, if_pos (hpairs.mpr ⟨heven, hrest⟩), List.map_append, List.map_map]
      rfl
    · rw [if_neg hrest, if_neg fun h => hrest (hpairs.mp h).2]
      rfl
  · rw [if_neg heven, if_neg fun h => heven (hpairs.mp h).1]
    rfl

/-- When the section is written, and what it consists of. -/
theorem linksSection_eq_ok_iff {links : List Row} : linksSection p = .ok links ↔
    1 ≤ p.t3Nodes ∧ ConsumersFit p ∧ ∃ rows, computeLinks p = .ok rows ∧
      links = orchestratorLinks p ++ rows ++ (consumerPairs p).map (attach p) := by
  unfold linksSection
  by_cases h₃ : 1 ≤ p.t3Nodes
  · rw [consumerLinks_eq h₃]
    by_cases hfit : ConsumersFit p
    · rw [if_pos hfit, and_iff_right h₃, and_iff_right hfit]
      simp only [bind_eq_ok, pure_eq_ok, Except.ok.injEq, exists_eq_left']
      exact exists_congr fun rows => and_congr_right fun _ => eq_comm
    · rw [if_neg hfit]
      refine iff_of_false (fun h => ?_) fun h => hfit h.2.1
      obtain ⟨rows, -, h⟩ := bind_eq_ok.mp h
      cases h
  · refine iff_of_false (fun h => ?_) fun h => h₃ h.1
    obtain ⟨rows, -, h⟩ := bind_eq_ok.mp h
    rw [consumerLinks, if_pos (by omega)] at h
    cases h

/-! ## Links between declared nodes -/

/-- The names that a router section declares. -/
def declared (router : List Row) : List Str := router.map Row.name

theorem map_name_nodeList :
    (nodeList p).map NodeProperties.name = (List.range (nodeCount p)).map computeName := by
  ext i : 1
  rw [List.getElem?_map, getElem?_nodeList, List.getElem?_map]
  split_ifs with hi
  · rw [List.getElem?_range hi]
    rfl
  · rw [List.getElem?_eq_none (by rw [List.length_range]; omega)]
    rfl

theorem declared_eq {router : List Row} (h : routerSection p = .ok router) :
    declared router = orchestratorName ::
      (List.range (nodeCount p)).map computeName ++ (List.range p.numConsumerNodes).map consumerName := by
  obtain ⟨-, rfl⟩ := routerSection_eq_ok_iff.mp h
  rw [← map_name_nodeList]
  simp only [declared, List.map_append, List.map_cons, List.map_map]
  rfl

theorem mem_declared {router : List Row} (h : routerSection p = .ok router) {name : Str} :
    name ∈ declared router ↔ name = orchestratorName ∨ (∃ i < nodeCount p, name = computeName i) ∨
      ∃ i < p.numConsumerNodes, name = consumerName i := by
  rw [declared_eq h]
  simp only [List.cons_append, List.mem_cons, List.mem_append, List.mem_map, List.mem_range,
    eq_comm (b := name)]

/-- Both ends of every link are declared. -/
def EndpointsDeclared (router links : List Row) : Prop :=
  ∀ r ∈ links, r.getD 0 [] ∈ declared router ∧ r.getD 1 [] ∈ declared router

/-- The names of the nodes that the router section takes for tier `t`. -/
def tierNames (p : GenParams) (t : Tier) : List Str :=
  ((List.range' 1 (nodeCount p)).filter fun i => tier p i = t).map fun i => computeName (i - 1)

/-- The link joins the node to one of tier 2. -/
def joinsTierTwo (p : GenParams) (name : Str) (r : Row) : Bool :=
  (r.getD 0 [] = name && r.getD 1 [] ∈ tierNames p .two) ||
    (r.getD 1 [] = name && r.getD 0 [] ∈ tierNames p .two)

/-- Every node of tier 3 has exactly one link to tier 2. -/
def TierThreeLinked (p : GenParams) (links : List Row) : Prop :=
  ∀ name ∈ tierNames p .three, links.countP (joinsTierTwo p name) = 1

variable {router links : List Row}

theorem computeName_mem_declared (h : routerSection p = .ok router) :
    computeName i ∈ declared router ↔ i < nodeCount p := by
  rw [mem_declared h]
  constructor
  · rintro (h | ⟨j, hj, h⟩ | ⟨j, -, h⟩)
    · exact absurd h (computeName_ne_orchestratorName i)
    · exact computeName_injective h ▸ hj
    · exact absurd h (computeName_ne_consumerName i j)
  · exact fun hi => Or.inr (Or.inl ⟨i, hi, rfl⟩)

/-- **Declared ends.** The links between compute nodes stay within the nodes. -/
theorem endpointsDeclared_iff (hr : routerSection p = .ok router) (hl : linksSection p = .ok links) :
    EndpointsDeclared router links ↔ lastLinked p < nodeCount p := by
  obtain ⟨-, hfit, rows, hrows, rfl⟩ := linksSection_eq_ok_iff.mp hl
  constructor
  · intro h
    obtain ⟨r, hmem, hend⟩ := exists_lastLinked hrows
    have hlast := (h r (List.mem_append_left _ (List.mem_append_right _ hmem))).2
    rwa [hend, computeName_mem_declared hr] at hlast
  · intro hlast r hmem
    rcases List.mem_append.mp hmem with hmem | hmem
    · rcases List.mem_append.mp hmem with hmem | hmem
      · obtain ⟨n, hn, rfl⟩ := List.mem_map.mp hmem
        have hname : n.name ∈ (nodeList p).map NodeProperties.name :=
          List.mem_map_of_mem (List.mem_of_mem_tail hn)
        rw [map_name_nodeList] at hname
        obtain ⟨i, hi, hname⟩ := List.mem_map.mp hname
        refine ⟨(mem_declared hr).mpr (Or.inl rfl), ?_⟩
        show n.name ∈ declared router
        rw [← hname, computeName_mem_declared hr]
        exact List.mem_range.mp hi
      · obtain ⟨i, j, hij, hj, delay, -, rfl⟩ := mem_computeLinks hrows hmem
        exact ⟨(computeName_mem_declared hr).mpr (by omega),
          (computeName_mem_declared hr).mpr (by omega)⟩
    · obtain ⟨s, hs, rfl⟩ := List.mem_map.mp hmem
      exact ⟨(computeName_mem_declared hr).mpr (consumersFit_iff_pairs.mp hfit s hs),
        (mem_declared hr).mpr (Or.inr (Or.inr ⟨s.2, (lt_of_mem_consumerPairs hs).2, rfl⟩))⟩

/-! ## One link to tier 2 -/

/-- The numbers of the nodes of tier 2. -/
def InTierTwo (p : GenParams) (i : ℕ) : Prop :=
  2 ≤ i ∧ i < (p.t2Nodes + 2) % 2 ^ 32 ∧ i < nodeCount p

theorem computeName_mem_tierNames_two : computeName i ∈ tierNames p .two ↔ InTierTwo p i := by
  simp only [tierNames, List.mem_map, List.mem_filter, List.mem_range'_1, decide_eq_true_eq,
    computeName_injective.eq_iff, InTierTwo]
  constructor
  · rintro ⟨k, ⟨hk, ht⟩, rfl⟩
    unfold tier at ht
    split_ifs at ht with hc hg htwo
    omega
  · rintro ⟨h2, hi, hlt⟩
    refine ⟨i + 1, ⟨by omega, ?_⟩, by omega⟩
    unfold tier
    rw [if_neg (by omega), if_neg (by omega), if_pos (by omega)]

theorem exists_of_mem_tierNames {t : Tier} {name : Str} (h : name ∈ tierNames p t) :
    ∃ i, name = computeName i := by
  obtain ⟨i, -, rfl⟩ := List.mem_map.mp h
  exact ⟨_, rfl⟩

theorem mem_tierNames_three {name : Str} :
    name ∈ tierNames p .three ↔ ∃ j, 2 ≤ j ∧ (p.t2Nodes + 2) % 2 ^ 32 ≤ j ∧
      (p.t2Nodes + p.t1Nodes + 1) % 2 ^ 32 ≤ j ∧ j < nodeCount p ∧ name = computeName j := by
  simp only [tierNames, List.mem_map, List.mem_filter, List.mem_range'_1, decide_eq_true_eq]
  constructor
  · rintro ⟨i, ⟨hi, ht⟩, rfl⟩
    unfold tier at ht
    split_ifs at ht with hc hg htwo hthree
    exact ⟨i - 1, by omega, by omega, by omega, by omega, rfl⟩
  · rintro ⟨j, h2, htwo, hthree, hj, rfl⟩
    refine ⟨j + 1, ⟨by omega, ?_⟩, rfl⟩
    unfold tier
    rw [if_neg (by omega), if_neg (by omega), if_neg (by omega), if_pos (by omega)]

theorem joinsTierTwo_computeLink {a b : ℕ} {delay : String} :
    joinsTierTwo p (computeName j) (computeLink a b delay) = true ↔
      (a = j ∧ InTierTwo p b) ∨ (b = j ∧ InTierTwo p a) := by
  have hends : (computeLink a b delay).getD 0 [] = computeName a ∧
      (computeLink a b delay).getD 1 [] = computeName b := ⟨rfl, rfl⟩
  unfold joinsTierTwo
  rw [hends.1, hends.2]
  simp only [Bool.or_eq_true, Bool.and_eq_true, decide_eq_true_eq, computeName_mem_tierNames_two,
    computeName_injective.eq_iff]

theorem countP_orchestratorLinks :
    (orchestratorLinks p).countP (joinsTierTwo p (computeName j)) = 0 := by
  rw [List.countP_eq_zero]
  intro r hr
  obtain ⟨n, -, rfl⟩ := List.mem_map.mp hr
  have hends : (linkRow orchestratorName n.name "10000Mbps" "50" "5ms" "1000").getD 0 [] =
      orchestratorName := rfl
  have htwo : orchestratorName ∉ tierNames p .two := by
    intro h
    obtain ⟨k, h⟩ := exists_of_mem_tierNames h
    exact computeName_ne_orchestratorName k h.symm
  unfold joinsTierTwo
  rw [hends]
  simp [(computeName_ne_orchestratorName j).symm, htwo]

theorem countP_consumerLinks :
    ((consumerPairs p).map (attach p)).countP (joinsTierTwo p (computeName j)) = 0 := by
  rw [List.countP_eq_zero]
  intro r hr
  obtain ⟨s, -, rfl⟩ := List.mem_map.mp hr
  have hends : (attach p s).getD 1 [] = consumerName s.2 := rfl
  have htwo : consumerName s.2 ∉ tierNames p .two := by
    intro h
    obtain ⟨k, h⟩ := exists_of_mem_tierNames h
    exact computeName_ne_consumerName k s.2 h.symm
  unfold joinsTierTwo
  rw [hends]
  simp [(computeName_ne_consumerName j s.2).symm, htwo]

/-- How many links join node `j`, which is not of tier 2 or before it, to tier 2. -/
theorem countP_joinsTierTwo (hl : linksSection p = .ok links) (hlast : lastLinked p < nodeCount p)
    (h2 : 2 ≤ j) (hj : (p.t2Nodes + 2) % 2 ^ 32 ≤ j) :
    links.countP (joinsTierTwo p (computeName j)) =
      if p.t2Nodes + 1 ≠ 2 ^ 32 ∧ j < 3 * p.t2Nodes + 2 then 1 else 0 := by
  have hp := p.t2_lt
  obtain ⟨-, -, rows, hrows, rfl⟩ := linksSection_eq_ok_iff.mp hl
  rw [List.countP_append, List.countP_append, countP_orchestratorLinks, countP_consumerLinks,
    Nat.zero_add, Nat.add_zero]
  rw [computeLinks_eq] at hrows
  unfold lastLinked at hlast
  split_ifs at hrows hlast with hwrap hk
  · cases hrows
    rw [if_neg fun h => h.1 hwrap, List.countP_eq_zero]
    intro r hr
    rw [List.mem_singleton.mp hr, joinsTierTwo_computeLink]
    unfold InTierTwo
    omega
  · cases hrows
    have hmod : (p.t2Nodes + 2) % 2 ^ 32 = p.t2Nodes + 2 := Nat.mod_eq_of_lt (by omega)
    have hgateway : (gatewayLinks p).countP (joinsTierTwo p (computeName j)) = 0 := by
      rw [List.countP_eq_zero]
      intro r hr
      rcases List.mem_append.mp hr with hr | hr
      · rw [List.mem_singleton.mp hr, joinsTierTwo_computeLink]
        unfold InTierTwo
        omega
      · obtain ⟨l, hl, rfl⟩ := List.mem_map.mp hr
        rw [List.mem_range'_1] at hl
        rw [joinsTierTwo_computeLink]
        unfold InTierTwo
        omega
    have hbelow : ((List.range (2 * p.t2Nodes)).map fun s =>
        computeLink (2 + s / 2) (p.t2Nodes + 2 + s) "5ms").countP (joinsTierTwo p (computeName j)) =
          (List.range (2 * p.t2Nodes)).count (j - (p.t2Nodes + 2)) := by
      rw [List.countP_map, List.count_eq_countP]
      refine List.countP_congr fun s hs => ?_
      rw [List.mem_range] at hs
      rw [Function.comp_apply, joinsTierTwo_computeLink, beq_iff_eq]
      unfold InTierTwo
      omega
    rw [List.countP_append, hgateway, hbelow, List.nodup_range.count, Nat.zero_add]
    simp only [List.mem_range]
    split_ifs <;> omega

/-- **Tier 3** is linked when it is empty or ends with the links. -/
theorem tierThreeLinked_iff (hl : linksSection p = .ok links) (hlast : lastLinked p < nodeCount p) :
    TierThreeLinked p links ↔ nodeCount p ≤ 2 ∨
      nodeCount p ≤ (p.t2Nodes + p.t1Nodes + 1) % 2 ^ 32 ∨
        (p.t2Nodes + 1 ≠ 2 ^ 32 ∧ nodeCount p ≤ 3 * p.t2Nodes + 2) := by
  have hp := p.t2_lt
  constructor
  · intro h
    by_contra hnot
    -- the last node
    have hthree : computeName (nodeCount p - 1) ∈ tierNames p .three :=
      mem_tierNames_three.mpr ⟨_, by omega, by omega, by omega, by omega, rfl⟩
    have hone := h _ hthree
    rw [countP_joinsTierTwo hl hlast (by omega) (by omega), if_neg (by omega)] at hone
    exact absurd hone (by decide)
  · intro h name hname
    obtain ⟨j, h2, htwo, hthree, hj, rfl⟩ := mem_tierNames_three.mp hname
    rw [countP_joinsTierTwo hl hlast h2 htwo, if_pos (by omega)]

/-- Both sections can be written. -/
structure Writable (p : GenParams) : Prop where
  /-- no counter of type `int` overflows -/
  counters : p.numConsumerNodes < 2 ^ 31 ∧ (p.t2Nodes + 1 = 2 ^ 32 ∨ 3 * p.t2Nodes + 2 < 2 ^ 31)
  /-- the nodes that get consumers are there -/
  consumers : (p.t2Nodes + 2) % 2 ^ 32 + min p.t3Nodes p.numConsumerNodes ≤ nodeCount p

theorem writable_iff (hn : 1 ≤ p.numConsumerNodes) (h₃ : 1 ≤ p.t3Nodes) : Writable p ↔
    ∃ router links, routerSection p = .ok router ∧ linksSection p = .ok links := by
  constructor
  · rintro ⟨⟨hcount, hk⟩, hfit⟩
    obtain ⟨rows, hrows⟩ : ∃ rows, computeLinks p = .ok rows := by
      rw [computeLinks_eq]
      rcases hk with hk | hk
      · exact ⟨_, if_pos hk⟩
      · exact ⟨_, by rw [if_neg (by omega), if_pos hk]⟩
    exact ⟨_, _, routerSection_eq_ok_iff.mpr ⟨hcount, rfl⟩,
      linksSection_eq_ok_iff.mpr ⟨h₃, (consumersFit_iff h₃ hn).mpr hfit, rows, hrows, rfl⟩⟩
  · rintro ⟨router, links, hr, hl⟩
    obtain ⟨-, hfit, rows, hrows, -⟩ := linksSection_eq_ok_iff.mp hl
    refine ⟨⟨(routerSection_eq_ok_iff.mp hr).1, ?_⟩, (consumersFit_iff h₃ hn).mp hfit⟩
    rw [computeLinks_eq] at hrows
    split_ifs at hrows with hwrap hk
    · exact Or.inl hwrap
    · exact Or.inr hk

/-- **Tiers that fit.** -/
structure TiersFit (p : GenParams) : Prop extends Writable p where
  /-- the last linked node is there -/
  linked : lastLinked p < nodeCount p
  /-- tier 3 is empty, or it ends with the links -/
  three : nodeCount p ≤ 2 ∨ nodeCount p ≤ (p.t2Nodes + p.t1Nodes + 1) % 2 ^ 32 ∨
    (p.t2Nodes + 1 ≠ 2 ^ 32 ∧ nodeCount p ≤ 3 * p.t2Nodes + 2)

/-- Where the number of nodes does not wrap, the tiers fit when no counter overflows and
`t1 + t3 = 2 * t2 + 1`. -/
theorem tiersFit_iff (h₁ : 1 ≤ p.t1Nodes) (h₂ : 1 ≤ p.t2Nodes) (h₃ : 1 ≤ p.t3Nodes)
    (hsum : p.t1Nodes + p.t2Nodes + p.t3Nodes + 2 < 2 ^ 32) :
    TiersFit p ↔ p.numConsumerNodes < 2 ^ 31 ∧ 3 * p.t2Nodes + 2 < 2 ^ 31 ∧
      p.t1Nodes + p.t3Nodes = 2 * p.t2Nodes + 1 := by
  have hcount : nodeCount p = p.t1Nodes + p.t2Nodes + p.t3Nodes + 1 := by
    unfold nodeCount
    omega
  have hlast : lastLinked p = 3 * p.t2Nodes + 1 := if_neg (by omega)
  constructor
  · rintro ⟨⟨hcounters, -⟩, hlinked, hthree⟩
    rw [hcount] at hlinked hthree
    omega
  · rintro ⟨hn, hk, heq⟩
    refine ⟨⟨⟨hn, Or.inr hk⟩, ?_⟩, ?_, ?_⟩
    · omega
    · omega
    · omega

end DataGen

open DataGen

/-- **The generated links** connect declared nodes, and each node of tier 3 to one node of tier 2,
exactly when the tiers fit. -/
theorem links_sound_iff (p : GenParams) (hn : 1 ≤ p.numConsumerNodes) (h₃ : 1 ≤ p.t3Nodes) :
    (∃ router links, routerSection p = .ok router ∧ linksSection p = .ok links ∧
      EndpointsDeclared router links ∧ TierThreeLinked p links) ↔ TiersFit p := by
  constructor
  · rintro ⟨router, links, hr, hl, hends, hthree⟩
    have hlast := (endpointsDeclared_iff hr hl).mp hends
    exact ⟨(writable_iff hn h₃).mpr ⟨router, links, hr, hl⟩, hlast,
      (tierThreeLinked_iff hl hlast).mp hthree⟩
  · rintro ⟨hwritable, hlast, hthree⟩
    obtain ⟨router, links, hr, hl⟩ := (writable_iff hn h₃).mp hwritable
    exact ⟨router, links, hr, hl, (endpointsDeclared_iff hr hl).mpr hlast,
      (tierThreeLinked_iff hl hlast).mpr hthree⟩

/-- The arguments of a run with the Zipf distribution. -/
def GenParams.zipfRun (n t1 t2 t3 numFunc numData simTime : UInt32) (low high : Int32) : GenParams :=
  { numConsumerNodes := n.toNat, t1Nodes := t1.toNat, t2Nodes := t2.toNat, t3Nodes := t3.toNat
    cloudScale := 1, numFunc := numFunc.toNat, numData := numData.toNat
    inputRange := (low.toInt, high.toInt), simTime := simTime.toNat, zipf := true
    nfnLoadDistributionScenario := false, homogeneousNodes := false
    consumers_lt := n.toNat_lt, t1_lt := t1.toNat_lt, t2_lt := t2.toNat_lt, t3_lt := t3.toNat_lt
    numFunc_lt := numFunc.toNat_lt, numData_lt := numData.toNat_lt, simTime_lt := simTime.toNat_lt
    le_inputRange := ⟨low.le_toInt, high.le_toInt⟩, inputRange_lt := ⟨low.toInt_lt, high.toInt_lt⟩ }

/-- The arguments of a run with `n` consumers and the given tiers. -/
def tiers (n t1 t2 t3 : UInt32) : GenParams := .zipfRun n t1 t2 t3 2 1 200 0 2

/-- One node in each tier: a link leads to a node that is not there. -/
theorem links_unsound :
    ¬ ∀ p : GenParams, 1 ≤ p.numConsumerNodes → 1 ≤ p.t1Nodes → 1 ≤ p.t2Nodes → 1 ≤ p.t3Nodes →
      ∃ router links, routerSection p = .ok router ∧ linksSection p = .ok links ∧
        EndpointsDeclared router links ∧ TierThreeLinked p links := by
  intro hall
  obtain ⟨router, links, hr, hl, hends, -⟩ :=
    hall (tiers 1 1 1 1) (by decide) (by decide) (by decide) (by decide)
  have hlt := (endpointsDeclared_iff hr hl).mp hends
  revert hlt
  decide

/-- The default tiers 1, 2, 4. -/
theorem links_sound_iff_default : ∃ router links, routerSection (tiers 20 1 2 4) = .ok router ∧
    linksSection (tiers 20 1 2 4) = .ok links ∧ EndpointsDeclared router links ∧
      TierThreeLinked (tiers 20 1 2 4) links :=
  (links_sound_iff (tiers 20 1 2 4) (by decide) (by decide)).mpr
    ((tiersFit_iff (by decide) (by decide) (by decide) (by decide)).mpr (by decide))

end IncSim
