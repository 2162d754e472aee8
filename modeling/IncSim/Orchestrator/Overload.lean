import Mathlib.Data.Rat.Cast.Order
import Mathlib.Tactic.Linarith
import Mathlib.Tactic.Ring
import IncSim.Orchestrator.Management

/-!
# Overloaded nodes

The test on the load of a node that comes before a `Disable` has the factor `(4/5)`, a quotient of
two `int`s.

* `thirtieths`, `ManagementApp.withInterval`: times in thirtieths of a second, in which the
  quantities of a round with an interval of whole seconds are exact.
* `capacity`, `busyTest_thirtieths`, `idleTest_thirtieths`: the two tests as inequalities of rationals.
* `busy_thirtieths`: what is left of the first one.
* **`disables_overloaded_iff`**: when only overloaded nodes are sent a `Disable`.
-/

namespace IncSim

/-- Times in thirtieths of a second; an `int` is a number of seconds. -/
@[reducible] def thirtieths : Ns3Time :=
  ⟨fun n => 30 * n, fun t => t / 3, fun t n => t * n, fun t n => t / n, fun t t' => t < t'⟩

namespace ManagementApp

variable (a : ManagementApp) (T : ℕ) (node : NodeInfo) (sum : ℤ)

/-- The app with an orchestration interval of `T` seconds. -/
def withInterval : ManagementApp := { a with interval := 30 * T }

/-- The computations that a node is taken to be able to execute between two rounds. -/
def capacity : ℚ := (T : ℚ) / 3 * node.cpu.1.toNat

theorem third_seconds : (30 * (T : ℤ)) / 3 = 10 * T := by omega

/-- **The test before a `Disable`**, with its integer quotient. -/
theorem busyTest_thirtieths : @busyTest thirtieths (a.withInterval T) node sum = true ↔
    capacity T node * ((4 / 5 : ℤ) : ℚ) < sum := by
  have hquot : (4 / 5 : ℤ) = 0 := rfl
  have htest : @busyTest thirtieths (a.withInterval T) node sum = true ↔
      (30 * (T : ℤ)) / 3 * node.cpu.1.toNat * (4 / 5) < 30 * sum := decide_eq_true_iff
  rw [htest, hquot, Int.cast_zero, mul_zero, mul_zero, Int.cast_pos]
  omega

/-- **The test before an `Enable`.** -/
theorem idleTest_thirtieths : @idleTest thirtieths (a.withInterval T) node sum = true ↔
    sum = 0 ∨ (sum : ℚ) < capacity T node / 2 := by
  have htest : @idleTest thirtieths (a.withInterval T) node sum = true ↔
      sum = 0 ∨ 30 * sum < ((30 * (T : ℤ)) / 3 * node.cpu.1.toNat) / 2 := by
    show (sum == 0 || decide _) = true ↔ _
    rw [Bool.or_eq_true, beq_iff_eq, decide_eq_true_iff]
    exact Iff.rfl
  have hhalf : (10 * (T : ℤ) * node.cpu.1.toNat) / 2 = 5 * (T * node.cpu.1.toNat) := by
    rw [mul_assoc]
    omega
  have hcap : capacity T node / 2 = (((T * node.cpu.1.toNat : ℕ) : ℤ) : ℚ) / 6 := by
    rw [capacity]
    push_cast
    ring
  rw [htest, third_seconds, hhalf, hcap, lt_div_iff₀ (by norm_num)]
  have hcast : (sum : ℚ) * 6 < (((T * node.cpu.1.toNat : ℕ) : ℤ) : ℚ) ↔
      sum * 6 < ((T * node.cpu.1.toNat : ℕ) : ℤ) := by
    exact_mod_cast Iff.rfl
  rw [hcast]
  push_cast
  omega

variable {a T node}

/-- What is left of the test: something was executed. -/
theorem busy_thirtieths : @busy thirtieths (a.withInterval T) node = true ↔
    0 < (sumExeCounter node.functionsCurrent).toInt := by
  have hquot : (4 / 5 : ℤ) = 0 := rfl
  show @busyTest thirtieths (a.withInterval T) node _ = true ↔ _
  rw [busyTest_thirtieths, hquot, Int.cast_zero, mul_zero, Int.cast_pos]

/-- Every `Disable` of a round is addressed to a node whose execution counters add up to more than
four fifths of its capacity. -/
def DisablesOverloaded (a : ManagementApp) (T : ℕ) : Prop :=
  ∀ c ∈ @functionSwitchHandler thirtieths (a.withInterval T), c.op = .disable →
    ∃ node, a.storage.find? c.node = some node ∧ 4 / 5 * capacity T node < load node

/-- **Functions are only switched off on overloaded nodes** exactly when no commands are sent at
all, or every node that executed something and has an enabled function that it did not execute is
overloaded. -/
theorem disables_overloaded_iff (a : ManagementApp) (T : ℕ) : DisablesOverloaded a T ↔
    (a.Communicates → ∀ K node, a.storage.find? K = some node →
      0 < (sumExeCounter node.functionsCurrent).toInt →
      (∃ f ∈ node.functionsCurrent, f.status = true ∧ f.funcExeCounter = 0) →
      4 / 5 * capacity T node < load node) := by
  let := thirtieths
  have hunused : ∀ node : NodeInfo, namesOf unused node ≠ [] ↔
      ∃ f ∈ node.functionsCurrent, f.status = true ∧ f.funcExeCounter = 0 := by
    intro node
    rw [Ne, namesOf_eq_nil, Bool.not_eq_false, List.any_eq_true]
    simp only [unused, Bool.and_eq_true, beq_iff_eq]
  constructor
  · intro h hcomm K node hn hpos hex
    have hsent : ⟨K, .disable, namesOf unused node⟩ ∈ functionSwitchHandler (a.withInterval T) :=
      (mem_functionSwitchHandler _).mpr
        ⟨hcomm, (hunused node).mpr hex, K, node, hn, .disable (busy_thirtieths.mpr hpos)⟩
    obtain ⟨node', hn', hlt⟩ := h _ hsent rfl
    obtain rfl : node = node' := Option.some.inj (hn.symm.trans hn')
    exact hlt
  · intro h c hc hop
    obtain ⟨hcomm, hne, K, node, hn, hplan⟩ :=
      (a.withInterval T).mem_functionSwitchHandler.mp hc
    cases hplan with
    | disable hb =>
      exact ⟨node, hn, h hcomm K node hn (busy_thirtieths.mp hb) ((hunused node).mp hne)⟩
    | enable => exact SwitchOp.noConfusion hop
    | missed => exact SwitchOp.noConfusion hop

end ManagementApp

/-- A node with one core, an enabled function that was not executed and one that was once. -/
def idleNode : ManagementApp where
  interval := 0
  communicationModel := "In-Band".toList
  storage := .single "/n".toList { NodeInfo.new with
    cpu := (1, 1)
    functionsCurrent := [.counted "f".toList true 0 0, .counted "g".toList true 1 0] }

/-- In an interval of ten seconds it could execute three computations. -/
theorem disables_underloaded : ¬ ManagementApp.DisablesOverloaded idleNode 10 := by
  intro h
  obtain ⟨node, hn, hlt⟩ := h ⟨"/n".toList, .disable, ["/f".toList]⟩ (by decide) rfl
  obtain ⟨-, rfl⟩ := Prod.mk.inj (List.mem_singleton.mp (OrdMap.find?_eq_some_iff_mem.mp hn))
  have hcores : (1 : UInt32).toNat = 1 := rfl
  have hload : ManagementApp.load { NodeInfo.new with
    cpu := (1, 1)
    functionsCurrent := [.counted "f".toList true 0 0, .counted "g".toList true 1 0] } = 1 := rfl
  rw [hload, ManagementApp.capacity, hcores] at hlt
  norm_num at hlt

end IncSim
