import IncSim.Node.Requests
import IncSim.Node.SwitchEffect
import IncSim.Producer.NullFree

/-!
# Switch commands over NDN

The orchestrator writes a command as a URI, the node takes the name of the interest apart.

* `ndn_switchName_isOk`: the handler ends on every node without null pointers.
* **`ndn_command_exact`**: an NDN switch command changes exactly what it names.
-/

namespace IncSim

open PartialRun

open ComputeNode

variable {n : ComputeNode} {node : Str} {op : SwitchOp} {funcs : List Str}

theorem ndn_switchName_isOk (hn : n.NonNull) (node : Str) (op : SwitchOp) (funcs : List Str) :
    ∃ m reply, n.ndnFunctionSwitchHandler (switchName node op funcs) = .ok (m, reply) ∧
      switchAll op n (funcs.map funcKey) = .ok m := by
  obtain ⟨m, hm⟩ : ∃ m, switchAll op n (funcs.map funcKey) = .ok m :=
    switchAll_isOk.mpr fun k _ => lookup_of_nonNull hn k
  have hnode := ndnFunctionSwitchHandler_node n node op funcs
  rw [hm] at hnode
  obtain ⟨⟨m', reply⟩, hq, rfl⟩ := map_eq_ok.mp hnode
  exact ⟨m', reply, hq, hm⟩

/-- **An NDN switch command changes exactly what it names.** The name is the one whose URI is the
command that the orchestrator builds. -/
theorem ndn_command_exact [NdnCxx] (hread : NdnCxx.ReadsPlain) (hn : n.NonNull) {interest : Name}
    (hslash : ∀ c ∈ interest.comps, '/' ∉ c) (hnode : '/' ∉ node) (hfuncs : ∀ f ∈ funcs, '/' ∉ f)
    (huri : interest.toUri = switchCommand node op funcs) :
    ∃ m reply, n.ndnOrchestratorRequestResolution interest = .ok (m, reply) ∧
      Switched op (funcs.map funcKey) n m := by
  have hname : interest = switchName node op funcs := eq_switchName hslash hnode hfuncs huri
  obtain ⟨m, reply, hq, hm⟩ := ndn_switchName_isOk hn node op funcs
  refine ⟨m, reply, ?_, switched_of_switchAll hm⟩
  rw [hname, ndn_resolution_of_switchName hread, hq]

/-- A node with two enabled functions, one of them on the exclude list twice. -/
def excludedTwice : ComputeNode :=
  { ComputeNode.fresh "n".toList 10 4 [.fresh "f".toList 1 1 0, .fresh "g".toList 1 1 0] with
    funcExcludeList := ["/f".toList, "/f".toList] }

theorem ndn_command_exact_excludedTwice :
    ∃ m reply, @ndnOrchestratorRequestResolution excludedTwice plainUri
        (switchName "n".toList .enable ["f".toList]) = .ok (m, reply) ∧
      m.funcExcludeList = ["/f".toList] := by
  obtain ⟨m, reply, hq, hm⟩ := @ndn_command_exact excludedTwice "n".toList .enable ["f".toList]
    plainUri plainUri_readsPlain (by decide) (switchName "n".toList .enable ["f".toList])
    (by decide) (by decide) (by decide) (toUri_switchName _ _ _)
  refine ⟨m, reply, hq, ?_⟩
  rw [hm.readmitted rfl]
  decide

end IncSim
