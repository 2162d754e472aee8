import IncSim.Dataset.ReadBack
import IncSim.Dataset.RequestName
import IncSim.Producer.Allowed

/-!
# The arity of generated requests

A signature, the inputs of a request, the number of parameters that the topology reader counts and
the data names that the resolution engine finds all follow the number of inputs of one function.

* `numInputs_inputSignature`: the reader counts the inputs of a signature.
* `OfFunction`: a request for a function with as many operands as it has inputs; with the Zipf
  distribution every request is one.
* `readBack_answerable`: what such a request finds at a node with the functions of the dataset.
* `System.commandedStep`: app events and switch commands at a node with any number of apps.
* **`requests_answerable_iff`**: no compute node but the first ever refuses a generated request, exactly
  when the reader gets to the functions.
-/

namespace IncSim

open PartialRun Extract

namespace DataGen

/-! ## Signatures -/

theorem length_operands (inputs : Str) : (operands inputs).length = Topology.numInputs inputs := by
  unfold operands Topology.numInputs
  split_ifs <;> rfl

theorem inputSignature_ok {n : ℤ} {signature : Str} (hn : 1 ≤ n)
    (h : inputSignature n = .ok signature) : ∃ vs : List ℕ, vs.length = n.toNat ∧ vs ≠ [] ∧
      signature = (inputsText vs).dropLast := by
  rw [inputSignature_eq hn] at h
  unfold popBack at h
  split_ifs at h
  obtain rfl := Except.ok.inj h
  refine ⟨(List.range' 1 n.toNat).map (· % 2), ?_, ?_, ?_⟩
  · rw [List.length_map, List.length_range']
  · intro hnil
    have hlen := congrArg List.length hnil
    rw [List.length_map, List.length_range', List.length_nil] at hlen
    omega
  · rw [inputsText, List.flatMap_map]

/-- **The reader counts the inputs of a signature.** -/
theorem numInputs_inputSignature {n : ℤ} {signature : Str} (hn : 1 ≤ n)
    (h : inputSignature n = .ok signature) : Topology.numInputs signature = n.toNat := by
  obtain ⟨vs, hlen, hne, rfl⟩ := inputSignature_ok hn h
  rw [← length_operands, operands_inputsText hne, List.length_map, hlen]

theorem word_operandName (v : ℕ) : Word (operandName v) :=
  word_append_decimal (Word.of_all (by decide) rfl) v

/-- A signature is one word. -/
theorem word_inputSignature {n : ℤ} {signature : Str} (hn : 1 ≤ n)
    (h : inputSignature n = .ok signature) : Word signature := by
  obtain ⟨vs, -, hne, rfl⟩ := inputSignature_ok hn h
  constructor
  · intro hempty
    have hops := operands_inputsText hne
    obtain ⟨v, vs, rfl⟩ := List.exists_cons_of_ne_nil hne
    have hhead : operandName v ∈ operands [] := by
      rw [← hempty, hops]
      exact List.mem_cons_self
    exact (word_operandName v).1 (List.mem_singleton.mp hhead)
  · intro c hc
    obtain ⟨v, -, hv⟩ := List.mem_flatMap.mp (List.mem_of_mem_dropLast hc)
    rcases List.mem_append.mp hv with hv | hv
    · exact (word_operandName v).2 c hv
    · rw [List.mem_singleton.mp hv]
      decide

/-! ## Requests -/

variable {p : GenParams} {t : Tables}

/-- A request for function `i`, with as many operands as the function has inputs. -/
def OfFunction (funcs : List FuncProperties) (r : Request) : Prop :=
  ∃ (i : ℕ) (f : FuncProperties), funcs[i]? = some f ∧ r.func = f.name ∧
    ∃ vs : List ℕ, operands r.inputs = vs.map operandName ∧ vs.length = f.numInputs.toNat

theorem at?_ok {α : Type} {l : List α} {i : ℕ} {a : α} (h : at? l i = .ok a) : l[i]? = some a := by
  unfold at? at h
  split at h
  · next b hb =>
    cases h
    exact hb
  · cases h

/-- With the Zipf distribution a request has the inputs of its own function. -/
theorem everyRequest_ofFunction (hz : p.zipf = true) : EveryRequest p t (OfFunction t.funcs) := by
  intro consumer func arity ds r rest heq h
  obtain rfl := heq hz
  obtain ⟨a, ha, h⟩ := bind_eq_ok.mp h
  obtain ⟨⟨inputs, ds'⟩, hinputs, h⟩ := bind_eq_ok.mp h
  obtain ⟨f, hf, h⟩ := bind_eq_ok.mp h
  obtain ⟨freq, -, h⟩ := bind_eq_ok.mp h
  obtain ⟨start, -, h⟩ := bind_eq_ok.mp h
  obtain ⟨stop, -, h⟩ := bind_eq_ok.mp h
  cases h
  obtain ⟨-, vs, -, hops, hlen, -⟩ := generateInputList_ok hinputs
  obtain rfl : a = f := by
    have hget := at?_ok ha
    rw [at?_ok hf] at hget
    exact (Option.some.inj hget).symm
  exact ⟨func, a, at?_ok ha, rfl, vs, hops, hlen⟩

theorem plainComp_operandName (v : ℕ) : PlainComp (operandName v) :=
  PlainComp.append_decimal (PlainComp.of_all (by decide) rfl) v

theorem plainComp_funcName (i : ℕ) : PlainComp (funcName i) :=
  PlainComp.append_decimal (PlainComp.of_all (by decide) rfl) i

theorem not_isSequenceNumber {c : Str} (h : PlainComp c) : ¬ IsSequenceNumber c := by
  intro hseq
  unfold IsSequenceNumber at hseq
  rw [Str.contains_iff, Name.toUri_singleton] at hseq
  rcases List.mem_cons.mp (hseq.subset (a := '%') (by decide)) with h' | h'
  · revert h'
    decide
  · exact h.not_mem (by decide) (by decide) (by decide) h'

theorem ne_of_head? {c d : Str} (h : c.head? ≠ d.head?) : c ≠ d := fun heq => h (congrArg _ heq)

theorem noKeyword_operandName (v : ℕ) : NoKeyword (operandName v) :=
  ⟨ne_of_head? (by decide : some 'O' ≠ some 'l'), ne_of_head? (by decide : some 'O' ≠ some 'F'),
    ne_of_head? (by decide : some 'O' ≠ some 'D')⟩

theorem noKeyword_funcName (i : ℕ) : NoKeyword (funcName i) :=
  ⟨ne_of_head? (by decide : some 'f' ≠ some 'l'), ne_of_head? (by decide : some 'f' ≠ some 'F'),
    ne_of_head? (by decide : some 'f' ≠ some 'D')⟩

theorem operandName_ne_null (v : ℕ) : operandName v ≠ "null".toList :=
  ne_of_head? (by decide : some 'O' ≠ some 'n')

/-! ## At a compute node -/

section Nodes

variable {funcs : List FuncProperties}

/-- What the generator says about its functions. -/
def Numbered (funcs : List FuncProperties) : Prop :=
  ∀ (i : ℕ) (f : FuncProperties), funcs[i]? = some f → f.name = funcName i ∧
    inputSignature f.numInputs = .ok f.inputSignature ∧ 1 ≤ f.numInputs ∧ f.numInputs < 2 ^ 31

theorem Numbered.readable (h : Numbered funcs) : ∀ f ∈ funcs, f.Readable := by
  intro f hf
  obtain ⟨i, hi⟩ := List.mem_iff_getElem?.mp hf
  obtain ⟨hname, hsignature, hpos, -⟩ := h i f hi
  refine ⟨?_, ?_, word_inputSignature hpos hsignature⟩
  · rw [hname]
    exact word_append_decimal (Word.of_all (by decide) rfl) i
  · rw [hname]
    exact nofun

variable [NdnCxx] {top : Topology} {n : ComputeNode} {r : Request} {seq : Str}

/-- The functions that the reader makes of the functions section. -/
theorem getElem?_functionMap (hread : NdnCxx.ReadsPlain) (hb : ReadBack p funcs top)
    (hfuncs : Numbered funcs) {i : ℕ} {q : Str × IncComputation} (hq : top.functionMap[i]? = some q) :
    q.1 = '/' :: funcName i ∧ ∃ f, funcs[i]? = some f ∧ q.2.paramNumber.toNat = f.numInputs.toNat := by
  rw [Topology.functionMap, List.getElem?_map] at hq
  obtain ⟨e, he, rfl⟩ := Option.map_eq_some_iff.mp hq
  have harity : (top.functionList.map Topology.arity)[i]? = some (Topology.arity e) := by
    rw [List.getElem?_map, he]
    rfl
  rw [hb.functionList, List.getElem?_map] at harity
  obtain ⟨f, hf, heq⟩ := Option.map_eq_some_iff.mp harity
  obtain ⟨hname, hsignature, hpos, hlt⟩ := hfuncs i f hf
  have hcount := numInputs_inputSignature hpos hsignature
  obtain ⟨hkey, hparam⟩ := Prod.mk.inj heq
  refine ⟨?_, f, hf, ?_⟩
  · dsimp only
    rw [← hkey, hname, hread.ofUri_comp _ (plainComp_funcName i), Name.toUri_singleton]
  · dsimp only
    rw [← hparam, hcount]
    exact UInt32.toNat_ofNat_of_lt' (by rw [UInt32.size]; omega)

/-- The URI of function `i` finds it, with the number of its inputs. -/
theorem lookup_functionMap (hread : NdnCxx.ReadsPlain) (hb : ReadBack p funcs top)
    (hfuncs : Numbered funcs) {i : ℕ} {f : FuncProperties} (hf : funcs[i]? = some f) :
    ∃ c, top.functionMap.lookup ('/' :: funcName i) = some c ∧
      c.paramNumber.toNat = f.numInputs.toNat := by
  have hlength : top.functionMap.length = funcs.length := by
    have h := congrArg List.length hb.functionList
    rw [List.length_map, List.length_map] at h
    rw [Topology.functionMap, List.length_map, h]
  obtain ⟨hi, -⟩ := List.getElem?_eq_some_iff.mp hf
  obtain ⟨q, hq⟩ : ∃ q, top.functionMap[i]? = some q :=
    ⟨_, List.getElem?_eq_getElem (by omega)⟩
  obtain ⟨hkey, f', hf', hparam⟩ := getElem?_functionMap hread hb hfuncs hq
  obtain rfl : f = f' := Option.some.inj (hf.symm.trans hf')
  refine ⟨q.2, Assoc.lookup_of_getElem? (by rw [hq, ← hkey]) fun j q' hq' hk => ?_, hparam⟩
  rw [(getElem?_functionMap hread hb hfuncs hq').1] at hk
  exact decimal_injective (List.append_cancel_left (List.cons.inj hk).2)

/-- The name of a request for function `i`. -/
theorem requestName_operands (hread : NdnCxx.ReadsPlain) {i : ℕ} {vs : List ℕ}
    (hfunc : r.func = funcName i) (hops : operands r.inputs = vs.map operandName) (hne : vs ≠ []) :
    requestName r.row seq = ⟨requestHead (funcName i) ++ (vs.map operandName ++ [seq])⟩ := by
  have hsplit : r.inputs.splitOn ',' = vs.map operandName := by
    unfold operands at hops
    split_ifs at hops
    · exact absurd (List.map_eq_nil_iff.mp hops.symm) hne
    · exact hops
  have hplain : ∀ c ∈ vs.map operandName, PlainComp c ∧ c ≠ "null".toList :=
    List.forall_mem_map.mpr fun v _ => ⟨plainComp_operandName v, operandName_ne_null v⟩
  have hcolumn : r.row.getD 1 [] = funcName i := hfunc
  have h : requestName r.row seq = _ :=
    requestName_eq hread (hcolumn ▸ plainComp_funcName i) hsplit hplain
  rwa [hcolumn] at h

/-- **A request for function `i`** finds it at every compute node but the first. -/
theorem readBack_answerable (hread : NdnCxx.ReadsPlain) (hb : ReadBack p funcs top)
    (hfuncs : Numbered funcs) (hn : n ∈ top.computeNodes.drop 1) (hr : OfFunction funcs r)
    (hseq : IsSequenceNumber seq) : Answerable n (requestName r.row seq) := by
  obtain ⟨i, f, hf, hname, vs, hops, hlen⟩ := hr
  obtain ⟨hfname, -, hpos, -⟩ := hfuncs i f hf
  have hne : vs ≠ [] := by
    rintro rfl
    rw [List.length_nil] at hlen
    omega
  rw [requestName_operands hread (hname.trans hfname) hops hne]
  obtain ⟨n₀, hn₀, rfl⟩ := hb.filled n hn
  obtain ⟨c, hc, hparam⟩ := lookup_functionMap hread hb hfuncs hf
  refine ⟨⟨[funcName i]⟩, c.copy, extractFunctionName_requestName _, ?_, ?_⟩
  · rw [ComputeNode.deref_eq_ok, ComputeNode.lookup_fill, hn₀, Name.toUri_singleton, hc]
    rfl
  · have hwords : ∀ c ∈ vs.map operandName, NoKeyword c ∧ ¬ IsSequenceNumber c :=
      List.forall_mem_map.mpr fun v _ =>
        ⟨noKeyword_operandName v, not_isSequenceNumber (plainComp_operandName v)⟩
    rw [extractDataNames_requestName (noKeyword_funcName i) hwords hseq, List.length_map,
      List.length_map, hlen]
    exact hparam.symm

end Nodes

end DataGen

/-! ## Runs of a node -/

namespace System

variable {ι : Type} [DecidableEq ι]

/-- One event of app `e.1`, or one switch command. -/
def commandedStep (s : System ι) (e : ι × Commanded) : Except Fault (System ι) := do
  let h ← (s.host e.1).commandedStep e.2
  pure (s.put e.1 h)

theorem commandedStep_same {α : Type} {attr : IncComputation → α} (ha : Fixed attr) {s s' : System ι}
    {e : ι × Commanded} (hs : s.commandedStep e = .ok s') : ComputeNode.Same attr s.node s'.node := by
  obtain ⟨a, e⟩ := e
  obtain ⟨h, hh, hs⟩ := bind_eq_ok.mp hs
  cases hs
  cases e with
  | app e => exact Host.step_admits ha.admits hh
  | ndnSwitch interest =>
    obtain ⟨node, hnode, hh⟩ := bind_eq_ok.mp hh
    cases hh
    exact ComputeNode.switchCommandStep_same ha hnode
  | udpSwitch packet_data =>
    obtain ⟨⟨node, reply⟩, hnode, hh⟩ := bind_eq_ok.mp hh
    cases hh
    exact ComputeNode.udpFunctionSwitchHandler_same ha hnode

theorem run_commandedStep_same {α : Type} {attr : IncComputation → α} (ha : Fixed attr)
    {s s' : System ι} {es : List (ι × Commanded)} (hrun : run commandedStep s es = .ok s') :
    ComputeNode.Same attr s.node s'.node :=
  run_invariant (P := fun t : System ι => ComputeNode.Same attr s.node t.node)
    (fun _ _ _ ht hstep => ht.trans (commandedStep_same ha hstep)) (ComputeNode.Same.refl attr _) hrun

end System

/-- In every run of a node that starts with the numbers of parameters of `n`, the interest is not
refused. -/
def NeverRefused (n : ComputeNode) (interest : Name) : Prop :=
  ∀ (ι : Type) [DecidableEq ι] (s s' : System ι) (es : List (ι × Commanded)),
    ComputeNode.Same IncComputation.paramNumber n s.node → run System.commandedStep s es = .ok s' →
    ∀ cs, ∃ n' decision names, getFetchDecisions cs interest s'.node = .ok (n', decision, names) ∧
      decision ≠ .nack

theorem Answerable.neverRefused {n : ComputeNode} {interest : Name} (h : Answerable n interest) :
    NeverRefused n interest := by
  intro ι _ s s' es hs hrun cs
  have hsame := hs.trans (System.run_commandedStep_same fixed_paramNumber hrun)
  exact (h.same hsame).ne_nack cs

/-! ## All requests -/

namespace DataGen

section Whole

variable [NdnCxx] {R : Type} [Zero R] [DecidableEq R] [LE R] [DecidableLE R] {p : GenParams}
  {dist : ℕ → R} {ds : List ℕ} {us : List R} {d : Dataset}

/-- **No compute node but the first ever refuses a generated request.** The file is read, with the compute
nodes that it declares; at each of them but the first the function of the request is known, with as many
parameters as the request has data names. -/
def NeverRefusedBy [Ns3Names] (p : GenParams) (junk : Junk) (d : Dataset) (r : Request) : Prop :=
  ∃ top, Topology.readTopology junk d.lines = some top ∧
    top.computeNodes.map ComputeNode.name = computeNames p ∧
    ∀ n ∈ top.computeNodes.drop 1, ∀ seq, IsSequenceNumber seq →
      Answerable n (requestName r.row seq) ∧ NeverRefused n (requestName r.row seq)

/-- **Generated requests pass the arity check** exactly when there are none, or the last node that a
link names is declared, so that the reader gets to the functions. -/
theorem requests_answerable_iff [Ns3Names] (hread : NdnCxx.ReadsPlain)
    (hnames : Ns3Names.Documented) (h : generateData p dist ds us = .ok d) (hz : p.zipf = true)
    (hmin : 0 ≤ p.inputRange.1) (hle : p.inputRange.1 ≤ p.inputRange.2) (junk : Junk) :
    (∀ r ∈ d.requests, NeverRefusedBy p junk d r) ↔ NoRequests p ∨ lastLinked p < nodeCount p := by
  obtain ⟨funcs, ds₁, names, ds₂, ds₃, t, s, hfuncs, -, ht, hall, hrouter, hlinks, hfunctions, hstatus,
    hrequests, -, -⟩ := generateData_ok h
  constructor
  · intro hanswer
    by_cases hnone : d.requests = []
    · rw [hrequests, requests_eq_nil_iff rfl hall] at hnone
      exact Or.inl hnone
    · obtain ⟨r, hr⟩ := List.exists_mem_of_ne_nil _ hnone
      obtain ⟨top, htop, -⟩ := hanswer r hr
      obtain ⟨_, -, -, hreads⟩ := readTopology_lines hnames junk hrouter hlinks
      rw [hreads] at htop
      split_ifs at htop with hlast
      exact Or.inr hlast
  · rintro (hnone | hlast) r hr
    · rw [hrequests, (requests_eq_nil_iff rfl hall).mpr hnone] at hr
      cases hr
    · have hnumbered : Numbered funcs := by
        intro i f hf
        obtain ⟨hname, hsignature, hpos, hbound⟩ := (generateFuncList_ok hmin hle hfuncs).2 i f hf
        exact ⟨hname, hsignature, hpos, by have := p.inputRange_lt.2; omega⟩
      have hof : ∀ r ∈ d.requests, OfFunction funcs r := by
        rw [hrequests, ← ht]
        exact allRequests_forall (everyRequest_ofFunction hz) (List.forall_mem_nil _) hall
      obtain ⟨top, htop, hback⟩ :=
        exists_readBack hnames junk hrouter hlinks hlast hfunctions hnumbered.readable hstatus
      refine ⟨top, htop, hback.computeNodes, fun n hn seq hseq => ?_⟩
      have hanswer := readBack_answerable hread hback hnumbered hn (hof r hr) hseq
      exact ⟨hanswer, hanswer.neverRefused⟩

end Whole

/-- One function, two consumers. -/
theorem requests_answerable_iff_generateOne : ∃ d, generateOne 0 = .ok d ∧
    ∀ r ∈ d.requests, @NeverRefusedBy plainUri listNames oneFunctionParams
      ⟨fun _ => default, fun _ _ => 0⟩ d r := by
  have hrun : generateOne 0 = .ok _ := rfl
  exact ⟨_, hrun, (@requests_answerable_iff plainUri _ _ _ _ _ _ _ _ _ _ listNames
    plainUri_readsPlain listNames_documented hrun rfl (by decide) (by decide) _).mpr (by decide)⟩

/-- The same with one node in each tier. -/
def oneEach : GenParams := .zipfRun 2 1 1 1 1 1 200 1 1

/-- The file of that run names a node that it does not declare, and the reader stops in front of the
functions. -/
theorem requests_unread : ¬ ∀ [NdnCxx] [Ns3Names] (p : GenParams) (dist : ℕ → ℕ) (ds us : List ℕ)
    (d : Dataset) (junk : Junk), NdnCxx.ReadsPlain → Ns3Names.Documented →
    generateData p dist ds us = .ok d → p.zipf = true → 1 ≤ p.numFunc → 1 ≤ p.numData →
    0 ≤ p.inputRange.1 → p.inputRange.1 ≤ p.inputRange.2 → 1 ≤ p.inputRange.2 →
    ∀ r ∈ d.requests, NeverRefusedBy p junk d r := by
  intro hall
  have hrun : generateData oneEach (fun i => 1000 * i) (drawsWith 0) [500, 500, 500] = .ok _ := rfl
  obtain ⟨top, htop, -⟩ := @hall plainUri listNames _ _ _ _ _ ⟨fun _ => default, fun _ _ => 0⟩
    plainUri_readsPlain listNames_documented hrun rfl (by decide) (by decide) (by decide) (by decide)
    (by decide) _ List.mem_cons_self
  obtain ⟨_, _, _, _, _, _, _, -, -, -, -, hrouter, hlinks, -⟩ := generateData_ok hrun
  obtain ⟨_, -, -, hreads⟩ := @readTopology_lines oneEach plainUri listNames listNames_documented
    ⟨fun _ => default, fun _ _ => 0⟩ _ hrouter hlinks
  rw [hreads, if_neg (by decide)] at htop
  cases htop

end DataGen

end IncSim
