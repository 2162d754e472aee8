import IncSim.Dataset.Parser
import IncSim.Producer.Decision

/-!
# The name of a request

A request is sent under the prefix that the parser builds from its row, with a sequence number behind
it; the resolution engine takes the function and the data from the name.

* `requestName`: that name; `prefix_eq`: the prefix as the URI of a name.
* **`extractDataNames_requestName`**: the engine finds the operands again.
* `Answerable`: the node knows the function, and it takes as many parameters as there are data names.
* **`Answerable.ne_nack`**: an answerable interest is not refused; `Answerable.same`.
-/

namespace IncSim

open PartialRun

/-! ## From a row to a name -/

/-- `Name::toUri` of a sequence number contains the marker that ends the data names. -/
def IsSequenceNumber (seq : Str) : Prop := Str.contains (Name.toUri ⟨[seq]⟩) "/%FE".toList = true

instance (seq : Str) : Decidable (IsSequenceNumber seq) := inferInstanceAs (Decidable (_ = _))

/-- The name of an interest for a row of the consumer section: its prefix and a sequence number. -/
def requestName [NdnCxx] (row : Row) (seq : Str) : Name :=
  (NdnCxx.ofUri (generateFuncFirstPrefix (row.getD 1 []) (row.getD 2 []))).append ⟨[seq]⟩

variable {func inputs seq : Str} {l : List Str}

theorem appendInputs_false (funcPrefix : Str) (hl : ∀ c ∈ l, c ≠ "null".toList) :
    appendInputs false funcPrefix l = funcPrefix ++ l.flatMap fun c => '/' :: c := by
  induction l generalizing funcPrefix with
  | nil => exact (List.append_nil _).symm
  | cons c l ih =>
    have hc := hl c List.mem_cons_self
    rw [appendInputs, if_neg hc]
    dsimp only
    rw [if_neg Bool.false_ne_true, ih _ fun c' hc' => hl c' (List.mem_cons_of_mem _ hc'),
      List.flatMap_cons, List.append_assoc]

/-- The components in front of the operands. -/
def requestHead (func : Str) : List Str := [lambdaComp, functionComp, func, dataComp]

theorem flatMap_requestHead (func : Str) : ((requestHead func).flatMap fun c => '/' :: c) =
    "/lambda/Function/".toList ++ func ++ "/Data".toList := by
  have hfirst : "/lambda/Function/".toList = '/' :: lambdaComp ++ ('/' :: functionComp ++ ['/']) := rfl
  have hdata : "/Data".toList = '/' :: dataComp := rfl
  rw [hfirst, hdata, requestHead]
  simp only [List.flatMap_cons, List.flatMap_nil, List.append_assoc, List.cons_append,
    List.nil_append, List.append_nil]

/-- **The prefix of a request** with operands is the URI of the name that one expects. -/
theorem prefix_eq (hsplit : inputs.splitOn ',' = l) (hl : ∀ c ∈ l, c ≠ "null".toList) :
    generateFuncFirstPrefix func inputs = Name.toUri ⟨requestHead func ++ l⟩ := by
  have hne : l ≠ [] := hsplit ▸ List.splitOn_ne_nil ',' inputs
  obtain ⟨c, l, rfl⟩ := List.exists_cons_of_ne_nil hne
  have hc := hl c List.mem_cons_self
  rw [Name.toUri_of_ne_nil (by simp), List.flatMap_append, flatMap_requestHead,
    generateFuncFirstPrefix, hsplit, appendInputs, if_neg hc]
  dsimp only
  rw [if_pos rfl, appendInputs_false _ fun c' hc' => hl c' (List.mem_cons_of_mem _ hc'),
    List.flatMap_cons]
  simp only [List.append_assoc]

theorem requestName_eq [NdnCxx] (hread : NdnCxx.ReadsPlain) {row : Row}
    (hfunc : PlainComp (row.getD 1 []))
    (hsplit : (row.getD 2 []).splitOn ',' = l) (hl : ∀ c ∈ l, PlainComp c ∧ c ≠ "null".toList) :
    requestName row seq = ⟨requestHead (row.getD 1 []) ++ (l ++ [seq])⟩ := by
  have hplain : ∀ c ∈ requestHead (row.getD 1 []) ++ l, PlainComp c := by
    intro c hc
    rcases List.mem_append.mp hc with hc | hc
    · simp only [requestHead, List.mem_cons, List.not_mem_nil, or_false] at hc
      rcases hc with rfl | rfl | rfl | rfl
      · exact PlainComp.of_all (by decide) rfl
      · exact PlainComp.of_all (by decide) rfl
      · exact hfunc
      · exact PlainComp.of_all (by decide) rfl
    · exact (hl c hc).1
  rw [requestName, prefix_eq hsplit fun c hc => (hl c hc).2, hread.ofUri_toUri _ hplain, Name.append,
    List.append_assoc]

/-! ## From a name to its data -/

/-- The component is none of the words that the engine looks for. -/
def NoKeyword (c : Str) : Prop := c ≠ lambdaComp ∧ c ≠ functionComp ∧ c ≠ dataComp

theorem IsSequenceNumber.noKeyword (h : IsSequenceNumber seq) : NoKeyword seq := by
  refine ⟨?_, ?_, ?_⟩ <;>
  · rintro rfl
    revert h
    decide

theorem extractDataLoop_operands (hl : ∀ c ∈ l, NoKeyword c ∧ ¬ IsSequenceNumber c)
    (hseq : IsSequenceNumber seq) : extractDataLoop true (l ++ [seq]) = l.map fun c => ⟨[c]⟩ := by
  induction l with
  | nil =>
    obtain ⟨h₁, h₂, h₃⟩ := hseq.noKeyword
    have hmarker : Str.contains (Name.toUri ⟨[seq]⟩) "/%FE".toList = true := hseq
    rw [List.nil_append, extractDataLoop, if_neg h₁, if_neg h₃, if_neg h₂, if_pos rfl,
      if_pos hmarker]
    rfl
  | cons c l ih =>
    obtain ⟨⟨h₁, h₂, h₃⟩, hplain⟩ := hl c List.mem_cons_self
    have hmarker : ¬ Str.contains (Name.toUri ⟨[c]⟩) "/%FE".toList = true := hplain
    rw [List.cons_append, extractDataLoop, if_neg h₁, if_neg h₃, if_neg h₂, if_pos rfl,
      if_neg hmarker, ih fun c' hc' => hl c' (List.mem_cons_of_mem _ hc')]
    rfl

/-- **The data names of a request** are its operands. -/
theorem extractDataNames_requestName (hfunc : NoKeyword func)
    (hl : ∀ c ∈ l, NoKeyword c ∧ ¬ IsSequenceNumber c) (hseq : IsSequenceNumber seq) :
    extractDataNames ⟨requestHead func ++ (l ++ [seq])⟩ = l.map fun c => ⟨[c]⟩ := by
  obtain ⟨h₁, h₂, h₃⟩ := hfunc
  have hfd : functionComp ≠ lambdaComp ∧ functionComp ≠ dataComp ∧ dataComp ≠ lambdaComp := by decide
  obtain ⟨hfl, hfd, hdl⟩ := hfd
  have hskip : ∀ rest,
      extractDataLoop false (requestHead func ++ rest) = extractDataLoop true rest := by
    intro rest
    show extractDataLoop false (lambdaComp :: functionComp :: func :: dataComp :: rest) = _
    rw [extractDataLoop, if_pos rfl, extractDataLoop, if_neg hfl, if_neg hfd, if_pos rfl,
      extractDataLoop, if_neg h₁, if_neg h₃, if_neg h₂, if_neg Bool.false_ne_true, extractDataLoop,
      if_neg hdl, if_pos rfl]
  rw [extractDataNames, hskip, extractDataLoop_operands hl hseq]

theorem extractFunctionName_requestName (rest : List Str) :
    extractFunctionName ⟨requestHead func ++ rest⟩ = some ⟨[func]⟩ := by
  have hlf : lambdaComp ≠ functionComp := by decide
  rw [extractFunctionName, requestHead, List.cons_append, List.cons_append, extractFunctionComp,
    if_neg hlf, List.cons_append, extractFunctionComp, if_pos rfl]
  rfl

/-! ## Interests that are not refused -/

/-- The node knows the function that the interest names, and the interest has as many data names as
the function has parameters. -/
def Answerable (n : ComputeNode) (interest : Name) : Prop :=
  ∃ name f, extractFunctionName interest = some name ∧ n.deref (some name.toUri) = .ok f ∧
    (extractDataNames interest).length = f.paramNumber.toNat

variable {n n' : ComputeNode} {interest : Name}

/-- Only the numbers of parameters matter. -/
theorem Answerable.same (h : Answerable n interest)
    (hs : ComputeNode.Same IncComputation.paramNumber n n') : Answerable n' interest := by
  obtain ⟨name, f, hname, hf, hlen⟩ := h
  obtain ⟨g, hg, hparam⟩ := hs.deref hf
  refine ⟨name, g, hname, hg, ?_⟩
  rw [hlen, hparam]

/-- **An answerable interest is not refused.** -/
theorem Answerable.ne_nack (h : Answerable n interest) (cs : ContentStore) :
    ∃ n' decision names, getFetchDecisions cs interest n = .ok (n', decision, names) ∧
      decision ≠ .nack := by
  obtain ⟨name, f, hname, hf, hlen⟩ := h
  rw [getFetchDecisions_of_asked ⟨hname, hf⟩]
  dsimp only
  rw [if_neg (by simpa using hlen)]
  split
  · exact ⟨_, _, _, rfl, by decide⟩
  · split
    · exact ⟨_, _, _, rfl, by decide⟩
    · exact ⟨_, _, _, rfl, by decide⟩

end IncSim
