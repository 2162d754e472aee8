import IncSim.Dataset.RequestName

/-!
# Round trip of a request

The name that is built from a function and a list of operands, for any tokens that the URI reader
takes as one component each.

* `readComp`, `NdnCxx.ReadsSegments`: how a URI is read, segment by segment.
* `Token`: a name of a function or of data; `operandsColumn`: how the operands are written.
* **`extract_requestName`**: the resolution engine takes the function and the operands from the name
  again.
-/

namespace IncSim

section Tokens

variable [NdnCxx] {c func seq : Str} {ds : List Str}

/-- The component that the URI reader makes of a segment. -/
def readComp (c : Str) : Str := (NdnCxx.ofUri ('/' :: c)).comps.headD []

/-- A URI is read segment by segment, where each segment is one component, and no component is
written with a slash. -/
structure NdnCxx.ReadsSegments : Prop where
  ofUri_segments : ∀ l : List Str,
    (∀ c ∈ l, c ≠ [] ∧ '/' ∉ c ∧ NdnCxx.ofUri ('/' :: c) = ⟨[readComp c]⟩) →
      NdnCxx.ofUri (Name.toUri ⟨l⟩) = ⟨l.map readComp⟩
  slash : ∀ s, ∀ c ∈ (NdnCxx.ofUri s).comps, '/' ∉ c

/-- A plain name: a token that stands for one component, which is none of the words that the engine
looks for. -/
structure Token (c : Str) : Prop where
  ne_nil : c ≠ []
  slash : '/' ∉ c
  comma : ',' ∉ c
  ne_null : c ≠ "null".toList
  ofUri : NdnCxx.ofUri ('/' :: c) = ⟨[readComp c]⟩
  noKeyword : NoKeyword (readComp c)
  marker : ¬ "%FE".toList <+: readComp c

/-- The operands in a column of the consumer section. -/
def operandsColumn (ds : List Str) : Str :=
  if ds = [] then "null".toList else [','].intercalate ds

omit [NdnCxx] in
/-- The marker is at the beginning of the component. -/
theorem isSequenceNumber_iff (hc : '/' ∉ c) : IsSequenceNumber c ↔ "%FE".toList <+: c := by
  have hcontains := Name.contains_toUri (n := ⟨[c]⟩) (p := "%FE".toList) (by decide) (by decide)
    fun c' hc' => List.mem_singleton.mp hc' ▸ hc
  rw [IsSequenceNumber]
  exact hcontains.trans (by simp)

theorem Token.not_isSequenceNumber (h : Token c) (hseg : NdnCxx.ReadsSegments) :
    ¬ IsSequenceNumber (readComp c) := by
  have hslash : '/' ∉ readComp c := by
    refine hseg.slash ('/' :: c) _ ?_
    rw [h.ofUri]
    exact List.mem_cons_self
  rw [isSequenceNumber_iff hslash]
  exact h.marker

/-- The words of the prefix are read as they are. -/
theorem readComp_keyword (hread : NdnCxx.ReadsPlain) (hc : PlainComp c) : readComp c = c := by
  rw [readComp, hread.ofUri_cons hc]
  rfl

/-- Keywords and tokens together are read segment by segment. -/
theorem ofUri_toUri_tokens (hread : NdnCxx.ReadsPlain) (hseg : NdnCxx.ReadsSegments)
    {l : List Str} (hl : ∀ c ∈ l, PlainComp c ∨ Token c) :
    NdnCxx.ofUri (Name.toUri ⟨l⟩) = ⟨l.map readComp⟩ := by
  refine hseg.ofUri_segments l fun c hc => ?_
  rcases hl c hc with hplain | htoken
  · exact ⟨hplain.1, hplain.slash, by rw [readComp_keyword hread hplain, hread.ofUri_cons hplain]⟩
  · exact ⟨htoken.ne_nil, htoken.slash, htoken.ofUri⟩

/-! ## The prefix -/

omit [NdnCxx] in
/-- Without an operand, nothing follows the function. -/
theorem generateFuncFirstPrefix_null (func : Str) :
    generateFuncFirstPrefix func "null".toList = Name.toUri ⟨[lambdaComp, functionComp, func]⟩ := by
  have hsplit : "null".toList.splitOn ',' = ["null".toList] := by decide
  have hfirst : "/lambda/Function/".toList = '/' :: lambdaComp ++ ('/' :: functionComp ++ ['/']) := rfl
  rw [generateFuncFirstPrefix, hsplit, appendInputs, if_pos rfl,
    Name.toUri_of_ne_nil (List.cons_ne_nil _ _), hfirst]
  simp only [List.flatMap_cons, List.flatMap_nil, List.append_assoc, List.cons_append,
    List.nil_append, List.append_nil]

theorem generateFuncFirstPrefix_operandsColumn (hne : ds ≠ []) (hds : ∀ d ∈ ds, Token d) :
    generateFuncFirstPrefix func (operandsColumn ds) = Name.toUri ⟨requestHead func ++ ds⟩ := by
  have hsplit : ([','].intercalate ds).splitOn ',' = ds :=
    List.splitOn_intercalate ',' (fun d hd => (hds d hd).comma) hne
  rw [operandsColumn, if_neg hne, prefix_eq hsplit fun d hd => (hds d hd).ne_null]

/-- The name of a request without operands. -/
theorem ofUri_null (hread : NdnCxx.ReadsPlain) (hseg : NdnCxx.ReadsSegments) (hf : Token func) :
    NdnCxx.ofUri (generateFuncFirstPrefix func (operandsColumn [])) =
      ⟨[lambdaComp, functionComp, readComp func]⟩ := by
  have hlambda : PlainComp lambdaComp := PlainComp.of_all (by decide) rfl
  have hfunction : PlainComp functionComp := PlainComp.of_all (by decide) rfl
  rw [operandsColumn, if_pos rfl, generateFuncFirstPrefix_null, ofUri_toUri_tokens hread hseg]
  · rw [List.map_cons, List.map_cons, List.map_cons, List.map_nil, readComp_keyword hread hlambda,
      readComp_keyword hread hfunction]
  · simp only [List.forall_mem_cons]
    exact ⟨Or.inl hlambda, Or.inl hfunction, Or.inr hf, fun _ h => absurd h List.not_mem_nil⟩

/-- The name of a request with operands. -/
theorem ofUri_operands (hread : NdnCxx.ReadsPlain) (hseg : NdnCxx.ReadsSegments) (hf : Token func)
    (hne : ds ≠ []) (hds : ∀ d ∈ ds, Token d) :
    NdnCxx.ofUri (generateFuncFirstPrefix func (operandsColumn ds)) =
      ⟨requestHead (readComp func) ++ ds.map readComp⟩ := by
  have hlambda : PlainComp lambdaComp := PlainComp.of_all (by decide) rfl
  have hfunction : PlainComp functionComp := PlainComp.of_all (by decide) rfl
  have hdata : PlainComp dataComp := PlainComp.of_all (by decide) rfl
  rw [generateFuncFirstPrefix_operandsColumn hne hds, ofUri_toUri_tokens hread hseg]
  · rw [List.map_append, requestHead, List.map_cons, List.map_cons, List.map_cons, List.map_cons,
      List.map_nil, readComp_keyword hread hlambda, readComp_keyword hread hfunction,
      readComp_keyword hread hdata]
    rfl
  · intro c hc
    rcases List.mem_append.mp hc with hc | hc
    · simp only [requestHead, List.mem_cons, List.not_mem_nil, or_false] at hc
      rcases hc with rfl | rfl | rfl | rfl
      · exact Or.inl hlambda
      · exact Or.inl hfunction
      · exact Or.inr hf
      · exact Or.inl hdata
    · exact Or.inr (hds c hc)

/-! ## The round trip -/

omit [NdnCxx] in
/-- Without `Data` in the name there are no data names. -/
theorem extract_null (hfunc : NoKeyword func) (hseq : NoKeyword seq) :
    extractFunctionName ⟨[lambdaComp, functionComp, func, seq]⟩ = some ⟨[func]⟩ ∧
      extractDataNames ⟨[lambdaComp, functionComp, func, seq]⟩ = [] := by
  obtain ⟨h₁, h₂, h₃⟩ := hfunc
  obtain ⟨h₄, h₅, h₆⟩ := hseq
  have hlf : lambdaComp ≠ functionComp := by decide
  have hfd : functionComp ≠ dataComp := by decide
  constructor
  · rw [extractFunctionName, extractFunctionComp, if_neg hlf, extractFunctionComp, if_pos rfl]
    rfl
  · rw [extractDataNames, extractDataLoop, if_pos rfl, extractDataLoop, if_neg hlf.symm, if_neg hfd,
      if_pos rfl, extractDataLoop, if_neg h₁, if_neg h₃, if_neg h₂, if_neg Bool.false_ne_true,
      extractDataLoop, if_neg h₄, if_neg h₆, if_neg h₅, if_neg Bool.false_ne_true, extractDataLoop]

/-- **Interest names round-trip.** From the name that the request builder makes of a function and a
list of operands, with a sequence number behind it, the engine extracts that function and these
operands, in order and with repetitions. -/
theorem extract_requestName (hread : NdnCxx.ReadsPlain) (hseg : NdnCxx.ReadsSegments)
    (hf : Token func) (hds : ∀ d ∈ ds, Token d) (hseq : IsSequenceNumber seq) :
    let interest := (NdnCxx.ofUri (generateFuncFirstPrefix func (operandsColumn ds))).append ⟨[seq]⟩
    extractFunctionName interest = some (NdnCxx.ofUri ('/' :: func)) ∧
      extractDataNames interest = ds.map fun d => NdnCxx.ofUri ('/' :: d) := by
  intro interest
  by_cases hne : ds = []
  · subst hne
    have hname : interest = ⟨[lambdaComp, functionComp, readComp func, seq]⟩ := by
      show Name.append _ _ = _
      rw [ofUri_null hread hseg hf]
      rfl
    rw [hname, hf.ofUri]
    exact extract_null hf.noKeyword hseq.noKeyword
  · have hname : interest = ⟨requestHead (readComp func) ++ (ds.map readComp ++ [seq])⟩ := by
      show Name.append _ _ = _
      rw [ofUri_operands hread hseg hf hne hds, Name.append, List.append_assoc]
    have hwords : ∀ c ∈ ds.map readComp, NoKeyword c ∧ ¬ IsSequenceNumber c :=
      List.forall_mem_map.mpr fun d hd => ⟨(hds d hd).noKeyword, (hds d hd).not_isSequenceNumber hseg⟩
    rw [hname, hf.ofUri, extractFunctionName_requestName,
      extractDataNames_requestName hf.noKeyword hwords hseq, List.map_map]
    refine ⟨rfl, List.map_congr_left fun d hd => ?_⟩
    exact (hds d hd).ofUri.symm

end Tokens

/-! ## URIs without escapes -/

section Example

attribute [local instance] plainUri

theorem ofUri_plainUri {c : Str} (hne : c ≠ []) (hc : '/' ∉ c) :
    plainUri.ofUri ('/' :: c) = ⟨[c]⟩ := by
  have hone : plainUri.ofUri (Name.toUri ⟨[c]⟩) = ⟨[c]⟩ :=
    plainUri_toUri (by simpa using hc) (by simpa using hne)
  rwa [Name.toUri_singleton] at hone

theorem readComp_plainUri {c : Str} (hne : c ≠ []) (hc : '/' ∉ c) : readComp c = c :=
  congrArg (fun n : Name => n.comps.headD []) (ofUri_plainUri hne hc)

theorem plainUri_readsSegments : NdnCxx.ReadsSegments where
  ofUri_segments := by
    intro l hl
    have hmap : l.map readComp = l :=
      (List.map_congr_left fun c hc => readComp_plainUri (hl c hc).1 (hl c hc).2.1).trans l.map_id
    rw [hmap]
    exact plainUri_toUri (fun c hc => (hl c hc).2.1) fun c hc => (hl c hc).1
  slash := by
    intro s c hc
    exact Text.not_mem_of_mem_splitOn (List.mem_of_mem_filter hc)

/-- A token that `plainUri` reads as it is. -/
theorem token_plainUri {c : Str} (hc : c ≠ [] ∧ '/' ∉ c ∧ ',' ∉ c ∧ c ≠ "null".toList)
    (hword : NoKeyword c) (hmark : ¬ "%FE".toList <+: c) : Token c := by
  obtain ⟨hne, hslash, hcomma, hnull⟩ := hc
  have hcomp := readComp_plainUri hne hslash
  have hread : NdnCxx.ofUri ('/' :: c) = ⟨[readComp c]⟩ := by
    rw [hcomp]
    exact ofUri_plainUri hne hslash
  exact ⟨hne, hslash, hcomma, hnull, hread, hcomp.symm ▸ hword, hcomp.symm ▸ hmark⟩

/-- Two equal operands and one that contains a keyword. -/
theorem extract_requestName_repeated :
    let interest := (NdnCxx.ofUri (generateFuncFirstPrefix "f".toList
      (operandsColumn ["a".toList, "Data.1".toList, "a".toList]))).append ⟨["%FE%00".toList]⟩
    extractFunctionName interest = some ⟨["f".toList]⟩ ∧
      extractDataNames interest = [⟨["a".toList]⟩, ⟨["Data.1".toList]⟩, ⟨["a".toList]⟩] := by
  have hword : ∀ c ∈ ["f".toList, "a".toList, "Data.1".toList], Token c := by
    simp only [List.forall_mem_cons]
    exact ⟨token_plainUri (by decide) ⟨by decide, by decide, by decide⟩ (by decide),
      token_plainUri (by decide) ⟨by decide, by decide, by decide⟩ (by decide),
      token_plainUri (by decide) ⟨by decide, by decide, by decide⟩ (by decide),
      fun _ h => absurd h List.not_mem_nil⟩
  have hds : ∀ d ∈ ["a".toList, "Data.1".toList, "a".toList], Token d := by
    simp only [List.forall_mem_cons]
    exact ⟨hword _ (by decide), hword _ (by decide), hword _ (by decide),
      fun _ h => absurd h List.not_mem_nil⟩
  have hseq : IsSequenceNumber "%FE%00".toList := by decide
  exact extract_requestName plainUri_readsPlain plainUri_readsSegments
    (hword "f".toList (by decide)) hds hseq

end Example

end IncSim
