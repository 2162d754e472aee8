import IncSim.Producer.Checked

/-!
# Malformed compute interests

An interest is malformed when the engine has a reason to refuse it. What else has to hold so that it
is refused with one NACK and without a trace?

* `Malformed`: the reasons; `malformed_iff_nack`: they are those of the engine.
* `Refused`, `RefusedCleanly`: one NACK, and nothing else is changed.
* `Refusable`: the interest passes the checks that do not expect it to be malformed.
* **`refusedCleanly_iff`**: a compute interest is refused cleanly exactly when it is malformed and
  refusable.
-/

namespace IncSim

open PartialRun

open ComputeNode (Known)

/-! ## The reasons of the engine -/

/-- The name is too short or names no function, the function is unknown, or the number of data names
is not its number of parameters. -/
def Malformed (n : ComputeNode) (interest : Name) : Prop :=
  interest.size < 2 ∨ extractFunctionName interest = none ∨
    (∃ name, extractFunctionName interest = some name ∧ (n.funcMap.lookup name.toUri).join = none) ∨
    ∃ name f, Asked n interest name f ∧ (extractDataNames interest).length ≠ f.paramNumber.toNat

section Engine

variable {n n' : ComputeNode} {interest name : Name} {cs : ContentStore} {names : List Name}

theorem malformed_of_nack (hg : getFetchDecisions cs interest n = .ok (n', .nack, names)) :
    Malformed n interest := by
  by_cases hsize : interest.size < 2
  · exact Or.inl hsize
  cases hname : extractFunctionName interest with
  | none => exact Or.inr (Or.inl hname)
  | some name =>
    right; right
    cases ho : (n.funcMap.lookup name.toUri).join with
    | none => exact Or.inl ⟨name, hname, ho⟩
    | some f =>
      have ha : Asked n interest name f :=
        ⟨hname, ComputeNode.deref_eq_ok.mpr (Option.join_eq_some_iff.mp ho)⟩
      refine Or.inr ⟨name, f, ha, fun hlen => ?_⟩
      rw [getFetchDecisions_of_asked ha] at hg
      dsimp only at hg
      rw [if_neg (not_not.mpr hlen)] at hg
      split_ifs at hg <;> cases hg

/-- **The engine refuses what is malformed**, when the name has a function and the map has its key. -/
theorem nack_of_malformed (cs : ContentStore) (hm : Malformed n interest)
    (hname : extractFunctionName interest = some name) (hknown : n.Known name.toUri) :
    ∃ names, getFetchDecisions cs interest n = .ok (n, .nack, names) := by
  rcases hm with hsize | hnone | ⟨name', hname', hnull⟩ | ⟨name', f, ha, hlen⟩
  · exact absurd hsize (size_of_extractFunctionName hname)
  · rw [hname] at hnone
    cases hnone
  · cases hname.symm.trans hname'
    have hget : n.getFunction name.toUri = (n, none) := by
      rcases ComputeNode.getFunction_cases (n := n) name.toUri with ⟨-, f, hf⟩ | ⟨hptr, -⟩
      · rw [hf] at hnull
        cases hnull
      · exact Prod.ext (ComputeNode.getFunction_of_known hknown) hptr
    refine ⟨[], ?_⟩
    unfold getFetchDecisions
    rw [if_neg (size_of_extractFunctionName hname), hname]
    dsimp only
    rw [hget]
  · exact ⟨_, getFetchDecisions_nack ha hlen⟩

/-- A NACK leaves the node alone when the map has the key of the function. -/
theorem node_of_nack (hg : getFetchDecisions cs interest n = .ok (n', .nack, names))
    (hname : extractFunctionName interest = some name) (hknown : n.Known name.toUri) : n' = n := by
  obtain ⟨names', hg'⟩ := nack_of_malformed cs (malformed_of_nack hg) hname hknown
  exact (Prod.mk.inj (Except.ok.inj (hg.symm.trans hg'))).1

end Engine

/-! ## A clean refusal -/

/-- One NACK is sent; the tables and the queue of the app, and the function map, the resources and the
FIB of the node are as before. -/
structure Refused (h h' : Host) (interest : Name) : Prop where
  app : h'.app = h.app.send (.nack interest .noRoute)
  funcMap : h'.node.funcMap = h.node.funcMap
  ram : h'.node.ram = h.node.ram
  processorCore : h'.node.processorCore = h.node.processorCore
  fib : h'.node.fib = h.node.fib

namespace Host

variable {h h' : Host} {t : InterestComponentStruct} {now : Time} {cs : ContentStore} {interest : Name}

/-- `OnInterest` ends without a fault and refuses the interest. -/
def RefusedCleanly (h : Host) (now : Time) (cs : ContentStore) (interest : Name) : Prop :=
  ∃ h', h.onInterest now cs interest = .ok h' ∧ Refused h h' interest

/-- The app is on, the name has a function, no lookup meets an unknown key, and the function that the
app takes is there and not excluded. -/
structure Refusable (h : Host) (interest : Name) : Prop where
  active : h.app.active = true
  extracted : extractFunctionName interest ≠ none
  known : ∀ k ∈ functionKeys interest.comps, h.node.Known k
  taken : ∃ k f, (functionKeys interest.comps).getLast? = some k ∧ h.node.deref (some k) = .ok f ∧
    h.node.checkExcludeList f.computationName.toUri = false

theorem send_ne_self (a : NfnProducerApp) (p : Packet) : a.send p ≠ a := by
  intro heq
  have hsent : a.sent ++ [p] = a.sent := congrArg NfnProducerApp.sent heq
  exact absurd (List.append_right_eq_self.mp hsent) (List.cons_ne_nil _ _)

theorem send_nack_ne_send_interest (a : NfnProducerApp) (n m : Name) (r : NackReason) :
    a.send (.interest n) ≠ a.send (.nack m r) := by
  intro heq
  have hsent : a.sent ++ [.interest n] = a.sent ++ [.nack m r] := congrArg NfnProducerApp.sent heq
  cases List.append_cancel_left hsent

/-- Only the NACK branch sends the NACK. -/
theorem nack_of_send (hr : h.resolveAndHandleDecisions now cs t = .ok h')
    (happ : h'.app = h.app.send (.nack t.interest .noRoute)) :
    ∃ names, resolve cs t h.node = .ok (h'.node, .nack, names) := by
  obtain ⟨⟨node, decision, names⟩, hres, hr⟩ := bind_eq_ok.mp hr
  have hnot : ∀ {g : Host}, g.app = h.app → g.forwardInterest t ≠ .ok h' := by
    intro g hg hf
    have hsend := forwardInterest_app hf
    rw [hg] at hsend
    exact send_nack_ne_send_interest h.app _ _ _ (hsend.symm.trans happ)
  cases decision with
  | nack =>
    cases hr
    exact ⟨names, hres⟩
  | fetch =>
    cases hr
    obtain ⟨u, htab, -⟩ := NfnProducerApp.fetch_eq h.app t names
    have htab' := congrArg NfnProducerApp.pendingContentTable happ
    exact absurd (htab.symm.trans htab') (List.cons_ne_self _ _)
  | forward => exact absurd hr (hnot rfl)
  | execute =>
    obtain ⟨-, hd⟩ | ⟨-, ⟨-, hf⟩ | ⟨-, rfl⟩⟩ := executeOrQueue_ok hr
    · have hsent := congrArg NfnProducerApp.sent ((app_doExecution hd).symm.trans happ)
      exact absurd (List.append_right_eq_self.mp hsent.symm) (List.cons_ne_nil _ _)
    · exact absurd hf (hnot rfl)
    · have hsent := congrArg NfnProducerApp.sent happ
      exact absurd (List.append_right_eq_self.mp hsent.symm) (List.cons_ne_nil _ _)

/-! ## The lookups of the app -/

theorem findFunction_of_known {n : ComputeNode} {p : Ptr} {l : List Str}
    (hk : ∀ k ∈ functionKeys l, n.Known k) : (findFunction n p l).1 = n := by
  induction l generalizing p with
  | nil => rfl
  | cons c l ih =>
    rw [functionKeys] at hk
    rw [findFunction]
    split_ifs at hk ⊢
    · have hget := ComputeNode.getFunction_of_known (hk _ List.mem_cons_self)
      dsimp only
      rw [hget]
      exact ih fun k hl => hk k (List.mem_cons_of_mem _ hl)
    · exact ih hk

theorem findFunction_of_deref {n : ComputeNode} {l : List Str} {k : Str} {f : IncComputation}
    (hlast : (functionKeys l).getLast? = some k) (hf : n.deref (some k) = .ok f) :
    (findFunction n none l).2 = some k := by
  obtain ⟨m, hsame, hget⟩ := findFunction_last (n := n) (p := none) hlast
  obtain ⟨g, hg, -⟩ := hsame.deref hf
  rw [hget, getFunction_of_deref hg]

/-- A pointer that can be followed is the last function of the name. -/
theorem last_of_deref {n n' : ComputeNode} {l : List Str} {f : IncComputation}
    (hf : n'.deref (findFunction n none l).2 = .ok f) :
    ∃ k, (functionKeys l).getLast? = some k ∧ n'.deref (some k) = .ok f := by
  have hne : (findFunction n none l).2 ≠ none := by
    intro hnone
    rw [hnone] at hf
    cases hf
  cases hlast : (functionKeys l).getLast? with
  | none => exact absurd (findFunction_none (List.getLast?_eq_none_iff.mp hlast)) hne
  | some k =>
    rw [func_of_deref hlast rfl hne] at hf
    exact ⟨k, rfl, hf⟩

/-! ## Exactly the refusable interests are refused cleanly -/

/-- Without a function to extract, the engine fails or the app has no function to ask about. -/
theorem extracted_of_resolve {n n' n'' : ComputeNode} {l : List Str} {q : NREDecision × List Name}
    (hr : resolve cs ⟨⟨lambdaComp :: l⟩, (findFunction n none (lambdaComp :: l)).2, []⟩ n' =
      .ok (n'', q)) : ∃ name, extractFunctionName ⟨lambdaComp :: l⟩ = some name := by
  refine Option.ne_none_iff_exists'.mp fun hnone => ?_
  obtain ⟨⟨m, engine, names⟩, hg, hr⟩ := bind_eq_ok.mp hr
  obtain ⟨f, hf, -⟩ := bind_eq_ok.mp hr
  dsimp only at hg hf
  cases l with
  | nil =>
    have hkeys : functionKeys [lambdaComp] = [] := rfl
    rw [findFunction_none hkeys] at hf
    cases hf
  | cons c l =>
    unfold getFetchDecisions at hg
    rw [if_neg (by simp [Name.size]), hnone] at hg
    cases hg

/-- A malformed interest that passes the other checks. -/
theorem refusedCleanly_of_refusable {l : List Str} (hm : Malformed h.node ⟨lambdaComp :: l⟩)
    (hr : h.Refusable ⟨lambdaComp :: l⟩) : h.RefusedCleanly now cs ⟨lambdaComp :: l⟩ := by
  obtain ⟨hactive, hextracted, hknown, k, f, hlast, hf, hex⟩ := hr
  obtain ⟨name, hname⟩ := Option.ne_none_iff_exists'.mp hextracted
  obtain ⟨c, hc, hcname⟩ := Option.map_eq_some_iff.mp hname
  have hkname : h.node.Known name.toUri := hcname ▸ hknown _ (mem_functionKeys hc)
  obtain ⟨names, hg⟩ := nack_of_malformed cs hm hname hkname
  refine ⟨h.send (.nack ⟨lambdaComp :: l⟩ .noRoute), ?_, ⟨rfl, rfl, rfl, rfl, rfl⟩⟩
  have hres : resolve cs ⟨⟨lambdaComp :: l⟩, some k, []⟩ h.node = .ok (h.node, .nack, names) := by
    refine bind_eq_ok.mpr ⟨_, hg, bind_eq_ok.mpr ⟨f, hf, ?_⟩⟩
    rw [hex]
    rfl
  unfold onInterest
  rw [if_neg (by simp [hactive]), if_pos (by rfl)]
  dsimp only at hknown hlast ⊢
  rw [findFunction_of_known hknown, findFunction_of_deref hlast hf]
  exact bind_eq_ok.mpr ⟨_, hres, rfl⟩

/-- What is refused cleanly is malformed and passes the other checks. -/
theorem refusable_of_refusedCleanly {l : List Str}
    (hr : h.RefusedCleanly now cs ⟨lambdaComp :: l⟩) :
    Malformed h.node ⟨lambdaComp :: l⟩ ∧ h.Refusable ⟨lambdaComp :: l⟩ := by
  obtain ⟨h', ho, href⟩ := hr
  obtain ⟨-, rfl⟩ | ⟨hon, ⟨-, hr⟩ | ⟨hne, -⟩⟩ := onInterest_cases ho
  · exact absurd href.app.symm (send_ne_self _ _)
  · obtain ⟨names, hres⟩ := nack_of_send hr href.app
    dsimp only at hres
    obtain ⟨name, hname⟩ := extracted_of_resolve hres
    obtain ⟨⟨n', engine, names'⟩, hg, f, hf, hq⟩ := by
      simpa only [resolve, bind_eq_ok, pure_eq_ok] using hres
    dsimp only at hg hf hq
    split at hq
    · cases hq
    · next hex =>
      cases hq
      have hkeys : ∀ k ∈ functionKeys (lambdaComp :: l),
          (findFunction h.node none (lambdaComp :: l)).1.Known k :=
        fun k hk => known_findFunction _ _ hk
      obtain ⟨c, hc, hcname⟩ := Option.map_eq_some_iff.mp hname
      have hnode := node_of_nack hg hname (hcname ▸ hkeys _ (mem_functionKeys hc))
      have hknown : ∀ k ∈ functionKeys (lambdaComp :: l), h.node.Known k := by
        intro k hk
        have hk' := hkeys k hk
        rwa [Known, ← hnode, href.funcMap] at hk'
      have hsame := findFunction_of_known (p := none) hknown
      rw [hsame] at hg hnode
      obtain ⟨k, hlast, hk⟩ := last_of_deref hf
      rw [hnode] at hk hex
      exact ⟨malformed_of_nack hg, hon, hname ▸ Option.some_ne_none _, hknown, k, f, hlast, hk,
        Bool.eq_false_of_not_eq_true hex⟩
  · exact absurd rfl hne

/-- **A compute interest is refused cleanly** exactly when it is malformed and refusable. -/
theorem refusedCleanly_iff (h : Host) (now : Time) (cs : ContentStore) (l : List Str) :
    h.RefusedCleanly now cs ⟨lambdaComp :: l⟩ ↔
      Malformed h.node ⟨lambdaComp :: l⟩ ∧ h.Refusable ⟨lambdaComp :: l⟩ :=
  ⟨refusable_of_refusedCleanly, fun hm => refusedCleanly_of_refusable hm.1 hm.2⟩

/-- The engine refuses a function that the node does not have, and the app follows the null pointer. -/
theorem refusedCleanly_fails :
    ¬ ∀ (h : Host) (now : Time) (cs : ContentStore) (l : List Str), h.app.active = true →
      Malformed h.node ⟨lambdaComp :: l⟩ → h.RefusedCleanly now cs ⟨lambdaComp :: l⟩ := by
  intro hall
  have hunknown : Malformed twoParams.node ⟨[lambdaComp, functionComp, "g".toList]⟩ :=
    Or.inr (Or.inr (Or.inl ⟨⟨["g".toList]⟩, rfl, rfl⟩))
  obtain ⟨h', ho, -⟩ := hall twoParams 0 (fun _ _ => true) _ rfl hunknown
  have hfault : twoParams.onInterest 0 (fun _ _ => true) ⟨[lambdaComp, functionComp, "g".toList]⟩ =
    .error .nullPointer := rfl
  cases hfault.symm.trans ho

end Host

end IncSim
