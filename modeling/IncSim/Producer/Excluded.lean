import IncSim.Producer.Allowed

/-!
# Excluded functions stay disabled

A `Disable` puts a function on the exclude list and disables it. What can enable it before the
`Enable` comes?

* `admits_excludeList`: no event of an app changes the exclude list.
* `Dragged`, `onData_enabled`: `OnData` enables the function that the data brings, when an entry of
  the table has the data among its arguments; the other events enable nothing.
* `Commanded.switches`, `said`: what the commands of a run say about a function;
  `count_excludeList`: how often it is on the exclude list.
* `ExcludedOff`, `LiftsNothing`: every excluded function is disabled; no data brings an excluded one.
* **`excludedOff_iff`**: runs in which `Disable` and `Enable` of a function take turns.
-/

namespace IncSim

open PartialRun Tally ComputeNode

namespace ComputeNode

variable {n n' : ComputeNode} {f : Str}

/-- Every function on the exclude list is disabled. -/
def ExcludedOff (n : ComputeNode) : Prop := ∀ f ∈ n.funcExcludeList, ¬ n.Enabled f

theorem excludeList_getFunction (n : ComputeNode) (k : Str) :
    (n.getFunction k).1.funcExcludeList = n.funcExcludeList := by
  rcases getFunction_cases (n := n) k with ⟨h, -⟩ | ⟨-, -, h | h⟩
  · rw [h]
  · rw [h]
  · rw [h]

theorem excludeList_enableFunction {b : Bool} (h : n.enableFunction f = .ok (n', b)) :
    n'.funcExcludeList = n.funcExcludeList := by
  rcases enableFunction_cases h with ⟨-, rfl, -⟩ | ⟨c, fib, -, -, rfl⟩ <;> rfl

theorem admits_excludeList : AdmitsEnable fun n n' => n'.funcExcludeList = n.funcExcludeList where
  trans h h' := h'.trans h
  rest _ hlist := hlist
  lookup := excludeList_getFunction
  miss _ _ := rfl
  execute _ _ := rfl
  enable := excludeList_enableFunction

end ComputeNode

namespace Host

variable {h h' : Host} {t : InterestComponentStruct} {now : Time} {cs : ContentStore} {d : Name}
  {i : ℕ}

/-! ## What data enables -/

/-- The data brings a function that the node has. -/
def Dragged (n : ComputeNode) (d : Name) (k : Str) : Prop :=
  Brings d k ∧ ∃ f, n.deref (some k) = .ok f

theorem dragged_congr {n n' : ComputeNode} (hs : Same IncComputation.paramNumber n n') {k : Str} :
    Dragged n' d k ↔ Dragged n d k := by
  refine and_congr_right fun _ => ⟨fun ⟨f, hf⟩ => ?_, fun ⟨f, hf⟩ => ?_⟩
  · obtain ⟨g, hg, -⟩ := hs.symm.deref hf
    exact ⟨g, hg⟩
  · obtain ⟨g, hg, -⟩ := hs.deref hf
    exact ⟨g, hg⟩

theorem codeDrag_enabled {goOn : Bool} (hc : h.codeDrag d t = .ok (h', goOn)) (k : Str) :
    h'.node.Enabled k ↔ h.node.Enabled k ∨ Dragged h.node d k := by
  unfold codeDrag at hc
  split at hc
  · next hbrings =>
    obtain ⟨⟨node, enabled⟩, he, hc⟩ := bind_eq_ok.mp hc
    have hnode : node.Enabled k ↔ h.node.Enabled k ∨ Dragged h.node d k := by
      rw [enabled_enableFunction he]
      refine or_congr_right ⟨fun ⟨hb, hk⟩ => ⟨⟨hbrings, hk.symm⟩, ?_⟩, fun ⟨hb, f, hf⟩ => ?_⟩
      · rcases enableFunction_cases he with ⟨-, -, hfalse⟩ | ⟨c, fib, hl, -, -⟩
        · exact absurd (hb.symm.trans hfalse) nofun
        · exact ⟨c, deref_eq_ok.mpr (hk ▸ hl)⟩
      · rcases enableFunction_cases he with ⟨hl, -, -⟩ | ⟨c, fib, -, htrue, -⟩
        · rw [← hb.2, deref_eq_ok, hl] at hf
          cases hf
        · exact ⟨htrue, hb.2.symm⟩
    dsimp only at hc
    split at hc <;>
    · cases hc
      exact hnode
  · next hbrings =>
    cases hc
    exact (or_iff_left fun hd => hbrings hd.1.1).symm

theorem visitEntry_enabled (ht : h.app.pendingContentTable[i]? = some t)
    (hv : h.visitEntry now cs d i = .ok h') (k : Str) :
    h'.node.Enabled k ↔
      h.node.Enabled k ∨ ((t.pendingArgs.any fun q => q.1 = d) = true ∧ Dragged h.node d k) := by
  obtain ⟨t', ht', hcase⟩ := visitEntry_cases hv
  obtain rfl : t = t' := Option.some.inj (ht.symm.trans ht')
  obtain ⟨hkey, rfl⟩ | ⟨hkey, ⟨g, hc, hs⟩ | hc⟩ := hcase
  · exact (or_iff_left fun hd => hkey hd.1).symm
  · have hsame : Same IncComputation.enableComputation g.node h'.node := by
      obtain ⟨-, rfl⟩ | ⟨-, ⟨-, rfl⟩ | ⟨-, hr⟩⟩ := setPending_cases hs
      · exact Same.refl _ _
      · exact Same.refl _ g.node
      · have hsame : Same _ (g.mark d i t).node h'.node :=
          resolveAndHandleDecisions_admits kept_enableComputation.admits hr
        exact hsame
    rw [hsame.enabled, codeDrag_enabled hc, and_iff_right hkey]
  · rw [codeDrag_enabled hc, and_iff_right hkey]

/-- The loop enables what the data brings when it meets an entry that has the data among its
arguments; the first one that it meets is as it was before the loop. -/
theorem visitEntries_enabled {cs : ℕ → ContentStore} (hv : visitEntries now cs d i h = .ok h')
    (k : Str) : h'.node.Enabled k ↔ h.node.Enabled k ∨
      ((∃ j < i, ∃ t, h.app.pendingContentTable[j]? = some t ∧
        (t.pendingArgs.any fun q => q.1 = d) = true) ∧ Dragged h.node d k) := by
  induction i generalizing h with
  | zero =>
    cases hv
    simp
  | succ i ih =>
    obtain ⟨g, hg, hv⟩ := bind_eq_ok.mp hv
    obtain ⟨t, ht, hcase⟩ := visitEntry_cases hg
    have hround := visitEntry_enabled ht hg k
    by_cases hkey : (t.pendingArgs.any fun q => q.1 = d) = true
    · have hmet : ∃ j < i + 1, ∃ t, h.app.pendingContentTable[j]? = some t ∧
          (t.pendingArgs.any fun q => q.1 = d) = true := ⟨i, Nat.lt_succ_self i, t, ht, hkey⟩
      rw [and_iff_right hkey] at hround
      have hfixed := visitEntry_admits fixed_paramNumber.admits hg
      rw [ih hv, hround, dragged_congr hfixed, and_iff_right hmet, or_assoc,
        or_iff_left_of_imp And.right]
    · have hsame : g = h := by
        obtain ⟨-, heq⟩ | ⟨hkey', -⟩ := hcase
        · exact heq
        · exact absurd hkey' hkey
      rw [ih (hsame ▸ hv)]
      refine or_congr_right (and_congr_left fun _ => ⟨?_, ?_⟩)
      · rintro ⟨j, hj, hmet⟩
        exact ⟨j, Nat.lt_succ_of_lt hj, hmet⟩
      · rintro ⟨j, hj, t', ht', hkey'⟩
        rcases Nat.lt_succ_iff_lt_or_eq.mp hj with hj | rfl
        · exact ⟨j, hj, t', ht', hkey'⟩
        · cases ht.symm.trans ht'
          exact absurd hkey' hkey

/-- **What a data arrival enables.** -/
theorem onData_enabled {cs : ℕ → ContentStore} (ho : h.onData now cs d = .ok h') (k : Str) :
    h'.node.Enabled k ↔ h.node.Enabled k ∨ (h.app.active = true ∧
      (∃ t ∈ h.app.pendingContentTable, (t.pendingArgs.any fun q => q.1 = d) = true) ∧
        Dragged h.node d k) := by
  unfold onData at ho
  split at ho
  · next hoff =>
    cases ho
    exact (or_iff_left fun hd => by simp [hd.1] at hoff).symm
  · next hon =>
    have hon : h.app.active = true := by simpa using hon
    have hrounds := visitEntries_enabled (h := h.received d) ho k
    rw [and_iff_right hon, hrounds]
    refine or_congr_right (and_congr_left fun _ => ⟨?_, ?_⟩)
    · rintro ⟨j, -, t, ht, hkey⟩
      exact ⟨t, List.mem_of_getElem? ht, hkey⟩
    · rintro ⟨t, ht, hkey⟩
      obtain ⟨j, hj, rfl⟩ := List.getElem_of_mem ht
      exact ⟨j, hj, _, List.getElem?_eq_getElem hj, hkey⟩

end Host

/-! ## What the commands say -/

/-- The operation of a command and the functions that its handler switches. -/
def Commanded.switches : Commanded → Option (Str × List Str)
  | .app _ => none
  | .ndnSwitch interest => some (interest.switchOperation, interest.switchFuncs)
  | .udpSwitch packet_data => some ('/' :: (packet_data.splitOn '/').getD 4 [],
      ((packet_data.splitOn '/').drop 5).dropLast.map funcKey)

/-- What an event says about `f`: `true` for a `Disable`, `false` for an `Enable`. -/
def Commanded.tells (f : Str) (e : Commanded) : List Bool :=
  match e.switches with
  | none => []
  | some (operation, ks) => ks.flatMap (mention operation f)

/-- What a run says about `f`. -/
def said (f : Str) (es : List Commanded) : List Bool := es.flatMap (Commanded.tells f)

namespace Host

variable {h h' : Host} {e : Commanded} {es : List Commanded} {f : Str}

/-- A command is the rounds over its functions. -/
theorem rounds_of_switches {operation : Str} {ks : List Str}
    (he : e.switches = some (operation, ks)) (hs : h.commandedStep e = .ok h') :
    Rounds operation h.node ks h'.node := by
  cases e with
  | app e => cases he
  | ndnSwitch interest =>
    cases he
    obtain ⟨node, hswitch, hg⟩ := bind_eq_ok.mp hs
    cases hg
    exact rounds_switchCommandStep hswitch
  | udpSwitch packet_data =>
    cases he
    obtain ⟨⟨node, reply⟩, hswitch, hg⟩ := bind_eq_ok.mp hs
    cases hg
    exact rounds_udpFunctionSwitchHandler hswitch

/-- **The exclude list is a tally** of what the commands of a run say. -/
theorem count_excludeList (hrun : run commandedStep h es = .ok h') :
    h'.node.funcExcludeList.count f = tally (h.node.funcExcludeList.count f) (said f es) := by
  induction es generalizing h with
  | nil =>
    cases hrun
    rfl
  | cons e es ih =>
    obtain ⟨g, hs, hrun⟩ := run_cons.mp hrun
    have hstep : g.node.funcExcludeList.count f =
        tally (h.node.funcExcludeList.count f) (e.tells f) := by
      cases he : e.switches with
      | none =>
        cases e with
        | app e =>
          have hlist : g.node.funcExcludeList = h.node.funcExcludeList :=
            step_admits admits_excludeList (e := e) hs
          rw [hlist, Commanded.tells, he]
          rfl
        | ndnSwitch interest => cases he
        | udpSwitch packet_data => cases he
      | some q =>
        rw [(rounds_of_switches he hs).count, Commanded.tells, he]
    have hsaid : said f (e :: es) = e.tells f ++ said f es := rfl
    rw [ih hrun, hstep, hsaid, tally_append]

/-! ## Runs -/

/-- No data brings an excluded function to an entry that has the data among its arguments. -/
def LiftsNothing (h : Host) : Commanded → Prop
  | .app (.data _ _ d) => h.app.active = true →
      (∃ t ∈ h.app.pendingContentTable, (t.pendingArgs.any fun q => q.1 = d) = true) →
        ∀ k, Dragged h.node d k → k ∉ h.node.funcExcludeList
  | _ => True

/-- An event of the app keeps excluded functions disabled exactly when it lifts nothing. -/
theorem step_excludedOff_iff {e : Event} (hoff : h.node.ExcludedOff) (hs : h.step e = .ok h') :
    h'.node.ExcludedOff ↔ h.LiftsNothing (.app e) := by
  have hlist := step_admits admits_excludeList hs
  have hkept : Same IncComputation.enableComputation h.node h'.node → h'.node.ExcludedOff := by
    intro hsame f hf
    rw [hsame.enabled]
    exact hoff f (hlist ▸ hf)
  cases e with
  | interest now cs name =>
    exact iff_of_true (hkept (onInterest_admits kept_enableComputation.admits hs)) trivial
  | data now cs d =>
    have hdata := onData_enabled hs
    constructor
    · intro hoff' hactive hmet k hd hk
      exact hoff' k (hlist.symm ▸ hk) ((hdata k).mpr (Or.inr ⟨hactive, hmet, hd⟩))
    · intro hlifts k hk hen
      rw [hlist] at hk
      rcases (hdata k).mp hen with hen | ⟨hactive, hmet, hd⟩
      · exact hoff k hk hen
      · exact hlifts hactive hmet k hd hk
  | executionEnd now k =>
    obtain ⟨x, -, hend⟩ := executionEnd_cases hs
    have hsame := scheduledExecutionEnd_admits kept_enableComputation.admits hend
    exact iff_of_true (hkept hsame) trivial

/-- **A command keeps excluded functions disabled** when `Disable` and `Enable` take turns. -/
theorem excludedOff_of_switches {q : Str × List Str} {h₀ : Host} (h₀nil : h₀.node.funcExcludeList = [])
    (hrun : run commandedStep h₀ (es ++ [e]) = .ok h') (hstep : h.commandedStep e = .ok h')
    (hturn : ∀ f, Alternates (said f (es ++ [e]))) (he : e.switches = some q)
    (hoff : h.node.ExcludedOff) : h'.node.ExcludedOff := by
  intro f hf hen
  have htells : said f (es ++ [e]) = said f es ++ e.tells f := by simp [said]
  have htally := count_excludeList (f := f) hrun
  rw [h₀nil, List.count_nil, tally_of_alternates (hturn f)] at htally
  have hpos : 0 < h'.node.funcExcludeList.count f := List.count_pos_iff.mpr hf
  have hsaid : e.tells f = q.2.flatMap (mention q.1 f) := by rw [Commanded.tells, he]
  have hrounds : Rounds q.1 h.node q.2 h'.node := rounds_of_switches he hstep
  obtain ⟨-, hlast | ⟨hnil, hen'⟩⟩ := hrounds.enabled.mp hen
  · rw [htally, htells, hsaid, List.getLast?_append, hlast] at hpos
    exact absurd hpos (Nat.lt_irrefl 0)
  · have hsame := hrounds.count (f := f)
    rw [hnil] at hsame
    refine hoff f (List.count_pos_iff.mp ?_) hen'
    exact hpos.trans_eq hsame

end Host

/-- **Only the orchestrator lifts a disable** in a run from an empty exclude list in which the commands
for each function take turns: every excluded function is disabled throughout, exactly when no data
arrival of the run brings an excluded function. -/
theorem excludedOff_iff {h h' : Host} {es : List Commanded} (hnil : h.node.funcExcludeList = [])
    (hturn : ∀ f, Alternates (said f es)) (hrun : run Host.commandedStep h es = .ok h') :
    Always Host.commandedStep (fun h => h.node.ExcludedOff) h es ↔
      StepsMeet Host.commandedStep Host.LiftsNothing h es := by
  refine always_iff_stepsMeet_of_isPrefix (fun es₁ e t t' hp hrun₁ hs hoff => ?_) ?_ hrun
  · have hcommand : ∀ q, e.switches = some q → t'.node.ExcludedOff := by
      intro q he
      refine Host.excludedOff_of_switches hnil (run_concat.mpr ⟨t, hrun₁, hs⟩) hs (fun f => ?_) he hoff
      obtain ⟨rest, hrest⟩ := hp
      have hall := hturn f
      rw [← hrest, said, List.flatMap_append] at hall
      exact List.IsChain.left_of_append hall
    cases e with
    | app e => exact Host.step_excludedOff_iff hoff hs
    | ndnSwitch interest => exact iff_of_true (hcommand _ rfl) trivial
    | udpSwitch packet_data => exact iff_of_true (hcommand _ rfl) trivial
  · intro f hf
    rw [hnil] at hf
    cases hf

/-! ## A late answer -/

/-- A function of one parameter that is not enabled yet. -/
def notYetEnabled : Host :=
  ⟨.fresh "n".toList 10 4 [{ IncComputation.fresh "f".toList 1 1 1 with enableComputation := false }],
   .start ⟨1, nfnProducerAppFace⟩⟩

/-- The function is requested, the orchestrator disables it, and the answer to the request comes. -/
def lateDrag : List Commanded :=
  [.app (.interest 0 (fun _ _ => true)
    ⟨[lambdaComp, functionComp, "f".toList, dataComp, "x".toList]⟩),
   .ndnSwitch (switchName "n".toList .disable ["f".toList]),
   .app (.data 0 (fun _ _ _ => true) (functionName ⟨["f".toList]⟩))]

theorem alternates_lateDrag (f : Str) : Alternates (said f lateDrag) := by
  have hsaid : said f lateDrag =
      [] ++ ((mention ('/' :: SwitchOp.disable.text) f "/f".toList ++ []) ++ ([] ++ [])) := rfl
  have hne : '/' :: SwitchOp.disable.text ≠ '/' :: SwitchOp.enable.text := by decide
  rw [hsaid, mention, if_neg hne, if_pos rfl]
  by_cases hf : "/f".toList = f
  · rw [if_pos hf]
    exact List.isChain_singleton true
  · rw [if_neg hf]
    exact List.isChain_nil

theorem lateDrag_ends :
    ∃ h, run Host.commandedStep notYetEnabled lateDrag = .ok h ∧ ¬ h.node.ExcludedOff := by
  refine ⟨_, rfl, fun hoff => ?_⟩
  exact hoff "/f".toList (by decide) ⟨_, rfl, rfl⟩

/-- The answer enables the function while it is on the exclude list. -/
theorem excludedOff_fails :
    ¬ ∀ (h h' : Host) (es : List Commanded), h.node.funcExcludeList = [] →
      (∀ f, Alternates (said f es)) → run Host.commandedStep h es = .ok h' →
        Always Host.commandedStep (fun h => h.node.ExcludedOff) h es := by
  intro hall
  obtain ⟨h, hrun, hoff⟩ := lateDrag_ends
  exact hoff (hall _ _ _ rfl alternates_lateDrag hrun lateDrag h (List.prefix_refl _) hrun)

theorem excludedOff_iff_lateDrag :
    ¬ StepsMeet Host.commandedStep Host.LiftsNothing notYetEnabled lateDrag := by
  intro hs
  obtain ⟨h, hrun, hoff⟩ := lateDrag_ends
  exact hoff ((excludedOff_iff rfl alternates_lateDrag hrun).mpr hs lateDrag h (List.prefix_refl _) hrun)

end IncSim
