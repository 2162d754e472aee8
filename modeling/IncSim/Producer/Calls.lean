import IncSim.Lib.Weave
import IncSim.Producer.Kept
import IncSim.Producer.Pending

/-!
# The calls of `ResolveAndHandleDecisions`

Every call in an event of a single app, with the app and the node as they are at the call.

* `fetchSends`, `sent_fetch`: the interests that a fetch sends.
* `Call`, `calls`: the calls of an event. `opened`: the app when the first one may come.
* `Idle`, `Quiet`: what an event does besides its calls.
* **`step_weave`**: an arrival is its calls, with quiet steps before, between and behind them.
-/

namespace IncSim

open PartialRun

open ComputeNode (Same)

/-- A call: the app and its node before it, and its arguments. -/
structure Call where
  host : Host
  now : Time
  cs : ContentStore
  ics : InterestComponentStruct

/-- The call is made in one state and leads to another. -/
def Call.Act (c : Call) (h h' : Host) : Prop :=
  h = c.host ∧ h.resolveAndHandleDecisions c.now c.cs c.ics = .ok h'

/-- The names that the FETCH branch requests: those that are not requested yet. -/
def fetchSends : List Name → List Name → List Name
  | _, [] => []
  | sending, d :: names =>
    if d ∈ sending then fetchSends sending names else d :: fetchSends (d :: sending) names

theorem sent_foldl_fetchName (names : List Name) (q : NfnProducerApp × InterestComponentStruct) :
    (names.foldl NfnProducerApp.fetchName q).1.sent =
      q.1.sent ++ (fetchSends q.1.sendingInterestList names).map Packet.interest := by
  induction names generalizing q with
  | nil => exact (List.append_nil _).symm
  | cons d names ih =>
    rw [List.foldl_cons, ih, fetchSends, NfnProducerApp.fetchName]
    dsimp only
    split_ifs
    · rfl
    · rw [List.map_cons, NfnProducerApp.send, List.append_assoc]
      rfl

theorem sent_fetch (a : NfnProducerApp) (t : InterestComponentStruct) (names : List Name) :
    (a.fetch t names).sent =
      a.sent ++ (fetchSends a.sendingInterestList names).map Packet.interest :=
  sent_foldl_fetchName names (a, t)

namespace Host

/-! ## The calls of an event -/

/-- The call in `OnInterest`. -/
def interestCalls (h : Host) (now : Time) (cs : ContentStore) (interest : Name) : List Call :=
  if !h.app.active then []
  else if interest.getSubName 0 1 = ⟨[lambdaComp]⟩ then
    let (node, func) := findFunction h.node none interest.comps
    [⟨⟨node, h.app⟩, now, cs, ⟨interest, func, []⟩⟩]
  else []

/-- The call behind the flag of `d` in entry `i`. -/
def pendingCalls (h : Host) (now : Time) (cs : ContentStore) (d : Name) (i : ℕ)
    (t : InterestComponentStruct) : List Call :=
  if t.pendingArgs.lookup d = some false ∧ (t.setArg d true).pendingArgs.all (fun q => q.2) = true then
    [⟨h.mark d i t, now, cs, t.setArg d true⟩]
  else []

/-- The call in one round of the loop of `OnData`. -/
def entryCalls (h : Host) (now : Time) (cs : ContentStore) (d : Name) (i : ℕ) : List Call :=
  match h.app.pendingContentTable[i]? with
  | none => []
  | some t =>
    if t.pendingArgs.any fun q => q.1 = d then
      match h.codeDrag d t with
      | .ok (h, true) => h.pendingCalls now cs d i t
      | _ => []
    else []

/-- The calls in the loop of `OnData`. -/
def entriesCalls (now : Time) (cs : ℕ → ContentStore) (d : Name) : ℕ → Host → List Call
  | 0, _ => []
  | i + 1, h => h.entryCalls now (cs i) d i ++
    match h.visitEntry now (cs i) d i with
    | .ok h => entriesCalls now cs d i h
    | .error _ => []

/-- The app when the calls of an event begin: in `OnData` the name is no longer requested. -/
def opened (h : Host) : Event → Host
  | .data _ _ d => if h.app.active then h.received d else h
  | _ => h

/-- The calls of `ResolveAndHandleDecisions` in an event. -/
def calls (h : Host) : Event → List Call
  | .interest now cs name => h.interestCalls now cs name
  | .data now cs d =>
    if h.app.active then entriesCalls now cs d h.app.pendingContentTable.length (h.received d) else []
  | .executionEnd _ _ => []

/-! ## Besides the calls -/

/-- The queue, the executions and the execution counters stay; packets may be sent, and the table,
the switches and the unknown functions may change. -/
structure Idle (h h' : Host) : Prop where
  active : h'.app.active = h.app.active
  waitingList : h'.app.waitingList = h.app.waitingList
  inProgress : h'.app.inProgress = h.app.inProgress
  sent : h.app.sent <+: h'.app.sent
  execCounter : Same IncComputation.execCounter h.node h'.node

/-- The requested names stay, too. -/
structure Quiet (h h' : Host) : Prop extends Idle h h' where
  sendingInterestList : h'.app.sendingInterestList = h.app.sendingInterestList

variable {h h' : Host} {t : InterestComponentStruct} {now : Time} {cs : ContentStore} {d : Name}
  {i : ℕ} {e : Event}

theorem Idle.trans {h'' : Host} (ha : Idle h h') (hb : Idle h' h'') : Idle h h'' where
  active := hb.active.trans ha.active
  waitingList := hb.waitingList.trans ha.waitingList
  inProgress := hb.inProgress.trans ha.inProgress
  sent := ha.sent.trans hb.sent
  execCounter := ha.execCounter.trans hb.execCounter

/-- Only the node changes, and the counters stay. -/
theorem Idle.of_node {node : ComputeNode} (hs : Same IncComputation.execCounter h.node node) :
    Idle h ⟨node, h.app⟩ := ⟨rfl, rfl, rfl, List.prefix_refl _, hs⟩

namespace Quiet

theorem refl (h : Host) : Quiet h h := ⟨⟨rfl, rfl, rfl, List.prefix_refl _, Same.refl _ _⟩, rfl⟩

theorem trans (a b c : Host) (hab : Quiet a b) (hbc : Quiet b c) : Quiet a c :=
  ⟨hab.toIdle.trans hbc.toIdle, hbc.sendingInterestList.trans hab.sendingInterestList⟩

theorem of_node {node : ComputeNode} (hs : Same IncComputation.execCounter h.node node) :
    Quiet h ⟨node, h.app⟩ := ⟨Idle.of_node hs, rfl⟩

theorem mark (h : Host) (d : Name) (i : ℕ) (t : InterestComponentStruct) : Quiet h (h.mark d i t) :=
  ⟨⟨rfl, rfl, rfl, List.prefix_refl _, Same.refl _ _⟩, rfl⟩

theorem send (h : Host) (p : Packet) : Quiet h (h.send p) :=
  ⟨⟨rfl, rfl, rfl, List.prefix_append _ _, Same.refl _ _⟩, rfl⟩

end Quiet

theorem codeDrag_quiet {goOn : Bool} (hc : h.codeDrag d t = .ok (h', goOn)) : Quiet h h' := by
  have hexec : Same IncComputation.execCounter h.node h'.node := by
    unfold codeDrag at hc
    split at hc
    · obtain ⟨⟨node, enabled⟩, he, hc⟩ := bind_eq_ok.mp hc
      have hsame : Same IncComputation.execCounter h.node node :=
        ComputeNode.same_enableFunction (fun f => rfl) he
      dsimp only at hc
      split at hc <;>
      · cases hc
        exact hsame
    · cases hc
      exact Same.refl _ _
  obtain ⟨-, ⟨happ, -⟩ | ⟨happ, -⟩⟩ := codeDrag_cases hc
  · exact ⟨⟨by rw [happ], by rw [happ], by rw [happ], by rw [happ], hexec⟩, by rw [happ]⟩
  · have hsent : h.app.sent <+: h'.app.sent := by
      rw [happ]
      exact List.prefix_refl _
    exact ⟨⟨by rw [happ]; rfl, by rw [happ]; rfl, by rw [happ]; rfl, hsent, hexec⟩,
      by rw [happ]; rfl⟩

/-! ## An arrival is its calls -/

/-- Quiet steps and calls in turn. -/
abbrev Calling : Host → List Call → Host → Prop := Weave Quiet Call.Act

theorem setPending_weave (hs : h.setPending now cs d i t = .ok h') :
    Calling h (h.pendingCalls now cs d i t) h' := by
  unfold pendingCalls
  obtain ⟨hw, rfl⟩ | ⟨hw, ⟨hall, rfl⟩ | ⟨hall, hr⟩⟩ := setPending_cases hs
  · rw [if_neg fun hc => hw hc.1]
    exact .done (Quiet.refl h')
  · rw [if_neg fun hc => hall hc.2]
    exact .done (Quiet.mark h d i t)
  · rw [if_pos ⟨hw, hall⟩]
    exact .act (Quiet.mark h d i t) ⟨rfl, hr⟩ (.done (Quiet.refl h'))

theorem visitEntry_weave (hv : h.visitEntry now cs d i = .ok h') :
    Calling h (h.entryCalls now cs d i) h' := by
  obtain ⟨t, ht, hcase⟩ := visitEntry_cases hv
  unfold entryCalls
  rw [ht]
  dsimp only
  obtain ⟨hkey, rfl⟩ | ⟨hkey, ⟨g, hc, hs⟩ | hc⟩ := hcase
  · rw [if_neg hkey]
    exact .done (Quiet.refl h')
  · rw [if_pos hkey, hc]
    exact (setPending_weave hs).after_silent Quiet.trans (codeDrag_quiet hc)
  · rw [if_pos hkey, hc]
    exact .done (codeDrag_quiet hc)

theorem visitEntries_weave {cs : ℕ → ContentStore} (hv : visitEntries now cs d i h = .ok h') :
    Calling h (entriesCalls now cs d i h) h' := by
  induction i generalizing h with
  | zero =>
    cases hv
    exact .done (Quiet.refl h')
  | succ i ih =>
    obtain ⟨g, hg, hv⟩ := bind_eq_ok.mp hv
    rw [entriesCalls, hg]
    exact (visitEntry_weave hg).append Quiet.trans (ih hv)

theorem onInterest_weave {name : Name} (ho : h.onInterest now cs name = .ok h') :
    Calling h (h.interestCalls now cs name) h' := by
  unfold interestCalls
  obtain ⟨hoff, rfl⟩ | ⟨hon, hcase⟩ := onInterest_cases ho
  · rw [if_pos (by simp [hoff])]
    exact .done (Quiet.refl h')
  · rw [if_neg (by simp [hon])]
    obtain ⟨hlambda, hr⟩ | ⟨hlambda, hcase⟩ := hcase
    · rw [if_pos hlambda]
      have hfind := findFunction_admits admits_execCounter h.node none name.comps
      exact .act (Quiet.of_node hfind) ⟨rfl, hr⟩ (.done (Quiet.refl h'))
    · rw [if_neg hlambda]
      obtain ⟨-, hnode, happ⟩ | ⟨-, rfl⟩ := hcase
      · have hget : Quiet h ⟨h'.node, h.app⟩ :=
          Quiet.of_node (hnode ▸ ComputeNode.same_getFunction _)
        obtain ⟨node, app⟩ := h'
        dsimp only at happ hget
        obtain rfl | rfl := happ
        · exact .done hget
        · exact .done (hget.trans _ _ _ (Quiet.send _ _))
      · exact .done (Quiet.send h _)

/-- **An arrival is its calls**, with quiet steps around them. -/
theorem step_weave (hs : h.step e = .ok h') (hend : ∀ now k, e ≠ .executionEnd now k) :
    Calling (h.opened e) (h.calls e) h' := by
  cases e with
  | interest now cs name => exact onInterest_weave hs
  | data now cs d =>
    have ho : h.onData now cs d = .ok h' := hs
    unfold onData at ho
    unfold opened calls
    dsimp only
    split at ho
    · next hoff =>
      have hoff : ¬ h.app.active = true := by simpa using hoff
      cases ho
      rw [if_neg hoff, if_neg hoff]
      exact .done (Quiet.refl h)
    · next hon =>
      have hon : h.app.active = true := by simpa using hon
      rw [if_pos hon, if_pos hon]
      exact visitEntries_weave ho
  | executionEnd now k => exact absurd rfl (hend now k)

end Host

end IncSim
