import IncSim.Lib.Flight
import IncSim.Producer.Calls
import IncSim.Producer.Started

/-!
# Fetches are single-flight

`m_sending_interest_list` suppresses the names that the FETCH branch has requested and that have
not arrived.

* `Call.sends`: the names that a call requests; `Call.sent_of_act`: they are the packets of a fetch.
* `Host.flights`, `flightsIn`: the requests and arrivals of an event, and of a run.
* `fetchSends_tracks`, `step_tracks`: a fetch and an event keep the list in step with its history.
* **`fetches_singleFlight`**: between two requests for a name it arrives, and the list has the names
  whose last event is a request.
-/

namespace IncSim

open PartialRun Flight

/-! ## Requests and arrivals -/

/-- The names that a call requests in its FETCH branch. -/
def Call.sends (c : Call) : List Name :=
  match Host.resolve c.cs c.ics c.host.node with
  | .ok (_, .fetch, names) => fetchSends c.host.app.sendingInterestList names
  | _ => []

/-- The requests and arrivals of an event, in their order. -/
def Host.flights (h : Host) : SharedEvent → List (Flight Name)
  | .app (.data now cs d) => answered d :: ((h.calls (.data now cs d)).flatMap Call.sends).map sent
  | .app e => ((h.calls e).flatMap Call.sends).map sent
  | .node _ => []

/-- The requests and arrivals of a run, in their order. -/
def flightsIn : Host → List SharedEvent → List (Flight Name)
  | _, [] => []
  | h, e :: es => h.flights e ++
    match h.sharedStep e with
    | .ok h => flightsIn h es
    | .error _ => []

/-- The names that are requested. -/
def NfnProducerApp.requested (a : NfnProducerApp) : Set Name := {n | n ∈ a.sendingInterestList}

variable {h h' : Host} {c : Call} {l : List (Flight Name)} {now : Time} {cs : ContentStore}

/-- The interests that a fetch hands to the link are those that it counts. -/
theorem Call.sent_of_act {node : ComputeNode} {names : List Name} (hc : c.Act h h')
    (hres : Host.resolve c.cs c.ics c.host.node = .ok (node, .fetch, names)) :
    h'.app.sent = h.app.sent ++ c.sends.map Packet.interest := by
  obtain ⟨rfl, hr⟩ := hc
  unfold Call.sends
  simp only [Host.resolveAndHandleDecisions, hres] at hr
  cases hr
  rw [hres]
  exact sent_fetch _ _ _

/-! ## One call -/

/-- **A fetch keeps the list in step**: it requests exactly the names that are not requested. -/
theorem fetchSends_tracks (names : List Name) (q : NfnProducerApp × InterestComponentStruct)
    (ht : Tracks q.1.requested l) :
    Tracks (names.foldl NfnProducerApp.fetchName q).1.requested
      (l ++ (fetchSends q.1.sendingInterestList names).map sent) := by
  induction names generalizing q l with
  | nil =>
    rw [fetchSends, List.map_nil, List.append_nil]
    exact ht
  | cons d names ih =>
    rw [List.foldl_cons, fetchSends]
    have hset : (NfnProducerApp.fetchName q d).1.requested = insert d q.1.requested :=
      Set.ext fun n => NfnProducerApp.mem_sending_fetchName
    by_cases hd : d ∈ q.1.sendingInterestList
    · have hq : (NfnProducerApp.fetchName q d).1 = q.1 := if_pos hd
      rw [if_pos hd, ← hq]
      exact ih _ (hq ▸ ht)
    · have hlist : (NfnProducerApp.fetchName q d).1.sendingInterestList =
          d :: q.1.sendingInterestList := congrArg NfnProducerApp.sendingInterestList (if_neg hd)
      have hnext := ih (NfnProducerApp.fetchName q d) (hset ▸ ht.sent hd)
      rw [if_neg hd, List.map_cons, List.append_cons, ← hlist]
      exact hnext

theorem call_tracks (hc : c.Act h h') (ht : Tracks h.app.requested l) :
    Tracks h'.app.requested (l ++ c.sends.map sent) := by
  obtain ⟨rfl, hr⟩ := hc
  obtain ⟨node, decision, names, hres, ⟨rfl, happ⟩ | ⟨hne, hsend, -⟩⟩ :=
    Host.resolveAndHandleDecisions_pending hr
  · rw [Call.sends, hres, happ]
    exact fetchSends_tracks names (c.host.app, c.ics) ht
  · have hnone : c.sends = [] := by
      rw [Call.sends, hres]
      cases decision with
      | fetch => exact absurd rfl hne
      | nack => rfl
      | forward => rfl
      | execute => rfl
    rw [hnone, List.map_nil, List.append_nil, NfnProducerApp.requested, hsend]
    exact ht

theorem call_active (hc : c.Act h h') : h'.app.active = h.app.active := by
  obtain ⟨rfl, hr⟩ := hc
  cases Host.resolveAndHandleDecisions_cases hr with
  | passOn l hn => rfl
  | fetch names hn => exact (Host.fetch_lists _ _ _).1
  | start hs => rw [hs.app]; rfl
  | wait hfit hfull hn => rfl

/-! ## One event -/

/-- The list is in step with its history; an app that is off has requested nothing. -/
structure InStep (h : Host) (l : List (Flight Name)) : Prop where
  tracks : Tracks h.app.requested l
  off : h.app.active = false → h.app.sendingInterestList = []

theorem InStep.of_app (hi : InStep h l) (ha : h'.app.active = h.app.active)
    (hsend : h'.app.sendingInterestList = h.app.sendingInterestList) : InStep h' l where
  tracks := by
    rw [NfnProducerApp.requested, hsend]
    exact hi.tracks
  off hoff := hsend.trans (hi.off (ha.symm.trans hoff))

/-- The app is on, too. -/
structure InStepOn (h : Host) (l : List (Flight Name)) : Prop extends InStep h l where
  on : h.app.active = true

theorem InStepOn.quiet (hi : InStepOn h l) (hq : h.Quiet h') : InStepOn h' l :=
  ⟨hi.of_app hq.active hq.sendingInterestList, hq.active.trans hi.on⟩

theorem InStepOn.act (hi : InStepOn h l) (hc : c.Act h h') :
    InStepOn h' (l ++ c.sends.map sent) := by
  have hon := (call_active hc).trans hi.on
  exact ⟨⟨call_tracks hc hi.tracks, fun hoff => absurd (hon.symm.trans hoff) nofun⟩, hon⟩

/-- The calls of an arrival keep the list in step. -/
theorem calls_inStep {calls : List Call} (hw : Host.Calling h calls h') (hi : InStep h l)
    (hon : h.app.active = false → calls = []) :
    InStep h' (l ++ (calls.flatMap Call.sends).map sent) := by
  cases hactive : h.app.active with
  | false =>
    rw [hon hactive] at hw ⊢
    obtain ⟨hq⟩ := hw
    rw [List.flatMap_nil, List.map_nil, List.append_nil]
    exact hi.of_app hq.active hq.sendingInterestList
  | true =>
    have hrun : InStepOn h' (calls.foldl (fun l c => l ++ c.sends.map sent) l) :=
      hw.foldl (fun _ _ _ hq hi => hi.quiet hq) (fun _ _ _ _ hc hi => hi.act hc) ⟨hi, hactive⟩
    have hfold : calls.foldl (fun l c => l ++ c.sends.map sent) l =
        l ++ (calls.map fun c => c.sends.map sent).flatten := List.foldl_append_eq_append
    rw [hfold, ← List.flatMap_def, ← List.map_flatMap] at hrun
    exact hrun.toInStep

theorem calls_off {e : Event} (hoff : h.app.active = false) : h.calls e = [] := by
  cases e with
  | interest now cs name =>
    show h.interestCalls now cs name = []
    rw [Host.interestCalls, hoff]
    rfl
  | data now cs d =>
    show (if h.app.active then _ else []) = []
    rw [hoff]
    rfl
  | executionEnd now k => rfl

theorem executionEnd_inStep {k : ℕ} (hi : InStep h l) (hs : h.step (.executionEnd now k) = .ok h') :
    InStep h' l := by
  obtain ⟨x, g, -, -, ⟨-, rfl⟩ | ⟨t, rest, -, -, hd⟩⟩ := Host.executionEnd_started hs
  · exact hi.of_app rfl rfl
  · have happ := Host.app_doExecution hd
    exact hi.of_app (by rw [happ]; rfl) (by rw [happ]; rfl)

/-- A name that arrives is no longer requested. -/
theorem opened_inStep {cs : ℕ → ContentStore} {d : Name} (hi : InStep h l) :
    InStep (h.opened (.data now cs d)) (l ++ [answered d]) := by
  have hans := hi.tracks.answered d
  unfold Host.opened
  dsimp only
  split
  · next hon =>
    refine ⟨?_, fun hoff => absurd (hon.symm.trans hoff) nofun⟩
    have hset : (h.received d).app.requested = h.app.requested \ {d} := by
      ext n
      simp [NfnProducerApp.requested, Host.received]
    rw [hset]
    exact hans
  · next hon =>
    have hnil := hi.off (Bool.eq_false_of_not_eq_true hon)
    have hset : h.app.requested \ {d} = h.app.requested := by
      simp [NfnProducerApp.requested, hnil]
    rw [hset] at hans
    exact ⟨hans, hi.off⟩

/-- **An event keeps the list in step.** -/
theorem step_inStep {e : SharedEvent} (hi : InStep h l) (hs : h.sharedStep e = .ok h') :
    InStep h' (l ++ h.flights e) := by
  cases e with
  | node n =>
    cases hs
    have hnode : InStep { h with node := n } l := hi.of_app rfl rfl
    rw [Host.flights, List.append_nil]
    exact hnode
  | app e =>
    have hs : h.step e = .ok h' := hs
    cases e with
    | interest now cs name => exact calls_inStep (Host.step_weave hs nofun) hi calls_off
    | data now cs d =>
      have hopen : (h.opened (.data now cs d)).app.active = h.app.active := by
        unfold Host.opened
        dsimp only
        split <;> rfl
      have hcalls := calls_inStep (Host.step_weave hs nofun) (opened_inStep hi)
        fun hoff => calls_off (hopen.symm.trans hoff)
      rwa [← List.append_cons] at hcalls
    | executionEnd now k =>
      have hnone : h.flights (.app (.executionEnd now k)) = [] := rfl
      rw [hnone, List.append_nil]
      exact executionEnd_inStep hi hs

theorem run_inStep {es : List SharedEvent} (hi : InStep h l)
    (hrun : run Host.sharedStep h es = .ok h') : InStep h' (l ++ flightsIn h es) := by
  induction es generalizing h l with
  | nil =>
    cases hrun
    rw [flightsIn, List.append_nil]
    exact hi
  | cons e es ih =>
    obtain ⟨g, hstep, hrun⟩ := run_cons.mp hrun
    have hnext := ih (step_inStep hi hstep) hrun
    rw [flightsIn, hstep, ← List.append_assoc]
    exact hnext

/-- **Fetches are single-flight.** -/
theorem fetches_singleFlight {es : List SharedEvent} (hempty : h.app.sendingInterestList = [])
    (hrun : run Host.sharedStep h es = .ok h') :
    SingleFlight (flightsIn h es) ∧
      ∀ t, t ∈ h'.app.sendingInterestList ↔
        LastWriter.latest Flight.key t (flightsIn h es) = some (sent t) := by
  have hstart : InStep h [] := by
    refine ⟨?_, fun _ => hempty⟩
    have hset : h.app.requested = ∅ := by simp [NfnProducerApp.requested, hempty]
    rw [hset]
    exact Tracks.nil
  have hend := (run_inStep hstart hrun).tracks
  exact ⟨hend.single, hend.mem_iff⟩

/-- The parameter `a` is missing again when it arrives. -/
def refetchRun : List SharedEvent :=
  [.app (.interest 0 (fun j _ => j != 0) (applied "a".toList "b".toList)),
   .app (.data 0 (fun _ j _ => j != 0) (dataName ⟨["a".toList]⟩))]

/-- In that run `a` is requested again while its arrival is handled, and stays in the list. -/
theorem fetches_singleFlight_refetchRun :
    ∃ h, run Host.sharedStep twoParams refetchRun = .ok h ∧
      SingleFlight (flightsIn twoParams refetchRun) ∧
      ∀ t, t ∈ h.app.sendingInterestList ↔
        LastWriter.latest Flight.key t (flightsIn twoParams refetchRun) = some (sent t) := by
  have hrun : ∃ h, run Host.sharedStep twoParams refetchRun = .ok h := ⟨_, rfl⟩
  obtain ⟨h, hrun⟩ := hrun
  exact ⟨h, hrun, fetches_singleFlight rfl hrun⟩

example : flightsIn twoParams refetchRun =
    [sent (dataName ⟨["a".toList]⟩), answered (dataName ⟨["a".toList]⟩),
      sent (dataName ⟨["a".toList]⟩)] := rfl

end IncSim
