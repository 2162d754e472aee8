import IncSim.Orchestrator.Bootstrap

/-!
# The two transports

A status report reaches the message handler over UDP, as the C string of a packet with a path in
front of the report, or over NDN, as the content of a data packet whose name carries the request.

* `udpHandleRead`, `ndnOnData`: the receiving sides; `udpFetch`, `ndnFetch`: a whole exchange.
* **`udpHandleRead_reply`**: the path is recognised and exactly the path is erased.
* `readBootstrap_busy`: the bootstrap handler does not read the busy counter.
* **`status_transports_agree`**: both transports leave the same table and the same node.
-/

namespace IncSim

open PartialRun Text

/-- `erase (0, last_position)` with the position behind the action and one more character; `npos`
is `-1` as an `int`. -/
def eraseThrough (actionToDo packetData : Str) : Str :=
  match find actionToDo packetData with
  | some index => packetData.drop (index + actionToDo.length + 1)
  | none => packetData.drop actionToDo.length

section Transport

variable [NdnCxx]

/-- `UdpOrchestrationCommunicationApp::HandleRead` of one packet. -/
def udpHandleRead (t : Table) (packet : Str) : Except Fault Table :=
  let packetData := cString packet
  if find "/Orchestrator".toList packetData = some 0 then
    if find "/BootstrapInfo/".toList packetData ≠ none then
      handleMessage t "/BootstrapInfo".toList (eraseThrough "/BootstrapInfo".toList packetData)
    else if find "/NodeStatusFetch".toList packetData ≠ none then
      handleMessage t "/NodeStatusFetch".toList (eraseThrough "/NodeStatusFetch".toList packetData)
    else handleMessage t "/Others".toList packetData
  else handleMessage t "/Others".toList packetData

/-- The action that `OnData` takes from the name of the data. -/
def ndnAction (dataName : Name) : String :=
  if dataName.getSubName 0 1 = NdnCxx.ofUri "/Orchestrator".toList then
    if dataName.getSubName 2 1 = NdnCxx.ofUri "/BootstrapInfo".toList then "/BootstrapInfo"
    else if dataName.getSubName 2 1 = NdnCxx.ofUri "/NodeStatusFetch".toList then "/NodeStatusFetch"
    else "/Others"
  else "/Others"

/-- `NdnOrchestrationCommunicationApp::OnData`; `behind` is what follows the content in memory. -/
def ndnOnData (t : Table) (dataName : Name) (content behind : Str) : Except Fault Table :=
  handleMessage t (ndnAction (NdnCxx.ofUri dataName.toUri)).toList
    ((cString (content ++ behind)).take content.length)

/-- A request over UDP: the table and the node after it. -/
def udpFetch (t : Table) (n : ComputeNode) (r : StatusRequest) :
    Except Fault (Table × ComputeNode) := do
  let reply ← n.udpStatusFetchHandler r.text.toList
  let t ← udpHandleRead t reply.1
  .ok (t, reply.2)

/-- A request over NDN: the data carries the name of the interest. -/
def ndnFetch (t : Table) (n : ComputeNode) (interest : Name) (behind : Str) :
    Except Fault (Table × ComputeNode) := do
  let reply ← n.ndnStatusFetchHandler interest
  let t ← ndnOnData t interest reply.1 behind
  .ok (t, reply.2)

/-! ## The UDP side -/

/-- The component that names a request. -/
def StatusRequest.component : StatusRequest → String
  | bootstrapInfo => "BootstrapInfo"
  | nodeStatusFetch => "NodeStatusFetch"

/-- The path in front of a report. -/
def replyPath (name action : Str) : Str :=
  '/' :: ("Orchestrator".toList ++ '/' :: (name ++ '/' :: (action ++ ['/'])))

omit [NdnCxx] in
theorem StatusRequest.text_eq (r : StatusRequest) : r.text.toList = '/' :: r.component.toList := by
  cases r <;> rfl

omit [NdnCxx] in
theorem replyPath_append (name action s : Str) :
    replyPath name action ++ s =
      '/' :: ("Orchestrator".toList ++ '/' :: (name ++ '/' :: (action ++ '/' :: s))) := by
  simp [replyPath]

section Path

variable {name action s : Str}

omit [NdnCxx] in
/-- The action is found behind the node name. -/
theorem find_action (hname : '/' ∉ name) (haction : '/' ∉ action) (hstart : ¬ action <+: name)
    (horch : ¬ action <+: "Orchestrator".toList) :
    find ('/' :: action) (replyPath name action ++ s) = some (name.length + 1 + 13) := by
  have hhere : find ('/' :: action) ('/' :: (action ++ '/' :: s)) = some 0 :=
    find_of_isPrefix (List.cons_prefix_cons.mpr ⟨rfl, List.prefix_append _ _⟩)
  rw [replyPath_append, find_skip (by decide) fun h => horch (isPrefix_of_append haction h),
    find_skip hname fun h => hstart (isPrefix_of_append haction h), hhere]
  simp

omit [NdnCxx] in
theorem eraseThrough_action (hname : '/' ∉ name) (haction : '/' ∉ action)
    (hstart : ¬ action <+: name) (horch : ¬ action <+: "Orchestrator".toList) :
    eraseThrough ('/' :: action) (replyPath name action ++ s) = s := by
  rw [eraseThrough, find_action hname haction hstart horch]
  refine List.drop_left' ?_
  simp [replyPath]
  omega

end Path

/-! ## The body of a reply -/

section Body

variable {n : ComputeNode} {fs : List (Str × IncComputation)} {ds : List (Str × UInt32)}

/-- What stands between the second and the third slash of a report. -/
def reportMiddle (n : ComputeNode) : Str :=
  n.name ++ ';' :: [';'].intercalate (n.reportTokens []).tail

omit [NdnCxx] in
theorem report_eq (n : ComputeNode) (fs : List (Str × IncComputation)) :
    [';'].intercalate (n.reportTokens fs) =
      "name=".toList ++ '/' :: (reportMiddle n ++ functionsText fs) := by
  simp [reportMiddle, ComputeNode.reportTokens, StatusField.token, StatusField.key,
    StatusField.text, List.intercalate, functionsText]

omit [NdnCxx] in
theorem slash_not_mem_reportMiddle (h : Reportable n fs ds) : '/' ∉ reportMiddle n := by
  have hdec : ∀ x, Free ['/'] (decimal x) := free_decimal _ (by decide)
  have htoken : ∀ {k v : Str}, Free ['/'] k → Free ['/'] v → Free ['/'] (k ++ '=' :: v) :=
    fun hk hv => hk.append_cons (by decide) hv
  have hkey : ∀ f : StatusField, Free ['/'] f.key := fun f => f.key_free.mono (by decide)
  have htokens : ∀ v ∈ (n.reportTokens []).tail, Free ['/'] v := by
    simp only [ComputeNode.reportTokens, List.tail_cons, List.forall_mem_cons, List.not_mem_nil,
      false_imp_iff, implies_true, and_true]
    exact ⟨htoken (hkey _) (hdec _), htoken (by decide) (hdec _), htoken (hkey _) (hdec _),
      htoken (hkey _) (hdec _), htoken (hkey _) (h.links.mono (by decide)),
      htoken (hkey _) (h.runtimes.mono (by decide)), htoken (hkey _) (hdec _),
      htoken (hkey _) (h.data.free.mono (by decide)), htoken (hkey _) (free_nil _)⟩
  have hname : Free ['/'] n.name := h.name.mono (by decide)
  exact hname.append_cons (by decide) (Free.intercalate (by decide) htokens) '/' List.mem_cons_self

omit [NdnCxx] in
/-- No segment of a report is the name of an action. -/
theorem action_not_mem_splitOn (h : Reportable n fs ds) {action : Str} (hsemi : ';' ∉ action)
    (hcolon : ':' ∉ action) (hne : action ≠ "name=".toList) :
    action ∉ ([';'].intercalate (n.reportTokens fs)).splitOn '/' := by
  rw [report_eq, List.splitOn_append_cons_self_of_not_mem (by decide), functionsText_eq,
    splitOn_append_segments (slash_not_mem_reportMiddle h) (slash_not_mem_functionTexts h.functions)]
  intro hmem
  rcases List.mem_cons.mp hmem with hname | hmem
  · exact hne hname
  · rcases List.mem_cons.mp hmem with rfl | hmem
    · exact hsemi (List.mem_append_right _ List.mem_cons_self)
    · obtain ⟨p, -, rfl⟩ := List.mem_map.mp hmem
      refine hcolon ?_
      simp [functionText, functionFields, List.intercalate]

/-- The node name starts with no action and has no null character in it. -/
structure NameFit (name : Str) : Prop where
  bootstrapInfo : ¬ "BootstrapInfo".toList <+: name
  nodeStatusFetch : ¬ "NodeStatusFetch".toList <+: name
  terminated : '\x00' ∉ name

omit [NdnCxx] in
theorem NameFit.component (h : NameFit n.name) (r : StatusRequest) :
    ¬ r.component.toList <+: n.name := by
  cases r with
  | bootstrapInfo => exact h.bootstrapInfo
  | nodeStatusFetch => exact h.nodeStatusFetch

omit [NdnCxx] in
theorem null_not_mem_replyPath (h : NameFit n.name) (r : StatusRequest) :
    '\x00' ∉ replyPath n.name r.component.toList := by
  have hcomp : '\x00' ∉ r.component.toList := by cases r <;> decide
  simp [replyPath, h.terminated, hcomp]

omit [NdnCxx] in
/-- In a reply to a status request no text looks like a bootstrap action. -/
theorem bootstrap_not_found (h : Reportable n fs ds) (hname : NameFit n.name) {s : Str}
    (hs : s <+: [';'].intercalate (n.reportTokens fs)) :
    find "/BootstrapInfo/".toList (replyPath n.name "NodeStatusFetch".toList ++ s) = none := by
  rw [find_eq_none_iff]
  intro hinf
  have hmem : "BootstrapInfo".toList ∈ (replyPath n.name "NodeStatusFetch".toList ++
      [';'].intercalate (n.reportTokens fs)).splitOn '/' := by
    refine mem_splitOn_of_infix (by decide) (hinf.trans ?_)
    exact ((List.prefix_append_right_inj _).mpr hs).isInfix
  rw [replyPath_append, splitOn_cons_self, List.splitOn_append_cons_self_of_not_mem (by decide),
    List.splitOn_append_cons_self_of_not_mem (h.name '/' (by decide)),
    List.splitOn_append_cons_self_of_not_mem (by decide)] at hmem
  rcases List.mem_cons.mp hmem with heq | hmem
  · exact absurd heq (by decide)
  rcases List.mem_cons.mp hmem with heq | hmem
  · exact absurd heq (by decide)
  rcases List.mem_cons.mp hmem with heq | hmem
  · exact hname.bootstrapInfo (heq ▸ List.prefix_refl _)
  rcases List.mem_cons.mp hmem with heq | hmem
  · exact absurd heq (by decide)
  · exact action_not_mem_splitOn h (by decide) (by decide) (by decide) hmem

/-- **The receiving side of UDP** recognises the request and hands on exactly the report, cut at
its first null character. -/
theorem udpHandleRead_reply (h : Reportable n fs ds) (hname : NameFit n.name) (r : StatusRequest)
    (t : Table) :
    udpHandleRead t (replyPath n.name r.component.toList ++
        [';'].intercalate (n.reportTokens fs) ++ ['\x00']) =
      handleMessage t r.text.toList (cString ([';'].intercalate (n.reportTokens fs))) := by
  have hslash : '/' ∉ n.name := h.name '/' (by decide)
  have hnone := bootstrap_not_found h hname
    (cString_isPrefix ([';'].intercalate (n.reportTokens fs)))
  generalize [';'].intercalate (n.reportTokens fs) = report at hnone
  have hpacket : cString (replyPath n.name r.component.toList ++ report ++ ['\x00']) =
      replyPath n.name r.component.toList ++ cString report := by
    rw [cString_terminated, cString_append (null_not_mem_replyPath hname r)]
  have horch : find "/Orchestrator".toList (replyPath n.name r.component.toList ++ cString report) =
      some 0 := by
    rw [replyPath_append]
    exact find_of_isPrefix (List.cons_prefix_cons.mpr ⟨rfl, List.prefix_append _ _⟩)
  have hfound := find_action (s := cString report) hslash (by cases r <;> decide)
    (hname.component r) (by cases r <;> decide)
  have herase := eraseThrough_action (s := cString report) hslash (by cases r <;> decide)
    (hname.component r) (by cases r <;> decide)
  unfold udpHandleRead
  rw [hpacket, if_pos horch]
  cases r with
  | bootstrapInfo =>
    have hboot : find "/BootstrapInfo/".toList
        (replyPath n.name "BootstrapInfo".toList ++ cString report) ≠ none := by
      rw [ne_eq, find_eq_none_iff, not_not, replyPath_append]
      exact ⟨'/' :: ("Orchestrator".toList ++ '/' :: n.name), cString report, by simp⟩
    exact (if_pos hboot).trans (congrArg (handleMessage t "/BootstrapInfo".toList) herase)
  | nodeStatusFetch =>
    have hstat : find "/NodeStatusFetch".toList
        (replyPath n.name "NodeStatusFetch".toList ++ cString report) ≠ none :=
      fun hn => Option.some_ne_none _ (hfound.symm.trans hn)
    exact (if_neg (not_not.mpr hnone)).trans ((if_pos hstat).trans
      (congrArg (handleMessage t "/NodeStatusFetch".toList) herase))

/-! ## The NDN side -/

/-- The interest asks for a status report, and ndn-cxx reads its URI back. -/
structure Asks (i : Name) (r : StatusRequest) : Prop where
  orchestrator : i.getSubName 0 1 = NdnCxx.ofUri "/Orchestrator".toList
  request : i.getSubName 2 1 = NdnCxx.ofUri r.text.toList
  read : NdnCxx.ofUri i.toUri = i

theorem ofUri_ne (huri : ∀ r : StatusRequest, UriExact r.text.toList) :
    (NdnCxx.ofUri "/NodeStatusFetch".toList) ≠ NdnCxx.ofUri "/BootstrapInfo".toList := by
  intro heq
  have htext := (huri .nodeStatusFetch).symm.trans
    ((congrArg Name.toUri heq).trans (huri .bootstrapInfo))
  exact absurd htext (by decide)

theorem ndnAction_eq (huri : ∀ r : StatusRequest, UriExact r.text.toList) {i : Name}
    {r : StatusRequest} (hi : Asks i r) : ndnAction i = r.text := by
  unfold ndnAction
  rw [if_pos hi.orchestrator]
  cases r with
  | bootstrapInfo => exact if_pos hi.request
  | nodeStatusFetch =>
    have hne : i.getSubName 2 1 ≠ NdnCxx.ofUri "/BootstrapInfo".toList := by
      rw [hi.request]
      exact ofUri_ne huri
    exact (if_neg hne).trans (if_pos hi.request)

/-- **The receiving side of NDN** hands on the report, cut at its first null character. -/
theorem ndnOnData_reply (huri : ∀ r : StatusRequest, UriExact r.text.toList) {i : Name}
    {r : StatusRequest} (hi : Asks i r) (t : Table) (content behind : Str) :
    ndnOnData t i content behind = handleMessage t r.text.toList (cString content) := by
  rw [ndnOnData, hi.read, take_cString, ndnAction_eq huri hi]

/-! ## The busy counter of a bootstrap report -/

/-- The bootstrap handler does not read the value of the busy counter. -/
theorem readBootstrap_busy (a c : Str) {v v' : Str} (hv : Free [';', '='] v)
    (hv' : Free [';', '='] v') :
    readBootstrap (a ++ ';' :: (StatusField.nodeBusyCounter.token v ++ ';' :: c)) =
      readBootstrap (a ++ ';' :: (StatusField.nodeBusyCounter.token v' ++ ';' :: c)) := by
  have hstep : ∀ {v : Str}, Free [';', '='] v → ∀ e,
      bootstrapField e (StatusField.nodeBusyCounter.token v) =
        .ok { e with nodeBusyCounter := (0, 0) } := by
    intro v hv e
    rw [bootstrapField_token e .nodeBusyCounter (hv '=' (by decide))]
    rfl
  have hkey : Free [';'] StatusField.nodeBusyCounter.key :=
    StatusField.nodeBusyCounter.key_free.mono (by decide)
  have hfree : ∀ {v : Str}, Free [';', '='] v → ';' ∉ StatusField.nodeBusyCounter.token v :=
    fun hv => hkey.append_cons (by decide) (hv.mono (by decide)) ';' List.mem_cons_self
  have hrun : ∀ {v : Str}, Free [';', '='] v →
      readBootstrap (a ++ ';' :: (StatusField.nodeBusyCounter.token v ++ ';' :: c)) =
        run bootstrapField .new (a.splitOn ';') >>= fun e =>
          run bootstrapField { e with nodeBusyCounter := (0, 0) } (c.splitOn ';') := by
    intro v hv
    rw [readBootstrap, List.splitOn_append_cons_self,
      List.splitOn_append_cons_self_of_not_mem (hfree hv), run_append]
    exact congrArg _ (funext fun e => run_cons_of_ok (hstep hv e))
  rw [hrun hv, hrun hv']

/-- The tokens of a report before the busy counter. -/
def reportHead (n : ComputeNode) : Str := [';'].intercalate ((n.reportTokens []).take 7)

/-- The tokens of a report behind the busy counter. -/
def reportTail (n : ComputeNode) (fs : List (Str × IncComputation)) : Str :=
  [';'].intercalate ((n.reportTokens fs).drop 8)

omit [NdnCxx] in
theorem report_busy (n : ComputeNode) (fs : List (Str × IncComputation)) :
    [';'].intercalate (n.reportTokens fs) =
      reportHead n ++ ';' :: (StatusField.nodeBusyCounter.token (decimal n.nodeBusyCounter.toNat) ++
        ';' :: reportTail n fs) := by
  simp [reportHead, reportTail, ComputeNode.reportTokens, List.intercalate]

theorem readBootstrap_reset (n : ComputeNode) (fs : List (Str × IncComputation)) :
    readBootstrap (cString ([';'].intercalate (n.resetNodeBusyCounter.reportTokens fs))) =
      readBootstrap (cString ([';'].intercalate (n.reportTokens fs))) := by
  have hhead : reportHead n.resetNodeBusyCounter = reportHead n := rfl
  have htail : reportTail n.resetNodeBusyCounter fs = reportTail n fs := rfl
  rw [report_busy, report_busy n, hhead, htail]
  by_cases hnull : '\x00' ∈ reportHead n
  · rw [cString_append_of_mem hnull, cString_append_of_mem hnull]
  · have hkey : Free ['\x00'] StatusField.nodeBusyCounter.key :=
      StatusField.nodeBusyCounter.key_free.mono (by decide)
    have htoken : ∀ x, '\x00' ∉ StatusField.nodeBusyCounter.token (decimal x) := fun x =>
      hkey.append_cons (by decide) (free_decimal _ (by decide) x) '\x00' List.mem_cons_self
    have hfree : ∀ x, Free [';', '='] (decimal x) := free_decimal _ (by decide)
    rw [cString_append hnull, cString_append hnull, cString_cons (by decide),
      cString_cons (by decide), cString_append (htoken _), cString_append (htoken _),
      cString_cons (by decide)]
    exact readBootstrap_busy _ _ (hfree _) (hfree _)

/-! ## Both transports -/

omit [NdnCxx] in
theorem udpStatusFetchHandler_eq (h : Reportable n fs ds) (r : StatusRequest) :
    n.udpStatusFetchHandler r.text.toList =
      .ok (replyPath n.name r.component.toList ++ [';'].intercalate (n.reportTokens fs) ++ ['\x00'],
        n.resetNodeBusyCounter) := by
  have hpath : "/Orchestrator/".toList ++ n.name ++ ('/' :: r.component.toList) ++ "/".toList =
      replyPath n.name r.component.toList := by
    simp [replyPath]
  simp only [ComputeNode.udpStatusFetchHandler, h.statusReport_eq, r.text_eq, hpath, bind,
    Except.bind]

theorem atRequest_status (huri : ∀ r : StatusRequest, UriExact r.text.toList) {i : Name}
    (hi : Asks i .nodeStatusFetch) : n.atRequest i = n := by
  refine if_neg ?_
  rw [hi.request]
  exact ofUri_ne huri

theorem atRequest_bootstrap {i : Name} (hi : Asks i .bootstrapInfo) :
    n.atRequest i = n.resetNodeBusyCounter := if_pos hi.request

/-- **Both transports agree**: whatever the table, the exchange over UDP and the exchange over NDN
end in the same way, with the same table and the same node. -/
theorem status_transports_agree (h : Reportable n fs ds) (hname : NameFit n.name)
    (huri : ∀ r : StatusRequest, UriExact r.text.toList) {i : Name} {r : StatusRequest}
    (hi : Asks i r) (t : Table) (behind : Str) : udpFetch t n r = ndnFetch t n i behind := by
  have hreset : (n.atRequest i).resetNodeBusyCounter = n.resetNodeBusyCounter := by
    cases r with
    | bootstrapInfo => rw [atRequest_bootstrap hi]; rfl
    | nodeStatusFetch => rw [atRequest_status huri hi]
  have hhandle : handleMessage t r.text.toList (cString ([';'].intercalate (n.reportTokens fs))) =
      handleMessage t r.text.toList
        (cString ([';'].intercalate ((n.atRequest i).reportTokens fs))) := by
    cases r with
    | bootstrapInfo =>
      show bootstrapPhaseHandler t _ = bootstrapPhaseHandler t _
      rw [atRequest_bootstrap hi, bootstrapPhaseHandler, bootstrapPhaseHandler, readBootstrap_reset]
    | nodeStatusFetch => rw [atRequest_status huri hi]
  simp only [udpFetch, ndnFetch, udpStatusFetchHandler_eq h, ndnStatusFetchHandler_eq h, bind,
    Except.bind, udpHandleRead_reply h hname, ndnOnData_reply huri hi, hreset, hhandle]

end Body

end Transport

/-! ## A null character in a node name -/

section Example

attribute [local instance] plainUri

/-- A node whose name has a null character in it. -/
def nullNode : ComputeNode := .fresh ['a', '\x00', 'b'] 1 1 []

theorem reportable_nullNode : Reportable nullNode [] [] where
  funcMap := rfl
  functions := nofun
  data := ⟨rfl, nofun, nofun⟩
  name := by decide
  links := by decide
  runtimes := by decide
  processorCore := by decide
  ram := by decide
  rom := by decide
  nodeBusyCounter := by decide

/-- Over UDP the packet ends in the node name, over NDN the report does: only the second one makes
an entry. -/
theorem status_transports_differ :
    ¬ ∀ (t : Table) (n : ComputeNode) (fs : List (Str × IncComputation)) (ds : List (Str × UInt32))
      (r : StatusRequest) (i : Name) (behind : Str), Reportable n fs ds →
        ¬ "BootstrapInfo".toList <+: n.name → ¬ "NodeStatusFetch".toList <+: n.name →
        (r = .nodeStatusFetch → (t.find? ('/' :: n.name)).isSome) → Asks i r →
          udpFetch t n r = ndnFetch t n i behind := by
  intro hall
  have hfetch := hall OrdMap.empty nullNode [] [] .bootstrapInfo
    ⟨["Orchestrator".toList, "a%00b".toList, "BootstrapInfo".toList]⟩ [] reportable_nullNode
    (by decide) (by decide) nofun ⟨rfl, rfl, rfl⟩
  have hudp : (udpFetch OrdMap.empty nullNode .bootstrapInfo).map
      (fun q => (q.1.find? "/a".toList).isSome) = .ok false := by decide +kernel
  have hndn : (ndnFetch OrdMap.empty nullNode
      ⟨["Orchestrator".toList, "a%00b".toList, "BootstrapInfo".toList]⟩ []).map
        (fun q => (q.1.find? "/a".toList).isSome) = .ok true := by decide +kernel
  rw [hfetch, hndn] at hudp
  cases hudp

theorem status_transports_agree_twoFunctions :
    udpFetch OrdMap.empty twoFunctions .bootstrapInfo = ndnFetch OrdMap.empty twoFunctions
      ⟨["Orchestrator".toList, "n".toList, "BootstrapInfo".toList]⟩ "rest".toList := by
  refine status_transports_agree reportable_twoFunctions ⟨by decide, by decide, by decide⟩ ?_
    ⟨rfl, rfl, rfl⟩ OrdMap.empty _
  intro r
  cases r with
  | bootstrapInfo => rfl
  | nodeStatusFetch => rfl

end Example

end IncSim
