import IncSim.Producer.Effects

/-!
# The enable status and the forwarding table

`EnableFunction` and `DisableFunction` put the producer face of the node into the FIB and take a face
out; `ForwardInterest` edits two entries of the FIB before it sends an interest, and restores one.

* `Wired`: the producer face of the node, and the strategy `nfn`.
* `mem_nextHops_enable`, `mem_nextHops_disable`, `forwardInterest_spec`: the next hops afterwards.
* `ServedAtZero`, `NotRouted`, `sameHops_iff`: when forwarding an interest leaves the FIB as it was.
  `FoundFirst`: when a disabled function loses the producer face of the node.
* **`agree_iff_fibSafe`**: when the status and the FIB agree throughout a run.
-/

namespace IncSim

open PartialRun

/-- The node has a producer face and the strategy `nfn`, and each prefix one FIB entry. -/
structure Wired (face : Face) (n : ComputeNode) : Prop where
  strategy : n.incStrategy.map Char.toLower = "nfn".toList
  nodeFace : n.producerAppFace = some face
  faceUri : face.remoteUri = nfnProducerAppFace
  distinct : n.fib.Distinct

/-- Two FIBs have the same next hops, prefix by prefix, as sets. -/
def SameHops (fib fib' : Fib) : Prop := ∀ p q, q ∈ fib'.nextHops p ↔ q ∈ fib.nextHops p

/-- The next hop of a function that `notifyFibFunctionDisable` finds: the first one that belongs to a
producer app. -/
def ComputeNode.producerHop (n : ComputeNode) (f : Str) : Option NextHop :=
  (n.fib.nextHops (functionPrefix f)).find? fun h => h.face.remoteUri = nfnProducerAppFace

theorem functionPrefix_injective : Function.Injective ComputeNode.functionPrefix :=
  fun _ _ h => List.append_cancel_left h

theorem functionPrefix_ne {f : Str} (h : f ≠ []) :
    ComputeNode.functionPrefix f ≠ Host.servedPrefix := by
  intro heq
  apply h
  have : "/lambda/Function".toList ++ f = "/lambda/Function".toList ++ [] :=
    heq.trans (List.append_nil _).symm
  exact List.append_cancel_left this

theorem toUri_ne_nil (n : Name) : n.toUri ≠ [] := by
  obtain ⟨_ | ⟨c, l⟩⟩ := n
  · decide
  · rw [Name.toUri_of_ne_nil (List.cons_ne_nil c l)]
    exact List.cons_ne_nil _ _

variable {face : Face} {n n' : ComputeNode} {h h' : Host} {f p : Str} {q : NextHop}

theorem Wired.onNfn (hw : Wired face n) : n.onNfn = true := by
  rw [ComputeNode.onNfn, hw.strategy, hw.nodeFace]
  rfl

/-- The FIB is edited, and each prefix keeps its one entry. -/
theorem Wired.withFib (hw : Wired face n) {fib : Fib} (hd : fib.Distinct) :
    Wired face { n with fib := fib } :=
  ⟨hw.strategy, hw.nodeFace, hw.faceUri, hd⟩

/-! ## The switches -/

theorem mem_nextHops_enable (hface : n.producerAppFace = some face) :
    q ∈ (n.notifyFibFunctionEnable f).fib.nextHops p ↔
      if p = ComputeNode.functionPrefix f then
        (q.face ≠ face ∧ q ∈ n.fib.nextHops p) ∨ q = ⟨face, 0⟩
      else q ∈ n.fib.nextHops p := by
  unfold ComputeNode.notifyFibFunctionEnable
  rw [hface]
  exact Fib.mem_nextHops_insert_add

theorem notifyFibFunctionDisable_eq (n : ComputeNode) (f : Str) :
    n.notifyFibFunctionDisable f = match n.producerHop f with
      | none => n
      | some r => { n with fib := n.fib.removeNextHop (ComputeNode.functionPrefix f) r.face } := by
  unfold ComputeNode.notifyFibFunctionDisable ComputeNode.producerHop Fib.nextHops
  rcases n.fib.findExactMatch (ComputeNode.functionPrefix f) with _ | hops <;> rfl

/-- Disabling takes out the face that it finds. -/
theorem mem_nextHops_disable (hd : n.fib.Distinct) :
    q ∈ (n.notifyFibFunctionDisable f).fib.nextHops p ↔ q ∈ n.fib.nextHops p ∧
      (p = ComputeNode.functionPrefix f → ∀ r, n.producerHop f = some r → q.face ≠ r.face) := by
  rw [notifyFibFunctionDisable_eq]
  rcases n.producerHop f with _ | r
  · exact (and_iff_left fun _ _ hr => absurd hr nofun).symm
  · refine (Fib.mem_nextHops_remove hd).trans (and_congr_right fun _ => forall_congr' fun _ => ?_)
    exact ⟨fun hne r' hr' => Option.some.inj hr' ▸ hne, fun hne => hne r rfl⟩

theorem wired_enable (hw : Wired face n) : Wired face (n.notifyFibFunctionEnable f) := by
  unfold ComputeNode.notifyFibFunctionEnable
  split
  · exact hw.withFib hw.distinct.insert
  · exact hw.withFib hw.distinct.insert.addOrUpdateNextHop

theorem wired_disable (hw : Wired face n) : Wired face (n.notifyFibFunctionDisable f) := by
  rw [notifyFibFunctionDisable_eq]
  split
  · exact hw
  · exact hw.withFib hw.distinct.removeNextHop

/-! ## Forwarding an interest -/

variable {t : InterestComponentStruct}

theorem nextHops_add_of_ne {fib : Fib} {p' : Str} {cost : ℕ} (hp : p' ≠ p) :
    (fib.addOrUpdateNextHop p face cost).nextHops p' = fib.nextHops p' := by
  unfold Fib.nextHops
  rw [Fib.findExactMatch_addOrUpdateNextHop]
  simp only [if_neg hp, Option.map_id']

/-- The first edit is about the served prefix. -/
theorem nextHops_raise (hp : p ≠ Host.servedPrefix) :
    h.raiseCost.node.fib.nextHops p = h.node.fib.nextHops p := by
  unfold Host.raiseCost
  split
  · rfl
  · split
    · exact nextHops_add_of_ne hp
    · rfl

/-- There it changes the cost of the face of the app, at most. -/
theorem mem_nextHops_raise (hq : q.face ≠ h.app.face) :
    q ∈ h.raiseCost.node.fib.nextHops p ↔ q ∈ h.node.fib.nextHops p := by
  unfold Host.raiseCost
  split
  · rfl
  · next hops hserved =>
    split
    · have hsome : (h.node.fib.findExactMatch Host.servedPrefix).isSome = true := by
        rw [hserved]
        rfl
      show q ∈ (h.node.fib.addOrUpdateNextHop Host.servedPrefix h.app.face 40).nextHops p ↔ _
      rw [Fib.mem_nextHops_add hsome]
      split_ifs with hp
      · constructor
        · rintro (⟨-, h⟩ | rfl)
          · exact h
          · exact absurd rfl hq
        · exact fun h => Or.inl ⟨hq, h⟩
      · rfl
    · rfl

theorem wired_raise (hw : Wired face h.node) : Wired face h.raiseCost.node := by
  unfold Host.raiseCost
  split
  · exact hw
  · split
    · exact hw.withFib hw.distinct.addOrUpdateNextHop
    · exact hw

/-- The last edit sets the cost of the face of the app at the served prefix to 0. -/
theorem mem_nextHops_restore : q ∈ h.restoreCost.node.fib.nextHops p ↔
    if p = Host.servedPrefix then (q.face ≠ h.app.face ∧ q ∈ h.node.fib.nextHops p) ∨ q = ⟨h.app.face, 0⟩
    else q ∈ h.node.fib.nextHops p :=
  Fib.mem_nextHops_insert_add

/-- **What forwarding an interest does to the FIB.** -/
theorem forwardInterest_spec (hw : Wired face h.node) (hf : h.forwardInterest t = .ok h') :
    ∃ f g, h.node.deref t.func = .ok f ∧
      h.node.funcMap.lookup f.computationName.toUri = some (some g) ∧
      h'.node.funcMap = h.node.funcMap ∧ Wired face h'.node ∧
      ∀ p q, q ∈ h'.node.fib.nextHops p ↔
        if p = Host.servedPrefix then
          (q.face ≠ h.app.face ∧ q ∈ h.node.fib.nextHops p) ∨ q = ⟨h.app.face, 0⟩
        else q ∈ h.node.fib.nextHops p ∧ (g.enableComputation = true →
          p = ComputeNode.functionPrefix f.computationName.toUri →
            ∀ r, h.node.producerHop f.computationName.toUri = some r → q.face ≠ r.face) := by
  have hw₁ := wired_raise hw
  have hmap := Host.forwardInterest_funcMap hf
  obtain ⟨f, g, hderef, hobject, rfl⟩ := Host.forwardInterest_eq hf
  refine ⟨f, g, hderef, hobject, hmap, ?_⟩
  have hne := functionPrefix_ne (toUri_ne_nil f.computationName)
  have hface : h.raiseCost.app.face = h.app.face := by
    obtain ⟨fib, hfib⟩ := Host.raiseCost_eq h
    rw [hfib]
  have hfound : h.raiseCost.node.producerHop f.computationName.toUri =
      h.node.producerHop f.computationName.toUri := by
    rw [ComputeNode.producerHop, nextHops_raise hne, ComputeNode.producerHop]
  generalize f.computationName.toUri = name at *
  -- the node between the two edits of the served prefix
  let mid : ComputeNode := if g.enableComputation then
    h.raiseCost.node.notifyFibFunctionDisable name else h.raiseCost.node
  have hmid : Wired face mid := by
    show Wired face (if g.enableComputation then _ else _)
    split_ifs
    · exact wired_disable hw₁
    · exact hw₁
  have hhops : ∀ p q, q ∈ mid.fib.nextHops p ↔ q ∈ h.raiseCost.node.fib.nextHops p ∧
      (g.enableComputation = true → p = ComputeNode.functionPrefix name →
        ∀ r, h.node.producerHop name = some r → q.face ≠ r.face) := by
    intro p q
    show q ∈ (if g.enableComputation then _ else _ : ComputeNode).fib.nextHops p ↔ _
    split_ifs with hen
    · rw [mem_nextHops_disable hw₁.distinct, hfound, forall_prop_of_true hen]
    · simp [hen]
  refine ⟨hmid.withFib hmid.distinct.insert.addOrUpdateNextHop, fun p q => ?_⟩
  refine mem_nextHops_restore.trans ?_
  show (if p = Host.servedPrefix then (q.face ≠ h.raiseCost.app.face ∧ q ∈ mid.fib.nextHops p) ∨
    q = ⟨h.raiseCost.app.face, 0⟩ else q ∈ mid.fib.nextHops p) ↔ _
  rw [hface]
  split_ifs with hp
  · refine or_congr_left (and_congr_right fun hq => ?_)
    rw [hhops, mem_nextHops_raise hq]
    exact and_iff_left fun _ heq => absurd (heq.symm.trans hp) hne
  · rw [hhops, nextHops_raise hp]

/-! ## When forwarding leaves the FIB as it was -/

/-- The face is a next hop of the prefix of `f`. -/
def FaceHop (face : Face) (n : ComputeNode) (f : Str) : Prop :=
  ∃ q ∈ n.fib.nextHops (ComputeNode.functionPrefix f), q.face = face

/-- The face is a next hop of the served prefix with cost 0, and with no other cost. -/
def ServedAtZero (face : Face) (n : ComputeNode) : Prop :=
  ⟨face, 0⟩ ∈ n.fib.nextHops Host.servedPrefix ∧
    ∀ q ∈ n.fib.nextHops Host.servedPrefix, q.face = face → q = ⟨face, 0⟩

instance : Decidable (ServedAtZero face n) := inferInstanceAs (Decidable (_ ∧ _))

/-- The function of the interest is not both enabled and reached over a producer app. -/
def NotRouted (n : ComputeNode) (t : InterestComponentStruct) : Prop :=
  ∀ f, n.deref t.func = .ok f →
    ¬ (n.Enabled f.computationName.toUri ∧ ∃ q ∈ n.fib.nextHops
      (ComputeNode.functionPrefix f.computationName.toUri), q.face.remoteUri = nfnProducerAppFace)

theorem producerHop_isSome : (∃ r, n.producerHop f = some r) ↔
    ∃ q ∈ n.fib.nextHops (ComputeNode.functionPrefix f), q.face.remoteUri = nfnProducerAppFace := by
  rw [← Option.isSome_iff_exists, ComputeNode.producerHop, List.find?_isSome]
  simp

/-- **Forwarding restores the FIB** exactly when the face of the app serves `/lambda/Function` at cost
0 and the function is not both enabled and reached over a producer app. -/
theorem sameHops_iff (hw : Wired face h.node) (hf : h.forwardInterest t = .ok h') :
    SameHops h.node.fib h'.node.fib ↔ ServedAtZero h.app.face h.node ∧ NotRouted h.node t := by
  obtain ⟨f, g, hderef, hobject, -, -, hhops⟩ := forwardInterest_spec hw hf
  have hen : h.node.Enabled f.computationName.toUri ↔ g.enableComputation = true := by
    constructor
    · rintro ⟨c, hc, hen⟩
      rw [hobject] at hc
      cases hc
      exact hen
    · exact fun hen => ⟨g, hobject, hen⟩
  constructor
  · intro hsame
    refine ⟨⟨?_, fun q hq hface => ?_⟩, fun f' hf' => ?_⟩
    · rw [← hsame, hhops, if_pos rfl]
      exact Or.inr rfl
    · rw [← hsame, hhops, if_pos rfl] at hq
      exact hq.resolve_left fun h => h.1 hface
    · rw [hderef] at hf'
      cases hf'
      rintro ⟨henabled, hroute⟩
      obtain ⟨r, hr⟩ := producerHop_isSome.mpr hroute
      have hmem := List.mem_of_find?_eq_some hr
      have hne := functionPrefix_ne (toUri_ne_nil f.computationName)
      rw [← hsame, hhops, if_neg hne] at hmem
      exact hmem.2 (hen.mp henabled) rfl r hr rfl
  · rintro ⟨⟨hzero, honly⟩, hrouted⟩ p q
    rw [hhops]
    split_ifs with hp
    · subst hp
      constructor
      · rintro (⟨-, hq⟩ | rfl)
        · exact hq
        · exact hzero
      · intro hq
        by_cases hface : q.face = h.app.face
        · exact Or.inr (honly q hq hface)
        · exact Or.inl ⟨hface, hq⟩
    · refine and_iff_left_of_imp fun _ henabled _ r hr => ?_
      exact absurd ⟨hen.mpr henabled, producerHop_isSome.mp ⟨r, hr⟩⟩ (hrouted f hderef)

/-! ## Runs -/

/-- A node, and the functions whose status was switched. -/
structure Station where
  node : ComputeNode
  switched : List Str

/-- What happens to the FIB of a node; any app on the node may forward. -/
inductive FibEvent
  | enableFunction (f : Str)
  | disableFunction (f : Str)
  | forwardInterest (app : NfnProducerApp) (t : InterestComponentStruct)

namespace Station

/-- One call; a switch of a function that is not known does nothing. -/
def step (s : Station) : FibEvent → Except Fault Station
  | .enableFunction f => do
    let (node, flag) ← s.node.enableFunction f
    pure ⟨node, if flag then f :: s.switched else s.switched⟩
  | .disableFunction f => do
    let (node, flag) ← s.node.disableFunction f
    pure ⟨node, if flag then f :: s.switched else s.switched⟩
  | .forwardInterest app t => do
    let h ← Host.forwardInterest ⟨s.node, app⟩ t
    pure ⟨h.node, s.switched⟩

/-- Every switched function is enabled exactly when the face is a next hop of its prefix. -/
def Agree (face : Face) (s : Station) : Prop :=
  ∀ f ∈ s.switched, s.node.Enabled f ↔ FaceHop face s.node f

/-- A call to `ForwardInterest` leaves the next hops of every prefix as they were. -/
def ForwardsKeep (s : Station) (es : List FibEvent) : Prop :=
  ∀ es₁ app t s₁ s₂, es₁ ++ [.forwardInterest app t] <+: es → run step s es₁ = .ok s₁ →
    s₁.step (.forwardInterest app t) = .ok s₂ → SameHops s₁.node.fib s₂.node.fib

/-- What a call needs. When a function that the node has is disabled and the producer face of the node
is a next hop of its prefix, that face is the first one there that belongs to a producer app. -/
def FibSafe (face : Face) (s : Station) : FibEvent → Prop
  | .enableFunction _ => True
  | .disableFunction f => (∃ c, s.node.funcMap.lookup f = some (some c)) → FaceHop face s.node f →
      ∃ r, s.node.producerHop f = some r ∧ r.face = face
  | .forwardInterest app t => ServedAtZero app.face s.node ∧ NotRouted s.node t

variable {s s' : Station} {e : FibEvent} {es : List FibEvent}

theorem agree_cons {l : List Str} (ha : ∀ f ∈ l, n.Enabled f ↔ FaceHop face n f)
    (hrest : ∀ f', f' ≠ f → (n'.Enabled f' ↔ n.Enabled f') ∧ (FaceHop face n' f' ↔ FaceHop face n f')) :
    Agree face ⟨n', f :: l⟩ ↔ (n'.Enabled f ↔ FaceHop face n' f) := by
  refine ⟨fun hall => hall f List.mem_cons_self, fun hself f' hf' => ?_⟩
  by_cases heq : f' = f
  · exact heq ▸ hself
  · obtain ⟨hen, hhop⟩ := hrest f' heq
    show n'.Enabled f' ↔ FaceHop face n' f'
    rw [hen, hhop]
    exact ha f' ((List.mem_cons.mp hf').resolve_left heq)

theorem enabled_notifyFibFunctionEnable {k : Str} :
    (n.notifyFibFunctionEnable k).Enabled f ↔ n.Enabled f := by
  obtain ⟨fib, hfib⟩ := ComputeNode.notifyFibFunctionEnable_eq (n := n) k
  rw [hfib]
  rfl

theorem enabled_notifyFibFunctionDisable {k : Str} :
    (n.notifyFibFunctionDisable k).Enabled f ↔ n.Enabled f := by
  obtain ⟨fib, hfib⟩ := ComputeNode.notifyFibFunctionDisable_eq (n := n) k
  rw [hfib]
  rfl

theorem functionPrefix_ne_of_ne {f' : Str} (hf : f' ≠ f) :
    ComputeNode.functionPrefix f' ≠ ComputeNode.functionPrefix f :=
  fun h => hf (functionPrefix_injective h)

theorem wired_update (hw : Wired face n) (k : Str) (g : IncComputation → IncComputation) :
    Wired face (n.update k g) :=
  ⟨hw.strategy, hw.nodeFace, hw.faceUri, hw.distinct⟩

/-- After an `EnableFunction` the function and its prefix agree. -/
theorem step_enable (hw : Wired face s.node) (hs : s.step (.enableFunction f) = .ok s') :
    Wired face s'.node ∧ (Agree face s → Agree face s') := by
  simp only [step, bind_eq_ok, pure_eq_ok, ComputeNode.enableFunction] at hs
  obtain ⟨⟨node, flag⟩, hs, rfl⟩ := hs
  rcases hl : s.node.funcMap.lookup f with _ | _ | c <;> rw [hl] at hs <;> cases hs
  · exact ⟨hw, id⟩
  have hw₁ := wired_update hw f IncComputation.enable
  simp only [hw.onNfn, if_true, IncComputation.enable]
  refine ⟨wired_enable hw₁, fun ha => (agree_cons ha fun f' hf' => ⟨?_, ?_⟩).mpr ?_⟩
  · rw [enabled_notifyFibFunctionEnable, ComputeNode.enabled_update]
    simp only [if_neg hf']
    rfl
  · refine exists_congr fun q => and_congr_left fun _ => ?_
    rw [mem_nextHops_enable hw₁.nodeFace, if_neg (functionPrefix_ne_of_ne hf')]
    rfl
  · refine iff_of_true ?_ ⟨⟨face, 0⟩, ?_, rfl⟩
    · rw [enabled_notifyFibFunctionEnable, ComputeNode.enabled_update]
      exact ⟨c, hl, by rw [if_pos rfl]; rfl⟩
    · rw [mem_nextHops_enable hw₁.nodeFace, if_pos rfl]
      exact Or.inr rfl

/-- The producer face is gone from the prefix exactly when it was not there or is the one found. -/
theorem faceHop_disable (hw : Wired face n) :
    ¬ FaceHop face (n.notifyFibFunctionDisable f) f ↔
      (FaceHop face n f → ∃ r, n.producerHop f = some r ∧ r.face = face) := by
  have hhops := fun q => mem_nextHops_disable (f := f) (p := ComputeNode.functionPrefix f) (q := q)
    hw.distinct
  constructor
  · rintro hgone ⟨q, hq, hface⟩
    obtain ⟨r, hr⟩ := producerHop_isSome.mpr ⟨q, hq, hface ▸ hw.faceUri⟩
    refine ⟨r, hr, by_contra fun hne => hgone ⟨q, (hhops q).mpr ⟨hq, fun _ r' hr' => ?_⟩, hface⟩⟩
    cases hr.symm.trans hr'
    exact hface ▸ Ne.symm hne
  · rintro hfound ⟨q, hq, hface⟩
    obtain ⟨hq, hne⟩ := (hhops q).mp hq
    obtain ⟨r, hr, hrface⟩ := hfound ⟨q, hq, hface⟩
    exact hne rfl r hr (hface.trans hrface.symm)

/-- After a `DisableFunction` they agree exactly when the call is safe. -/
theorem step_disable (hw : Wired face s.node) (hs : s.step (.disableFunction f) = .ok s') :
    Wired face s'.node ∧ (Agree face s → (Agree face s' ↔ FibSafe face s (.disableFunction f))) := by
  simp only [step, bind_eq_ok, pure_eq_ok, ComputeNode.disableFunction] at hs
  obtain ⟨⟨node, flag⟩, hs, rfl⟩ := hs
  rcases hl : s.node.funcMap.lookup f with _ | _ | c <;> rw [hl] at hs <;> cases hs
  · refine ⟨hw, fun ha => iff_of_true ha ?_⟩
    rintro ⟨c, hc⟩
    cases hl.symm.trans hc
  have hw₁ := wired_update hw f IncComputation.disable
  simp only [hw.onNfn, if_true, IncComputation.disable, Bool.not_false]
  refine ⟨wired_disable hw₁, fun ha => (agree_cons ha fun f' hf' => ⟨?_, ?_⟩).trans ?_⟩
  · rw [enabled_notifyFibFunctionDisable, ComputeNode.enabled_update]
    simp only [if_neg hf']
    rfl
  · refine exists_congr fun q => and_congr_left fun _ => (mem_nextHops_disable hw₁.distinct).trans ?_
    exact and_iff_left fun heq => absurd heq (functionPrefix_ne_of_ne hf')
  · have hoff : ¬ ((s.node.update f IncComputation.disable).notifyFibFunctionDisable f).Enabled f := by
      rw [enabled_notifyFibFunctionDisable, ComputeNode.enabled_update]
      rintro ⟨c', -, hen⟩
      rw [if_pos rfl] at hen
      cases hen
    refine (iff_false_left hoff).trans ((faceHop_disable hw₁).trans ?_)
    have hknown : ∃ c, s.node.funcMap.lookup f = some (some c) := ⟨c, hl⟩
    exact ⟨fun hfound _ => hfound, fun hsafe => hsafe hknown⟩

/-- After a `ForwardInterest` that keeps the FIB they agree as before. -/
theorem step_forward {app : NfnProducerApp} (hw : Wired face s.node)
    (hs : s.step (.forwardInterest app t) = .ok s') :
    Wired face s'.node ∧
      (SameHops s.node.fib s'.node.fib ↔ FibSafe face s (.forwardInterest app t)) ∧
      (SameHops s.node.fib s'.node.fib → Agree face s → Agree face s') := by
  simp only [step, bind_eq_ok, pure_eq_ok] at hs
  obtain ⟨h', hf, rfl⟩ := hs
  have hsafe := sameHops_iff (h := ⟨s.node, app⟩) hw hf
  obtain ⟨f, g, -, -, hmap, hw', -⟩ := forwardInterest_spec hw hf
  refine ⟨hw', hsafe, fun hsame ha f' hf' => ?_⟩
  have hen : h'.node.Enabled f' ↔ s.node.Enabled f' := by
    unfold ComputeNode.Enabled
    rw [hmap]
  have hhop : FaceHop face h'.node f' ↔ FaceHop face s.node f' :=
    exists_congr fun q => and_congr_left fun _ => hsame _ q
  show h'.node.Enabled f' ↔ FaceHop face h'.node f'
  rw [hen, hhop]
  exact ha f' hf'

theorem step_wired (hw : Wired face s.node) (hs : s.step e = .ok s') : Wired face s'.node := by
  cases e with
  | enableFunction f => exact (step_enable hw hs).1
  | disableFunction f => exact (step_disable hw hs).1
  | forwardInterest app t => exact (step_forward hw hs).1

theorem step_agree (hw : Wired face s.node) (ha : Agree face s) (hsafe : FibSafe face s e)
    (hs : s.step e = .ok s') : Agree face s' := by
  cases e with
  | enableFunction f => exact (step_enable hw hs).2 ha
  | disableFunction f => exact ((step_disable hw hs).2 ha).mpr hsafe
  | forwardInterest app t =>
    obtain ⟨-, hkeeps, hagree⟩ := step_forward hw hs
    exact hagree (hkeeps.mpr hsafe) ha

/-- **The status and the FIB over a run.** They agree on every switched function in every state, and
every forwarded interest leaves the FIB as it was, exactly when every call is safe. -/
theorem agree_iff_fibSafe (hw : Wired face n) (hrun : run step ⟨n, []⟩ es = .ok s') :
    (Always step (Agree face) ⟨n, []⟩ es ∧ ForwardsKeep ⟨n, []⟩ es) ↔
      StepsMeet step (FibSafe face) ⟨n, []⟩ es := by
  have hwired : ∀ {es₁ : List FibEvent} {s₁ : Station}, run step ⟨n, []⟩ es₁ = .ok s₁ →
      Wired face s₁.node := fun h₁ =>
    run_invariant (P := fun s : Station => Wired face s.node)
      (fun _ _ _ hw hs => step_wired hw hs) hw h₁
  constructor
  · rintro ⟨hagree, hkeep⟩ es₁ e s₁ hp h₁
    obtain ⟨s₂, h₂⟩ := exists_run_of_prefix hp hrun
    obtain ⟨s₃, h₃, hs⟩ := run_concat.mp h₂
    cases h₁.symm.trans h₃
    cases e with
    | enableFunction f => trivial
    | disableFunction f =>
      have ha₁ := hagree es₁ s₁ ((List.prefix_append _ _).trans hp) h₁
      exact ((step_disable (hwired h₁) hs).2 ha₁).mp (hagree _ s₂ hp h₂)
    | forwardInterest app t =>
      exact (step_forward (hwired h₁) hs).2.1.mp (hkeep es₁ app t s₁ s₂ hp h₁ hs)
  · intro hsafe
    constructor
    · have hinv := always_of_stepsMeet (P := fun s : Station => Wired face s.node ∧ Agree face s)
        (fun s e s' hP hC hs => ⟨step_wired hP.1 hs, step_agree hP.1 hP.2 hC hs⟩)
        ⟨hw, fun f hf => absurd hf List.not_mem_nil⟩ hsafe
      exact fun es₁ s₁ hp h₁ => (hinv es₁ s₁ hp h₁).2
    · intro es₁ app t s₁ s₂ hp h₁ hs
      exact (step_forward (hwired h₁) hs).2.1.mpr (hsafe es₁ _ s₁ hp h₁)

end Station

/-! ## Two runs -/

/-- The face of the producer app. -/
def ownFace : Face := ⟨1, nfnProducerAppFace⟩

/-- A node that knows the disabled function `f`; its app serves `/lambda/Function`. -/
def servingNode : ComputeNode :=
  { ComputeNode.fresh "n".toList 10 4 [.disable (.fresh "f".toList 1 1 0)] with
    producerAppFace := some ownFace
    fib := [(Host.servedPrefix, [⟨ownFace, 0⟩])] }

theorem wired_servingNode : Wired ownFace servingNode where
  strategy := by decide
  nodeFace := rfl
  faceUri := rfl
  distinct := by decide

/-- A compute interest for `f`. -/
def interestForF : InterestComponentStruct :=
  ⟨⟨[lambdaComp, functionComp, "f".toList]⟩, some "/f".toList, []⟩

/-- Forwarding an interest for the enabled function takes its face out of the FIB for good. -/
theorem status_and_fib_differ :
    ¬ ∀ (face : Face) (n : ComputeNode) (es : List FibEvent) (s' : Station), Wired face n →
      run Station.step ⟨n, []⟩ es = .ok s' → s'.Agree face := by
  intro hall
  have hagree := hall ownFace servingNode
    [.enableFunction "/f".toList, .forwardInterest (.start ownFace) interestForF] _ wired_servingNode rfl
  have hself := hagree "/f".toList List.mem_cons_self
  obtain ⟨q, hq, -⟩ := hself.mp ⟨_, rfl, rfl⟩
  revert hq
  have hnone : ∀ l : List NextHop, l = [] → q ∉ l := by
    rintro _ rfl
    exact List.not_mem_nil
  apply hnone
  decide

/-- Forwarding an interest for the disabled function does not. -/
theorem agree_iff_fibSafe_servingNode :
    Always Station.step (Station.Agree ownFace) ⟨servingNode, []⟩
      [.forwardInterest (.start ownFace) interestForF] := by
  have hrun : run Station.step ⟨servingNode, []⟩
    [.forwardInterest (.start ownFace) interestForF] = .ok _ := rfl
  refine ((Station.agree_iff_fibSafe wired_servingNode hrun).mpr ?_).1
  intro es₁ e s₁ hp h₁
  have hone : es₁ ++ [e] <+: [] ++ [.forwardInterest (.start ownFace) interestForF] := hp
  obtain ⟨rfl, rfl⟩ | hp := concat_isPrefix_concat.mp hone
  · cases h₁
    refine ⟨by decide, fun f hf => ?_⟩
    cases hf
    rintro ⟨⟨c, hc, hen⟩, -⟩
    cases hc
    cases hen
  · exact absurd (List.prefix_nil.mp hp) (by simp)

end IncSim
