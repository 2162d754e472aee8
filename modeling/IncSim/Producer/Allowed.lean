import IncSim.Producer.Decision
import IncSim.Producer.Pending
import IncSim.Producer.Started

/-!
# Disabled and excluded functions

The interest resolution engine refuses an interest when the function that it names first is disabled
or excluded; the app runs the function that it names last, and the queue does not ask again.

* `Allowed`: enabled and not excluded. `Passes`: what the engine and the app have found when they let
  an interest pass; **`Passes.allowed_iff`**: what is missing to `Allowed`.
* `interestStarts_passes`, `dataStarts_passes`: what is started right after it is resolved.
* `TakesHead`, **`executionEnd_allowed_iff`**: what is started from the queue.
* `Commanded`, `commandedStep`, `StartsAllowed`: app events and switch commands.
-/

namespace IncSim

open PartialRun

open ComputeNode (Same)

/-- The function behind the pointer is enabled and not excluded. -/
def ComputeNode.Allowed (n : ComputeNode) (p : Ptr) : Prop :=
  ∃ f, n.deref p = .ok f ∧ f.enableComputation = true ∧
    n.checkExcludeList f.computationName.toUri = false

/-- The interest runs the function that it names first. -/
def AsksForOne (t : InterestComponentStruct) : Prop :=
  ∀ name, extractFunctionName t.interest = some name → t.func = some name.toUri

/-- The interest runs a function that is `enabled`. -/
def RunsEnabled (enabled : Str → Prop) (t : InterestComponentStruct) : Prop :=
  ∃ k, t.func = some k ∧ enabled k

/-- The interest is let pass: the function that it names first is enabled, and the one that it runs
is not excluded. -/
structure Passes (n : ComputeNode) (t : InterestComponentStruct) : Prop where
  engine : ∃ name, extractFunctionName t.interest = some name ∧ n.Enabled name.toUri
  listed : ∃ f, n.deref t.func = .ok f ∧ n.checkExcludeList f.computationName.toUri = false

/-- **An interest that is let pass** is allowed when it runs the function that it names first, or
another one that is enabled. -/
theorem Passes.allowed_iff {n : ComputeNode} {t : InterestComponentStruct} (hp : Passes n t) :
    n.Allowed t.func ↔ AsksForOne t ∨ RunsEnabled n.Enabled t := by
  obtain ⟨f, hf, hex⟩ := hp.listed
  constructor
  · rintro ⟨g, hg, hen, -⟩
    cases hfunc : t.func with
    | none =>
      rw [hfunc] at hg
      cases hg
    | some k =>
      rw [hfunc, ComputeNode.deref_eq_ok] at hg
      exact Or.inr ⟨k, hfunc, g, hg, hen⟩
  · rintro (hone | ⟨k, hk, hen⟩)
    · obtain ⟨name, hname, hen⟩ := hp.engine
      rw [hone name hname] at hf ⊢
      exact ⟨f, hf, ComputeNode.enabled_of_deref hf hen, hex⟩
    · rw [hk] at hf ⊢
      exact ⟨f, hf, ComputeNode.enabled_of_deref hf hen, hex⟩

namespace Host

variable {h h' : Host} {t : InterestComponentStruct} {now : Time} {cs : ContentStore}

/-! ## The function that the app takes -/

theorem findFunction_none {n : ComputeNode} {p : Ptr} {l : List Str} (h : functionKeys l = []) :
    (findFunction n p l).2 = p := by
  induction l generalizing n p with
  | nil => rfl
  | cons c l ih =>
    rw [functionKeys] at h
    rw [findFunction]
    split_ifs at h ⊢
    exact ih h

/-- The app takes what the lookup of the last key gives. -/
theorem findFunction_last {n : ComputeNode} {p : Ptr} {l : List Str} {k : Str}
    (h : (functionKeys l).getLast? = some k) :
    ∃ m, Same IncComputation.enableComputation n m ∧ (findFunction n p l).2 = (m.getFunction k).2 := by
  induction l generalizing n p with
  | nil => cases h
  | cons c l ih =>
    rw [functionKeys] at h
    rw [findFunction]
    split_ifs at h ⊢
    · rcases hrest : functionKeys l with _ | ⟨k', ks⟩
      · rw [hrest] at h
        obtain rfl := Option.some.inj h
        exact ⟨n, Same.refl _ n, findFunction_none hrest⟩
      · rw [hrest, List.getLast?_cons_cons, ← hrest] at h
        obtain ⟨m, hm, heq⟩ := ih h
        exact ⟨m, (ComputeNode.same_getFunction _).trans hm, heq⟩
    · exact ih h

/-! ## What is started right after it is resolved -/

/-- The engine decides to execute when the first function is enabled and not excluded. -/
theorem getFetchDecisions_execute {interest : Name} {n n' : ComputeNode} {names : List Name}
    (hg : getFetchDecisions cs interest n = .ok (n', .execute, names)) :
    n' = n ∧ ∃ name, extractFunctionName interest = some name ∧ n.Enabled name.toUri := by
  obtain ⟨name, f, ha⟩ := asked_of_getFetchDecisions hg nofun
  rw [getFetchDecisions_of_asked ha] at hg
  dsimp only at hg
  split_ifs at hg with harity hmiss hexec
  · cases hg
  · cases hg
  · have hfound : n.funcMap.lookup name.toUri = some (some f) :=
      ComputeNode.deref_eq_ok.mp ha.found
    cases hg
    exact ⟨rfl, name, ha.extracted, f, hfound, (Bool.and_eq_true_iff.mp hexec).1⟩
  · cases hg

/-- An interest is executed or queued after it was let pass. -/
theorem resolve_execute {n n' : ComputeNode} {names : List Name}
    (hres : resolve cs t n = .ok (n', .execute, names)) : n' = n ∧ Passes n t := by
  simp only [resolve, bind_eq_ok, pure_eq_ok] at hres
  obtain ⟨⟨n₁, decision, names'⟩, hg, f, hf, hres⟩ := hres
  dsimp only at hf hres
  split at hres
  · cases hres
  · next hex =>
    cases hres
    obtain ⟨rfl, hengine⟩ := getFetchDecisions_execute hg
    exact ⟨rfl, hengine, f, hf, by simpa using hex⟩

theorem resolveStarts_passes {q : Start} (hq : q ∈ h.resolveStarts cs t) :
    q.1 = h.node ∧ Passes q.1 q.2 := by
  unfold resolveStarts at hq
  split at hq
  · next node names hres =>
    split at hq
    · obtain rfl := List.mem_singleton.mp hq
      obtain ⟨rfl, hp⟩ := resolve_execute hres
      exact ⟨rfl, hp⟩
    · exact absurd hq List.not_mem_nil
  · exact absurd hq List.not_mem_nil

/-- **What an interest arrival starts.** -/
theorem interestStarts_passes {interest : Name} {q : Start} (hq : q ∈ h.interestStarts cs interest) :
    Passes q.1 q.2 ∧ ∀ k, q.1.Enabled k ↔ h.node.Enabled k := by
  unfold interestStarts at hq
  split at hq
  · exact absurd hq List.not_mem_nil
  · split at hq
    · obtain ⟨hnode, hp⟩ := resolveStarts_passes hq
      have hsame : Same IncComputation.enableComputation h.node _ :=
        findFunction_admits kept_enableComputation.admits.toAdmits _ none interest.comps
      refine ⟨hp, fun k => ?_⟩
      rw [hnode]
      exact hsame.enabled k
    · exact absurd hq List.not_mem_nil

/-! ## What is started when data arrives -/

/-- The data `d` brings the function `k`. -/
def Brings (d : Name) (k : Str) : Prop :=
  Str.contains d.toUri "/Function".toList = true ∧ (d.getSubName 1 1).toUri = k

instance (d : Name) (k : Str) : Decidable (Brings d k) := inferInstanceAs (Decidable (_ ∧ _))

/-- What is enabled once `d` is used. -/
def EnabledWith (h : Host) (d : Name) (k : Str) : Prop := h.node.Enabled k ∨ Brings d k

variable {d : Name} {i : ℕ}

/-- Code drag enables the function that `d` brings, or drops the entry. -/
theorem codeDrag_enabledWith {goOn : Bool} (hc : h.codeDrag d t = .ok (h', goOn)) :
    (∀ k, h'.EnabledWith d k ↔ h.EnabledWith d k) ∧
      (goOn = true → ∀ k, h'.node.Enabled k ↔ h.EnabledWith d k) := by
  unfold codeDrag at hc
  split at hc
  · next hbrings =>
    obtain ⟨⟨node, enabled⟩, he, hc⟩ := bind_eq_ok.mp hc
    have hen : ∀ k, node.Enabled k ↔
        h.node.Enabled k ∨ (enabled = true ∧ k = (d.getSubName 1 1).toUri) :=
      fun k => ComputeNode.enabled_enableFunction he
    have hwith : ∀ k, (node.Enabled k ∨ Brings d k) ↔ h.EnabledWith d k := by
      intro k
      rw [hen, or_assoc]
      exact or_congr_right (or_iff_right_of_imp fun hk => ⟨hbrings, hk.2.symm⟩)
    dsimp only at hc
    split at hc
    · next henabled =>
      cases hc
      refine ⟨hwith, fun _ k => (hen k).trans (or_congr_right ?_)⟩
      exact ⟨fun hk => ⟨hbrings, hk.2.symm⟩, fun hb => ⟨henabled, hb.2.symm⟩⟩
    · cases hc
      exact ⟨hwith, nofun⟩
  · next hbrings =>
    cases hc
    refine ⟨fun _ => Iff.rfl, fun _ k => (or_iff_left ?_).symm⟩
    exact fun hb => hbrings hb.1

theorem setPending_enabled (hs : h.setPending now cs d i t = .ok h') (k : Str) :
    h'.node.Enabled k ↔ h.node.Enabled k := by
  obtain ⟨-, rfl⟩ | ⟨-, ⟨-, rfl⟩ | ⟨-, hr⟩⟩ := setPending_cases hs
  · exact Iff.rfl
  · exact Iff.rfl
  · have hsame : Same IncComputation.enableComputation (h.mark d i t).node h'.node :=
      resolveAndHandleDecisions_admits kept_enableComputation.admits hr
    exact hsame.enabled k

theorem visitEntry_enabledWith (hv : h.visitEntry now cs d i = .ok h') (k : Str) :
    h'.EnabledWith d k ↔ h.EnabledWith d k := by
  obtain ⟨t, -, ⟨-, rfl⟩ | ⟨-, ⟨g, hc, hs⟩ | hc⟩⟩ := visitEntry_cases hv
  · exact Iff.rfl
  · exact (or_congr_left (setPending_enabled hs k)).trans ((codeDrag_enabledWith hc).1 k)
  · exact (codeDrag_enabledWith hc).1 k

theorem entryStarts_passes {q : Start} (hq : q ∈ h.entryStarts cs d i) :
    Passes q.1 q.2 ∧ ∀ k, q.1.Enabled k ↔ h.EnabledWith d k := by
  unfold entryStarts at hq
  split at hq
  · exact absurd hq List.not_mem_nil
  · split at hq
    · split at hq
      · next g hc =>
        unfold pendingStarts at hq
        split at hq
        · dsimp only at hq
          split at hq
          · obtain ⟨hnode, hp⟩ := resolveStarts_passes hq
            refine ⟨hp, fun k => ?_⟩
            rw [hnode]
            exact (codeDrag_enabledWith hc).2 rfl k
          · exact absurd hq List.not_mem_nil
        · exact absurd hq List.not_mem_nil
      · exact absurd hq List.not_mem_nil
    · exact absurd hq List.not_mem_nil

theorem entriesStarts_passes {cs : ℕ → ContentStore} {q : Start}
    (hq : q ∈ entriesStarts now cs d i h) :
    Passes q.1 q.2 ∧ ∀ k, q.1.Enabled k ↔ h.EnabledWith d k := by
  induction i generalizing h with
  | zero => exact absurd hq List.not_mem_nil
  | succ i ih =>
    rw [entriesStarts] at hq
    rcases List.mem_append.mp hq with hq | hq
    · exact entryStarts_passes hq
    · split at hq
      · next g hg =>
        obtain ⟨hp, hen⟩ := ih hq
        exact ⟨hp, fun k => (hen k).trans (visitEntry_enabledWith hg k)⟩
      · exact absurd hq List.not_mem_nil

/-- **What a data arrival starts.** -/
theorem dataStarts_passes {cs : ℕ → ContentStore} {q : Start} (hq : q ∈ h.dataStarts now cs d) :
    Passes q.1 q.2 ∧ ∀ k, q.1.Enabled k ↔ h.EnabledWith d k := by
  unfold dataStarts at hq
  split at hq
  · exact absurd hq List.not_mem_nil
  · have hpasses := entriesStarts_passes (h := h.received d) hq
    exact hpasses

/-! ## What is started from the queue -/

/-- The end of execution `k` takes `t` from the head of the queue: what the execution gives back and
what is free are enough for it. -/
def TakesHead (h : Host) (k : ℕ) (t : InterestComponentStruct) : Prop :=
  ∃ e rest f g, h.app.inProgress[k]? = some e ∧ h.app.waitingList = t :: rest ∧
    h.node.isQueueEmpty = false ∧ h.node.deref e.func = .ok f ∧ h.node.deref t.func = .ok g ∧
      ¬ h.node.ram + f.ram < g.ram ∧ ¬ h.node.processorCore + f.cpu < g.cpu

theorem deref_congr {n n' : ComputeNode} (hmap : n'.funcMap = n.funcMap) (p : Ptr) :
    n'.deref p = n.deref p := by
  cases p with
  | none => rfl
  | some k => rw [ComputeNode.deref_some_eq, ComputeNode.deref_some_eq, hmap]

theorem allowed_congr {n n' : ComputeNode} (hmap : n'.funcMap = n.funcMap)
    (hex : n'.funcExcludeList = n.funcExcludeList) (p : Ptr) : n'.Allowed p ↔ n.Allowed p := by
  unfold ComputeNode.Allowed ComputeNode.checkExcludeList
  rw [deref_congr hmap, hex]

theorem mem_queueStarts {q : Start} : q ∈ h.queueStarts now ↔
    ∃ t rest, h.app.waitingList = t :: rest ∧ h.checkResource t.func = .ok true ∧
      q = ((h.node.decrementQueueFill now).1, t) := by
  unfold queueStarts
  rcases h.app.waitingList with _ | ⟨t, rest⟩
  · simp
  · dsimp only
    constructor
    · intro hq
      split at hq
      · exact ⟨t, rest, rfl, ‹_›, List.mem_singleton.mp hq⟩
      · exact absurd hq List.not_mem_nil
    · rintro ⟨t', rest', heq, hc, rfl⟩
      cases heq
      rw [hc]
      exact List.mem_singleton.mpr rfl

/-- What the release of resources and the reply leave as they are. -/
theorem mem_endStarts {q : Start} {e : Execution} : q ∈ h.endStarts now e ↔
    ∃ h₁ t rest, h.releaseResource e.func = .ok h₁ ∧ h.node.isQueueEmpty = false ∧
      h.app.waitingList = t :: rest ∧ h₁.checkResource t.func = .ok true ∧
      q = ((h₁.node.decrementQueueFill now).1, t) := by
  unfold endStarts
  rcases hr : h.releaseResource e.func with fault | h₁
  · simp
  · have hkeep : h₁.app = h.app ∧ h₁.node.isQueueEmpty = h.node.isQueueEmpty := by
      simp only [releaseResource, bind_eq_ok, pure_eq_ok] at hr
      obtain ⟨f, -, rfl⟩ := hr
      exact ⟨rfl, rfl⟩
    obtain ⟨happ, hempty⟩ := hkeep
    dsimp only
    constructor
    · intro hq
      split at hq
      · exact absurd hq List.not_mem_nil
      · next hne =>
        obtain ⟨t, rest, hw, hc, rfl⟩ := mem_queueStarts.mp hq
        refine ⟨h₁, t, rest, rfl, ?_, ?_, hc, rfl⟩
        · rw [← hempty]
          exact Bool.eq_false_iff.mpr hne
        · rw [← happ]
          exact hw
    · rintro ⟨h₂, t, rest, heq, hne, hw, hc, rfl⟩
      obtain rfl := Except.ok.inj heq
      have hne₁ : ¬ (h₁.send (.data e.data)).node.isQueueEmpty = true := by
        show ¬ h₁.node.isQueueEmpty = true
        rw [hempty, hne]
        exact Bool.false_ne_true
      rw [if_neg hne₁]
      refine mem_queueStarts.mpr ⟨t, rest, ?_, hc, rfl⟩
      rw [← hw, ← happ]
      rfl

theorem checkResource_eq_true {p : Ptr} : h.checkResource p = .ok true ↔
    ∃ g, h.node.deref p = .ok g ∧ ¬ h.node.ram < g.ram ∧ ¬ h.node.processorCore < g.cpu := by
  simp only [checkResource, bind_eq_ok, pure_eq_ok, Bool.not_eq_true', Bool.or_eq_false_iff,
    decide_eq_false_iff_not]

theorem mem_started_executionEnd {k : ℕ} {q : Start} (hq : q ∈ h.started (.executionEnd now k)) :
    h.TakesHead k q.2 ∧ (q.1.Allowed q.2.func ↔ h.node.Allowed q.2.func) := by
  unfold started at hq
  dsimp only at hq
  rcases hk : h.app.inProgress[k]? with _ | e
  · rw [hk] at hq
    cases hq
  rw [hk] at hq
  obtain ⟨h₁, t, rest, hr, hne, hw, hc, rfl⟩ := mem_endStarts.mp hq
  obtain ⟨f, hf, hr⟩ := bind_eq_ok.mp hr
  cases hr
  obtain ⟨g, hg, hram, hcpu⟩ := checkResource_eq_true.mp hc
  refine ⟨⟨e, rest, f, g, hk, hw, hne, hf, ?_, hram, hcpu⟩, ?_⟩
  · rw [← hg]
    exact (deref_congr rfl _).symm
  · exact allowed_congr (ComputeNode.decrementQueueFill_funcMap now).1
      (ComputeNode.decrementQueueFill_funcMap now).2 _

theorem TakesHead.started {k : ℕ} (ht : h.TakesHead k t) (now : Time) :
    ∃ n, (n, t) ∈ h.started (.executionEnd now k) := by
  obtain ⟨e, rest, f, g, hk, hw, hne, hf, hg, hram, hcpu⟩ := ht
  unfold Host.started
  dsimp only
  rw [hk]
  have hr : Host.releaseResource
      { h with app := { h.app with inProgress := h.app.inProgress.eraseIdx k } } e.func = .ok _ :=
    bind_eq_ok.mpr ⟨f, hf, rfl⟩
  refine ⟨_, mem_endStarts.mpr
    ⟨_, t, rest, hr, hne, hw, checkResource_eq_true.mpr ⟨g, ?_, hram, hcpu⟩, rfl⟩⟩
  rw [← hg]
  exact deref_congr rfl _

/-- **The end of an execution** starts the head of the queue when it is taken, and nothing else. -/
theorem executionEnd_allowed_iff {k : ℕ} :
    (∀ q ∈ h.started (.executionEnd now k), q.1.Allowed q.2.func) ↔
      ∀ t, h.TakesHead k t → h.node.Allowed t.func := by
  constructor
  · intro hall t ht
    obtain ⟨n, hn⟩ := ht.started now
    exact (mem_started_executionEnd hn).2.mp (hall _ hn)
  · intro hall q hq
    obtain ⟨ht, hiff⟩ := mem_started_executionEnd hq
    exact hiff.mpr (hall _ ht)
end Host

/-! ## Runs -/

/-- What happens to an app and to the node that it runs on. -/
inductive Commanded
  | app (e : Event)
  /-- a switch command as an NDN name -/
  | ndnSwitch (interest : Name)
  /-- a switch command as a UDP packet -/
  | udpSwitch (packet_data : Str)

namespace Host

variable {h h' : Host} {e : Commanded} {es : List Commanded}

/-- One event of the app, or one command that the orchestration app of the node handles. -/
def commandedStep (h : Host) : Commanded → Except Fault Host
  | .app e => h.step e
  | .ndnSwitch interest => do
    let node ← h.node.switchCommandStep interest
    pure { h with node := node }
  | .udpSwitch packet_data => do
    let (node, _) ← h.node.udpFunctionSwitchHandler packet_data
    pure { h with node := node }

/-- The calls of `DoExecution`; a switch command makes none. -/
def startedIn (h : Host) : Commanded → List Start
  | .app e => h.started e
  | _ => []

/-- Everything that the event starts is allowed. -/
def StartsAllowed (h : Host) (e : Commanded) : Prop :=
  ∀ q ∈ h.startedIn e, q.1.Allowed q.2.func

end Host

end IncSim
