import IncSim.Lib.Tally
import IncSim.Node.Switch

/-!
# The exclude list over a sequence of switch commands

The exclude list counts how often each function is on it. Over NDN, a `Disable` counts up for each
time it names the function and an `Enable` counts down, if there is something to count down.

* `Name.switchOperation`, `Name.switchFuncs`, `mention`, `mentions`: what commands say about one key.
* `switchCommands`, `count_switchCommands`: the exclude list is a tally of the mentions.
* **`excluded_iff_lastDisable_iff`**: when membership follows the last command.
-/

namespace IncSim

open PartialRun Tally

/-- The operation of a switch command. -/
def Name.switchOperation (interest : Name) : Str := (interest.getSubName 3 1).toUri

/-- The functions that a switch command names. -/
def Name.switchFuncs (interest : Name) : List Str := (interest.comps.drop 4).map funcKey

/-- What naming `k` under an operation says about `f`: `true` for a `Disable`, `false` for an
`Enable`. -/
def mention (operation f k : Str) : List Bool :=
  if k = f then
    if operation = '/' :: SwitchOp.enable.text then [false]
    else if operation = '/' :: SwitchOp.disable.text then [true]
    else []
  else []

/-- What a sequence of commands says about `f`. -/
def mentions (f : Str) (commands : List Name) : List Bool :=
  commands.flatMap fun i => i.switchFuncs.flatMap (mention i.switchOperation f)

/-- The last command that names `f` is a `Disable`. -/
def LastIsDisable (f : Str) (commands : List Name) : Prop :=
  (commands.filter fun i => f ∈ i.switchFuncs).getLast?.map Name.switchOperation =
    some ('/' :: SwitchOp.disable.text)

instance (f : Str) (commands : List Name) : Decidable (LastIsDisable f commands) :=
  inferInstanceAs (Decidable (_ = _))

namespace ComputeNode

variable {n m : ComputeNode} {f : Str}

/-- The handler on one command, the reply left out. -/
def switchCommandStep (n : ComputeNode) (interest : Name) : Except Fault ComputeNode :=
  (n.ndnFunctionSwitchHandler interest).map Prod.fst

theorem count_ndnSwitchRound {operation k : Str} {q q' : ComputeNode × Option Bool}
    (h : ndnSwitchRound operation q k = .ok q') :
    q'.1.funcExcludeList.count f =
      tally (q.1.funcExcludeList.count f) (mention operation f k) := by
  have hne : '/' :: SwitchOp.disable.text ≠ '/' :: SwitchOp.enable.text := by decide
  rcases ndnSwitchRound_cases h with ⟨rfl, b, hs⟩ | ⟨rfl, b, hs⟩ | ⟨hen, hdis, rfl⟩
  · rw [(switchOn_spec hs).2, List.count_erase, mention, if_pos rfl]
    by_cases hk : k = f
    · simp [hk, tally]
    · simp [hk, tally]
  · rw [(switchOff_spec hs).2, List.count_append, mention, if_neg hne, if_pos rfl]
    by_cases hk : k = f
    · simp [hk, tally]
    · simp [hk, tally]
  · rw [mention, if_neg hen, if_neg hdis, ite_self]
    rfl

/-- The rounds of a handler over the functions of a command, replies left out. -/
inductive Rounds (operation : Str) : ComputeNode → List Str → ComputeNode → Prop
  | nil {n : ComputeNode} : Rounds operation n [] n
  | cons {q q' : ComputeNode × Option Bool} {k : Str} {ks : List Str} {m : ComputeNode}
      (h : ndnSwitchRound operation q k = .ok q') (hr : Rounds operation q'.1 ks m) :
      Rounds operation q.1 (k :: ks) m

theorem Rounds.count {operation : Str} {ks : List Str} (h : Rounds operation n ks m) :
    m.funcExcludeList.count f =
      tally (n.funcExcludeList.count f) (ks.flatMap (mention operation f)) := by
  induction h with
  | nil => rfl
  | cons h₁ _ ih => rw [ih, count_ndnSwitchRound h₁, List.flatMap_cons, tally_append]

/-- After one round a function that the node has is as it was, or as the operation leaves it. -/
theorem enabled_ndnSwitchRound {operation k : Str} {q q' : ComputeNode × Option Bool}
    (h : ndnSwitchRound operation q k = .ok q') :
    q'.1.Enabled f ↔ (∃ c, q.1.funcMap.lookup f = some (some c)) ∧
      LastDown (q.1.Enabled f) (mention operation f k) := by
  have hne : '/' :: SwitchOp.disable.text ≠ '/' :: SwitchOp.enable.text := by decide
  -- the object under `f` after the round
  have hround : ∀ {g : IncComputation → IncComputation} {on : Prop},
      (∀ c, (g c).enableComputation = true ↔ on) → q'.1.funcMap = mapAt k g q.1.funcMap →
        (q'.1.Enabled f ↔ (∃ c, q.1.funcMap.lookup f = some (some c)) ∧
          if k = f then on else q.1.Enabled f) := by
    intro g on hon hmap
    unfold Enabled
    rw [hmap, lookup_mapAt]
    rcases q.1.funcMap.lookup f with _ | _ | c
    · simp
    · simp
    · by_cases hk : k = f
      · simp [hk, hon]
      · simp [hk, Ne.symm hk]
  rcases ndnSwitchRound_cases h with ⟨rfl, b, hs⟩ | ⟨rfl, b, hs⟩ | ⟨hen, hdis, rfl⟩
  · rw [hround (fun c => iff_of_true rfl trivial) (switchOn_spec hs).1, mention, if_pos rfl]
    by_cases hk : k = f
    · simp [hk, LastDown]
    · simp [hk]
  · rw [hround (fun c => iff_of_false Bool.false_ne_true id) (switchOff_spec hs).1, mention,
      if_neg hne, if_pos rfl]
    by_cases hk : k = f
    · simp [hk, LastDown]
    · simp [hk]
  · rw [mention, if_neg hen, if_neg hdis, ite_self, lastDown_nil]
    exact ⟨fun hf => ⟨hf.imp fun c hc => hc.1, hf⟩, And.right⟩

/-- A round neither adds nor takes a function. -/
theorem lookup_ndnSwitchRound {operation k : Str} {q q' : ComputeNode × Option Bool}
    (h : ndnSwitchRound operation q k = .ok q') :
    (∃ c, q'.1.funcMap.lookup f = some (some c)) ↔ ∃ c, q.1.funcMap.lookup f = some (some c) := by
  have hmapAt : ∀ {g : IncComputation → IncComputation}, q'.1.funcMap = mapAt k g q.1.funcMap →
      ((∃ c, q'.1.funcMap.lookup f = some (some c)) ↔ ∃ c, q.1.funcMap.lookup f = some (some c)) := by
    intro g hmap
    rw [hmap, lookup_mapAt]
    rcases q.1.funcMap.lookup f with _ | _ | c
    · simp
    · simp
    · by_cases hk : f = k <;> simp [hk]
  rcases ndnSwitchRound_cases h with ⟨-, b, hs⟩ | ⟨-, b, hs⟩ | ⟨-, -, rfl⟩
  · exact hmapAt (switchOn_spec hs).1
  · exact hmapAt (switchOff_spec hs).1
  · rfl

/-- **After a command** a function is enabled when the last mention of it is an `Enable`, or when it
is not mentioned and was enabled. -/
theorem Rounds.enabled {operation : Str} {ks : List Str} (h : Rounds operation n ks m) :
    m.Enabled f ↔ (∃ c, n.funcMap.lookup f = some (some c)) ∧
      LastDown (n.Enabled f) (ks.flatMap (mention operation f)) := by
  induction h with
  | nil =>
    rw [List.flatMap_nil, lastDown_nil]
    exact ⟨fun hf => ⟨hf.imp fun c hc => hc.1, hf⟩, And.right⟩
  | cons h₁ _ ih =>
    rw [ih, lookup_ndnSwitchRound h₁, List.flatMap_cons, lastDown_append]
    refine and_congr_right fun hknown => ?_
    rw [enabled_ndnSwitchRound h₁, and_iff_right hknown]

theorem rounds_foldlM {operation : Str} {ks : List Str} {q q' : ComputeNode × Option Bool}
    (h : ks.foldlM (ndnSwitchRound operation) q = .ok q') : Rounds operation q.1 ks q'.1 := by
  induction ks generalizing q with
  | nil =>
    cases h
    exact .nil
  | cons k ks ih =>
    rw [List.foldlM_cons] at h
    obtain ⟨q₁, h₁, h⟩ := bind_eq_ok.mp h
    exact .cons h₁ (ih h)

theorem rounds_switchCommandStep {i : Name} (h : n.switchCommandStep i = .ok m) :
    Rounds i.switchOperation n i.switchFuncs m := by
  rw [switchCommandStep, ndnFunctionSwitchHandler_fst, map_eq_ok] at h
  obtain ⟨q, hq, rfl⟩ := h
  exact rounds_foldlM hq

/-- The loop of the UDP handler is that of the NDN handler, without the last token. -/
theorem rounds_udpSwitchLoop {operation : Str} {tokens : List Str} {q q' : ComputeNode × Bool}
    (h : udpSwitchLoop operation q tokens = .ok q') :
    Rounds ('/' :: operation) q.1 (tokens.dropLast.map funcKey) q'.1 := by
  induction tokens generalizing q with
  | nil => cases h
  | cons token tokens ih =>
    cases tokens with
    | nil =>
      cases h
      exact .nil
    | cons token' tokens =>
      unfold udpSwitchLoop at h
      have hround : ∀ (op : SwitchOp) {q₁ : ComputeNode × Bool}, operation = op.text →
          switch op q.1 (funcKey token) = .ok q₁ →
            ndnSwitchRound ('/' :: operation) (q.1, none) (funcKey token) =
              .ok (q₁.1, some q₁.2) := by
        rintro op q₁ rfl hs
        rw [ndnSwitchRound_eq, hs]
        rfl
      split_ifs at h with hen hdis
      · obtain ⟨q₁, hq, h⟩ := bind_eq_ok.mp h
        exact .cons (hround .enable hen hq) (ih h)
      · obtain ⟨q₁, hq, h⟩ := bind_eq_ok.mp h
        exact .cons (hround .disable hdis hq) (ih h)
      · have hskip : ndnSwitchRound ('/' :: operation) (q.1, none) (funcKey token) =
            .ok (q.1, none) := by
          have hen' : '/' :: operation ≠ "/Enable".toList := fun heq => hen (List.cons.inj heq).2
          have hdis' : '/' :: operation ≠ "/Disable".toList := fun heq => hdis (List.cons.inj heq).2
          simp only [ndnSwitchRound, if_neg hen', if_neg hdis', pure_bind]
          rfl
        exact .cons hskip (ih h)

theorem rounds_udpFunctionSwitchHandler {packet_data reply : Str}
    (h : n.udpFunctionSwitchHandler packet_data = .ok (m, reply)) :
    Rounds ('/' :: (packet_data.splitOn '/').getD 4 []) n
      (((packet_data.splitOn '/').drop 5).dropLast.map funcKey) m := by
  obtain ⟨⟨m, flag⟩, hloop, h⟩ := bind_eq_ok.mp h
  cases h
  exact rounds_udpSwitchLoop hloop

theorem count_switchCommandStep {i : Name} (h : n.switchCommandStep i = .ok m) :
    m.funcExcludeList.count f = tally (n.funcExcludeList.count f) (mentions f [i]) := by
  have hmen : mentions f [i] = i.switchFuncs.flatMap (mention i.switchOperation f) := by
    simp [mentions]
  rw [hmen]
  exact (rounds_switchCommandStep h).count

/-- **The exclude list is a tally** of what the commands say. -/
theorem count_run {commands : List Name} (h : run switchCommandStep n commands = .ok m) :
    m.funcExcludeList.count f = tally (n.funcExcludeList.count f) (mentions f commands) := by
  induction commands generalizing n with
  | nil =>
    cases h
    rfl
  | cons i commands ih =>
    obtain ⟨n₁, h₁, h⟩ := run_cons.mp h
    have hmen : mentions f (i :: commands) = mentions f [i] ++ mentions f commands := by
      simp [mentions]
    rw [ih h, count_switchCommandStep h₁, hmen, tally_append]

end ComputeNode

/-! ## The last command -/

variable {f : Str} {commands : List Name}

theorem mentions_concat (i : Name) : mentions f (commands ++ [i]) =
    mentions f commands ++ i.switchFuncs.flatMap (mention i.switchOperation f) := by
  simp [mentions]

theorem flatMap_mention_of_not_mem {operation : Str} {ks : List Str} (h : f ∉ ks) :
    ks.flatMap (mention operation f) = [] := by
  rw [List.flatMap_eq_nil_iff]
  intro k hk
  rw [mention, if_neg]
  rintro rfl
  exact h hk

theorem flatMap_mention_disable (ks : List Str) :
    ks.flatMap (mention ('/' :: SwitchOp.disable.text) f) =
      List.replicate (ks.count f) true := by
  have hne : '/' :: SwitchOp.disable.text ≠ '/' :: SwitchOp.enable.text := by decide
  induction ks with
  | nil => rfl
  | cons k ks ih =>
    rw [List.flatMap_cons, ih, List.count_cons, mention, if_neg hne, if_pos rfl]
    by_cases hk : k = f
    · simp [hk, List.replicate_succ]
    · simp [hk]

/-- After a last `Disable` the last mention is a step up. -/
theorem LastIsDisable.mentions (h : LastIsDisable f commands) :
    ∃ l, mentions f commands = l ++ [true] := by
  induction commands using List.reverseRecOn with
  | nil => cases h
  | append_singleton commands i ih =>
    rw [mentions_concat]
    by_cases hf : f ∈ i.switchFuncs
    · have hop : i.switchOperation = '/' :: SwitchOp.disable.text := by
        simpa [LastIsDisable, List.filter_append, hf] using h
      obtain ⟨c, hc⟩ : ∃ c, i.switchFuncs.count f = c + 1 :=
        ⟨_, (Nat.succ_pred_eq_of_pos (List.count_pos_iff.mpr hf)).symm⟩
      refine ⟨IncSim.mentions f commands ++ List.replicate c true, ?_⟩
      rw [hop, flatMap_mention_disable, hc, List.replicate_succ', List.append_assoc]
    · have hlast : LastIsDisable f commands := by
        simpa [LastIsDisable, List.filter_append, hf] using h
      obtain ⟨l, hl⟩ := ih hlast
      exact ⟨l, by rw [flatMap_mention_of_not_mem hf, List.append_nil, hl]⟩

open ComputeNode

/-- **The exclude list and the last command.** Over NDN, from an empty exclude list, a function is
excluded exactly when the last command that names it is a `Disable` — under the condition that this
is so, or that every final segment of the sequence enables the function at least as often as it
disables it; and under no other. -/
theorem excluded_iff_lastDisable_iff {n m : ComputeNode} {commands : List Name} (f : Str)
    (h₀ : n.funcExcludeList = []) (hrun : run switchCommandStep n commands = .ok m) :
    (m.checkExcludeList f = true ↔ LastIsDisable f commands) ↔
      (LastIsDisable f commands ∨
        ∀ s, s <:+ mentions f commands → s.count true ≤ s.count false) := by
  have hcount : m.funcExcludeList.count f = tally 0 (mentions f commands) := by
    rw [count_run hrun, h₀, List.count_nil]
  have hcheck : ¬ m.checkExcludeList f = true ↔
      ∀ s, s <:+ mentions f commands → s.count true ≤ s.count false := by
    rw [checkExcludeList, List.contains_iff_mem, ← List.count_eq_zero, hcount, tally_zero_eq_zero]
  rw [← hcheck]
  by_cases hlast : LastIsDisable f commands
  · have hex : m.checkExcludeList f = true := by
      obtain ⟨l, hl⟩ := hlast.mentions
      rw [checkExcludeList, List.contains_iff_mem, ← List.count_pos_iff, hcount, hl,
        tally_concat_true]
      exact Nat.succ_pos _
    simp [hlast, hex]
  · simp [hlast]

/-- A duplicated `Disable`, then an `Enable`. -/
def duplicatedDisable : List Name :=
  [switchName "n".toList .disable ["f".toList], switchName "n".toList .disable ["f".toList],
    switchName "n".toList .enable ["f".toList]]

/-- The function stays excluded after its last `Enable`. -/
theorem excludeList_not_last :
    ¬ ∀ (n m : ComputeNode) (commands : List Name) (f : Str), n.funcExcludeList = [] →
      run switchCommandStep n commands = .ok m →
        (m.checkExcludeList f = true ↔ LastIsDisable f commands) := by
  intro hall
  have h := hall oneFunction _ duplicatedDisable "/f".toList rfl rfl
  revert h
  decide

/-- In that sequence some final segment disables the function more often than it enables it. -/
theorem excluded_iff_lastDisable_iff_duplicated :
    ¬ ∀ s, s <:+ mentions "/f".toList duplicatedDisable → s.count true ≤ s.count false := by
  intro hs
  have hrun : run switchCommandStep oneFunction duplicatedDisable = .ok _ := rfl
  have h := (excluded_iff_lastDisable_iff "/f".toList rfl hrun).mpr (Or.inr hs)
  revert h
  decide

end IncSim
