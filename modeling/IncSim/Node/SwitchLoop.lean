import IncSim.Node.Requests

/-!
# The token iterator of the UDP switch handler

The loop of the UDP handler starts five tokens into the packet and goes on until its iterator is in
front of the last token. Here every use of the iterator is checked.

* `tokenAt`, `advanceTo`: the checks. `SwitchLoop`, `SwitchLoop.body`, `SwitchLoop.run`: the loop,
  with a bound on its iterations.
* `udpSwitchRun`: the handler up to its reply.
* **`run_eq_udpSwitchLoop`**: what the loop does, if its iterator starts in the vector.
* **`udpSwitchRun_safe_iff`**: for which packets it is safe.
-/

namespace IncSim

open PartialRun

/-- `tokens[i]`, and `*itr` for the iterator at place `i`. -/
def tokenAt (tokens : List Str) (i : ℕ) : Except Fault Str :=
  match tokens[i]? with
  | some token => .ok token
  | none => .error .outOfRange

/-- Moving an iterator to place `i`: the end of the vector is the last place. -/
def advanceTo (tokens : List Str) (i : ℕ) : Except Fault ℕ :=
  if i ≤ tokens.length then .ok i else .error .outOfRange

/-- What the loop works on. -/
structure SwitchLoop where
  node : ComputeNode
  flag : Bool
  tokens : List Str
  itr : ℕ

namespace SwitchLoop

variable (s : SwitchLoop)

/-- `itr == tokens.end () - 1` -/
def AtLast : Prop := s.itr + 1 = s.tokens.length

instance : Decidable s.AtLast := inferInstanceAs (Decidable (_ = _))

/-- One branch of the body; `insert` writes the slash into the token. -/
def apply (switch : ComputeNode → Str → Except Fault (ComputeNode × Bool)) :
    Except Fault SwitchLoop := do
  let token ← tokenAt s.tokens s.itr
  let func_name := '/' :: token
  let (node, flag) ← switch s.node func_name
  pure { s with node := node, flag := flag, tokens := s.tokens.set s.itr func_name }

/-- One iteration, with the increment at its end. -/
def body : Except Fault SwitchLoop := do
  let operation ← tokenAt s.tokens 4
  let s ←
    if operation = "Enable".toList then s.apply ComputeNode.switchOn
    else if operation = "Disable".toList then s.apply ComputeNode.switchOff
    else pure s
  let itr ← advanceTo s.tokens (s.itr + 1)
  pure { s with itr := itr }

/-- The loop with a bound on the number of iterations; nothing when it needs more. -/
def run : ℕ → SwitchLoop → Except Fault (Option SwitchLoop)
  | 0, s => .ok (if s.AtLast then some s else none)
  | bound + 1, s => if s.AtLast then .ok (some s) else s.body >>= run bound

end SwitchLoop

/-- `UdpOrchestrationComputeNodeApp::FunctionSwitchHandler` up to its reply. -/
def udpSwitchRun (n : ComputeNode) (packet_data : Str) (bound : ℕ) :
    Except Fault (Option SwitchLoop) := do
  let tokens := packet_data.splitOn '/'
  let itr ← advanceTo tokens 5
  SwitchLoop.run bound { node := n, flag := false, tokens := tokens, itr := itr }

/-! ## The loop takes the tokens one by one -/

section Loop

variable {s : SwitchLoop} {tokens : List Str} {i : ℕ}

theorem tokenAt_of_lt (h : i < tokens.length) : tokenAt tokens i = .ok tokens[i] := by
  rw [tokenAt, List.getElem?_eq_getElem h]

theorem tokenAt_eq_getD (h : i < tokens.length) : tokenAt tokens i = .ok (tokens.getD i []) := by
  rw [tokenAt_of_lt h, List.getD_eq_getElem?_getD, List.getElem?_eq_getElem h, Option.getD_some]

theorem tokenAt_of_le (h : tokens.length ≤ i) : tokenAt tokens i = .error .outOfRange := by
  rw [tokenAt, List.getElem?_eq_none h]

/-- What an iteration does to node and flag. -/
def switchToken (operation : Str) (q : ComputeNode × Bool) (token : Str) :
    Except Fault (ComputeNode × Bool) :=
  if operation = "Enable".toList then q.1.switchOn ('/' :: token)
  else if operation = "Disable".toList then q.1.switchOff ('/' :: token)
  else pure q

theorem udpSwitchLoop_cons {operation token : Str} {q : ComputeNode × Bool} {rest : List Str}
    (h : rest ≠ []) : ComputeNode.udpSwitchLoop operation q (token :: rest) =
      switchToken operation q token >>= fun q => ComputeNode.udpSwitchLoop operation q rest := by
  obtain ⟨t, rest, rfl⟩ := List.exists_cons_of_ne_nil h
  rw [ComputeNode.udpSwitchLoop, switchToken]
  · split_ifs <;> rfl
  · exact h

/-- The tokens that are left to read: the operation and those from place `i` on. -/
def SameAhead (i : ℕ) (tokens tokens' : List Str) : Prop :=
  tokens'.length = tokens.length ∧ tokens'.getD 4 [] = tokens.getD 4 [] ∧
    tokens'.drop i = tokens.drop i

theorem sameAhead_set (h : 4 < i) (t : Str) : SameAhead (i + 1) tokens (tokens.set i t) := by
  refine ⟨List.length_set, ?_, List.drop_set_of_lt (by omega)⟩
  rw [List.getD_eq_getElem?_getD, List.getD_eq_getElem?_getD, List.getElem?_set_ne (by omega)]

/-- A branch of the body and the increment, with the iterator in the vector. -/
theorem apply_advanceTo (hlt : s.itr < s.tokens.length)
    (switch : ComputeNode → Str → Except Fault (ComputeNode × Bool)) :
    (s.apply switch >>= fun s => do
      let itr ← advanceTo s.tokens (s.itr + 1)
      pure { s with itr := itr }) =
    (switch s.node ('/' :: s.tokens[s.itr])).map fun q =>
      { node := q.1, flag := q.2, tokens := s.tokens.set s.itr ('/' :: s.tokens[s.itr])
        itr := s.itr + 1 } := by
  rw [SwitchLoop.apply, tokenAt_of_lt hlt, ok_bind]
  dsimp only
  rcases switch s.node ('/' :: s.tokens[s.itr]) with e | q
  · rfl
  · have hnext : advanceTo (s.tokens.set s.itr ('/' :: s.tokens[s.itr])) (s.itr + 1) =
        .ok (s.itr + 1) := if_pos (by rw [List.length_set]; exact hlt)
    show (advanceTo _ _ >>= _) = _
    rw [hnext]
    rfl

/-- An iteration with the iterator in the vector, behind the operation. -/
theorem body_eq (h4 : 4 < s.itr) (hlt : s.itr < s.tokens.length) :
    ∃ tokens, SameAhead (s.itr + 1) s.tokens tokens ∧
      s.body = (switchToken (s.tokens.getD 4 []) (s.node, s.flag) s.tokens[s.itr]).map fun q =>
        { node := q.1, flag := q.2, tokens := tokens, itr := s.itr + 1 } := by
  unfold SwitchLoop.body switchToken
  rw [tokenAt_eq_getD (h4.trans hlt), ok_bind]
  split
  · exact ⟨_, sameAhead_set h4 _, apply_advanceTo hlt _⟩
  · split
    · exact ⟨_, sameAhead_set h4 _, apply_advanceTo hlt _⟩
    · refine ⟨s.tokens, ⟨rfl, rfl, rfl⟩, ?_⟩
      have hnext : advanceTo s.tokens (s.itr + 1) = .ok (s.itr + 1) := if_pos hlt
      rw [pure_bind]
      dsimp only
      rw [hnext]
      rfl

/-- An iteration with the iterator at the end of the vector. -/
theorem body_at_end (h4 : 4 < s.itr) (hend : s.itr = s.tokens.length) :
    s.body = .error .outOfRange := by
  have hread : ∀ switch, s.apply switch = .error .outOfRange := by
    intro switch
    rw [SwitchLoop.apply, tokenAt_of_le hend.ge]
    rfl
  have hnext : advanceTo s.tokens (s.itr + 1) = .error .outOfRange := if_neg (by omega)
  unfold SwitchLoop.body
  rw [tokenAt_eq_getD (h4.trans_eq hend), ok_bind, hread, hread]
  split_ifs
  · rfl
  · rfl
  · rw [pure_bind]
    dsimp only
    rw [hnext]
    rfl

/-- **The loop takes the tokens one by one**, and a bound that reaches behind the vector is enough
for it. -/
theorem run_eq_udpSwitchLoop {bound : ℕ} (h4 : 4 < s.itr) (hle : s.itr ≤ s.tokens.length)
    (hbound : s.tokens.length < s.itr + bound) :
    (s.run bound).map (Option.map fun s => (s.node, s.flag)) =
      (ComputeNode.udpSwitchLoop (s.tokens.getD 4 []) (s.node, s.flag)
        (s.tokens.drop s.itr)).map some := by
  induction bound generalizing s with
  | zero => omega
  | succ bound ih =>
    rw [SwitchLoop.run]
    by_cases hlast : s.AtLast
    · have hlt : s.itr < s.tokens.length := Nat.lt_of_succ_le hlast.le
      have hone : s.tokens.drop s.itr = [s.tokens[s.itr]] := by
        rw [List.drop_eq_getElem_cons hlt, List.drop_eq_nil_of_le hlast.ge]
      rw [if_pos hlast, hone]
      rfl
    · rw [if_neg hlast]
      unfold SwitchLoop.AtLast at hlast
      by_cases hend : s.itr = s.tokens.length
      · rw [body_at_end h4 hend, hend, List.drop_length]
        rfl
      · have hlt : s.itr < s.tokens.length := by omega
        have hrest : s.tokens.drop (s.itr + 1) ≠ [] := by
          rw [Ne, List.drop_eq_nil_iff]
          omega
        obtain ⟨tokens, ⟨hlength, hop, hdrop⟩, hbody⟩ := body_eq h4 hlt
        rw [hbody, List.drop_eq_getElem_cons hlt, udpSwitchLoop_cons hrest]
        rcases switchToken (s.tokens.getD 4 []) (s.node, s.flag) s.tokens[s.itr] with e | q
        · rfl
        · have hnext := @ih { node := q.1, flag := q.2, tokens := tokens, itr := s.itr + 1 }
            (by dsimp only; omega) (by dsimp only; omega) (by dsimp only; omega)
          dsimp only at hnext
          rw [hop, hdrop] at hnext
          exact hnext

end Loop

/-! ## The packets on which the loop is safe -/

/-- The checked handler does what the handler does. -/
theorem udpSwitchRun_eq (n : ComputeNode) (packet_data : Str) :
    let tokens := packet_data.splitOn '/'
    (udpSwitchRun n packet_data tokens.length).map (Option.map fun s => (s.node, s.flag)) =
      (ComputeNode.udpSwitchLoop (tokens.getD 4 []) (n, false) (tokens.drop 5)).map some := by
  intro tokens
  show Except.map _ (advanceTo tokens 5 >>= _) = _
  by_cases hlength : 5 ≤ tokens.length
  · have hstart : advanceTo tokens 5 = .ok 5 := if_pos hlength
    have hrun := @run_eq_udpSwitchLoop { node := n, flag := false, tokens := tokens, itr := 5 }
      tokens.length (Nat.lt_succ_self 4) hlength (Nat.lt_add_of_pos_left (Nat.succ_pos 4))
    rw [hstart]
    exact hrun
  · have hstart : advanceTo tokens 5 = .error .outOfRange := if_neg hlength
    rw [hstart, List.drop_eq_nil_of_le (by omega)]
    rfl

/-- A switch fails on a null pointer only. -/
theorem switchToken_ne_outOfRange (operation : Str) (q : ComputeNode × Bool) (token : Str) :
    switchToken operation q token ≠ .error .outOfRange := by
  have henable : q.1.enableFunction ('/' :: token) ≠ .error .outOfRange := by
    unfold ComputeNode.enableFunction
    rcases q.1.funcMap.lookup ('/' :: token) with _ | _ | f <;> exact nofun
  have hdisable : q.1.disableFunction ('/' :: token) ≠ .error .outOfRange := by
    unfold ComputeNode.disableFunction
    rcases q.1.funcMap.lookup ('/' :: token) with _ | _ | f <;> exact nofun
  unfold switchToken
  split
  · exact bind_ne_error henable fun _ _ => ok_ne_error
  · split
    · exact bind_ne_error hdisable fun _ _ => ok_ne_error
    · exact ok_ne_error

theorem udpSwitchLoop_outOfRange_iff {operation : Str} {q : ComputeNode × Bool} {tokens : List Str} :
    ComputeNode.udpSwitchLoop operation q tokens = .error .outOfRange ↔ tokens = [] := by
  induction tokens generalizing q with
  | nil => exact iff_of_true rfl rfl
  | cons token rest ih =>
    refine iff_of_false ?_ (List.cons_ne_nil _ _)
    by_cases hrest : rest = []
    · subst hrest
      exact nofun
    · rw [udpSwitchLoop_cons hrest]
      exact bind_ne_error (switchToken_ne_outOfRange _ _ _) fun q _ h => hrest (ih.mp h)

/-- The handler uses its iterator and `tokens[4]` inside the vector only, and its loop ends after at
most as many iterations as there are tokens. -/
def SwitchRunSafe (n : ComputeNode) (packet_data : Str) : Prop :=
  let r := udpSwitchRun n packet_data (packet_data.splitOn '/').length
  r ≠ .error .outOfRange ∧ r ≠ .ok none

/-- **The switch loop of the UDP handler is safe on a packet** exactly when the packet has five
slashes or more. -/
theorem udpSwitchRun_safe_iff (n : ComputeNode) (packet_data : Str) :
    SwitchRunSafe n packet_data ↔ 5 ≤ packet_data.count '/' := by
  have hrun := udpSwitchRun_eq n packet_data
  dsimp only at hrun
  have hlength := Text.length_splitOn '/' packet_data
  have hrange : udpSwitchRun n packet_data (packet_data.splitOn '/').length = .error .outOfRange ↔
      (packet_data.splitOn '/').length ≤ 5 := by
    rw [← map_eq_error, hrun, map_eq_error, udpSwitchLoop_outOfRange_iff, List.drop_eq_nil_iff]
  have hends : udpSwitchRun n packet_data (packet_data.splitOn '/').length ≠ .ok none := by
    intro h
    rw [h] at hrun
    obtain ⟨q, -, hq⟩ := map_eq_ok.mp hrun.symm
    cases hq
  unfold SwitchRunSafe
  rw [and_iff_left hends, Ne, hrange, hlength]
  omega

/-- The text of the request alone is dispatched to the handler. -/
theorem udpSwitchRun_unsafe : ComputeNode.DispatchesSwitch "/FunctionSwitch".toList ∧
    ¬ SwitchRunSafe oneFunction "/FunctionSwitch".toList := by
  refine ⟨by decide, fun hsafe => hsafe.1 ?_⟩
  rfl

end IncSim
