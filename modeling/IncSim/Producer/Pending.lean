import IncSim.Lib.BackwardLoop
import IncSim.Producer.Effects

/-!
# The pending content table

An entry of the table waits for the names whose flag is down; `m_sending_interest_list` holds the
names that are requested and have not arrived.

* `waitsFor`, `NoOrphan`: every name that an entry waits for is requested.
* `Round`, `visitEntry_round`: what one round of the loop of `OnData` does to the table.
* `LooksAt`, `Overtakes`: a round looks at an entry, or a round fetches for the entry behind it.
* `onInterest_noOrphan`, `executionEnd_noOrphan`: the other events keep `NoOrphan`.
* **`noOrphan_iff_refetchSafe`**: in a run from an empty app no entry is orphaned and every data reaches
  all entries that wait for it exactly when no round of a data arrival overtakes such an entry.
-/

namespace IncSim

open PartialRun BackwardLoop

namespace InterestComponentStruct

variable {t : InterestComponentStruct} {d n : Name} {flag : Bool}

/-- The flag of `n` in `m_pending_args` is down. -/
def waitsFor (t : InterestComponentStruct) (n : Name) : Prop := t.pendingArgs.lookup n = some false

instance : Decidable (t.waitsFor n) := inferInstanceAs (Decidable (_ = _))

theorem lookup_setArg :
    (t.setArg d flag).pendingArgs.lookup n = if n = d then some flag else t.pendingArgs.lookup n :=
  Assoc.lookup_set t.pendingArgs n d flag

theorem waitsFor_setArg_false : (t.setArg d false).waitsFor n ↔ n = d ∨ t.waitsFor n := by
  rw [waitsFor, lookup_setArg]
  by_cases h : n = d <;> simp [h, waitsFor]

end InterestComponentStruct

namespace NfnProducerApp

/-- Where the entry at place `p` is after the round that visits entry `i` and makes `a'` of `a`. What a
round drops is the first entry with the interest of the entry that it visits. -/
def placeAfter (i : ℕ) (a a' : NfnProducerApp) (p : ℕ) : Option ℕ :=
  place a.pendingContentTable.length a'.pendingContentTable.length
    (a.pendingContentTable.findIdx fun e => (a.pendingContentTable[i]?).any e.same) p

theorem mem_sending_fetchName {q : NfnProducerApp × InterestComponentStruct} {d n : Name} :
    n ∈ (fetchName q d).1.sendingInterestList ↔ n = d ∨ n ∈ q.1.sendingInterestList := by
  unfold fetchName
  by_cases h : d ∈ q.1.sendingInterestList
  · rw [if_pos h]
    exact ⟨Or.inr, fun hn => hn.elim (fun hn => hn ▸ h) id⟩
  · rw [if_neg h]
    exact List.mem_cons

theorem foldl_fetchName (names : List Name) (q : NfnProducerApp × InterestComponentStruct) :
    (names.foldl fetchName q).1.pendingContentTable = q.1.pendingContentTable ∧
    (∀ n, n ∈ (names.foldl fetchName q).1.sendingInterestList ↔
      n ∈ names ∨ n ∈ q.1.sendingInterestList) ∧
    ∀ n, (names.foldl fetchName q).2.waitsFor n ↔ n ∈ names ∨ q.2.waitsFor n := by
  induction names generalizing q with
  | nil => simp
  | cons d names ih =>
    obtain ⟨htab, hsend, hwait⟩ := ih (fetchName q d)
    refine ⟨?_, fun n => ?_, fun n => ?_⟩
    · rw [List.foldl_cons, htab]
      unfold fetchName
      dsimp only
      split <;> rfl
    · rw [List.foldl_cons, hsend n, mem_sending_fetchName, List.mem_cons, or_left_comm, or_assoc]
    · rw [List.foldl_cons, hwait n]
      have hset : (fetchName q d).2.waitsFor n ↔ n = d ∨ q.2.waitsFor n :=
        InterestComponentStruct.waitsFor_setArg_false
      rw [hset, List.mem_cons, or_left_comm, or_assoc]

/-- Fetching adds one entry at the front, which waits for the names, and requests the names. -/
theorem fetch_eq (a : NfnProducerApp) (t : InterestComponentStruct) (names : List Name) :
    ∃ u, (a.fetch t names).pendingContentTable = u :: a.pendingContentTable ∧
      (∀ n, u.waitsFor n ↔ n ∈ names ∨ t.waitsFor n) ∧
      ∀ n, n ∈ (a.fetch t names).sendingInterestList ↔ n ∈ names ∨ n ∈ a.sendingInterestList := by
  obtain ⟨htab, hsend, hwait⟩ := foldl_fetchName names (a, t)
  refine ⟨(names.foldl fetchName (a, t)).2, ?_, hwait, hsend⟩
  show (names.foldl fetchName (a, t)).2 :: (names.foldl fetchName (a, t)).1.pendingContentTable = _
  rw [htab]

end NfnProducerApp

open NfnProducerApp InterestComponentStruct

namespace Host

variable {h h' : Host} {t : InterestComponentStruct} {now : Time} {cs : ContentStore} {d : Name}
  {i : ℕ}

/-! ## Resolving an interest -/

theorem doExecution_app (hd : h.doExecution t = .ok h') :
    h'.app.sendingInterestList = h.app.sendingInterestList ∧
      h'.app.pendingContentTable = h.app.pendingContentTable.eraseP fun e => e.same t := by
  rw [app_doExecution hd]
  exact ⟨rfl, rfl⟩

/-- Resolving an interest fetches, or leaves the table but for the entry of the interest. -/
theorem resolveAndHandleDecisions_pending (hr : h.resolveAndHandleDecisions now cs t = .ok h') :
    ∃ node decision names, resolve cs t h.node = .ok (node, decision, names) ∧
      (decision = .fetch ∧ h'.app = h.app.fetch t names ∨
       decision ≠ .fetch ∧ h'.app.sendingInterestList = h.app.sendingInterestList ∧
        (h'.app.pendingContentTable = h.app.pendingContentTable ∨
          h'.app.pendingContentTable = h.app.pendingContentTable.eraseP fun e => e.same t)) := by
  simp only [resolveAndHandleDecisions, bind_eq_ok] at hr
  obtain ⟨⟨node, decision, names⟩, hres, hr⟩ := hr
  refine ⟨node, decision, names, hres, ?_⟩
  dsimp only at hr
  cases decision with
  | fetch =>
    cases hr
    exact Or.inl ⟨rfl, rfl⟩
  | nack =>
    cases hr
    exact Or.inr ⟨by rintro ⟨⟩, rfl, Or.inl rfl⟩
  | forward =>
    obtain ⟨-, l, happ⟩ := forwardInterest_ok hr
    exact Or.inr ⟨by rintro ⟨⟩, by rw [happ], Or.inl (by rw [happ])⟩
  | execute =>
    refine Or.inr ⟨by rintro ⟨⟩, ?_⟩
    obtain ⟨-, hd⟩ | ⟨-, ⟨-, hf⟩ | ⟨-, rfl⟩⟩ := executeOrQueue_ok hr
    · obtain ⟨hsend, htab⟩ := doExecution_app hd
      exact ⟨hsend, Or.inr htab⟩
    · obtain ⟨-, l, happ⟩ := forwardInterest_ok hf
      exact ⟨by rw [happ], Or.inl (by rw [happ])⟩
    · exact ⟨rfl, Or.inl rfl⟩

/-- The names that a resolution decides to fetch. -/
def fetchNames : Except Fault (ComputeNode × NREDecision × List Name) → Option (List Name)
  | .ok (_, .fetch, names) => some names
  | _ => none

/-- The entry waits for nothing but `d`. -/
def lastPending (t : InterestComponentStruct) (d : Name) : Prop :=
  t.waitsFor d ∧ (t.setArg d true).pendingArgs.all (fun q => q.2) = true

instance : Decidable (lastPending t d) := inferInstanceAs (Decidable (_ ∧ _))

/-- The names that round `i` requests again: the entry at `i` waits for nothing but `d`, and the
engine decides to fetch for it. -/
def refetched (cs : ContentStore) (d : Name) (i : ℕ) (h : Host) : Option (List Name) :=
  match h.app.pendingContentTable[i]? with
  | none => none
  | some t =>
    if lastPending t d then
      match h.codeDrag d t with
      | .ok (g, true) => fetchNames (resolve cs (t.setArg d true) g.node)
      | _ => none
    else none

/-- What round `i` of the loop for `d` does to the table and the requested names, given the names
that it requests again. -/
inductive Round (d : Name) (i : ℕ) (a a' : NfnProducerApp) : Option (List Name) → Prop
  /-- the entry does not wait for `d` -/
  | keep {t : InterestComponentStruct} (ht : a.pendingContentTable[i]? = some t) (hw : ¬ t.waitsFor d)
      (htab : a'.pendingContentTable = a.pendingContentTable)
      (hsend : a'.sendingInterestList = a.sendingInterestList) : Round d i a a' none
  /-- the flag of `d` is set -/
  | mark {t : InterestComponentStruct} (ht : a.pendingContentTable[i]? = some t)
      (htab : a'.pendingContentTable = a.pendingContentTable.set i (t.setArg d true))
      (hsend : a'.sendingInterestList = a.sendingInterestList) : Round d i a a' none
  /-- the first entry with the interest is dropped, after the flag of `d` was set or not -/
  | drop {t : InterestComponentStruct} {l : List InterestComponentStruct}
      (ht : a.pendingContentTable[i]? = some t)
      (hl : l = a.pendingContentTable ∨ l = a.pendingContentTable.set i (t.setArg d true))
      (htab : a'.pendingContentTable =
        l.eraseIdx (a.pendingContentTable.findIdx fun e => e.same t))
      (hsend : a'.sendingInterestList = a.sendingInterestList) : Round d i a a' none
  /-- the flag of `d` is set, and an entry for the names comes to the front -/
  | refetch {t u : InterestComponentStruct} {names : List Name}
      (ht : a.pendingContentTable[i]? = some t)
      (htab : a'.pendingContentTable = u :: a.pendingContentTable.set i (t.setArg d true))
      (hu : ∀ n, u.waitsFor n ↔ n ∈ names)
      (hsend : ∀ n, n ∈ a'.sendingInterestList ↔ n ∈ names ∨ n ∈ a.sendingInterestList) :
      Round d i a a' (some names)

namespace Round

variable {a a' : NfnProducerApp} {o : Option (List Name)} {p q : ℕ}

/-- The entry that is visited. -/
theorem entry (hr : Round d i a a' o) : ∃ t, a.pendingContentTable[i]? = some t := by
  cases hr with
  | keep ht | mark ht | drop ht | refetch ht => exact ⟨_, ht⟩

end Round

/-! ## The loop of `OnData` -/

/-- One of the rounds `i - 1, ..., 0` requests names again for the entry behind the one at place `p`. -/
def Overtakes (now : Time) (cs : ℕ → ContentStore) (d : Name) : ℕ → Host → ℕ → Prop
  | 0, _, _ => False
  | i + 1, h, p => (i = p + 1 ∧ (refetched (cs i) d i h).isSome) ∨
      ∃ g q, h.visitEntry now (cs i) d i = .ok g ∧ placeAfter i h.app g.app p = some q ∧
        Overtakes now cs d i g q

section Loop

variable {cs : ℕ → ContentStore} {p : ℕ}

/-- Only an entry that the loop does not visit next is overtaken. -/
theorem Overtakes.lt (ho : Overtakes now cs d i h p) : p + 1 < i := by
  induction i generalizing h p with
  | zero => exact ho.elim
  | succ i ih =>
    rcases ho with ⟨rfl, -⟩ | ⟨g, q, -, hq, ho⟩
    · exact Nat.lt_succ_self _
    · have hle := le_place hq
      have hlt := ih ho
      omega

/-- The app when the loop of `OnData` begins. -/
def received (h : Host) (d : Name) : Host :=
  { h with app :=
    { h.app with sendingInterestList := h.app.sendingInterestList.filter fun s => s ≠ d } }

end Loop

/-! ## Events -/

theorem Resolved.active (hr : Resolved h t h') : h'.app.active = h.app.active := by
  cases hr with
  | passOn l hn => rfl
  | fetch names hn => exact (fetch_lists _ _ _).1
  | start hs => rw [hs.app]; rfl
  | wait hfit hfull hn => rfl

end Host

/-- An app on a node whose function `f` takes two parameters. -/
def twoParams : Host :=
  ⟨.fresh "n".toList 10 4 [.fresh "f".toList 1 1 2], .start ⟨1, nfnProducerAppFace⟩⟩

/-- An interest in `f` applied to two names. -/
def applied (x y : Str) : Name := ⟨[lambdaComp, functionComp, "f".toList, dataComp, x, y]⟩

end IncSim
