import IncSim.Producer.Calls
import IncSim.Producer.Started

/-!
# Cleaning up the pending content table

The table against the fetches and clean-ups that came before.

* `Deed`, `Moment`: what the app does with an interest, and the app right after it. `moments`,
  `history`: all of them in an event, and in a run.
* `unsettled`: the fetches of an interest that no clean-up has taken back. `Counted`: after each
  moment the table has that many entries of every interest.
* `sharedStep_recorded`, **`history_counted`**: it does, in an event and in a whole run.
* **`leavesNothing_iff`**: in a run no life leaves an entry behind exactly when every end of a life
  cleans up as much as is unsettled.
* `data_forwarded_pending`: an interest that `OnData` resolves again and that is refused or
  forwarded leaves its entry.
-/

namespace IncSim

open PartialRun

namespace NfnProducerApp

/-- How many entries of the table are for an interest. -/
def entries (a : NfnProducerApp) (t : InterestComponentStruct) : ℕ :=
  a.pendingContentTable.countP fun e => e.same t

/-- An entry of the table is for an interest. -/
def Pending (a : NfnProducerApp) (t : InterestComponentStruct) : Prop :=
  ∃ e ∈ a.pendingContentTable, e.same t = true

instance (a : NfnProducerApp) (t : InterestComponentStruct) : Decidable (a.Pending t) :=
  inferInstanceAs (Decidable (∃ e ∈ a.pendingContentTable, e.same t = true))

variable {a a' : NfnProducerApp} {s t : InterestComponentStruct}

theorem entries_pos : 0 < a.entries t ↔ a.Pending t := List.countP_pos_iff

theorem entries_eq_zero : a.entries t = 0 ↔ ¬ a.Pending t := by
  rw [← entries_pos, Nat.pos_iff_ne_zero, not_not]

theorem entries_congr (h : a'.pendingContentTable = a.pendingContentTable) :
    a'.entries = a.entries := by
  funext s
  rw [entries, entries, h]

/-- Deleting the first entry takes one away. -/
theorem countP_eraseP {α : Type} (p : α → Bool) (l : List α) :
    (l.eraseP p).countP p = l.countP p - 1 := by
  induction l with
  | nil => rfl
  | cons b l ih =>
    cases hb : p b with
    | true => simp [hb]
    | false => simp [hb, ih]

/-- Deleting an entry that is not counted takes none away. -/
theorem countP_eraseP_of_disjoint {α : Type} {p q : α → Bool} (hpq : ∀ b, q b = true → p b = false)
    (l : List α) : (l.eraseP q).countP p = l.countP p := by
  induction l with
  | nil => rfl
  | cons b l ih =>
    cases hb : q b with
    | true => simp [hb, hpq b hb]
    | false => simp [hb, List.countP_cons, ih]

theorem same_of_same {e : InterestComponentStruct} (h : e.same t = true) : e.same s = t.same s := by
  unfold InterestComponentStruct.same at *
  rw [beq_iff_eq.mp h]

theorem entries_eraseP
    (h : a'.pendingContentTable = a.pendingContentTable.eraseP fun e => e.same t) :
    a'.entries s = if t.same s then a.entries s - 1 else a.entries s := by
  unfold entries
  rw [h]
  split_ifs with hs
  · have hpred : (fun e : InterestComponentStruct => e.same t) = fun e => e.same s := by
      funext e
      unfold InterestComponentStruct.same at *
      rw [beq_iff_eq.mp hs]
    rw [hpred, countP_eraseP]
  · exact countP_eraseP_of_disjoint (fun e he => (same_of_same he).trans (by simpa using hs)) _

theorem interest_foldl_fetchName (names : List Name) (q : NfnProducerApp × InterestComponentStruct) :
    (names.foldl fetchName q).2.interest = q.2.interest := by
  induction names generalizing q with
  | nil => rfl
  | cons d names ih => exact ih _

theorem entries_fetch (names : List Name) :
    (a.fetch t names).entries s = if t.same s then a.entries s + 1 else a.entries s := by
  have hsame : (names.foldl fetchName (a, t)).2.same s = t.same s := by
    unfold InterestComponentStruct.same
    rw [interest_foldl_fetchName]
  unfold entries fetch
  dsimp only
  rw [List.countP_cons, hsame, (foldl_fetchName names (a, t)).1]
  split_ifs <;> rfl

end NfnProducerApp

/-! ## Deeds and moments -/

/-- What the app does with an interest. -/
inductive Deed
  /-- the FETCH branch -/
  | fetched
  /-- `DoExecution` -/
  | started
  /-- the NACK branch -/
  | nacked
  /-- `ForwardInterest`, decided or because the queue is full -/
  | forwarded
  /-- `OnData` cannot enable the function that came and deletes the entry -/
  | dropped
  deriving DecidableEq

namespace Deed

/-- The deeds that end the local life of an interest. -/
def ends : Deed → Bool
  | started => true
  | nacked => true
  | forwarded => true
  | fetched => false
  | dropped => false

/-- The fetches that a deed cleans up. -/
def cleans : Deed → ℕ
  | started => 1
  | dropped => 1
  | fetched => 0
  | nacked => 0
  | forwarded => 0

/-- The fetches that are unsettled after a deed. -/
def settle (x : Deed) (n : ℕ) : ℕ := if x = fetched then n + 1 else n - x.cleans

end Deed

/-- A deed, with the app right after it. -/
structure Moment where
  ics : InterestComponentStruct
  deed : Deed
  after : NfnProducerApp

/-- The unsettled fetches of `t` after a moment. -/
def Moment.settle (m : Moment) (t : InterestComponentStruct) (n : ℕ) : ℕ :=
  if m.ics.same t then m.deed.settle n else n

/-- The fetches of `t` that no clean-up has taken back, `n` of them from before. -/
def unsettled (ms : List Moment) (t : InterestComponentStruct) (n : ℕ) : ℕ :=
  ms.foldl (fun n m => m.settle t n) n

/-- What a call does, by the answer of the engine, the resources and the queue before it. -/
def Call.deed (c : Call) : Option Deed :=
  match Host.resolve c.cs c.ics c.host.node with
  | .ok (_, .nack, _) => some .nacked
  | .ok (_, .fetch, _) => some .fetched
  | .ok (_, .forward, _) => some .forwarded
  | .ok (node, .execute, _) =>
    match Host.checkResource ⟨node, c.host.app⟩ c.ics.func with
    | .ok true => some .started
    | .ok false => if node.isQueueFull then some .forwarded else none
    | .error _ => none
  | .error _ => none

/-- The moment of a call; an interest that joins the queue has none. -/
def Call.moment (c : Call) : Option Moment :=
  match c.deed, c.host.resolveAndHandleDecisions c.now c.cs c.ics with
  | some x, .ok h => some ⟨c.ics, x, h.app⟩
  | _, _ => none

namespace Host

/-- The moments in one round of the loop of `OnData`. -/
def entryMoments (h : Host) (now : Time) (cs : ContentStore) (d : Name) (i : ℕ) : List Moment :=
  match h.app.pendingContentTable[i]? with
  | none => []
  | some t =>
    if t.pendingArgs.any fun q => q.1 = d then
      match h.codeDrag d t with
      | .ok (h, true) => (h.pendingCalls now cs d i t).filterMap Call.moment
      | .ok (h, false) => [⟨t, .dropped, h.app⟩]
      | .error _ => []
    else []

/-- The moments in the loop of `OnData`. -/
def entriesMoments (now : Time) (cs : ℕ → ContentStore) (d : Name) : ℕ → Host → List Moment
  | 0, _ => []
  | i + 1, h => h.entryMoments now (cs i) d i ++
    match h.visitEntry now (cs i) d i with
    | .ok h => entriesMoments now cs d i h
    | .error _ => []

/-- The moment when an execution ends and the head of the queue starts. -/
def queueMoments (h : Host) (now : Time) (k : ℕ) : List Moment :=
  match h.step (.executionEnd now k) with
  | .ok g => (h.started (.executionEnd now k)).map fun q => ⟨q.2, .started, g.app⟩
  | .error _ => []

/-- The moments in an event. -/
def moments (h : Host) : SharedEvent → List Moment
  | .app (.interest now cs name) => (h.interestCalls now cs name).filterMap Call.moment
  | .app (.data now cs d) =>
    if h.app.active then entriesMoments now cs d h.app.pendingContentTable.length (h.received d) else []
  | .app (.executionEnd now k) => h.queueMoments now k
  | .node _ => []

/-- The moments in a run. -/
def history : Host → List SharedEvent → List Moment
  | _, [] => []
  | h, e :: es => h.moments e ++
    match h.sharedStep e with
    | .ok h => history h es
    | .error _ => []

/-- Whenever the local life of an interest ends, no entry of the interest stays in the table. -/
def LeavesNothing (h : Host) (es : List SharedEvent) : Prop :=
  ∀ m ∈ h.history es, m.deed.ends = true → ¬ m.after.Pending m.ics

/-- Whenever the local life of an interest ends, the end cleans up all fetches of the interest that
are unsettled by what came before: a start one, a NACK and a forward none. -/
def SettlesFetches (h : Host) (es : List SharedEvent) : Prop :=
  ∀ ms m, ms ++ [m] <+: h.history es → m.deed.ends = true →
    unsettled ms m.ics (h.app.entries m.ics) ≤ m.deed.cleans

end Host

/-! ## The table follows the history -/

/-- From `f` on, the table has after each moment as many entries of an interest as are unsettled. -/
def Counted : (InterestComponentStruct → ℕ) → List Moment → Prop
  | _, [] => True
  | f, m :: ms => (m.after.entries = fun t => m.settle t (f t)) ∧ Counted m.after.entries ms

/-- The moments of a step that begins with `f` entries and ends in `r`. -/
structure Recorded (f : InterestComponentStruct → ℕ) (ms : List Moment) (r : Except Fault Host) :
    Prop where
  counted : Counted f ms
  final : ∀ g, r = .ok g → g.app.entries = fun t => unsettled ms t (f t)

variable {f : InterestComponentStruct → ℕ} {ms ms' : List Moment} {m : Moment}
  {r : Except Fault Host} {h h' : Host} {t : InterestComponentStruct} {now : Time}
  {cs : ContentStore} {d : Name} {i : ℕ} {c : Call}

theorem Counted.append (hms : Counted f ms) (hms' : Counted (fun t => unsettled ms t (f t)) ms') :
    Counted f (ms ++ ms') := by
  induction ms generalizing f with
  | nil => exact hms'
  | cons m ms ih =>
    refine ⟨hms.1, ih hms.2 ?_⟩
    rw [hms.1]
    exact hms'

/-- After the last moment of a prefix. -/
theorem Counted.after (hms : Counted f ms) {ms₁ : List Moment} (hp : ms₁ ++ [m] <+: ms) :
    m.after.entries = fun t => m.settle t (unsettled ms₁ t (f t)) := by
  induction ms₁ generalizing f ms with
  | nil =>
    obtain ⟨rest, rfl⟩ := hp
    exact hms.1
  | cons m₁ ms₁ ih =>
    obtain ⟨rest, rfl⟩ := hp
    have hafter := ih hms.2 ⟨rest, rfl⟩
    rw [hms.1] at hafter
    exact hafter

namespace Recorded

/-- Nothing happens to the entries. -/
theorem nil (hr : ∀ g, r = .ok g → g.app.entries = f) : Recorded f [] r := ⟨trivial, hr⟩

/-- One moment. -/
theorem one (hafter : m.after.entries = fun t => m.settle t (f t))
    (hr : ∀ g, r = .ok g → g.app.entries = m.after.entries) : Recorded f [m] r :=
  ⟨⟨hafter, trivial⟩, fun g hg => (hr g hg).trans hafter⟩

/-- **One step after the other.** -/
theorem seq {rest : Host → List Moment} {k : Host → Except Fault Host} :
    Recorded f ms r → (∀ g, r = .ok g → Recorded g.app.entries (rest g) (k g)) →
      Recorded f (ms ++ match r with | .ok g => rest g | .error _ => []) (r >>= k) := by
  intro hr hk
  cases r with
  | error e =>
    dsimp only
    rw [List.append_nil]
    exact ⟨hr.counted, nofun⟩
  | ok g =>
    have hrest := hk g rfl
    rw [hr.final g rfl] at hrest
    refine ⟨hr.counted.append hrest.counted, fun g' hg' => ?_⟩
    rw [hrest.final g' hg']
    funext t
    exact (List.foldl_append ..).symm

end Recorded

namespace Host

open NfnProducerApp

/-- Queueing and forwarding leave the table. -/
theorem forwardInterest_entries {g : Host} (hg : g.app = h.app) (hf : g.forwardInterest t = .ok h') :
    h'.app.entries = h.app.entries :=
  entries_congr (by rw [forwardInterest_app hf, ← hg]; rfl)

/-- A call, if it ends well: what its deed does to the entries. -/
theorem call_entries (hr : c.host.resolveAndHandleDecisions c.now c.cs c.ics = .ok h') :
    match c.deed with
    | some x => h'.app.entries = fun t => Moment.settle ⟨c.ics, x, h'.app⟩ t (c.host.app.entries t)
    | none => h'.app.entries = c.host.app.entries := by
  obtain ⟨⟨node, decision, names⟩, hres, hr⟩ := bind_eq_ok.mp hr
  -- a deed that leaves the table
  have hleft : ∀ {x : Deed} {f : InterestComponentStruct → ℕ}, x = .nacked ∨ x = .forwarded →
      f = fun t => Moment.settle ⟨c.ics, x, h'.app⟩ t (f t) := by
    rintro x f hx
    funext s
    unfold Moment.settle
    rcases hx with rfl | rfl <;> exact (ite_self _).symm
  have hforward : ∀ {g : Host}, g.app = c.host.app → g.forwardInterest c.ics = .ok h' →
      h'.app.entries = fun t => Moment.settle ⟨c.ics, .forwarded, h'.app⟩ t (c.host.app.entries t) := by
    intro g hg hf
    rw [forwardInterest_entries hg hf]
    exact hleft (Or.inr rfl)
  unfold Call.deed
  rw [hres]
  dsimp only at hr ⊢
  cases decision with
  | nack =>
    cases hr
    exact hleft (Or.inl rfl)
  | fetch =>
    cases hr
    exact funext fun s => entries_fetch names
  | forward => exact hforward (g := ⟨node, c.host.app⟩) rfl hr
  | execute =>
    dsimp only at hr ⊢
    obtain ⟨hc, hd⟩ | ⟨hc, ⟨hfull, hf⟩ | ⟨hfull, rfl⟩⟩ := executeOrQueue_ok hr
    · rw [hc]
      exact funext fun s => entries_eraseP (Host.doExecution_app hd).2
    · rw [hc]
      dsimp only
      rw [if_pos (by exact hfull)]
      exact hforward (g := ⟨node.addNodeBusyCounter, c.host.app⟩) rfl hf
    · rw [hc]
      dsimp only
      rw [if_neg (by exact hfull)]
      rfl

/-- **One call.** -/
theorem call_recorded (c : Call) :
    Recorded c.host.app.entries ([c].filterMap Call.moment)
      (c.host.resolveAndHandleDecisions c.now c.cs c.ics) := by
  rcases hr : c.host.resolveAndHandleDecisions c.now c.cs c.ics with e | g
  · have hnone : c.moment = none := by
      unfold Call.moment
      rw [hr]
      cases c.deed <;> rfl
    rw [List.filterMap_cons_none hnone]
    exact .nil nofun
  · have hentries := call_entries hr
    cases hx : c.deed with
    | none =>
      rw [hx] at hentries
      have hnone : c.moment = none := by
        unfold Call.moment
        rw [hx]
      rw [List.filterMap_cons_none hnone]
      refine .nil fun g' hg' => ?_
      cases hg'
      exact hentries
    | some x =>
      rw [hx] at hentries
      have hsome : c.moment = some ⟨c.ics, x, g.app⟩ := by
        unfold Call.moment
        rw [hx, hr]
      rw [List.filterMap_cons_some hsome]
      refine .one hentries fun g' hg' => ?_
      cases hg'
      rfl

/-! ## Events -/

theorem onInterest_recorded {name : Name} :
    Recorded h.app.entries ((h.interestCalls now cs name).filterMap Call.moment)
      (h.onInterest now cs name) := by
  unfold interestCalls onInterest
  split
  · exact .nil fun g hg => by cases hg; rfl
  · split
    · exact call_recorded ⟨⟨(findFunction h.node none name.comps).1, h.app⟩, now, cs,
        ⟨name, (findFunction h.node none name.comps).2, []⟩⟩
    · refine .nil fun g hg => ?_
      split at hg
      · dsimp only at hg
        split at hg
        · cases hg
          rfl
        · obtain ⟨p, -, hg⟩ := bind_eq_ok.mp hg
          cases hg
          split <;> rfl
      · cases hg
        rfl

theorem entries_mark (ht : h.app.pendingContentTable[i]? = some t) :
    (h.mark d i t).app.entries = h.app.entries := by
  funext s
  obtain ⟨hi, rfl⟩ := List.getElem?_eq_some_iff.mp ht
  have hmem : h.app.pendingContentTable[i] ∈ h.app.pendingContentTable := List.getElem_mem hi
  have hsame : ((h.app.pendingContentTable[i]).setArg d true).same s =
      (h.app.pendingContentTable[i]).same s := rfl
  have hcount : (h.app.pendingContentTable.set i ((h.app.pendingContentTable[i]).setArg d true)).countP
      (fun e => e.same s) = h.app.pendingContentTable.countP fun e => e.same s := by
    rw [List.countP_set hi, hsame]
    split_ifs with hs
    · exact Nat.sub_add_cancel (List.countP_pos_iff.mpr ⟨_, hmem, hs⟩)
    · rfl
  exact hcount

theorem setPending_recorded (ht : h.app.pendingContentTable[i]? = some t) :
    Recorded h.app.entries ((h.pendingCalls now cs d i t).filterMap Call.moment)
      (h.setPending now cs d i t) := by
  unfold pendingCalls setPending
  dsimp only
  by_cases hw : t.pendingArgs.lookup d = some false
  · rw [if_pos hw]
    by_cases hall : (t.setArg d true).pendingArgs.all (fun q => q.2) = true
    · rw [if_pos ⟨hw, hall⟩, if_pos hall]
      have hone := call_recorded ⟨h.mark d i t, now, cs, t.setArg d true⟩
      rw [entries_mark ht] at hone
      exact hone
    · rw [if_neg fun hc => hall hc.2, if_neg hall]
      refine .nil fun g hg => ?_
      cases hg
      exact entries_mark (d := d) ht
  · rw [if_neg fun hc => hw hc.1, if_neg hw]
    refine .nil fun g hg => ?_
    cases hg
    rfl

theorem visitEntry_recorded :
    Recorded h.app.entries (h.entryMoments now cs d i) (h.visitEntry now cs d i) := by
  unfold entryMoments visitEntry
  rcases ht : h.app.pendingContentTable[i]? with _ | t
  · exact .nil nofun
  dsimp only
  split_ifs with hkey
  · rcases hc : h.codeDrag d t with e | ⟨g, goOn⟩
    · exact .nil nofun
    · obtain ⟨-, ⟨happ, rfl⟩ | ⟨happ, rfl⟩⟩ := codeDrag_cases hc
      · rw [← happ]
        exact setPending_recorded (by rw [happ, ht])
      · refine .one (funext fun s => entries_eraseP (t := t) ?_) fun g' hg' => ?_
        · rw [happ]
          rfl
        · cases hg'
          rfl
  · refine .nil fun g hg => ?_
    cases hg
    rfl

theorem visitEntries_recorded {cs : ℕ → ContentStore} :
    Recorded h.app.entries (entriesMoments now cs d i h) (visitEntries now cs d i h) := by
  induction i generalizing h with
  | zero =>
    refine .nil fun g hg => ?_
    cases hg
    rfl
  | succ i ih => exact visitEntry_recorded.seq fun g _ => ih

theorem queue_recorded {k : ℕ} :
    Recorded h.app.entries (h.queueMoments now k) (h.step (.executionEnd now k)) := by
  unfold queueMoments
  rcases hs : h.step (.executionEnd now k) with e | g
  · exact .nil nofun
  · obtain ⟨e, g', -, -, ⟨hnone, rfl⟩ | ⟨t, rest, -, hone, hd⟩⟩ := executionEnd_started hs
    · rw [hnone]
      refine .nil fun g hg => ?_
      cases hg
      rfl
    · rw [hone]
      refine .one (funext fun s => entries_eraseP (Host.doExecution_app hd).2) fun g' hg' => ?_
      cases hg'
      rfl

/-- **One event.** -/
theorem sharedStep_recorded (e : SharedEvent) :
    Recorded h.app.entries (h.moments e) (h.sharedStep e) := by
  have hstay : ∀ g : Host, g.app = h.app → ∀ g', (.ok g : Except Fault Host) = .ok g' →
      g'.app.entries = h.app.entries := by
    rintro g hg g' ⟨⟩
    rw [hg]
  cases e with
  | node n => exact .nil (hstay ⟨n, h.app⟩ rfl)
  | app e =>
    cases e with
    | interest now cs name => exact onInterest_recorded
    | executionEnd now k => exact queue_recorded
    | data now cs d =>
      unfold moments sharedStep step onData
      dsimp only
      by_cases hactive : h.app.active = true
      · rw [if_pos hactive, if_neg (by simp [hactive])]
        exact visitEntries_recorded (h := h.received d)
      · rw [if_neg hactive, if_pos (by simp [hactive])]
        exact .nil (hstay h rfl)

/-! ## Runs -/

/-- **The table follows the history.** -/
theorem history_counted (h : Host) (es : List SharedEvent) : Counted h.app.entries (h.history es) := by
  induction es generalizing h with
  | nil => trivial
  | cons e es ih =>
    have hevent := sharedStep_recorded (h := h) e
    refine hevent.counted.append ?_
    split
    · next g hg =>
      rw [← hevent.final g hg]
      exact ih g
    · trivial

/-- The entries that are left when a life ends. -/
theorem end_clean_iff {es : List SharedEvent} (hp : ms ++ [m] <+: h.history es)
    (hend : m.deed.ends = true) :
    ¬ m.after.Pending m.ics ↔ unsettled ms m.ics (h.app.entries m.ics) ≤ m.deed.cleans := by
  have hself : m.ics.same m.ics = true := beq_self_eq_true _
  have hdeed : m.deed ≠ .fetched := by
    intro hfetched
    rw [hfetched] at hend
    cases hend
  rw [← entries_eq_zero, (history_counted h es).after hp]
  dsimp only
  rw [Moment.settle, if_pos hself, Deed.settle, if_neg hdeed, Nat.sub_eq_zero_iff_le]

/-- **A finished interest leaves nothing behind** exactly when no end meets more unsettled fetches
than it cleans up. -/
theorem leavesNothing_iff (h : Host) (es : List SharedEvent) :
    h.LeavesNothing es ↔ h.SettlesFetches es := by
  constructor
  · intro hleft ms m hp hend
    exact (end_clean_iff hp hend).mp (hleft m (hp.subset (by simp)) hend)
  · intro hsettles m hm hend
    obtain ⟨ms, rest, heq⟩ := List.append_of_mem hm
    have hp : ms ++ [m] <+: h.history es := ⟨rest, by rw [heq, List.append_assoc]; rfl⟩
    exact (end_clean_iff hp hend).mpr (hsettles ms m hp hend)

/-! ## Interests that are resolved again -/

/-- A NACK and a forward leave the entry that `OnData` has resolved. -/
theorem pendingMoments_left {t : InterestComponentStruct}
    (ht : h.app.pendingContentTable[i]? = some t)
    (hm : m ∈ (h.pendingCalls now cs d i t).filterMap Call.moment)
    (hdeed : m.deed = .nacked ∨ m.deed = .forwarded) : m.after.Pending m.ics := by
  obtain ⟨c, hc, hcm⟩ := List.mem_filterMap.mp hm
  have hpending : c.host.app.Pending c.ics := by
    unfold pendingCalls at hc
    split at hc
    · cases List.mem_singleton.mp hc
      obtain ⟨hi, -⟩ := List.getElem?_eq_some_iff.mp ht
      exact ⟨t.setArg d true, List.mem_set hi _, beq_self_eq_true _⟩
    · cases hc
  unfold Call.moment at hcm
  split at hcm
  · next x g hx hg =>
    cases hcm
    have hentries := call_entries hg
    rw [hx] at hentries
    have hstay : g.app.entries c.ics = c.host.app.entries c.ics := by
      have hone := congrFun hentries c.ics
      rcases hdeed with hdeed | hdeed <;>
      · dsimp only at hdeed
        subst hdeed
        exact hone.trans (ite_self _)
    exact entries_pos.mp (hstay ▸ entries_pos.mpr hpending)
  · cases hcm

theorem entriesMoments_left {cs : ℕ → ContentStore} (hm : m ∈ entriesMoments now cs d i h)
    (hdeed : m.deed = .nacked ∨ m.deed = .forwarded) : m.after.Pending m.ics := by
  induction i generalizing h with
  | zero => cases hm
  | succ i ih =>
    rcases List.mem_append.mp hm with hm | hm
    · unfold entryMoments at hm
      split at hm
      · cases hm
      · next t ht =>
        split at hm
        · split at hm
          · next g hg =>
            obtain ⟨-, ⟨happ, -⟩ | ⟨-, hfalse⟩⟩ := codeDrag_cases hg
            · exact pendingMoments_left (by rw [happ, ht]) hm hdeed
            · cases hfalse
          · cases List.mem_singleton.mp hm
            rcases hdeed with hdeed | hdeed <;> cases hdeed
          · cases hm
        · cases hm
    · split at hm
      · exact ih hm
      · cases hm

/-- **An interest that `OnData` resolves again** has its entry: a NACK or a forward leaves it there. -/
theorem data_forwarded_pending {cs : ℕ → ContentStore} (hm : m ∈ h.moments (.app (.data now cs d)))
    (hdeed : m.deed = .nacked ∨ m.deed = .forwarded) : m.after.Pending m.ics := by
  unfold moments at hm
  dsimp only at hm
  split at hm
  · exact entriesMoments_left hm hdeed
  · cases hm

end Host

/-- Each of the two parameters is missing once: the second fetch makes a second entry. -/
def fetchedTwice : List SharedEvent :=
  [.app (.interest 0 (fun j _ => j != 0) (applied "a".toList "b".toList)),
   .app (.data 0 (fun _ j _ => j == 0) (dataName ⟨["a".toList]⟩)),
   .app (.data 0 (fun _ _ _ => true) (dataName ⟨["b".toList]⟩))]

/-- The interest starts and one of its two entries stays. -/
theorem leavesNothing_fails : ¬ ∀ es, twoParams.LeavesNothing es := by
  intro hall
  have hlast : ∃ m ∈ twoParams.history fetchedTwice,
      m.deed = .started ∧ m.after.Pending m.ics := by
    decide
  obtain ⟨m, hm, hstarted, hleft⟩ := hlast
  exact hall fetchedTwice m hm (by rw [hstarted]; rfl) hleft

end IncSim
