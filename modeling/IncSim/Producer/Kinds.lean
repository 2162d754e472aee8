import IncSim.Producer.Excluded

/-!
# The kind of an answer

`OnData` takes an answer for a code drag when its URI contains `/Function`.

* `draggedFunction`: the call of `EnableFunction`; `codeDrag_eq`: code drag is that call.
* `contains_dataName`, `contains_functionName`: where `/Function` occurs in the two kinds of names.
* `TakenAsData`: a round that takes the answer as data; `takenAsData_iff`.
* `enabled_functionName`: what the answer to a code drag enables.
* **`answers_by_kind`**: data is taken as data exactly when its name does not begin with `Function`,
  and a function that is brought is enabled, and no other.
-/

namespace IncSim

open PartialRun ComputeNode

/-- The function that `OnData` hands to `EnableFunction`, if it calls it. -/
def draggedFunction (d : Name) : Option Str :=
  if Str.contains d.toUri "/Function".toList then some (d.getSubName 1 1).toUri else none

theorem toList_slashFunction : "/Function".toList = '/' :: functionComp := rfl

/-- The URI of plain data contains `/Function` exactly when its name begins with it. -/
theorem contains_dataName {d : Str} (hd : '/' ∉ d) :
    Str.contains (dataName ⟨[d]⟩).toUri "/Function".toList = true ↔ functionComp <+: d := by
  have hdata : ¬ functionComp <+: dataComp := by decide
  have hfree : ∀ c ∈ (dataName ⟨[d]⟩).comps, '/' ∉ c := by
    intro c hc
    rcases List.mem_cons.mp hc with rfl | hc
    · decide
    · rw [List.mem_singleton.mp hc]
      exact hd
  have hne : functionComp ≠ [] := by decide
  rw [toList_slashFunction, Name.contains_toUri (by decide) hne hfree]
  constructor
  · rintro ⟨c, hc, hp⟩
    rcases List.mem_cons.mp hc with rfl | hc
    · exact absurd hp hdata
    · exact List.mem_singleton.mp hc ▸ hp
  · exact fun hp => ⟨d, List.mem_cons_of_mem _ List.mem_cons_self, hp⟩

theorem contains_functionName (f : Str) :
    Str.contains (functionName ⟨[f]⟩).toUri "/Function".toList = true := by
  have huri : (functionName ⟨[f]⟩).toUri = "/Function".toList ++ '/' :: f := by
    show (⟨[functionComp, f]⟩ : Name).toUri = _
    rw [Name.toUri_of_ne_nil (List.cons_ne_nil _ _), toList_slashFunction]
    simp
  rw [Str.contains_iff, huri]
  exact (List.prefix_append _ _).isInfix

namespace Host

variable {h h' g : Host} {t : InterestComponentStruct} {now : Time} {cs : ℕ → ContentStore} {d : Name}
  {i k : ℕ}

theorem brings_functionName {f k : Str} : Brings (functionName ⟨[f]⟩) k ↔ k = funcKey f := by
  have hkey : ((functionName ⟨[f]⟩).getSubName 1 1).toUri = funcKey f := Name.toUri_singleton f
  rw [Brings, hkey, and_iff_right (contains_functionName f), eq_comm]

/-- Code drag is the call of `EnableFunction`, and what follows it. -/
theorem codeDrag_eq (h : Host) (d : Name) (t : InterestComponentStruct) :
    h.codeDrag d t =
      match draggedFunction d with
      | none => .ok (h, true)
      | some func => h.node.enableFunction func >>= fun q =>
        if q.2 then .ok (⟨q.1, h.app⟩, true)
        else .ok (⟨q.1, h.app.deletePendingContentTableEntry t⟩, false) := by
  unfold codeDrag draggedFunction
  split <;> rfl

/-- The round takes the answer as data: `EnableFunction` is not called, the flag of the entry is set,
and the entry is resolved when no other flag is down. -/
def TakenAsData (g : Host) (now : Time) (cs : ContentStore) (d : Name) (i : ℕ)
    (t : InterestComponentStruct) : Prop :=
  draggedFunction d = none ∧
    g.visitEntry now cs d i =
      if (t.setArg d true).pendingArgs.all (fun q => q.2) then
        (g.mark d i t).resolveAndHandleDecisions now cs (t.setArg d true)
      else .ok (g.mark d i t)

theorem any_of_waitsFor (hw : t.waitsFor d) : (t.pendingArgs.any fun q => q.1 = d) = true := by
  rw [← Assoc.lookup_isSome, hw]
  rfl

/-- An entry that waits for data gets it exactly when the name does not look like a function. -/
theorem takenAsData_iff {cs : ContentStore} (ht : g.app.pendingContentTable[i]? = some t)
    (hw : t.waitsFor d) : g.TakenAsData now cs d i t ↔ draggedFunction d = none := by
  refine and_iff_left_of_imp fun hnone => ?_
  unfold visitEntry
  rw [ht]
  dsimp only
  rw [if_pos (any_of_waitsFor hw), codeDrag_eq, hnone]
  exact if_pos hw

/-! ## The visited entries -/

/-- Round `k` of the loop that runs the rounds `i - 1, ..., 0` from `h` begins in `g`. -/
inductive RoundAt (now : Time) (cs : ℕ → ContentStore) (d : Name) : ℕ → Host → ℕ → Host → Prop
  | here {i : ℕ} {h : Host} : RoundAt now cs d (i + 1) h i h
  | next {i k : ℕ} {h g h' : Host} (hv : h.visitEntry now (cs i) d i = .ok g)
      (hr : RoundAt now cs d i g k h') : RoundAt now cs d (i + 1) h k h'

/-- Round `k` of the loop of `OnData` for `d` begins in `g` and visits the entry `t`, which waits for
`d`. -/
structure Visits (h : Host) (now : Time) (cs : ℕ → ContentStore) (d : Name) (k : ℕ) (g : Host)
    (t : InterestComponentStruct) : Prop where
  active : h.app.active = true
  round : RoundAt now cs d h.app.pendingContentTable.length (h.received d) k g
  entry : g.app.pendingContentTable[k]? = some t
  waits : t.waitsFor d

/-- A round that visits an entry with the data among its arguments comes after a start with one. -/
theorem exists_key_of_roundAt (hr : RoundAt now cs d i h k g)
    (ht : g.app.pendingContentTable[k]? = some t)
    (hkey : (t.pendingArgs.any fun q => q.1 = d) = true) :
    ∃ j < i, ∃ t, h.app.pendingContentTable[j]? = some t ∧
      (t.pendingArgs.any fun q => q.1 = d) = true := by
  induction hr with
  | @here i h => exact ⟨i, Nat.lt_succ_self i, t, ht, hkey⟩
  | @next i k h g h' hv hr ih =>
    obtain ⟨e, he, ⟨-, rfl⟩ | ⟨hkey', -⟩⟩ := visitEntry_cases hv
    · obtain ⟨j, hj, hmet⟩ := ih ht
      exact ⟨j, Nat.lt_succ_of_lt hj, hmet⟩
    · exact ⟨i, Nat.lt_succ_self i, e, he, hkey'⟩

/-- **The answer to a code drag** enables its function, and no other. -/
theorem enabled_functionName {f : Str} {c : IncComputation}
    (ho : h.onData now cs (functionName ⟨[f]⟩) = .ok h')
    (hv : h.Visits now cs (functionName ⟨[f]⟩) k g t)
    (hf : h.node.deref (some (funcKey f)) = .ok c) (p : Str) :
    h'.node.Enabled p ↔ h.node.Enabled p ∨ p = funcKey f := by
  obtain ⟨j, -, t', ht', hkey'⟩ := exists_key_of_roundAt hv.round hv.entry (any_of_waitsFor hv.waits)
  have hmet : ∃ t ∈ h.app.pendingContentTable,
      (t.pendingArgs.any fun q => q.1 = functionName ⟨[f]⟩) = true :=
    ⟨t', List.mem_of_getElem? ht', hkey'⟩
  rw [onData_enabled ho, and_iff_right hv.active, and_iff_right hmet, Dragged, brings_functionName]
  refine or_congr_right (and_iff_left_of_imp ?_)
  rintro rfl
  exact ⟨c, hf⟩

end Host

/-- **Answers by their kind.** An entry that waits for plain data takes it as data exactly when its
name does not begin with `Function`; the answer to a code drag enables its function, if the node has
it and a visited entry waits for it, and no other. -/
theorem answers_by_kind (h : Host) (now : Time) (cs : ℕ → ContentStore) :
    (∀ (d : Str) (k : ℕ) (g : Host) (t : InterestComponentStruct), '/' ∉ d →
      h.Visits now cs (dataName ⟨[d]⟩) k g t →
        (g.TakenAsData now (cs k) (dataName ⟨[d]⟩) k t ↔ ¬ functionComp <+: d)) ∧
    ∀ (f : Str) (c : IncComputation) (k : ℕ) (g : Host) (t : InterestComponentStruct) (h' : Host),
      h.onData now cs (functionName ⟨[f]⟩) = .ok h' →
      h.Visits now cs (functionName ⟨[f]⟩) k g t →
      h.node.deref (some (funcKey f)) = .ok c →
        ∀ p, h'.node.Enabled p ↔ h.node.Enabled p ∨ p = funcKey f := by
  refine ⟨fun d k g t hd hv => ?_, fun f c k g t h' ho hv hf => Host.enabled_functionName ho hv hf⟩
  rw [Host.takenAsData_iff hv.entry hv.waits, draggedFunction, ← contains_dataName hd]
  split
  · next hc => exact iff_of_false (Option.some_ne_none _) (not_not.mpr hc)
  · next hc => exact iff_of_true rfl hc

/-! ## Data that looks like a function -/

/-- An interest whose first parameter `x` is missing. -/
def missesFirst (x : Str) : List Event :=
  [.interest 0 (fun j _ => j != 0) (applied x "b".toList)]

theorem visits_missesFirst : ∃ h t, run Host.step twoParams (missesFirst "a".toList) = .ok h ∧
    h.Visits 0 (fun _ _ _ => true) (dataName ⟨["a".toList]⟩) 0
      (h.received (dataName ⟨["a".toList]⟩)) t :=
  ⟨_, _, rfl, rfl, .here, rfl, rfl⟩

/-- Data with the name `Functionx` is taken for a code drag, and the entry that waits for it is
dropped. -/
theorem takenAsData_fails :
    ¬ ∀ (h : Host) (now : Time) (cs : ℕ → ContentStore) (d : Str) (k : ℕ) (g : Host)
      (t : InterestComponentStruct), '/' ∉ d → h.Visits now cs (dataName ⟨[d]⟩) k g t →
        g.TakenAsData now (cs k) (dataName ⟨[d]⟩) k t := by
  intro hall
  have hvisit : ∃ h t, run Host.step twoParams (missesFirst "Functionx".toList) = .ok h ∧
      h.Visits 0 (fun _ _ _ => true) (dataName ⟨["Functionx".toList]⟩) 0
        (h.received (dataName ⟨["Functionx".toList]⟩)) t := ⟨_, _, rfl, rfl, .here, rfl, rfl⟩
  obtain ⟨h, t, -, hv⟩ := hvisit
  have hnone := (hall h 0 _ _ 0 _ t (by decide) hv).1
  revert hnone
  decide

theorem answers_by_kind_missesFirst :
    ∃ h t, run Host.step twoParams (missesFirst "a".toList) = .ok h ∧
      (h.received (dataName ⟨["a".toList]⟩)).TakenAsData 0 (fun _ _ => true)
        (dataName ⟨["a".toList]⟩) 0 t := by
  obtain ⟨h, t, hrun, hv⟩ := visits_missesFirst
  exact ⟨h, t, hrun, ((answers_by_kind h 0 fun _ _ _ => true).1 _ 0 _ t (by decide) hv).mpr (by decide)⟩

end IncSim
