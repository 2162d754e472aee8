import Mathlib.Algebra.Group.Nat.Defs
import Mathlib.Logic.Basic
import IncSim.Consumer.BaseApp

/-!
# Outstanding requests

Runs of a consumer, with the log of what it sends and of the Data that reaches it.

* `Obs`, `sentTimes`, `Answered`: the log, when a number was sent, and whether Data came for it
  afterwards.
* `Event`, `Watch`, `step`, `runFrom`: the handlers in any order.
* `Tracked`: every number that was sent is answered, or waits in one of two containers, with its
  statistics.
* `Entry.Fits`, `Fits.sent`, `Fits.expired`, `fits_data`: what the containers hold of one number, given
  the log, and what one event does to it.
* `Inv`, `Inv.transmit`, `Inv.step`: the invariant, kept by one transmission and by one event.
* **`tracked_run`**: every state is tracked, the transmissions being counted in 32 bits.
* `repeated_rounds`, **`retxCount_wraps`**: one number, sent `2 ^ 32` times.
-/

namespace IncSim

open scoped SequenceNumber

namespace IncConsumerBaseApp

/-! ## The log -/

/-- What passes the face of the app. -/
inductive Obs
  | sent (seq : UInt32) (now : Time)
  | data (seq : UInt32) (now : Time)

/-- The times at which an Interest for `k` was sent. -/
def sentTimes (k : UInt32) (h : List Obs) : List Time :=
  h.filterMap fun
    | .sent seq now => if seq = k then some now else none
    | .data _ _ => none

/-- Data for `k` has come after it was sent. -/
def Answered (k : UInt32) (h : List Obs) : Prop :=
  ∃ h₁ now h₂, h = h₁ ++ .data k now :: h₂ ∧ sentTimes k h₁ ≠ []

/-! ## Runs -/

inductive Event
  | sendPacket (now : Time)
  | checkRetxTimeout (now rto : Time)
  | onData (now : Time) (seq : UInt32)

/-- A consumer with its log and the number of new sequence numbers that it has taken. -/
structure Watch where
  app : IncConsumerBaseApp
  history : List Obs
  fresh : ℕ

namespace Watch

/-- One event. -/
def step (w : Watch) : Event → Watch
  | .sendPacket now =>
    let p := w.app.sendPacket now
    { app := p.1
      history := w.history ++ (p.2.map fun seq => Obs.sent seq now).toList
      fresh := w.fresh + if p.1.seq = w.app.seq then 0 else 1 }
  | .checkRetxTimeout now rto => { w with app := w.app.checkRetxTimeout now rto }
  | .onData now seq =>
    { w with app := (w.app.onData now seq).1, history := w.history ++ [.data seq now] }

/-- A run of an active consumer from sequence number `s₀`. -/
def runFrom (s₀ maxSeq : UInt32) (es : List Event) : Watch :=
  es.foldl step ⟨started s₀ maxSeq, [], 0⟩

/-- Every outstanding request is tracked once. The counters are `uint32_t`. -/
structure Tracked (s₀ : UInt32) (w : Watch) : Prop where
  sent : ∀ k, sentTimes k w.history ≠ [] ↔ s₀ ≤ k ∧ k < w.app.seq
  outstanding : ∀ k, s₀ ≤ k → k < w.app.seq → ¬ Answered k w.history →
    Xor ((w.app.seqTimeouts.find? k).isSome = true) ((w.app.retxSeqs.find? k).isSome = true)
  answered : ∀ k, Answered k w.history →
    w.app.seqTimeouts.find? k = none ∧ w.app.retxSeqs.find? k = none
  once : ∀ k h₁ now h₂, w.history = h₁ ++ .sent k now :: h₂ → ¬ Answered k h₁
  counted : ∀ k, s₀ ≤ k → k < w.app.seq → ¬ Answered k w.history →
    w.app.seqRetxCounts.find? k = some (UInt32.ofNat (sentTimes k w.history).length)
  first : ∀ k, s₀ ≤ k → k < w.app.seq → ¬ Answered k w.history →
    w.app.seqFullDelay.find? k = (sentTimes k w.history).head?
  last : ∀ k, s₀ ≤ k → k < w.app.seq → ¬ Answered k w.history →
    w.app.seqLastDelay.find? k = (sentTimes k w.history).getLast?

end Watch

variable {k seq : UInt32} {h h₁ h₂ : List Obs} {now : Time} {e : Entry}

/-! ## One observation more -/

theorem sentTimes_concat_self : sentTimes k (h ++ [.sent k now]) = sentTimes k h ++ [now] := by
  simp [sentTimes]

theorem sentTimes_concat_ne (hk : k ≠ seq) :
    sentTimes k (h ++ [.sent seq now]) = sentTimes k h := by
  simp [sentTimes, Ne.symm hk]

@[simp] theorem sentTimes_concat_data : sentTimes k (h ++ [.data seq now]) = sentTimes k h := by
  simp [sentTimes]

/-- An observation stands last, or before the last one. -/
theorem concat_eq_cases {o x : Obs} (heq : h ++ [o] = h₁ ++ x :: h₂) :
    (h = h₁ ∧ o = x) ∨ ∃ h₃, h = h₁ ++ x :: h₃ := by
  rcases List.eq_nil_or_concat h₂ with rfl | ⟨h₃, y, rfl⟩
  · obtain ⟨hh, ho⟩ := List.append_inj' heq rfl
    exact Or.inl ⟨hh, List.singleton_inj.mp ho⟩
  · have heq : h ++ [o] = (h₁ ++ x :: h₃) ++ [y] := by rw [heq]; simp
    exact Or.inr ⟨h₃, (List.append_inj' heq rfl).1⟩

theorem Answered.ne_nil (ha : Answered k h) : sentTimes k h ≠ [] := by
  obtain ⟨h₁, now, h₂, rfl, hne⟩ := ha
  intro hnil
  rw [sentTimes, List.filterMap_append] at hnil
  exact hne (List.append_eq_nil_iff.mp hnil).1

theorem answered_concat_sent : Answered k (h ++ [.sent seq now]) ↔ Answered k h := by
  constructor
  · rintro ⟨h₁, t, h₂, heq, hne⟩
    rcases concat_eq_cases heq with ⟨-, hx⟩ | ⟨h₃, rfl⟩
    · cases hx
    · exact ⟨h₁, t, h₃, rfl, hne⟩
  · rintro ⟨h₁, t, h₂, rfl, hne⟩
    exact ⟨h₁, t, h₂ ++ [.sent seq now], by simp, hne⟩

theorem answered_concat_data : Answered k (h ++ [.data seq now]) ↔
    Answered k h ∨ seq = k ∧ sentTimes k h ≠ [] := by
  constructor
  · rintro ⟨h₁, t, h₂, heq, hne⟩
    rcases concat_eq_cases heq with ⟨rfl, hx⟩ | ⟨h₃, rfl⟩
    · cases hx
      exact Or.inr ⟨rfl, hne⟩
    · exact Or.inl ⟨h₁, t, h₃, rfl, hne⟩
  · rintro (⟨h₁, t, h₂, rfl, hne⟩ | ⟨rfl, hne⟩)
    · exact ⟨h₁, t, h₂ ++ [.data seq now], by simp, hne⟩
    · exact ⟨h, now, [], rfl, hne⟩

/-! ## One sequence number -/

/-- What the containers hold of a number, given the log: nothing before it is sent and after it is
answered. -/
structure Entry.Fits (k : UInt32) (h : List Obs) (e : Entry) : Prop where
  gone : sentTimes k h = [] ∨ Answered k h → e = .gone
  place : sentTimes k h ≠ [] → ¬ Answered k h → (e.timeout = none ↔ e.retx = true)
  retxCount : sentTimes k h ≠ [] → ¬ Answered k h →
    e.retxCount = some (UInt32.ofNat (sentTimes k h).length)
  fullDelay : sentTimes k h ≠ [] → ¬ Answered k h → e.fullDelay = (sentTimes k h).head?
  lastDelay : sentTimes k h ≠ [] → ¬ Answered k h → e.lastDelay = (sentTimes k h).getLast?

namespace Entry

/-- A number that is in no container. -/
theorem Fits.of_gone (hg : sentTimes k h = [] ∨ Answered k h) : Fits k h .gone := by
  have hno : sentTimes k h ≠ [] → ¬ Answered k h → False := fun hne hans => hg.elim hne hans
  exact ⟨fun _ => rfl, fun hne hans => (hno hne hans).elim, fun hne hans => (hno hne hans).elim,
    fun hne hans => (hno hne hans).elim, fun hne hans => (hno hne hans).elim⟩

/-- A number in some container has been sent, and is not answered. -/
theorem Fits.open_of_ne (hf : Fits k h e) (he : e ≠ .gone) : sentTimes k h ≠ [] ∧ ¬ Answered k h :=
  ⟨fun hnil => he (hf.gone (Or.inl hnil)), fun hans => he (hf.gone (Or.inr hans))⟩

/-- **An Interest** for a number without a timeout: a new one, or one that was to be retransmitted. -/
theorem Fits.sent (hf : Fits k h e) (hans : ¬ Answered k h) (hnone : e.timeout = none)
    (now : Time) : Fits k (h ++ [.sent k now]) (e.taken.sent now) := by
  have hne : sentTimes k (h ++ [.sent k now]) ≠ [] := by simp [sentTimes_concat_self]
  have hans' : ¬ Answered k (h ++ [.sent k now]) := fun ha => hans (answered_concat_sent.mp ha)
  refine ⟨fun hg => (hg.elim hne hans').elim, fun _ _ => ?_, fun _ _ => ?_, fun _ _ => ?_,
    fun _ _ => ?_⟩
  · simp [Entry.sent, Entry.taken]
  · by_cases hnil : sentTimes k h = []
    · obtain rfl := hf.gone (Or.inl hnil)
      rw [sentTimes_concat_self, hnil]
      rfl
    · simp only [Entry.sent, Entry.taken, sentTimes_concat_self, hf.retxCount hnil hans,
        Option.getD_some, List.length_append, List.length_singleton, UInt32.ofNat_add]
      rfl
  · by_cases hnil : sentTimes k h = []
    · obtain rfl := hf.gone (Or.inl hnil)
      rw [sentTimes_concat_self, hnil]
      rfl
    · obtain ⟨t, l, hcons⟩ := List.exists_cons_of_ne_nil hnil
      simp [Entry.sent, Entry.taken, sentTimes_concat_self, hf.fullDelay hnil hans, hcons]
  · simp [Entry.sent, Entry.taken, sentTimes_concat_self]

/-- **A timeout** that expires moves the number to the ones to be retransmitted. -/
theorem Fits.expired (hf : Fits k h e) {time : Time} (htime : e.timeout = some time) :
    Fits k h e.expired := by
  have he : e ≠ .gone := by
    rintro rfl
    cases htime
  obtain ⟨hne, hans⟩ := hf.open_of_ne he
  exact ⟨fun hg => (hg.elim hne hans).elim, fun _ _ => iff_of_true rfl rfl, hf.retxCount,
    hf.fullDelay, hf.lastDelay⟩

/-- **Data** takes the number out of all containers. -/
theorem fits_data : Fits k (h ++ [.data k now]) .gone := by
  refine Fits.of_gone ?_
  rw [sentTimes_concat_data, answered_concat_data]
  by_cases hnil : sentTimes k h = []
  · exact Or.inl hnil
  · exact Or.inr (Or.inr ⟨rfl, hnil⟩)

/-- Only what concerns the number counts. -/
theorem Fits.congr (hf : Fits k h e) {h' : List Obs} (ht : sentTimes k h' = sentTimes k h)
    (ha : Answered k h' ↔ Answered k h) : Fits k h' e := by
  obtain ⟨hgone, hplace, hcount, hfull, hlast⟩ := hf
  rw [← ht, ← ha] at hgone hplace hcount hfull hlast
  exact ⟨hgone, hplace, hcount, hfull, hlast⟩

end Entry

/-! ## The invariant -/

namespace Watch

/-- The invariant of a run from `s₀`. -/
structure Inv (s₀ : UInt32) (w : Watch) : Prop where
  active : w.app.active = true
  seq : w.app.seq.toNat = s₀.toNat + w.fresh
  sent : ∀ k, sentTimes k w.history ≠ [] ↔ s₀ ≤ k ∧ k < w.app.seq
  fits : ∀ k, (w.app.entry k).Fits k w.history
  once : ∀ k h₁ now h₂, w.history = h₁ ++ .sent k now :: h₂ → ¬ Answered k h₁

variable {s₀ maxSeq : UInt32} {w : Watch} {app : IncConsumerBaseApp} {fresh : ℕ}

theorem inv_start : Inv s₀ ⟨started s₀ maxSeq, [], 0⟩ where
  active := rfl
  seq := rfl
  sent k := by
    refine iff_of_false (fun hne => hne rfl) fun hk => ?_
    exact absurd hk.2 (not_lt_of_ge hk.1)
  fits k := Entry.Fits.of_gone (Or.inl rfl)
  once k h₁ now h₂ heq := absurd heq (by simp)

/-- **A transmission** of a number that is not answered and waits for no timeout. -/
theorem Inv.transmit (hi : Inv s₀ w) (app : IncConsumerBaseApp) (hactive : app.active = true)
    (hentry : ∀ k, app.entry k = if k = seq then (w.app.entry k).taken else w.app.entry k)
    (hans : ¬ Answered seq w.history) (hnone : (w.app.entry seq).timeout = none)
    (hseq : app.seq.toNat = s₀.toNat + fresh)
    (hsent : ∀ k, sentTimes k w.history ≠ [] ∨ k = seq ↔ s₀ ≤ k ∧ k < app.seq) (now : Time) :
    Inv s₀ ⟨app.willSendOutInterest now seq, w.history ++ [.sent seq now], fresh⟩ where
  active := hactive
  seq := hseq
  sent k := by
    refine Iff.trans ?_ (hsent k)
    by_cases hk : k = seq
    · subst hk
      simp [sentTimes_concat_self]
    · rw [sentTimes_concat_ne hk, or_iff_left hk]
  fits k := by
    rw [entry_willSendOutInterest, hentry]
    by_cases hk : k = seq
    · subst hk
      rw [if_pos rfl, if_pos rfl]
      exact (hi.fits k).sent hans hnone now
    · rw [if_neg hk, if_neg hk]
      exact (hi.fits k).congr (sentTimes_concat_ne hk) answered_concat_sent
  once k h₁ t h₂ heq := by
    rcases concat_eq_cases heq with ⟨hh, hx⟩ | ⟨h₃, hh⟩
    · cases hx
      exact hh ▸ hans
    · exact hi.once k h₁ t h₃ hh

/-- The last number is never sent, so that `SendPacket` does not take it for an invalid one. -/
theorem Inv.max_gone (hi : Inv s₀ w) : w.app.entry SequenceNumber.max = .gone := by
  refine (hi.fits _).gone (Or.inl ?_)
  by_contra hne
  exact SequenceNumber.ne_max_of_lt ((hi.sent _).mp hne).2 rfl

theorem step_sendPacket {o : Option UInt32} (hp : w.app.sendPacket now = (app, o)) :
    w.step (.sendPacket now) =
      { app := app, history := w.history ++ (o.map fun seq => Obs.sent seq now).toList
        fresh := w.fresh + if app.seq = w.app.seq then 0 else 1 } := by
  simp only [step, hp]

theorem Inv.sendPacket (hi : Inv s₀ w) (now : Time)
    (hfresh : (w.step (.sendPacket now)).fresh < 2 ^ 32 - 1 - s₀.toNat) :
    Inv s₀ (w.step (.sendPacket now)) := by
  have hmax : (w.app.entry SequenceNumber.max).retx = false := by rw [hi.max_gone]; rfl
  rcases sendPacket_cases hi.active hmax now with ⟨seq, hretx, hp⟩ | hp | hp
  · -- a number that is to be retransmitted
    have hne : w.app.entry seq ≠ .gone := by
      intro hgone
      rw [hgone] at hretx
      cases hretx
    obtain ⟨hsent, hans⟩ := (hi.fits seq).open_of_ne hne
    rw [step_sendPacket hp, seq_willSendOutInterest, if_pos rfl]
    refine hi.transmit { w.app with retxSeqs := w.app.retxSeqs.erase seq } hi.active
      (entry_erase_retx _ _) hans
      (((hi.fits seq).place hsent hans).mpr hretx) hi.seq (fun k => ?_) now
    rw [← hi.sent k]
    exact or_iff_left_of_imp fun hk => hk ▸ hsent
  · -- a new number
    have hnew : sentTimes w.app.seq w.history = [] := by
      by_contra hne
      exact lt_irrefl _ ((hi.sent _).mp hne).2
    have hgone := (hi.fits w.app.seq).gone (Or.inl hnew)
    have hne := SequenceNumber.succ_ne w.app.seq
    rw [step_sendPacket hp, seq_willSendOutInterest, if_neg hne] at hfresh ⊢
    dsimp only at hfresh
    have hseq := hi.seq
    have hsucc : (w.app.seq + 1).toNat = w.app.seq.toNat + 1 := by
      rw [UInt32.toNat_add, UInt32.toNat_one]
      exact Nat.mod_eq_of_lt (by omega)
    refine hi.transmit { w.app with seq := w.app.seq + 1 } hi.active (fun k => ?_)
      (fun hans => hans.ne_nil hnew)
      (by rw [hgone]; rfl) (hsucc.trans (by rw [hseq]; rfl)) (fun k => ?_) now
    · split_ifs with hk
      · subst hk
        rw [hgone]
        exact hgone
      · rfl
    · rw [hi.sent k, ← UInt32.toNat_inj]
      simp only [UInt32.le_iff_toNat_le, UInt32.lt_iff_toNat_lt, hsucc]
      omega
  · rw [step_sendPacket hp, if_pos rfl]
    simpa using hi

theorem Inv.checkRetxTimeout (hi : Inv s₀ w) (now rto : Time) :
    Inv s₀ (w.step (.checkRetxTimeout now rto)) := by
  refine checkRetxTimeout_induction (P := fun app => Inv s₀ { w with app := app }) hi ?_
  intro app seqNo time hi htime _
  refine ⟨hi.active, hi.seq, hi.sent, fun k => ?_, hi.once⟩
  rw [entry_expire]
  split_ifs with hk
  · subst hk
    exact (hi.fits k).expired htime
  · exact hi.fits k

theorem Inv.onData (hi : Inv s₀ w) (now : Time) (seq : UInt32) :
    Inv s₀ (w.step (.onData now seq)) where
  active := (seq_onData w.app now seq).2.trans hi.active
  seq := by
    have hseq := (seq_onData w.app now seq).1
    exact (congrArg UInt32.toNat hseq).trans hi.seq
  sent k := by
    change sentTimes k (w.history ++ [.data seq now]) ≠ [] ↔ s₀ ≤ k ∧ k < (w.app.onData now seq).1.seq
    rw [sentTimes_concat_data, (seq_onData w.app now seq).1]
    exact hi.sent k
  fits k := by
    change ((w.app.onData now seq).1.entry k).Fits k (w.history ++ [.data seq now])
    rw [entry_onData hi.active]
    split_ifs with hk
    · subst hk
      exact Entry.fits_data
    · refine (hi.fits k).congr sentTimes_concat_data ?_
      rw [answered_concat_data, or_iff_left fun hs => hk hs.1.symm]
  once k h₁ t h₂ heq := by
    rcases concat_eq_cases heq with ⟨-, hx⟩ | ⟨h₃, hh⟩
    · cases hx
    · exact hi.once k h₁ t h₃ hh

/-- **One event** keeps the invariant. -/
theorem Inv.step (hi : Inv s₀ w) (ev : Event)
    (hfresh : (w.step ev).fresh < 2 ^ 32 - 1 - s₀.toNat) : Inv s₀ (w.step ev) := by
  cases ev with
  | sendPacket now => exact hi.sendPacket now hfresh
  | checkRetxTimeout now rto => exact hi.checkRetxTimeout now rto
  | onData now seq => exact hi.onData now seq

theorem fresh_le_step (w : Watch) (ev : Event) : w.fresh ≤ (w.step ev).fresh := by
  cases ev with
  | sendPacket now => exact Nat.le_add_right _ _
  | checkRetxTimeout now rto => exact le_rfl
  | onData now seq => exact le_rfl

theorem runFrom_concat (s₀ maxSeq : UInt32) (es : List Event) (ev : Event) :
    runFrom s₀ maxSeq (es ++ [ev]) = (runFrom s₀ maxSeq es).step ev := by
  rw [runFrom, List.foldl_concat]
  rfl

theorem inv_runFrom {es : List Event}
    (hfresh : (runFrom s₀ maxSeq es).fresh < 2 ^ 32 - 1 - s₀.toNat) :
    Inv s₀ (runFrom s₀ maxSeq es) := by
  induction es using List.reverseRecOn with
  | nil => exact inv_start
  | append_singleton es ev ih =>
    rw [runFrom_concat] at hfresh ⊢
    exact (ih (lt_of_le_of_lt (fresh_le_step _ ev) hfresh)).step ev hfresh

theorem Inv.tracked (hi : Inv s₀ w) : Tracked s₀ w where
  sent := hi.sent
  outstanding k hle hlt hans := by
    have hplace := (hi.fits k).place ((hi.sent k).mpr ⟨hle, hlt⟩) hans
    change Xor ((w.app.entry k).timeout.isSome = true) ((w.app.entry k).retx = true)
    rw [← hplace, Option.isSome_iff_ne_none]
    by_cases hnone : (w.app.entry k).timeout = none
    · exact Or.inr ⟨hnone, fun hne => hne hnone⟩
    · exact Or.inl ⟨hnone, hnone⟩
  answered k hans := by
    have hgone := (hi.fits k).gone (Or.inr hans)
    exact ⟨congrArg Entry.timeout hgone, Option.not_isSome_iff_eq_none.mp
      (Bool.eq_false_iff.mp (congrArg Entry.retx hgone))⟩
  once := hi.once
  counted k hle hlt hans := (hi.fits k).retxCount ((hi.sent k).mpr ⟨hle, hlt⟩) hans
  first k hle hlt hans := (hi.fits k).fullDelay ((hi.sent k).mpr ⟨hle, hlt⟩) hans
  last k hle hlt hans := (hi.fits k).lastDelay ((hi.sent k).mpr ⟨hle, hlt⟩) hans

/-- **Every outstanding request is tracked once**, in every state of every run with fewer than
`2 ^ 32 - 1 - s₀` new sequence numbers. -/
theorem tracked_run {es : List Event}
    (hfresh : (runFrom s₀ maxSeq es).fresh < 2 ^ 32 - 1 - s₀.toNat) :
    Tracked s₀ (runFrom s₀ maxSeq es) := (inv_runFrom hfresh).tracked

/-- Two Interests, a retransmission of the first one, and Data for both. -/
theorem tracked_twoInterests : Tracked 0 (runFrom 0 2 [.sendPacket 0, .sendPacket 1,
    .checkRetxTimeout 10 10, .sendPacket 10, .onData 11 1, .onData 12 0, .onData 13 0]) :=
  tracked_run (by decide)

/-! ## One number, sent over and over -/

/-- The least timeout, in nanoseconds. -/
def minRTO : Time := 200000000

/-- An Interest, and `n` retransmissions of it. -/
def rounds : ℕ → List Event
  | 0 => [.sendPacket 0]
  | n + 1 => rounds n ++ [.checkRetxTimeout ((n + 1) * minRTO) minRTO] ++
    [.sendPacket ((n + 1) * minRTO)]

/-- Number 0 has been sent `n` times, at last at `now`, and nothing else. -/
structure Repeated (n : ℕ) (now : Time) (w : Watch) : Prop where
  active : w.app.active = true
  seq : w.app.seq = 1
  retxSeqs : w.app.retxSeqs.entries = []
  seqTimeouts : w.app.seqTimeouts.entries = [(0, now)]
  fresh : w.fresh = 1
  sent : (sentTimes 0 w.history).length = n
  noData : ∀ now, .data 0 now ∉ w.history

theorem Repeated.round {n : ℕ} {time : Time} (hr : Repeated n time w)
    (hnow : time + minRTO ≤ now) :
    Repeated (n + 1) now ((w.step (.checkRetxTimeout now minRTO)).step (.sendPacket now)) := by
  obtain ⟨app, history, fresh⟩ := w
  obtain ⟨hactive, hseq, hretx, htimeouts, hfresh, hsent, hdata⟩ := hr
  dsimp only at hactive hseq hretx htimeouts hfresh hsent hdata
  have hcheck : app.checkRetxTimeout now minRTO = app.expire 0 := by
    rw [IncConsumerBaseApp.checkRetxTimeout, htimeouts]
    simp [checkLoop, TimedIndex.front, htimeouts, hnow]
  have hfirst : (app.expire 0).retxSeqs.entries = [(0, ())] := by
    simp [expire, onTimeout, OrdMap.insertNew, hretx, OrdMap.insertEntry]
  have hnone : (app.expire 0).seqTimeouts.entries = [] := by
    simp [expire, onTimeout, TimedIndex.erase, htimeouts]
  have hsend : (app.expire 0).sendPacket now =
      ({ app.expire 0 with retxSeqs := (app.expire 0).retxSeqs.erase 0 }.willSendOutInterest now 0,
        some 0) := by
    have hactive : (app.expire 0).active = true := hactive
    rw [IncConsumerBaseApp.sendPacket, if_pos hactive, nextSeq, OrdMap.first, hfirst]
    rfl
  have hchecked : step ⟨app, history, fresh⟩ (.checkRetxTimeout now minRTO) =
      ⟨app.expire 0, history, fresh⟩ := by
    simp only [step, hcheck]
  have hsent' : step ⟨app.expire 0, history, fresh⟩ (.sendPacket now) = _ := step_sendPacket hsend
  rw [hchecked, hsent', seq_willSendOutInterest, if_pos rfl]
  refine ⟨hactive, hseq, ?_, ?_, hfresh, ?_, ?_⟩
  · change (app.expire 0).retxSeqs.entries.filter _ = _
    rw [hfirst]
    rfl
  · simp [willSendOutInterest, TimedIndex.insert, hnone, TimedIndex.insertEntry]
  · simp [sentTimes_concat_self, hsent]
  · intro t ht
    simp only [Option.map_some, Option.toList_some, List.mem_append, List.mem_singleton,
      reduceCtorEq, or_false] at ht
    exact hdata t ht

theorem repeated_rounds (n : ℕ) :
    Repeated (n + 1) (n * minRTO) (runFrom 0 SequenceNumber.max (rounds n)) := by
  induction n with
  | zero =>
    refine ⟨rfl, rfl, rfl, rfl, rfl, rfl, ?_⟩
    intro t ht
    have ht : Obs.data 0 t ∈ [Obs.sent 0 0] := ht
    cases List.mem_singleton.mp ht
  | succ n ih =>
    rw [rounds, runFrom_concat, runFrom_concat]
    push_cast
    refine ih.round (le_of_eq ?_)
    rw [Int.add_mul, Int.one_mul]

/-- **The counter wraps around**: not every counter is the number of transmissions. -/
theorem retxCount_wraps : ¬ ∀ (s₀ maxSeq : UInt32) (es : List Event),
    (runFrom s₀ maxSeq es).fresh < 2 ^ 32 - 1 - s₀.toNat → ∀ k, s₀ ≤ k →
      k < (runFrom s₀ maxSeq es).app.seq → ¬ Answered k (runFrom s₀ maxSeq es).history →
      ((runFrom s₀ maxSeq es).app.seqRetxCounts.find? k).map UInt32.toNat =
        some (sentTimes k (runFrom s₀ maxSeq es).history).length := by
  intro hall
  obtain ⟨time, es, hr⟩ : ∃ time es, Repeated (2 ^ 32) time (runFrom 0 SequenceNumber.max es) :=
    ⟨_, _, repeated_rounds (2 ^ 32 - 1)⟩
  have hfresh : (runFrom 0 SequenceNumber.max es).fresh < 2 ^ 32 - 1 - (0 : UInt32).toNat := by
    rw [hr.fresh]
    decide
  have hlt : 0 < (runFrom 0 SequenceNumber.max es).app.seq := by
    rw [hr.seq]
    decide
  have hans : ¬ Answered 0 (runFrom 0 SequenceNumber.max es).history := by
    rintro ⟨h₁, t, h₂, heq, -⟩
    exact hr.noData t (by rw [heq]; simp)
  have hcount := hall 0 SequenceNumber.max es hfresh 0 le_rfl hlt hans
  rw [(inv_runFrom hfresh).tracked.counted 0 le_rfl hlt hans, hr.sent] at hcount
  exact absurd hcount (by decide)

end Watch

end IncConsumerBaseApp

end IncSim
