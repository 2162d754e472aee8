import Mathlib.Order.Defs.LinearOrder
import IncSim.Lib.OrdMap
import IncSim.Lib.TimedIndex
import IncSim.Node.ComputeNode

/-!
# The consumer

`INC_ConsumerBaseApp`: which sequence number `SendPacket` asks for, and the containers in which the
consumer keeps track of the numbers it has asked for.

* `IncConsumerBaseApp`, `sendPacket`, `onData`, `onTimeout`, `checkRetxTimeout`: the app and its
  handlers.
* `Entry`, `entry`: what the containers hold of one sequence number.
* `entry_willSendOutInterest`, `entry_onData`, `entry_expire`: what happens to one number.
* `nextSeq_cases`, **`sendPacket_cases`**: what `SendPacket` can do.
* **`checkRetxTimeout_induction`**: the timeouts are taken one by one. `checkRetxTimeout_done`: none
  that has expired is left.
-/

namespace IncSim

namespace SequenceNumber

/-- Sequence numbers in the order of `uint32_t`. -/
scoped instance linearOrder : LinearOrder UInt32 where
  le_refl := UInt32.le_refl
  le_trans _ _ _ := UInt32.le_trans
  lt_iff_le_not_ge a b := by
    simp only [UInt32.lt_iff_toNat_lt, UInt32.le_iff_toNat_le]
    omega
  le_antisymm _ _ := UInt32.le_antisymm
  le_total := UInt32.le_total
  toDecidableLE := inferInstance
  toDecidableEq := inferInstance
  toDecidableLT := inferInstance

/-- `std::numeric_limits<uint32_t>::max()`. -/
def max : UInt32 := 4294967295

theorem ne_max_of_lt {a b : UInt32} (h : a < b) : a ≠ max := by
  rintro rfl
  have hlt : (4294967295 : UInt32).toNat < b.toNat := UInt32.lt_iff_toNat_lt.mp h
  have hb := b.toNat_lt
  exact absurd hlt (by simp; omega)

theorem succ_ne (a : UInt32) : a + 1 ≠ a := by
  intro h
  have hnat := congrArg UInt32.toNat h
  have ha := a.toNat_lt
  rw [UInt32.toNat_add, UInt32.toNat_one] at hnat
  omega

end SequenceNumber

open scoped SequenceNumber

/-- `INC_ConsumerBaseApp`. -/
structure IncConsumerBaseApp where
  active : Bool
  /-- currently requested sequence number -/
  seq : UInt32
  /-- maximum number of sequence number -/
  seqMax : UInt32
  /-- ordered set of sequence numbers to be retransmitted -/
  retxSeqs : OrdMap UInt32 Unit
  seqTimeouts : TimedIndex UInt32 Time
  seqLastDelay : TimedIndex UInt32 Time
  seqFullDelay : TimedIndex UInt32 Time
  seqRetxCounts : OrdMap UInt32 UInt32

/-- What `OnData` traces: the delay since the last transmission, and the one since the first with the
number of transmissions. -/
structure DataDelays where
  lastRetransmittedInterestDataDelay : Option Time
  firstInterestDataDelay : Option (Time × UInt32)
  deriving DecidableEq

namespace IncConsumerBaseApp

/-- A started app that has not sent anything yet. -/
def started (startSeq maxSeq : UInt32) : IncConsumerBaseApp :=
  { active := true, seq := startSeq, seqMax := maxSeq, retxSeqs := .empty, seqTimeouts := .empty
    seqLastDelay := .empty, seqFullDelay := .empty, seqRetxCounts := .empty }

def willSendOutInterest (app : IncConsumerBaseApp) (now : Time) (sequenceNumber : UInt32) :
    IncConsumerBaseApp :=
  { app with
    seqTimeouts := app.seqTimeouts.insert sequenceNumber now
    seqFullDelay := app.seqFullDelay.insert sequenceNumber now
    seqLastDelay := (app.seqLastDelay.erase sequenceNumber).insert sequenceNumber now
    seqRetxCounts :=
      (app.seqRetxCounts.insertNew sequenceNumber 0).modify sequenceNumber (· + 1) }

/-- The number that `SendPacket` asks for: the least one to be retransmitted, else the next one. -/
def nextSeq (app : IncConsumerBaseApp) : IncConsumerBaseApp × Option UInt32 :=
  let (app, seq) := match app.retxSeqs.first with
    | some seq => ({ app with retxSeqs := app.retxSeqs.erase seq }, seq)
    | none => (app, SequenceNumber.max)
  if seq = SequenceNumber.max then
    if app.seqMax ≠ SequenceNumber.max ∧ app.seqMax ≤ app.seq then (app, none) -- totally done
    else ({ app with seq := app.seq + 1 }, some app.seq)
  else (app, some seq)

/-- `SendPacket`, with the number of the Interest that is sent. -/
def sendPacket (app : IncConsumerBaseApp) (now : Time) : IncConsumerBaseApp × Option UInt32 :=
  if app.active then
    match app.nextSeq with
    | (app, none) => (app, none)
    | (app, some seq) => (app.willSendOutInterest now seq, some seq)
  else (app, none)

/-- `OnData`, as far as it concerns sequence numbers, with what it traces. -/
def onData (app : IncConsumerBaseApp) (now : Time) (seq : UInt32) :
    IncConsumerBaseApp × DataDelays :=
  if app.active then
    ({ app with
        seqRetxCounts := app.seqRetxCounts.erase seq
        seqFullDelay := app.seqFullDelay.erase seq
        seqLastDelay := app.seqLastDelay.erase seq
        seqTimeouts := app.seqTimeouts.erase seq
        retxSeqs := app.retxSeqs.erase seq },
      { lastRetransmittedInterestDataDelay := (app.seqLastDelay.find? seq).map (now - ·)
        firstInterestDataDelay := (app.seqFullDelay.find? seq).map fun time =>
          (now - time, (app.seqRetxCounts.find? seq).getD 0) })
  else (app, ⟨none, none⟩)

def onTimeout (app : IncConsumerBaseApp) (sequenceNumber : UInt32) : IncConsumerBaseApp :=
  { app with retxSeqs := app.retxSeqs.insertNew sequenceNumber () }

/-- A timeout that has expired is erased and handled. -/
def expire (app : IncConsumerBaseApp) (seqNo : UInt32) : IncConsumerBaseApp :=
  { app with seqTimeouts := app.seqTimeouts.erase seqNo }.onTimeout seqNo

/-- The loop of `CheckRetxTimeout`, for at most `fuel` timeouts. -/
def checkLoop (now rto : Time) : ℕ → IncConsumerBaseApp → IncConsumerBaseApp
  | 0, app => app
  | fuel + 1, app =>
    match app.seqTimeouts.front with
    | none => app
    | some (seqNo, time) =>
      if time + rto ≤ now then checkLoop now rto fuel (app.expire seqNo) else app

/-- `CheckRetxTimeout`, which does not ask whether the app is active. -/
def checkRetxTimeout (app : IncConsumerBaseApp) (now rto : Time) : IncConsumerBaseApp :=
  checkLoop now rto app.seqTimeouts.entries.length app

/-! ## One sequence number -/

/-- What the containers hold of one sequence number. -/
structure Entry where
  timeout : Option Time
  retx : Bool
  lastDelay : Option Time
  fullDelay : Option Time
  retxCount : Option UInt32

namespace Entry

/-- Nothing. -/
def gone : Entry := ⟨none, false, none, none, none⟩

def taken (e : Entry) : Entry := { e with retx := false }

def sent (e : Entry) (now : Time) : Entry :=
  { e with
    timeout := some (e.timeout.getD now)
    lastDelay := some now
    fullDelay := some (e.fullDelay.getD now)
    retxCount := some (e.retxCount.getD 0 + 1) }

def expired (e : Entry) : Entry := { e with timeout := none, retx := true }

end Entry

/-- What is held of `k`. -/
def entry (app : IncConsumerBaseApp) (k : UInt32) : Entry where
  timeout := app.seqTimeouts.find? k
  retx := (app.retxSeqs.find? k).isSome
  lastDelay := app.seqLastDelay.find? k
  fullDelay := app.seqFullDelay.find? k
  retxCount := app.seqRetxCounts.find? k

variable {app app' : IncConsumerBaseApp} {now rto : Time} {k seq : UInt32}

@[simp] theorem entry_started (s m k : UInt32) : (started s m).entry k = .gone := rfl

theorem entry_willSendOutInterest (app : IncConsumerBaseApp) (now : Time) (seq k : UInt32) :
    (app.willSendOutInterest now seq).entry k =
      if k = seq then (app.entry k).sent now else app.entry k := by
  simp only [entry, willSendOutInterest, TimedIndex.find?_insert, TimedIndex.find?_erase,
    OrdMap.find?_modify, OrdMap.find?_insertNew]
  split_ifs with h
  · subst h; rfl
  · rfl

theorem entry_erase_retx (app : IncConsumerBaseApp) (seq k : UInt32) :
    { app with retxSeqs := app.retxSeqs.erase seq }.entry k =
      if k = seq then (app.entry k).taken else app.entry k := by
  simp only [entry, OrdMap.find?_erase]
  split_ifs <;> rfl

theorem entry_onData (h : app.active = true) (now : Time) (seq k : UInt32) :
    (app.onData now seq).1.entry k = if k = seq then .gone else app.entry k := by
  rw [onData, if_pos h]
  simp only [entry, TimedIndex.find?_erase, OrdMap.find?_erase]
  split_ifs <;> rfl

theorem entry_expire (app : IncConsumerBaseApp) (seq k : UInt32) :
    (app.expire seq).entry k = if k = seq then (app.entry k).expired else app.entry k := by
  simp only [entry, expire, onTimeout, TimedIndex.find?_erase, OrdMap.find?_insertNew]
  split_ifs <;> rfl

/-! ## The handlers -/

@[simp] theorem seq_willSendOutInterest : (app.willSendOutInterest now seq).seq = app.seq := rfl

theorem seq_onData (app : IncConsumerBaseApp) (now : Time) (seq : UInt32) :
    (app.onData now seq).1.seq = app.seq ∧ (app.onData now seq).1.active = app.active := by
  unfold onData
  split_ifs <;> exact ⟨rfl, rfl⟩

/-- **The number that is taken**: one to be retransmitted, or a new one, or none. -/
theorem nextSeq_cases (hmax : (app.entry SequenceNumber.max).retx = false) :
    (∃ seq, (app.entry seq).retx = true ∧
      app.nextSeq = ({ app with retxSeqs := app.retxSeqs.erase seq }, some seq)) ∨
    app.nextSeq = ({ app with seq := app.seq + 1 }, some app.seq) ∨
    app.nextSeq = (app, none) := by
  unfold nextSeq
  cases hfirst : app.retxSeqs.first with
  | some seq =>
    obtain ⟨u, hu⟩ := OrdMap.find?_first hfirst
    have hretx : (app.entry seq).retx = true := by simp [entry, hu]
    have hne : seq ≠ SequenceNumber.max := by
      rintro rfl
      rw [hmax] at hretx
      cases hretx
    exact Or.inl ⟨seq, hretx, if_neg hne⟩
  | none =>
    dsimp only
    rw [if_pos rfl]
    split_ifs
    · exact Or.inr (Or.inr rfl)
    · exact Or.inr (Or.inl rfl)

/-- What `SendPacket` can do. -/
theorem sendPacket_cases (hactive : app.active = true)
    (hmax : (app.entry SequenceNumber.max).retx = false) (now : Time) :
    (∃ seq, (app.entry seq).retx = true ∧ app.sendPacket now =
      ({ app with retxSeqs := app.retxSeqs.erase seq }.willSendOutInterest now seq, some seq)) ∨
    app.sendPacket now =
      ({ app with seq := app.seq + 1 }.willSendOutInterest now app.seq, some app.seq) ∨
    app.sendPacket now = (app, none) := by
  rw [sendPacket, if_pos hactive]
  rcases nextSeq_cases hmax with ⟨seq, hretx, heq⟩ | heq | heq
  · rw [heq]
    exact Or.inl ⟨seq, hretx, rfl⟩
  · rw [heq]
    exact Or.inr (Or.inl rfl)
  · rw [heq]
    exact Or.inr (Or.inr rfl)

/-- **Timeouts are taken one by one**: what every expired timeout keeps, `CheckRetxTimeout` keeps. -/
theorem checkRetxTimeout_induction {P : IncConsumerBaseApp → Prop} (hP : P app)
    (hstep : ∀ app seqNo time, P app → app.seqTimeouts.find? seqNo = some time → time + rto ≤ now →
      P (app.expire seqNo)) :
    P (app.checkRetxTimeout now rto) := by
  have hloop : ∀ fuel app, P app → P (checkLoop now rto fuel app) := by
    intro fuel
    induction fuel with
    | zero => exact fun _ hP => hP
    | succ fuel ih =>
      intro app hP
      rw [checkLoop]
      split
      · exact hP
      · next seqNo time hfront =>
        split_ifs with hle
        · exact ih _ (hstep _ _ _ hP (TimedIndex.find?_front hfront) hle)
        · exact hP
  exact hloop _ _ hP

theorem checkLoop_done {fuel : ℕ} (hlen : app.seqTimeouts.entries.length ≤ fuel)
    {p : UInt32 × Time} (hp : (checkLoop now rto fuel app).seqTimeouts.front = some p) :
    now < p.2 + rto := by
  induction fuel generalizing app with
  | zero =>
    rw [checkLoop, TimedIndex.front, List.length_eq_zero_iff.mp (Nat.le_zero.mp hlen)] at hp
    cases hp
  | succ fuel ih =>
    rw [checkLoop] at hp
    split at hp
    · next hfront => rw [hfront] at hp; cases hp
    · next seqNo time hfront =>
      split_ifs at hp with hle
      · have hlt := TimedIndex.length_erase_front hfront
        exact ih (Nat.le_of_lt_succ (lt_of_lt_of_le hlt hlen)) hp
      · rw [hfront] at hp
        cases hp
        exact not_le.mp hle

/-- No timeout that has expired is left: the loop has ended by itself. -/
theorem checkRetxTimeout_done {time : Time}
    (h : (app.checkRetxTimeout now rto).seqTimeouts.find? k = some time) : now < time + rto := by
  have hmem := TimedIndex.find?_eq_some_iff_mem.mp h
  obtain ⟨⟨seqNo, first⟩, hp⟩ := Option.isSome_iff_exists.mp
    (List.isSome_head?.mpr (List.ne_nil_of_mem hmem))
  have hlt : now < first + rto := checkLoop_done le_rfl hp
  have hle : first ≤ time := TimedIndex.front_le hp hmem
  exact lt_of_lt_of_le hlt (Int.add_le_add_right hle rto)

end IncConsumerBaseApp

end IncSim
