import IncSim.Consumer.Outstanding
import IncSim.Lib.Timers

/-!
# When the consumer sends

`ConsumerApp` in the simulator: `ScheduleNextPacket`, the two events that the app keeps there, and
the handlers that schedule them.

* `ConsumerApp`, `Simulation`: the app, its pending events, the clock and what passed its face.
* `scheduleNextPacket`, `sendPacket`, `checkRetxTimeout`, `setRetxTimer`: the handlers.
* `Event`, `step`: starting, stopping, Data, and the event that is taken next.
* `Pending`, `Pending.send_unique`: what the app knows about its pending events.
* `scheduleNextPacket_cases`, **`Pending.scheduleNextPacket`**: what `ScheduleNextPacket` can do.
* `Inv`, `checkLoop_induction`, `checkRetxTimeout_induction`: the invariant, and the check.
* **`step_rule`**: what the handlers keep, one event of a run keeps.
-/

namespace IncSim

open PartialRun
open scoped SequenceNumber
open IncConsumerBaseApp (Obs)

/-- The events that the app schedules. -/
inductive Handler
  | sendPacket
  | checkRetxTimeout
  deriving DecidableEq

/-- `ConsumerApp`. Delays are natural numbers of ticks: the simulator takes no negative ones. -/
structure ConsumerApp where
  base : IncConsumerBaseApp
  /-- `Seconds (m_interval)` -/
  interval : ℕ
  /-- `m_random` is not null -/
  random : Bool
  firstTime : Bool
  sendEvent : Option ℕ
  retxTimer : ℕ
  retxEvent : Option ℕ

/-- A consumer in the simulator. -/
structure Simulation where
  app : ConsumerApp
  timers : Timers Time Handler
  now : Time
  /-- when `StartApplication` was called -/
  started : Option Time
  /-- what passed the face of the app -/
  history : List Obs

namespace Simulation

/-- An installed app: `SetRetxTimer` has scheduled the first check. -/
def installed (startSeq maxSeq : UInt32) (interval retxTimer : ℕ) (random : Bool) : Simulation where
  app :=
    { base := { IncConsumerBaseApp.started startSeq maxSeq with active := false }
      interval := interval, random := random, firstTime := true, sendEvent := none
      retxTimer := retxTimer, retxEvent := some 0 }
  timers := Timers.empty.schedule retxTimer .checkRetxTimeout
  now := 0
  started := none
  history := []

variable (s : Simulation)

/-- `EventId::IsRunning`. -/
def isRunning : Option ℕ → Bool
  | some id => s.timers.isRunning id
  | none => false

/-- `ConsumerApp::ScheduleNextPacket`; `draw` is what `m_random` gives. -/
def scheduleNextPacket (draw : ℕ) : Simulation :=
  if s.app.firstTime then
    { s with
      timers := s.timers.schedule s.now .sendPacket
      app := { s.app with sendEvent := some s.timers.next, firstTime := false } }
  else if s.isRunning s.app.sendEvent then s
  else
    { s with
      timers := s.timers.schedule
        (s.now + ((if s.app.random then draw else s.app.interval : ℕ) : ℤ)) .sendPacket
      app := { s.app with sendEvent := some s.timers.next } }

/-- `SendPacket`. -/
def sendPacket (draw : ℕ) : Simulation :=
  match s.app.base.sendPacket s.now with
  | (base, none) => { s with app := { s.app with base := base } }
  | (base, some seq) =>
    scheduleNextPacket
      { s with app := { s.app with base := base }, history := s.history ++ [.sent seq s.now] } draw

/-- A timeout that has expired is erased, and `OnTimeout` schedules the next packet. -/
def expire (seqNo : UInt32) (draw : ℕ) : Simulation :=
  scheduleNextPacket { s with app := { s.app with base := s.app.base.expire seqNo } } draw

/-- The loop of `CheckRetxTimeout`, for at most `fuel` timeouts. -/
def checkLoop (rto : Time) (draw : ℕ) : ℕ → Simulation → Simulation
  | 0, s => s
  | fuel + 1, s =>
    match s.app.base.seqTimeouts.front with
    | none => s
    | some (seqNo, time) =>
      if time + rto ≤ s.now then checkLoop rto draw fuel (s.expire seqNo draw) else s

/-- `CheckRetxTimeout`. -/
def checkRetxTimeout (rto : Time) (draw : ℕ) : Simulation :=
  let s := checkLoop rto draw s.app.base.seqTimeouts.entries.length s
  { s with
    timers := s.timers.schedule (s.now + s.app.retxTimer) .checkRetxTimeout
    app := { s.app with retxEvent := some s.timers.next } }

/-- `SetRetxTimer`. -/
def setRetxTimer (retxTimer : ℕ) : Simulation :=
  let timers := match s.app.retxEvent with
    | some id => if s.timers.isRunning id then s.timers.cancel id else s.timers
    | none => s.timers
  { s with
    timers := timers.schedule (s.now + retxTimer) .checkRetxTimeout
    app := { s.app with retxTimer := retxTimer, retxEvent := some timers.next } }

/-- `StartApplication`. -/
def startApplication : Simulation :=
  scheduleNextPacket
    { s with
      app := { s.app with base := { s.app.base with active := true } }
      started := some s.now } 0

/-- `StopApplication`: `Simulator::Cancel` of the send event, and the app is not active any more. -/
def stopApplication : Simulation :=
  { s with
    timers := match s.app.sendEvent with
      | some id => s.timers.cancel id
      | none => s.timers
    app := { s.app with base := { s.app.base with active := false } } }

/-- `OnData`. -/
def onData (seq : UInt32) : Simulation :=
  { s with
    app := { s.app with base := (s.app.base.onData s.now seq).1 }
    history := if s.app.base.active then s.history ++ [.data seq s.now] else s.history }

/-- What can happen. The simulator starts the app once. -/
inductive Event
  | start (now : Time)
  | stop (now : Time)
  | data (now : Time) (seq : UInt32)
  | setRetxTimer (now : Time) (retxTimer : ℕ)
  /-- the pending event that is taken next, with the current timeout and what `m_random` gives -/
  | fire (rto : Time) (draw : ℕ)

/-- Time passes, but not beyond a pending event. -/
def advance (now : Time) : Except Fault Simulation :=
  if s.now ≤ now ∧ s.timers.pending.all (fun q => now ≤ q.2.1) then .ok { s with now := now }
  else .error .notScheduled

/-- The event with its number taken out, at its time. -/
def take (q : ℕ × Time × Handler) : Simulation :=
  { s with now := q.2.1, timers := s.timers.cancel q.1 }

/-- One event. -/
def step (s : Simulation) : Event → Except Fault Simulation
  | .start now =>
    if s.started.isSome then .error .notScheduled else (s.advance now).map startApplication
  | .stop now => (s.advance now).map stopApplication
  | .data now seq => (s.advance now).map fun s => s.onData seq
  | .setRetxTimer now retxTimer => (s.advance now).map fun s => s.setRetxTimer retxTimer
  | .fire rto draw =>
    match s.timers.first with
    | none => .error .notScheduled
    | some q =>
      match q.2.2 with
      | .sendPacket => .ok ((s.take q).sendPacket draw)
      | .checkRetxTimeout => .ok ((s.take q).checkRetxTimeout rto draw)

/-! ## The pending events -/

/-- A `SendPacket` is due at `t`. -/
def SendPending (t : Time) : Prop := ∃ id, (id, t, Handler.sendPacket) ∈ s.timers.pending

/-- A `CheckRetxTimeout` is due at `t`. -/
def CheckPending (t : Time) : Prop := ∃ id, (id, t, Handler.checkRetxTimeout) ∈ s.timers.pending

/-- What the app knows about its pending events. -/
structure Pending : Prop where
  due : ∀ q ∈ s.timers.pending, s.now ≤ q.2.1
  send : ∀ q ∈ s.timers.pending, q.2.2 = .sendPacket ↔ s.app.sendEvent = some q.1
  retx : ∀ q ∈ s.timers.pending, q.2.2 = .checkRetxTimeout ↔ s.app.retxEvent = some q.1
  send_lt : ∀ id, s.app.sendEvent = some id → id < s.timers.next
  retx_lt : ∀ id, s.app.retxEvent = some id → id < s.timers.next
  first : s.app.firstTime = true → ∀ t, ¬ s.SendPending t

variable {s} {t t' : Time}

theorem isRunning_iff {e : Option ℕ} :
    s.isRunning e = true ↔ ∃ q ∈ s.timers.pending, e = some q.1 := by
  cases e with
  | none => simp [isRunning]
  | some id =>
    rw [isRunning, Timers.isRunning_iff]
    simp only [Option.some.injEq, eq_comm]

namespace Pending

variable (h : s.Pending)
include h

/-- **At most one `SendPacket` is pending.** -/
theorem send_unique (ht : s.SendPending t) (ht' : s.SendPending t') : t = t' := by
  obtain ⟨id, hid⟩ := ht
  obtain ⟨id', hid'⟩ := ht'
  have heq := ((h.send _ hid).mp rfl).symm.trans ((h.send _ hid').mp rfl)
  have hsame := Timers.eq_of_number hid hid' (Option.some.inj heq)
  exact congrArg (fun q => q.2.1) hsame

/-- The running send event is a pending `SendPacket`. -/
theorem isRunning_send : s.isRunning s.app.sendEvent = true ↔ ∃ t, s.SendPending t := by
  rw [isRunning_iff]
  constructor
  · rintro ⟨⟨id, t, handler⟩, hq, heq⟩
    have hsend : handler = .sendPacket := (h.send _ hq).mpr heq
    exact ⟨t, id, hsend ▸ hq⟩
  · rintro ⟨t, id, hid⟩
    exact ⟨_, hid, (h.send _ hid).mp rfl⟩

/-- Once a pending event is taken out, no other one with its handler is left. -/
theorem ne_of_cancel {q q' : ℕ × Time × Handler} (hq : q ∈ s.timers.pending)
    (hq' : q' ∈ (s.timers.cancel q.1).pending) : q'.2.2 ≠ q.2.2 := by
  obtain ⟨hmem, hne⟩ := Timers.mem_cancel.mp hq'
  intro heq
  cases hhandler : q.2.2 with
  | sendPacket =>
    have hid := (h.send q hq).mp hhandler
    exact hne (Option.some.inj (((h.send q' hmem).mp (heq.trans hhandler)).symm.trans hid))
  | checkRetxTimeout =>
    have hid := (h.retx q hq).mp hhandler
    exact hne (Option.some.inj (((h.retx q' hmem).mp (heq.trans hhandler)).symm.trans hid))

/-- The sequence numbers and the log do not count. -/
theorem congr (base : IncConsumerBaseApp) (started : Option Time) (history : List Obs) :
    Pending { s with app := { s.app with base := base }, started := started, history := history } :=
  ⟨h.due, h.send, h.retx, h.send_lt, h.retx_lt, h.first⟩

/-- **Events are only taken out**, and what the app knows does not change. -/
theorem cancel {id : ℕ} {now : Time} (hnow : ∀ q ∈ (s.timers.cancel id).pending, now ≤ q.2.1) :
    Pending { s with now := now, timers := s.timers.cancel id } where
  due := hnow
  send q hq := h.send q (Timers.mem_cancel.mp hq).1
  retx q hq := h.retx q (Timers.mem_cancel.mp hq).1
  send_lt := h.send_lt
  retx_lt := h.retx_lt
  first hf t := fun ⟨id, hid⟩ => h.first hf t ⟨id, (Timers.mem_cancel.mp hid).1⟩

end Pending

/-! ## `ScheduleNextPacket` -/

/-- A `SendPacket` scheduled for `t`. -/
def scheduled (s : Simulation) (t : Time) : Simulation :=
  { s with
    timers := s.timers.schedule t .sendPacket
    app := { s.app with sendEvent := some s.timers.next, firstTime := false } }

/-- The time to the next packet. -/
def delay (s : Simulation) (draw : ℕ) : ℕ :=
  if s.app.firstTime then 0 else if s.app.random then draw else s.app.interval

/-- **What `ScheduleNextPacket` can do**: nothing where a packet is pending, else it schedules one. -/
theorem scheduleNextPacket_cases (h : s.Pending) (draw : ℕ) :
    ((∃ t, s.SendPending t) ∧ s.scheduleNextPacket draw = s) ∨
    ((∀ t, ¬ s.SendPending t) ∧ s.scheduleNextPacket draw = s.scheduled (s.now + s.delay draw)) := by
  unfold scheduleNextPacket
  by_cases hf : s.app.firstTime = true
  · refine Or.inr ⟨h.first hf, ?_⟩
    rw [if_pos hf, scheduled, delay, if_pos hf, Int.ofNat_zero, Int.add_zero]
  · rw [if_neg hf]
    by_cases hrun : s.isRunning s.app.sendEvent = true
    · exact Or.inl ⟨h.isRunning_send.mp hrun, if_pos hrun⟩
    · refine Or.inr ⟨fun t ht => hrun (h.isRunning_send.mpr ⟨t, ht⟩), ?_⟩
      rw [if_neg hrun, scheduled, delay, if_neg hf]
      simp only [Bool.eq_false_iff.mpr hf]

theorem sendPending_scheduled : (s.scheduled t).SendPending t' ↔ s.SendPending t' ∨ t' = t := by
  unfold SendPending scheduled
  simp only [Timers.mem_schedule, Prod.mk.injEq, and_true]
  constructor
  · rintro ⟨id, hid | ⟨-, ht⟩⟩
    · exact Or.inl ⟨id, hid⟩
    · exact Or.inr ht
  · rintro (⟨id, hid⟩ | ht)
    · exact ⟨id, Or.inl hid⟩
    · exact ⟨_, Or.inr ⟨rfl, ht⟩⟩

theorem checkPending_scheduled : (s.scheduled t).CheckPending t' ↔ s.CheckPending t' := by
  simp [CheckPending, scheduled, Timers.mem_schedule]

theorem Pending.scheduled (h : s.Pending) (hnone : ∀ t, ¬ s.SendPending t) (ht : s.now ≤ t) :
    (s.scheduled t).Pending where
  due q hq := by
    rcases Timers.mem_schedule.mp hq with hq | rfl
    · exact h.due q hq
    · exact ht
  send q hq := by
    rcases Timers.mem_schedule.mp hq with hq | rfl
    · refine iff_of_false (fun hsend => ?_) fun hid => ?_
      · exact hnone q.2.1 ⟨q.1, hsend ▸ hq⟩
      · exact absurd (s.timers.below q hq) (by rw [Option.some.inj hid]; exact lt_irrefl _)
    · exact iff_of_true rfl rfl
  retx q hq := by
    rcases Timers.mem_schedule.mp hq with hq | rfl
    · exact h.retx q hq
    · refine iff_of_false nofun fun hid => ?_
      exact absurd (h.retx_lt _ hid) (lt_irrefl _)
  send_lt id hid := by
    rw [← Option.some.inj hid]
    exact Nat.lt_succ_self _
  retx_lt id hid := Nat.lt_succ_of_lt (h.retx_lt id hid)
  first := nofun

/-- **After `ScheduleNextPacket`** exactly one packet is pending: the one that was, or a new one. -/
theorem Pending.scheduleNextPacket (h : s.Pending) (draw : ℕ) :
    (s.scheduleNextPacket draw).Pending ∧ ∃ t, (s.scheduleNextPacket draw).SendPending t := by
  rcases scheduleNextPacket_cases h draw with ⟨hsome, heq⟩ | ⟨hnone, heq⟩
  · rw [heq]
    exact ⟨h, hsome⟩
  · rw [heq]
    refine ⟨h.scheduled hnone (Int.le_add_of_nonneg_right (Int.natCast_nonneg _)),
      s.now + s.delay draw, ?_⟩
    exact sendPending_scheduled.mpr (Or.inr rfl)

/-! ## The handlers -/

/-- The invariant of a run: the pending events, and what has not happened before the start. -/
structure Inv (s : Simulation) : Prop where
  pending : s.Pending
  begun : s.app.firstTime = true ↔ s.started = none
  active : s.started = none → s.app.base.active = false
  timeouts : s.started = none → s.app.base.seqTimeouts.entries = []
  history : s.started = none → s.history = []

/-- The time has passed to `now`, where nothing is due before. -/
def passed (s : Simulation) (now : Time) : Simulation := { s with now := now }

theorem advance_eq_ok {now : Time} {u : Simulation} (h : s.advance now = .ok u) :
    u = s.passed now ∧ s.now ≤ now ∧ ∀ q ∈ s.timers.pending, now ≤ q.2.1 := by
  unfold advance at h
  split_ifs at h with hle
  cases h
  exact ⟨rfl, hle.1, fun q hq => of_decide_eq_true (List.all_eq_true.mp hle.2 q hq)⟩

namespace Inv

theorem passed (h : s.Inv) {now : Time} (hdue : ∀ q ∈ s.timers.pending, now ≤ q.2.1) :
    (s.passed now).Inv :=
  ⟨⟨hdue, h.pending.send, h.pending.retx, h.pending.send_lt, h.pending.retx_lt, h.pending.first⟩,
    h.begun, h.active, h.timeouts, h.history⟩

/-- The app and the log may change once the app has been started. -/
theorem of_started (h : s.Inv) (base : IncConsumerBaseApp) (history : List Obs)
    (hstarted : s.started ≠ none) :
    Inv { s with app := { s.app with base := base }, history := history } :=
  ⟨h.pending.congr base s.started history, h.begun, fun hn => absurd hn hstarted,
    fun hn => absurd hn hstarted, fun hn => absurd hn hstarted⟩

theorem scheduleNextPacket (h : s.Inv) (hstarted : s.started ≠ none) (draw : ℕ) :
    (s.scheduleNextPacket draw).Inv := by
  rcases scheduleNextPacket_cases h.pending draw with ⟨-, heq⟩ | ⟨hnone, heq⟩
  · rwa [heq]
  · have hpending := (h.pending.scheduleNextPacket draw).1
    rw [heq] at hpending ⊢
    exact ⟨hpending, iff_of_false nofun hstarted, fun hn => absurd hn hstarted,
      fun hn => absurd hn hstarted, fun hn => absurd hn hstarted⟩

theorem startApplication (h : s.Inv) (hstarted : s.started = none) : s.startApplication.Inv := by
  have hfirst := h.begun.mpr hstarted
  unfold Simulation.startApplication Simulation.scheduleNextPacket
  rw [if_pos hfirst]
  have hpending := h.pending.scheduled (h.pending.first hfirst) (le_refl s.now)
  exact ⟨hpending.congr { s.app.base with active := true } (some s.now) s.history,
    iff_of_false nofun nofun, nofun, nofun, nofun⟩

theorem stopApplication (h : s.Inv) : s.stopApplication.Inv := by
  have hpending : Pending { s with timers := s.stopApplication.timers } := by
    unfold Simulation.stopApplication
    cases s.app.sendEvent with
    | none => exact h.pending
    | some id => exact h.pending.cancel fun q hq => h.pending.due q (Timers.mem_cancel.mp hq).1
  exact ⟨hpending.congr { s.app.base with active := false } s.started s.history, h.begun,
    fun _ => rfl, h.timeouts, h.history⟩

theorem started_of_active (h : s.Inv) (hactive : s.app.base.active = true) : s.started ≠ none :=
  fun hn => Bool.false_ne_true ((h.active hn).symm.trans hactive)

theorem onData (h : s.Inv) (seq : UInt32) : (s.onData seq).Inv := by
  cases hactive : s.app.base.active with
  | false =>
    have hsame : s.onData seq = s := by
      simp [Simulation.onData, IncConsumerBaseApp.onData, hactive]
    rwa [hsame]
  | true => exact h.of_started _ _ (h.started_of_active hactive)

/-- The event that is taken is at its time; none is due before. -/
theorem take (h : s.Inv) {q : ℕ × Time × Handler} (hq : s.timers.first = some q) :
    (s.take q).Inv :=
  ⟨h.pending.cancel fun _ hq' => Timers.le_of_first hq (Timers.mem_cancel.mp hq').1, h.begun,
    h.active, h.timeouts, h.history⟩

theorem sendPacket (h : s.Inv) (draw : ℕ) : (s.sendPacket draw).Inv := by
  cases hactive : s.app.base.active with
  | false =>
    have hsame : s.sendPacket draw = s := by
      simp [Simulation.sendPacket, IncConsumerBaseApp.sendPacket, hactive]
    rwa [hsame]
  | true =>
    have hstarted := h.started_of_active hactive
    unfold Simulation.sendPacket
    split
    · exact h.of_started _ s.history hstarted
    · next base seq _ =>
      exact (h.of_started base (s.history ++ [.sent seq s.now]) hstarted).scheduleNextPacket
        hstarted draw

/-- A timeout is held only once the app has been started. -/
theorem started_of_front (h : s.Inv) {p : UInt32 × Time}
    (hp : s.app.base.seqTimeouts.front = some p) : s.started ≠ none := by
  intro hn
  rw [TimedIndex.front, h.timeouts hn] at hp
  cases hp

theorem expire (h : s.Inv) (hstarted : s.started ≠ none) (seqNo : UInt32) (draw : ℕ) :
    (s.expire seqNo draw).Inv :=
  (h.of_started (s.app.base.expire seqNo) s.history hstarted).scheduleNextPacket hstarted draw

end Inv

/-- **Timeouts are taken one by one**: what every expired timeout keeps, the loop of
`CheckRetxTimeout` keeps. -/
theorem checkLoop_induction {P : Simulation → Prop} (rto : Time) {draw : ℕ}
    (hP : ∀ s seqNo, s.Inv → s.started ≠ none → P s → P (s.expire seqNo draw)) (fuel : ℕ)
    (h : s.Inv) (hs : P s) : (checkLoop rto draw fuel s).Inv ∧ P (checkLoop rto draw fuel s) := by
  induction fuel generalizing s with
  | zero => exact ⟨h, hs⟩
  | succ fuel ih =>
    rw [checkLoop]
    split
    · exact ⟨h, hs⟩
    · next hfront =>
      split_ifs
      · have hstarted := h.started_of_front hfront
        exact ih (h.expire hstarted _ draw) (hP s _ h hstarted hs)
      · exact ⟨h, hs⟩

/-- A `CheckRetxTimeout` scheduled for `t`, where none is pending. -/
def checkScheduled (s : Simulation) (t : Time) : Simulation :=
  { s with
    timers := s.timers.schedule t .checkRetxTimeout
    app := { s.app with retxEvent := some s.timers.next } }

theorem checkPending_checkScheduled :
    (s.checkScheduled t).CheckPending t' ↔ s.CheckPending t' ∨ t' = t := by
  unfold CheckPending checkScheduled
  simp only [Timers.mem_schedule, Prod.mk.injEq, and_true]
  constructor
  · rintro ⟨id, hid | ⟨-, ht⟩⟩
    · exact Or.inl ⟨id, hid⟩
    · exact Or.inr ht
  · rintro (⟨id, hid⟩ | ht)
    · exact ⟨id, Or.inl hid⟩
    · exact ⟨_, Or.inr ⟨rfl, ht⟩⟩

theorem sendPending_checkScheduled :
    (s.checkScheduled t).SendPending t' ↔ s.SendPending t' := by
  simp [SendPending, checkScheduled, Timers.mem_schedule]

theorem Inv.checkScheduled (h : s.Inv) (hnone : ∀ t, ¬ s.CheckPending t) (ht : s.now ≤ t) :
    (s.checkScheduled t).Inv := by
  refine ⟨⟨fun q hq => ?_, fun q hq => ?_, fun q hq => ?_, fun id hid => ?_, fun id hid => ?_,
    fun hf t ht => ?_⟩, h.begun, h.active, h.timeouts, h.history⟩
  · rcases Timers.mem_schedule.mp hq with hq | rfl
    · exact h.pending.due q hq
    · exact ht
  · rcases Timers.mem_schedule.mp hq with hq | rfl
    · exact h.pending.send q hq
    · refine iff_of_false nofun fun hid => ?_
      exact absurd (h.pending.send_lt _ hid) (lt_irrefl _)
  · rcases Timers.mem_schedule.mp hq with hq | rfl
    · refine iff_of_false (fun hcheck => ?_) fun hid => ?_
      · exact hnone q.2.1 ⟨q.1, hcheck ▸ hq⟩
      · exact absurd (s.timers.below q hq) (by rw [Option.some.inj hid]; exact lt_irrefl _)
    · exact iff_of_true rfl rfl
  · exact Nat.lt_succ_of_lt (h.pending.send_lt id hid)
  · rw [← Option.some.inj hid]
    exact Nat.lt_succ_self _
  · exact h.pending.first hf t (sendPending_checkScheduled.mp ht)

/-! ## One event -/

/-- What was pending beside the event that is taken is still pending, and no other event has its
handler. -/
theorem Pending.mem_take (h : s.Pending) {q q' : ℕ × Time × Handler} (hq : q ∈ s.timers.pending) :
    q' ∈ (s.take q).timers.pending ↔ q' ∈ s.timers.pending ∧ q'.2.2 ≠ q.2.2 := by
  constructor
  · intro hq'
    exact ⟨(Timers.mem_cancel.mp hq').1, h.ne_of_cancel hq hq'⟩
  · rintro ⟨hmem, hne⟩
    refine Timers.mem_cancel.mpr ⟨hmem, fun heq => hne ?_⟩
    rw [Timers.eq_of_number hmem hq heq]

section Take

variable {q : ℕ × Time × Handler} (h : s.Pending) (hq : q ∈ s.timers.pending)
include h hq

theorem sendPending_take_send (hsend : q.2.2 = .sendPacket) : ¬ (s.take q).SendPending t :=
  fun ⟨_, hid⟩ => ((h.mem_take hq).mp hid).2 hsend.symm

theorem checkPending_take_send (hsend : q.2.2 = .sendPacket) :
    (s.take q).CheckPending t ↔ s.CheckPending t :=
  exists_congr fun _ => (h.mem_take hq).trans (and_iff_left (by rw [hsend]; nofun))

theorem checkPending_take_check (hcheck : q.2.2 = .checkRetxTimeout) :
    ¬ (s.take q).CheckPending t :=
  fun ⟨_, hid⟩ => ((h.mem_take hq).mp hid).2 hcheck.symm

theorem sendPending_take_check (hcheck : q.2.2 = .checkRetxTimeout) :
    (s.take q).SendPending t ↔ s.SendPending t :=
  exists_congr fun _ => (h.mem_take hq).trans (and_iff_left (by rw [hcheck]; nofun))

end Take

/-- The pending check, if there is one, is removed. -/
def unchecked (s : Simulation) : Simulation :=
  { s with
    timers := match s.app.retxEvent with
      | some id => if s.timers.isRunning id then s.timers.cancel id else s.timers
      | none => s.timers }

theorem setRetxTimer_eq (s : Simulation) (retxTimer : ℕ) :
    s.setRetxTimer retxTimer = checkScheduled
      { s.unchecked with app := { s.app with retxTimer := retxTimer } } (s.now + retxTimer) := rfl

theorem unchecked_cases (h : s.Pending) :
    ((∀ t, ¬ s.CheckPending t) ∧ s.unchecked = s) ∨
    ∃ q ∈ s.timers.pending, q.2.2 = .checkRetxTimeout ∧
      s.unchecked = { s with timers := s.timers.cancel q.1 } := by
  unfold unchecked
  cases hid : s.app.retxEvent with
  | none =>
    refine Or.inl ⟨fun t ⟨id, ht⟩ => ?_, rfl⟩
    exact absurd ((h.retx _ ht).mp rfl) (by rw [hid]; nofun)
  | some id =>
    dsimp only
    split_ifs with hrun
    · obtain ⟨q, hq, rfl⟩ := Timers.isRunning_iff.mp hrun
      exact Or.inr ⟨q, hq, (h.retx q hq).mpr hid, rfl⟩
    · refine Or.inl ⟨fun t ⟨id', ht⟩ => hrun ?_, rfl⟩
      have heq := ((h.retx _ ht).mp rfl).symm.trans hid
      exact Timers.isRunning_iff.mpr ⟨_, ht, Option.some.inj heq⟩

/-- Where no check is pending any more, the packets are. -/
theorem unchecked_spec (h : s.Pending) :
    s.unchecked.Pending ∧ (∀ t, ¬ s.unchecked.CheckPending t) ∧
      ∀ t, s.unchecked.SendPending t ↔ s.SendPending t := by
  rcases unchecked_cases h with ⟨hnone, heq⟩ | ⟨q, hq, hcheck, heq⟩
  · rw [heq]
    exact ⟨h, hnone, fun _ => Iff.rfl⟩
  · rw [heq]
    refine ⟨h.cancel fun q' hq' => h.due q' (Timers.mem_cancel.mp hq').1, fun t => ?_, fun t => ?_⟩
    · exact checkPending_take_check h hq hcheck
    · exact sendPending_take_check h hq hcheck

theorem Inv.setRetxTimer (h : s.Inv) (retxTimer : ℕ) : (s.setRetxTimer retxTimer).Inv := by
  obtain ⟨hpending, hnone, -⟩ := unchecked_spec h.pending
  rw [setRetxTimer_eq]
  refine Inv.checkScheduled ⟨?_, h.begun, h.active, h.timeouts, h.history⟩ hnone
    (Int.le_add_of_nonneg_right (Int.natCast_nonneg _))
  exact ⟨hpending.due, hpending.send, hpending.retx, hpending.send_lt, hpending.retx_lt,
    hpending.first⟩

theorem checkPending_scheduleNextPacket (h : s.Pending) (draw : ℕ) :
    (s.scheduleNextPacket draw).CheckPending t ↔ s.CheckPending t := by
  rcases scheduleNextPacket_cases h draw with ⟨-, heq⟩ | ⟨-, heq⟩
  · rw [heq]
  · rw [heq, checkPending_scheduled]

/-- `CheckRetxTimeout` is the loop, and a check that is scheduled where none is pending. -/
theorem checkRetxTimeout_induction {P : Simulation → Prop} (rto : Time) {draw : ℕ}
    (hP : ∀ s seqNo, s.Inv → s.started ≠ none → P s → P (s.expire seqNo draw))
    {q : ℕ × Time × Handler} (h : s.Inv) (hq : s.timers.first = some q)
    (hcheck : q.2.2 = .checkRetxTimeout) (hs : P (s.take q)) :
    ∃ u : Simulation, u.Inv ∧ P u ∧ (∀ t, ¬ u.CheckPending t) ∧
      (s.take q).checkRetxTimeout rto draw = u.checkScheduled (u.now + u.app.retxTimer) := by
  have hmem := Timers.mem_of_first hq
  have hloop := checkLoop_induction (P := fun s => P s ∧ ∀ t, ¬ s.CheckPending t) rto
    (fun s seqNo h hstarted hs => ⟨hP s seqNo h hstarted hs.1, fun t ht => ?_⟩)
    (s.take q).app.base.seqTimeouts.entries.length (h.take hq)
    ⟨hs, fun t => checkPending_take_check h.pending hmem hcheck⟩
  · exact ⟨_, hloop.1, hloop.2.1, hloop.2.2, rfl⟩
  · have hpending := h.pending.congr (s.app.base.expire seqNo) s.started s.history
    exact hs.2 t ((checkPending_scheduleNextPacket hpending draw).mp ht)

theorem Inv.checkRetxTimeout (h : s.Inv) {q : ℕ × Time × Handler} (hq : s.timers.first = some q)
    (hcheck : q.2.2 = .checkRetxTimeout) (rto : Time) (draw : ℕ) :
    ((s.take q).checkRetxTimeout rto draw).Inv := by
  obtain ⟨u, hu, -, hnone, heq⟩ := checkRetxTimeout_induction (P := fun _ => True) rto
    (fun _ _ _ _ (_ : True) => (trivial : True)) h hq hcheck trivial
  rw [heq]
  exact hu.checkScheduled hnone (Int.le_add_of_nonneg_right (Int.natCast_nonneg _))

/-- **The step rule**: what time, the handlers and the events keep, one event of a run keeps. -/
theorem step_rule {P : Simulation → Prop}
    (hpassed : ∀ s now, s.Inv → s.now ≤ now → (∀ q ∈ s.timers.pending, now ≤ q.2.1) → P s →
      P (s.passed now))
    (hstart : ∀ s, s.Inv → s.started = none → P s → P s.startApplication)
    (hstop : ∀ s, s.Inv → P s → P s.stopApplication)
    (hdata : ∀ s seq, s.Inv → P s → P (s.onData seq))
    (htimer : ∀ s retxTimer, s.Inv → P s → P (s.setRetxTimer retxTimer))
    (hsend : ∀ s q draw, s.Inv → s.timers.first = some q → q.2.2 = .sendPacket → P s →
      P ((s.take q).sendPacket draw))
    (hcheck : ∀ s q rto draw, s.Inv → s.timers.first = some q → q.2.2 = .checkRetxTimeout → P s →
      P ((s.take q).checkRetxTimeout rto draw))
    (s : Simulation) (e : Event) (s' : Simulation) (h : s.Inv ∧ P s) (hs : s.step e = .ok s') :
    s'.Inv ∧ P s' := by
  obtain ⟨hinv, hP⟩ := h
  have hpass : ∀ {now u}, s.advance now = .ok u → u.Inv ∧ P u ∧ u.started = s.started := by
    intro now u hu
    obtain ⟨rfl, hle, hdue⟩ := advance_eq_ok hu
    exact ⟨hinv.passed hdue, hpassed s now hinv hle hdue hP, rfl⟩
  cases e with
  | start now =>
    rw [step] at hs
    split_ifs at hs with hnot
    obtain ⟨u, hu, rfl⟩ := map_eq_ok.mp hs
    obtain ⟨huInv, huP, hstarted⟩ := hpass hu
    have hnone : u.started = none := hstarted.trans (Option.not_isSome_iff_eq_none.mp hnot)
    exact ⟨huInv.startApplication hnone, hstart u huInv hnone huP⟩
  | stop now =>
    obtain ⟨u, hu, rfl⟩ := map_eq_ok.mp hs
    obtain ⟨huInv, huP, -⟩ := hpass hu
    exact ⟨huInv.stopApplication, hstop u huInv huP⟩
  | data now seq =>
    obtain ⟨u, hu, rfl⟩ := map_eq_ok.mp hs
    obtain ⟨huInv, huP, -⟩ := hpass hu
    exact ⟨huInv.onData seq, hdata u seq huInv huP⟩
  | setRetxTimer now retxTimer =>
    obtain ⟨u, hu, rfl⟩ := map_eq_ok.mp hs
    obtain ⟨huInv, huP, -⟩ := hpass hu
    exact ⟨huInv.setRetxTimer retxTimer, htimer u retxTimer huInv huP⟩
  | fire rto draw =>
    rw [step] at hs
    cases hq : s.timers.first with
    | none => rw [hq] at hs; cases hs
    | some q =>
      rw [hq] at hs
      dsimp only at hs
      cases hhandler : q.2.2 with
      | sendPacket =>
        rw [hhandler] at hs
        cases hs
        exact ⟨(hinv.take hq).sendPacket draw, hsend s q draw hinv hq hhandler hP⟩
      | checkRetxTimeout =>
        rw [hhandler] at hs
        cases hs
        exact ⟨hinv.checkRetxTimeout hq hhandler rto draw,
          hcheck s q rto draw hinv hq hhandler hP⟩

/-- An installed app. -/
theorem inv_installed (startSeq maxSeq : UInt32) (interval retxTimer : ℕ) (random : Bool) :
    (installed startSeq maxSeq interval retxTimer random).Inv := by
  refine ⟨⟨fun q hq => ?_, fun q hq => ?_, fun q hq => ?_, nofun, fun id hid => ?_,
    fun _ t ⟨id, hid⟩ => ?_⟩, iff_of_true rfl rfl, fun _ => rfl, fun _ => rfl, fun _ => rfl⟩
  · obtain rfl := List.mem_singleton.mp hq
    exact Int.natCast_nonneg _
  · obtain rfl := List.mem_singleton.mp hq
    exact iff_of_false nofun nofun
  · obtain rfl := List.mem_singleton.mp hq
    exact iff_of_true rfl rfl
  · cases hid
    exact Nat.zero_lt_one
  · cases List.mem_singleton.mp hid

end Simulation

end IncSim
