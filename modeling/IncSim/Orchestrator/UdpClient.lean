import IncSim.Lib.Timers
import IncSim.Orchestrator.Payload
import Mathlib.Data.List.DropRight
import Mathlib.Tactic.Ring

/-!
# When the UDP communication app sends, and what

`UdpOrchestrationCommunicationApp` in the simulator: the request that it sends, once or periodically,
and the decisions that the management app hands to it in between.

* `Payload`, `PayloadCall`, `setPayload_ok`: what a request carries, and the calls that set it.
* `UdpSimulation`: the app, its pending event, the clock and what it handed to its socket.
* `send`, `sendOnce`, `sendOnceWithFill`, `startApplication`, `stopApplication`: the handlers.
* `Event`, `step`, `Inv`, `step_cases`: the events of a run, and what each of them can do.
* `packetsOf`, **`request_packets`**: every request carries the payload that was set last; the
  assertions hold; which requests fail.
* `OnTime`, **`request_rate`**: when the requests leave, and when no more of them do.
-/

namespace IncSim

open PartialRun Buffer

/-- What a request carries. -/
inductive Payload
  | bytes (l : Str)
  /-- `Create<Packet> (n)`: bytes that do not matter -/
  | blank (n : UInt32)
  deriving DecidableEq

/-- What the app hands to its socket. -/
inductive UdpPacket
  | request (payload : Payload)
  | decision (fill : Str)
  deriving DecidableEq

/-- The calls that set the payload; a pattern has less than `2 ^ 32` bytes. -/
inductive PayloadCall
  | dataSize (dataSize : UInt32)
  | text (junk : ℕ → Char) (fill : Str)
  | byte (junk : ℕ → Char) (fill : Char) (dataSize : UInt32)
  | buffer (junk : ℕ → Char) (fill : { l : Str // l.length < 2 ^ 32 }) (dataSize : UInt32)
      (bound : ℕ)

namespace Payload

/-- Bytes, if there are any. -/
def ofBytes (l : Str) : Payload := if l = [] then .blank 0 else .bytes l

/-- The packet of `SendOnce`, one byte longer; nothing where it is read behind the buffer. The length
is a `uint32`. -/
def sentOnce : Payload → Option Payload
  | .bytes l => if l.length + 1 = 2 ^ 32 then some (.bytes []) else none
  | .blank n => some (.blank (n + 1))

/-- The packet of a request. -/
def request (periodic : Bool) (p : Payload) : Option Payload := if periodic then some p else p.sentOnce

end Payload

/-- The payload that a call asks for. -/
def PayloadCall.payload : PayloadCall → Payload
  | .dataSize n => .blank n
  | .text _ fill => .ofBytes ((fill ++ ['\x00']).take (UInt32.ofNat fill.length + 1).toNat)
  | .byte _ fill n => .ofBytes (List.replicate n.toNat fill)
  | .buffer _ fill n _ => .ofBytes (repeated fill.1 '\x00' n.toNat)

namespace UdpOrchestrationCommunicationApp

variable (a : UdpOrchestrationCommunicationApp)

/-- The first `n` bytes behind `m_data`. -/
def readData (n : UInt32) : Except Fault Str :=
  match a.data with
  | none => .error .nullPointer
  | some l => if n.toNat ≤ l.length then .ok (l.take n.toNat) else .error .outOfRange

/-- The packet of a request, with the assertions about the buffer; `SendOnce` asks for one more byte
than there are. -/
def createPacket (more : UInt32) : Except Fault Payload :=
  if a.dataSize ≠ 0 then
    if a.dataSize = a.size ∧ a.data.isSome then (a.readData (a.dataSize + more)).map .bytes
    else .error .assertionFailed
  else .ok (.blank (a.size + more))

/-- A call that sets the payload. One that never returns ends the run. -/
def setPayload : PayloadCall → Except Fault UdpOrchestrationCommunicationApp
  | .dataSize dataSize => .ok (a.setDataSize dataSize)
  | .text junk fill => a.setFillText junk fill
  | .byte junk fill dataSize => a.setFillByte junk fill dataSize
  | .buffer junk fill dataSize bound => do
    match ← a.setFillBuffer junk fill.1 (UInt32.ofNat fill.1.length) dataSize bound with
    | none => .error .noReturn
    | some a => pure a

/-! ## The payload that is set -/

/-- The payload that is set. -/
def payload : Payload := if a.dataSize ≠ 0 then .bytes a.bytes else .blank a.size

variable {a} {a' : UdpOrchestrationCommunicationApp} {n : UInt32}

/-- A buffer of the size of the packet. -/
theorem consistent_of_data {data : Option Str} (hlen : (data.getD []).length = n.toNat) :
    ({ a with data := data, dataSize := n, size := n } :
      UdpOrchestrationCommunicationApp).Consistent ∧
    ({ a with data := data, dataSize := n, size := n } : UdpOrchestrationCommunicationApp).payload =
      .ofBytes (data.getD []) := by
  refine ⟨⟨hlen, fun _ => rfl⟩, ?_⟩
  unfold payload Payload.ofBytes
  by_cases hzero : n = 0
  · subst hzero
    have hnil : data.getD [] = [] := List.length_eq_zero_iff.mp hlen
    rw [if_neg (not_not.mpr rfl), if_pos hnil]
  · have hne : data.getD [] ≠ [] := by
      intro hnil
      rw [hnil] at hlen
      exact hzero (UInt32.toNat_inj.mp hlen.symm)
    rw [if_pos hzero, if_neg hne]
    rfl

/-- **What a call does**: it sets the payload that it asks for, and nothing else. -/
theorem setPayload_ok (hc : a.Consistent) {call : PayloadCall} (h : a.setPayload call = .ok a') :
    a'.Consistent ∧ a'.payload = call.payload ∧
      ∃ data dataSize size, a' = { a with data := data, dataSize := dataSize, size := size } := by
  cases call with
  | dataSize dataSize =>
    obtain rfl := Except.ok.inj h
    exact ⟨⟨rfl, fun hpos => absurd rfl hpos⟩, rfl, _, _, _, rfl⟩
  | text junk fill =>
    obtain ⟨data, hset, hbytes⟩ := @setFillText_ok a junk fill hc
    obtain rfl := Except.ok.inj (hset.symm.trans h)
    have hlen : (data.getD []).length = (UInt32.ofNat fill.length + 1).toNat := by
      rw [hbytes, List.length_take, List.length_append, List.length_singleton, UInt32.toNat_add,
        UInt32.toNat_ofNat', UInt32.toNat_one]
      omega
    obtain ⟨hc', hpayload⟩ := @consistent_of_data a _ _ hlen
    exact ⟨hc', hpayload.trans (congrArg _ hbytes), _, _, _, rfl⟩
  | byte junk fill dataSize =>
    obtain ⟨data, hset, hbytes⟩ := @setFillByte_ok a junk dataSize fill hc
    obtain rfl := Except.ok.inj (hset.symm.trans h)
    obtain ⟨hc', hpayload⟩ := @consistent_of_data a _ _
      ((congrArg List.length hbytes).trans List.length_replicate)
    exact ⟨hc', hpayload.trans (congrArg _ hbytes), _, _, _, rfl⟩
  | buffer junk fill dataSize bound =>
    obtain ⟨r, hset, hrest⟩ := bind_eq_ok.mp h
    cases r with
    | none => cases hrest
    | some r =>
      obtain rfl := Except.ok.inj hrest
      have hfill : fill.1.length = (UInt32.ofNat fill.1.length).toNat := by
        have := fill.2
        rw [UInt32.toNat_ofNat']
        omega
      obtain ⟨data, rfl, hfilled⟩ := setFillBuffer_some hc hfill hset
      obtain ⟨hc', hpayload⟩ := @consistent_of_data a _ data hfilled.length
      exact ⟨hc', hpayload.trans (congrArg _ (hfilled.repeats.eq_repeated hfilled.length _)),
        _, _, _, rfl⟩

/-- **The packet of a request.** -/
theorem createPacket_eq (hc : a.Consistent) (periodic : Bool) :
    a.createPacket (if periodic then 0 else 1) =
      match a.payload.request periodic with
      | some p => .ok p
      | none => .error .outOfRange := by
  unfold createPacket payload readData
  by_cases hzero : a.dataSize = 0
  · rw [if_neg (not_not.mpr hzero), if_neg (not_not.mpr hzero)]
    cases periodic <;> simp [Payload.request, Payload.sentOnce]
  · have hlen := hc.length
    rw [if_pos hzero, if_pos hzero]
    cases hdata : a.data with
    | none =>
      rw [bytes, hdata] at hlen
      exact absurd (UInt32.toNat_inj.mp hlen.symm) hzero
    | some l =>
      rw [if_pos ⟨(hc.size hzero).symm, rfl⟩]
      rw [bytes, hdata, Option.getD_some] at hlen ⊢
      cases periodic with
      | true => simp [Payload.request, hlen, Except.map]
      | false =>
        have hlt := a.dataSize.toNat_lt
        have hsum : (a.dataSize + 1).toNat = (l.length + 1) % 2 ^ 32 := by
          rw [UInt32.toNat_add, UInt32.toNat_one, hlen]
        by_cases hwrap : l.length + 1 = 2 ^ 32
        · rw [hwrap, Nat.mod_self] at hsum
          simp [Payload.request, Payload.sentOnce, hwrap, hsum, Except.map]
        · have hmod : (l.length + 1) % 2 ^ 32 = l.length + 1 := Nat.mod_eq_of_lt (by omega)
          rw [hmod] at hsum
          have hbehind : ¬ (a.dataSize + 1).toNat ≤ l.length := by omega
          simp only [Payload.request, Payload.sentOnce, Bool.false_eq_true, if_false, if_neg hwrap]
          rw [if_neg hbehind]
          rfl

end UdpOrchestrationCommunicationApp

/-! ## The app in the simulator -/

/-- The handlers that the app schedules. -/
inductive UdpHandler
  | send
  | sendOnce
  deriving DecidableEq

/-- The app in the simulator. -/
structure UdpSimulation where
  app : UdpOrchestrationCommunicationApp
  timers : Timers Time UdpHandler
  now : Time
  /-- when `StartApplication` was called -/
  started : Option Time
  /-- what was handed to the socket, and when -/
  history : List (Time × UdpPacket)

namespace UdpSimulation

/-- An installed app. -/
def installed (count : UInt32) (interval exeTime : ℕ) (periodic : Bool) (packetSize : UInt32) :
    UdpSimulation :=
  { app := .installed count interval exeTime periodic packetSize
    timers := Timers.empty, now := 0, started := none, history := [] }

variable (s : UdpSimulation)

/-- `Simulator::Schedule`, and the event is kept in `m_sendEvent`. -/
def schedule (time : Time) (handler : UdpHandler) : UdpSimulation :=
  { s with
    timers := s.timers.schedule time handler
    app := { s.app with sendEvent := some s.timers.next } }

def scheduleTransmit (dt : ℕ) : UdpSimulation :=
  if s.app.firstTime then
    let s := s.schedule (s.now + (s.app.exeTime : ℤ)) .send
    { s with app := { s.app with firstTime := false } }
  else s.schedule (s.now + (dt : ℤ)) .send

def scheduleOnce : UdpSimulation := s.schedule (s.now + (s.app.exeTime : ℤ)) .sendOnce

/-- `m_socket->Send (p)`, with the counter behind it. -/
def socketSend (p : UdpPacket) : Except Fault UdpSimulation :=
  if s.app.socket then
    .ok { s with app := { s.app with sent := s.app.sent + 1 }, history := s.history ++ [(s.now, p)] }
  else .error .nullPointer

/-- `NS_ASSERT (m_sendEvent.IsExpired ())`. -/
def assertExpired : Except Fault Unit :=
  if s.app.sendEvent.any s.timers.isRunning then .error .assertionFailed else .ok ()

def send : Except Fault UdpSimulation := do
  s.assertExpired
  let s ← s.socketSend (.request (← s.app.createPacket 0))
  pure (if s.app.sent < s.app.count then s.scheduleTransmit s.app.interval else s)

def sendOnce : Except Fault UdpSimulation := do
  s.assertExpired
  s.socketSend (.request (← s.app.createPacket 1))

/-- `SendOnceWithFill`. -/
def sendOnceWithFill (fill : Str) : Except Fault UdpSimulation := s.socketSend (.decision fill)

def startApplication : UdpSimulation :=
  let s := { s with app := { s.app with socket := true, firstTime := true }, started := some s.now }
  if s.app.periodic then s.scheduleTransmit s.app.interval else s.scheduleOnce

def stopApplication : UdpSimulation :=
  { s with
    timers := match s.app.sendEvent with
      | some id => s.timers.cancel id
      | none => s.timers
    app := { s.app with socket := false } }

/-- What can happen. The simulator starts the app once. -/
inductive Event
  | start (now : Time)
  | stop (now : Time)
  | setPayload (now : Time) (call : PayloadCall)
  /-- the management app sends a decision -/
  | decide (now : Time) (fill : Str)
  /-- the pending event -/
  | fire

/-- Time passes, but not beyond a pending event. -/
def advance (now : Time) : Except Fault UdpSimulation :=
  if s.now ≤ now ∧ s.timers.pending.all (fun q => now ≤ q.2.1) then .ok { s with now := now }
  else .error .notScheduled

/-- The event with its number taken out, at its time. -/
def take (q : ℕ × Time × UdpHandler) : UdpSimulation :=
  { s with now := q.2.1, timers := s.timers.cancel q.1 }

/-- A handler in the simulator. -/
def fireHandler : UdpHandler → Except Fault UdpSimulation
  | .send => s.send
  | .sendOnce => s.sendOnce

/-- One event. -/
def step (s : UdpSimulation) : Event → Except Fault UdpSimulation
  | .start now =>
    if s.started.isSome then .error .notScheduled else (s.advance now).map startApplication
  | .stop now => (s.advance now).map stopApplication
  | .setPayload now call => do
    let s ← s.advance now
    pure { s with app := ← s.app.setPayload call }
  | .decide now fill => do
    let s ← s.advance now
    s.sendOnceWithFill fill
  | .fire =>
    match s.timers.first with
    | none => .error .notScheduled
    | some q => (s.take q).fireHandler q.2.2

/-! ## What each event can do -/

variable {s} {s' : UdpSimulation} {e : Event} {now t : Time}

/-- The handler of a request. -/
def handlerOf (periodic : Bool) : UdpHandler := if periodic then .send else .sendOnce

/-- A request is pending at a time, and nothing else is. -/
def RequestPending (s : UdpSimulation) (t : Time) : Prop :=
  ∃ id, s.timers.pending = [(id, t, handlerOf s.app.periodic)] ∧ s.app.sendEvent = some id ∧
    s.app.socket = true

/-- The buffer is consistent, and one request is pending at most. -/
structure Inv (s : UdpSimulation) : Prop where
  consistent : s.app.Consistent
  pending : s.timers.pending = [] ∨ ∃ t, s.RequestPending t
  due : ∀ q ∈ s.timers.pending, s.now ≤ q.2.1
  begun : s.started = none →
    s.timers.pending = [] ∧ s.app.socket = false ∧ s.history = []
  first : s.started ≠ none → s.app.periodic = true → s.app.firstTime = false

/-- A started app. -/
def launched (s : UdpSimulation) (now : Time) : UdpSimulation :=
  { s with
    app := { s.app with
      socket := true, firstTime := !s.app.periodic, sendEvent := some s.timers.next }
    timers := s.timers.schedule (now + (s.app.exeTime : ℤ)) (handlerOf s.app.periodic)
    now := now
    started := some now }

/-- There will be another request. -/
def More (s : UdpSimulation) : Prop := s.app.periodic = true ∧ s.app.sent + 1 < s.app.count

instance (s : UdpSimulation) : Decidable s.More := inferInstanceAs (Decidable (_ ∧ _))

/-- A request has left; the next one is pending if there is one. -/
def requested (s : UdpSimulation) (id : ℕ) (t : Time) (p : Payload) : UdpSimulation :=
  { s with
    app := { s.app with
      sent := s.app.sent + 1
      sendEvent := if s.More then some s.timers.next else s.app.sendEvent }
    timers :=
      if s.More then (s.timers.cancel id).schedule (t + (s.app.interval : ℤ)) .send
      else s.timers.cancel id
    now := t
    history := s.history ++ [(t, .request p)] }

theorem advance_eq_ok : s.advance now = .ok s' ↔
    (s.now ≤ now ∧ ∀ q ∈ s.timers.pending, now ≤ q.2.1) ∧ s' = { s with now := now } := by
  unfold advance
  simp only [List.all_eq_true, decide_eq_true_eq]
  split_ifs with h
  · rw [Except.ok.injEq, eq_comm]
    exact (and_iff_right h).symm
  · exact ⟨nofun, fun hand => absurd hand.1 h⟩

theorem startApplication_eq (s : UdpSimulation) (now : Time) :
    ({ s with now := now } : UdpSimulation).startApplication = s.launched now := by
  unfold startApplication launched scheduleTransmit scheduleOnce schedule handlerOf
  cases hperiodic : s.app.periodic <;> simp [hperiodic]

/-- The pending event is the one that the app has kept. -/
theorem sendEvent_of_pending (hinv : s.Inv) {q : ℕ × Time × UdpHandler}
    (hq : q ∈ s.timers.pending) : s.app.sendEvent = some q.1 := by
  rcases hinv.pending with hnil | ⟨t, id, hpending, hid, -⟩
  · rw [hnil] at hq
    cases hq
  · rw [hpending, List.mem_singleton] at hq
    rw [hq, hid]

/-- The assertion of a request that is taken holds. -/
theorem assertExpired_take {q : ℕ × Time × UdpHandler} (hid : s.app.sendEvent = some q.1) :
    (s.take q).assertExpired = .ok () := by
  have hnot : ¬ (s.timers.cancel q.1).isRunning q.1 = true := by
    rw [Timers.isRunning_iff]
    rintro ⟨q', hq', heq⟩
    exact (Timers.mem_cancel.mp hq').2 heq
  unfold assertExpired take
  dsimp only
  rw [hid, Option.any_some, if_neg hnot]

/-- **A request that is taken** leaves, or it is read behind the buffer. -/
theorem step_fire (hinv : s.Inv) {id : ℕ}
    (hpending : s.timers.pending = [(id, t, handlerOf s.app.periodic)])
    (hsocket : s.app.socket = true) :
    s.step .fire = match s.app.payload.request s.app.periodic with
      | some p => .ok (s.requested id t p)
      | none => .error .outOfRange := by
  have hfirst := Timers.first_single hpending
  have hstarted : s.started ≠ none := by
    intro hnone
    rw [(hinv.begun hnone).1] at hpending
    cases hpending
  have hexpired := assertExpired_take
    (sendEvent_of_pending hinv (hpending ▸ List.mem_singleton_self _))
  have hpacket := UdpOrchestrationCommunicationApp.createPacket_eq hinv.consistent s.app.periodic
  have hfirstTime := hinv.first hstarted
  unfold step
  simp only [hfirst]
  cases hperiodic : s.app.periodic with
  | true =>
    rw [hperiodic] at hpacket hfirstTime
    rw [hperiodic] at hexpired
    simp only [handlerOf, if_true] at hexpired ⊢
    simp only [fireHandler, send, hexpired, ok_bind]
    simp only [take]
    rw [if_pos rfl] at hpacket
    rw [hpacket]
    simp only [Payload.request, if_true, ok_bind, socketSend, hsocket]
    simp only [requested, More, hperiodic, true_and, scheduleTransmit, hfirstTime rfl, hsocket,
      Bool.false_eq_true, if_false]
    split_ifs <;> rfl
  | false =>
    rw [hperiodic] at hpacket
    rw [hperiodic] at hexpired
    simp only [handlerOf, Bool.false_eq_true, if_false] at hexpired ⊢
    simp only [fireHandler, sendOnce, hexpired, ok_bind]
    simp only [take]
    rw [if_neg Bool.false_ne_true] at hpacket
    rw [hpacket]
    cases hp : s.app.payload.request false with
    | none => rfl
    | some p => simp [ok_bind, socketSend, hsocket, requested, More, hperiodic]

/-- No assertion of a request fails. -/
theorem step_fire_ne_assertionFailed (hinv : s.Inv) : s.step .fire ≠ .error .assertionFailed := by
  intro hfails
  rcases hinv.pending with hnil | ⟨t, id, hpending, -, hsocket⟩
  · unfold step Timers.first at hfails
    rw [hnil] at hfails
    cases hfails
  · rw [step_fire hinv hpending hsocket] at hfails
    cases hp : s.app.payload.request s.app.periodic with
    | none => rw [hp] at hfails; cases hfails
    | some p => rw [hp] at hfails; cases hfails

/-- **What an event can do.** -/
theorem step_cases (hinv : s.Inv) (h : s.step e = .ok s') :
    (∃ now, e = .start now ∧ s.now ≤ now ∧ s.started = none ∧ s' = s.launched now) ∨
    (∃ now timers, e = .stop now ∧ s.now ≤ now ∧ timers.pending = [] ∧
      s' = { s with now := now, timers := timers, app := { s.app with socket := false } }) ∨
    (∃ now call data dataSize size, e = .setPayload now call ∧ s.now ≤ now ∧
      (∀ q ∈ s.timers.pending, now ≤ q.2.1) ∧ s'.app.Consistent ∧ s'.app.payload = call.payload ∧
      s' = { s with
        now := now
        app := { s.app with data := data, dataSize := dataSize, size := size } }) ∨
    (∃ now fill, e = .decide now fill ∧ s.now ≤ now ∧ (∀ q ∈ s.timers.pending, now ≤ q.2.1) ∧
      s.app.socket = true ∧
      s' = { s with
        now := now
        app := { s.app with sent := s.app.sent + 1 }
        history := s.history ++ [(now, .decision fill)] }) ∨
    ∃ id t p, e = .fire ∧ s.timers.pending = [(id, t, handlerOf s.app.periodic)] ∧
      s.app.socket = true ∧ s.app.payload.request s.app.periodic = some p ∧
      s' = s.requested id t p := by
  cases e with
  | start now =>
    unfold step at h
    dsimp only at h
    split_ifs at h with hstarted
    obtain ⟨s₁, hadvance, rfl⟩ := map_eq_ok.mp h
    obtain ⟨⟨hnow, -⟩, rfl⟩ := advance_eq_ok.mp hadvance
    exact Or.inl ⟨now, rfl, hnow, Option.not_isSome_iff_eq_none.mp hstarted,
      startApplication_eq s now⟩
  | stop now =>
    obtain ⟨s₁, hadvance, rfl⟩ := map_eq_ok.mp h
    obtain ⟨⟨hnow, -⟩, rfl⟩ := advance_eq_ok.mp hadvance
    refine Or.inr (Or.inl ⟨now, _, rfl, hnow, ?_, rfl⟩)
    rcases hinv.pending with hnil | ⟨t, id, hpending, hid, -⟩
    · dsimp only
      split
      · simp [Timers.cancel, hnil]
      · exact hnil
    · rw [hid]
      exact Timers.pending_cancel_single hpending
  | setPayload now call =>
    obtain ⟨s₁, hadvance, hrest⟩ := bind_eq_ok.mp h
    obtain ⟨⟨hnow, hall⟩, rfl⟩ := advance_eq_ok.mp hadvance
    obtain ⟨app, hset, hpure⟩ := bind_eq_ok.mp hrest
    obtain rfl := pure_eq_ok.mp hpure
    obtain ⟨hc, hpayload, data, dataSize, size, rfl⟩ :=
      UdpOrchestrationCommunicationApp.setPayload_ok hinv.consistent hset
    exact Or.inr (Or.inr (Or.inl ⟨now, call, data, dataSize, size, rfl, hnow, hall, hc, hpayload, rfl⟩))
  | decide now fill =>
    obtain ⟨s₁, hadvance, hrest⟩ := bind_eq_ok.mp h
    obtain ⟨⟨hnow, hall⟩, rfl⟩ := advance_eq_ok.mp hadvance
    unfold sendOnceWithFill socketSend at hrest
    split_ifs at hrest with hsocket
    exact Or.inr (Or.inr (Or.inr (Or.inl
      ⟨now, fill, rfl, hnow, hall, hsocket, (Except.ok.inj hrest).symm⟩)))
  | fire =>
    rcases hinv.pending with hnil | ⟨t, id, hpending, -, hsocket⟩
    · unfold step at h
      have hnone : s.timers.first = none := by
        unfold Timers.first
        rw [hnil]
        rfl
      rw [hnone] at h
      cases h
    · rw [step_fire hinv hpending hsocket] at h
      cases hp : s.app.payload.request s.app.periodic with
      | none =>
        rw [hp] at h
        cases h
      | some p =>
        rw [hp] at h
        exact Or.inr (Or.inr (Or.inr (Or.inr
          ⟨id, t, p, rfl, hpending, hsocket, rfl, (Except.ok.inj h).symm⟩)))

/-! ## One request is pending at most -/

theorem inv_installed (count : UInt32) (interval exeTime : ℕ) (periodic : Bool)
    (packetSize : UInt32) : (installed count interval exeTime periodic packetSize).Inv where
  consistent := ⟨rfl, fun h => absurd rfl h⟩
  pending := Or.inl rfl
  due := nofun
  begun _ := ⟨rfl, rfl, rfl⟩
  first h := absurd rfl h

theorem inv_launched (hinv : s.Inv) (hstarted : s.started = none) : (s.launched now).Inv := by
  obtain ⟨hnil, -, -⟩ := hinv.begun hstarted
  have hpending : (s.launched now).timers.pending =
      [(s.timers.next, now + (s.app.exeTime : ℤ), handlerOf s.app.periodic)] := by
    simp [launched, Timers.schedule, hnil]
  refine ⟨⟨hinv.consistent.length, hinv.consistent.size⟩, Or.inr ⟨_, _, hpending, rfl, rfl⟩,
    fun q hq => ?_, fun hnone => absurd hnone (Option.some_ne_none now), fun _ hperiodic => ?_⟩
  · rw [hpending, List.mem_singleton] at hq
    rw [hq]
    exact Int.le_add_of_nonneg_right (Int.natCast_nonneg _)
  · show (!s.app.periodic) = false
    rw [show s.app.periodic = true from hperiodic]
    rfl

/-- The event that is pending after a request, if there is one. -/
theorem pending_requested {id : ℕ} {handler : UdpHandler} {p : Payload}
    (hpending : s.timers.pending = [(id, t, handler)]) :
    (s.requested id t p).timers.pending =
      if s.More then [(s.timers.next, t + (s.app.interval : ℤ), .send)] else [] := by
  have hnil : (s.timers.cancel id).pending = [] := Timers.pending_cancel_single hpending
  unfold requested
  dsimp only
  split_ifs
  · show (s.timers.cancel id).pending ++ _ = _
    rw [hnil]
    rfl
  · exact hnil

theorem inv_requested (hinv : s.Inv) {id : ℕ} {p : Payload}
    (hpending : s.timers.pending = [(id, t, handlerOf s.app.periodic)])
    (hsocket : s.app.socket = true) : (s.requested id t p).Inv := by
  have hnext := pending_requested (p := p) hpending
  have hstarted : s.started ≠ none := by
    intro hnone
    rw [(hinv.begun hnone).1] at hpending
    cases hpending
  refine ⟨⟨hinv.consistent.length, hinv.consistent.size⟩, ?_, fun q hq => ?_,
    fun hnone => absurd hnone hstarted, fun _ => hinv.first hstarted⟩
  · by_cases hmore : s.More
    · rw [if_pos hmore] at hnext
      refine Or.inr ⟨t + (s.app.interval : ℤ), s.timers.next, ?_, if_pos hmore, hsocket⟩
      have hsend : handlerOf s.app.periodic = .send := by rw [hmore.1]; rfl
      exact hnext.trans (by rw [← hsend]; rfl)
    · exact Or.inl (hnext.trans (if_neg hmore))
  · rw [hnext] at hq
    split_ifs at hq
    · rw [List.mem_singleton.mp hq]
      exact Int.le_add_of_nonneg_right (Int.natCast_nonneg _)
    · cases hq

theorem inv_step (hinv : s.Inv) (h : s.step e = .ok s') : s'.Inv := by
  obtain ⟨now, -, -, hstarted, rfl⟩ | ⟨now, timers, -, -, hnil, rfl⟩ |
    ⟨now, call, data, dataSize, size, -, -, hall, hc, -, rfl⟩ |
    ⟨now, fill, -, -, hall, hsocket, rfl⟩ | ⟨id, t, p, -, hpending, hsocket, -, rfl⟩ :=
    step_cases hinv h
  · exact inv_launched hinv hstarted
  · refine ⟨⟨hinv.consistent.length, hinv.consistent.size⟩, Or.inl hnil, fun q hq => ?_,
      fun hnone => ⟨hnil, rfl, (hinv.begun hnone).2.2⟩, hinv.first⟩
    rw [hnil] at hq
    cases hq
  · exact ⟨hc, hinv.pending, hall, hinv.begun, hinv.first⟩
  · refine ⟨⟨hinv.consistent.length, hinv.consistent.size⟩, hinv.pending, hall, fun hnone => ?_,
      hinv.first⟩
    rw [(hinv.begun hnone).2.1] at hsocket
    cases hsocket
  · exact inv_requested hinv hpending hsocket

/-! ## What the requests carry -/

/-- The payload that the events ask for, last. -/
def payloadOf (p : Payload) (es : List Event) : Payload :=
  es.foldl (fun p e => match e with
    | .setPayload _ call => call.payload
    | _ => p) p

/-- What the events send: requests with the payload that was set last, and the decisions. -/
def packetsOf (periodic : Bool) : Payload → List Event → List UdpPacket
  | _, [] => []
  | _, .setPayload _ call :: es => packetsOf periodic call.payload es
  | p, .decide _ fill :: es => .decision fill :: packetsOf periodic p es
  | p, .fire :: es => ((p.request periodic).map .request).toList ++ packetsOf periodic p es
  | p, .start _ :: es => packetsOf periodic p es
  | p, .stop _ :: es => packetsOf periodic p es

/-- **A run sends what its events ask for.** -/
theorem history_run {es : List Event} (hinv : s.Inv) (h : run step s es = .ok s') :
    s'.Inv ∧ s'.app.periodic = s.app.periodic ∧ s'.app.payload = payloadOf s.app.payload es ∧
      s'.history.map Prod.snd =
        s.history.map Prod.snd ++ packetsOf s.app.periodic s.app.payload es := by
  induction es generalizing s with
  | nil =>
    obtain rfl := Except.ok.inj h
    exact ⟨hinv, rfl, rfl, (List.append_nil _).symm⟩
  | cons e es ih =>
    obtain ⟨s₁, hstep, hrun⟩ := run_cons.mp h
    obtain ⟨hinv', hperiodic, hpayload, hhistory⟩ := ih (inv_step hinv hstep) hrun
    refine ⟨hinv', ?_⟩
    rw [hperiodic, hpayload, hhistory]
    obtain ⟨now, rfl, -, -, rfl⟩ | ⟨now, timers, rfl, -, -, rfl⟩ |
      ⟨now, call, data, dataSize, size, rfl, -, -, -, hset, rfl⟩ |
      ⟨now, fill, rfl, -, -, -, rfl⟩ | ⟨id, t, p, rfl, -, -, hp, rfl⟩ := step_cases hinv hstep
    · exact ⟨rfl, rfl, rfl⟩
    · exact ⟨rfl, rfl, rfl⟩
    · rw [hset]
      exact ⟨rfl, rfl, rfl⟩
    · refine ⟨rfl, rfl, ?_⟩
      simp only [packetsOf, List.map_append, List.map_cons, List.map_nil, List.append_assoc]
      rfl
    · refine ⟨rfl, rfl, ?_⟩
      simp only [packetsOf, hp]
      show List.map Prod.snd (s.history ++ [(t, .request p)]) ++ _ = _
      rw [List.map_append, List.append_assoc]
      rfl

/-- **What is sent, and what fails.** In every run the app hands to its socket, in this order, the
decisions and, for every request, the payload that was set last before it, one byte longer if there is
one request only. The event that is pending is the one that the app has kept, and no assertion of a
request fails. A request that is pending can be sent unless that byte is behind the buffer. -/
theorem request_packets {count : UInt32} {interval exeTime : ℕ} {periodic : Bool}
    {packetSize : UInt32} {es : List Event}
    (h : run step (installed count interval exeTime periodic packetSize) es = .ok s) :
    s.history.map Prod.snd = packetsOf periodic (.blank packetSize) es ∧ s.app.Consistent ∧
      (∀ q ∈ s.timers.pending, s.app.sendEvent = some q.1) ∧
      s.step .fire ≠ .error .assertionFailed ∧
      (s.timers.pending ≠ [] →
        ((∃ s', s.step .fire = .ok s') ↔
          (payloadOf (.blank packetSize) es).request periodic ≠ none) ∧
        (s.step .fire = .error .outOfRange ↔
          (payloadOf (.blank packetSize) es).request periodic = none)) := by
  obtain ⟨hinv, hperiodic, hpayload, hhistory⟩ :=
    history_run (inv_installed count interval exeTime periodic packetSize) h
  refine ⟨hhistory, hinv.consistent, fun q hq => sendEvent_of_pending hinv hq,
    step_fire_ne_assertionFailed hinv, fun hne => ?_⟩
  obtain ⟨t, id, hpending, -, hsocket⟩ := hinv.pending.resolve_left hne
  have hfire := step_fire hinv hpending hsocket
  have hperiodic : s.app.periodic = periodic := hperiodic
  have hpayload : s.app.payload = payloadOf (.blank packetSize) es := hpayload
  rw [hperiodic, hpayload] at hfire
  rw [hfire]
  cases (payloadOf (.blank packetSize) es).request periodic with
  | none => simp
  | some p => simp

/-- One decision between two requests of a pattern; the third packet is the last one. -/
theorem request_packets_abc : ∃ s, run step (installed 3 10 5 true 100)
    [.setPayload 0 (.buffer (fun _ => '?') ⟨"abc".toList, by decide⟩ 5 9), .start 1, .fire,
      .decide 7 "/x".toList, .setPayload 8 (.dataSize 4), .fire] = .ok s ∧
      s.history.map Prod.snd = packetsOf true (.blank 100)
        [.setPayload 0 (.buffer (fun _ => '?') ⟨"abc".toList, by decide⟩ 5 9), .start 1, .fire,
          .decide 7 "/x".toList, .setPayload 8 (.dataSize 4), .fire] := by
  have hrun : (run step (installed 3 10 5 true 100)
      [.setPayload 0 (.buffer (fun _ => '?') ⟨"abc".toList, by decide⟩ 5 9), .start 1, .fire,
        .decide 7 "/x".toList, .setPayload 8 (.dataSize 4), .fire]).map
      (fun s => s.history.map Prod.snd) =
        .ok [.request (.bytes "abcab".toList), .decision "/x".toList, .request (.blank 4)] := by
    decide +kernel
  obtain ⟨s, hs, -⟩ := map_eq_ok.mp hrun
  exact ⟨s, hs, (request_packets hs).1⟩

/-! ## When the requests leave -/

/-- A decision of the management app. -/
def isDecision : Time × UdpPacket → Bool
  | (_, .request _) => false
  | (_, .decision _) => true

/-- The times at which requests left. -/
def requestsAt (h : List (Time × UdpPacket)) : List Time :=
  h.filterMap fun
    | (t, .request _) => some t
    | (_, .decision _) => none

/-- The number of packets up to the last request, decisions as well. -/
def upToLast (h : List (Time × UdpPacket)) : ℕ := (h.rdropWhile isDecision).length

@[simp] theorem requestsAt_concat_request {h : List (Time × UdpPacket)} {p : Payload} :
    requestsAt (h ++ [(t, .request p)]) = requestsAt h ++ [t] := by
  simp [requestsAt]

@[simp] theorem requestsAt_concat_decision {h : List (Time × UdpPacket)} {fill : Str} :
    requestsAt (h ++ [(t, .decision fill)]) = requestsAt h := by
  simp [requestsAt]

theorem upToLast_concat_request {h : List (Time × UdpPacket)} {p : Payload} :
    upToLast (h ++ [(t, .request p)]) = h.length + 1 := by
  rw [upToLast, List.rdropWhile_concat_neg _ _ _ (by simp [isDecision]), List.length_append,
    List.length_singleton]

theorem upToLast_concat_decision {h : List (Time × UdpPacket)} {fill : Str} :
    upToLast (h ++ [(t, .decision fill)]) = upToLast h := by
  rw [upToLast, List.rdropWhile_concat_pos _ _ _ rfl, upToLast]

/-- The requests are among the packets up to the last one. -/
theorem length_requestsAt_le (h : List (Time × UdpPacket)) :
    (requestsAt h).length ≤ upToLast h ∧ upToLast h ≤ h.length := by
  refine ⟨?_, (List.rdropWhile_prefix _ _).length_le⟩
  induction h using List.reverseRecOn with
  | nil => exact Nat.zero_le _
  | append_singleton h q ih =>
    obtain ⟨t, p | fill⟩ := q
    · rw [upToLast_concat_request, requestsAt_concat_request, List.length_append,
        List.length_singleton]
      exact Nat.succ_le_succ (List.length_filterMap_le _ _)
    · rwa [upToLast_concat_decision, requestsAt_concat_decision]

/-- The time of a request. -/
def requestTime (s : UdpSimulation) (t₀ : Time) (k : ℕ) : Time :=
  t₀ + (s.app.exeTime : ℤ) + k * (s.app.interval : ℤ)

/-- The requests are an interval apart, and there is another one until enough packets have left. -/
structure OnTime (s : UdpSimulation) : Prop where
  sent : s.app.sent = UInt32.ofNat s.history.length
  times : ∀ t₀, s.started = some t₀ → requestsAt s.history =
    (List.range (requestsAt s.history).length).map (s.requestTime t₀)
  next : ∀ t₀, s.started = some t₀ → ∀ t, s.RequestPending t ↔
    s.app.socket = true ∧ t = s.requestTime t₀ (requestsAt s.history).length ∧
      ((requestsAt s.history).length = 0 ∨
        s.app.periodic = true ∧ UInt32.ofNat (upToLast s.history) < s.app.count)
  enough : s.history.length < 2 ^ 32 → (requestsAt s.history).length ≤
    if s.app.periodic then max 1 s.app.count.toNat else 1

theorem onTime_installed (count : UInt32) (interval exeTime : ℕ) (periodic : Bool)
    (packetSize : UInt32) : (installed count interval exeTime periodic packetSize).OnTime :=
  ⟨rfl, nofun, nofun, fun _ => Nat.zero_le _⟩

/-- What is pending behind a request. -/
theorem requestPending_requested {id : ℕ} {p : Payload}
    (hpending : s.timers.pending = [(id, t, handlerOf s.app.periodic)])
    (hsocket : s.app.socket = true) {t' : Time} :
    (s.requested id t p).RequestPending t' ↔ s.More ∧ t' = t + (s.app.interval : ℤ) := by
  have hnext := pending_requested (p := p) hpending
  by_cases hmore : s.More
  · have hsend : handlerOf s.app.periodic = .send := by rw [hmore.1]; rfl
    rw [if_pos hmore, ← hsend] at hnext
    refine ⟨fun ⟨id', hpending', _⟩ => ⟨hmore, ?_⟩, ?_⟩
    · have heq := hnext.symm.trans hpending'
      simp only [List.cons.injEq, Prod.mk.injEq] at heq
      exact heq.1.2.1.symm
    · rintro ⟨-, rfl⟩
      exact ⟨_, hnext, if_pos hmore, hsocket⟩
  · rw [if_neg hmore] at hnext
    refine ⟨fun ⟨id', hpending', _⟩ => ?_, fun hand => absurd hand.1 hmore⟩
    have heq := hnext.symm.trans hpending'
    cases heq

theorem onTime_requested (hinv : s.Inv) (hon : s.OnTime) {id : ℕ} {p : Payload}
    (hpending : s.timers.pending = [(id, t, handlerOf s.app.periodic)])
    (hsocket : s.app.socket = true) : (s.requested id t p).OnTime := by
  have hid : s.app.sendEvent = some id :=
    sendEvent_of_pending hinv (hpending ▸ List.mem_singleton_self _)
  have hnow : s.RequestPending t := ⟨id, hpending, hid, hsocket⟩
  have hrequests : requestsAt (s.requested id t p).history = requestsAt s.history ++ [t] :=
    requestsAt_concat_request
  have hcount : (requestsAt (s.requested id t p).history).length =
      (requestsAt s.history).length + 1 := by
    rw [hrequests, List.length_append, List.length_singleton]
  have hlength : (s.requested id t p).history.length = s.history.length + 1 := by
    simp [requested]
  have hsent : s.app.sent + 1 = UInt32.ofNat (s.history.length + 1) := by
    rw [hon.sent, UInt32.ofNat_add]
    rfl
  refine ⟨?_, fun t₀ hstarted => ?_, fun t₀ hstarted t' => ?_, fun hbound => ?_⟩
  · rw [hlength]
    exact hsent
  · rw [hcount, hrequests, List.range_succ, List.map_append, hon.times t₀ hstarted,
      ((hon.next t₀ hstarted t).mp hnow).2.1, List.length_map, List.length_range]
    rfl
  · rw [requestPending_requested hpending hsocket, hcount]
    have htime : t + (s.app.interval : ℤ) =
        s.requestTime t₀ ((requestsAt s.history).length + 1) := by
      rw [((hon.next t₀ hstarted t).mp hnow).2.1]
      unfold requestTime
      push_cast
      ring
    have hlast : UInt32.ofNat (upToLast (s.requested id t p).history) = s.app.sent + 1 := by
      rw [hsent]
      exact congrArg UInt32.ofNat upToLast_concat_request
    rw [hlast, htime]
    constructor
    · rintro ⟨⟨hperiodic, hlt⟩, rfl⟩
      exact ⟨hsocket, rfl, Or.inr ⟨hperiodic, hlt⟩⟩
    · rintro ⟨-, rfl, hzero | hmore⟩
      · cases hzero
      · exact ⟨hmore, rfl⟩
  · rw [hlength] at hbound
    rw [hcount]
    obtain ⟨t₀, hstarted⟩ : ∃ t₀, s.started = some t₀ := by
      rw [← Option.isSome_iff_exists, Option.isSome_iff_ne_none]
      intro hnone
      rw [(hinv.begun hnone).1] at hpending
      cases hpending
    obtain ⟨hle, hle'⟩ := length_requestsAt_le s.history
    rcases ((hon.next t₀ hstarted t).mp hnow).2.2 with hzero | ⟨hperiodic, hlt⟩
    · rw [hzero]
      split_ifs <;> omega
    · rw [show (s.requested id t p).app.periodic = true from hperiodic, if_pos rfl]
      rw [UInt32.lt_iff_toNat_lt, UInt32.toNat_ofNat', Nat.mod_eq_of_lt (by omega)] at hlt
      exact le_max_of_le_right (by show _ ≤ s.app.count.toNat; omega)

theorem onTime_step (hinv : s.Inv) (hon : s.OnTime) (h : s.step e = .ok s') : s'.OnTime := by
  obtain ⟨now, -, -, hstarted, rfl⟩ | ⟨now, timers, -, -, hnil, rfl⟩ |
    ⟨now, call, data, dataSize, size, -, -, -, -, -, rfl⟩ |
    ⟨now, fill, -, -, -, hsocket, rfl⟩ | ⟨id, t, p, -, hpending, hsocket, -, rfl⟩ :=
    step_cases hinv h
  · obtain ⟨hnil, -, hhistory⟩ := hinv.begun hstarted
    have hempty : (s.launched now).history = [] := hhistory
    refine ⟨hon.sent, fun t₀ _ => ?_, ?_, hon.enough⟩
    · rw [hempty]
      rfl
    · rintro t₀ ⟨⟩ t
      have hpending : (s.launched now).timers.pending =
          [(s.timers.next, now + (s.app.exeTime : ℤ), handlerOf s.app.periodic)] := by
        simp [launched, Timers.schedule, hnil]
      have htime : (s.launched now).requestTime now 0 = now + (s.app.exeTime : ℤ) := by
        simp [requestTime, launched]
      rw [hempty, show (requestsAt []).length = 0 from rfl, htime]
      constructor
      · rintro ⟨id, hpending', -, -⟩
        have heq := hpending.symm.trans hpending'
        simp only [List.cons.injEq, Prod.mk.injEq] at heq
        exact ⟨rfl, heq.1.2.1.symm, Or.inl rfl⟩
      · rintro ⟨-, rfl, -⟩
        exact ⟨_, hpending, rfl, rfl⟩
  · refine ⟨hon.sent, hon.times, fun t₀ _ t => ⟨?_, fun hand => absurd hand.1 Bool.false_ne_true⟩,
      hon.enough⟩
    rintro ⟨id, hpending, -, -⟩
    rw [show timers.pending = [] from hnil] at hpending
    cases hpending
  · exact ⟨hon.sent, hon.times, hon.next, hon.enough⟩
  · have hrequests : requestsAt (s.history ++ [(now, .decision fill)]) = requestsAt s.history :=
      requestsAt_concat_decision
    have hlast : upToLast (s.history ++ [(now, .decision fill)]) = upToLast s.history :=
      upToLast_concat_decision
    have hlength : (s.history ++ [(now, UdpPacket.decision fill)]).length = s.history.length + 1 :=
      List.length_append
    refine ⟨?_, ?_, ?_, fun hbound => ?_⟩
    · show s.app.sent + 1 = UInt32.ofNat (s.history ++ [(now, UdpPacket.decision fill)]).length
      rw [hlength, hon.sent, UInt32.ofNat_add]
      rfl
    · dsimp only
      rw [hrequests]
      exact hon.times
    · dsimp only
      rw [hrequests, hlast]
      exact hon.next
    · dsimp only at hbound ⊢
      rw [hrequests]
      rw [hlength] at hbound
      exact hon.enough (by omega)
  · exact onTime_requested hinv hon hpending hsocket

/-- The settings of the app. -/
def settings (s : UdpSimulation) : UInt32 × ℕ × ℕ × Bool :=
  (s.app.count, s.app.interval, s.app.exeTime, s.app.periodic)

theorem settings_step (hinv : s.Inv) (h : s.step e = .ok s') : s'.settings = s.settings := by
  obtain ⟨now, -, -, -, rfl⟩ | ⟨now, timers, -, -, -, rfl⟩ |
    ⟨now, call, data, dataSize, size, -, -, -, -, -, rfl⟩ | ⟨now, fill, -, -, -, -, rfl⟩ |
    ⟨id, t, p, -, -, -, -, rfl⟩ := step_cases hinv h <;> rfl

/-- **When requests leave.** In every run of an app that was started at `t₀`, the `n` requests so far
left at `t₀ + exeTime + k * interval`. As long as the app is not stopped another one is pending, an
interval behind the last one, if there was none, or if the app is periodic and had sent less than
`count` packets with the last request; decisions count as well. So there are not more than `count`
requests, but at least one, unless the counter of `2 ^ 32` packets starts again. -/
theorem request_rate {count : UInt32} {interval exeTime : ℕ} {periodic : Bool}
    {packetSize : UInt32} {es : List Event}
    (h : run step (installed count interval exeTime periodic packetSize) es = .ok s) {t₀ : Time}
    (hstarted : s.started = some t₀) :
    ∃ n : ℕ, requestsAt s.history = (List.range n).map
        (fun k : ℕ => t₀ + (exeTime : ℤ) + k * (interval : ℤ)) ∧
      (∀ t, s.RequestPending t ↔ s.app.socket = true ∧
        t = t₀ + (exeTime : ℤ) + n * (interval : ℤ) ∧
          (n = 0 ∨ periodic = true ∧ UInt32.ofNat (upToLast s.history) < count)) ∧
      (s.history.length < 2 ^ 32 → n ≤ if periodic then max 1 count.toNat else 1) := by
  obtain ⟨-, hon, hsettings⟩ := run_invariant
    (P := fun s => s.Inv ∧ s.OnTime ∧ s.settings = (count, interval, exeTime, periodic))
    (fun _ _ _ ⟨hinv, hon, hsettings⟩ hs =>
      ⟨inv_step hinv hs, onTime_step hinv hon hs, (settings_step hinv hs).trans hsettings⟩)
    ⟨inv_installed count interval exeTime periodic packetSize,
      onTime_installed count interval exeTime periodic packetSize, rfl⟩ h
  simp only [settings, Prod.mk.injEq] at hsettings
  obtain ⟨rfl, rfl, rfl, rfl⟩ := hsettings
  exact ⟨_, hon.times t₀ hstarted, hon.next t₀ hstarted, hon.enough⟩

/-- Two requests and a decision are three packets: there is no third request. -/
theorem request_rate_decided : ∃ s, run step (installed 3 10 5 true 100)
    [.start 1, .fire, .decide 7 "/x".toList, .fire] = .ok s ∧
      requestsAt s.history = [6, 16] ∧ ∀ t, ¬ s.RequestPending t := by
  have hrun : (run step (installed 3 10 5 true 100)
      [.start 1, .fire, .decide 7 "/x".toList, .fire]).map
      (fun s => (s.started, (requestsAt s.history).length, upToLast s.history)) =
        .ok (some 1, 2, 3) := by
    decide +kernel
  obtain ⟨s, hs, hs'⟩ := map_eq_ok.mp hrun
  simp only [Prod.mk.injEq] at hs'
  obtain ⟨hstarted, hlength, hlast⟩ := hs'
  obtain ⟨n, htimes, hpending, -⟩ := request_rate hs hstarted
  have hn : n = 2 := by
    rw [htimes, List.length_map, List.length_range] at hlength
    exact hlength
  subst hn
  refine ⟨s, hs, htimes.trans (by decide), fun t ht => ?_⟩
  obtain ⟨-, -, hmore⟩ := (hpending t).mp ht
  rw [hlast] at hmore
  exact absurd hmore (by decide)

end UdpSimulation

end IncSim
