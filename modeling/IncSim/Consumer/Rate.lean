import IncSim.Consumer.Schedule

/-!
# The rate of the consumer

* `sentAt`: when Interests left the app.
* `OnSchedule`, **`constant_rate`**: without a limit and without random delays the Interests, new ones
  and retransmissions alike, leave at `start + k * interval`.
* `Steady`, **`paced_run`**: with a limit they are at least an interval apart, a check is always
  pending, and an active app has a packet pending until it is done.
* `Mirrors`, **`outstanding_pending`**: every request without an answer has the event pending that
  attends to it.
-/

namespace IncSim

open PartialRun
open scoped SequenceNumber
open IncConsumerBaseApp (Obs sentTimes Answered Watch)

namespace Simulation

/-- The times at which Interests left the app. -/
def sentAt (h : List Obs) : List Time :=
  h.filterMap fun
    | .sent _ now => some now
    | .data _ _ => none

@[simp] theorem sentAt_concat_sent {h : List Obs} {seq : UInt32} {now : Time} :
    sentAt (h ++ [.sent seq now]) = sentAt h ++ [now] := by
  simp [sentAt]

@[simp] theorem sentAt_concat_data {h : List Obs} {seq : UInt32} {now : Time} :
    sentAt (h ++ [.data seq now]) = sentAt h := by
  simp [sentAt]

variable {s s' : Simulation} {t t' : Time}

/-! ## What the handlers leave as it is -/

theorem sentAt_onData (s : Simulation) (seq : UInt32) :
    sentAt (s.onData seq).history = sentAt s.history := by
  unfold onData
  dsimp only
  split_ifs
  · exact sentAt_concat_data
  · rfl

theorem seqMax_onData (app : IncConsumerBaseApp) (now : Time) (seq : UInt32) :
    (app.onData now seq).1.seqMax = app.seqMax := by
  unfold IncConsumerBaseApp.onData
  split_ifs <;> rfl

theorem nextSeq_keeps (app : IncConsumerBaseApp) :
    app.nextSeq.1.active = app.active ∧ app.nextSeq.1.seqMax = app.seqMax := by
  unfold IncConsumerBaseApp.nextSeq
  cases app.retxSeqs.first with
  | none => dsimp only; split_ifs <;> exact ⟨rfl, rfl⟩
  | some seq => dsimp only; split_ifs <;> exact ⟨rfl, rfl⟩

theorem sendPacket_keeps (app : IncConsumerBaseApp) (now : Time) :
    (app.sendPacket now).1.active = app.active ∧ (app.sendPacket now).1.seqMax = app.seqMax := by
  have hnext := nextSeq_keeps app
  unfold IncConsumerBaseApp.sendPacket
  split_ifs
  · rcases hp : app.nextSeq with ⟨app', _ | seq⟩
    · rw [hp] at hnext
      exact hnext
    · rw [hp] at hnext
      exact hnext
  · exact ⟨rfl, rfl⟩

/-- An active app sends nothing only when it is done: no number is to be retransmitted, and the next
one is beyond the limit. -/
def Done (app : IncConsumerBaseApp) : Prop :=
  app.retxSeqs.entries = [] ∧ app.seqMax ≠ SequenceNumber.max ∧ app.seqMax ≤ app.seq

theorem nextSeq_none {app : IncConsumerBaseApp} (hnone : app.nextSeq.2 = none) :
    Done app.nextSeq.1 ∧ app.nextSeq.1.seq = app.seq := by
  unfold IncConsumerBaseApp.nextSeq at hnone ⊢
  cases hfirst : app.retxSeqs.first with
  | none =>
    rw [hfirst] at hnone
    dsimp only at hnone ⊢
    rw [if_pos rfl] at hnone ⊢
    split_ifs at hnone ⊢ with hdone
    exact ⟨⟨OrdMap.first_eq_none.mp hfirst, hdone⟩, rfl⟩
  | some seq =>
    rw [hfirst] at hnone
    dsimp only at hnone ⊢
    split_ifs at hnone ⊢ with hmax hdone
    refine ⟨⟨OrdMap.entries_erase_first hfirst fun seq' hlt => ?_, hdone⟩, rfl⟩
    exact SequenceNumber.ne_max_of_lt hlt hmax

theorem sendPacket_none {app : IncConsumerBaseApp} {now : Time} (hactive : app.active = true)
    (hnone : (app.sendPacket now).2 = none) :
    Done (app.sendPacket now).1 ∧ (app.sendPacket now).1.seq = app.seq := by
  rw [IncConsumerBaseApp.sendPacket, if_pos hactive] at hnone ⊢
  rcases hp : app.nextSeq with ⟨app', _ | seq⟩
  · have hnext := nextSeq_none (congrArg Prod.snd hp)
    rwa [hp] at hnext
  · rw [hp] at hnone
    cases hnone

theorem scheduleNextPacket_keeps (s : Simulation) (draw : ℕ) :
    (s.scheduleNextPacket draw).app.base = s.app.base ∧
      (s.scheduleNextPacket draw).history = s.history ∧
      (s.scheduleNextPacket draw).started = s.started ∧
      (s.scheduleNextPacket draw).now = s.now := by
  unfold scheduleNextPacket
  split_ifs <;> exact ⟨rfl, rfl, rfl, rfl⟩

theorem sendPending_setRetxTimer (h : s.Pending) (retxTimer : ℕ) :
    (s.setRetxTimer retxTimer).SendPending t ↔ s.SendPending t := by
  rw [setRetxTimer_eq, sendPending_checkScheduled]
  exact (unchecked_spec h).2.2 t

/-- **`StartApplication`** makes the app active and schedules the first packet now. -/
theorem startApplication_eq (h : s.Inv) (hstarted : s.started = none) :
    s.startApplication = scheduled
      { s with
        app := { s.app with base := { s.app.base with active := true } }
        started := some s.now } s.now :=
  if_pos (h.begun.mpr hstarted)

/-- **What `SendPacket` can do** when it is taken: nothing, or it sends and schedules the next one. -/
theorem sendPacket_cases (h : s.Inv) (hnone : ∀ t, ¬ s.SendPending t) (draw : ℕ) :
    (s.sendPacket draw = { s with app := { s.app with base := (s.app.base.sendPacket s.now).1 } } ∧
      (s.app.base.sendPacket s.now).2 = none) ∨
    ∃ seq, (s.app.base.sendPacket s.now).2 = some seq ∧ s.app.base.active = true ∧
      s.sendPacket draw = scheduled
        { s with
          app := { s.app with base := (s.app.base.sendPacket s.now).1 }
          history := s.history ++ [.sent seq s.now] } (s.now + s.delay draw) := by
  unfold sendPacket
  rcases hp : s.app.base.sendPacket s.now with ⟨base, _ | seq⟩
  · exact Or.inl ⟨rfl, rfl⟩
  · refine Or.inr ⟨seq, rfl, ?_, ?_⟩
    · by_contra hactive
      rw [IncConsumerBaseApp.sendPacket, if_neg hactive] at hp
      cases hp
    · have hpending := h.pending.congr base s.started (s.history ++ [.sent seq s.now])
      rcases scheduleNextPacket_cases hpending draw with ⟨⟨t, ht⟩, -⟩ | ⟨-, heq⟩
      · exact absurd ht (hnone t)
      · exact heq

/-- After the start the delay is the interval, or random. -/
theorem Inv.delay_eq (h : s.Inv) (hstarted : s.started ≠ none) (draw : ℕ) :
    s.delay draw = if s.app.random then draw else s.app.interval := by
  rw [delay, if_neg fun hf => hstarted (h.begun.mp hf)]

/-! ## A constant rate -/

/-- An app without a limit whose delays are constant: since the start `n` Interests have left, and the
next one is due. -/
structure OnSchedule (interval : ℕ) (s : Simulation) : Prop where
  constant : s.app.random = false ∧ s.app.interval = interval
  unlimited : s.app.base.seqMax = SequenceNumber.max
  times : ∀ t₀, s.started = some t₀ →
    ∃ n : ℕ, sentAt s.history = (List.range n).map (fun k : ℕ => t₀ + k * (interval : ℤ)) ∧
      (s.app.base.active = true → s.SendPending (t₀ + n * (interval : ℤ)))

namespace OnSchedule

variable {interval : ℕ}

theorem startApplication (h : s.Inv) (ho : OnSchedule interval s) (hstarted : s.started = none) :
    OnSchedule interval s.startApplication := by
  rw [startApplication_eq h hstarted]
  refine ⟨ho.constant, ho.unlimited, fun t₀ ht₀ => ⟨0, ?_, fun _ => ?_⟩⟩
  · exact congrArg sentAt (h.history hstarted)
  · rw [← Option.some.inj ht₀]
    refine sendPending_scheduled.mpr (Or.inr ?_)
    simp

theorem onData (ho : OnSchedule interval s) (seq : UInt32) : OnSchedule interval (s.onData seq) := by
  refine ⟨ho.constant, (seqMax_onData _ _ _).trans ho.unlimited, fun t₀ ht₀ => ?_⟩
  obtain ⟨n, htimes, hnext⟩ := ho.times t₀ ht₀
  refine ⟨n, (sentAt_onData s seq).trans htimes, fun hactive => hnext ?_⟩
  exact (IncConsumerBaseApp.seq_onData s.app.base s.now seq).2.symm.trans hactive

/-- **The packet that is due** leaves in its slot, and the next one is due an interval later. -/
theorem sendPacket (h : s.Inv) (ho : OnSchedule interval s) {q : ℕ × Time × Handler}
    (hq : s.timers.first = some q) (hsend : q.2.2 = .sendPacket) (draw : ℕ) :
    OnSchedule interval ((s.take q).sendPacket draw) := by
  have hmem := Timers.mem_of_first hq
  obtain ⟨hactive', hmax'⟩ := sendPacket_keeps (s.take q).app.base (s.take q).now
  rcases sendPacket_cases (h.take hq) (fun t => sendPending_take_send h.pending hmem hsend) draw with
    ⟨heq, hno⟩ | ⟨seq, -, hactive, heq⟩
  · rw [heq]
    refine ⟨ho.constant, hmax'.trans ho.unlimited, fun t₀ ht₀ => ?_⟩
    obtain ⟨n, htimes, -⟩ := ho.times t₀ ht₀
    refine ⟨n, htimes, fun hactive => ?_⟩
    obtain ⟨⟨-, hmax, -⟩, -⟩ := sendPacket_none (hactive'.symm.trans hactive) hno
    exact absurd (hmax'.trans ho.unlimited) hmax
  · have hdelay := (h.take hq).delay_eq ((h.take hq).started_of_active hactive) draw
    rw [heq]
    refine ⟨ho.constant, hmax'.trans ho.unlimited, fun t₀ ht₀ => ?_⟩
    obtain ⟨n, htimes, hnext⟩ := ho.times t₀ ht₀
    have hslot : q.2.1 = t₀ + n * (interval : ℤ) :=
      h.pending.send_unique ⟨q.1, hsend ▸ hmem⟩ (hnext hactive)
    refine ⟨n + 1, ?_, fun _ => sendPending_scheduled.mpr (Or.inr ?_)⟩
    · refine sentAt_concat_sent.trans ?_
      rw [List.range_succ, List.map_append, List.map_singleton]
      exact congrArg₂ (· ++ ·) htimes (congrArg (fun t => [t]) hslot)
    · have hconst : (s.take q).app.random = false ∧ (s.take q).app.interval = interval :=
        ho.constant
      rw [hdelay, hconst.1, hconst.2, if_neg Bool.false_ne_true]
      change t₀ + ((n + 1 : ℕ) : ℤ) * interval = q.2.1 + interval
      rw [hslot, Int.natCast_add, Int.natCast_one, Int.add_mul, Int.one_mul, Int.add_assoc]

/-- **A timeout** does not change the schedule: a packet that is pending stays. -/
theorem expire (h : s.Inv) (ho : OnSchedule interval s) (seqNo : UInt32) (draw : ℕ) :
    OnSchedule interval (s.expire seqNo draw) := by
  have hpending := h.pending.congr (s.app.base.expire seqNo) s.started s.history
  unfold Simulation.expire
  rcases scheduleNextPacket_cases hpending draw with ⟨-, heq⟩ | ⟨hnone, heq⟩
  · rw [heq]
    exact ⟨ho.constant, ho.unlimited, ho.times⟩
  · rw [heq]
    refine ⟨ho.constant, ho.unlimited, fun t₀ ht₀ => ?_⟩
    obtain ⟨n, htimes, hnext⟩ := ho.times t₀ ht₀
    exact ⟨n, htimes, fun hactive => absurd (hnext hactive) (hnone _)⟩

theorem checkRetxTimeout (h : s.Inv) (ho : OnSchedule interval s) {q : ℕ × Time × Handler}
    (hq : s.timers.first = some q) (hcheck : q.2.2 = .checkRetxTimeout) (rto : Time) (draw : ℕ) :
    OnSchedule interval ((s.take q).checkRetxTimeout rto draw) := by
  have htake : OnSchedule interval (s.take q) := by
    refine ⟨ho.constant, ho.unlimited, fun t₀ ht₀ => ?_⟩
    obtain ⟨n, htimes, hnext⟩ := ho.times t₀ ht₀
    refine ⟨n, htimes, fun hactive => ?_⟩
    exact (sendPending_take_check h.pending (Timers.mem_of_first hq) hcheck).mpr (hnext hactive)
  obtain ⟨u, -, hu, -, heq⟩ := checkRetxTimeout_induction (P := OnSchedule interval) rto
    (fun s seqNo h _ ho => expire h ho seqNo draw) h hq hcheck htake
  rw [heq]
  refine ⟨hu.constant, hu.unlimited, fun t₀ ht₀ => ?_⟩
  obtain ⟨n, htimes, hnext⟩ := hu.times t₀ ht₀
  exact ⟨n, htimes, fun hactive => sendPending_checkScheduled.mpr (hnext hactive)⟩

end OnSchedule

theorem onSchedule_installed (startSeq : UInt32) (interval retxTimer : ℕ) :
    OnSchedule interval (installed startSeq SequenceNumber.max interval retxTimer false) :=
  ⟨⟨rfl, rfl⟩, rfl, nofun⟩

/-- One event keeps the schedule. -/
theorem onSchedule_step {interval : ℕ} {e : Event} (h : s.Inv ∧ OnSchedule interval s)
    (hs : s.step e = .ok s') : s'.Inv ∧ OnSchedule interval s' := by
  refine step_rule (fun s now _ _ _ ho => ⟨ho.constant, ho.unlimited, ho.times⟩)
    (fun s h hstarted ho => ho.startApplication h hstarted)
    (fun s _ ho => ⟨ho.constant, ho.unlimited, fun t₀ ht₀ => ?_⟩)
    (fun s seq _ ho => ho.onData seq)
    (fun s retxTimer h ho => ⟨ho.constant, ho.unlimited, fun t₀ ht₀ => ?_⟩)
    (fun s q draw h hq hsend ho => ho.sendPacket h hq hsend draw)
    (fun s q rto draw h hq hcheck ho => ho.checkRetxTimeout h hq hcheck rto draw) s e s' h hs
  · obtain ⟨n, htimes, -⟩ := ho.times t₀ ht₀
    exact ⟨n, htimes, nofun⟩
  · obtain ⟨n, htimes, hnext⟩ := ho.times t₀ ht₀
    exact ⟨n, htimes, fun hactive => (sendPending_setRetxTimer h.pending _).mpr (hnext hactive)⟩

/-- **A constant rate.** In every state of every run without a limit and without random delays, `n`
Interests, new ones and retransmissions, have left at `t₀ + k * interval`; while the app is active
the next one is the only one that is pending, at `t₀ + n * interval`, and not overdue. -/
theorem constant_rate {startSeq : UInt32} {interval retxTimer : ℕ} {es : List Event}
    (h : run step (installed startSeq SequenceNumber.max interval retxTimer false) es = .ok s)
    {t₀ : Time} (hstarted : s.started = some t₀) :
    ∃ n : ℕ, sentAt s.history = (List.range n).map (fun k : ℕ => t₀ + k * (interval : ℤ)) ∧
      (s.app.base.active = true → (∀ t, s.SendPending t ↔ t = t₀ + n * (interval : ℤ)) ∧
        s.now ≤ t₀ + n * (interval : ℤ)) := by
  obtain ⟨hinv, hschedule⟩ := run_invariant (P := fun s => s.Inv ∧ OnSchedule interval s)
    (fun _ _ _ h hs => onSchedule_step h hs)
    ⟨inv_installed _ _ _ _ _, onSchedule_installed _ _ _⟩ h
  obtain ⟨n, htimes, hnext⟩ := hschedule.times t₀ hstarted
  refine ⟨n, htimes, fun hactive => ⟨fun t => ⟨fun ht => ?_, ?_⟩, ?_⟩⟩
  · exact hinv.pending.send_unique ht (hnext hactive)
  · rintro rfl
    exact hnext hactive
  · obtain ⟨id, hid⟩ := hnext hactive
    exact hinv.pending.due _ hid

/-- Three Interests and Data for the first one. -/
theorem constant_rate_three : ∃ s, run step (installed 0 SequenceNumber.max 10 50 false)
    [.start 3, .fire 200 0, .data 5 0, .fire 200 0, .fire 200 0] = .ok s ∧
      ∃ n : ℕ, sentAt s.history = (List.range n).map (fun k : ℕ => 3 + k * ((10 : ℕ) : ℤ)) ∧
        (s.app.base.active = true → (∀ t, s.SendPending t ↔ t = 3 + n * ((10 : ℕ) : ℤ)) ∧
          s.now ≤ 3 + n * ((10 : ℕ) : ℤ)) := by
  have hrun : (run step (installed 0 SequenceNumber.max 10 50 false)
      [.start 3, .fire 200 0, .data 5 0, .fire 200 0, .fire 200 0]).map started = .ok (some 3) := rfl
  obtain ⟨s, hs, hstarted⟩ := map_eq_ok.mp hrun
  exact ⟨s, hs, constant_rate hs hstarted⟩

/-! ## Paced, whatever the limit -/

/-- Interests are an interval apart, the next one too, and an active app goes on until it is done. -/
structure Steady (s : Simulation) : Prop where
  past : ∀ t ∈ sentAt s.history, t ≤ s.now
  apart : s.app.random = false →
    (sentAt s.history).Pairwise fun t t' => t + (s.app.interval : ℤ) ≤ t'
  next : s.app.random = false → ∀ t, s.SendPending t →
    t ≤ s.now + (s.app.interval : ℤ) ∧ ∀ t' ∈ sentAt s.history, t' + (s.app.interval : ℤ) ≤ t
  going : s.app.base.active = true → (∃ t, s.SendPending t) ∨ Done s.app.base

/-- A check is due within the retransmission timer. -/
def Checked (s : Simulation) : Prop := ∃ t, s.CheckPending t ∧ t ≤ s.now + (s.app.retxTimer : ℤ)

namespace Steady

/-- A packet scheduled where none is pending, an interval after the last one. -/
theorem scheduled (hnone : ∀ t, ¬ s.SendPending t) (hpast : ∀ t ∈ sentAt s.history, t ≤ s.now)
    (hapart : s.app.random = false →
      (sentAt s.history).Pairwise fun t t' => t + (s.app.interval : ℤ) ≤ t')
    (hnext : s.app.random = false → t ≤ s.now + (s.app.interval : ℤ) ∧
      ∀ t' ∈ sentAt s.history, t' + (s.app.interval : ℤ) ≤ t) : (s.scheduled t).Steady where
  past := hpast
  apart := hapart
  next hrandom t' ht' := by
    rcases sendPending_scheduled.mp ht' with ht' | rfl
    · exact absurd ht' (hnone t')
    · exact hnext hrandom
  going _ := Or.inl ⟨t, sendPending_scheduled.mpr (Or.inr rfl)⟩

/-- Where as many packets are pending, or fewer, and the time has passed. -/
theorem later (hs : s.Steady) {timers : Timers Time Handler} {now : Time} (hnow : s.now ≤ now)
    (hsend : ∀ t, SendPending { s with timers := timers } t ↔ s.SendPending t) :
    Steady { s with timers := timers, now := now } where
  past t ht := le_trans (hs.past t ht) hnow
  apart := hs.apart
  next hrandom t ht := by
    obtain ⟨hle, hapart⟩ := hs.next hrandom t ((hsend t).mp ht)
    exact ⟨le_trans hle (Int.add_le_add_right hnow _), hapart⟩
  going hactive := (hs.going hactive).imp_left fun ⟨t, ht⟩ => ⟨t, (hsend t).mpr ht⟩

theorem startApplication (h : s.Inv) (hstarted : s.started = none) :
    s.startApplication.Steady := by
  have hnil : sentAt s.history = [] := congrArg sentAt (h.history hstarted)
  rw [startApplication_eq h hstarted]
  refine scheduled (h.pending.first (h.begun.mpr hstarted)) ?_ ?_ fun _ => ⟨?_, ?_⟩
  · simp [hnil]
  · simp [hnil]
  · exact Int.le_add_of_nonneg_right (Int.natCast_nonneg _)
  · simp [hnil]

theorem stopApplication (hs : s.Steady) : s.stopApplication.Steady where
  past := hs.past
  apart := hs.apart
  next hrandom t ht := by
    refine hs.next hrandom t ?_
    obtain ⟨id, hid⟩ := ht
    unfold Simulation.stopApplication at hid
    cases hsend : s.app.sendEvent with
    | none => rw [hsend] at hid; exact ⟨id, hid⟩
    | some id' => rw [hsend] at hid; exact ⟨id, (Timers.mem_cancel.mp hid).1⟩
  going := nofun

theorem onData (hs : s.Steady) (seq : UInt32) : (s.onData seq).Steady where
  past t ht := hs.past t (sentAt_onData s seq ▸ ht)
  apart hrandom := sentAt_onData s seq ▸ hs.apart hrandom
  next hrandom t ht := sentAt_onData s seq ▸ hs.next hrandom t ht
  going hactive := by
    have hkeeps := IncConsumerBaseApp.seq_onData s.app.base s.now seq
    refine (hs.going (hkeeps.2.symm.trans hactive)).imp_right fun ⟨hnil, hmax, hle⟩ => ?_
    have hretx : (s.app.base.onData s.now seq).1.retxSeqs.entries = [] := by
      unfold IncConsumerBaseApp.onData
      split_ifs
      · simp [OrdMap.erase, hnil]
      · exact hnil
    refine ⟨hretx, ?_, ?_⟩
    · exact (seqMax_onData s.app.base s.now seq).symm ▸ hmax
    · change (s.app.base.onData s.now seq).1.seqMax ≤ (s.app.base.onData s.now seq).1.seq
      rw [seqMax_onData, hkeeps.1]
      exact hle

theorem setRetxTimer (h : s.Inv) (hs : s.Steady) (retxTimer : ℕ) :
    (s.setRetxTimer retxTimer).Steady where
  past := hs.past
  apart := hs.apart
  next hrandom t ht := hs.next hrandom t ((sendPending_setRetxTimer h.pending _).mp ht)
  going hactive := (hs.going hactive).imp_left fun ⟨t, ht⟩ =>
    ⟨t, (sendPending_setRetxTimer h.pending _).mpr ht⟩

/-- **A packet that is taken** leaves an interval after the last one, or the app is done. -/
theorem sendPacket (h : s.Inv) (hs : s.Steady) {q : ℕ × Time × Handler}
    (hq : s.timers.first = some q) (hsend : q.2.2 = .sendPacket) (draw : ℕ) :
    ((s.take q).sendPacket draw).Steady := by
  have hmem := Timers.mem_of_first hq
  have hnow : s.now ≤ q.2.1 := h.pending.due q hmem
  have hnone : ∀ t, ¬ (s.take q).SendPending t :=
    fun t => sendPending_take_send h.pending hmem hsend
  have hpast : ∀ t ∈ sentAt s.history, t ≤ q.2.1 := fun t ht => le_trans (hs.past t ht) hnow
  rcases sendPacket_cases (h.take hq) hnone draw with ⟨heq, hno⟩ | ⟨seq, -, hactive, heq⟩
  · rw [heq]
    refine ⟨hpast, hs.apart, fun _ t ht => absurd ht (hnone t), fun hactive => Or.inr ?_⟩
    have hkeeps := sendPacket_keeps (s.take q).app.base (s.take q).now
    exact (sendPacket_none (hkeeps.1.symm.trans hactive) hno).1
  · have hdelay := (h.take hq).delay_eq ((h.take hq).started_of_active hactive) draw
    have hlast : ∀ t ∈ sentAt (s.history ++ [.sent seq q.2.1]), t ≤ q.2.1 := by
      intro t ht
      rw [sentAt_concat_sent, List.mem_append, List.mem_singleton] at ht
      exact ht.elim (hpast t) le_of_eq
    rw [heq]
    refine scheduled hnone hlast (fun hrandom => ?_) fun hrandom => ?_
    · obtain ⟨-, hapart⟩ := hs.next hrandom q.2.1 ⟨q.1, hsend ▸ hmem⟩
      change (sentAt (s.history ++ [.sent seq q.2.1])).Pairwise _
      rw [sentAt_concat_sent, List.pairwise_append]
      refine ⟨hs.apart hrandom, List.pairwise_singleton _ _, fun t ht t' ht' => ?_⟩
      rw [List.mem_singleton.mp ht']
      exact hapart t ht
    · have hrandom : (s.take q).app.random = false := hrandom
      rw [hdelay, hrandom, if_neg Bool.false_ne_true]
      exact ⟨le_refl _, fun t ht => Int.add_le_add_right (hlast t ht) _⟩

theorem expire (h : s.Inv) (hstarted : s.started ≠ none) (hs : s.Steady) (seqNo : UInt32)
    (draw : ℕ) : (s.expire seqNo draw).Steady := by
  have hinv := h.of_started (s.app.base.expire seqNo) s.history hstarted
  unfold Simulation.expire
  rcases scheduleNextPacket_cases hinv.pending draw with ⟨hsome, heq⟩ | ⟨hnone, heq⟩
  · rw [heq]
    exact ⟨hs.past, hs.apart, hs.next, fun _ => Or.inl hsome⟩
  · rw [heq, hinv.delay_eq hstarted]
    refine scheduled hnone hs.past hs.apart fun hrandom => ?_
    have hrandom : s.app.random = false := hrandom
    rw [hrandom, if_neg Bool.false_ne_true]
    exact ⟨le_refl _, fun t ht => Int.add_le_add_right (hs.past t ht) _⟩

theorem checkRetxTimeout (h : s.Inv) (hs : s.Steady) {q : ℕ × Time × Handler}
    (hq : s.timers.first = some q) (hcheck : q.2.2 = .checkRetxTimeout) (rto : Time) (draw : ℕ) :
    ((s.take q).checkRetxTimeout rto draw).Steady ∧
      ((s.take q).checkRetxTimeout rto draw).Checked := by
  have hmem := Timers.mem_of_first hq
  have htake : (s.take q).Steady :=
    hs.later (h.pending.due q hmem) fun t => sendPending_take_check h.pending hmem hcheck
  obtain ⟨u, -, hu, -, heq⟩ := checkRetxTimeout_induction (P := Steady) rto
    (fun s seqNo h hstarted hs => expire h hstarted hs seqNo draw) h hq hcheck htake
  rw [heq]
  refine ⟨⟨hu.past, hu.apart, fun hrandom t ht => ?_, fun hactive => ?_⟩, ?_⟩
  · exact hu.next hrandom t (sendPending_checkScheduled.mp ht)
  · exact (hu.going hactive).imp_left fun ⟨t, ht⟩ => ⟨t, sendPending_checkScheduled.mpr ht⟩
  · exact ⟨_, checkPending_checkScheduled.mpr (Or.inr rfl), le_refl _⟩

end Steady

namespace Checked

/-- Where the checks are the same ones, and the time has passed. -/
theorem later {u : Simulation} (hc : s.Checked) (hnow : s.now ≤ u.now)
    (htimer : u.app.retxTimer = s.app.retxTimer) (hcheck : ∀ t, s.CheckPending t → u.CheckPending t) :
    u.Checked := by
  obtain ⟨t, ht, hle⟩ := hc
  refine ⟨t, hcheck t ht, ?_⟩
  rw [htimer]
  exact le_trans hle (Int.add_le_add_right hnow _)

/-- `Simulator::Cancel` of the send event takes no check. -/
theorem stopApplication (h : s.Inv) (hc : s.Checked) : s.stopApplication.Checked := by
  refine hc.later (le_refl _) rfl fun t ⟨id, hid⟩ => ⟨id, ?_⟩
  unfold Simulation.stopApplication
  cases hsend : s.app.sendEvent with
  | none => exact hid
  | some id' =>
    refine Timers.mem_cancel.mpr ⟨hid, ?_⟩
    rintro rfl
    cases (h.pending.send _ hid).mpr hsend

theorem setRetxTimer (s : Simulation) (retxTimer : ℕ) : (s.setRetxTimer retxTimer).Checked := by
  refine ⟨s.now + retxTimer, ?_, le_refl _⟩
  rw [setRetxTimer_eq]
  exact checkPending_checkScheduled.mpr (Or.inr rfl)

theorem sendPacket (h : s.Inv) (hc : s.Checked) {q : ℕ × Time × Handler}
    (hq : s.timers.first = some q) (hsend : q.2.2 = .sendPacket) (draw : ℕ) :
    ((s.take q).sendPacket draw).Checked := by
  have hmem := Timers.mem_of_first hq
  have htake : (s.take q).Checked := hc.later (h.pending.due q hmem) rfl
    fun t => (checkPending_take_send h.pending hmem hsend).mpr
  rcases sendPacket_cases (h.take hq) (fun t => sendPending_take_send h.pending hmem hsend) draw with
    ⟨heq, -⟩ | ⟨seq, -, -, heq⟩
  · rw [heq]
    exact htake
  · rw [heq]
    exact htake.later (le_refl _) rfl fun t => checkPending_scheduled.mpr

end Checked

/-- One event. -/
theorem steady_step {e : Event} (h : s.Inv ∧ s.Steady ∧ s.Checked) (hs : s.step e = .ok s') :
    s'.Inv ∧ s'.Steady ∧ s'.Checked :=
  step_rule (P := fun s => s.Steady ∧ s.Checked)
    (fun _ _ _ hnow _ hs => ⟨hs.1.later hnow fun _ => Iff.rfl, hs.2.later hnow rfl fun _ => id⟩)
    (fun s h hstarted hs => ⟨Steady.startApplication h hstarted, by
      rw [startApplication_eq h hstarted]
      exact hs.2.later (le_refl _) rfl fun t => checkPending_scheduled.mpr⟩)
    (fun _ h hs => ⟨hs.1.stopApplication, hs.2.stopApplication h⟩)
    (fun _ seq _ hs => ⟨hs.1.onData seq, hs.2.later (le_refl _) rfl fun _ => id⟩)
    (fun s retxTimer h hs => ⟨hs.1.setRetxTimer h retxTimer, Checked.setRetxTimer s retxTimer⟩)
    (fun _ _ draw h hq hsend hs =>
      ⟨hs.1.sendPacket h hq hsend draw, hs.2.sendPacket h hq hsend draw⟩)
    (fun _ _ rto draw h hq hcheck hs => hs.1.checkRetxTimeout h hq hcheck rto draw) s e s' h hs

theorem steady_run {startSeq maxSeq : UInt32} {interval retxTimer : ℕ} {random : Bool}
    {es : List Event} (h : run step (installed startSeq maxSeq interval retxTimer random) es = .ok s) :
    s.Inv ∧ s.Steady ∧ s.Checked := by
  refine run_invariant (P := fun s => s.Inv ∧ s.Steady ∧ s.Checked)
    (fun _ _ _ h hs => steady_step h hs) ⟨inv_installed _ _ _ _ _, ?_, ?_⟩ h
  · refine ⟨nofun, fun _ => List.Pairwise.nil, fun _ t ⟨id, hid⟩ => ?_, nofun⟩
    cases List.mem_singleton.mp hid
  · exact ⟨retxTimer, ⟨0, List.mem_singleton.mpr rfl⟩, Int.le_add_of_nonneg_left (le_refl _)⟩

/-- What holds of a consumer throughout. -/
structure Paced (s : Simulation) : Prop where
  /-- one check is pending, within the retransmission timer -/
  check : ∃ q ∈ s.timers.pending, q.2.2 = .checkRetxTimeout ∧
    s.now ≤ q.2.1 ∧ q.2.1 ≤ s.now + (s.app.retxTimer : ℤ) ∧
    ∀ q' ∈ s.timers.pending, q'.2.2 = .checkRetxTimeout → q' = q
  /-- at most one packet is pending, within an interval -/
  packet : ∀ q ∈ s.timers.pending, q.2.2 = .sendPacket → s.now ≤ q.2.1 ∧
    (s.app.random = false → q.2.1 ≤ s.now + (s.app.interval : ℤ)) ∧
    ∀ q' ∈ s.timers.pending, q'.2.2 = .sendPacket → q' = q
  /-- two Interests are at least an interval apart -/
  apart : s.app.random = false →
    (sentAt s.history).Pairwise fun t t' => t + (s.app.interval : ℤ) ≤ t'
  /-- an active app has a packet pending until it is done -/
  going : s.app.base.active = true →
    (∃ q ∈ s.timers.pending, q.2.2 = .sendPacket) ∨ Done s.app.base

/-- **The consumer is paced and never stalls**, in every state of every run. -/
theorem paced_run {startSeq maxSeq : UInt32} {interval retxTimer : ℕ} {random : Bool}
    {es : List Event} (h : run step (installed startSeq maxSeq interval retxTimer random) es = .ok s) :
    s.Paced := by
  obtain ⟨hinv, hsteady, t, ⟨id, hid⟩, hle⟩ := steady_run h
  have hpending := hinv.pending
  refine ⟨⟨_, hid, rfl, hpending.due _ hid, hle, fun q hq hcheck => ?_⟩, fun q hq hsend => ?_,
    hsteady.apart, fun hactive => ?_⟩
  · have heq := ((hpending.retx q hq).mp hcheck).symm.trans ((hpending.retx _ hid).mp rfl)
    exact Timers.eq_of_number hq hid (Option.some.inj heq)
  · refine ⟨hpending.due q hq, fun hrandom => ?_, fun q' hq' hsend' => ?_⟩
    · exact (hsteady.next hrandom q.2.1 ⟨q.1, hsend ▸ hq⟩).1
    · have heq := ((hpending.send q' hq').mp hsend').symm.trans ((hpending.send q hq).mp hsend)
      exact Timers.eq_of_number hq' hq (Option.some.inj heq)
  · exact (hsteady.going hactive).imp_left fun ⟨t, id, hid⟩ => ⟨_, hid, rfl⟩

/-- Two numbers, of which the second one is retransmitted, and Data for both. -/
theorem paced_twoNumbers : ∃ s, run step (installed 0 2 10 50 false)
    [.start 3, .fire 30 0, .fire 30 0, .data 14 0, .fire 30 0, .fire 30 0, .fire 30 0, .data 70 1] =
      .ok s ∧ s.Paced := by
  have hrun : (run step (installed 0 2 10 50 false)
      [.start 3, .fire 30 0, .fire 30 0, .data 14 0, .fire 30 0, .fire 30 0, .fire 30 0,
        .data 70 1]).map (fun s => sentAt s.history) = .ok [3, 13, 60] := rfl
  obtain ⟨s, hs, -⟩ := map_eq_ok.mp hrun
  exact ⟨s, hs, paced_run hs⟩

/-! ## Requests without an answer -/

/-- While the app is active, its sequence numbers and its log are those of a run of the handlers. -/
def Mirrors (startSeq maxSeq : UInt32) (s : Simulation) : Prop :=
  (s.started = none → s.app.base = { IncConsumerBaseApp.started startSeq maxSeq with active := false }) ∧
  (s.app.base.active = true → ∃ es, (Watch.runFrom startSeq maxSeq es).app = s.app.base ∧
    (Watch.runFrom startSeq maxSeq es).history = s.history ∧
    (Watch.runFrom startSeq maxSeq es).fresh ≤ (sentAt s.history).length)

namespace Mirrors

variable {startSeq maxSeq : UInt32}

/-- Where the app and the log are the same. -/
theorem same {u : Simulation} (hm : s.Mirrors startSeq maxSeq) (hbase : u.app.base = s.app.base)
    (hhistory : u.history = s.history) (hstarted : u.started = s.started) :
    u.Mirrors startSeq maxSeq := by
  unfold Mirrors
  rw [hbase, hhistory, hstarted]
  exact hm

/-- What an active app does in an event of the run. -/
theorem event {u : Simulation} (hm : s.Mirrors startSeq maxSeq) (hstarted : u.started ≠ none)
    (hactive : u.app.base.active = true → s.app.base.active = true) (e : IncConsumerBaseApp.Event)
    (hstep : ∀ w : Watch, w.app = s.app.base → w.history = s.history → s.app.base.active = true →
      (w.step e).app = u.app.base ∧ (w.step e).history = u.history ∧
        (w.step e).fresh + (sentAt s.history).length ≤ w.fresh + (sentAt u.history).length) :
    u.Mirrors startSeq maxSeq := by
  refine ⟨fun hn => absurd hn hstarted, fun hu => ?_⟩
  obtain ⟨es, happ, hhistory, hfresh⟩ := hm.2 (hactive hu)
  obtain ⟨happ', hhistory', hfresh'⟩ := hstep _ happ hhistory (hactive hu)
  rw [← Watch.runFrom_concat] at happ' hhistory' hfresh'
  exact ⟨es ++ [e], happ', hhistory', by omega⟩

theorem startApplication (h : s.Inv) (hm : s.Mirrors startSeq maxSeq) (hstarted : s.started = none) :
    s.startApplication.Mirrors startSeq maxSeq := by
  rw [startApplication_eq h hstarted]
  refine ⟨nofun, fun _ => ⟨[], ?_, ?_, Nat.zero_le _⟩⟩
  · change IncConsumerBaseApp.started startSeq maxSeq = { s.app.base with active := true }
    rw [hm.1 hstarted]
    rfl
  · exact (h.history hstarted).symm

theorem stopApplication (hm : s.Mirrors startSeq maxSeq) :
    s.stopApplication.Mirrors startSeq maxSeq := by
  refine ⟨fun hn => ?_, nofun⟩
  change { s.app.base with active := false } = _
  rw [hm.1 hn]

theorem onData (h : s.Inv) (hm : s.Mirrors startSeq maxSeq) (seq : UInt32) :
    (s.onData seq).Mirrors startSeq maxSeq := by
  cases hactive : s.app.base.active with
  | false =>
    have hsame : s.onData seq = s := by
      simp [Simulation.onData, IncConsumerBaseApp.onData, hactive]
    rwa [hsame]
  | true =>
    refine hm.event (u := s.onData seq) (h.started_of_active hactive) (fun _ => hactive)
      (.onData s.now seq) fun w happ hhistory _ => ⟨?_, ?_, ?_⟩
    · exact congrArg (fun app => (app.onData s.now seq).1) happ
    · simp [Watch.step, Simulation.onData, hhistory, hactive]
    · rw [sentAt_onData]
      exact le_refl _

theorem sendPacket (h : s.Inv) (hm : s.Mirrors startSeq maxSeq) {q : ℕ × Time × Handler}
    (hq : s.timers.first = some q) (hsend : q.2.2 = .sendPacket) (draw : ℕ) :
    ((s.take q).sendPacket draw).Mirrors startSeq maxSeq := by
  have hkeeps := sendPacket_keeps s.app.base q.2.1
  rcases sendPacket_cases (h.take hq)
    (fun t => sendPending_take_send h.pending (Timers.mem_of_first hq) hsend) draw with
    ⟨heq, hno⟩ | ⟨seq, hseq, hactive, heq⟩
  · have hno : (s.app.base.sendPacket q.2.1).2 = none := hno
    cases hactive : s.app.base.active with
    | false =>
      refine hm.same ?_ ?_ ?_
      · rw [heq]
        change (s.app.base.sendPacket q.2.1).1 = _
        rw [IncConsumerBaseApp.sendPacket, hactive, if_neg Bool.false_ne_true]
      · rw [heq]; rfl
      · rw [heq]; rfl
    | true =>
      rw [heq]
      refine hm.event (h.started_of_active hactive) (fun _ => hactive) (.sendPacket q.2.1)
        fun w happ hhistory _ => ?_
      have hw : (w.app.sendPacket q.2.1) = s.app.base.sendPacket q.2.1 := by rw [happ]
      have hseq : (s.app.base.sendPacket q.2.1).1.seq = w.app.seq := by
        rw [happ]
        exact (sendPacket_none hactive hno).2
      refine ⟨congrArg Prod.fst hw, ?_, ?_⟩
      · simp [Watch.step, hw, hno, hhistory, take]
      · simp [Watch.step, hw, hseq, take]
  · have hseq : (s.app.base.sendPacket q.2.1).2 = some seq := hseq
    rw [heq]
    refine hm.event (h.started_of_active hactive) (fun _ => hactive) (.sendPacket q.2.1)
      fun w happ hhistory _ => ?_
    have hw : (w.app.sendPacket q.2.1) = s.app.base.sendPacket q.2.1 := by rw [happ]
    refine ⟨congrArg Prod.fst hw, ?_, ?_⟩
    · simp [Watch.step, hw, hseq, hhistory, take, scheduled]
    · simp only [Watch.step, scheduled, take, sentAt_concat_sent, List.length_append,
        List.length_singleton]
      split_ifs <;> omega

/-- The loop of `CheckRetxTimeout` does to the sequence numbers what it does without a simulator. -/
theorem checkLoop_keeps (rto : Time) (draw fuel : ℕ) (s : Simulation) :
    (checkLoop rto draw fuel s).app.base = s.app.base.checkLoop s.now rto fuel ∧
      (checkLoop rto draw fuel s).history = s.history ∧
      (checkLoop rto draw fuel s).started = s.started := by
  induction fuel generalizing s with
  | zero => exact ⟨rfl, rfl, rfl⟩
  | succ fuel ih =>
    rw [checkLoop, IncConsumerBaseApp.checkLoop]
    cases s.app.base.seqTimeouts.front with
    | none => exact ⟨rfl, rfl, rfl⟩
    | some p =>
      dsimp only
      split_ifs
      · obtain ⟨hbase, hhistory, hstarted, hnow⟩ := scheduleNextPacket_keeps
          { s with app := { s.app with base := s.app.base.expire p.1 } } draw
        obtain ⟨ihbase, ihhistory, ihstarted⟩ := ih (s.expire p.1 draw)
        refine ⟨?_, ihhistory.trans hhistory, ihstarted.trans hstarted⟩
        rw [ihbase]
        exact congrArg₂ (fun app now => IncConsumerBaseApp.checkLoop now rto fuel app) hbase hnow
      · exact ⟨rfl, rfl, rfl⟩

theorem checkRetxTimeout (h : s.Inv) (hm : s.Mirrors startSeq maxSeq) (q : ℕ × Time × Handler)
    (rto : Time) (draw : ℕ) : ((s.take q).checkRetxTimeout rto draw).Mirrors startSeq maxSeq := by
  obtain ⟨hbase, hhistory, hstarted⟩ :=
    checkLoop_keeps rto draw s.app.base.seqTimeouts.entries.length (s.take q)
  have hactive : ((s.take q).checkRetxTimeout rto draw).app.base.active = s.app.base.active := by
    refine (congrArg IncConsumerBaseApp.active hbase).trans ?_
    refine IncConsumerBaseApp.checkRetxTimeout_induction
      (P := fun app => app.active = s.app.base.active) rfl fun _ _ _ hP _ _ => hP
  cases hs : s.started with
  | none =>
    have hnil := h.timeouts hs
    refine hm.same (hbase.trans ?_) hhistory hstarted
    change s.app.base.checkLoop q.2.1 rto s.app.base.seqTimeouts.entries.length = _
    rw [hnil]
    rfl
  | some t₀ =>
    have hne : ((s.take q).checkRetxTimeout rto draw).started ≠ none := by
      intro hn
      cases (hs.symm.trans (hstarted.symm.trans hn))
    refine hm.event hne (fun hu => hactive.symm.trans hu) (.checkRetxTimeout q.2.1 rto)
      fun w happ hw _ => ⟨?_, ?_, ?_⟩
    · refine Eq.trans ?_ hbase.symm
      exact congrArg (fun app => app.checkRetxTimeout q.2.1 rto) happ
    · exact hw.trans hhistory.symm
    · exact le_of_eq (congrArg (fun history => w.fresh + (sentAt history).length) hhistory.symm)

end Mirrors

theorem mirrors_step {startSeq maxSeq : UInt32} {e : Event}
    (h : s.Inv ∧ s.Mirrors startSeq maxSeq) (hs : s.step e = .ok s') :
    s'.Inv ∧ s'.Mirrors startSeq maxSeq := by
  refine step_rule (P := Mirrors startSeq maxSeq)
    (fun _ _ _ _ _ hm => hm) (fun _ h hstarted hm => hm.startApplication h hstarted)
    (fun _ _ hm => hm.stopApplication) (fun _ seq h hm => hm.onData h seq)
    (fun _ _ _ hm => hm) (fun _ _ draw h hq hsend hm => hm.sendPacket h hq hsend draw)
    (fun _ q rto draw h _ _ hm => hm.checkRetxTimeout h q rto draw) s e s' h hs

/-- **No request is forgotten.** In every state of a run with fewer than `2 ^ 32 - 1 - startSeq`
Interests, every number that was asked for and not answered either waits for its timeout, with a
check due within the retransmission timer, or waits to be sent again, with a packet due within an
interval. -/
theorem outstanding_pending {startSeq maxSeq : UInt32} {interval retxTimer : ℕ} {random : Bool}
    {es : List Event} (h : run step (installed startSeq maxSeq interval retxTimer random) es = .ok s)
    (hactive : s.app.base.active = true)
    (hfew : (sentAt s.history).length < 2 ^ 32 - 1 - startSeq.toNat) :
    ∀ k, sentTimes k s.history ≠ [] → ¬ Answered k s.history →
      ((s.app.base.seqTimeouts.find? k).isSome = true ∧
        ∃ t, s.CheckPending t ∧ s.now ≤ t ∧ t ≤ s.now + (s.app.retxTimer : ℤ)) ∨
      ((s.app.base.retxSeqs.find? k).isSome = true ∧
        ∃ t, s.SendPending t ∧ s.now ≤ t ∧
          (s.app.random = false → t ≤ s.now + (s.app.interval : ℤ))) := by
  intro k hsent hans
  obtain ⟨hinv, hsteady, t, ht, hle⟩ := steady_run h
  obtain ⟨-, hmirrors⟩ := run_invariant (P := fun s => s.Inv ∧ s.Mirrors startSeq maxSeq)
    (fun _ _ _ h hs => mirrors_step h hs)
    ⟨inv_installed _ _ _ _ _, fun _ => rfl, nofun⟩ h
  obtain ⟨ws, happ, hhistory, hfresh⟩ := hmirrors.2 hactive
  have htracked := (Watch.inv_runFrom (lt_of_le_of_lt hfresh hfew)).tracked
  rw [← hhistory] at hsent hans
  obtain ⟨hge, hlt⟩ := (htracked.sent k).mp hsent
  rcases htracked.outstanding k hge hlt hans with ⟨htimeout, -⟩ | ⟨hretx, -⟩
  · rw [happ] at htimeout
    obtain ⟨id, hid⟩ := ht
    exact Or.inl ⟨htimeout, t, ⟨id, hid⟩, hinv.pending.due _ hid, hle⟩
  · rw [happ] at hretx
    rcases hsteady.going hactive with ⟨t, id, hid⟩ | ⟨hnil, -⟩
    · exact Or.inr ⟨hretx, t, ⟨id, hid⟩, hinv.pending.due _ hid,
        fun hrandom => (hsteady.next hrandom t ⟨id, hid⟩).1⟩
    · rw [OrdMap.find?, hnil] at hretx
      cases hretx

/-- Two numbers; the first one has been answered, the second one waits for its timeout. -/
theorem outstanding_pending_two : ∃ s, run step (installed 0 2 10 50 false)
    [.start 3, .fire 30 0, .fire 30 0, .data 14 0] = .ok s ∧
      ∀ k, sentTimes k s.history ≠ [] → ¬ Answered k s.history →
        ((s.app.base.seqTimeouts.find? k).isSome = true ∧
          ∃ t, s.CheckPending t ∧ s.now ≤ t ∧ t ≤ s.now + (s.app.retxTimer : ℤ)) ∨
        ((s.app.base.retxSeqs.find? k).isSome = true ∧
          ∃ t, s.SendPending t ∧ s.now ≤ t ∧
            (s.app.random = false → t ≤ s.now + (s.app.interval : ℤ))) := by
  have hrun : (run step (installed 0 2 10 50 false)
      [.start 3, .fire 30 0, .fire 30 0, .data 14 0]).map
        (fun s => (s.app.base.active, sentAt s.history)) = .ok (true, [3, 13]) := rfl
  obtain ⟨s, hs, heq⟩ := map_eq_ok.mp hrun
  obtain ⟨hactive, hsent⟩ := Prod.mk.inj heq
  refine ⟨s, hs, outstanding_pending hs hactive ?_⟩
  rw [hsent]
  decide

end Simulation

end IncSim
