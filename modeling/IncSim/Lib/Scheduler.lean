import Mathlib.Algebra.GroupWithZero.Nat
import Mathlib.Logic.Relation
import Mathlib.Algebra.BigOperators.Group.Finset.Basic
import Mathlib.Algebra.BigOperators.Pi
import Mathlib.Algebra.Order.BigOperators.Group.Finset
import Mathlib.Data.Fintype.BigOperators
import Mathlib.Order.Basic

/-!
# Jobs that share a pool of resources

Desks take jobs and run them out of one pool. A job that does not fit waits at its desk; a desk
looks at the head of its queue when one of its jobs ends. The pool counts the waiting jobs of all
desks in one counter, bounded by `cap`.

* `Pool`, `Desk`, `load`: the state of the pool and of one desk.
* `Accept`, `Release`, `Serve`, `Move`: what a desk can do to itself and the pool.
* **`Move.conserve`**, **`Move.fill`**, **`Move.busy`**: what one move keeps.
* `Hall`, **`Hall.Step.conserve`**, **`Hall.Step.fill`**: the same for any number of desks.
-/

namespace Scheduler

open Relation

universe u v w

variable {J : Type u} {R : Type v}

/-- What the desks share: the free units of each resource and the count of waiting jobs. -/
@[ext] structure Pool (R : Type v) where
  free : R → ℕ
  fill : ℕ

/-- A desk: its waiting jobs, oldest first, and its running jobs. -/
@[ext] structure Desk (J : Type u) where
  queue : List J
  running : List J

/-- The units that a list of jobs holds, for each resource. -/
def load (need : J → R → ℕ) (l : List J) (r : R) : ℕ := (l.map fun j => need j r).sum

section Load

variable {need : J → R → ℕ} {l l' : List J} {j : J}

@[simp] theorem load_nil : load need [] = 0 := rfl

@[simp] theorem load_cons : load need (j :: l) = need j + load need l := by
  funext r
  simp [load]

@[simp] theorem load_concat : load need (l ++ [j]) = load need l + need j := by
  funext r
  simp [load]

theorem load_perm (h : l.Perm l') : load need l = load need l' := by
  funext r
  exact (h.map _).sum_eq

theorem need_le_load (h : j ∈ l) : need j ≤ load need l := by
  intro r
  exact List.le_sum_of_mem (List.mem_map_of_mem h)

/-- Units taken for a job are units that the job holds. -/
theorem sub_add_load_concat {free : R → ℕ} (hfit : need j ≤ free) :
    free - need j + load need (l ++ [j]) = free + load need l := by
  funext r
  have : need j r ≤ free r := hfit r
  simp only [load_concat, Pi.add_apply, Pi.sub_apply]
  omega

end Load

/-! ## Moves of one desk -/

/-- The count after one more job waits; a full count stays. -/
def countUp (cap fill : ℕ) : ℕ := if fill < cap then fill + 1 else fill

/-- A desk takes a job: it starts one that fits, and lets one that does not fit wait. -/
inductive Accept (need : J → R → ℕ) (cap : ℕ) : Pool R × Desk J → Pool R × Desk J → Prop
  | start {p : Pool R} {d : Desk J} (j : J) (hfit : need j ≤ p.free) :
      Accept need cap (p, d)
        ({ p with free := p.free - need j }, { d with running := d.running ++ [j] })
  | enqueue {p : Pool R} {d : Desk J} (j : J) (hfit : ¬ need j ≤ p.free) (hcap : p.fill ≠ cap) :
      Accept need cap (p, d)
        ({ p with fill := countUp cap p.fill }, { d with queue := d.queue ++ [j] })

/-- A running job ends and gives its units back. -/
inductive Release (need : J → R → ℕ) : Pool R × Desk J → Pool R × Desk J → Prop
  | intro {p : Pool R} {d : Desk J} {j : J} {l : List J} (hj : d.running.Perm (j :: l)) :
      Release need (p, d) ({ p with free := p.free + need j }, { d with running := l })

/-- A desk looks at its queue, if the count says that some job waits. -/
inductive Serve (need : J → R → ℕ) : Pool R × Desk J → Pool R × Desk J → Prop
  | idle {p : Pool R} {d : Desk J} (h₀ : p.fill = 0) : Serve need (p, d) (p, d)
  | hold {p : Pool R} {d : Desk J} {j : J} (h₀ : p.fill ≠ 0) (hq : j ∈ d.queue)
      (hfit : ¬ need j ≤ p.free) : Serve need (p, d) (p, d)
  | serve {p : Pool R} {d : Desk J} {j : J} {rest : List J} (h₀ : p.fill ≠ 0)
      (hq : d.queue = j :: rest) (hfit : need j ≤ p.free) :
      Serve need (p, d)
        (⟨p.free - need j, p.fill - 1⟩, ⟨rest, d.running ++ [j]⟩)

/-- What one event does to a desk: it takes some jobs, or a running job ends. -/
inductive Move (need : J → R → ℕ) (cap : ℕ) (s s' : Pool R × Desk J) : Prop
  | accept (h : ReflTransGen (Accept need cap) s s')
  | finish {t : Pool R × Desk J} (h : Release need s t) (h' : Serve need t s')

/-! ## What one move keeps -/

section Local

variable {need : J → R → ℕ} {cap : ℕ} {s t s' : Pool R × Desk J}

/-- The free units and the units in use. -/
def total (need : J → R → ℕ) (s : Pool R × Desk J) : R → ℕ := s.1.free + load need s.2.running

theorem Accept.conserve (h : Accept need cap s s') : total need s' = total need s := by
  cases h with
  | start j hfit => exact sub_add_load_concat hfit
  | enqueue j hfit hcap => rfl

theorem Release.conserve (h : Release need s s') : total need s' = total need s := by
  obtain @⟨p, d, j, l, hj⟩ := h
  show p.free + need j + load need l = p.free + load need d.running
  rw [load_perm hj, load_cons, add_assoc]

theorem Serve.conserve (h : Serve need s s') : total need s' = total need s := by
  cases h with
  | idle h₀ => rfl
  | hold h₀ hq hfit => rfl
  | serve h₀ hq hfit => exact sub_add_load_concat hfit

/-- **Units are conserved.** -/
theorem Move.conserve (h : Move need cap s s') : total need s' = total need s := by
  cases h with
  | accept h =>
    induction h with
    | refl => rfl
    | tail _ h ih => rw [h.conserve, ih]
  | finish h h' => rw [h'.conserve, h.conserve]

/-- The count agrees with the queue on how many jobs one step adds or takes away. -/
def Tallied (cap : ℕ) (s s' : Pool R × Desk J) : Prop :=
  s'.1.fill ≤ cap ∧ s'.1.fill + s.2.queue.length = s.1.fill + s'.2.queue.length

theorem Tallied.trans (h : Tallied cap s t) (h' : Tallied cap t s') : Tallied cap s s' := by
  refine ⟨h'.1, ?_⟩
  have := h.2
  have := h'.2
  omega

theorem Accept.tallied (h : Accept need cap s s') (hle : s.1.fill ≤ cap) : Tallied cap s s' := by
  cases h with
  | start j hfit => exact ⟨hle, rfl⟩
  | enqueue j hfit hcap =>
    have hlt := lt_of_le_of_ne hle hcap
    simp only [Tallied, countUp, if_pos hlt, List.length_append, List.length_singleton]
    dsimp only at hlt
    omega

theorem Release.tallied (h : Release need s s') (hle : s.1.fill ≤ cap) : Tallied cap s s' := by
  obtain @⟨p, d, j, l, hj⟩ := h
  exact ⟨hle, rfl⟩

theorem Serve.tallied (h : Serve need s s') (hle : s.1.fill ≤ cap) : Tallied cap s s' := by
  cases h with
  | idle h₀ => exact ⟨hle, rfl⟩
  | hold h₀ hq hfit => exact ⟨hle, rfl⟩
  | serve h₀ hq hfit =>
    simp only [Tallied, hq, List.length_cons]
    dsimp only at hle
    omega

/-- **The count follows the queue**, as long as it starts within its bound. -/
theorem Move.fill (h : Move need cap s s') (hle : s.1.fill ≤ cap) : Tallied cap s s' := by
  cases h with
  | accept h =>
    induction h with
    | refl => exact ⟨hle, rfl⟩
    | tail _ h ih => exact ih.trans (h.tallied ih.1)
  | finish h h' => exact (h.tallied hle).trans (h'.tallied (h.tallied hle).1)

end Local

/-! ## One desk alone -/

/-- What holds of a desk that has the pool to itself: its jobs and the free units make up the
capacity, the count is the length of its queue, and it is running while jobs wait. -/
structure Busy (need : J → R → ℕ) (cap : ℕ) (capacity : R → ℕ) (s : Pool R × Desk J) : Prop where
  total : total need s = capacity
  fill : s.1.fill = s.2.queue.length
  bound : s.2.queue.length ≤ cap
  running : s.2.queue ≠ [] → s.2.running ≠ []

section Alone

variable {need : J → R → ℕ} {cap : ℕ} {capacity : R → ℕ} {s s' : Pool R × Desk J}

/-- When nothing runs everything is free. -/
theorem Busy.free (h : Busy need cap capacity s) (hr : s.2.running = []) : s.1.free = capacity := by
  have := h.total
  rwa [Scheduler.total, hr, load_nil, add_zero] at this

theorem Accept.busy (h : Accept need cap s s') (hfits : ∀ j, need j ≤ capacity)
    (hb : Busy need cap capacity s) : Busy need cap capacity s' := by
  have htot : Scheduler.total need s' = capacity := h.conserve.trans hb.total
  have htal := h.tallied (hb.fill.trans_le hb.bound)
  have hfill : s'.1.fill = s'.2.queue.length := by
    have := htal.2
    have := hb.fill
    omega
  refine ⟨htot, hfill, hfill ▸ htal.1, fun _ => ?_⟩
  cases h with
  | start j hfit => simp
  | @enqueue p d j hfit hcap =>
    -- nothing running would leave the whole capacity free, and the job would fit
    intro hr
    have hfree : p.free = capacity := hb.free hr
    exact hfit (hfree ▸ hfits j)

/-- **A desk with waiting jobs is running**: its end will look at the queue again. -/
theorem Move.busy (h : Move need cap s s') (hfits : ∀ j, need j ≤ capacity)
    (hb : Busy need cap capacity s) : Busy need cap capacity s' := by
  cases h with
  | accept h =>
    induction h with
    | refl => exact hb
    | tail _ h ih => exact h.busy hfits ih
  | @finish t h h' =>
    have htot : Scheduler.total need s' = capacity := by rw [h'.conserve, h.conserve, hb.total]
    have htal := (Move.finish h h' : Move need cap s s').fill (hb.fill.trans_le hb.bound)
    have hfill : s'.1.fill = s'.2.queue.length := by
      have := htal.2
      have := hb.fill
      omega
    refine ⟨htot, hfill, hfill ▸ htal.1, fun hq => ?_⟩
    cases h' with
    | idle h₀ =>
      rw [h₀] at hfill
      exact absurd (List.length_eq_zero_iff.mp hfill.symm) hq
    | @hold p d j h₀ hj hfit =>
      -- the head did not fit, so some job still holds units
      intro hr
      have hfree : p.free = capacity := by
        rwa [Scheduler.total, hr, load_nil, add_zero] at htot
      exact hfit (hfree ▸ hfits j)
    | serve h₀ hq hfit => simp

end Alone

/-! ## Any number of desks -/

/-- Desks over one pool. -/
structure Hall (ι : Type w) (J : Type u) (R : Type v) where
  pool : Pool R
  desks : ι → Desk J

namespace Hall

variable {ι : Type w} {need : J → R → ℕ} {cap : ℕ} {s s' : Hall ι J R} {a : ι}

/-- Desk `a` and the pool. -/
def desk (s : Hall ι J R) (a : ι) : Pool R × Desk J := (s.pool, s.desks a)

/-- Desk `a` moves and the others keep still. -/
structure Step (need : J → R → ℕ) (cap : ℕ) (a : ι) (s s' : Hall ι J R) : Prop where
  move : Move need cap (s.desk a) (s'.desk a)
  still : ∀ b ≠ a, s'.desks b = s.desks b

variable [Fintype ι] [DecidableEq ι]

theorem sum_of_eq_off {M : Type*} [AddCommMonoid M] {f g : ι → M} (h : ∀ b ≠ a, g b = f b) :
    ∑ b, g b + f a = ∑ b, f b + g a := by
  rw [Fintype.sum_eq_add_sum_compl a f, Fintype.sum_eq_add_sum_compl a g,
    Finset.sum_congr rfl fun b hb => h b (by simpa using hb)]
  rw [add_right_comm, add_comm (g a), add_right_comm]

/-- **Units are conserved over all desks.** -/
theorem Step.conserve (h : Step need cap a s s') :
    s'.pool.free + ∑ b, load need (s'.desks b).running =
      s.pool.free + ∑ b, load need (s.desks b).running := by
  have hloc := h.move.conserve
  have hsum := sum_of_eq_off (f := fun b => load need (s.desks b).running)
    (g := fun b => load need (s'.desks b).running) fun b hb => by rw [h.still b hb]
  funext r
  have hloc := congrFun hloc r
  have hsum := congrFun hsum r
  simp only [total, desk, Pi.add_apply] at hloc hsum ⊢
  omega

/-- **The count is the number of jobs that wait at all desks**, as long as it is so at first. -/
theorem Step.fill (h : Step need cap a s s') (hle : s.pool.fill ≤ cap)
    (hfill : s.pool.fill = ∑ b, (s.desks b).queue.length) :
    s'.pool.fill ≤ cap ∧ s'.pool.fill = ∑ b, (s'.desks b).queue.length := by
  have hloc := h.move.fill hle
  have hsum := sum_of_eq_off (f := fun b => (s.desks b).queue.length)
    (g := fun b => (s'.desks b).queue.length) fun b hb => by rw [h.still b hb]
  refine ⟨hloc.1, ?_⟩
  have := hloc.2
  simp only [desk] at this
  omega

omit [DecidableEq ι] in
theorem fill_ne_zero (hfill : s.pool.fill = ∑ b, (s.desks b).queue.length) :
    s.pool.fill ≠ 0 ↔ ∃ b, (s.desks b).queue ≠ [] := by
  rw [hfill, Ne, Finset.sum_eq_zero_iff]
  simp

end Hall

end Scheduler
