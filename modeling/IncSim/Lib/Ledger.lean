import Mathlib.Data.List.Perm.Basic
import Mathlib.Data.List.Range
import Mathlib.Data.List.Nodup

/-!
# A ledger of jobs

A bookkeeper's view of a server with a queue: every job it accepts gets a label, and the ledger says
where each label is. The label of a job is its place in the list of accepted jobs.

* `Ledger`: the accepted jobs and the labels that run, wait, are answered or are diverted; an
  answered or diverted label comes with the place of its packet in the list of sent packets.
* `start`, `enqueue`, `divert`, `finish`, `serve`: what a server does.
* `Sound`: every label is in exactly one place, the places show what the server has, and every
  answer and every diversion has a packet of its own.
* **`Sound.start`**, **`Sound.enqueue`**, **`Sound.divert`**, **`Sound.finish`**, **`Sound.serve`**:
  each operation keeps it.
* `startedJobs`: the jobs in the order of their starts.
-/

universe u v

/-- The books of a server. -/
structure Ledger (α : Type u) where
  jobs : List α
  running : List ℕ
  waiting : List ℕ
  answered : List (ℕ × ℕ)
  diverted : List (ℕ × ℕ)
  pushed : List ℕ
  popped : List ℕ
  started : List ℕ

namespace Ledger

variable {α : Type u} {β : Type v}

def empty : Ledger α := ⟨[], [], [], [], [], [], [], []⟩

variable (L : Ledger α)

/-! ## Operations -/

/-- A new job runs at once. -/
def start (j : α) : Ledger α :=
  { L with
    jobs := L.jobs ++ [j]
    running := L.running ++ [L.jobs.length]
    started := L.started ++ [L.jobs.length] }

/-- A new job waits. -/
def enqueue (j : α) : Ledger α :=
  { L with
    jobs := L.jobs ++ [j]
    waiting := L.waiting ++ [L.jobs.length]
    pushed := L.pushed ++ [L.jobs.length] }

/-- A new job is passed on with packet `p`. -/
def divert (j : α) (p : ℕ) : Ledger α :=
  { L with jobs := L.jobs ++ [j], diverted := L.diverted ++ [(L.jobs.length, p)] }

/-- The job at place `k` of the running ones ends and is answered with packet `p`. -/
def finish (k p : ℕ) : Ledger α :=
  match L.running[k]? with
  | none => L
  | some i => { L with running := L.running.eraseIdx k, answered := L.answered ++ [(i, p)] }

/-- The first job that waits starts. -/
def serve : Ledger α :=
  match L.waiting with
  | [] => L
  | i :: rest =>
    { L with
      waiting := rest
      popped := L.popped ++ [i]
      running := L.running ++ [i]
      started := L.started ++ [i] }

/-- Where the labels are. -/
def labels : List ℕ :=
  L.running ++ (L.waiting ++ (L.answered.map Prod.fst ++ L.diverted.map Prod.fst))

/-- The jobs behind some labels. -/
def jobsAt (l : List ℕ) : List (Option α) := l.map fun i => L.jobs[i]?

/-- The jobs in the order of their starts. -/
def startedJobs : List α := L.started.filterMap fun i => L.jobs[i]?

/-! ## Soundness -/

/-- The ledger accounts for a server that runs and holds these jobs and has sent these packets. -/
structure Sound (reply pass : α → β) (L : Ledger α) (running waiting : List α) (sent : List β) :
    Prop where
  partition : L.labels.Perm (List.range L.jobs.length)
  running : L.jobsAt L.running = running.map some
  waiting : L.jobsAt L.waiting = waiting.map some
  queue : L.pushed = L.popped ++ L.waiting
  started : L.started.Perm (L.running ++ L.answered.map Prod.fst)
  answered : ∀ q ∈ L.answered, ∃ j, L.jobs[q.1]? = some j ∧ sent[q.2]? = some (reply j)
  diverted : ∀ q ∈ L.diverted, ∃ j, L.jobs[q.1]? = some j ∧ sent[q.2]? = some (pass j)
  posted : ((L.answered ++ L.diverted).map Prod.snd).Nodup

variable {L} {reply pass : α → β} {running waiting rest : List α} {sent sent' : List β} {j : α}
  {k : ℕ} {l : List ℕ}

/-- The next label joins the labels. -/
theorem perm_range_succ {l l' : List ℕ} {n : ℕ} (hl : l.Perm (List.range n))
    (hl' : l'.Perm (n :: l)) : l'.Perm (List.range (n + 1)) := by
  rw [List.range_succ]
  exact hl'.trans ((hl.cons n).trans (List.perm_append_singleton n _).symm)

/-- An element moves from one list to the end of another. -/
theorem perm_move {i : ℕ} {r r' w a d : List ℕ} (h : (i :: r').Perm r) :
    (r' ++ (w ++ ((a ++ [i]) ++ d))).Perm (r ++ (w ++ (a ++ d))) := by
  have hfront : (r' ++ (w ++ ((a ++ [i]) ++ d))).Perm (i :: (r' ++ (w ++ (a ++ d)))) := by
    have hmid : ((r' ++ (w ++ a)) ++ i :: d).Perm (i :: ((r' ++ (w ++ a)) ++ d)) := List.perm_middle
    simpa using hmid
  exact hfront.trans (h.append_right _)

/-- What a list shows at a place, it shows there when it grows. -/
theorem getElem?_of_prefix {l l' : List β} {b : β} {i : ℕ} (hl : l <+: l') (h : l[i]? = some b) :
    l'[i]? = some b := by
  obtain ⟨r, rfl⟩ := hl
  rw [List.getElem?_append_left (List.getElem?_eq_some_iff.mp h).1]
  exact h

theorem jobsAt_concat {l : List ℕ} (hl : ∀ i ∈ l, i < L.jobs.length) (j : α) :
    (l.map fun i => (L.jobs ++ [j])[i]?) = L.jobsAt l :=
  List.map_congr_left fun i hi => List.getElem?_append_left (hl i hi)

theorem filterMap_concat {l : List ℕ} (hl : ∀ i ∈ l, i < L.jobs.length) (j : α) :
    (l.filterMap fun i => (L.jobs ++ [j])[i]?) = l.filterMap fun i => L.jobs[i]? :=
  List.filterMap_congr fun i hi => List.getElem?_append_left (hl i hi)

namespace Sound

theorem lt_length (h : Sound reply pass L running waiting sent) {i : ℕ} (hi : i ∈ L.labels) :
    i < L.jobs.length := List.mem_range.mp (h.partition.subset hi)

theorem running_lt (h : Sound reply pass L running waiting sent) :
    ∀ i ∈ L.running, i < L.jobs.length := fun _ hi => h.lt_length (List.mem_append_left _ hi)

theorem waiting_lt (h : Sound reply pass L running waiting sent) :
    ∀ i ∈ L.waiting, i < L.jobs.length :=
  fun _ hi => h.lt_length (List.mem_append_right _ (List.mem_append_left _ hi))

theorem started_lt (h : Sound reply pass L running waiting sent) :
    ∀ i ∈ L.started, i < L.jobs.length := by
  intro i hi
  rcases List.mem_append.mp (h.started.subset hi) with hi | hi
  · exact h.running_lt i hi
  · refine h.lt_length (List.mem_append_right _ (List.mem_append_right _ ?_))
    exact List.mem_append_left _ hi

/-- The packets of the answers and diversions are among the sent ones. -/
theorem posted_lt (h : Sound reply pass L running waiting sent) :
    ∀ p ∈ (L.answered ++ L.diverted).map Prod.snd, p < sent.length := by
  intro p hp
  obtain ⟨q, hq, rfl⟩ := List.mem_map.mp hp
  rcases List.mem_append.mp hq with hq | hq
  · obtain ⟨j, -, hj⟩ := h.answered q hq
    exact (List.getElem?_eq_some_iff.mp hj).1
  · obtain ⟨j, -, hj⟩ := h.diverted q hq
    exact (List.getElem?_eq_some_iff.mp hj).1

/-- The next packet is a new one. -/
theorem posted_cons (h : Sound reply pass L running waiting sent) :
    (sent.length :: (L.answered ++ L.diverted).map Prod.snd).Nodup :=
  List.nodup_cons.mpr ⟨fun hmem => (h.posted_lt _ hmem).ne rfl, h.posted⟩

/-- More packets may be sent. -/
theorem mono (h : Sound reply pass L running waiting sent) (hs : sent <+: sent') :
    Sound reply pass L running waiting sent' where
  partition := h.partition
  running := h.running
  waiting := h.waiting
  queue := h.queue
  started := h.started
  answered := by
    intro q hq
    obtain ⟨j, hj, hp⟩ := h.answered q hq
    exact ⟨j, hj, getElem?_of_prefix hs hp⟩
  diverted := by
    intro q hq
    obtain ⟨j, hj, hp⟩ := h.diverted q hq
    exact ⟨j, hj, getElem?_of_prefix hs hp⟩
  posted := h.posted

/-- A new job at the end of the list leaves the earlier labels as they are. -/
theorem keeps {L' : Ledger α} {sent' : List β} (h : Sound reply pass L running waiting sent)
    (hjobs : L'.jobs = L.jobs ++ [j]) (hs : sent <+: sent') :
    (∀ q ∈ L.answered, ∃ j, L'.jobs[q.1]? = some j ∧ sent'[q.2]? = some (reply j)) ∧
      ∀ q ∈ L.diverted, ∃ j, L'.jobs[q.1]? = some j ∧ sent'[q.2]? = some (pass j) := by
  have hp : L.jobs <+: L'.jobs := hjobs ▸ List.prefix_append _ _
  constructor
  · intro q hq
    obtain ⟨j, hj, hb⟩ := h.answered q hq
    exact ⟨j, getElem?_of_prefix hp hj, getElem?_of_prefix hs hb⟩
  · intro q hq
    obtain ⟨j, hj, hb⟩ := h.diverted q hq
    exact ⟨j, getElem?_of_prefix hp hj, getElem?_of_prefix hs hb⟩

theorem start (h : Sound reply pass L running waiting sent) (j : α) :
    Sound reply pass (L.start j) (running ++ [j]) waiting sent where
  partition := by
    have hlen : (L.start j).jobs.length = L.jobs.length + 1 := List.length_append
    rw [hlen]
    refine perm_range_succ h.partition ?_
    show ((L.running ++ [L.jobs.length]) ++ _).Perm _
    rw [List.append_assoc]
    exact List.perm_middle
  running := by
    show ((L.running ++ [L.jobs.length]).map fun i => (L.jobs ++ [j])[i]?) = _
    rw [List.map_append, jobsAt_concat h.running_lt, h.running, List.map_append]
    simp
  waiting := (jobsAt_concat h.waiting_lt j).trans h.waiting
  queue := h.queue
  started := by
    show (L.started ++ [_]).Perm ((L.running ++ [_]) ++ _)
    rw [List.append_assoc]
    refine (List.perm_append_singleton _ _).trans ((h.started.cons _).trans ?_)
    exact List.perm_middle.symm
  answered := (h.keeps rfl (List.prefix_refl _)).1
  diverted := (h.keeps rfl (List.prefix_refl _)).2
  posted := h.posted

theorem enqueue (h : Sound reply pass L running waiting sent) (j : α) :
    Sound reply pass (L.enqueue j) running (waiting ++ [j]) sent where
  partition := by
    have hlen : (L.enqueue j).jobs.length = L.jobs.length + 1 := List.length_append
    rw [hlen]
    refine perm_range_succ h.partition ?_
    show (L.running ++ ((L.waiting ++ [L.jobs.length]) ++ _)).Perm _
    rw [List.append_assoc, ← List.append_assoc L.running]
    refine List.perm_middle.trans ?_
    rw [List.append_assoc]
    exact List.Perm.refl _
  running := (jobsAt_concat h.running_lt j).trans h.running
  waiting := by
    show ((L.waiting ++ [L.jobs.length]).map fun i => (L.jobs ++ [j])[i]?) = _
    rw [List.map_append, jobsAt_concat h.waiting_lt, h.waiting, List.map_append]
    simp
  queue := by
    show L.pushed ++ [_] = L.popped ++ (L.waiting ++ [_])
    rw [h.queue, List.append_assoc]
  started := h.started
  answered := (h.keeps rfl (List.prefix_refl _)).1
  diverted := (h.keeps rfl (List.prefix_refl _)).2
  posted := h.posted

theorem divert (h : Sound reply pass L running waiting sent) (j : α) :
    Sound reply pass (L.divert j sent.length) running waiting (sent ++ [pass j]) where
  partition := by
    have hlen : (L.divert j sent.length).jobs.length = L.jobs.length + 1 := List.length_append
    rw [hlen]
    refine perm_range_succ h.partition ?_
    have hlabels : (L.divert j sent.length).labels = L.labels ++ [L.jobs.length] := by
      simp [labels, Ledger.divert]
    rw [hlabels]
    exact List.perm_append_singleton _ _
  running := (jobsAt_concat h.running_lt j).trans h.running
  waiting := (jobsAt_concat h.waiting_lt j).trans h.waiting
  queue := h.queue
  started := h.started
  answered := (h.keeps rfl (List.prefix_append _ _)).1
  diverted := by
    intro q hq
    rcases List.mem_append.mp hq with hq | hq
    · exact (h.keeps rfl (List.prefix_append _ _)).2 q hq
    · rw [List.mem_singleton.mp hq]
      exact ⟨j, List.getElem?_concat_length, List.getElem?_concat_length⟩
  posted := by
    refine List.Perm.nodup ?_ h.posted_cons
    have hlast := (List.perm_append_singleton (L.jobs.length, sent.length)
      (L.answered ++ L.diverted)).map Prod.snd
    rw [List.append_assoc] at hlast
    exact hlast.symm

/-- The label at a place of the running ones is that of the job there. -/
theorem running_getElem? (h : Sound reply pass L running waiting sent) (hk : running[k]? = some j) :
    ∃ i, L.running[k]? = some i ∧ L.jobs[i]? = some j := by
  have hmap : (L.jobsAt L.running)[k]? = some (some j) := by
    rw [h.running, List.getElem?_map, hk]
    rfl
  rw [jobsAt, List.getElem?_map] at hmap
  obtain ⟨i, hi, hj⟩ := Option.map_eq_some_iff.mp hmap
  exact ⟨i, hi, hj⟩

theorem finish (h : Sound reply pass L running waiting sent) (hk : running[k]? = some j) :
    Sound reply pass (L.finish k sent.length) (running.eraseIdx k) waiting (sent ++ [reply j]) := by
  obtain ⟨i, hi, hj⟩ := h.running_getElem? hk
  obtain ⟨hlt, rfl⟩ := List.getElem?_eq_some_iff.mp hi
  have herase : (L.running[k] :: L.running.eraseIdx k).Perm L.running :=
    List.getElem_cons_eraseIdx_perm hlt
  unfold Ledger.finish
  rw [hi]
  have hsent : sent <+: sent ++ [reply j] := List.prefix_append _ _
  exact
    { partition := by
        refine List.Perm.trans ?_ h.partition
        simp only [labels, List.map_append, List.map_cons, List.map_nil]
        exact perm_move herase
      running := by
        show (L.running.eraseIdx k).map _ = _
        have hmap := congrArg (fun l => l.eraseIdx k) h.running
        rw [jobsAt] at hmap
        simpa only [List.eraseIdx_map] using hmap
      waiting := h.waiting
      queue := h.queue
      started := by
        refine h.started.trans ?_
        have hmove := perm_move (w := []) (a := L.answered.map Prod.fst) (d := []) herase
        simpa using hmove.symm
      answered := by
        intro q hq
        rcases List.mem_append.mp hq with hq | hq
        · exact (h.mono hsent).answered q hq
        · rw [List.mem_singleton.mp hq]
          exact ⟨j, hj, List.getElem?_concat_length⟩
      diverted := (h.mono hsent).diverted
      posted := by
        refine List.Perm.nodup ?_ h.posted_cons
        have hmid : (L.answered ++ (L.running[k], sent.length) :: L.diverted).Perm
            ((L.running[k], sent.length) :: (L.answered ++ L.diverted)) := List.perm_middle
        rw [List.append_assoc]
        exact (hmid.map Prod.snd).symm }

theorem serve (h : Sound reply pass L running (j :: rest) sent) :
    Sound reply pass L.serve (running ++ [j]) rest sent := by
  have hw := h.waiting
  unfold Ledger.serve
  cases hq : L.waiting with
  | nil =>
    rw [hq] at hw
    cases hw
  | cons i rest' =>
    rw [hq, jobsAt, List.map_cons, List.map_cons, List.cons.injEq] at hw
    obtain ⟨hj, hrest⟩ := hw
    exact
      { partition := by
          refine (List.Perm.of_eq ?_).trans h.partition
          simp [labels, hq]
        running := by
          show (L.running ++ [i]).map _ = _
          rw [List.map_append, List.map_append, ← h.running]
          show _ ++ [L.jobs[i]?] = _
          rw [hj]
          rfl
        waiting := hrest
        queue := by
          show L.pushed = (L.popped ++ [i]) ++ rest'
          rw [h.queue, hq, List.append_assoc]
          rfl
        started := by
          show (L.started ++ [i]).Perm ((L.running ++ [i]) ++ _)
          rw [List.append_assoc]
          refine (List.perm_append_singleton _ _).trans ((h.started.cons _).trans ?_)
          exact List.perm_middle.symm
        answered := h.answered
        diverted := h.diverted
        posted := h.posted }

end Sound

/-! ## The starts -/

theorem startedJobs_start (h : Sound reply pass L running waiting sent) (j : α) :
    (L.start j).startedJobs = L.startedJobs ++ [j] := by
  show ((L.started ++ [L.jobs.length]).filterMap fun i => (L.jobs ++ [j])[i]?) = _
  rw [List.filterMap_append, filterMap_concat h.started_lt]
  simp [startedJobs]

theorem startedJobs_enqueue (h : Sound reply pass L running waiting sent) (j : α) :
    (L.enqueue j).startedJobs = L.startedJobs := filterMap_concat h.started_lt j

theorem startedJobs_divert (h : Sound reply pass L running waiting sent) (j : α) (p : ℕ) :
    (L.divert j p).startedJobs = L.startedJobs := filterMap_concat h.started_lt j

theorem startedJobs_finish (k p : ℕ) : (L.finish k p).startedJobs = L.startedJobs := by
  unfold finish
  split <;> rfl

theorem startedJobs_serve (h : Sound reply pass L running (j :: rest) sent) :
    L.serve.startedJobs = L.startedJobs ++ [j] := by
  have hw := h.waiting
  unfold serve
  cases hq : L.waiting with
  | nil =>
    rw [hq] at hw
    cases hw
  | cons i rest' =>
    rw [hq, jobsAt, List.map_cons, List.map_cons, List.cons.injEq] at hw
    show (L.started ++ [i]).filterMap _ = _
    rw [List.filterMap_append]
    simp [startedJobs, hw.1]

end Ledger
