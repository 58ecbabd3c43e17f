import MessagesApp.Lib.Run
import Mathlib.Algebra.BigOperators.Group.Finset.Basic
import Mathlib.Algebra.Order.BigOperators.Group.Finset
import Mathlib.Algebra.Order.Group.Multiset
import Mathlib.Data.Fintype.Card
import Mathlib.Data.List.ReduceOption
import Mathlib.Tactic.Abel

/-!
# Workers that share a queue

As many coroutines as there are `ω` take items from one queue, each doing its job on an item before
it takes the next, until it takes a sentinel; behind the items there is a sentinel for each. They
give way to one another where they wait: for the queue, and wherever a job waits for something
(`ε`, the outcome of that wait). The jobs work on a shared state `σ`, each stretch between two
waits in one piece.

An item that was taken is held until its job is done, so none is lost and none is done twice. The
items that are done are kept with the outcomes their job has met; no program needs that list, and
what a program counts is compared with it.

`Conserved` is the invariant: the items are queued, held or done, as multisets, the queue's count
agrees with that, and the sentinels in the queue are those of the workers that run. Every step
moves one item or one sentinel, or none (`Conserved.step`). When the count is at zero nothing is
queued or held, so every item has been done once (`Conserved.joined`), and before that some worker
can go on (`Conserved.progress`), so that a pool whose waits end does not get stuck.

A job that raises, and a worker that is cancelled, are left out: a job whose waits can fail has
those failures among its outcomes.
-/

set_option autoImplicit false

namespace Lib.WorkPool

/-- `start` is where a job first waits; `next` what it does with the outcome, and where it waits
then, if it is not done. An outcome that cannot be is `none`. Between two waits nothing else
runs. -/
structure Job (ι φ σ ε : Type*) where
  start : ι → φ
  next : σ → φ → ε → Option (σ × Option φ)

inductive Worker (ι φ ε : Type*)
  | idle
  | busy (item : ι) (outcomes : List ε) (phase : φ)
  | stopped

/-- The queue with the items and the sentinels (`none`), what every worker is at, the queue's count
of unfinished items, what the jobs share, and what was done with the outcomes that were met. -/
structure State (ω ι φ σ ε : Type*) where
  queue : List (Option ι)
  workers : ω → Worker ι φ ε
  /-- the queue's count of what was put and not yet done -/
  unfinished : Nat
  shared : σ
  finished : List (ι × List ε)

inductive Event (ω ε : Type*)
  | get (w : ω)
  | resume (w : ω) (outcome : ε)

variable {ω ι φ σ ε : Type*}

/-- `queue.get()` by a worker that is there. A sentinel stops the worker, and is counted as done at
once. -/
def take (J : Job ι φ σ ε) [DecidableEq ω] (s : State ω ι φ σ ε) (w : ω) :
    Option (State ω ι φ σ ε) :=
  match s.queue with
  | [] => none
  | none :: queue => some { s with
      queue := queue
      workers := Function.update s.workers w .stopped
      unfinished := s.unfinished - 1 }
  | some item :: queue => some { s with
      queue := queue
      workers := Function.update s.workers w (.busy item [] (J.start item)) }

/-- An idle worker takes what is in front of the queue, or a busy one goes on with the outcome of
its wait. A job that is done is `task_done()`, and its worker is idle again. -/
def step (J : Job ι φ σ ε) [DecidableEq ω] (s : State ω ι φ σ ε) :
    Event ω ε → Option (State ω ι φ σ ε)
  | .get w => match s.workers w with
      | .idle => take J s w
      | _ => none
  | .resume w e => match s.workers w with
      | .busy item outcomes phase => match J.next s.shared phase e with
          | none => none
          | some (shared, some phase) => some { s with
              workers := Function.update s.workers w (.busy item (outcomes ++ [e]) phase)
              shared := shared }
          | some (shared, none) => some { s with
              workers := Function.update s.workers w .idle
              unfinished := s.unfinished - 1
              shared := shared
              finished := s.finished ++ [(item, outcomes ++ [e])] }
      | _ => none

/-- All items and the sentinels are in the queue before a worker runs. -/
def State.init [Fintype ω] (items : List ι) (shared : σ) : State ω ι φ σ ε where
  queue := items.map some ++ List.replicate (Fintype.card ω) none
  workers := fun _ => .idle
  unfinished := items.length + Fintype.card ω
  shared := shared
  finished := []

/-- Everything a step can be. -/
theorem step_cases {J : Job ι φ σ ε} [DecidableEq ω] {s s' : State ω ι φ σ ε} {e : Event ω ε}
    (h : step J s e = some s') :
    (∃ w queue, s.workers w = .idle ∧ s.queue = none :: queue ∧
      s' = ⟨queue, Function.update s.workers w .stopped, s.unfinished - 1, s.shared,
        s.finished⟩) ∨
    (∃ w item queue, s.workers w = .idle ∧ s.queue = some item :: queue ∧
      s' = ⟨queue, Function.update s.workers w (.busy item [] (J.start item)), s.unfinished,
        s.shared, s.finished⟩) ∨
    (∃ w item outcomes phase o shared phase', s.workers w = .busy item outcomes phase ∧
      J.next s.shared phase o = some (shared, some phase') ∧
      s' = ⟨s.queue, Function.update s.workers w (.busy item (outcomes ++ [o]) phase'),
        s.unfinished, shared, s.finished⟩) ∨
    (∃ w item outcomes phase o shared, s.workers w = .busy item outcomes phase ∧
      J.next s.shared phase o = some (shared, none) ∧
      s' = ⟨s.queue, Function.update s.workers w .idle, s.unfinished - 1, shared,
        s.finished ++ [(item, outcomes ++ [o])]⟩) := by
  cases e with
  | get w =>
    simp only [step] at h
    split at h
    · rename_i hw
      unfold take at h
      split at h
      · cases h
      · rename_i queue hq
        cases h
        exact Or.inl ⟨w, queue, hw, hq, rfl⟩
      · rename_i item queue hq
        cases h
        exact Or.inr (Or.inl ⟨w, item, queue, hw, hq, rfl⟩)
    · cases h
  | resume w o =>
    simp only [step] at h
    split at h
    · rename_i item outcomes phase hw
      split at h
      · cases h
      · rename_i shared phase' hn
        cases h
        exact Or.inr (Or.inr (Or.inl ⟨w, item, outcomes, phase, o, shared, phase', hw, hn, rfl⟩))
      · rename_i shared hn
        cases h
        exact Or.inr (Or.inr (Or.inr ⟨w, item, outcomes, phase, o, shared, hw, hn, rfl⟩))
    · cases h

/-! ## Sums over the workers -/

/-- Of a sum over the workers, a step changes the part of one. -/
theorem sum_update [Fintype ω] [DecidableEq ω] {α M : Type*} [AddCommMonoid M] (f : α → M)
    {g : ω → α} {w : ω} {a : α} (hw : g w = a) (x : α) :
    ∑ v, f (Function.update g w x v) + f a = ∑ v, f (g v) + f x := by
  subst hw
  have hsplit : ∀ g : ω → α, ∑ v, f (g v) = f (g w) + ∑ v ∈ Finset.univ.erase w, f (g v) :=
    fun g => (Finset.add_sum_erase _ _ (Finset.mem_univ w)).symm
  have hrest : ∑ v ∈ Finset.univ.erase w, f (Function.update g w x v) =
      ∑ v ∈ Finset.univ.erase w, f (g v) := by
    refine Finset.sum_congr rfl fun v hv => ?_
    rw [Function.update_of_ne (Finset.ne_of_mem_erase hv)]
  rw [hsplit (Function.update g w x), hsplit g, hrest, Function.update_self]
  rw [add_comm (f x), add_comm (f (g w)), add_right_comm]

/-- The item a worker has taken. -/
def Worker.held : Worker ι φ ε → Multiset ι
  | .idle => 0
  | .busy item _ _ => {item}
  | .stopped => 0

def Worker.isBusy : Worker ι φ ε → Nat
  | .idle => 0
  | .busy _ _ _ => 1
  | .stopped => 0

def Worker.isRunning : Worker ι φ ε → Nat
  | .idle => 1
  | .busy _ _ _ => 1
  | .stopped => 0

/-! ## What a pool conserves -/

variable [Fintype ω]

/-- The items are queued, held or done; the count is of the queue and of what is held; and behind
the items of the queue there is a sentinel for every worker that runs, which are all while there is
an item. -/
structure Conserved (items : List ι) (s : State ω ι φ σ ε) : Prop where
  items : (s.queue.reduceOption : Multiset ι) + ∑ w, (s.workers w).held +
    (s.finished.map Prod.fst : Multiset ι) = (items : Multiset ι)
  unfinished : s.unfinished = s.queue.length + ∑ w, (s.workers w).isBusy
  sentinels : ∃ l : List ι,
    s.queue = l.map some ++ List.replicate (∑ w, (s.workers w).isRunning) none ∧
      (l ≠ [] → ∀ w, s.workers w ≠ .stopped)

theorem Conserved.init (items : List ι) (shared : σ) :
    Conserved items (State.init items shared : State ω ι φ σ ε) where
  items := by
    have hqueue : (items.map some ++ List.replicate (Fintype.card ω) none).reduceOption = items := by
      rw [List.reduceOption_append, List.reduceOption_replicate_none, List.append_nil]
      unfold List.reduceOption
      rw [List.filterMap_map]
      exact List.filterMap_some
    simp [State.init, Worker.held, hqueue]
  unfinished := by simp [State.init, Worker.isBusy]
  sentinels := ⟨items, by simp [State.init, Worker.isRunning], fun _ _ h => by cases h⟩

variable {J : Job ι φ σ ε} {s s' : State ω ι φ σ ε} {e : Event ω ε} {items : List ι}

/-- **When the queue is joined, every item has been done once**, and no worker is at one. The count
is zero, and it is the sum of what is queued and what is held. -/
theorem Conserved.joined (h : Conserved items s) (hjoin : s.unfinished = 0) :
    (s.finished.map Prod.fst).Perm items ∧ ∀ w, (s.workers w).isBusy = 0 := by
  have hunf := h.unfinished
  rw [hjoin] at hunf
  have hqueue : s.queue = [] := List.length_eq_zero_iff.mp (by omega)
  have hidle : ∀ w, (s.workers w).isBusy = 0 := by
    intro w
    have hsum : ∑ w, (s.workers w).isBusy = 0 := by omega
    exact Finset.sum_eq_zero_iff.mp hsum w (Finset.mem_univ w)
  have hheld : ∑ w, (s.workers w).held = 0 := by
    refine Finset.sum_eq_zero fun w _ => ?_
    have hw := hidle w
    cases hs : s.workers w with
    | busy item outcomes phase => rw [hs] at hw; cases hw
    | idle => rfl
    | stopped => rfl
  refine ⟨Multiset.coe_eq_coe.mp ?_, hidle⟩
  rw [← h.items, hqueue, hheld]
  simp

variable [DecidableEq ω]

omit [Fintype ω] in
theorem update_ne_stopped {g : ω → Worker ι φ ε} (hg : ∀ v, g v ≠ .stopped) {w : ω}
    {x : Worker ι φ ε} (hx : x ≠ .stopped) (v : ω) : Function.update g w x v ≠ .stopped := by
  by_cases hv : v = w
  · subst hv
    rw [Function.update_self]
    exact hx
  · rw [Function.update_of_ne hv]
    exact hg v

/-- One worker changes, and with it the queue, the count and what is done. -/
theorem Conserved.update (h : Conserved items s) {w : ω} {a x : Worker ι φ ε} (hw : s.workers w = a)
    {queue : List (Option ι)} {n : Nat} {finished : List (ι × List ε)}
    (hitems : (queue.reduceOption : Multiset ι) + x.held + (finished.map Prod.fst : Multiset ι) =
      (s.queue.reduceOption : Multiset ι) + a.held + (s.finished.map Prod.fst : Multiset ι))
    (hunf : n + s.queue.length + a.isBusy = s.unfinished + queue.length + x.isBusy)
    (hsent : ∃ l : List ι, queue = l.map some ++
        List.replicate (∑ v, (Function.update s.workers w x v).isRunning) none ∧
      (l ≠ [] → ∀ v, Function.update s.workers w x v ≠ .stopped)) (shared : σ) :
    Conserved items ⟨queue, Function.update s.workers w x, n, shared, finished⟩ where
  items := by
    have hheld := sum_update Worker.held hw x
    have hall := h.items
    refine add_right_cancel (b := a.held) ?_
    calc
      _ = (queue.reduceOption : Multiset ι) + (∑ v, (Function.update s.workers w x v).held + a.held) +
          (finished.map Prod.fst : Multiset ι) := by
        simp only
        abel
      _ = ((queue.reduceOption : Multiset ι) + x.held + (finished.map Prod.fst : Multiset ι)) +
          ∑ v, (s.workers v).held := by
        rw [hheld]
        abel
      _ = (items : Multiset ι) + a.held := by
        rw [hitems, ← hall]
        abel
  unfinished := by
    have hbusy := sum_update Worker.isBusy hw x
    have hcount := h.unfinished
    simp only
    omega
  sentinels := hsent

/-- The sentinels are those of the workers that run, and these are the same. -/
theorem Conserved.sentinels_update (h : Conserved items s) {w : ω} {a x : Worker ι φ ε}
    (hw : s.workers w = a) (hrun : a.isRunning = x.isRunning) (hx : x ≠ .stopped) : ∃ l : List ι,
      s.queue = l.map some ++
        List.replicate (∑ v, (Function.update s.workers w x v).isRunning) none ∧
      (l ≠ [] → ∀ v, Function.update s.workers w x v ≠ .stopped) := by
  obtain ⟨l, hl, hrunning⟩ := h.sentinels
  have hsum := sum_update Worker.isRunning hw x
  rw [hrun] at hsum
  refine ⟨l, ?_, fun hne => update_ne_stopped (hrunning hne) hx⟩
  rw [Nat.add_right_cancel hsum]
  exact hl

/-- **A step moves one item or one sentinel, or none**, and the count with it. One case for each of
the four things a step can be. -/
theorem Conserved.step (h : Conserved items s) (hstep : WorkPool.step J s e = some s') :
    Conserved items s' := by
  have hcount := h.unfinished
  rcases step_cases hstep with ⟨w, queue, hw, hq, rfl⟩ | ⟨w, item, queue, hw, hq, rfl⟩ |
    ⟨w, item, outcomes, phase, o, shared, phase', hw, -, rfl⟩ |
    ⟨w, item, outcomes, phase, o, shared, hw, -, rfl⟩
  · rw [hq, List.length_cons] at hcount
    refine h.update hw ?_ ?_ ?_ _
    · rw [hq, List.reduceOption_cons_of_none]
      rfl
    · simp only [hq, List.length_cons, Worker.isBusy]
      omega
    · -- what is in front of the sentinels is not a sentinel
      obtain ⟨l, hl, -⟩ := h.sentinels
      have hrun : _ + 1 = _ + 0 := sum_update Worker.isRunning hw .stopped
      rw [hq, ← hrun.trans (Nat.add_zero _)] at hl
      cases l with
      | cons item l => cases hl
      | nil =>
        rw [List.replicate_succ] at hl
        exact ⟨[], (List.cons.inj hl).2, fun hne => absurd rfl hne⟩
  · refine h.update hw ?_ ?_ ?_ _
    · rw [hq, List.reduceOption_cons_of_some, ← Multiset.cons_coe, ← Multiset.singleton_add]
      simp only [Worker.held]
      abel
    · simp only [hq, List.length_cons, Worker.isBusy]
      omega
    · obtain ⟨l, hl, hrunning⟩ := h.sentinels_update hw (x := .busy item [] (J.start item)) rfl
        fun hx => by cases hx
      rw [hq] at hl
      cases l with
      | nil =>
        cases hn : ∑ v, (Function.update s.workers w (.busy item [] (J.start item)) v).isRunning with
        | zero => rw [hn] at hl; cases hl
        | succ n => rw [hn] at hl; cases hl
      | cons item' l =>
        exact ⟨l, (List.cons.inj hl).2, fun _ => hrunning (List.cons_ne_nil _ _)⟩
  · refine h.update hw ?_ ?_ ?_ _
    · rfl
    · rfl
    · exact h.sentinels_update hw rfl fun hx => by cases hx
  · refine h.update hw ?_ ?_ ?_ _
    · rw [List.map_append, List.map_singleton, ← Multiset.coe_add, Multiset.coe_singleton]
      simp only [Worker.held]
      abel
    · have hpos : 1 ≤ ∑ v, (s.workers v).isBusy := by
        have hle := Finset.single_le_sum (f := fun v => (s.workers v).isBusy)
          (fun v _ => Nat.zero_le _) (Finset.mem_univ w)
        simp only [hw, Worker.isBusy] at hle
        exact hle
      simp only [Worker.isBusy]
      omega
    · exact h.sentinels_update hw rfl fun hx => by cases hx

theorem conserved_of_run {shared : σ} {tr : List (Transition (State ω ι φ σ ε) (Event ω ε))}
    (h : Run (WorkPool.step J) (State.init items shared) tr s) : Conserved items s :=
  h.inv (Conserved.init items shared) fun _ _ _ hc hstep => hc.step hstep

/-- **Until then some worker can go on**, if every wait of a job has an end. A busy worker can, and
where none is busy the queue is not empty and a worker is idle. -/
theorem Conserved.progress [Nonempty ω] (h : Conserved items s) (hjoin : s.unfinished ≠ 0)
    (hlive : ∀ shared phase, ∃ o r, J.next shared phase o = some r) :
    ∃ e s', WorkPool.step J s e = some s' := by
  by_cases hbusy : ∃ w item outcomes phase, s.workers w = .busy item outcomes phase
  · obtain ⟨w, item, outcomes, phase, hw⟩ := hbusy
    obtain ⟨o, ⟨shared, next⟩, hnext⟩ := hlive s.shared phase
    refine ⟨.resume w o, ?_⟩
    simp only [WorkPool.step, hw, hnext]
    cases next with
    | none => exact ⟨_, rfl⟩
    | some phase' => exact ⟨_, rfl⟩
  · -- nobody holds an item, so the queue has something, and a worker to take it
    have hsum : ∑ w, (s.workers w).isBusy = 0 := by
      refine Finset.sum_eq_zero fun w _ => ?_
      cases hs : s.workers w with
      | busy item outcomes phase => exact absurd ⟨w, item, outcomes, phase, hs⟩ hbusy
      | idle => rfl
      | stopped => rfl
    have hunf := h.unfinished
    cases hq : s.queue with
    | nil =>
      rw [hq, hsum] at hunf
      exact absurd hunf hjoin
    | cons x queue =>
      have hrunning : ∃ w, s.workers w ≠ .stopped := by
        by_contra hall
        have hstopped : ∀ w, s.workers w = .stopped := fun w => not_not.mp fun hw => hall ⟨w, hw⟩
        have hnone : ∑ w, (s.workers w).isRunning = 0 := by
          refine Finset.sum_eq_zero fun w _ => ?_
          rw [hstopped w]
          rfl
        obtain ⟨l, hl, hrun⟩ := h.sentinels
        rw [hnone, hq] at hl
        cases l with
        | nil => cases hl
        | cons item l =>
          obtain ⟨w⟩ := ‹Nonempty ω›
          exact hrun (List.cons_ne_nil _ _) w (hstopped w)
      obtain ⟨w, hw⟩ := hrunning
      refine ⟨.get w, ?_⟩
      have hidle : s.workers w = .idle := by
        cases hs : s.workers w with
        | busy item outcomes phase => exact absurd ⟨w, item, outcomes, phase, hs⟩ hbusy
        | idle => rfl
        | stopped => exact absurd hs hw
      simp only [WorkPool.step, hidle, take, hq]
      cases x with
      | none => exact ⟨_, rfl⟩
      | some item => exact ⟨_, rfl⟩

end Lib.WorkPool
