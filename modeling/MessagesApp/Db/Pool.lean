import MessagesApp.Lib.Run
import Mathlib.Data.List.Basic

/-!
# `AsyncDatabase.get_pool`

The pool of an `AsyncDatabase` is made by the first call that asks for it: `get_pool`
(`connection.py` 41–50) looks at `_pool`, waits for `create_pool` where there is none, and sets it.
Other calls run while it waits, and each that comes by before the field is set waits for a pool of
its own. `ι` names the calls, `π` the pools.

A step is what runs between two `await`s: a call up to `create_pool`, or what follows it. So the
test and the assignment are two steps, and the class's "shared Pool" is one only where no second
call falls between them. `one_shared_pool_iff` says exactly that, for every interleaving and with
creations that fail: there is one pool unless two calls wait for one at the same time and both are
given it.

One direction counts: two calls that were both given a pool made two (`BothCreate.two_le`). The
other is an invariant: as long as that has not come about, the pools that were made are the one in
the field (`shared_of_run`). It rests on `waiting_of_run`, since who waits for a pool when one is
set has been waiting from before.

Left out are the connections of a pool, and closing it, which nothing calls.
-/

set_option autoImplicit false

namespace MessagesApp.Db

open Lib

/-- Where a call of `get_pool` is. -/
inductive Call (π : Type*)
  /-- `await asyncpg.create_pool(...)` -/
  | creating
  | returned (pool : π)
  | raised (error : String)

/-- The instance and the calls made on it: the field `_pool`, and where each call is. -/
structure AsyncDatabase (ι π : Type*) where
  pool : Option π
  calls : ι → Option (Call π)

/-- What can come next: a call, or what `create_pool` does for one that waits for it. -/
inductive PoolEvent (ι π : Type*)
  | call (i : ι)
  /-- `create_pool` gives way to other calls, and goes on. -/
  | suspended (i : ι)
  | created (i : ι) (pool : π)
  | failed (i : ι) (error : String)

variable {ι π : Type*}

def AsyncDatabase.init : AsyncDatabase ι π := ⟨none, fun _ => none⟩

/-- `get_pool` up to its first `await`: it returns at once where the field is set. -/
def getPool : Option π → Call π
  | none => .creating
  | some p => .returned p

/-- The call goes on from `create_pool`, if it is there. -/
def AsyncDatabase.afterCreate (s : AsyncDatabase ι π) (i : ι) (next : AsyncDatabase ι π) :
    Option (AsyncDatabase ι π) :=
  match s.calls i with
  | some .creating => some next
  | _ => none

abbrev PoolStep (ι π : Type*) := Transition (AsyncDatabase ι π) (PoolEvent ι π)

/-- The pool that an event made. -/
def PoolEvent.made : PoolEvent ι π → Option π
  | .created _ p => some p
  | _ => none

/-- The pools that `create_pool` has made. -/
def created (tr : List (PoolStep ι π)) : List π := tr.filterMap fun t => t.event.made

variable {s s' : AsyncDatabase ι π} {e : PoolEvent ι π} {tr : List (PoolStep ι π)}

theorem afterCreate_eq_some {i : ι} {next : AsyncDatabase ι π}
    (h : s.afterCreate i next = some s') : s.calls i = some .creating ∧ s' = next := by
  unfold AsyncDatabase.afterCreate at h
  split at h
  · rename_i hc
    exact ⟨hc, (Option.some.inj h).symm⟩
  · cases h

/-! ## What was made -/

theorem created_snoc (tr : List (PoolStep ι π)) (t : PoolStep ι π) :
    created (tr ++ [t]) = created tr ++ t.event.made.toList := by
  unfold created
  rw [List.filterMap_append]
  cases h : t.event.made <;> simp [h]

/-- The step that made a pool. -/
theorem mem_created {p : π} (h : p ∈ created tr) :
    ∃ tr₁ t tr₂ i, tr = tr₁ ++ t :: tr₂ ∧ t.event = .created i p := by
  obtain ⟨t, ht, hev⟩ := List.mem_filterMap.mp h
  obtain ⟨tr₁, tr₂, rfl⟩ := List.append_of_mem ht
  cases he : t.event with
  | created i q =>
    rw [he] at hev
    cases hev
    exact ⟨tr₁, t, tr₂, i, rfl, he⟩
  | _ => rw [he] at hev; cases hev

/-- Two calls wait for `create_pool` at the same time, and both are given a pool. What the guard of
`get_pool` does not rule out. -/
def BothCreate (tr : List (PoolStep ι π)) : Prop :=
  ∃ tr₁ t tr₂ t' tr₃ i j p q, tr = tr₁ ++ t :: (tr₂ ++ t' :: tr₃) ∧ i ≠ j ∧
    t.event = .created i p ∧ t.pre.calls i = some .creating ∧ t.pre.calls j = some .creating ∧
    t'.event = .created j q

theorem BothCreate.append (h : BothCreate tr) (t : PoolStep ι π) : BothCreate (tr ++ [t]) := by
  obtain ⟨tr₁, t₁, tr₂, t₂, tr₃, i, j, p, q, rfl, hrest⟩ := h
  exact ⟨tr₁, t₁, tr₂, t₂, tr₃ ++ [t], i, j, p, q, by simp, hrest⟩

theorem BothCreate.two_le (h : BothCreate tr) : 2 ≤ (created tr).length := by
  obtain ⟨tr₁, t, tr₂, t', tr₃, i, j, p, q, rfl, -, hev, -, -, hev'⟩ := h
  have hmade : t.event.made = some p := by rw [hev]; rfl
  have hmade' : t'.event.made = some q := by rw [hev']; rfl
  simp only [created, List.filterMap_append, List.filterMap_cons, hmade, hmade',
    List.length_append, List.length_cons]
  omega

/-! ## Steps -/

variable [DecidableEq ι]

/-- The interleaving. A call is made once; `create_pool` may give way any number of times before it
gives a pool or raises. -/
def poolStep (s : AsyncDatabase ι π) : PoolEvent ι π → Option (AsyncDatabase ι π)
  | .call i => if (s.calls i).isNone then
      some { s with calls := Function.update s.calls i (some (getPool s.pool)) } else none
  | .suspended i => s.afterCreate i s
  -- the field is set and returned without another `await`
  | .created i p => s.afterCreate i
      ⟨some p, Function.update s.calls i (some (.returned p))⟩
  | .failed i e => s.afterCreate i
      { s with calls := Function.update s.calls i (some (.raised e)) }

/-- Everything a step can be. -/
theorem poolStep_cases (h : poolStep s e = some s') :
    (∃ i, e = .call i ∧ s.calls i = none ∧
      s' = ⟨s.pool, Function.update s.calls i (some (getPool s.pool))⟩) ∨
    (∃ i, e = .suspended i ∧ s' = s) ∨
    (∃ i p, e = .created i p ∧ s.calls i = some .creating ∧
      s' = ⟨some p, Function.update s.calls i (some (.returned p))⟩) ∨
    (∃ i error, e = .failed i error ∧ s.calls i = some .creating ∧
      s' = ⟨s.pool, Function.update s.calls i (some (.raised error))⟩) := by
  cases e with
  | call i =>
    simp only [poolStep, Option.isNone_iff_eq_none] at h
    split at h
    · rename_i hn
      exact Or.inl ⟨i, rfl, hn, (Option.some.inj h).symm⟩
    · cases h
  | suspended i => exact Or.inr (Or.inl ⟨i, rfl, (afterCreate_eq_some h).2⟩)
  | created i p =>
    obtain ⟨hc, rfl⟩ := afterCreate_eq_some h
    exact Or.inr (Or.inr (Or.inl ⟨i, p, rfl, hc, rfl⟩))
  | failed i error =>
    obtain ⟨hc, rfl⟩ := afterCreate_eq_some h
    exact Or.inr (Or.inr (Or.inr ⟨i, error, rfl, hc, rfl⟩))

/-! ## A pool that is set -/

/-- No later step unsets it, and a call that waits then was waiting before. -/
theorem poolStep_keeps (h : poolStep s e = some s') {p : π} (hp : s.pool = some p) :
    (∃ q, s'.pool = some q) ∧
      ∀ j, s'.calls j = some .creating → s.calls j = some .creating := by
  rcases poolStep_cases h with ⟨i, -, -, rfl⟩ | ⟨i, -, rfl⟩ | ⟨i, q, -, -, rfl⟩ |
    ⟨i, error, -, -, rfl⟩
  · refine ⟨⟨p, hp⟩, fun j hj => ?_⟩
    rcases update_cases hj with ⟨-, hc⟩ | ⟨-, hj⟩
    · rw [hp] at hc
      cases hc
    · exact hj
  · exact ⟨⟨p, hp⟩, fun j hj => hj⟩
  · refine ⟨⟨q, rfl⟩, fun j hj => ?_⟩
    rcases update_cases hj with ⟨-, hc⟩ | ⟨-, hj⟩
    · cases hc
    · exact hj
  · refine ⟨⟨p, hp⟩, fun j hj => ?_⟩
    rcases update_cases hj with ⟨-, hc⟩ | ⟨-, hj⟩
    · cases hc
    · exact hj

/-- **Whoever still waits for a pool was waiting when the first was set.** Later calls find the
field set and do not wait. -/
theorem waiting_of_run {m : AsyncDatabase ι π} (h : Run poolStep m tr s) {p : π}
    (hp : m.pool = some p) {j : ι} (hj : s.calls j = some .creating) :
    m.calls j = some .creating := by
  have hinv : (∃ q, s.pool = some q) ∧
      ∀ j, s.calls j = some .creating → m.calls j = some .creating := by
    refine h.inv (I := fun s => (∃ q, s.pool = some q) ∧
      ∀ j, s.calls j = some .creating → m.calls j = some .creating) ⟨⟨p, hp⟩, fun j hj => hj⟩ ?_
    intro s e s' ih hstep
    obtain ⟨⟨q, hq⟩, hwait⟩ := ih
    obtain ⟨hset, hback⟩ := poolStep_keeps hstep hq
    exact ⟨hset, fun j hj => hwait j (hback j hj)⟩
  exact hinv.2 j hj

/-! ## One shared pool -/

/-- What a call made in `s` comes to: the pool that is there, or the one it has made. A failed
creation leaves the database able to do this. -/
def CanServe (s : AsyncDatabase ι π) : Prop :=
  ∀ j, s.calls j = none → match s.pool with
    | some q => ∃ s', poolStep s (.call j) = some s' ∧ s'.calls j = some (.returned q)
    | none => ∀ p, ∃ s', exec poolStep s [.call j, .created j p] = some s' ∧
        s'.pool = some p ∧ s'.calls j = some (.returned p)

/-- At most one pool was made, every call that has returned has it, and behind a creation that
failed there can be another. -/
structure OneSharedPool (tr : List (PoolStep ι π)) (s : AsyncDatabase ι π) : Prop where
  atMostOne : (created tr).length ≤ 1
  same : ∀ i p, s.calls i = some (.returned p) → created tr = [p]
  retry : ∀ t ∈ tr, ∀ i error, t.event = .failed i error →
    t.post.pool = t.pre.pool ∧ CanServe t.post

theorem canServe (s : AsyncDatabase ι π) : CanServe s := by
  intro j hj
  cases hp : s.pool with
  | some q =>
    refine ⟨⟨s.pool, Function.update s.calls j (some (getPool s.pool))⟩, ?_, ?_⟩
    · simp [poolStep, hj]
    · rw [hp]
      exact Function.update_self ..
  | none =>
    intro p
    refine ⟨⟨some p, Function.update s.calls j (some (.returned p))⟩, ?_, rfl,
      Function.update_self ..⟩
    simp [exec, poolStep, hj, hp, getPool, AsyncDatabase.afterCreate]

/-- A creation that finds the field set was waiting when the first pool came. -/
theorem bothCreate_of_set {m : AsyncDatabase ι π} (h : Run poolStep AsyncDatabase.init tr m) {p q : π}
    (hp : p ∈ created tr) {j : ι} (hj : m.calls j = some .creating)
    {t' : PoolStep ι π} (ht' : t'.event = .created j q) : BothCreate (tr ++ [t']) := by
  obtain ⟨tr₁, t, tr₂, i, rfl, hev⟩ := mem_created hp
  obtain ⟨-, hstep, hrest⟩ := h.cut
  rw [hev] at hstep
  obtain ⟨hi, hpost⟩ := afterCreate_eq_some hstep
  have hset : t.post.pool = some p := by rw [hpost]
  have hwait := waiting_of_run hrest hset hj
  rw [hpost] at hwait
  rcases update_cases hwait with ⟨-, hc⟩ | ⟨hne, hwait⟩
  · cases hc
  · exact ⟨tr₁, t, tr₂, t', [], i, j, p, q, by simp, hne.symm, hev, hi, hwait, ht'⟩

/-- The field holds the one pool that was made, and so does every call that has returned, as long as
no two calls were both given one. By induction on the run. -/
theorem shared_of_run (h : Run poolStep AsyncDatabase.init tr s) (hboth : ¬ BothCreate tr) :
    created tr = s.pool.toList ∧ ∀ i p, s.calls i = some (.returned p) → s.pool = some p := by
  induction h with
  | nil => exact ⟨rfl, fun i p hi => by cases hi⟩
  | @snoc tr m s e hrun hstep ih =>
    obtain ⟨hmade, hsame⟩ := ih fun hb => hboth (hb.append _)
    rcases poolStep_cases hstep with ⟨i, rfl, -, rfl⟩ | ⟨i, rfl, rfl⟩ | ⟨i, q, rfl, hi, rfl⟩ |
      ⟨i, error, rfl, -, rfl⟩
    · refine ⟨by rw [created_snoc, hmade]; exact List.append_nil _, fun j p hj => ?_⟩
      rcases update_cases hj with ⟨-, hc⟩ | ⟨-, hj⟩
      · cases hp : m.pool with
        | none => rw [hp] at hc; cases hc
        | some p' => rw [hp] at hc; cases hc; rfl
      · exact hsame j p hj
    · exact ⟨by rw [created_snoc, hmade]; exact List.append_nil _, hsame⟩
    · -- had the field been set, this call would have waited beside the one that set it
      have hnone : m.pool = none := by
        cases hp : m.pool with
        | none => rfl
        | some p =>
          rw [hp] at hmade
          have hmem : p ∈ created tr := by rw [hmade]; exact List.mem_singleton_self p
          exact absurd (bothCreate_of_set hrun hmem hi rfl) hboth
      rw [hnone] at hmade hsame
      refine ⟨by rw [created_snoc, hmade]; rfl, fun j p hj => ?_⟩
      rcases update_cases hj with ⟨-, hc⟩ | ⟨-, hj⟩
      · cases hc
        rfl
      · cases hsame j p hj
    · refine ⟨by rw [created_snoc, hmade]; exact List.append_nil _, fun j p hj => ?_⟩
      rcases update_cases hj with ⟨-, hc⟩ | ⟨-, hj⟩
      · cases hc
      · exact hsame j p hj

/-- **The pool is one and shared exactly in the runs in which no two calls that wait for
`create_pool` together are both given one.** Creations may fail, and be tried again. -/
theorem one_shared_pool_iff (h : Run poolStep AsyncDatabase.init tr s) :
    OneSharedPool tr s ↔ ¬ BothCreate tr := by
  constructor
  · intro hone hboth
    have htwo := hboth.two_le
    have hlen := hone.atMostOne
    omega
  · intro hboth
    obtain ⟨hmade, hsame⟩ := shared_of_run h hboth
    refine ⟨?_, fun i p hi => ?_, fun t ht i error hev => ⟨?_, canServe t.post⟩⟩
    · rw [hmade]
      exact Option.length_toList_le
    · rw [hmade, hsame i p hi]
      rfl
    · obtain ⟨hstep, -⟩ := h.mem ht
      rw [hev] at hstep
      obtain ⟨-, hpost⟩ := afterCreate_eq_some hstep
      rw [hpost]

/-- The first call fails, the second makes the pool, the third finds it. -/
theorem one_shared_pool_after_failure :
    ∃ tr s, Run poolStep (AsyncDatabase.init : AsyncDatabase Nat Nat) tr s ∧
      s.pool = some 7 ∧ OneSharedPool tr s := by
  have hexec : exec poolStep (AsyncDatabase.init : AsyncDatabase Nat Nat)
      [.call 0, .suspended 0, .failed 0 "timeout", .call 1, .created 1 7, .call 2] = some _ := rfl
  obtain ⟨-, hrun⟩ := Run.of_exec hexec
  refine ⟨_, _, hrun, rfl, (one_shared_pool_iff hrun).mpr fun hboth => ?_⟩
  exact absurd hboth.two_le (by decide)

/-- Two calls that come before there is a pool, and both make one. -/
def twoCalls : List (PoolEvent Nat Nat) := [.call 0, .call 1, .created 0 7, .created 1 8]

/-- **Two pools**, and each call has its own. -/
theorem two_pools : ∃ tr s, Run poolStep (AsyncDatabase.init : AsyncDatabase Nat Nat) tr s ∧
    tr.map Transition.event = twoCalls ∧ created tr = [7, 8] ∧
    s.calls 0 = some (.returned 7) ∧ s.calls 1 = some (.returned 8) ∧ ¬ OneSharedPool tr s := by
  have hexec : exec poolStep AsyncDatabase.init twoCalls = some _ := rfl
  obtain ⟨hev, hrun⟩ := Run.of_exec hexec
  refine ⟨_, _, hrun, hev, rfl, rfl, rfl, fun hone => ?_⟩
  exact absurd hone.atMostOne (by decide)

end MessagesApp.Db
