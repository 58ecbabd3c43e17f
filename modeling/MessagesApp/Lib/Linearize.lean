import MessagesApp.Lib.Run
import Mathlib.Data.List.Induction
import Mathlib.Data.List.Nodup

/-!
# Calls made of atomic steps, and their linearizability

A `Service` runs calls against one shared object. A call is a sequence of atomic steps, and other
calls' steps may fall between its own. `Service.next` is the interleaving: any caller may start a
call, any call that has not answered may take its next step. What the environment supplies to a
step (an identifier, a clock, an answer) is an input of the event, so a theorem about every run is
one about every environment.

`Linearization` is what explains a run: an order of whole calls that, run one after the other,
leaves the object the run left and gives the answers the run gave, and that keeps the order of
calls of which one had answered before the other was made. Calls that have not answered are in
none: they have done nothing yet that another could have seen.

`CommitLast` collects what makes such a service linearizable by its last steps: only the step
that answers may write the object, and where it does, the whole call run alone from that state
would have answered the same and left the same object. What a call has learnt on the way is an
assertion about the object, which every step of every other call has to leave true. The order of
the answers is then the order of the linearization, and `CommitLast.linearizable` is an induction
over the run that appends the call of each step that answers.
-/

set_option autoImplicit false

namespace Lib

/-- What a call has come to: it still runs, in a local state of its own, or it has answered and
takes no further step. -/
inductive Progress (π ρ : Type*)
  | running (p : π)
  | answered (r : ρ)

/-- A service: where a call starts, and what one step of it does to the object and to the call. `κ`
are the calls, `π` their local states, `ν` what the environment supplies to a step, `ρ` the answers,
`σ` the object. A step that is not enabled on its input is `none`. -/
structure Service (σ κ π ν ρ : Type*) where
  start : π
  step : κ → π → ν → σ → Option (σ × Progress π ρ)

namespace Service

variable {σ κ π ν ρ : Type*}

structure State (σ κ π ρ : Type*) where
  obj : σ
  calls : Nat → Option (κ × Progress π ρ)

inductive Event (κ ν : Type*)
  | invoke (i : Nat) (k : κ)
  | step (i : Nat) (x : ν)

def State.init (o : σ) : State σ κ π ρ := ⟨o, fun _ => none⟩

/-- The interleaving. A caller that has made no call may make one, and a call that still runs may
take its next step, which is atomic; a caller makes one call in a run. -/
def next (S : Service σ κ π ν ρ) (s : State σ κ π ρ) : Event κ ν → Option (State σ κ π ρ)
  | .invoke i k =>
      if (s.calls i).isNone then
        some { s with calls := Function.update s.calls i (some (k, .running S.start)) }
      else none
  | .step i x =>
      match s.calls i with
      | some (k, .running p) =>
          (S.step k p x s.obj).map fun r => ⟨r.1, Function.update s.calls i (some (k, r.2))⟩
      | _ => none

variable {S : Service σ κ π ν ρ} {s s' : State σ κ π ρ}

/-- Everything a step of the interleaving can be. -/
theorem next_cases {e : Event κ ν} (h : S.next s e = some s') :
    (∃ i k, e = .invoke i k ∧ s.calls i = none ∧
      s' = { s with calls := Function.update s.calls i (some (k, .running S.start)) }) ∨
    (∃ i x k p o g, e = .step i x ∧ s.calls i = some (k, .running p) ∧
      S.step k p x s.obj = some (o, g) ∧
      s' = ⟨o, Function.update s.calls i (some (k, g))⟩) := by
  cases e with
  | invoke i k =>
    simp only [next] at h
    split at h
    · rename_i hn
      exact Or.inl ⟨i, k, rfl, Option.isNone_iff_eq_none.mp hn, by simpa using h.symm⟩
    · cases h
  | step i x =>
    simp only [next] at h
    split at h
    · rename_i k p hc
      obtain ⟨⟨o, g⟩, hst, rfl⟩ := Option.map_eq_some_iff.mp h
      exact Or.inr ⟨i, x, k, p, o, g, rfl, hc, hst, rfl⟩
    · cases h

theorem answered_stays {tr : List (Transition (State σ κ π ρ) (Event κ ν))} {i : Nat} {k : κ}
    {r : ρ} (h : Run S.next s tr s') (ha : s.calls i = some (k, .answered r)) :
    s'.calls i = some (k, .answered r) := by
  refine h.inv (I := fun s : State σ κ π ρ => s.calls i = some (k, .answered r)) ha fun m e m' hm he => ?_
  rcases next_cases he with ⟨j, k', -, hn, rfl⟩ | ⟨j, x, k', p, o, g, -, hc, -, rfl⟩
  · have hij : i ≠ j := by rintro rfl; simp [hn] at hm
    simpa [Function.update_of_ne hij] using hm
  · have hij : i ≠ j := by rintro rfl; simp [hc] at hm
    simpa [Function.update_of_ne hij] using hm

/-! ## Sequential histories -/

/-- The call `k` run alone, from local state `p` and object `o`, answers `r` and leaves `o'`. It has
the one input `x` for all its steps. -/
inductive Alone (S : Service σ κ π ν ρ) (k : κ) (x : ν) : π → σ → σ → ρ → Prop
  | last {p : π} {o o' : σ} {r : ρ} :
      S.step k p x o = some (o', .answered r) → Alone S k x p o o' r
  | more {p p' : π} {o o' o'' : σ} {r : ρ} :
      S.step k p x o = some (o', .running p') → Alone S k x p' o' o'' r →
      Alone S k x p o o'' r

/-- One call of a sequential history, with the input it ran on and its answer. -/
structure Entry (κ ν ρ : Type*) where
  id : Nat
  call : κ
  input : ν
  result : ρ

/-- `order` run one whole call after the other leads from `o` to `o'` with these answers. The list
grows at its end, as a run does. -/
inductive Sequential (S : Service σ κ π ν ρ) (o : σ) : List (Entry κ ν ρ) → σ → Prop
  | nil : Sequential S o [] o
  | snoc {order : List (Entry κ ν ρ)} {m o' : σ} {e : Entry κ ν ρ} :
      Sequential S o order m → Alone S e.call e.input S.start m o' e.result →
      Sequential S o (order ++ [e]) o'

/-- A sequential history at one of its calls. -/
theorem Sequential.cut {order₁ order₂ : List (Entry κ ν ρ)} {e : Entry κ ν ρ} {o o' : σ}
    (h : Sequential S o (order₁ ++ e :: order₂) o') :
    ∃ m m', Sequential S o order₁ m ∧ Alone S e.call e.input S.start m m' e.result ∧
      Sequential S m' order₂ o' := by
  induction order₂ using List.reverseRecOn generalizing o' with
  | nil =>
    generalize hl : order₁ ++ [e] = l at h
    cases h with
    | nil => simp at hl
    | snoc hr ha =>
      obtain ⟨rfl, he⟩ := List.append_inj' hl rfl
      cases he
      exact ⟨_, _, hr, ha, .nil⟩
  | append_singleton order₂ e' ih =>
    rw [← List.cons_append, ← List.append_assoc] at h
    generalize hl : order₁ ++ e :: order₂ ++ [e'] = l at h
    cases h with
    | nil => simp at hl
    | snoc hr ha =>
      obtain ⟨rfl, he⟩ := List.append_inj' hl rfl
      cases he
      obtain ⟨m, m', h₁, hm, h₂⟩ := ih hr
      exact ⟨m, m', h₁, hm, h₂.snoc ha⟩

/-- What every call does to the object, the history does. -/
theorem Sequential.relates {R : σ → σ → Prop} (hrefl : ∀ o, R o o)
    (htrans : ∀ {a b c}, R a b → R b c → R a c)
    (hstep : ∀ k x o o' r, Alone S k x S.start o o' r → R o o') {order : List (Entry κ ν ρ)}
    {o o' : σ} (h : Sequential S o order o') : R o o' := by
  induction h with
  | nil => exact hrefl _
  | snoc _ ha ih => exact htrans ih (hstep _ _ _ _ _ ha)

/-- `a` stands before `b` in the order, with any others between them and around them. -/
def Precedes (l : List Nat) (a b : Nat) : Prop := [a, b].Sublist l

/-- `order` is a sequential history that explains the run `tr` from the object `o` to `s`: the same
object, the same answers, each call once and on an input it really had, in an order that agrees with
real time. -/
structure Linearization (S : Service σ κ π ν ρ) (o : σ)
    (tr : List (Transition (State σ κ π ρ) (Event κ ν))) (s : State σ κ π ρ)
    (order : List (Entry κ ν ρ)) : Prop where
  /-- Run sequentially, the calls leave the object the run left. -/
  legal : Sequential S o order s.obj
  /-- It holds the calls that have answered, with their answers, -/
  answers : ∀ i k r, s.calls i = some (k, .answered r) ↔
    ∃ e ∈ order, e.id = i ∧ e.call = k ∧ e.result = r
  /-- each once, -/
  nodup : (order.map Entry.id).Nodup
  /-- on the input of the step at which it answered, -/
  inputs : ∀ e ∈ order, ∃ t ∈ tr, t.event = .step e.id e.input ∧
    t.post.calls e.id = some (e.call, .answered e.result)
  /-- and a call that had answered before another was made stands before it. -/
  realTime : ∀ tr₁ tr₂ m, tr = tr₁ ++ tr₂ → Run S.next (State.init o) tr₁ m →
    ∀ a b k r, m.calls a = some (k, .answered r) → m.calls b = none →
      b ∈ order.map Entry.id → Precedes (order.map Entry.id) a b

/-! ## Services that write at their last step -/

/-- What a service needs to be linearizable in the order of its answers. `A k p o` is what the call
`k` relies on when it has come to `p`: it holds at the start, the call's own steps carry it on, the
steps of the others leave it true, and at the last step it is enough for the whole call. -/
structure CommitLast (S : Service σ κ π ν ρ) (A : κ → π → σ → Prop) : Prop where
  start : ∀ k o, A k S.start o
  /-- A step that does not answer does not write, and leads to the next assertion. -/
  advance : ∀ k p x o o' p', A k p o → S.step k p x o = some (o', .running p') →
    o' = o ∧ A k p' o
  /-- A step of another call leaves the assertion true. -/
  stable : ∀ k p k' p' x o o' g, A k p o → A k' p' o → S.step k' p' x o = some (o', g) →
    A k p o'
  /-- At the step that answers, the whole call could have run. -/
  commit : ∀ k p x o o' r, A k p o → S.step k p x o = some (o', .answered r) →
    Alone S k x S.start o o' r

variable {A : κ → π → σ → Prop}

/-- Every running call's assertion holds of the object as it is now. The invariant of the run. -/
def Asserted (A : κ → π → σ → Prop) (s : State σ κ π ρ) : Prop :=
  ∀ i k p, s.calls i = some (k, .running p) → A k p s.obj

theorem CommitLast.asserted_step (hS : CommitLast S A) {e : Event κ ν} (hs : Asserted A s)
    (h : S.next s e = some s') : Asserted A s' := by
  intro i k p hi
  rcases next_cases h with ⟨j, k', -, -, rfl⟩ | ⟨j, x, k', p', o, g, -, hc, hst, rfl⟩
  · rcases update_cases hi with ⟨rfl, heq⟩ | ⟨-, hold⟩
    · cases heq
      exact hS.start _ _
    · exact hs i k p hold
  · rcases update_cases hi with ⟨rfl, heq⟩ | ⟨-, hold⟩
    · cases heq
      obtain ⟨rfl, hA⟩ := hS.advance _ _ _ _ _ _ (hs i _ _ hc) hst
      exact hA
    · exact hS.stable _ _ _ _ _ _ _ _ (hs i k p hold) (hs j k' p' hc) hst

/-- Real time through one more step: a call that answers at it goes to the end of the order. -/
theorem realTime_snoc {o : σ} {tr : List (Transition (State σ κ π ρ) (Event κ ν))}
    {e : Event κ ν} {ids ids' : List Nat} (hr : Run S.next (State.init o) tr s)
    (he : S.next s e = some s')
    (hrt : ∀ tr₁ tr₂ m, tr = tr₁ ++ tr₂ → Run S.next (State.init o) tr₁ m →
      ∀ a b k r, m.calls a = some (k, .answered r) → m.calls b = none → b ∈ ids →
        Precedes ids a b)
    (hold : ∀ a k r, s.calls a = some (k, .answered r) → a ∈ ids)
    (hids : ids' = ids ∨ ∃ c, ids' = ids ++ [c]) (hnew : ∀ b ∈ ids', s'.calls b ≠ none) :
    ∀ tr₁ tr₂ m, tr ++ [⟨s, e, s'⟩] = tr₁ ++ tr₂ → Run S.next (State.init o) tr₁ m →
      ∀ a b k r, m.calls a = some (k, .answered r) → m.calls b = none → b ∈ ids' →
        Precedes ids' a b := by
  intro tr₁ tr₂ m htr hm a b k r ha hb hbo
  rcases List.eq_nil_or_concat tr₂ with rfl | ⟨tr₂, t, rfl⟩
  · -- the cut is at the very end, where `b` has answered
    rw [List.append_nil] at htr
    subst htr
    exact absurd (hm.state_unique (hr.snoc he) ▸ hb) (hnew b hbo)
  · rw [List.concat_eq_append, ← List.append_assoc] at htr
    obtain ⟨htr, -⟩ := List.append_inj' htr rfl
    subst htr
    have hsub : ids.Sublist ids' := by
      rcases hids with rfl | ⟨c, rfl⟩
      · exact List.Sublist.refl _
      · exact List.sublist_append_left _ _
    by_cases hbi : b ∈ ids
    · exact (hrt tr₁ tr₂ m rfl hm a b k r ha hb hbi).trans hsub
    · obtain ⟨c, rfl⟩ : ∃ c, ids' = ids ++ [c] := by
        rcases hids with rfl | h
        · exact absurd hbo hbi
        · exact h
      have hbc : b = c := by
        rcases List.mem_append.mp hbo with h | h
        · exact absurd h hbi
        · exact List.mem_singleton.mp h
      subst hbc
      obtain ⟨m', hm', hrest⟩ := hr.split
      have hm : m = m' := hm.state_unique hm'
      subst hm
      have hai : a ∈ ids := hold a k r (answered_stays hrest ha)
      exact (List.singleton_sublist.mpr hai).append (List.Sublist.refl [b])

/-- **A service that writes only where it answers is linearizable**: every interleaving of the steps
of its calls is explained by a sequential order of the whole calls. A step that does not answer
changes neither the object nor the order; one that answers appends its call. -/
theorem CommitLast.linearizable (hS : CommitLast S A) {o : σ}
    {tr : List (Transition (State σ κ π ρ) (Event κ ν))} (h : Run S.next (State.init o) tr s) :
    Asserted A s ∧ ∃ order, Linearization S o tr s order := by
  induction h with
  | nil =>
    refine ⟨fun i k p hi => by simp [State.init] at hi, [], .nil, ?_, by simp, by simp, ?_⟩
    · intro i k r
      simp [State.init]
    · intro tr₁ tr₂ m _ _ a b k r _ _ hb
      simp at hb
  | @snoc tr s s' e hr he ih =>
    obtain ⟨hA, order, hl⟩ := ih
    refine ⟨hS.asserted_step hA he, ?_⟩
    have hold : ∀ a k r, s.calls a = some (k, .answered r) → a ∈ order.map Entry.id := by
      intro a k r ha
      obtain ⟨en, hen, rfl, -, -⟩ := (hl.answers a k r).mp ha
      exact List.mem_map_of_mem hen
    have hkeep : ∀ en ∈ order, s'.calls en.id = some (en.call, .answered en.result) :=
      fun en hen => answered_stays (Run.snoc .nil he)
        ((hl.answers _ _ _).mpr ⟨en, hen, rfl, rfl, rfl⟩)
    have hinputs : ∀ en ∈ order, ∃ t ∈ tr ++ [⟨s, e, s'⟩], t.event = .step en.id en.input ∧
        t.post.calls en.id = some (en.call, .answered en.result) := by
      intro en hen
      obtain ⟨t, ht, hte⟩ := hl.inputs en hen
      exact ⟨t, List.mem_append_left _ ht, hte⟩
    have hnew : ∀ b ∈ order.map Entry.id, s'.calls b ≠ none := by
      intro b hb
      obtain ⟨en, hen, rfl⟩ := List.mem_map.mp hb
      simp [hkeep en hen]
    rcases next_cases he with ⟨i, k, rfl, hn, hs'⟩ | ⟨i, x, k, p, o', g, rfl, hc, hst, hs'⟩
    · -- a call is made: nothing has answered, nothing is written
      refine ⟨order, ?_, ?_, hl.nodup, hinputs,
        realTime_snoc hr he hl.realTime hold (Or.inl rfl) hnew⟩
      · rw [hs']
        exact hl.legal
      · intro j k' r
        rw [← hl.answers, hs']
        by_cases hij : j = i
        · subst hij; simp [hn]
        · simp [Function.update_of_ne hij]
    · cases g with
      | running p' =>
        obtain ⟨rfl, -⟩ := hS.advance _ _ _ _ _ _ (hA i k p hc) hst
        refine ⟨order, ?_, ?_, hl.nodup, hinputs,
          realTime_snoc hr he hl.realTime hold (Or.inl rfl) hnew⟩
        · rw [hs']
          exact hl.legal
        · intro j k' r
          rw [← hl.answers, hs']
          by_cases hij : j = i
          · subst hij; simp [hc]
          · simp [Function.update_of_ne hij]
      | answered r =>
        -- the call is linearized here
        have hi : i ∉ order.map Entry.id := by
          intro hi
          obtain ⟨en, hen, rfl⟩ := List.mem_map.mp hi
          rw [(hl.answers _ _ _).mpr ⟨en, hen, rfl, rfl, rfl⟩] at hc
          simp at hc
        have hself : s'.calls i = some (k, .answered r) := by rw [hs']; simp
        refine ⟨order ++ [⟨i, k, x, r⟩], ?_, ?_, ?_, ?_, ?_⟩
        · rw [hs']
          exact hl.legal.snoc (hS.commit _ _ _ _ _ _ (hA i k p hc) hst)
        · intro j k' r'
          by_cases hij : j = i
          · subst hij
            rw [hself]
            constructor
            · intro h
              simp only [Option.some.injEq, Prod.mk.injEq, Progress.answered.injEq] at h
              exact ⟨⟨j, k, x, r⟩, by simp, rfl, h.1, h.2⟩
            · rintro ⟨en, hen, hid, rfl, rfl⟩
              rcases List.mem_append.mp hen with hen | hen
              · exact absurd (hid ▸ List.mem_map_of_mem hen) hi
              · rw [List.mem_singleton.mp hen]
          · have hj : s'.calls j = s.calls j := by rw [hs']; simp [Function.update_of_ne hij]
            rw [hj, hl.answers]
            constructor
            · rintro ⟨en, hen, h⟩
              exact ⟨en, List.mem_append_left _ hen, h⟩
            · rintro ⟨en, hen, hid, h⟩
              rcases List.mem_append.mp hen with hen | hen
              · exact ⟨en, hen, hid, h⟩
              · rw [List.mem_singleton.mp hen] at hid
                exact absurd hid.symm hij
        · rw [List.map_append, List.map_singleton]
          refine List.nodup_append.mpr ⟨hl.nodup, by simp, fun a ha b hb hab => ?_⟩
          rw [List.mem_singleton] at hb
          subst hb hab
          exact hi ha
        · intro en hen
          rcases List.mem_append.mp hen with hen | hen
          · exact hinputs en hen
          · rw [List.mem_singleton.mp hen]
            exact ⟨_, List.mem_append_right _ List.mem_cons_self, rfl, hself⟩
        · rw [List.map_append, List.map_singleton]
          refine realTime_snoc hr he hl.realTime hold (Or.inr ⟨i, rfl⟩) fun b hb => ?_
          rcases List.mem_append.mp hb with hb | hb
          · exact hnew b hb
          · rw [List.mem_singleton.mp hb, hself]
            simp

end Service

end Lib
