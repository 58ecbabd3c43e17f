import MessagesApp.Lib.Run

/-!
# A store of sessions

Sessions are kept under keys. A request brings the key it has, if any, and works on a copy of what
is stored there; where nothing is, it works on an empty session without a key. When it is answered
it may leave the session alone, write its copy back, or delete the session. A copy without a key is
written under a new one. Keys are numbers here, in the order in which they were given out, and are
given out once.

Any number of requests may be under way, with copies as old as they are. What is written back to a
session that was deleted meanwhile is refused, so a session that is gone stays gone (`gone_stays`):
no late request brings it to life again, and its key is not given to another.

`everywhere_of_run` is the rule for invariants of sessions. It asks one thing of the application:
that what a request writes has the property if the copy it was made from had it. The property may
depend on the history, as long as more history does not take it away; then it holds of every stored
session and of every copy under way.

Left out are the expiry of a session, which would be one more way for it to be gone, and keys that
a browser makes up, since a key that was not given out finds nothing.
-/

set_option autoImplicit false

namespace Lib.SessionStore

/-- What a request does to its session: nothing, it writes its copy back, or it deletes the
session. -/
inductive Effect (σ : Type*)
  | keep
  | save (c : σ)
  | flush

/-- A request with its copy, or with its answer; no answer where its write was refused. -/
inductive Phase (σ ρ : Type*)
  | loaded (key : Option Nat) (c : σ)
  | answered (r : Option ρ)

/-- The stored sessions by their keys, the next key to be given out, and every request with its copy
or its answer. -/
structure State (σ κ ρ : Type*) where
  store : Nat → Option σ
  /-- The next key. -/
  used : Nat
  reqs : Nat → Option (κ × Phase σ ρ)

inductive Event (κ ν : Type*)
  | load (i : Nat) (cookie : Option Nat) (r : κ)
  | answer (i : Nat) (x : ν)

/-- An application: the session that a request without one works on, and what a view does to the
copy and answers. `κ` are the requests, `ν` what the outside gives to one, `ρ` the answers. -/
structure App (σ κ ν ρ : Type*) where
  empty : σ
  view : κ → ν → σ → Effect σ × ρ

variable {σ κ ν ρ : Type*}

def State.init : State σ κ ρ := ⟨fun _ => none, 0, fun _ => none⟩

/-- The session behind a cookie, or an empty one. -/
def State.load (A : App σ κ ν ρ) (s : State σ κ ρ) (cookie : Option Nat) : Option Nat × σ :=
  match cookie with
  | none => (none, A.empty)
  | some k => match s.store k with
      | some c => (some k, c)
      | none => (none, A.empty)

/-- The end of a request: what it writes, and its answer. A copy of a session that is no longer
stored is not written, and the request has no answer; a copy without a key gets a new one. -/
def State.close (s : State σ κ ρ) (key : Option Nat) (e : Effect σ) (r : ρ) :
    State σ κ ρ × Option ρ :=
  match e, key with
  | .keep, _ => (s, some r)
  | .save c, none =>
      ({ s with store := Function.update s.store s.used (some c), used := s.used + 1 }, some r)
  | .save c, some k =>
      if (s.store k).isSome then ({ s with store := Function.update s.store k (some c) }, some r)
      else (s, none)
  | .flush, none => (s, some r)
  | .flush, some k => ({ s with store := Function.update s.store k none }, some r)

def next (A : App σ κ ν ρ) (s : State σ κ ρ) : Event κ ν → Option (State σ κ ρ)
  | .load i cookie r =>
      if (s.reqs i).isNone then
        let (key, c) := s.load A cookie
        some { s with reqs := Function.update s.reqs i (some (r, .loaded key c)) }
      else none
  | .answer i x =>
      match s.reqs i with
      | some (r, .loaded key c) =>
          let (e, answer) := A.view r x c
          let (s, answer) := s.close key e answer
          some { s with reqs := Function.update s.reqs i (some (r, .answered answer)) }
      | _ => none

variable {A : App σ κ ν ρ} {s s' : State σ κ ρ}

/-! ## One step -/

/-- What the end of a request does to the store. -/
inductive Closed (s : State σ κ ρ) (key : Option Nat) (e : Effect σ) :
    (Nat → Option σ) → Nat → Prop
  /-- nothing was to be written, or it was refused -/
  | same : Closed s key e s.store s.used
  | created {c : σ} : key = none → e = .save c →
      Closed s key e (Function.update s.store s.used (some c)) (s.used + 1)
  | written {c : σ} {k : Nat} : key = some k → e = .save c → s.store k ≠ none →
      Closed s key e (Function.update s.store k (some c)) s.used
  | flushed {k : Nat} : key = some k → e = .flush →
      Closed s key e (Function.update s.store k none) s.used

theorem closed (s : State σ κ ρ) (key : Option Nat) (e : Effect σ) (r : ρ) :
    Closed s key e (s.close key e r).1.store (s.close key e r).1.used ∧
      (s.close key e r).1.reqs = s.reqs := by
  cases e with
  | keep => exact ⟨.same, rfl⟩
  | save c =>
    cases key with
    | none => exact ⟨.created rfl rfl, rfl⟩
    | some k =>
      unfold State.close
      simp only
      split
      · rename_i hk
        exact ⟨.written rfl rfl (Option.isSome_iff_ne_none.mp hk), rfl⟩
      · exact ⟨.same, rfl⟩
  | flush =>
    cases key with
    | none => exact ⟨.same, rfl⟩
    | some k => exact ⟨.flushed rfl rfl, rfl⟩

/-- Everything a step can be. -/
theorem next_cases {e : Event κ ν} (h : next A s e = some s') :
    (∃ i cookie r, e = .load i cookie r ∧ s.reqs i = none ∧ s' = { s with
      reqs := Function.update s.reqs i
        (some (r, .loaded (s.load A cookie).1 (s.load A cookie).2)) }) ∨
    ∃ i x r key c store used answer, e = .answer i x ∧ s.reqs i = some (r, .loaded key c) ∧
      Closed s key (A.view r x c).1 store used ∧
      s' = ⟨store, used, Function.update s.reqs i (some (r, .answered answer))⟩ := by
  cases e with
  | load i cookie r =>
    simp only [next] at h
    split at h
    · rename_i hi
      exact Or.inl ⟨i, cookie, r, rfl, Option.isNone_iff_eq_none.mp hi, (Option.some.inj h).symm⟩
    · cases h
  | answer i x =>
    simp only [next] at h
    split at h
    · rename_i r key c hr
      obtain ⟨hclosed, hreqs⟩ := closed s key (A.view r x c).1 (A.view r x c).2
      refine Or.inr ⟨i, x, r, key, c, _, _, (s.close key (A.view r x c).1 (A.view r x c).2).2, rfl,
        hr, hclosed, ?_⟩
      rw [← hreqs]
      exact (Option.some.inj h).symm
    · cases h

/-! ## Keys -/

/-- The keys in use were given out: nothing is stored under a later key, and no request has a copy
under one. -/
structure Given (s : State σ κ ρ) : Prop where
  store : ∀ k, s.used ≤ k → s.store k = none
  copies : ∀ i r k c, s.reqs i = some (r, .loaded (some k) c) → k < s.used

theorem load_cases (A : App σ κ ν ρ) (s : State σ κ ρ) (cookie : Option Nat) :
    (∃ k c, s.load A cookie = (some k, c) ∧ s.store k = some c) ∨
      s.load A cookie = (none, A.empty) := by
  cases cookie with
  | none => exact Or.inr rfl
  | some k =>
    simp only [State.load]
    cases hs : s.store k with
    | none => exact Or.inr rfl
    | some c => exact Or.inl ⟨k, c, rfl, hs⟩

theorem load_some {cookie : Option Nat} {k : Nat} (h : (s.load A cookie).1 = some k) :
    s.store k = some (s.load A cookie).2 := by
  rcases load_cases A s cookie with ⟨j, c, hload, hs⟩ | hload
  · rw [hload, Option.some.injEq] at h
    rw [hload, ← h]
    exact hs
  · rw [hload] at h
    cases h

theorem load_none {cookie : Option Nat} (h : (s.load A cookie).1 = none) :
    (s.load A cookie).2 = A.empty := by
  rcases load_cases A s cookie with ⟨j, c, hload, -⟩ | hload
  · rw [hload] at h
    cases h
  · rw [hload]

theorem Given.lt (h : Given s) {k : Nat} {c : σ} (hk : s.store k = some c) : k < s.used := by
  by_contra hle
  rw [h.store k (Nat.le_of_not_lt hle)] at hk
  cases hk

theorem given_step {e : Event κ ν} (h : Given s) (he : next A s e = some s') : Given s' := by
  rcases next_cases he with ⟨i, cookie, r, -, -, rfl⟩ |
    ⟨i, x, r, key, c, store, used, answer, -, hr, hclosed, rfl⟩
  · refine ⟨h.store, fun j r' k c hj => ?_⟩
    rcases update_cases hj with ⟨-, heq⟩ | ⟨-, hold⟩
    · obtain ⟨-, hphase⟩ := Prod.mk.inj heq
      injection hphase with hkey
      exact h.lt (load_some hkey)
    · exact h.copies j r' k c hold
  · have hcopies : ∀ j r' k c', Function.update s.reqs i (some (r, .answered answer)) j =
        some (r', .loaded (some k) c') → k < s.used := by
      intro j r' k c' hj
      rcases update_cases hj with ⟨-, heq⟩ | ⟨-, hold⟩
      · cases heq
      · exact h.copies j r' k c' hold
    cases hclosed with
    | same => exact ⟨h.store, hcopies⟩
    | created =>
      refine ⟨fun k hk => ?_, fun j r' k c' hj => Nat.lt_succ_of_lt (hcopies j r' k c' hj)⟩
      have hne : k ≠ s.used := by
        rintro rfl
        exact absurd hk (Nat.not_succ_le_self _)
      simp only [Function.update_of_ne hne]
      exact h.store k (Nat.le_of_succ_le hk)
    | @written c' k' hkey =>
      refine ⟨fun k hk => ?_, hcopies⟩
      have hlt := h.copies i r k' c (hkey ▸ hr)
      simp only [Function.update_of_ne (Nat.ne_of_gt (Nat.lt_of_lt_of_le hlt hk))]
      exact h.store k hk
    | @flushed k' hkey =>
      refine ⟨fun k hk => ?_, hcopies⟩
      have hlt := h.copies i r k' c (hkey ▸ hr)
      simp only [Function.update_of_ne (Nat.ne_of_gt (Nat.lt_of_lt_of_le hlt hk))]
      exact h.store k hk

theorem given_of_run {tr : List (Transition (State σ κ ρ) (Event κ ν))}
    (h : Run (next A) .init tr s) : Given s :=
  h.inv (I := Given) ⟨fun _ _ => rfl, fun _ _ _ _ hi => by cases hi⟩
    fun _ _ _ hI he => given_step hI he

/-- **A session that is gone stays gone**, whatever copies of it are under way. A write under its
key is refused, and no key is given out twice. -/
theorem gone_stays {tr : List (Transition (State σ κ ρ) (Event κ ν))} (h : Run (next A) s tr s')
    {k : Nat} (hk : k < s.used) (hn : s.store k = none) : s'.store k = none := by
  have hinv : k < s'.used ∧ s'.store k = none := by
    refine h.inv (I := fun s => k < s.used ∧ s.store k = none) ⟨hk, hn⟩ ?_
    rintro m e m' ⟨hlt, hnone⟩ he
    rcases next_cases he with ⟨i, cookie, r, -, -, rfl⟩ |
      ⟨i, x, r, key, c, store, used, answer, -, hr, hclosed, rfl⟩
    · exact ⟨hlt, hnone⟩
    · cases hclosed with
      | same => exact ⟨hlt, hnone⟩
      | created =>
        refine ⟨Nat.lt_succ_of_lt hlt, ?_⟩
        simp only [Function.update_of_ne (Nat.ne_of_lt hlt)]
        exact hnone
      | @written c' k' hkey hsave hsome =>
        have hne : k ≠ k' := by
          rintro rfl
          exact hsome hnone
        exact ⟨hlt, by simp only [Function.update_of_ne hne]; exact hnone⟩
      | @flushed k' =>
        refine ⟨hlt, ?_⟩
        by_cases hkk : k = k'
        · subst hkk
          exact Function.update_self ..
        · simp only [Function.update_of_ne hkk]
          exact hnone
  exact hinv.2

/-! ## What holds of every session -/

/-- What holds of the sessions of a state and of the copies of its requests. A copy without a key is
the empty session. -/
structure Everywhere (A : App σ κ ν ρ) (P : Nat → σ → Prop) (s : State σ κ ρ) : Prop where
  stored : ∀ k c, s.store k = some c → P k c
  copied : ∀ i r k c, s.reqs i = some (r, .loaded (some k) c) → P k c
  fresh : ∀ i r c, s.reqs i = some (r, .loaded none c) → c = A.empty

/-- **The rule of the store.** What holds of every session that is written, given that it held of
the copy that it was made from, holds of every session and of every copy. `hmono` lets the history
grow, and `hsave` is the step to be proved of the application. -/
theorem everywhere_of_run {P : List (Transition (State σ κ ρ) (Event κ ν)) → Nat → σ → Prop}
    (hmono : ∀ tr t k c, P tr k c → P (tr ++ [t]) k c)
    (hsave : ∀ tr s i x r key c c' s', Run (next A) .init tr s →
      s.reqs i = some (r, .loaded key c) → (A.view r x c).1 = .save c' →
      (∀ k, key = some k → P tr k c) → (key = none → c = A.empty) →
      s'.store (key.getD s.used) = some c' →
      P (tr ++ [⟨s, .answer i x, s'⟩]) (key.getD s.used) c')
    {tr : List (Transition (State σ κ ρ) (Event κ ν))} (h : Run (next A) .init tr s) :
    Everywhere A (P tr) s := by
  refine h.historyInv (C := fun _ => True) (I := fun tr s => Everywhere A (P tr) s)
    ⟨?_, ?_, ?_⟩ ?_ fun _ _ => trivial
  · intro k c hk
    cases hk
  · intro i r k c hi
    cases hi
  · intro i r c hi
    cases hi
  intro tr m e m' hrun hI he _
  rcases next_cases he with ⟨i, cookie, r, rfl, -, rfl⟩ |
    ⟨i, x, r, key, c, store, used, answer, rfl, hr, hclosed, rfl⟩
  · refine ⟨fun k c hk => hmono _ _ _ _ (hI.stored k c hk), fun j r' k c hj => ?_,
      fun j r' c hj => ?_⟩
    · refine hmono _ _ _ _ ?_
      rcases update_cases hj with ⟨-, heq⟩ | ⟨-, hold⟩
      · obtain ⟨-, hphase⟩ := Prod.mk.inj heq
        injection hphase with hkey hc
        rw [← hc]
        exact hI.stored k _ (load_some hkey)
      · exact hI.copied j r' k c hold
    · rcases update_cases hj with ⟨-, heq⟩ | ⟨-, hold⟩
      · obtain ⟨-, hphase⟩ := Prod.mk.inj heq
        injection hphase with hkey hc
        rw [← hc]
        exact load_none hkey
      · exact hI.fresh j r' c hold
  · have hold : ∀ k c, m.store k = some c → P (tr ++ [⟨m, .answer i x,
        ⟨store, used, Function.update m.reqs i (some (r, .answered answer))⟩⟩]) k c :=
      fun k c hk => hmono _ _ _ _ (hI.stored k c hk)
    have hwritten : ∀ c', (A.view r x c).1 = .save c' → store (key.getD m.used) = some c' →
        P (tr ++ [⟨m, .answer i x,
          ⟨store, used, Function.update m.reqs i (some (r, .answered answer))⟩⟩])
            (key.getD m.used) c' := by
      intro c' hc' hst
      exact hsave tr m i x r key c c' _ hrun hr hc'
        (fun k hk => hI.copied i r k c (hk ▸ hr)) (fun hk => hI.fresh i r c (hk ▸ hr)) hst
    refine ⟨fun k q hk => ?_, fun j r' k q hj => ?_, fun j r' q hj => ?_⟩
    · change store k = some q at hk
      cases hclosed with
      | same => exact hold k q hk
      | @created c' hkey hc' =>
        rcases update_cases hk with ⟨rfl, rfl⟩ | ⟨-, hk⟩
        · have hw := hwritten c' hc' (by rw [hkey]; exact Function.update_self ..)
          rw [hkey] at hw
          exact hw
        · exact hold k q hk
      | @written c' k' hkey hc' =>
        rcases update_cases hk with ⟨rfl, rfl⟩ | ⟨-, hk⟩
        · have hw := hwritten c' hc' (by rw [hkey]; exact Function.update_self ..)
          rw [hkey] at hw
          exact hw
        · exact hold k q hk
      | @flushed k' =>
        by_cases hkk : k = k'
        · subst hkk
          rw [Function.update_self] at hk
          cases hk
        · rw [Function.update_of_ne hkk] at hk
          exact hold k q hk
    · rcases update_cases hj with ⟨-, heq⟩ | ⟨-, hj⟩
      · cases heq
      · exact hmono _ _ _ _ (hI.copied j r' k q hj)
    · rcases update_cases hj with ⟨-, heq⟩ | ⟨-, hj⟩
      · cases heq
      · exact hI.fresh j r' q hj

end Lib.SessionStore
