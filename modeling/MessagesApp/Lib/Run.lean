import Mathlib.Data.List.Induction
import Mathlib.Logic.Function.Basic

/-!
# Runs of a partial step function

A system is a state type `σ`, an event type `ε` and `step : σ → ε → Option σ`; `none` means the
event is not enabled. A `Run` keeps every transition it made, the state before it and the state
after it included, so that a property of a whole history ("once … then never again", "the last
value written") is a statement about a list and is proved by the induction of `Run` itself.

The list grows at its end: an invariant of a history is preserved by appending one transition,
which is also the order in which a proof about "the last write" has to look at it.

`Run.inv` and `Run.historyInv` are the induction, stated once: what holds at the start and is kept
by every step holds in every state reached. `Run.split`, `Run.cut` and `Run.mem` take a run apart
at one of its transitions. `exec` runs a list of events on concrete states, and `Run.of_exec`
makes a run of that, which is how a witness of a theorem about runs is evaluated.

Infinite runs and fairness are left out: every property here is one of finite histories.
-/

set_option autoImplicit false

namespace Lib

/-- One step that was made: the state it started from, its event, the state it reached. -/
structure Transition (σ ε : Type*) where
  pre : σ
  event : ε
  post : σ

/-- `Run step s₀ tr s`: the transitions `tr` lead from `s₀` to `s`, each one a step. Every finite
interleaving of the events of a system is one of its runs. -/
inductive Run {σ ε : Type*} (step : σ → ε → Option σ) (s₀ : σ) :
    List (Transition σ ε) → σ → Prop
  | nil : Run step s₀ [] s₀
  | snoc {tr : List (Transition σ ε)} {m s : σ} {e : ε} :
      Run step s₀ tr m → step m e = some s → Run step s₀ (tr ++ [⟨m, e, s⟩]) s

variable {σ ε : Type*} {step : σ → ε → Option σ} {s₀ : σ}

/-! ## Invariants -/

/-- **An invariant of every step is an invariant of every run.** The induction that every invariant
of a system goes through. -/
theorem Run.inv {I : σ → Prop} (h0 : I s₀)
    (hs : ∀ s e s', I s → step s e = some s' → I s')
    {tr : List (Transition σ ε)} {s : σ} (h : Run step s₀ tr s) : I s := by
  induction h with
  | nil => exact h0
  | snoc _ he ih => exact hs _ _ _ ih he

/-- The same, for an invariant that relates the state to the history that led to it and is preserved
only by steps which meet the condition `C`. The run that led to the state before the step is at
hand, so that invariants proved earlier may be used. -/
theorem Run.historyInv {C : Transition σ ε → Prop} {I : List (Transition σ ε) → σ → Prop}
    (h0 : I [] s₀)
    (hs : ∀ tr m e s, Run step s₀ tr m → I tr m → step m e = some s → C ⟨m, e, s⟩ →
      I (tr ++ [⟨m, e, s⟩]) s)
    {tr : List (Transition σ ε)} {s : σ} (h : Run step s₀ tr s) (hC : ∀ t ∈ tr, C t) :
    I tr s := by
  induction h with
  | nil => exact h0
  | snoc hr he ih =>
    refine hs _ _ _ _ hr (ih fun t ht => hC t (List.mem_append_left _ ht)) he (hC _ ?_)
    exact List.mem_append_right _ List.mem_cons_self

/-! ## Cutting a run -/

theorem Run.append {tr₁ tr₂ : List (Transition σ ε)} {m s : σ} (h₁ : Run step s₀ tr₁ m)
    (h₂ : Run step m tr₂ s) : Run step s₀ (tr₁ ++ tr₂) s := by
  induction h₂ with
  | nil => simpa using h₁
  | snoc _ he ih =>
    rw [← List.append_assoc]
    exact ih.snoc he

theorem Run.split {tr₁ : List (Transition σ ε)} :
    ∀ {tr₂ : List (Transition σ ε)} {s : σ}, Run step s₀ (tr₁ ++ tr₂) s →
      ∃ m, Run step s₀ tr₁ m ∧ Run step m tr₂ s := by
  intro tr₂
  induction tr₂ using List.reverseRecOn with
  | nil =>
    intro s h
    exact ⟨s, by simpa using h, .nil⟩
  | append_singleton tr₂ t ih =>
    intro s h
    rw [← List.append_assoc] at h
    generalize hl : tr₁ ++ tr₂ ++ [t] = l at h
    cases h with
    | nil => simp at hl
    | snoc hr he =>
      obtain ⟨hl, ht⟩ := List.append_inj' hl rfl
      subst hl
      simp only [List.cons.injEq, and_true] at ht
      subst ht
      obtain ⟨m, h₁, h₂⟩ := ih hr
      exact ⟨m, h₁, h₂.snoc he⟩

/-- A run at one of its transitions: what led to it, the step, and what came of it. -/
theorem Run.cut {tr₁ tr₂ : List (Transition σ ε)} {t : Transition σ ε} {s : σ}
    (h : Run step s₀ (tr₁ ++ t :: tr₂) s) :
    Run step s₀ tr₁ t.pre ∧ step t.pre t.event = some t.post ∧ Run step t.post tr₂ s := by
  rw [List.append_cons] at h
  obtain ⟨m, h₁, h₂⟩ := h.split
  generalize hl : tr₁ ++ [t] = l at h₁
  cases h₁ with
  | nil => simp at hl
  | snoc hr he =>
    obtain ⟨hl, ht⟩ := List.append_inj' hl rfl
    subst hl
    simp only [List.cons.injEq, and_true] at ht
    subst ht
    exact ⟨hr, he, h₂⟩

theorem Run.mem {tr : List (Transition σ ε)} {s : σ} (h : Run step s₀ tr s)
    {t : Transition σ ε} (ht : t ∈ tr) :
    step t.pre t.event = some t.post ∧ ∃ tr', Run step s₀ tr' t.pre := by
  induction h with
  | nil => simp at ht
  | snoc hr he ih =>
    rcases List.mem_append.mp ht with h' | h'
    · exact ih h'
    · rw [List.mem_singleton] at h'
      subst h'
      exact ⟨he, _, hr⟩

theorem Run.state_unique {tr : List (Transition σ ε)} {s s' : σ} (h : Run step s₀ tr s)
    (h' : Run step s₀ tr s') : s = s' := by
  generalize hl : tr = l at h'
  cases h with
  | nil =>
    cases h' with
    | nil => rfl
    | snoc _ _ => simp at hl
  | snoc _ _ =>
    cases h' with
    | nil => simp at hl
    | snoc _ _ =>
      obtain ⟨-, ht⟩ := List.append_inj' hl rfl
      simp only [List.cons.injEq, Transition.mk.injEq, and_true] at ht
      exact ht.2.2

/-! ## A step of one component -/

/-- A component that is there after the step of one is that one, or was there before. -/
theorem update_cases {ι β : Type*} [DecidableEq ι] {f : ι → Option β} {i j : ι} {v w : β}
    (h : Function.update f i (some v) j = some w) : j = i ∧ v = w ∨ j ≠ i ∧ f j = some w := by
  by_cases hij : j = i
  · subst hij
    rw [Function.update_self, Option.some.injEq] at h
    exact Or.inl ⟨rfl, h⟩
  · rw [Function.update_of_ne hij] at h
    exact Or.inr ⟨hij, h⟩

/-! ## Running a list of events -/

/-- The state a list of events leads to, if each is enabled in its turn. It evaluates, where the
step function does. -/
def exec (step : σ → ε → Option σ) : σ → List ε → Option σ
  | s, [] => some s
  | s, e :: es => (step s e).bind fun s' => exec step s' es

/-- The transitions a list of events makes, up to the first that is not enabled. -/
def trace (step : σ → ε → Option σ) : σ → List ε → List (Transition σ ε)
  | _, [] => []
  | s, e :: es => match step s e with
      | some s' => ⟨s, e, s'⟩ :: trace step s' es
      | none => []

/-- What was executed is a run, and its transitions carry exactly these events. So `rfl` on `exec`
gives a run to apply a theorem to. -/
theorem Run.of_exec : ∀ {es : List ε} {s s' : σ}, exec step s es = some s' →
    (trace step s es).map Transition.event = es ∧ Run step s (trace step s es) s'
  | [], s, s', h => by
    simp only [exec, Option.some.injEq] at h
    subst h
    exact ⟨rfl, .nil⟩
  | e :: es, s, s', h => by
    simp only [exec, Option.bind_eq_some_iff] at h
    obtain ⟨m, he, hm⟩ := h
    obtain ⟨htr, hr⟩ := Run.of_exec hm
    simp only [trace, he]
    exact ⟨by rw [List.map_cons, htr], Run.append (.snoc .nil he) hr⟩

theorem exec_append {es es' : List ε} {s : σ} :
    exec step s (es ++ es') = (exec step s es).bind fun m => exec step m es' := by
  induction es generalizing s with
  | nil => rfl
  | cons e es ih => cases h : step s e <;> simp [exec, h, ih]

/-- A run executes its events. -/
theorem Run.exec_eq {tr : List (Transition σ ε)} {s : σ} (h : Run step s₀ tr s) :
    exec step s₀ (tr.map Transition.event) = some s := by
  induction h with
  | nil => rfl
  | snoc _ he ih =>
    rw [List.map_append, exec_append, ih, Option.bind_some]
    simp [exec, he]

end Lib
