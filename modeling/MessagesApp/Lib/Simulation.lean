import MessagesApp.Lib.Run

/-!
# Simulations

A relation between the states of two systems under which every step of the first is matched by a
run of the second, of any length. A whole run is then matched step by step, and so is every cut of
it: what held half way in the one held half way in the other. `Q` relates a step to those that
match it, so that what an event of the first did can be read off the events of the second.

The cuts are what makes the relation fit for linearizability: that one call had answered before
another was made is a fact about a cut, and `Matched.cuts` carries it over.

A composed system and one of its parts are the simple case: the part is a function of the state,
and a step of the whole is one step of the part or none. Its run is then a function of the run
(`Run.part`), and an invariant of the part holds in the whole without being proved again.
-/

set_option autoImplicit false

namespace Lib

variable {σ ε σ' ε' : Type*}

/-- Every step from a state of the first system is a run from each state that `R` gives for it, and
`R` relates where the two lead. The run may be empty, where the second system does not see the
step. -/
def Simulates (step : σ → ε → Option σ) (step' : σ' → ε' → Option σ') (R : σ → σ' → Prop)
    (Q : Transition σ ε → Transition σ' ε' → Prop) : Prop :=
  ∀ s e s₁ a, R s a → step s e = some s₁ →
    ∃ tr a₁, Run step' a tr a₁ ∧ R s₁ a₁ ∧ ∀ t' ∈ tr, Q ⟨s, e, s₁⟩ t'

/-- The run `tr'` of the second system matches the run `tr` of the first: the states are related,
and so are those at every cut. -/
structure Matched (step : σ → ε → Option σ) (step' : σ' → ε' → Option σ') (R : σ → σ' → Prop)
    (Q : Transition σ ε → Transition σ' ε' → Prop) (s₀ : σ) (a₀ : σ')
    (tr : List (Transition σ ε)) (s : σ) (tr' : List (Transition σ' ε')) (a : σ') : Prop where
  run : Run step' a₀ tr' a
  related : R s a
  /-- Each of its steps comes from one of the first, -/
  steps : ∀ t' ∈ tr', ∃ t ∈ tr, Q t t'
  /-- and a cut of the first run is a cut of the second. -/
  cuts : ∀ tr₁ tr₂ m, tr = tr₁ ++ tr₂ → Run step s₀ tr₁ m →
    ∃ tr₁' tr₂' m', tr' = tr₁' ++ tr₂' ∧ Run step' a₀ tr₁' m' ∧ R m m'

variable {step : σ → ε → Option σ} {step' : σ' → ε' → Option σ'} {R : σ → σ' → Prop}
  {Q : Transition σ ε → Transition σ' ε' → Prop} {s₀ : σ} {a₀ : σ'}

theorem Matched.nil (h₀ : R s₀ a₀) : Matched step step' R Q s₀ a₀ [] s₀ [] a₀ := by
  refine ⟨.nil, h₀, fun t' ht' => absurd ht' (by simp), ?_⟩
  intro tr₁ tr₂ m htr hm
  obtain ⟨rfl, rfl⟩ := List.append_eq_nil_iff.mp htr.symm
  have hms : m = s₀ := hm.state_unique .nil
  subst hms
  exact ⟨[], [], a₀, rfl, .nil, h₀⟩

theorem Matched.snoc {tr : List (Transition σ ε)} {s s₁ : σ} {e : ε}
    {tr' u : List (Transition σ' ε')} {a a₁ : σ'}
    (h : Matched step step' R Q s₀ a₀ tr s tr' a) (hr : Run step s₀ tr s)
    (he : step s e = some s₁) (hu : Run step' a u a₁) (hR : R s₁ a₁)
    (hQ : ∀ t' ∈ u, Q ⟨s, e, s₁⟩ t') :
    Matched step step' R Q s₀ a₀ (tr ++ [⟨s, e, s₁⟩]) s₁ (tr' ++ u) a₁ := by
  refine ⟨h.run.append hu, hR, ?_, ?_⟩
  · intro t' ht'
    rcases List.mem_append.mp ht' with hold | hnew
    · obtain ⟨t, ht, hq⟩ := h.steps t' hold
      exact ⟨t, List.mem_append_left _ ht, hq⟩
    · exact ⟨_, List.mem_append_right _ List.mem_cons_self, hQ t' hnew⟩
  · intro tr₁ tr₂ m htr hm
    rcases List.eq_nil_or_concat tr₂ with rfl | ⟨tr₂, t, rfl⟩
    · -- the cut is behind the last step
      rw [List.append_nil] at htr
      subst htr
      have hms : m = s₁ := hm.state_unique (hr.snoc he)
      subst hms
      exact ⟨tr' ++ u, [], a₁, (List.append_nil _).symm, h.run.append hu, hR⟩
    · rw [List.concat_eq_append, ← List.append_assoc] at htr
      obtain ⟨htr, -⟩ := List.append_inj' htr rfl
      obtain ⟨tr₁', tr₂', m', htr', hm', hRm⟩ := h.cuts tr₁ tr₂ m htr hm
      exact ⟨tr₁', tr₂' ++ u, m', by rw [htr', List.append_assoc], hm', hRm⟩

/-- **Every run is matched.** By induction on the run, a step of the first being appended as the run
that matches it. -/
theorem Simulates.matched (hS : Simulates step step' R Q) (h₀ : R s₀ a₀)
    {tr : List (Transition σ ε)} {s : σ} (h : Run step s₀ tr s) :
    ∃ tr' a, Matched step step' R Q s₀ a₀ tr s tr' a := by
  induction h with
  | nil => exact ⟨[], a₀, .nil h₀⟩
  | snoc hr he ih =>
    obtain ⟨tr', a, hm⟩ := ih
    obtain ⟨u, a₁, hu, hR, hQ⟩ := hS _ _ _ _ hm.related he
    exact ⟨tr' ++ u, a₁, hm.snoc hr he hu hR hQ⟩

/-! ## Parts of a system -/

/-- The steps of the part `f`, where `g` says which event of it a step of the whole is. -/
def partSteps (f : σ → σ') (g : Transition σ ε → Option ε') (tr : List (Transition σ ε)) :
    List (Transition σ' ε') :=
  tr.filterMap fun t => (g t).map fun e' => ⟨f t.pre, e', f t.post⟩

/-- **A part of a system runs by itself.** `f` is the part of a state, and `g` says which event of
the part a step of the whole is, if it is one. -/
theorem Run.part {f : σ → σ'} {g : Transition σ ε → Option ε'}
    (hsome : ∀ s e s' e', step s e = some s' → g ⟨s, e, s'⟩ = some e' →
      step' (f s) e' = some (f s'))
    (hnone : ∀ s e s', step s e = some s' → g ⟨s, e, s'⟩ = none → f s' = f s)
    {tr : List (Transition σ ε)} {s : σ} (h : Run step s₀ tr s) :
    Run step' (f s₀) (partSteps f g tr) (f s) := by
  induction h with
  | nil => exact .nil
  | @snoc tr s s₁ e hr he ih =>
    unfold partSteps at ih ⊢
    rw [List.filterMap_append]
    cases hg : g ⟨s, e, s₁⟩ with
    | none =>
      rw [hnone s e s₁ he hg]
      simpa [hg] using ih
    | some e' =>
      have hstep := hsome s e s₁ e' he hg
      simpa [hg] using ih.snoc hstep

theorem mem_partSteps {f : σ → σ'} {g : Transition σ ε → Option ε'}
    {tr : List (Transition σ ε)} {t' : Transition σ' ε'} :
    t' ∈ partSteps f g tr ↔ ∃ t ∈ tr, ∃ e', g t = some e' ∧ t' = ⟨f t.pre, e', f t.post⟩ := by
  unfold partSteps
  rw [List.mem_filterMap]
  constructor
  · rintro ⟨t, ht, h⟩
    obtain ⟨e', he', rfl⟩ := Option.map_eq_some_iff.mp h
    exact ⟨t, ht, e', he', rfl⟩
  · rintro ⟨t, ht, e', he', rfl⟩
    exact ⟨t, ht, by rw [he', Option.map_some]⟩

end Lib
