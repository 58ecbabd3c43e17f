import MessagesApp.Lib.Linearize
import Mathlib.Data.Option.Defs

/-!
# Calls that may be left out

Two runs of one `Service` on equal objects: the second leaves out some callers (`drop`), and makes
the others' calls with arguments that `R` relates. The object stays the same in both as long as
the callers left out do not write it and related calls take the same steps.

This is non-interference in its two-run form: to say that a caller, or an argument of a call, has
no effect on the object, it is not enough to look at one run, since a run does not tell what the
object would have been without it. `Without` is the relation the two runs keep. It says nothing of
the callers in `drop`, whose answers the second run does not have, and of the others it asks the
same progress and not only the same object, so that their answers can be compared as well.

The lemmas are the two cases of a step: of a caller who stays (`Without.kept`), which the second
run makes too, and of one who is left out (`Without.dropped`), at which it stands still. Which
steps of `drop` write nothing is the user's to prove. An induction over the run puts them together.
-/

set_option autoImplicit false

namespace Lib.Service

variable {σ κ π ν ρ : Type*}

/-- Whose event it is. -/
def Event.caller : Event κ ν → Nat
  | .invoke i _ => i
  | .step i _ => i

/-- Events of one caller, with related calls: the same caller invokes a related call, or takes a
step on the same input of its environment. -/
inductive Event.Related (R : κ → κ → Prop) : Event κ ν → Event κ ν → Prop
  | invoke {i : Nat} {k k' : κ} : R k k' → Related R (.invoke i k) (.invoke i k')
  | step {i : Nat} {x : ν} : Related R (.step i x) (.step i x)

/-- `s'` is `s` without the callers of `drop`: the same object, and for every caller who stays a
related call that has come just as far. Nothing is said of the callers of `drop`. -/
structure Without (R : κ → κ → Prop) (drop : Nat → Prop) (s s' : State σ κ π ρ) : Prop where
  obj : s'.obj = s.obj
  calls : ∀ i, ¬ drop i →
    Option.Rel (fun c c' => R c.1 c'.1 ∧ c.2 = c'.2) (s.calls i) (s'.calls i)

variable {S : Service σ κ π ν ρ} {R : κ → κ → Prop} {drop : Nat → Prop}
  {s s₁ s' : State σ κ π ρ} {e e' : Event κ ν}

theorem Without.init (o : σ) : Without R drop (State.init o : State σ κ π ρ) (State.init o) :=
  ⟨rfl, fun _ _ => .none⟩

/-- Setting a caller's call on both sides. -/
theorem Without.update (h : Without R drop s s') {i : Nat} {k k' : κ} (hk : R k k') (o : σ)
    (g : Progress π ρ) :
    Without R drop ⟨o, Function.update s.calls i (some (k, g))⟩
      ⟨o, Function.update s'.calls i (some (k', g))⟩ := by
  refine ⟨rfl, fun j hj => ?_⟩
  by_cases hji : j = i
  · subst hji
    simp only [Function.update_self]
    exact .some ⟨hk, rfl⟩
  · simp only [Function.update_of_ne hji]
    exact h.calls j hj

/-- A step of a caller who stays is a step of both. Related calls take the same steps (`hR`), and
the object is the same, so the second run can make it and comes to the same progress. -/
theorem Without.kept (hR : ∀ k k', R k k' → S.step k' = S.step k) (h : Without R drop s s')
    (he : S.next s e = some s₁) (hee : Event.Related R e e') (hi : ¬ drop e.caller) :
    ∃ s₁', S.next s' e' = some s₁' ∧ Without R drop s₁ s₁' := by
  have hcall := h.calls e.caller hi
  rcases next_cases he with ⟨i, k, rfl, hn, rfl⟩ | ⟨i, x, k, p, o, g, rfl, hc, hst, rfl⟩
  · cases hee with
    | @invoke _ _ k' hk =>
      rw [Event.caller, hn] at hcall
      generalize hc' : s'.calls i = c' at hcall
      cases hcall
      refine ⟨_, by simp only [next, hc']; rfl, ?_⟩
      have hnext := h.update (i := i) hk s.obj (.running S.start)
      rw [← h.obj] at hnext ⊢
      exact hnext
  · cases hee with
    | step =>
      rw [Event.caller, hc] at hcall
      generalize hc' : s'.calls i = c' at hcall
      cases hcall with
      | @some _ c' hrel =>
        obtain ⟨k', g'⟩ := c'
        obtain ⟨hk, rfl⟩ := hrel
        refine ⟨_, ?_, h.update hk o g⟩
        simp only [next, hc', h.obj, hR k k' hk, hst, Option.map_some]

/-- A step of a caller who is left out is none of the other run, where it writes nothing. The
relation does not speak of that caller, so its own progress may change. -/
theorem Without.dropped (h : Without R drop s s') (he : S.next s e = some s₁)
    (hi : drop e.caller) (hobj : s₁.obj = s.obj) : Without R drop s₁ s' := by
  refine ⟨h.obj.trans hobj.symm, fun j hj => ?_⟩
  have hne : j ≠ e.caller := fun heq => hj (heq ▸ hi)
  have hsame : s₁.calls j = s.calls j := by
    rcases next_cases he with ⟨i, k, rfl, -, rfl⟩ | ⟨i, x, k, p, o, g, rfl, -, -, rfl⟩
    · exact Function.update_of_ne hne ..
    · exact Function.update_of_ne hne ..
  rw [hsame]
  exact h.calls j hj

end Lib.Service
