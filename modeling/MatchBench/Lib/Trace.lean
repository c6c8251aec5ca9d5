import Mathlib.Data.List.Basic

/-!
# Runs of a step function

A system takes a step on an event, and a run folds the step over a list of events.  A
condition on steps says, of an event and the state that it meets, whether the step is
allowed.  `Allows` says that every step of a run is, and `Allows.invariant` is the rule
of invariants: what the start has and each allowed step keeps, every state of the run has.
-/

namespace MatchBench

section

variable {σ ε : Type*} (step : σ → ε → σ) (ok : σ → ε → Prop)

/-- Every step of the run is allowed in the state that it meets. -/
def Allows : σ → List ε → Prop
  | _, [] => True
  | s, e :: es => ok s e ∧ Allows (step s e) es

instance decidableAllows [∀ s e, Decidable (ok s e)] : ∀ s es, Decidable (Allows step ok s es)
  | _, [] => inferInstanceAs (Decidable True)
  | s, e :: es =>
      have := decidableAllows (step s e) es
      inferInstanceAs (Decidable (_ ∧ _))

variable {step ok}

theorem Allows.invariant {P : σ → Prop} (hstep : ∀ s e, P s → ok s e → P (step s e)) :
    ∀ {s : σ} {es : List ε}, Allows step ok s es → P s → P (es.foldl step s) := by
  intro s es
  induction es generalizing s with
  | nil => exact fun _ hs => hs
  | cons e es ih => exact fun h hs => ih h.2 (hstep s e hs h.1)

theorem allows_append {s : σ} {es es' : List ε} :
    Allows step ok s (es ++ es') ↔ Allows step ok s es ∧ Allows step ok (es.foldl step s) es' := by
  induction es generalizing s with
  | nil => exact (and_iff_right trivial).symm
  | cons e es ih =>
    rw [List.cons_append, Allows, ih, Allows, List.foldl_cons, and_assoc]

end

end MatchBench
