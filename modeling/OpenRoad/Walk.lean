import Mathlib.Data.List.Chain
import Mathlib.Data.List.GetD

/-!
Walks with the labels of their steps. A walk is kept without its last point, so that one walk is
continued by another by appending.
-/

namespace OpenRoad

/-- The points of a walk from `a`, without the last one, and the labels of its steps. -/
inductive Walk {P E : Type*} (step : P → P → E → Prop) : P → P → List P → List E → Prop
  | nil (a : P) : Walk step a a [] []
  | cons {a c b : P} {e : E} {points : List P} {labels : List E} (hstep : step a c e)
      (hwalk : Walk step c b points labels) : Walk step a b (a :: points) (e :: labels)

namespace Walk

variable {P E : Type*} {step : P → P → E → Prop} {a b c : P} {points points' : List P}
  {labels labels' : List E}

theorem single {e : E} (hstep : step a b e) : Walk step a b [a] [e] := cons hstep (nil b)

theorem append (h : Walk step a b points labels) (h' : Walk step b c points' labels') :
    Walk step a c (points ++ points') (labels ++ labels') := by
  induction h with
  | nil => exact h'
  | cons hstep _ ih => exact cons hstep (ih h')

theorem length_eq (h : Walk step a b points labels) : points.length = labels.length := by
  induction h with
  | nil => rfl
  | cons _ _ ih => rw [List.length_cons, List.length_cons, ih]

theorem getElem?_zero (h : Walk step a b points labels) : (points ++ [b])[0]? = some a := by
  cases h with
  | nil => rfl
  | cons => rfl

theorem getElem?_last (points : List P) (b : P) : (points ++ [b])[points.length]? = some b := by
  simp

/-- The step from the point `i` to the next one has the label `i`. -/
theorem step_getElem (h : Walk step a b points labels) {i : Nat} (hi : i < labels.length) :
    ∃ p q e, (points ++ [b])[i]? = some p ∧ (points ++ [b])[i + 1]? = some q ∧
      labels[i]? = some e ∧ step p q e := by
  induction h generalizing i with
  | nil => exact absurd hi (Nat.not_lt_zero i)
  | @cons a c b e points labels hstep hwalk ih =>
      cases i with
      | zero =>
          refine ⟨a, c, e, rfl, ?_, rfl, hstep⟩
          rw [List.cons_append, List.getElem?_cons_succ]
          exact hwalk.getElem?_zero
      | succ i => exact ih (Nat.lt_of_succ_lt_succ hi)

end Walk

end OpenRoad
