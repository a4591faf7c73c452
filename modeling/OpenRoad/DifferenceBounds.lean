import Mathlib.Data.Finset.Order
import Mathlib.Order.Lattice
import Mathlib.Algebra.Order.Group.Int
import Mathlib.Data.Finset.Image

/-!
Systems of lower bounds on differences: for each edge the value at its end is at least the value at
its start plus a gap. Solutions are closed under shifts and pointwise maxima; where two solutions
surround the bound between two elements, one meets the bound exactly.
-/

namespace OpenRoad

/-- The value of `tgt` is at least `gap` above the value of `src`. -/
structure DiffEdge (α : Type*) where
  src : α
  tgt : α
  gap : Int

namespace DiffEdge

variable {α : Type*} {E : Set (DiffEdge α)} {e : DiffEdge α} {x y : α → Int}

def Holds (e : DiffEdge α) (x : α → Int) : Prop := x e.src + e.gap ≤ x e.tgt

theorem Holds.add (h : e.Holds x) (c : Int) : e.Holds fun a => x a + c := by
  unfold Holds at h ⊢
  dsimp only
  omega

theorem Holds.sup (hx : e.Holds x) (hy : e.Holds y) : e.Holds fun a => max (x a) (y a) := by
  unfold Holds at hx hy ⊢
  dsimp only
  omega

/-- An edge that holds where its start takes the value of `y`, and in `y`, holds of the maximum. -/
theorem Holds.sup_of_le (hle : x e.src ≤ y e.src) (hy : e.Holds y) :
    e.Holds fun a => max (x a) (y a) := by
  unfold Holds at hy ⊢
  dsimp only
  omega

/-- Let `y` be a solution in which `r` is at least `d` above `l`. If `x` has it exactly there and
breaks only edges that start at `r`, then some solution has it exactly there. -/
theorem exists_tight {l r : α} {d : Int} (hx : ∀ e ∈ E, e.src ≠ r → e.Holds x)
    (hy : ∀ e ∈ E, e.Holds y) (htight : x l + d = x r) (hle : y l + d ≤ y r) :
    ∃ z, (∀ e ∈ E, e.Holds z) ∧ z l + d = z r := by
  -- `y` is shifted to agree with `x` at `r`
  refine ⟨fun a => max (x a) (y a + (x r - y r)), fun e he => ?_, by dsimp only; omega⟩
  have hshift := (hy e he).add (x r - y r)
  by_cases hsrc : e.src = r
  · exact hshift.sup_of_le (by rw [hsrc]; omega)
  · exact (hx e he hsrc).sup hshift

/-- A new element at which no edge starts can be given a value. -/
theorem exists_extend [DecidableEq α] {v : α} (hx : ∀ e ∈ E, e.tgt ≠ v → e.Holds x)
    (hsrc : ∀ e ∈ E, e.src ≠ v) {b : Int} (hb : ∀ e ∈ E, e.tgt = v → x e.src + e.gap ≤ b) :
    ∀ e ∈ E, e.Holds (Function.update x v b) := by
  intro e he
  unfold Holds
  rw [Function.update_of_ne (hsrc e he)]
  by_cases htgt : e.tgt = v
  · rw [htgt, Function.update_self]
    exact hb e he htgt
  · rw [Function.update_of_ne htgt]
    exact hx e he htgt

end DiffEdge

/-- Finitely many integers have an upper bound. -/
theorem DiffEdge.exists_upper {α : Type*} (l : List α) (f : α → Int) : ∃ b, ∀ a ∈ l, f a ≤ b := by
  induction l with
  | nil => exact ⟨0, fun a ha => absurd ha List.not_mem_nil⟩
  | cons a l ih =>
      obtain ⟨b, hb⟩ := ih
      refine ⟨max (f a) b, fun a' ha' => ?_⟩
      rcases List.mem_cons.mp ha' with rfl | ha'
      · exact le_max_left _ _
      · exact (hb a' ha').trans (le_max_right _ _)

end OpenRoad
