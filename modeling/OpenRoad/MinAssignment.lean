import Mathlib.Logic.Equiv.Fintype
import Mathlib.Data.Fintype.BigOperators
import Mathlib.Algebra.BigOperators.Ring.Finset
import Mathlib.Algebra.Order.BigOperators.Group.Finset
import Mathlib.Algebra.Order.Ring.Int
import Mathlib.Tactic.Ring
import Mathlib.Tactic.Linarith

/-!
Cheapest assignments of rows to columns where the columns that are not asked for are padded with
one weight above every other entry: a cheapest assignment gives every column asked for a row, and
no other choice of rows for them is cheaper. Costs that are scaled up and carry a rank below keep
their order as long as the ranks together stay below the scale.
-/

namespace OpenRoad.MinAssignment

/-! ### Padded matrices -/

section Padded

variable {R C P : Type*}

/-- No column is given to two rows, and no row could take one more. -/
structure IsAssignment (f : R → Option C) : Prop where
  injective : ∀ r s c, f r = some c → f s = some c → r = s
  maximal : (∀ c, ∃ r, f r = some c) ∨ ∀ r, ∃ c, f r = some c

/-- The rows may be permuted. -/
theorem IsAssignment.comp {f : R → Option C} (h : IsAssignment f) (e : Equiv.Perm R) :
    IsAssignment fun r => f (e r) := by
  refine ⟨fun r s c hr hs => e.injective (h.injective _ _ c hr hs), ?_⟩
  rcases h.maximal with hall | hall
  · refine Or.inl fun c => ?_
    obtain ⟨r, hr⟩ := hall c
    exact ⟨e.symm r, by rw [e.apply_symm_apply, hr]⟩
  · exact Or.inr fun r => hall (e r)

/-- A row that has a column takes one that no row has. -/
theorem IsAssignment.update [DecidableEq R] {f : R → Option C} (h : IsAssignment f)
    (hall : ∀ r, ∃ c, f r = some c) (r : R) {c : C} (hc : ∀ s, f s ≠ some c) :
    IsAssignment (Function.update f r (some c)) := by
  refine ⟨fun s t d hs ht => ?_, Or.inr fun s => ?_⟩
  · rcases eq_or_ne s r with rfl | hsr
    · rcases eq_or_ne t s with rfl | hts
      · rfl
      · rw [Function.update_self, Option.some.injEq] at hs
        rw [Function.update_of_ne hts, ← hs] at ht
        exact absurd ht (hc t)
    · rw [Function.update_of_ne hsr] at hs
      rcases eq_or_ne t r with rfl | htr
      · rw [Function.update_self, Option.some.injEq] at ht
        rw [← ht] at hs
        exact absurd hs (hc s)
      · rw [Function.update_of_ne htr] at ht
        exact h.injective s t d hs ht
  · rcases eq_or_ne s r with rfl | hsr
    · exact ⟨c, Function.update_self _ _ _⟩
    · rw [Function.update_of_ne hsr]
      exact hall s

variable [Fintype R]

def cost (entry : R → C → Int) (f : R → Option C) : Int :=
  ∑ r, (f r).elim 0 (entry r)

structure IsCheapest (entry : R → C → Int) (f : R → Option C) : Prop where
  isAssignment : IsAssignment f
  cost_le : ∀ g, IsAssignment g → cost entry f ≤ cost entry g

/-- The columns asked for are those of `P`; all others are padded with `weight`. -/
structure Padded (entry : R → C → Int) (column : P → C) (weight : Int) : Prop where
  injective : Function.Injective column
  lt : ∀ r p, entry r (column p) < weight
  eq : ∀ r c, (∀ p, c ≠ column p) → entry r c = weight

variable [Fintype P] {entry : R → C → Int} {column : P → C} {weight : Int} {f : R → Option C}

/-- In a full assignment that leaves out a column asked for, some row has a padded one. -/
theorem exists_padded_row (hcard : Fintype.card P ≤ Fintype.card R) (hf : IsAssignment f)
    (hall : ∀ r, ∃ c, f r = some c) {p : P} (hp : ∀ r, f r ≠ some (column p)) :
    ∃ r c, f r = some c ∧ ∀ q, c ≠ column q := by
  by_contra hcon
  push Not at hcon
  choose g hg using hall
  choose q hq using fun r => hcon r (g r) (hg r)
  have hinj : Function.Injective q := fun r s heq =>
    hf.injective r s (g r) (hg r) (by rw [hg s, hq s, hq r, heq])
  have hbij : Function.Bijective q := (Fintype.bijective_iff_injective_and_card q).mpr
    ⟨hinj, le_antisymm (Fintype.card_le_of_injective q hinj) hcard⟩
  obtain ⟨r, rfl⟩ := hbij.2 p
  exact hp r (by rw [hg r, hq r])

theorem cost_update [DecidableEq R] {r : R} {c d : C} (hr : f r = some c) :
    cost entry (Function.update f r (some d)) = cost entry f - entry r c + entry r d := by
  have hrest : ∑ s ∈ Finset.univ.erase r, (Function.update f r (some d) s).elim 0 (entry s) =
      ∑ s ∈ Finset.univ.erase r, (f s).elim 0 (entry s) := by
    apply Finset.sum_congr rfl
    intro s hs
    rw [Function.update_of_ne (Finset.ne_of_mem_erase hs)]
  rw [cost, cost, ← Finset.add_sum_erase _ _ (Finset.mem_univ r), hrest,
    ← Finset.add_sum_erase _ _ (Finset.mem_univ r), Function.update_self, hr]
  simp only [Option.elim_some]
  ring

theorem IsCheapest.exists_row (h : IsCheapest entry f) (hpad : Padded entry column weight)
    (hcard : Fintype.card P ≤ Fintype.card R) (p : P) : ∃ r, f r = some (column p) := by
  classical
  by_contra hcon
  push Not at hcon
  rcases h.isAssignment.maximal with hall | hall
  · obtain ⟨r, hr⟩ := hall (column p)
    exact hcon r hr
  · -- a row of the padding is better off with the column left out
    obtain ⟨r, c, hr, hc⟩ := exists_padded_row hcard h.isAssignment hall hcon
    have hle := h.cost_le _ (h.isAssignment.update hall r hcon)
    rw [cost_update hr, hpad.eq r c hc] at hle
    have := hpad.lt r p
    linarith

/-- Two choices of rows differ by a permutation of the rows. -/
theorem exists_perm {x y : P → R} (hx : Function.Injective x) (hy : Function.Injective y) :
    ∃ e : Equiv.Perm R, ∀ p, e (x p) = y p := by
  classical
  let e : { r // r ∈ Set.range x } ≃ { r // r ∈ Set.range y } :=
    (Equiv.ofInjective x hx).symm.trans (Equiv.ofInjective y hy)
  refine ⟨e.extendSubtype, fun p => ?_⟩
  rw [e.extendSubtype_apply_of_mem (x p) ⟨p, rfl⟩]
  have hsymm : (Equiv.ofInjective x hx).symm ⟨x p, ⟨p, rfl⟩⟩ = p :=
    (Equiv.ofInjective x hx).symm_apply_eq.mpr rfl
  calc (e ⟨x p, ⟨p, rfl⟩⟩ : R)
      = Equiv.ofInjective y hy ((Equiv.ofInjective x hx).symm ⟨x p, ⟨p, rfl⟩⟩) := rfl
    _ = y p := by rw [hsymm, Equiv.ofInjective_apply]

/-- The rows of the columns asked for are the cheapest choice. -/
theorem IsCheapest.sum_le (h : IsCheapest entry f) (hpad : Padded entry column weight)
    {x y : P → R} (hx : ∀ p, f (x p) = some (column p)) (hy : Function.Injective y) :
    ∑ p, entry (x p) (column p) ≤ ∑ p, entry (y p) (column p) := by
  have hxinj : Function.Injective x := fun p q heq => by
    have := hx p
    rw [heq, hx q, Option.some.injEq] at this
    exact hpad.injective this.symm
  obtain ⟨e, he⟩ := exists_perm hxinj hy
  have hle := h.cost_le _ (h.isAssignment.comp e.symm)
  have hcomp : cost entry (fun r => f (e.symm r)) = ∑ s, (f s).elim 0 (entry (e s)) := by
    rw [cost, ← Equiv.sum_comp e]
    simp only [Equiv.symm_apply_apply]
  have hsum : ∑ p, (entry (y p) (column p) - entry (x p) (column p)) =
      ∑ s, ((f s).elim 0 (entry (e s)) - (f s).elim 0 (entry s)) := by
    apply Fintype.sum_of_injective x hxinj
    · -- a row without a column asked for costs the same wherever it is moved
      intro s hs
      cases hfs : f s with
      | none => simp
      | some c =>
          have hc : ∀ p, c ≠ column p := by
            rintro p rfl
            exact hs ⟨p, h.isAssignment.injective _ _ _ (hx p) hfs⟩
          simp only [Option.elim_some, hpad.eq _ c hc, sub_self]
    · intro p
      rw [hx p, he p, Option.elim_some, Option.elim_some]
  rw [hcomp, cost] at hle
  rw [Finset.sum_sub_distrib, Finset.sum_sub_distrib] at hsum
  linarith

end Padded

/-! ### Scaled costs with ranks -/

section Scaled

variable {R P : Type*} [Fintype P] {scaled : P → Prop} [DecidablePred scaled]
variable {scale width : Int} {h rank : P → R → Int}

/-- The cost, scaled with its rank in the columns that are `scaled`. -/
def encoded (scaled : P → Prop) [DecidablePred scaled] (scale : Int) (h rank : P → R → Int)
    (p : P) (r : R) : Int :=
  if scaled p then h p r * scale + rank p r else h p r

/-- Unscaled columns may be there as long as their costs are all equal. -/
theorem encoded_sum_lt (hflat : ∀ p, ¬scaled p → ∀ r s, h p r = h p s)
    (hrank : ∀ p r s, rank p r ≤ rank p s + width)
    (hscale : Fintype.card { p // scaled p } * width < scale) {x y : P → R}
    (hlt : ∑ p, h p (x p) < ∑ p, h p (y p)) (hpos : 0 ≤ scale) :
    ∑ p, encoded scaled scale h rank p (x p) < ∑ p, encoded scaled scale h rank p (y p) := by
  have hstep : ∀ p ∈ Finset.univ, encoded scaled scale h rank p (x p) +
      scale * (h p (y p) - h p (x p)) ≤
        encoded scaled scale h rank p (y p) + if scaled p then width else 0 := by
    intro p _
    rw [encoded, encoded]
    split
    next =>
      have := hrank p (x p) (y p)
      linarith
    next hp => rw [hflat p hp (x p) (y p)]; simp
  have hsum := Finset.sum_le_sum hstep
  have hcard : ∑ p, (if scaled p then width else 0) =
      Fintype.card { p // scaled p } * width := by
    rw [← Finset.sum_filter, Finset.sum_const, Fintype.card_subtype, nsmul_eq_mul]
  have hgain : scale ≤ scale * (∑ p, h p (y p) - ∑ p, h p (x p)) := by
    have : 1 ≤ ∑ p, h p (y p) - ∑ p, h p (x p) := by omega
    calc scale = scale * 1 := (mul_one scale).symm
      _ ≤ _ := mul_le_mul_of_nonneg_left this hpos
  rw [Finset.sum_add_distrib, Finset.sum_add_distrib, ← Finset.mul_sum, Finset.sum_sub_distrib,
    hcard] at hsum
  linarith

end Scaled

end OpenRoad.MinAssignment
