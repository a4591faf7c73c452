import OpenRoad.ParVertexGain
import Mathlib.Data.Fin.VecNotation

/-!
The balance tests of a single-vertex move. `operator<` of weights is elementwise, while `<=` and `>`
are the lexicographic ones of the standard library: `CheckVertexMoveLegality` makes two lexicographic
comparisons, `GetBestCandidate` one of each kind. Neither is the test of the bounds in every
dimension.
-/

namespace OpenRoad.Par

variable {d k : Nat}

namespace Weights

/-- In the first dimension in which the weights differ, the first weight is the greater one. -/
def FirstExceeds (a b : Weights d) : Prop := ∃ i, b i < a i ∧ ∀ j < i, a j = b j

theorem lexLess_iff (a b : Weights d) : a.lexLess b = true ↔ b.FirstExceeds a := by
  unfold lexLess FirstExceeds
  rw [decide_eq_true_eq, List.lt_iff_exists]
  constructor
  · rintro (⟨-, hlength⟩ | ⟨i, hi, _, hbefore, hless⟩)
    · simp at hlength
    · rw [List.length_ofFn] at hi
      rw [List.getElem_ofFn, List.getElem_ofFn] at hless
      refine ⟨⟨i, hi⟩, hless, fun j hj => ?_⟩
      have heq := hbefore j hj
      rw [List.getElem_ofFn, List.getElem_ofFn] at heq
      exact heq.symm
  · rintro ⟨i, hless, hbefore⟩
    refine Or.inr ⟨i, by simp, by simp, fun j hj => ?_, ?_⟩
    · rw [List.getElem_ofFn, List.getElem_ofFn]
      exact (hbefore ⟨j, Nat.lt_trans hj i.isLt⟩ hj).symm
    · rw [List.getElem_ofFn, List.getElem_ofFn]
      exact hless

theorem less_iff (a b : Weights d) : a.less b = true ↔ ∀ i, a i < b i := by
  unfold less
  rw [decide_eq_true_eq]

/-- A weight that is nowhere the greater one does not exceed. -/
theorem not_firstExceeds {a b : Weights d} (h : a ≤ b) : ¬a.FirstExceeds b := by
  rintro ⟨i, hi, -⟩
  exact absurd hi (not_lt.mpr (h i))

theorem FirstExceeds.asymm {a b : Weights d} (h : a.FirstExceeds b) : ¬b.FirstExceeds a := by
  intro h'
  rw [← lexLess_iff] at h h'
  unfold lexLess at h h'
  rw [decide_eq_true_eq] at h h'
  exact lt_asymm h h'

/-- Of two different weights one exceeds the other. -/
theorem firstExceeds_or_firstExceeds {a b : Weights d} (h : a ≠ b) :
    a.FirstExceeds b ∨ b.FirstExceeds a := by
  have hne : List.ofFn a ≠ List.ofFn b := fun heq => h (List.ofFn_injective heq)
  rw [← lexLess_iff, ← lexLess_iff]
  unfold lexLess
  rw [decide_eq_true_eq, decide_eq_true_eq]
  exact (lt_or_gt_of_ne hne).symm

end Weights

namespace PriorityQueue

variable {H : Hypergraph d k} {q : PriorityQueue} {balance upper lower : Nat → Weights d}

/-- What the walk offers passes the balance test. -/
theorem traverse_checkBalance {pass index : Nat} {cell : VertexGain}
    (h : q.traverse H balance upper lower pass index = some cell) :
    checkBalance H balance upper lower cell = true := by
  induction pass generalizing index with
  | zero => cases h
  | succ pass ih =>
      have hcheck : ∀ i, (decide (i < q.heap.count) &&
          checkBalance H balance upper lower (q.heap.entries i)) = true →
            checkBalance H balance upper lower (q.heap.entries i) = true := by
        intro i hi
        rw [Bool.and_eq_true] at hi
        exact hi.2
      rw [traverse] at h
      dsimp only at h
      split at h
      · rename_i hright
        obtain rfl := Option.some.inj h
        rw [Bool.and_eq_true] at hright
        exact hcheck _ hright.1
      · split at h
        · rename_i hleft
          obtain rfl := Option.some.inj h
          exact hcheck _ hleft
        · split at h
          · cases h
          · exact ih h

theorem getBestCandidate_checkBalance {level : Nat} {cell : VertexGain}
    (h : q.getBestCandidate H level balance upper lower = some cell) :
    checkBalance H balance upper lower cell = true := by
  unfold getBestCandidate at h
  split at h
  · cases h
  · split at h
    · rename_i hroot
      obtain rfl := Option.some.inj h
      exact hroot
    · exact traverse_checkBalance h

end PriorityQueue

namespace Refiner

variable (R : Refiner d k)

/-- The bounds that the move of a vertex can break, in every dimension. -/
def WithinAfterMove (solution : Partitions) (v toPid : Nat) : Prop :=
  (∀ i, R.hgraph.blockBalance (Function.update solution v toPid) toPid i ≤ R.upper toPid i) ∧
    ∀ i, R.lower (solution v) i ≤
      R.hgraph.blockBalance (Function.update solution v toPid) (solution v) i

/-- A move that one of the tests accepts keeps the bounds, and the tests accept the same moves. -/
structure MoveTestsExact (solution : Partitions) (v toPid : Nat) : Prop where
  legal : R.checkVertexMoveLegality (R.hgraph.blockBalance solution) v toPid (solution v) = true →
    R.WithinAfterMove solution v toPid
  offered : ∀ (q : PriorityQueue) (level : Nat) (cell : VertexGain),
    q.getBestCandidate R.hgraph level (R.hgraph.blockBalance solution) R.upper R.lower =
        some cell →
      cell.vertex = v → cell.sourcePart = solution v → cell.destinationPart = toPid →
        R.WithinAfterMove solution v toPid
  same : ∀ gain, R.checkVertexMoveLegality (R.hgraph.blockBalance solution) v toPid (solution v) =
    PriorityQueue.checkBalance R.hgraph (R.hgraph.blockBalance solution) R.upper R.lower
      ⟨v, solution v, toPid, gain⟩

variable {R}

theorem withinAfterMove_iff {solution : Partitions} {v toPid : Nat}
    (hv : v < R.hgraph.numVertices) (hto : solution v ≠ toPid) :
    R.WithinAfterMove solution v toPid ↔
      R.hgraph.blockBalance solution toPid + R.hgraph.vertexWeight v ≤ R.upper toPid ∧
        R.lower (solution v) ≤
          R.hgraph.blockBalance solution (solution v) - R.hgraph.vertexWeight v := by
  unfold WithinAfterMove
  rw [R.hgraph.blockBalance_update solution toPid hv, Function.update_self,
    Function.update_of_ne hto.symm, Function.update_of_ne hto, Function.update_self]
  rfl

/-- The legality test, on the weights after the move. -/
theorem checkVertexMoveLegality_iff (solution : Partitions) (v toPid : Nat) :
    R.checkVertexMoveLegality (R.hgraph.blockBalance solution) v toPid (solution v) = true ↔
      ¬(R.hgraph.blockBalance solution toPid + R.hgraph.vertexWeight v).FirstExceeds
          (R.upper toPid) ∧
        ¬(R.lower (solution v)).FirstExceeds
          (R.hgraph.blockBalance solution (solution v) - R.hgraph.vertexWeight v) := by
  unfold checkVertexMoveLegality
  rw [Bool.and_eq_true, Bool.not_eq_true', Bool.not_eq_true', ← Bool.not_eq_true,
    ← Bool.not_eq_true, Weights.lexLess_iff, Weights.lexLess_iff]

/-- The test of the queue, on the same weights. -/
theorem checkBalance_iff {solution : Partitions} {cell : VertexGain}
    (hsource : cell.sourcePart = solution cell.vertex) :
    PriorityQueue.checkBalance R.hgraph (R.hgraph.blockBalance solution) R.upper R.lower cell =
        true ↔
      (∀ i, R.hgraph.blockBalance solution cell.destinationPart i +
          R.hgraph.vertexWeight cell.vertex i < R.upper cell.destinationPart i) ∧
        (R.hgraph.blockBalance solution (solution cell.vertex) -
          R.hgraph.vertexWeight cell.vertex).FirstExceeds (R.lower (solution cell.vertex)) := by
  unfold PriorityQueue.checkBalance
  rw [hsource, Bool.and_eq_true, Weights.less_iff, Weights.lexLess_iff]
  rfl

/-- The tests are exact for a move that takes the entered block above its upper bound, or the left
block below its lower bound, in the first dimension in which the weight differs from the bound, and
for one that stays below the upper bound everywhere, nowhere falls below the lower bound and does not
meet it in all dimensions. -/
theorem moveTestsExact_iff {solution : Partitions} {v toPid : Nat} (hv : v < R.hgraph.numVertices)
    (hto : solution v ≠ toPid) :
    R.MoveTestsExact solution v toPid ↔
      (R.hgraph.blockBalance solution toPid + R.hgraph.vertexWeight v).FirstExceeds
          (R.upper toPid) ∨
        (R.lower (solution v)).FirstExceeds
          (R.hgraph.blockBalance solution (solution v) - R.hgraph.vertexWeight v) ∨
        (∀ i, R.hgraph.blockBalance solution toPid i + R.hgraph.vertexWeight v i <
          R.upper toPid i) ∧
          R.lower (solution v) <
            R.hgraph.blockBalance solution (solution v) - R.hgraph.vertexWeight v := by
  have hwithin := withinAfterMove_iff (R := R) hv hto
  have hlegal := checkVertexMoveLegality_iff (R := R) solution v toPid
  constructor
  · intro hexact
    by_cases hl :
        R.checkVertexMoveLegality (R.hgraph.blockBalance solution) v toPid (solution v) = true
    · obtain ⟨hupper, hexceeds⟩ :=
        (@checkBalance_iff _ _ R solution ⟨v, solution v, toPid, 0⟩ rfl).mp
          ((hexact.same 0).symm.trans hl)
      obtain ⟨-, hlower⟩ := hwithin.mp (hexact.legal hl)
      refine Or.inr (Or.inr ⟨hupper, lt_of_le_of_ne hlower fun heq => ?_⟩)
      exact Weights.not_firstExceeds (le_of_eq heq.symm) hexceeds
    · rw [hlegal, not_and_or, not_not, not_not] at hl
      rcases hl with hupper | hlower
      · exact Or.inl hupper
      · exact Or.inr (Or.inl hlower)
  · intro hcases
    have hbounds : R.checkVertexMoveLegality (R.hgraph.blockBalance solution) v toPid
        (solution v) = true →
          (∀ i, R.hgraph.blockBalance solution toPid i + R.hgraph.vertexWeight v i <
            R.upper toPid i) ∧
          R.lower (solution v) <
            R.hgraph.blockBalance solution (solution v) - R.hgraph.vertexWeight v := by
      intro hl
      obtain ⟨hupper, hlower⟩ := hlegal.mp hl
      exact (hcases.resolve_left hupper).resolve_left hlower
    have hmoved : R.checkVertexMoveLegality (R.hgraph.blockBalance solution) v toPid
        (solution v) = true → R.WithinAfterMove solution v toPid := by
      intro hl
      obtain ⟨hupper, hlower⟩ := hbounds hl
      exact hwithin.mpr ⟨fun i => le_of_lt (hupper i), le_of_lt hlower⟩
    -- the stricter test accepts only what the other one accepts
    have hstrict : ∀ cell : VertexGain, cell.vertex = v → cell.sourcePart = solution v →
        cell.destinationPart = toPid →
          PriorityQueue.checkBalance R.hgraph (R.hgraph.blockBalance solution) R.upper R.lower
            cell = true →
          R.checkVertexMoveLegality (R.hgraph.blockBalance solution) v toPid (solution v) =
            true := by
      rintro cell rfl hsource rfl hcheck
      obtain ⟨hupper, hexceeds⟩ := (checkBalance_iff hsource).mp hcheck
      exact hlegal.mpr ⟨Weights.not_firstExceeds fun i => le_of_lt (hupper i), hexceeds.asymm⟩
    refine ⟨hmoved, ?_, fun gain => ?_⟩
    · intro q level cell hoffer hvertex hsource hdestination
      exact hmoved (hstrict cell hvertex hsource hdestination
        (PriorityQueue.getBestCandidate_checkBalance hoffer))
    · rw [Bool.eq_iff_iff]
      constructor
      · intro hl
        obtain ⟨hupper, hlower⟩ := hbounds hl
        refine (checkBalance_iff rfl).mpr ⟨hupper, ?_⟩
        exact (Weights.firstExceeds_or_firstExceeds (ne_of_lt hlower)).resolve_left
          (Weights.not_firstExceeds (le_of_lt hlower))
      · exact hstrict _ rfl rfl rfl

/-- Two vertices in the first block, of which the first one may move into the second block. -/
def twoBlocks : Refiner 2 1 where
  hgraph := .make [[0, 1]] [![1, 1], ![2, 2]] [fun _ => 1] []
  numParts := 2
  maxMove := 1
  totalCorkingPasses := 1
  eWtFactors := fun _ => 1
  upper := fun _ => ![4, 4]
  lower := fun b => if b = 0 then ![1, 1] else ![0, 0]

theorem twoBlocks_moveTestsExact :
    twoBlocks.MoveTestsExact (fun _ => 0) 0 1 ↔
      (twoBlocks.hgraph.blockBalance (fun _ => 0) 1 + twoBlocks.hgraph.vertexWeight 0).FirstExceeds
          (twoBlocks.upper 1) ∨
        (twoBlocks.lower 0).FirstExceeds
          (twoBlocks.hgraph.blockBalance (fun _ => 0) 0 - twoBlocks.hgraph.vertexWeight 0) ∨
        (∀ i, twoBlocks.hgraph.blockBalance (fun _ => 0) 1 i + twoBlocks.hgraph.vertexWeight 0 i <
          twoBlocks.upper 1 i) ∧
          twoBlocks.lower 0 <
            twoBlocks.hgraph.blockBalance (fun _ => 0) 0 - twoBlocks.hgraph.vertexWeight 0 :=
  moveTestsExact_iff (by decide) (by decide)

/-- The bounds of the second dimension are tight. -/
def tightBlocks : Refiner 2 1 where
  hgraph := .make [[0, 1]] [![1, 1], ![2, 2]] [fun _ => 1] []
  numParts := 2
  maxMove := 1
  totalCorkingPasses := 1
  eWtFactors := fun _ => 1
  upper := fun b => if b = 0 then ![4, 4] else ![4, 0]
  lower := fun b => if b = 0 then ![1, 3] else ![0, 0]

/-- A move is legal that exceeds the upper bound of the second dimension. -/
theorem not_moveTestsExact :
    (∀ b < 2, ∀ i, tightBlocks.lower b i ≤ tightBlocks.hgraph.blockBalance (fun _ => 0) b i ∧
      tightBlocks.hgraph.blockBalance (fun _ => 0) b i ≤ tightBlocks.upper b i) ∧
    ¬tightBlocks.MoveTestsExact (fun _ => 0) 0 1 := by
  refine ⟨by decide +kernel, fun hexact => ?_⟩
  have hwithin := hexact.legal (by decide +kernel)
  exact absurd (hwithin.1 1) (by decide +kernel)

end Refiner

end OpenRoad.Par
