import Mathlib.Algebra.BigOperators.Fin
import Mathlib.Algebra.BigOperators.Intervals
import Mathlib.Algebra.BigOperators.Pi
import Mathlib.Algebra.Order.Field.Rat
import Mathlib.Data.List.GetD

/-!
The hypergraph of the partitioner, in its flattened arrays, and the parts of the evaluator that need
no timing information: net degrees, block balance and cut. Weights are exact.
-/

namespace OpenRoad.Par

open Finset

/-- A weight in each of `d` dimensions. -/
abbrev Weights (d : Nat) := Fin d → ℚ

/-- A solution: the block of each vertex. -/
abbrev Partitions := Nat → Nat

/-! ### Flattened rows -/

/-- Rows one after the other, with the positions where they begin and end. -/
def flatten (rows : List (List Nat)) : List Nat × List Nat :=
  rows.foldl (fun arrays row => (arrays.1 ++ row, arrays.2 ++ [(arrays.1 ++ row).length])) ([], [0])

/-- The row at an index of flattened rows. -/
def slice (arrays : List Nat × List Nat) (i : Nat) : List Nat :=
  (arrays.1.drop (arrays.2.getD i 0)).take (arrays.2.getD (i + 1) 0 - arrays.2.getD i 0)

theorem flatten_append (rows : List (List Nat)) (row : List Nat) :
    flatten (rows ++ [row]) =
      ((flatten rows).1 ++ row, (flatten rows).2 ++ [((flatten rows).1 ++ row).length]) := by
  unfold flatten
  rw [List.foldl_append]
  rfl

theorem flatten_fst (rows : List (List Nat)) : (flatten rows).1 = rows.flatten := by
  induction rows using List.reverseRecOn with
  | nil => rfl
  | append_singleton rows row ih => simp [flatten_append, ih]

theorem length_flatten_snd (rows : List (List Nat)) :
    (flatten rows).2.length = rows.length + 1 := by
  induction rows using List.reverseRecOn with
  | nil => rfl
  | append_singleton rows row ih => simp [flatten_append, ih]

/-- A row begins after the rows before it. -/
theorem flatten_snd (rows : List (List Nat)) {i : Nat} (h : i ≤ rows.length) :
    (flatten rows).2.getD i 0 = (rows.take i).flatten.length := by
  induction rows using List.reverseRecOn with
  | nil =>
      obtain rfl : i = 0 := Nat.le_zero.mp h
      rfl
  | append_singleton rows row ih =>
      have hlength := length_flatten_snd rows
      rw [flatten_append]
      rcases Nat.lt_or_ge i (rows.length + 1) with hlt | hge
      · have hle : i ≤ rows.length := Nat.le_of_lt_succ hlt
        rw [List.getD_append _ _ _ _ (by omega), ih hle, List.take_append_of_le_length hle]
      · obtain rfl : i = rows.length + 1 := by
          rw [List.length_append, List.length_singleton] at h
          omega
        rw [List.getD_append_right _ _ _ _ (by omega), hlength, flatten_fst]
        simp

/-- Flattened rows are read back. -/
theorem slice_flatten (rows : List (List Nat)) {i : Nat} (h : i < rows.length) :
    slice (flatten rows) i = rows[i] := by
  unfold slice
  rw [flatten_snd rows (Nat.le_of_lt h), flatten_snd rows h, flatten_fst]
  have hsplit : rows.flatten =
      (rows.take i).flatten ++ (rows[i] ++ (rows.drop (i + 1)).flatten) := by
    rw [← List.flatten_cons, ← List.drop_eq_getElem_cons h, ← List.flatten_append,
      List.take_append_drop]
  have hnext : (rows.take (i + 1)).flatten = (rows.take i).flatten ++ rows[i] := by
    rw [← List.take_concat_get' rows i h, List.flatten_append, List.flatten_singleton]
  rw [hsplit, List.drop_left, hnext, List.length_append, Nat.add_sub_cancel_left, List.take_left]

/-! ### The hypergraph -/

/-- `Hypergraph`, with `d` dimensions of vertex weights and `k` of hyperedge weights. -/
structure Hypergraph (d k : Nat) where
  numVertices : Nat
  numHyperedges : Nat
  vertexWeights : List (Weights d)
  hyperedgeWeights : List (Weights k)
  eind : List Nat
  eptr : List Nat
  vind : List Nat
  vptr : List Nat
  fixedVertexFlag : Bool
  fixedAttr : List Int

variable {d k : Nat}

/-- The hyperedges of each vertex, in the order in which the constructor finds them. -/
def incidence (hyperedges : List (List Nat)) : Nat → List Nat :=
  hyperedges.zipIdx.foldl (fun vertices hyperedge =>
    hyperedge.1.foldl (fun vertices v =>
      Function.update vertices v (vertices v ++ [hyperedge.2])) vertices) fun _ => []

/-- The constructor, without timing, community and placement. -/
def Hypergraph.make (hyperedges : List (List Nat)) (vertexWeights : List (Weights d))
    (hyperedgeWeights : List (Weights k)) (fixedAttr : List Int) : Hypergraph d k :=
  let edges := flatten hyperedges
  let vertices := flatten ((List.range vertexWeights.length).map
    (incidence (hyperedges.take hyperedgeWeights.length)))
  { numVertices := vertexWeights.length
    numHyperedges := hyperedgeWeights.length
    vertexWeights := vertexWeights
    hyperedgeWeights := hyperedgeWeights
    eind := edges.1
    eptr := edges.2
    vind := vertices.1
    vptr := vertices.2
    fixedVertexFlag := fixedAttr.length = vertexWeights.length
    fixedAttr := if fixedAttr.length = vertexWeights.length then fixedAttr else [] }

namespace Hypergraph

variable (H : Hypergraph d k)

/-- `Vertices(e)` -/
def vertices (e : Nat) : List Nat := slice (H.eind, H.eptr) e

/-- `Edges(v)` -/
def edges (v : Nat) : List Nat := slice (H.vind, H.vptr) v

def vertexWeight (v : Nat) : Weights d := H.vertexWeights.getD v 0

def hyperedgeWeight (e : Nat) : Weights k := H.hyperedgeWeights.getD e 0

/-- `GetFixedAttr(v)` -/
def fixed (v : Nat) : Int := H.fixedAttr.getD v (-1)

/-- The block a vertex is fixed in, `-1` if it is free. -/
def fixedBlock (v : Nat) : Int := if H.fixedVertexFlag then H.fixed v else -1

theorem vertices_make (hyperedges : List (List Nat)) (vertexWeights : List (Weights d))
    (hyperedgeWeights : List (Weights k)) (fixedAttr : List Int) {e : Nat}
    (h : e < hyperedges.length) :
    (make hyperedges vertexWeights hyperedgeWeights fixedAttr).vertices e = hyperedges[e] :=
  slice_flatten hyperedges h

/-! ### The evaluator -/

/-- `GetNetDegrees`: how many vertices of a hyperedge are in a block. -/
def netDegrees (solution : Partitions) (e : Nat) : Nat → Nat :=
  (H.vertices e).foldl (fun degrees v =>
    Function.update degrees (solution v) (degrees (solution v) + 1)) fun _ => 0

/-- `GetBlockBalance`: the weight of a block. -/
def blockBalance (solution : Partitions) : Nat → Weights d :=
  (List.range H.numVertices).foldl (fun balance v =>
    Function.update balance (solution v) (balance (solution v) + H.vertexWeight v)) fun _ => 0

/-- A hyperedge is cut if a vertex is not in the block of its first one. -/
def isCut (solution : Partitions) : List Nat → Bool
  | [] => false
  | first :: rest => rest.any fun v => solution v ≠ solution first

def cutHyperedges (solution : Partitions) : List Nat :=
  (List.range H.numHyperedges).filter fun e => isCut solution (H.vertices e)

/-- `CalculateHyperedgeCost`, without timing. -/
def hyperedgeCost (eWtFactors : Weights k) (e : Nat) : ℚ :=
  ∑ i, H.hyperedgeWeight e i * eWtFactors i

/-- The cost of `CutEvaluator`, without timing. -/
def cutCost (eWtFactors : Weights k) (solution : Partitions) : ℚ :=
  ((H.cutHyperedges solution).map (H.hyperedgeCost eWtFactors)).sum

/-- The summed weights of the hyperedges that are cut. -/
def cutWeight (solution : Partitions) : Weights k :=
  ∑ e ∈ range H.numHyperedges, if isCut solution (H.vertices e) then H.hyperedgeWeight e else 0

/-! ### What the evaluator computes -/

theorem isCut_iff {solution : Partitions} {vertices : List Nat} :
    isCut solution vertices ↔ ∃ u ∈ vertices, ∃ v ∈ vertices, solution u ≠ solution v := by
  cases vertices with
  | nil => simp [isCut]
  | cons first rest =>
      simp only [isCut, List.any_eq_true, decide_eq_true_eq]
      constructor
      · rintro ⟨v, hv, hne⟩
        exact ⟨v, List.mem_cons_of_mem _ hv, first, List.mem_cons_self, hne⟩
      · rintro ⟨u, hu, v, hv, hne⟩
        by_contra hall
        push Not at hall
        have hsame : ∀ w ∈ first :: rest, solution w = solution first := by
          intro w hw
          rcases List.mem_cons.mp hw with rfl | hw
          · rfl
          · exact hall w hw
        exact hne ((hsame u hu).trans (hsame v hv).symm)

theorem foldl_update_add {ι M : Type*} [AddCommMonoid M] (f : ι → Nat) (w : ι → M) (l : List ι)
    (start : Nat → M) (b : Nat) :
    l.foldl (fun acc i => Function.update acc (f i) (acc (f i) + w i)) start b =
      start b + (l.map fun i => if f i = b then w i else 0).sum := by
  induction l generalizing start with
  | nil => simp
  | cons i l ih =>
      rw [List.foldl_cons, ih, List.map_cons, List.sum_cons, ← add_assoc]
      congr 1
      by_cases hb : f i = b
      · subst hb
        rw [Function.update_self, if_pos rfl]
      · rw [Function.update_of_ne (Ne.symm hb), if_neg hb, add_zero]

theorem sum_map_range {M : Type*} [AddCommMonoid M] (f : Nat → M) (n : Nat) :
    ((List.range n).map f).sum = ∑ i ∈ range n, f i := by
  induction n with
  | zero => rfl
  | succ n ih => rw [List.range_succ, List.map_append, List.sum_append, ih, sum_range_succ]; simp

/-- The balance of a block is the weight of its vertices. -/
theorem blockBalance_eq (solution : Partitions) (b : Nat) :
    H.blockBalance solution b =
      ∑ v ∈ range H.numVertices, if solution v = b then H.vertexWeight v else 0 := by
  unfold blockBalance
  rw [foldl_update_add solution H.vertexWeight, zero_add, sum_map_range]

/-- The degrees count the vertices. -/
theorem netDegrees_eq (solution : Partitions) (e b : Nat) :
    H.netDegrees solution e b = (H.vertices e).countP fun v => solution v = b := by
  unfold netDegrees
  rw [foldl_update_add solution fun _ => 1, zero_add]
  induction H.vertices e with
  | nil => rfl
  | cons v vs ih =>
      rw [List.map_cons, List.sum_cons, ih, List.countP_cons, add_comm]
      simp

/-- The cost of a cut, hyperedge after hyperedge. -/
theorem cutCost_eq_sum (eWtFactors : Weights k) (solution : Partitions) :
    H.cutCost eWtFactors solution =
      ∑ e ∈ range H.numHyperedges,
        if isCut solution (H.vertices e) then H.hyperedgeCost eWtFactors e else 0 := by
  unfold cutCost cutHyperedges
  rw [← sum_map_range]
  induction List.range H.numHyperedges with
  | nil => rfl
  | cons e es ih =>
      rw [List.filter_cons, List.map_cons, List.sum_cons, ← ih]
      split
      · rw [List.map_cons, List.sum_cons]
      · rw [zero_add]

/-- The cost of a cut is that of its summed weights. -/
theorem cutCost_eq (eWtFactors : Weights k) (solution : Partitions) :
    H.cutCost eWtFactors solution = ∑ i, H.cutWeight solution i * eWtFactors i := by
  rw [cutCost_eq_sum]
  unfold cutWeight
  simp only [Finset.sum_apply, Finset.sum_mul]
  rw [sum_comm]
  apply sum_congr rfl
  intro e _
  unfold hyperedgeCost
  split
  · rfl
  · simp

end Hypergraph

end OpenRoad.Par
