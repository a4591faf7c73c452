import Mathlib.Algebra.Order.Ring.Rat
import Mathlib.Data.List.Induction
import Mathlib.Data.List.Sort

/-!
The sink clustering of a clock. The points are put in order along a curve through all of them; a
solution makes clusters of the points in a row, and the cheapest of the solutions, which start at
different points, is kept.
-/

namespace OpenRoad.Cts

/-- One run of the sink clustering: the size of the groups, when a group is full for a point, and the
costs of the solutions. -/
structure Grouping where
  groupSize : Nat
  isLimitExceeded : List Nat → Nat → Bool
  costs : Nat → ℚ

/-- The points by their angles, and the best solution so far. -/
structure SinkClustering where
  thetaIndexVector : List Nat
  bestSolution : List (List Nat) := []
  bestSolutionCost : Option ℚ := none

namespace SinkClustering

/-- Sort the points by angle and index. -/
def sortPoints (theta : Nat → ℚ) (count : Nat) : List Nat :=
  (List.range count).insertionSort fun i j => theta i < theta j ∨ theta i = theta j ∧ i ≤ j

/-- The clusters that some points in a row make. -/
def clusters (isLimitExceeded : List Nat → Nat → Bool) (points : List Nat) : List (List Nat) :=
  let placed := points.foldl
    (fun (placed : List (List Nat) × List Nat) idx =>
      if isLimitExceeded placed.2 idx then (placed.1 ++ [placed.2], [idx])
      else (placed.1, placed.2 ++ [idx]))
    ([], [])
  placed.1 ++ [placed.2]

theorem clusters_flatten (isLimitExceeded : List Nat → Nat → Bool) (points : List Nat) :
    (clusters isLimitExceeded points).flatten = points := by
  unfold clusters
  dsimp only
  rw [List.flatten_append, List.flatten_singleton]
  induction points using List.reverseRecOn with
  | nil => rfl
  | append_singleton points idx ih =>
      rw [List.foldl_append, List.foldl_cons, List.foldl_nil]
      split
      · rw [List.flatten_append, List.flatten_singleton, ih]
      · rw [← List.append_assoc, ih]

/-- Every solution starts one point later than the one before it; the first one is not looked at. With
more solutions than points the arrays are overrun. -/
def findBestMatching (matching : SinkClustering) (grouping : Grouping) : Option SinkClustering :=
  if grouping.groupSize ≤ matching.thetaIndexVector.length then
    some ((List.range' 1 (grouping.groupSize - 1)).foldl
      (fun matching j =>
        if matching.bestSolutionCost.all fun best => decide (grouping.costs j < best) then
          { matching with
            bestSolution := clusters grouping.isLimitExceeded
              (matching.thetaIndexVector.drop j ++ matching.thetaIndexVector.take j)
            bestSolutionCost := some (grouping.costs j) }
        else matching)
      matching)
  else none

end SinkClustering

end OpenRoad.Cts
