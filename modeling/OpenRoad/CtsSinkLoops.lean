import OpenRoad.CtsSinkMatching
import OpenRoad.Run

/-!
The loops of the sink clustering. All solutions of a run are grown at once: the first loop gives each of
them the points from its own start on, the second one the points before it. The vectors of the
solutions are made when they are first needed.
-/

namespace OpenRoad.Cts

/-- The sinks that are clustered: their points, with the capacitances, where a point lies on the curve
through all of them, and how far two points are apart, with their insertion delays. -/
structure Sinks (P : Type) where
  points : List P
  pointsCap : List ℚ
  computeTheta : P → ℚ
  computeDist : P → P → ℚ
  useMaxCapLimit : Bool
  maxCap : ℚ
  length_pointsCap : pointsCap.length = points.length
  computeDist_comm : ∀ p q, computeDist p q = computeDist q p

/-- What is asked for in a run. -/
structure SinkRequest where
  groupSize : Nat
  maxInternalDiameter : ℚ
  capPerUnit : ℚ

/-- One solution while it grows: the number of the cluster that is open, the costs of the ones before
it, its own, and the points of all of them. -/
structure GrownSolution where
  cluster : Nat := 0
  cost : ℚ := 0
  previousCost : ℚ := 0
  solution : List (List Nat) := []

/-- The vectors of all solutions. -/
structure GrownSolutions where
  clusters : List Nat
  costs : List ℚ
  previousCosts : List ℚ
  solutions : List (List (List Nat))

namespace GrownSolutions

/-- Add a vector in case it is not allocated yet. -/
def allocate {α : Type} (a : α) (l : List α) (j : Nat) : List α :=
  if l.length < j + 1 then l ++ [a] else l

def get? (grown : GrownSolutions) (j : Nat) : Option GrownSolution :=
  grown.clusters[j]?.bind fun cluster => grown.costs[j]?.bind fun cost =>
    grown.previousCosts[j]?.bind fun previousCost => grown.solutions[j]?.map fun solution =>
      { cluster := cluster, cost := cost, previousCost := previousCost, solution := solution }

def set (grown : GrownSolutions) (j : Nat) (next : GrownSolution) : GrownSolutions where
  clusters := grown.clusters.set j next.cluster
  costs := grown.costs.set j next.cost
  previousCosts := grown.previousCosts.set j next.previousCost
  solutions := grown.solutions.set j next.solution

/-- The vectors at the start of a run. -/
def init (groupSize : Nat) : GrownSolutions where
  clusters := List.replicate groupSize 0
  costs := List.replicate groupSize 0
  previousCosts := List.replicate groupSize 0
  solutions := []

end GrownSolutions

namespace Sinks

variable {P : Type} (sinks : Sinks P) (request : SinkRequest)

def isLimitExceeded (size : Nat) (cost capCost : ℚ) (sizeLimit : Nat) : Bool :=
  if sinks.useMaxCapLimit then decide (capCost > sinks.maxCap)
  else decide (size ≥ sizeLimit ∨ cost > request.maxInternalDiameter)

/-- The largest distance of a point from those of a cluster, and the capacitance it would have. -/
def measure (cluster : List Nat) (idx : Nat) : Option (ℚ × ℚ) :=
  sinks.points[idx]?.bind fun p => sinks.pointsCap[idx]?.bind fun cap =>
    Run.run
      (fun (costs : ℚ × ℚ) pointIdx => sinks.points[pointIdx]?.bind fun comparisonPoint =>
        let cost := sinks.computeDist p comparisonPoint
        (if sinks.useMaxCapLimit then
            sinks.pointsCap[pointIdx]?.map fun other => costs.2 + (cost * request.capPerUnit + other)
          else some costs.2).map fun capCost => (if cost > costs.1 then cost else costs.1, capCost))
      (0, cap) cluster

/-- The body of both loops: a point is put into the cluster that is open, or into a new one. -/
def place (grown : GrownSolution) (idx : Nat) : Option GrownSolution :=
  let solution := GrownSolutions.allocate [] grown.solution grown.cluster
  solution[grown.cluster]?.bind fun cluster => (sinks.measure request cluster idx).bind fun costs =>
    let next : GrownSolution :=
      if sinks.isLimitExceeded request cluster.length costs.1 costs.2 request.groupSize then
        { cluster := grown.cluster + 1
          cost := grown.cost +
            if grown.previousCost = 0 then request.maxInternalDiameter else grown.previousCost
          previousCost := 0
          solution := GrownSolutions.allocate [] solution (grown.cluster + 1) }
      else
        { grown with
          previousCost := if costs.1 > grown.previousCost then costs.1 else grown.previousCost
          solution := GrownSolutions.allocate [] solution grown.cluster }
    next.solution[next.cluster]?.map fun cluster =>
      { next with solution := next.solution.set next.cluster (cluster ++ [idx]) }

def placeAt (grown : GrownSolutions) (j idx : Nat) : Option GrownSolutions :=
  (grown.get? j).bind fun solution => (sinks.place request solution idx).map (grown.set j)

/-- The first loop, for one place on the curve and one solution. -/
def growStep (thetaIndexVector : List Nat) (i : Nat) (grown : GrownSolutions) (j : Nat) :
    Option GrownSolutions :=
  if i + j < thetaIndexVector.length then
    thetaIndexVector[i + j]?.bind fun idx =>
      sinks.placeAt request
        { grown with solutions := GrownSolutions.allocate [] grown.solutions j } j idx
  else some grown

/-- The second loop. -/
def wrapStep (thetaIndexVector : List Nat) (i : Nat) (grown : GrownSolutions) (j : Nat) :
    Option GrownSolutions :=
  thetaIndexVector[i]?.bind fun idx => sinks.placeAt request grown j idx

def grow (thetaIndexVector : List Nat) : Option GrownSolutions :=
  Run.run
    (fun grown i => Run.run (sinks.growStep request thetaIndexVector i) grown
      (List.range request.groupSize))
    (GrownSolutions.init request.groupSize) (List.range thetaIndexVector.length)

def wrap (thetaIndexVector : List Nat) (grown : GrownSolutions) : Option GrownSolutions :=
  Run.run
    (fun grown i => Run.run (sinks.wrapStep request thetaIndexVector i) grown
      (List.range' (i + 1) (request.groupSize - (i + 1))))
    grown (List.range request.groupSize)

end Sinks

/-- The best of the solutions looked at. -/
structure BestMatching where
  bestSolution : Nat := 0
  bestSolutionFound : Bool := false
  bestSolutionCost : Option ℚ

/-- Look at the solutions from the second one on. -/
def GrownSolutions.findMinimum (grown : GrownSolutions) (bestSolutionCost : Option ℚ)
    (groupSize : Nat) : Option BestMatching :=
  Run.run
    (fun (best : BestMatching) j => grown.costs[j]?.map fun cost =>
      if best.bestSolutionCost.all fun bestCost => decide (cost < bestCost) then
        { bestSolution := j, bestSolutionFound := true, bestSolutionCost := some cost }
      else best)
    { bestSolutionCost := bestSolutionCost } (List.range' 1 (groupSize - 1))

/-- A `SinkClustering` over its runs. -/
structure SinkRuns extends SinkClustering where
  firstRun : Bool := true

namespace Sinks

variable {P : Type} (sinks : Sinks P) (request : SinkRequest)

/-- `SinkClustering::findBestMatching`; `none` where a vector is overrun. -/
def findBestMatching (matching : SinkClustering) : Option (Bool × SinkClustering) :=
  (sinks.grow request matching.thetaIndexVector).bind fun grown =>
    (sinks.wrap request matching.thetaIndexVector grown).bind fun grown =>
      (grown.findMinimum matching.bestSolutionCost request.groupSize).bind fun best =>
        if best.bestSolutionFound then
          grown.solutions[best.bestSolution]?.map fun solution =>
            (true, { matching with
              bestSolution := solution
              bestSolutionCost := best.bestSolutionCost })
        else some (false, matching)

/-- `computeAllThetas` and `sortPoints`. -/
def sortedPoints : List Nat :=
  SinkClustering.sortPoints (fun i => (sinks.points[i]?.map sinks.computeTheta).getD 0)
    sinks.points.length

/-- `SinkClustering::run`: the points are sorted in the first run only. -/
def run (runs : SinkRuns) : Option (Bool × SinkRuns) :=
  let thetaIndexVector := if runs.firstRun then sinks.sortedPoints else runs.thetaIndexVector
  (sinks.findBestMatching request
    { runs.toSinkClustering with thetaIndexVector := thetaIndexVector }).map fun found =>
      (found.1, { toSinkClustering := found.2, firstRun := false })

end Sinks

end OpenRoad.Cts
