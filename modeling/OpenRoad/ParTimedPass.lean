import OpenRoad.Run
import OpenRoad.ParKWayFM

/-!
Gains with timing paths. A gain holds the decrease of the cut and of the costs of the paths through
its vertex, and the changes of these costs, which are added to the path costs when the move is
accepted and taken away when it is rolled back. Costs are exact; the timing cost of the hyperedges
is one more dimension of their weights.
-/

namespace OpenRoad.Par

variable {d k : Nat}

/-- The timing paths as sequences of vertices, with their costs and the factors that the evaluator
and the refiners share. -/
structure Timing where
  paths : List (List Nat)
  pathTimingCost : Nat → ℚ
  pathTimingFactor : ℚ
  pathSnakingFactor : ℚ

namespace Timing

variable (T : Timing)

/-- A path in terms of blocks. -/
def blockPath (block : Nat → Nat) (path : List Nat) : List Nat :=
  path.foldl (fun blocks u =>
    if blocks.getLast? = some (block u) then blocks else blocks ++ [block u]) []

/-- The largest count of `block_counter`. -/
def snakingFactor (blocks : List Nat) : Nat := (blocks.map (blocks.count ·)).foldl max 0

/-- What `CalculatePathCost` of the evaluator and of the refiner share: the vertices are in the
blocks given. -/
def costOfBlocks (pathId : Nat) (block : Nat → Nat) : ℚ :=
  match T.paths[pathId]? with
  | none => 0
  | some path =>
      let blocks := blockPath block path
      if blocks.length ≤ 1 then 0
      else T.pathTimingFactor * (blocks.length - 1) * T.pathTimingCost pathId +
        T.pathSnakingFactor * (snakingFactor blocks - 1)

/-- `CalculatePathCost` of the evaluator. -/
def pathCost (pathId : Nat) (solution : Partitions) : ℚ := T.costOfBlocks pathId solution

/-- `CalculatePathCost` of the refiner, with a vertex moved to a block. -/
def calculatePathCost (pathId : Nat) (solution : Partitions) (v toPid : Nat) : ℚ :=
  T.costOfBlocks pathId fun u => if u = v then toPid else solution u

/-- `TimingPathsThrough`: a path is there as often as it visits the vertex. -/
def timingPathsThrough (v : Nat) : List Nat :=
  (List.range T.paths.length).flatMap fun pathId =>
    ((T.paths.getD pathId []).filter (· = v)).map fun _ => pathId

end Timing

/-- `VertexGain` with the changes of the path costs. -/
structure TimedGain extends VertexGain where
  pathCost : Nat → Option ℚ

/-- What a pass changes, with the path costs. The buckets of the blocks are given by the cells in
them; which cell is picked is left open. -/
structure TimedRefining (d : Nat) where
  solution : Partitions
  visited : Nat → Bool
  totalDeltaGain : ℚ
  blockBalance : Nat → Weights d
  netDegs : Nat → Nat → Int
  curPathsCost : Nat → ℚ
  cells : Nat → Nat → Option TimedGain
  movesTrace : List TimedGain
  rollingBack : Bool

namespace Refiner

variable (R : Refiner d k) (T : Timing)

def cutScore (netDegs : Nat → Nat → Int) (v fromPid toPid : Nat) : ℚ :=
  ((R.hgraph.edges v).map (R.edgeScore netDegs fromPid toPid)).sum

/-- The change of the cost of a path by a move. -/
def deltaPathCost (s : TimedRefining d) (v toPid pathId : Nat) : ℚ :=
  T.calculatePathCost pathId s.solution v toPid - s.curPathsCost pathId

/-- `CalculateVertexGain`, with paths. -/
def calculateTimedGain (s : TimedRefining d) (v toPid : Nat) : TimedGain :=
  let fromPid := s.solution v
  if fromPid = toPid then ⟨⟨v, fromPid, toPid, 0⟩, fun _ => none⟩
  else
    let through := T.timingPathsThrough v
    { vertex := v
      sourcePart := fromPid
      destinationPart := toPid
      gain := R.cutScore s.netDegs v fromPid toPid +
        (through.map fun pathId =>
          s.curPathsCost pathId - T.calculatePathCost pathId s.solution v toPid).sum
      pathCost := through.foldl (fun delta pathId =>
        Function.update delta pathId (some (deltaPathCost T s v toPid pathId))) fun _ => none }

/-- `AcceptVertexGain` -/
def acceptTimedGain (s : TimedRefining d) (cell : TimedGain) : TimedRefining d :=
  let v := cell.vertex
  let w := R.hgraph.vertexWeight v
  let taken := Function.update s.blockBalance cell.sourcePart (s.blockBalance cell.sourcePart - w)
  { s with
    visited := Function.update s.visited v true
    totalDeltaGain := s.totalDeltaGain + cell.gain
    curPathsCost := fun pathId => s.curPathsCost pathId + (cell.pathCost pathId).getD 0
    solution := Function.update s.solution v cell.destinationPart
    blockBalance := Function.update taken cell.destinationPart (taken cell.destinationPart + w)
    netDegs := R.shiftDegrees v cell.sourcePart cell.destinationPart s.netDegs }

/-- `RollBackVertexGain` -/
def rollBackTimedGain (s : TimedRefining d) (cell : TimedGain) : TimedRefining d :=
  let v := cell.vertex
  let w := R.hgraph.vertexWeight v
  let given := Function.update s.blockBalance cell.sourcePart (s.blockBalance cell.sourcePart + w)
  { s with
    visited := Function.update s.visited v false
    curPathsCost := fun pathId => s.curPathsCost pathId - (cell.pathCost pathId).getD 0
    solution := Function.update s.solution v cell.sourcePart
    blockBalance := Function.update given cell.destinationPart (given cell.destinationPart - w)
    netDegs := R.shiftDegrees v cell.destinationPart cell.sourcePart s.netDegs }

/-- `AcceptKWayMove` and `UpdateSingleGainBucket` for each block: the vertex leaves all buckets, and
the gains of its neighbors are computed anew. -/
def acceptKWayTimedMove (s : TimedRefining d) (cell : TimedGain) : TimedRefining d :=
  let accepted := R.acceptTimedGain { s with movesTrace := cell :: s.movesTrace } cell
  let neighbors := R.neighborsIn (fun _ => true) accepted.visited accepted.solution cell.vertex
  { accepted with
    cells := fun toPid u =>
      if toPid < R.numParts ∧ u ∈ neighbors ∧ accepted.solution u ≠ toPid then
        some (R.calculateTimedGain T accepted u toPid)
      else if u = cell.vertex then none
      else s.cells toPid u }

/-- A pass accepts moves first, and then takes some of them back, the last one first. -/
inductive TimedStep where
  | accept (toPid v : Nat)
  | rollBack
  deriving DecidableEq

def timedStep (s : TimedRefining d) : TimedStep → Option (TimedRefining d)
  | .accept toPid v =>
      if s.rollingBack = true then none
      else (s.cells toPid v).map fun cell => R.acceptKWayTimedMove T s cell
  | .rollBack =>
      match s.movesTrace with
      | [] => none
      | cell :: trace =>
          some { R.rollBackTimedGain s cell with movesTrace := trace, rollingBack := true }

/-- The state at the start of a pass: `InitializeGainBucketsKWay` fills the buckets with the gains
of the boundary vertices. -/
def timedStart (solution : Partitions) (visited : Nat → Bool) : TimedRefining d :=
  let s : TimedRefining d :=
    { solution := solution
      visited := visited
      totalDeltaGain := 0
      blockBalance := R.hgraph.blockBalance solution
      netDegs := R.degreesOf solution
      curPathsCost := fun pathId => T.pathCost pathId solution
      cells := fun _ _ => none
      movesTrace := []
      rollingBack := false }
  { s with
    cells := fun toPid v =>
      if toPid < R.numParts ∧ v ∈ R.findBoundaryVertices s.netDegs visited ∧ solution v ≠ toPid then
        some (R.calculateTimedGain T s v toPid)
      else none }

/-! ### What is claimed -/

/-- Cut cost and path costs, as the evaluator computes them. -/
def timedCost (solution : Partitions) : ℚ :=
  R.hgraph.cutCost R.eWtFactors solution +
    ((List.range T.paths.length).map fun pathId => T.pathCost pathId solution).sum

/-- The solution after the moves of a trace, the last one first. -/
def replayTimed (solution : Partitions) : List TimedGain → Partitions
  | [] => solution
  | cell :: trace =>
      Function.update (replayTimed solution trace) cell.vertex cell.destinationPart

/-- Each move of a trace has the decrease of the cost as its gain, and the changes of the path
costs. -/
def MovesExact (solution : Partitions) : List TimedGain → Prop
  | [] => True
  | cell :: trace =>
      (cell.gain = R.timedCost T (replayTimed solution trace) -
          R.timedCost T (replayTimed solution (cell :: trace)) ∧
        ∀ pathId < T.paths.length, (cell.pathCost pathId).getD 0 =
          T.pathCost pathId (replayTimed solution (cell :: trace)) -
            T.pathCost pathId (replayTimed solution trace)) ∧
      MovesExact solution trace

/-- The path costs are those of the solution, and the recorded gains are exact. -/
structure TimingExact (solution : Partitions) (s : TimedRefining d) : Prop where
  pathsCost : ∀ pathId < T.paths.length, s.curPathsCost pathId = T.pathCost pathId s.solution
  moves : R.MovesExact T solution s.movesTrace

/-- The candidate is fresh: its changes of path costs are those that would be computed now, and the
paths that visit the vertex more than once do not count more than once. -/
def AcceptsFresh (s : TimedRefining d) : TimedStep → Prop
  | .accept toPid v => ∀ cell, s.cells toPid v = some cell →
      cell.pathCost = (R.calculateTimedGain T s v toPid).pathCost ∧
      ((T.timingPathsThrough v).map (deltaPathCost T s v toPid)).sum =
        ((T.timingPathsThrough v).dedup.map (deltaPathCost T s v toPid)).sum
  | .rollBack => True

end Refiner

end OpenRoad.Par

/-!
A pass with timing paths is exact exactly as long as the candidates are fresh. The cut part of a gain
is kept up to date, since the gains of all neighbors are computed anew; but a path couples vertices
that share no hyperedge, and a path that visits a vertex twice counts twice in its gain.
-/

namespace OpenRoad.Par

variable {d k : Nat}

namespace Timing

variable {T : Timing}

theorem calculatePathCost_eq (pathId : Nat) (solution : Partitions) (v toPid : Nat) :
    T.calculatePathCost pathId solution v toPid =
      T.pathCost pathId (Function.update solution v toPid) := by
  rw [calculatePathCost, pathCost]
  congr 1
  funext u
  rw [Function.update_apply]

theorem mem_timingPathsThrough {v pathId : Nat} :
    pathId ∈ T.timingPathsThrough v ↔ pathId < T.paths.length ∧ v ∈ T.paths.getD pathId [] := by
  simp only [timingPathsThrough, List.mem_flatMap, List.mem_range, List.mem_map, List.mem_filter,
    decide_eq_true_eq]
  constructor
  · rintro ⟨p, hp, u, ⟨hu, rfl⟩, rfl⟩
    exact ⟨hp, hu⟩
  · rintro ⟨hp, hv⟩
    exact ⟨pathId, hp, v, ⟨hv, rfl⟩, rfl⟩

theorem blockPath_congr {block block' : Nat → Nat} {path : List Nat}
    (h : ∀ u ∈ path, block u = block' u) : blockPath block path = blockPath block' path := by
  induction path using List.reverseRecOn with
  | nil => rfl
  | append_singleton path u ih =>
      have hpath := ih fun w hw => h w (List.mem_append_left _ hw)
      have hu := h u (by simp)
      rw [blockPath, blockPath] at hpath ⊢
      rw [List.foldl_append, List.foldl_append, hpath]
      simp [hu]

/-- Moving a vertex leaves the costs of the paths that do not visit it. -/
theorem pathCost_update_of_notMem {pathId v toPid : Nat} {solution : Partitions}
    (h : pathId ∉ T.timingPathsThrough v) :
    T.pathCost pathId (Function.update solution v toPid) = T.pathCost pathId solution := by
  rw [pathCost, pathCost, costOfBlocks, costOfBlocks]
  cases hpath : T.paths[pathId]? with
  | none => rfl
  | some path =>
      have hlt := (List.getElem?_eq_some_iff.mp hpath).1
      have hget : T.paths.getD pathId [] = path := by
        rw [List.getD_eq_getElem?_getD, hpath]
        rfl
      have hnot : v ∉ path := fun hv => h (mem_timingPathsThrough.mpr ⟨hlt, hget ▸ hv⟩)
      have hblocks : blockPath (Function.update solution v toPid) path =
          blockPath solution path :=
        blockPath_congr fun u hu => Function.update_of_ne (fun heq => hnot (by rwa [heq] at hu)) _ _
      simp only [hblocks]

end Timing

namespace Refiner

variable {R : Refiner d k} {T : Timing}

/-! ### A gain -/

theorem foldl_update_some (f : Nat → ℚ) (l : List Nat) (pathId : Nat) :
    l.foldl (fun delta p => Function.update delta p (some (f p))) (fun _ => none) pathId =
      if pathId ∈ l then some (f pathId) else none := by
  induction l using List.reverseRecOn with
  | nil => rfl
  | append_singleton l p ih =>
      rw [List.foldl_append, List.foldl_cons, List.foldl_nil, Function.update_apply, ih]
      by_cases hp : pathId = p
      · simp [hp]
      · simp [hp]

theorem calculateTimedGain_pathCost {s : TimedRefining d} {v toPid : Nat}
    (hne : s.solution v ≠ toPid) (pathId : Nat) :
    (R.calculateTimedGain T s v toPid).pathCost pathId =
      if pathId ∈ T.timingPathsThrough v then some (deltaPathCost T s v toPid pathId) else none := by
  simp only [calculateTimedGain, if_neg hne]
  exact foldl_update_some _ _ _

/-- What is known of a cell in a bucket: its cut part is up to date, and its path part is that of
the changes it holds. -/
structure Stored (R : Refiner d k) (T : Timing) (s : TimedRefining d) (toPid v : Nat)
    (cell : TimedGain) : Prop where
  lt : v < R.hgraph.numVertices
  unvisited : s.visited v = false
  toPid_lt : toPid < R.numParts
  vertex : cell.vertex = v
  sourcePart : cell.sourcePart = s.solution v
  destinationPart : cell.destinationPart = toPid
  ne : s.solution v ≠ toPid
  gain : cell.gain = R.cutScore s.netDegs v (s.solution v) toPid -
    ((T.timingPathsThrough v).map fun pathId => (cell.pathCost pathId).getD 0).sum
  through : ∀ pathId, (cell.pathCost pathId).isSome = true ↔ pathId ∈ T.timingPathsThrough v

theorem stored_calculateTimedGain {s : TimedRefining d} {toPid v : Nat}
    (hlt : v < R.hgraph.numVertices) (hunvisited : s.visited v = false) (hto : toPid < R.numParts)
    (hne : s.solution v ≠ toPid) :
    Stored R T s toPid v (R.calculateTimedGain T s v toPid) := by
  have hpath := calculateTimedGain_pathCost (R := R) (T := T) hne
  refine ⟨hlt, hunvisited, hto, ?_, ?_, ?_, hne, ?_, fun pathId => ?_⟩
  · simp [calculateTimedGain, hne]
  · simp [calculateTimedGain, hne]
  · simp [calculateTimedGain, hne]
  · have hsum : ((T.timingPathsThrough v).map fun pathId =>
          ((R.calculateTimedGain T s v toPid).pathCost pathId).getD 0).sum =
        -((T.timingPathsThrough v).map fun pathId =>
          s.curPathsCost pathId - T.calculatePathCost pathId s.solution v toPid).sum := by
      rw [List.sum_neg, List.map_map]
      congr 1
      apply List.map_congr_left
      intro pathId hmem
      rw [hpath, if_pos hmem, Option.getD_some, deltaPathCost]
      exact (neg_sub _ _).symm
    rw [hsum]
    simp [calculateTimedGain, hne]
  · rw [hpath]
    split <;> simp [*]

/-! ### The books of a pass -/

/-- Each move of a trace takes a vertex from its block to another one. -/
def MovesLegal (R : Refiner d k) (start : Partitions) : List TimedGain → Prop
  | [] => True
  | cell :: trace =>
      (cell.vertex < R.hgraph.numVertices ∧ cell.sourcePart = replayTimed start trace cell.vertex ∧
        cell.sourcePart ≠ cell.destinationPart ∧ cell.destinationPart < R.numParts) ∧
      MovesLegal R start trace

theorem MovesLegal.replay_lt {start : Partitions} {trace : List TimedGain}
    (h : MovesLegal R start trace) (hrange : ∀ v < R.hgraph.numVertices, start v < R.numParts) :
    ∀ v < R.hgraph.numVertices, replayTimed start trace v < R.numParts := by
  induction trace with
  | nil => exact hrange
  | cons cell trace ih =>
      intro v hv
      rw [replayTimed, Function.update_apply]
      split
      · exact h.1.2.2.2
      · exact ih h.2 v hv

/-- What holds in every state of a pass, whether the candidates are fresh or not. -/
structure Booked (R : Refiner d k) (T : Timing) (start : Partitions) (s : TimedRefining d) :
    Prop where
  solution_eq : s.solution = replayTimed start s.movesTrace
  netDegs : s.netDegs = R.degreesOf s.solution
  legal : MovesLegal R start s.movesTrace
  cells : s.rollingBack = false → ∀ toPid v cell, s.cells toPid v = some cell →
    Stored R T s toPid v cell

theorem booked_start (start : Partitions) (visited : Nat → Bool) :
    Booked R T start (R.timedStart T start visited) := by
  refine ⟨rfl, rfl, trivial, fun _ toPid v cell hcell => ?_⟩
  rw [timedStart] at hcell
  dsimp only at hcell
  split at hcell
  next h =>
    obtain rfl := Option.some.inj hcell
    obtain ⟨hlt, hfree⟩ := verticesOn_free h.2.1
    have hstored := stored_calculateTimedGain (R := R) (T := T)
      (s := { R.timedStart T start visited with cells := fun _ _ => none }) hlt hfree h.1 h.2.2
    exact ⟨hstored.lt, hstored.unvisited, hstored.toPid_lt, hstored.vertex, hstored.sourcePart,
      hstored.destinationPart, hstored.ne, hstored.gain, hstored.through⟩
  next => cases hcell

/-- The cut part of a gain does not change where no hyperedge is shared. -/
theorem cutScore_of_not_adjacent (hH : R.hgraph.Simple) {netDegs : Nat → Nat → Int}
    {u v less more fromPid toPid : Nat} (h : adjacent R.hgraph u v = false) :
    R.cutScore (R.shiftDegrees u less more netDegs) v fromPid toPid =
      R.cutScore netDegs v fromPid toPid := by
  rw [cutScore, cutScore]
  congr 1
  apply List.map_congr_left
  intro e he
  have hsame : R.shiftDegrees u less more netDegs e = netDegs e := by
    funext c
    rw [shiftDegrees_apply hH, if_neg, add_zero]
    intro hu
    rw [← Bool.not_eq_true] at h
    exact h (adjacent_iff.mpr ⟨e, hu, (hH.mem_edges v e).mp he⟩)
  unfold edgeScore connectivity
  rw [hsame]

theorem booked_accept (hH : R.hgraph.Simple) {start : Partitions} {s : TimedRefining d}
    (hs : Booked R T start s) (hforward : s.rollingBack = false) {toPid v : Nat} {cell : TimedGain}
    (hcell : s.cells toPid v = some cell) :
    Booked R T start (R.acceptKWayTimedMove T s cell) := by
  have hstored := hs.cells hforward toPid v cell hcell
  have hsource : cell.sourcePart = s.solution cell.vertex := by
    rw [hstored.sourcePart, hstored.vertex]
  refine ⟨?_, ?_, ⟨⟨?_, ?_, ?_, ?_⟩, hs.legal⟩, fun _ b u held hheld => ?_⟩
  · calc Function.update s.solution cell.vertex cell.destinationPart
        = Function.update (replayTimed start s.movesTrace) cell.vertex cell.destinationPart := by
          rw [hs.solution_eq]
      _ = replayTimed start (cell :: s.movesTrace) := rfl
  · calc R.shiftDegrees cell.vertex cell.sourcePart cell.destinationPart s.netDegs
        = R.shiftDegrees cell.vertex (s.solution cell.vertex) cell.destinationPart
            (R.degreesOf s.solution) := by rw [hsource, hs.netDegs]
      _ = R.degreesOf (Function.update s.solution cell.vertex cell.destinationPart) :=
          (degreesOf_update hH _ _ _).symm
  · rw [hstored.vertex]
    exact hstored.lt
  · rw [hsource, hs.solution_eq]
  · rw [hstored.sourcePart, hstored.destinationPart]
    exact hstored.ne
  · rw [hstored.destinationPart]
    exact hstored.toPid_lt
  · rw [acceptKWayTimedMove] at hheld
    dsimp only at hheld
    split at hheld
    next h =>
      -- a neighbor with a new gain
      obtain rfl := Option.some.inj hheld
      obtain ⟨hadjacent, hunvisited, -⟩ := mem_neighborsIn.mp h.2.1
      obtain ⟨e, -, hu⟩ := adjacent_iff.mp hadjacent
      have hnew := stored_calculateTimedGain (R := R) (T := T) (hH.vertex_lt e u hu) hunvisited h.1
        h.2.2
      exact ⟨hnew.lt, hnew.unvisited, hnew.toPid_lt, hnew.vertex, hnew.sourcePart,
        hnew.destinationPart, hnew.ne, hnew.gain, hnew.through⟩
    next hnot =>
      split at hheld
      next => cases hheld
      next hne =>
        -- a cell that stays: its vertex shares no hyperedge with the one that moved
        have hold := hs.cells hforward b u held hheld
        have hsolution : (R.acceptKWayTimedMove T s cell).solution u = s.solution u :=
          Function.update_of_ne hne _ _
        have hvisited : (R.acceptKWayTimedMove T s cell).visited u = s.visited u :=
          Function.update_of_ne hne _ _
        have hapart : adjacent R.hgraph cell.vertex u = false := by
          rw [← Bool.not_eq_true]
          intro hadjacent
          refine hnot ⟨hold.toPid_lt, mem_neighborsIn.mpr ⟨hadjacent, ?_, rfl⟩, ?_⟩
          · exact hvisited.trans hold.unvisited
          · exact fun heq => hold.ne (hsolution ▸ heq)
        refine ⟨hold.lt, hvisited.trans hold.unvisited, hold.toPid_lt, hold.vertex,
          hold.sourcePart.trans hsolution.symm, hold.destinationPart, hsolution ▸ hold.ne, ?_,
          hold.through⟩
        rw [hold.gain, hsolution]
        congr 1
        exact (cutScore_of_not_adjacent hH hapart).symm

theorem replay_rollBack {start : Partitions} {cell : TimedGain} {trace : List TimedGain}
    (hsource : cell.sourcePart = replayTimed start trace cell.vertex) :
    Function.update (replayTimed start (cell :: trace)) cell.vertex cell.sourcePart =
      replayTimed start trace := by
  rw [replayTimed, Function.update_idem, hsource, Function.update_eq_self]

theorem booked_rollBack (hH : R.hgraph.Simple) {start : Partitions} {s : TimedRefining d}
    (hs : Booked R T start s) {cell : TimedGain} {trace : List TimedGain}
    (htrace : s.movesTrace = cell :: trace) :
    Booked R T start
      { R.rollBackTimedGain s cell with movesTrace := trace, rollingBack := true } := by
  have hlegal := hs.legal
  rw [htrace] at hlegal
  obtain ⟨⟨-, hsource, -, -⟩, hlegal⟩ := hlegal
  have hsolution : s.solution = replayTimed start (cell :: trace) := by
    rw [hs.solution_eq, htrace]
  have hback : Function.update s.solution cell.vertex cell.sourcePart =
      replayTimed start trace := by
    rw [hsolution]
    exact replay_rollBack hsource
  have hmoved : s.solution cell.vertex = cell.destinationPart := by
    rw [hsolution, replayTimed, Function.update_self]
  refine ⟨hback, ?_, hlegal, fun h => absurd h (by simp)⟩
  calc R.shiftDegrees cell.vertex cell.destinationPart cell.sourcePart s.netDegs
      = R.shiftDegrees cell.vertex (s.solution cell.vertex) cell.sourcePart
          (R.degreesOf s.solution) := by rw [hs.netDegs, hmoved]
    _ = R.degreesOf (Function.update s.solution cell.vertex cell.sourcePart) :=
        (degreesOf_update hH _ _ _).symm

theorem booked_step (hH : R.hgraph.Simple) {start : Partitions} {s s' : TimedRefining d}
    {o : TimedStep} (hs : Booked R T start s) (h : R.timedStep T s o = some s') :
    Booked R T start s' := by
  cases o with
  | accept toPid v =>
      rw [timedStep] at h
      split at h
      next => cases h
      next hforward =>
        obtain ⟨cell, hcell, rfl⟩ := Option.map_eq_some_iff.mp h
        exact booked_accept hH hs (Bool.not_eq_true _ ▸ hforward) hcell
  | rollBack =>
      rw [timedStep] at h
      split at h
      next => cases h
      next cell trace htrace =>
        obtain rfl := Option.some.inj h
        exact booked_rollBack hH hs htrace

/-! ### One accepted move -/

theorem sum_range_eq_dedup {n : Nat} {l : List Nat} {f : Nat → ℚ} (hlt : ∀ p ∈ l, p < n)
    (hzero : ∀ p < n, p ∉ l → f p = 0) : ((List.range n).map f).sum = (l.dedup.map f).sum := by
  calc ((List.range n).map f).sum = ∑ p ∈ Finset.range n, f p := Hypergraph.sum_map_range f n
    _ = ∑ p ∈ l.dedup.toFinset, f p := by
        symm
        apply Finset.sum_subset
        · intro p hp
          exact Finset.mem_range.mpr (hlt p (List.mem_dedup.mp (List.mem_toFinset.mp hp)))
        · intro p hp hnot
          refine hzero p (Finset.mem_range.mp hp) fun hl => hnot ?_
          exact List.mem_toFinset.mpr (List.mem_dedup.mpr hl)
    _ = (l.dedup.map f).sum := List.sum_toFinset f (List.nodup_dedup l)

section Accept

variable {start : Partitions} {s : TimedRefining d} {toPid v : Nat} {cell : TimedGain}

theorem deltaPathCost_eq
    (hcosts : ∀ pathId < T.paths.length, s.curPathsCost pathId = T.pathCost pathId s.solution)
    {pathId : Nat} (hlt : pathId < T.paths.length) :
    deltaPathCost T s v toPid pathId =
      T.pathCost pathId (Function.update s.solution v toPid) - T.pathCost pathId s.solution := by
  rw [deltaPathCost, Timing.calculatePathCost_eq, hcosts pathId hlt]

/-- The decrease of the cost by a move. -/
theorem timedCost_decrease (hH : R.hgraph.Simple)
    (hrange : ∀ v < R.hgraph.numVertices, s.solution v < R.numParts)
    (hdegs : s.netDegs = R.degreesOf s.solution)
    (hcosts : ∀ pathId < T.paths.length, s.curPathsCost pathId = T.pathCost pathId s.solution)
    (hne : s.solution v ≠ toPid) :
    R.timedCost T s.solution - R.timedCost T (Function.update s.solution v toPid) =
      R.cutScore s.netDegs v (s.solution v) toPid -
        ((T.timingPathsThrough v).dedup.map (deltaPathCost T s v toPid)).sum := by
  have hcut : R.cutScore s.netDegs v (s.solution v) toPid =
      R.hgraph.cutCost R.eWtFactors s.solution -
        R.hgraph.cutCost R.eWtFactors (Function.update s.solution v toPid) := by
    rw [← calculateVertexGain_exact hH hrange hne, hdegs]
    exact (if_neg hne).symm
  have hpaths : ((T.timingPathsThrough v).dedup.map (deltaPathCost T s v toPid)).sum =
      ((List.range T.paths.length).map fun pathId =>
        T.pathCost pathId (Function.update s.solution v toPid)).sum -
      ((List.range T.paths.length).map fun pathId => T.pathCost pathId s.solution).sum := by
    have hlt : ∀ pathId ∈ T.timingPathsThrough v, pathId < T.paths.length :=
      fun pathId h => (Timing.mem_timingPathsThrough.mp h).1
    rw [← sum_range_eq_dedup hlt, Hypergraph.sum_map_range, Hypergraph.sum_map_range,
      Hypergraph.sum_map_range, ← Finset.sum_sub_distrib]
    · apply Finset.sum_congr rfl
      intro pathId hmem
      exact deltaPathCost_eq hcosts (Finset.mem_range.mp hmem)
    · intro pathId hlt hnot
      rw [deltaPathCost_eq hcosts hlt, Timing.pathCost_update_of_notMem hnot, sub_self]
  rw [hcut, hpaths, timedCost, timedCost]
  abel

/-- The changes in a cell are those of the move just when they are what would be computed now. -/
theorem pathCost_eq_iff (hstored : Stored R T s toPid v cell)
    (hcosts : ∀ pathId < T.paths.length, s.curPathsCost pathId = T.pathCost pathId s.solution) :
    cell.pathCost = (R.calculateTimedGain T s v toPid).pathCost ↔
      ∀ pathId < T.paths.length, (cell.pathCost pathId).getD 0 =
        T.pathCost pathId (Function.update s.solution v toPid) -
          T.pathCost pathId s.solution := by
  have hnow := calculateTimedGain_pathCost (R := R) (T := T) hstored.ne
  constructor
  · intro heq pathId hlt
    rw [heq, hnow]
    split
    next => exact deltaPathCost_eq hcosts hlt
    next hnot => rw [Timing.pathCost_update_of_notMem hnot, sub_self, Option.getD_none]
  · intro h
    funext pathId
    rw [hnow]
    by_cases hmem : pathId ∈ T.timingPathsThrough v
    · obtain ⟨delta, hdelta⟩ := Option.isSome_iff_exists.mp ((hstored.through pathId).mpr hmem)
      have hlt := (Timing.mem_timingPathsThrough.mp hmem).1
      have hvalue := h pathId hlt
      rw [hdelta, Option.getD_some, ← deltaPathCost_eq hcosts hlt] at hvalue
      rw [if_pos hmem, hdelta, hvalue]
    · rw [if_neg hmem]
      exact Option.not_isSome_iff_eq_none.mp fun hsome => hmem ((hstored.through pathId).mp hsome)

/-- From an exact state an accepted move leads to an exact state just when its gain is fresh. -/
theorem exact_accept_iff (hH : R.hgraph.Simple)
    (hrange : ∀ v < R.hgraph.numVertices, s.solution v < R.numParts)
    (hs : Booked R T start s) (hexact : R.TimingExact T start s)
    (hstored : Stored R T s toPid v cell) :
    R.TimingExact T start (R.acceptKWayTimedMove T s cell) ↔
      cell.pathCost = (R.calculateTimedGain T s v toPid).pathCost ∧
        ((T.timingPathsThrough v).map (deltaPathCost T s v toPid)).sum =
          ((T.timingPathsThrough v).dedup.map (deltaPathCost T s v toPid)).sum := by
  have hcosts := hexact.pathsCost
  have hafter : replayTimed start (cell :: s.movesTrace) = Function.update s.solution v toPid := by
    rw [replayTimed, ← hs.solution_eq, hstored.vertex, hstored.destinationPart]
  have hsolution : (R.acceptKWayTimedMove T s cell).solution =
      Function.update s.solution v toPid := by
    rw [← hstored.vertex, ← hstored.destinationPart]
    rfl
  have hdecrease := timedCost_decrease hH hrange hs.netDegs hcosts hstored.ne
  have hmove : R.MovesExact T start (cell :: s.movesTrace) ↔
      cell.gain = R.cutScore s.netDegs v (s.solution v) toPid -
          ((T.timingPathsThrough v).dedup.map (deltaPathCost T s v toPid)).sum ∧
        cell.pathCost = (R.calculateTimedGain T s v toPid).pathCost := by
    rw [pathCost_eq_iff hstored hcosts, ← hdecrease, MovesExact, hafter, ← hs.solution_eq]
    exact and_iff_left hexact.moves
  have hgain : cell.pathCost = (R.calculateTimedGain T s v toPid).pathCost →
      cell.gain = R.cutScore s.netDegs v (s.solution v) toPid -
        ((T.timingPathsThrough v).map (deltaPathCost T s v toPid)).sum := by
    intro heq
    rw [hstored.gain]
    congr 2
    apply List.map_congr_left
    intro pathId hmem
    rw [heq, calculateTimedGain_pathCost hstored.ne, if_pos hmem, Option.getD_some]
  constructor
  · intro h
    obtain ⟨hvalue, heq⟩ := hmove.mp h.moves
    exact ⟨heq, sub_right_injective ((hgain heq).symm.trans hvalue)⟩
  · rintro ⟨heq, hsum⟩
    refine ⟨fun pathId hlt => ?_, hmove.mpr ⟨(hgain heq).trans (by rw [hsum]), heq⟩⟩
    have hdelta := (pathCost_eq_iff hstored hcosts).mp heq pathId hlt
    calc (R.acceptKWayTimedMove T s cell).curPathsCost pathId
        = s.curPathsCost pathId + (cell.pathCost pathId).getD 0 := rfl
      _ = T.pathCost pathId (Function.update s.solution v toPid) := by
          rw [hdelta, hcosts pathId hlt, add_sub_cancel]
      _ = T.pathCost pathId (R.acceptKWayTimedMove T s cell).solution := by rw [hsolution]

end Accept

/-- Rolling a move back restores the path costs before it. -/
theorem exact_rollBack {start : Partitions} {s : TimedRefining d} (hs : Booked R T start s)
    (hexact : R.TimingExact T start s) {cell : TimedGain} {trace : List TimedGain}
    (htrace : s.movesTrace = cell :: trace) :
    R.TimingExact T start
      { R.rollBackTimedGain s cell with movesTrace := trace, rollingBack := true } := by
  have hmoves := hexact.moves
  have hlegal := hs.legal
  rw [htrace] at hmoves hlegal
  have hback : Function.update s.solution cell.vertex cell.sourcePart =
      replayTimed start trace := by
    rw [hs.solution_eq, htrace]
    exact replay_rollBack hlegal.1.2.1
  refine ⟨fun pathId hlt => ?_, hmoves.2⟩
  calc s.curPathsCost pathId - (cell.pathCost pathId).getD 0
      = T.pathCost pathId (replayTimed start trace) := by
        rw [hexact.pathsCost pathId hlt, hmoves.1.2 pathId hlt, hs.solution_eq, htrace,
          sub_sub_cancel]
    _ = T.pathCost pathId (Function.update s.solution cell.vertex cell.sourcePart) := by rw [hback]

/-! ### A pass -/

theorem exact_step_iff (hH : R.hgraph.Simple) {start : Partitions}
    (hrange : ∀ v < R.hgraph.numVertices, start v < R.numParts) {s s' : TimedRefining d}
    {o : TimedStep} (hs : Booked R T start s) (hexact : R.TimingExact T start s)
    (h : R.timedStep T s o = some s') : R.TimingExact T start s' ↔ R.AcceptsFresh T s o := by
  cases o with
  | accept toPid v =>
      rw [timedStep] at h
      split at h
      next => cases h
      next hforward =>
        obtain ⟨cell, hcell, rfl⟩ := Option.map_eq_some_iff.mp h
        have hnow : ∀ v < R.hgraph.numVertices, s.solution v < R.numParts := by
          rw [hs.solution_eq]
          exact hs.legal.replay_lt hrange
        have hstored := hs.cells (Bool.not_eq_true _ ▸ hforward) toPid v cell hcell
        rw [exact_accept_iff hH hnow hs hexact hstored]
        constructor
        · intro hfresh held hheld
          obtain rfl := Option.some.inj (hcell.symm.trans hheld)
          exact hfresh
        · intro hfresh
          exact hfresh cell hcell
  | rollBack =>
      rw [timedStep] at h
      split at h
      next => cases h
      next cell trace htrace =>
        obtain rfl := Option.some.inj h
        exact iff_of_true (exact_rollBack hs hexact htrace) trivial

/-- **In every state of a pass the path costs are those of the solution and the recorded gains are
the decreases of the cost, exactly when every accepted candidate is fresh.** -/
theorem timedPass_exact_iff {hyperedges : List (List Nat)} {vertexWeights : List (Weights d)}
    {hyperedgeWeights : List (Weights k)} {fixedAttr : List Int}
    (hrows : Hypergraph.Rows hyperedges vertexWeights hyperedgeWeights)
    (hgraph : R.hgraph = .make hyperedges vertexWeights hyperedgeWeights fixedAttr)
    {start : Partitions} (hrange : ∀ v < R.hgraph.numVertices, start v < R.numParts)
    (visited : Nat → Bool) {steps : List TimedStep}
    (hrun : (Run.run (R.timedStep T) (R.timedStart T start visited) steps).isSome) :
    (∀ done, done <+: steps → ∀ s, Run.run (R.timedStep T) (R.timedStart T start visited) done =
        some s → R.TimingExact T start s) ↔
      Run.Along (R.timedStep T) (R.AcceptsFresh T) (R.timedStart T start visited) steps := by
  have hH : R.hgraph.Simple := by
    rw [hgraph]
    exact hrows.simple fixedAttr
  have hstep : ∀ s o s', Booked R T start s ∧ R.TimingExact T start s →
      R.timedStep T s o = some s' →
      (Booked R T start s' ∧ R.TimingExact T start s' ↔ R.AcceptsFresh T s o) := by
    rintro s o s' ⟨hs, hexact⟩ h
    rw [and_iff_right (booked_step hH hs h)]
    exact exact_step_iff hH hrange hs hexact h
  have hstart : Booked R T start (R.timedStart T start visited) := booked_start start visited
  rw [← Run.forall_prefix_iff_along hstep ⟨hstart, fun _ _ => rfl, trivial⟩ hrun]
  constructor
  · intro h done hdone s hs
    exact ⟨Run.run_invariant_of_step (fun _ _ _ => booked_step hH) hstart hs, h done hdone s hs⟩
  · intro h done hdone s hs
    exact (h done hdone s hs).2

end Refiner

/-! ### A gain that a path makes stale -/

/-- Two free vertices at the ends of a path over a fixed one; they share no hyperedge. -/
def pathEnds : Refiner 1 1 where
  hgraph := .make [[0, 1], [1, 2]] (List.replicate 3 fun _ => 1) (List.replicate 2 fun _ => 1)
    [-1, 1, -1]
  numParts := 2
  maxMove := 2
  totalCorkingPasses := 25
  eWtFactors _ := 1
  upper _ _ := 3
  lower _ _ := 0

def endsTiming : Timing where
  paths := [[0, 1, 2]]
  pathTimingCost _ := 1
  pathTimingFactor := 1
  pathSnakingFactor := 1

def endsApart : Partitions := fun v => if v = 1 then 1 else 0

def endsFixed : Nat → Bool := fun v => v = 1

open Refiner

theorem pathEnds_exact_iff :
    (∀ done, done <+: [TimedStep.accept 1 0, .rollBack] → ∀ s,
        Run.run (pathEnds.timedStep endsTiming) (pathEnds.timedStart endsTiming endsApart endsFixed)
          done = some s → pathEnds.TimingExact endsTiming endsApart s) ↔
      Run.Along (pathEnds.timedStep endsTiming) (pathEnds.AcceptsFresh endsTiming)
        (pathEnds.timedStart endsTiming endsApart endsFixed) [.accept 1 0, .rollBack] := by
  have hrows : Hypergraph.Rows [[0, 1], [1, 2]] (List.replicate 3 fun _ : Fin 1 => (1 : ℚ))
      (List.replicate 2 fun _ : Fin 1 => (1 : ℚ)) := ⟨rfl, by decide, by decide⟩
  exact timedPass_exact_iff hrows rfl (by decide) endsFixed (by decide +kernel)

/-- Both ends are moved: the gain of the second was computed before the first one moved, and the
cost that is kept for the path is negative. -/
theorem not_timingExact_pass :
    ∃ s, Run.run (pathEnds.timedStep endsTiming)
        (pathEnds.timedStart endsTiming endsApart endsFixed) [.accept 1 0, .accept 1 2] = some s ∧
      s.curPathsCost 0 = -1 ∧ endsTiming.pathCost 0 s.solution = 0 := by
  refine ⟨_, rfl, ?_, ?_⟩
  · decide +kernel
  · decide +kernel

end OpenRoad.Par
