import OpenRoad.IndexedHeap
import OpenRoad.ParHypergraph
import Mathlib.Data.List.Sort

/-!
The priority queue of vertex gains: a bucket holds the gains of moving vertices into one block. The
heap is ordered by gain; of two equal gains the one of the lighter vertex counts as larger.
-/

namespace OpenRoad.Par

open IndexedHeap

variable {d k : Nat}

/-- `VertexGain`, without paths. The dummy gain of no vertex is `none` of an `Option`. -/
structure VertexGain where
  vertex : Nat
  sourcePart : Nat
  destinationPart : Nat
  gain : ℚ
  deriving DecidableEq, Inhabited

/-- `operator<` of weights: less in each dimension. -/
def Weights.less (a b : Weights d) : Bool := decide (∀ i, a i < b i)

/-- The lexicographic `operator<` of the standard library. -/
def Weights.lexLess (a b : Weights d) : Bool := decide (List.ofFn a < List.ofFn b)

/-- `CompareElementLargeThan` -/
def ranking (H : Hypergraph d k) : Ranking VertexGain ℚ where
  key := VertexGain.vertex
  prio := VertexGain.gain
  larger x y := decide (y.gain < x.gain) ||
    (decide (x.gain = y.gain) && (H.vertexWeight x.vertex).less (H.vertexWeight y.vertex))
  prio_le_of_larger x y h := by
    rw [Bool.or_eq_true, Bool.and_eq_true, decide_eq_true_eq, decide_eq_true_eq] at h
    rcases h with hlt | ⟨heq, -⟩
    · exact le_of_lt hlt
    · exact le_of_eq heq.symm
  prio_le_of_not_larger x y h := by
    rw [Bool.or_eq_false_iff, decide_eq_false_iff_not] at h
    exact not_lt.mp h.1

/-- `PriorityQueue` -/
structure PriorityQueue where
  active : Bool
  heap : Heap VertexGain

namespace PriorityQueue

/-- The queue that `Clear` leaves. -/
def empty : PriorityQueue := ⟨false, ⟨fun _ => default, 0, fun _ => none⟩⟩

section

variable (H : Hypergraph d k) (q : PriorityQueue)

def insertIntoPQ (element : VertexGain) : PriorityQueue :=
  { q with heap := q.heap.push (ranking H) element }

/-- `GetMax`; the queue is not empty. -/
def getMax : VertexGain := q.heap.entries 0

/-- `Remove`: the gain of the vertex is made the greatest, and the root extracted. -/
def remove (vertexId : Nat) : PriorityQueue :=
  match q.heap.position vertexId with
  | none => q
  | some index =>
      let raised := { q.heap.entries index with gain := q.getMax.gain + 1 }
      let heap := ((q.heap.replace index raised).heapifyUp (ranking H) index).extractMax (ranking H)
      { active := if heap.count = 0 then false else q.active, heap := heap }

def changePriority (vertexId : Nat) (newElement : VertexGain) : PriorityQueue :=
  match q.heap.position vertexId with
  | none => q
  | some index =>
      let replaced := q.heap.replace index newElement
      if (q.heap.entries index).gain < newElement.gain then
        { q with heap := replaced.heapifyUp (ranking H) index }
      else { q with heap := replaced.heapifyDown (ranking H) index }

/-- The balance test of `GetBestCandidate`. -/
def checkBalance (balance upper lower : Nat → Weights d) (element : VertexGain) : Bool :=
  (balance element.destinationPart + H.vertexWeight element.vertex).less
      (upper element.destinationPart) &&
    (lower element.sourcePart).lexLess
      (balance element.sourcePart - H.vertexWeight element.vertex)

/-- The walk of `GetBestCandidate` down the heap, for the passes that are left. -/
def traverse (balance upper lower : Nat → Weights d) : Nat → Nat → Option VertexGain
  | 0, _ => none
  | pass + 1, index =>
      let left := 2 * index + 1
      let right := 2 * index + 2
      let check (i : Nat) : Bool :=
        i < q.heap.count && checkBalance H balance upper lower (q.heap.entries i)
      let larger (i j : Nat) : Bool := (ranking H).larger (q.heap.entries i) (q.heap.entries j)
      if check right && (!check left || larger right left) then some (q.heap.entries right)
      else if check left then some (q.heap.entries left)
      else if q.heap.count ≤ left ∨ q.heap.count ≤ right then none
      else traverse balance upper lower pass (if larger right left then right else left)

/-- `GetBestCandidate` -/
def getBestCandidate (maximumTraverseLevel : Nat) (balance upper lower : Nat → Weights d) :
    Option VertexGain :=
  if q.heap.count = 0 then none
  else if checkBalance H balance upper lower (q.heap.entries 0) then some (q.heap.entries 0)
  else q.traverse H balance upper lower maximumTraverseLevel 0

/-- The gain that the queue holds for a vertex. -/
def lookup (v : Nat) : Option VertexGain := q.heap.lookup v

/-! ### What the operations do -/

/-- The heap is right, and an active queue is not empty. -/
structure Good : Prop where
  valid : q.heap.Valid (ranking H)
  ordered : q.heap.Ordered (ranking H)
  pos_of_active : q.active = true → 0 < q.heap.count

end

variable {H : Hypergraph d k} {q : PriorityQueue}

theorem good_empty : empty.Good H where
  valid := ⟨fun i hi => absurd hi (Nat.not_lt_zero i), fun s i hs => by cases hs⟩
  ordered i _ hi := absurd hi (Nat.not_lt_zero i)
  pos_of_active h := by cases h

theorem Good.lookup_entries (hq : q.Good H) {i : Nat} (hi : i < q.heap.count) :
    q.lookup (q.heap.entries i).vertex = some (q.heap.entries i) :=
  hq.valid.lookup_eq_some.mpr ⟨i, hi, rfl, rfl⟩

theorem Good.insertIntoPQ (hq : q.Good H) {element : VertexGain}
    (hnew : q.lookup element.vertex = none) :
    (q.insertIntoPQ H element).Good H ∧
      (q.insertIntoPQ H element).lookup =
        Function.update q.lookup element.vertex (some element) := by
  obtain ⟨hvalid, hordered, hcount, hlookup⟩ := Heap.push_spec hq.valid hq.ordered hnew
  refine ⟨⟨hvalid, hordered, fun _ => ?_⟩, hlookup⟩
  have hcount' : (q.insertIntoPQ H element).heap.count = q.heap.count + 1 := hcount
  rw [hcount']
  exact Nat.succ_pos _

theorem Good.remove (hq : q.Good H) (v : Nat) :
    (q.remove H v).Good H ∧ (q.remove H v).lookup = Function.update q.lookup v none := by
  unfold PriorityQueue.remove
  cases hposition : q.heap.position v with
  | none =>
      refine ⟨hq, ?_⟩
      have hnone : q.lookup v = none := by
        unfold lookup Heap.lookup
        rw [hposition]
        rfl
      rw [← hnone]
      exact (Function.update_eq_self v q.lookup).symm
  | some index =>
      obtain ⟨hi, hkey⟩ := hq.valid.positioned v index hposition
      have hgreatest : ∀ j < q.heap.count,
          (q.heap.entries j).gain < q.getMax.gain + 1 := by
        intro j hj
        exact lt_of_le_of_lt (hq.ordered.le_root hj) (lt_add_one _)
      have hkeys : (ranking H).key { q.heap.entries index with gain := q.getMax.gain + 1 } =
          (ranking H).key (q.heap.entries index) := rfl
      dsimp only
      rw [hq.valid.replace_eq_place hi hkeys]
      obtain ⟨hvalid, hordered, hcount, hlookup⟩ :=
        Heap.place_extractMax_spec hq.valid hq.ordered hi hkeys hgreatest
      refine ⟨⟨hvalid, hordered, fun hactive => ?_⟩, ?_⟩
      · dsimp only at hactive ⊢
        split at hactive
        · cases hactive
        · rename_i hne
          exact Nat.pos_of_ne_zero hne
      · rw [← hkey]
        exact hlookup

theorem Good.changePriority (hq : q.Good H) {v : Nat} {element old : VertexGain}
    (hold : q.lookup v = some old) (hvertex : element.vertex = v) :
    (q.changePriority H v element).Good H ∧
      (q.changePriority H v element).lookup = Function.update q.lookup v (some element) := by
  unfold PriorityQueue.changePriority
  cases hposition : q.heap.position v with
  | none =>
      unfold lookup Heap.lookup at hold
      rw [hposition] at hold
      cases hold
  | some index =>
      obtain ⟨hi, hkey⟩ := hq.valid.positioned v index hposition
      have hkeys : (ranking H).key element = (ranking H).key (q.heap.entries index) :=
        hvertex.trans hkey.symm
      dsimp only
      rw [hq.valid.replace_eq_place hi hkeys]
      split
      · rename_i hlt
        obtain ⟨hvalid, hordered, hcount, hlookup⟩ :=
          Heap.place_up_spec hq.valid hq.ordered hi hkeys (le_of_lt hlt)
        refine ⟨⟨hvalid, hordered, fun hactive => ?_⟩, ?_⟩
        · dsimp only
          rw [hcount]
          exact hq.pos_of_active hactive
        · rw [← hvertex]
          exact hlookup
      · rename_i hle
        obtain ⟨hvalid, hordered, hcount, hlookup⟩ :=
          Heap.place_down_spec hq.valid hq.ordered hi hkeys (not_lt.mp hle)
        refine ⟨⟨hvalid, hordered, fun hactive => ?_⟩, ?_⟩
        · dsimp only
          rw [hcount]
          exact hq.pos_of_active hactive
        · rw [← hvertex]
          exact hlookup

/-- A candidate is one of the gains of the queue. -/
theorem traverse_lookup (hq : q.Good H) {balance upper lower : Nat → Weights d}
    {pass index : Nat} {cell : VertexGain}
    (h : q.traverse H balance upper lower pass index = some cell) :
    q.lookup cell.vertex = some cell := by
  induction pass generalizing index with
  | zero => cases h
  | succ pass ih =>
      have hcheck : ∀ i, (decide (i < q.heap.count) &&
          checkBalance H balance upper lower (q.heap.entries i)) = true → i < q.heap.count := by
        intro i hi
        rw [Bool.and_eq_true] at hi
        exact of_decide_eq_true hi.1
      rw [traverse] at h
      dsimp only at h
      split at h
      · rename_i hright
        obtain rfl := Option.some.inj h
        rw [Bool.and_eq_true] at hright
        exact hq.lookup_entries (hcheck _ hright.1)
      · split at h
        · rename_i hleft
          obtain rfl := Option.some.inj h
          exact hq.lookup_entries (hcheck _ hleft)
        · split at h
          · cases h
          · exact ih h

theorem getBestCandidate_lookup (hq : q.Good H) {level : Nat}
    {balance upper lower : Nat → Weights d} {cell : VertexGain}
    (h : q.getBestCandidate H level balance upper lower = some cell) :
    q.lookup cell.vertex = some cell := by
  unfold getBestCandidate at h
  split at h
  · cases h
  · rename_i hne
    split at h
    · obtain rfl := Option.some.inj h
      exact hq.lookup_entries (Nat.pos_of_ne_zero hne)
    · exact traverse_lookup hq h

end PriorityQueue

end OpenRoad.Par

/-!
The refinement of a partition by moving single vertices (FM), directly between all blocks and
between the two blocks of a pair. The work that the source gives to one thread for each block is done
block after block; the threads touch different buckets.
-/

namespace OpenRoad.Par

variable {d k : Nat}

/-- What a refiner is given: the hypergraph, the number of blocks, the limits of a pass, the weight
factors of the evaluator and the bounds of the balance. -/
structure Refiner (d k : Nat) where
  hgraph : Hypergraph d k
  numParts : Nat
  maxMove : Nat
  totalCorkingPasses : Nat
  eWtFactors : Weights k
  upper : Nat → Weights d
  lower : Nat → Weights d

/-- What a pass changes. The trace holds the moves with the last one first. -/
structure Refining (d : Nat) where
  buckets : Nat → PriorityQueue
  movesTrace : List VertexGain
  totalDeltaGain : ℚ
  visited : Nat → Bool
  solution : Partitions
  blockBalance : Nat → Weights d
  netDegs : Nat → Nat → Int

namespace Refiner

variable (R : Refiner d k)

/-! ### Vertices that may move -/

/-- How many blocks a hyperedge connects. -/
def connectivity (netDegs : Nat → Nat → Int) (e : Nat) : Nat :=
  ((List.range R.numParts).filter fun b => decide (0 < netDegs e b)).length

/-- The vertices that are not visited and have a boundary hyperedge. -/
def verticesOn (boundaryNet : Nat → Bool) (visited : Nat → Bool) : List Nat :=
  (List.range R.hgraph.numVertices).filter fun v =>
    !visited v && (R.hgraph.edges v).any boundaryNet

/-- `FindBoundaryVertices` -/
def findBoundaryVertices (netDegs : Nat → Nat → Int) (visited : Nat → Bool) : List Nat :=
  R.verticesOn (fun e => decide (2 ≤ R.connectivity netDegs e)) visited

/-- `FindBoundaryVertices` for two blocks. -/
def findBoundaryVerticesPair (netDegs : Nat → Nat → Int) (visited : Nat → Bool)
    (pair : Nat × Nat) : List Nat :=
  R.verticesOn (fun e => decide (0 < netDegs e pair.1 ∧ 0 < netDegs e pair.2)) visited

/-- The vertices that share a hyperedge with a vertex, are not visited and are in certain blocks. -/
def neighborsIn (inBlocks : Nat → Bool) (visited : Nat → Bool) (solution : Partitions)
    (vertexId : Nat) : List Nat :=
  (((R.hgraph.edges vertexId).flatMap R.hgraph.vertices).filter fun v =>
    !visited v && inBlocks (solution v)).dedup.insertionSort (· ≤ ·)

/-- `FindNeighbors` -/
def findNeighbors (s : Refining d) (vertexId : Nat) : List Nat :=
  R.neighborsIn (fun _ => true) s.visited s.solution vertexId

/-- `FindNeighbors` for two blocks. -/
def findNeighborsPair (pair : Nat × Nat) (s : Refining d) (vertexId : Nat) : List Nat :=
  R.neighborsIn (fun b => decide (b = pair.1 ∨ b = pair.2)) s.visited s.solution vertexId

/-! ### Moving a vertex -/

/-- What one hyperedge contributes to the gain of a move. -/
def edgeScore (netDegs : Nat → Nat → Int) (fromPid toPid e : Nat) : ℚ :=
  if R.connectivity netDegs e = 1 ∧ 1 < netDegs e fromPid then
    -R.hgraph.hyperedgeCost R.eWtFactors e
  else if R.connectivity netDegs e = 2 ∧ netDegs e fromPid = 1 ∧ 0 < netDegs e toPid then
    R.hgraph.hyperedgeCost R.eWtFactors e
  else 0

/-- `CalculateVertexGain`, without paths. -/
def calculateVertexGain (netDegs : Nat → Nat → Int) (v fromPid toPid : Nat) : VertexGain where
  vertex := v
  sourcePart := fromPid
  destinationPart := toPid
  gain :=
    if fromPid = toPid then 0
    else ((R.hgraph.edges v).map (R.edgeScore netDegs fromPid toPid)).sum

/-- Change the degrees of the hyperedges of a vertex in two blocks. -/
def shiftDegrees (v : Nat) (less more : Nat) (netDegs : Nat → Nat → Int) : Nat → Nat → Int :=
  (R.hgraph.edges v).foldl (fun degs e =>
    let taken := Function.update (degs e) less (degs e less - 1)
    Function.update degs e (Function.update taken more (taken more + 1))) netDegs

/-- `AcceptVertexGain` -/
def acceptVertexGain (s : Refining d) (cell : VertexGain) : Refining d :=
  let v := cell.vertex
  let w := R.hgraph.vertexWeight v
  let taken := Function.update s.blockBalance cell.sourcePart (s.blockBalance cell.sourcePart - w)
  { s with
    visited := Function.update s.visited v true
    totalDeltaGain := s.totalDeltaGain + cell.gain
    solution := Function.update s.solution v cell.destinationPart
    blockBalance :=
      Function.update taken cell.destinationPart (taken cell.destinationPart + w)
    netDegs := R.shiftDegrees v cell.sourcePart cell.destinationPart s.netDegs }

/-- `RollBackVertexGain` -/
def rollBackVertexGain (s : Refining d) (cell : VertexGain) : Refining d :=
  let v := cell.vertex
  let w := R.hgraph.vertexWeight v
  let given := Function.update s.blockBalance cell.sourcePart (s.blockBalance cell.sourcePart + w)
  { s with
    visited := Function.update s.visited v false
    solution := Function.update s.solution v cell.sourcePart
    blockBalance :=
      Function.update given cell.destinationPart (given cell.destinationPart - w)
    netDegs := R.shiftDegrees v cell.destinationPart cell.sourcePart s.netDegs }

/-- `CheckVertexMoveLegality` -/
def checkVertexMoveLegality (blockBalance : Nat → Weights d) (v toPid fromPid : Nat) : Bool :=
  !(R.upper toPid).lexLess (blockBalance toPid + R.hgraph.vertexWeight v) &&
    !(blockBalance fromPid - R.hgraph.vertexWeight v).lexLess (R.lower fromPid)

/-! ### Buckets -/

/-- `InitializeSingleGainBucket` -/
def initializeSingleGainBucket (toPid : Nat) (boundary : List Nat) (s : Refining d) :
    Refining d :=
  let filled := boundary.foldl (fun bucket v =>
    if s.solution v = toPid then bucket
    else bucket.insertIntoPQ R.hgraph (R.calculateVertexGain s.netDegs v (s.solution v) toPid))
    { s.buckets toPid with active := true }
  { s with
    buckets := Function.update s.buckets toPid
      (if filled.heap.count = 0 then { filled with active := false } else filled) }

/-- `UpdateSingleGainBucket` -/
def updateSingleGainBucket (toPid : Nat) (neighbors : List Nat) (s : Refining d) : Refining d :=
  { s with
    buckets := Function.update s.buckets toPid (neighbors.foldl (fun bucket v =>
      if s.solution v = toPid then bucket
      else
        let cell := R.calculateVertexGain s.netDegs v (s.solution v) toPid
        if (bucket.heap.position v).isSome then bucket.changePriority R.hgraph v cell
        else bucket.insertIntoPQ R.hgraph cell) (s.buckets toPid)) }

/-- `numeric_limits<float>::max()` -/
def floatMax : ℚ := (2 ^ 24 - 1) * 2 ^ 104

/-- The gain of a candidate, that of the dummy if there is none. -/
def candidateGain (candidate : Option VertexGain) : ℚ :=
  (candidate.map VertexGain.gain).getD (-floatMax)

/-- One bucket in the loop of `PickMoveKWay`: the candidate so far, and the bucket of the best
gain. -/
def considerBucket (s : Refining d) (acc : Option VertexGain × ℚ × Option Nat) (i : Nat) :
    Option VertexGain × ℚ × Option Nat :=
  if (s.buckets i).active = false then acc
  else
    let ele := (s.buckets i).getMax
    (if candidateGain acc.1 < ele.gain ∧
        R.checkVertexMoveLegality s.blockBalance ele.vertex i ele.sourcePart = true then some ele
      else acc.1,
    if acc.2.1 < ele.gain then (ele.gain, some i) else acc.2)

/-- `PickMoveKWay` -/
def pickMoveKWay (s : Refining d) : Option VertexGain :=
  let acc := (List.range R.numParts).foldl (R.considerBucket s) (none, -floatMax, none)
  match acc.1, acc.2.2 with
  | some candidate, _ => some candidate
  | none, none => none
  | none, some bestToPid =>
      (s.buckets bestToPid).getBestCandidate R.hgraph R.totalCorkingPasses s.blockBalance R.upper
        R.lower

/-- `AcceptKWayMove` -/
def acceptKWayMove (s : Refining d) (cell : VertexGain) : Refining d :=
  let accepted := R.acceptVertexGain { s with movesTrace := cell :: s.movesTrace } cell
  { accepted with
    buckets := fun i =>
      if i < R.numParts then (accepted.buckets i).remove R.hgraph cell.vertex
      else accepted.buckets i }

/-! ### A pass -/

/-- The best gain so far, and the vertex whose move reached it. -/
structure Best where
  gain : ℚ
  vertexId : Option Nat

/-- One move: the gains of the neighbors are updated in the buckets of the blocks. -/
def moveStep (blocks : List Nat) (neighbors : Refining d → Nat → List Nat) (s : Refining d)
    (cell : VertexGain) : Refining d :=
  let accepted := R.acceptKWayMove s cell
  blocks.foldl (fun s toPid =>
    R.updateSingleGainBucket toPid (neighbors accepted cell.vertex) s) accepted

/-- The main loop, for the moves that are left. -/
def moves (blocks : List Nat) (neighbors : Refining d → Nat → List Nat) :
    Nat → Refining d → Best → Refining d × Best
  | 0, s, best => (s, best)
  | n + 1, s, best =>
      match R.pickMoveKWay s with
      | none => (s, best)
      | some cell =>
          let moved := R.moveStep blocks neighbors s cell
          moves blocks neighbors n moved
            (if best.gain ≤ moved.totalDeltaGain then ⟨moved.totalDeltaGain, some cell.vertex⟩
              else best)

/-- The moves after the best one are taken back, the last one first. -/
def rollBack (bestVertexId : Option Nat) : List VertexGain → Refining d → Refining d
  | [], s => s
  | cell :: trace, s =>
      if some cell.vertex = bestVertexId then s
      else rollBack bestVertexId trace (R.rollBackVertexGain s cell)

/-- `InitializeGainBucketsKWay` and `InitializeGainBucketsPM`: the trace and the total are empty, and
the buckets of the blocks hold the gains of the boundary vertices. -/
def initializeGainBuckets (blocks boundary : List Nat) (s : Refining d) : Refining d :=
  blocks.foldl (fun s toPid => R.initializeSingleGainBucket toPid boundary s)
    { s with movesTrace := [], totalDeltaGain := 0 }

/-- The part of a pass that both refiners share: the buckets of the blocks are filled, vertices are
moved, and the moves after the best one taken back. -/
def refineBlocks (blocks boundary : List Nat) (neighbors : Refining d → Nat → List Nat)
    (bestGain : ℚ) (s : Refining d) : ℚ × Refining d :=
  let (moved, best) := R.moves blocks neighbors R.maxMove
    (R.initializeGainBuckets blocks boundary s) ⟨bestGain, none⟩
  (best.gain, R.rollBack best.vertexId moved.movesTrace moved)

/-- A block is out of its bounds. -/
def violatesBalance (blockBalance : Nat → Weights d) : Bool :=
  (List.range R.numParts).any fun b =>
    (R.upper b).less (blockBalance b) || (blockBalance b).less (R.lower b)

/-- `KWayFMRefine::Pass` -/
def pass (s : Refining d) : ℚ × Refining d :=
  let boundary := R.findBoundaryVertices s.netDegs s.visited
  if boundary = [] then (0, s)
  else R.refineBlocks (List.range R.numParts) boundary R.findNeighbors
    (if R.violatesBalance s.blockBalance then -floatMax else 0)
    { s with buckets := fun _ => .empty }

/-- The buckets of a pair are cleared. -/
def clearPair (pair : Nat × Nat) (s : Refining d) : Refining d :=
  { s with buckets := Function.update (Function.update s.buckets pair.1 .empty) pair.2 .empty }

/-- `KWayPMRefine::PerformPairFM` -/
def performPairFM (pair : Nat × Nat) (s : Refining d) : ℚ × Refining d :=
  let (gain, refined) := R.refineBlocks [pair.1, pair.2]
    (R.findBoundaryVerticesPair s.netDegs s.visited pair) (R.findNeighborsPair pair) 0
    (clearPair pair s)
  (gain, clearPair pair refined)

end Refiner

end OpenRoad.Par
