import OpenRoad.TopQueue
import Mathlib.Data.BitVec
import Mathlib.Data.Finset.Prod
import Mathlib.Data.Finset.Image
import Mathlib.Order.Interval.Finset.Nat

/-!
The grid graph of the detailed router, its directions, and the wavefront elements of the maze search
with their buffer of the last two directions. The cost of a path and the estimate of the rest only
order the queue; they are parameters.
-/

namespace OpenRoad.Drt

/-- `frDirEnum` -/
inductive Dir
  | unknown
  | D
  | S
  | W
  | E
  | N
  | U
  deriving DecidableEq, Repr

/-- `frDirEnumAll` -/
def Dir.all : List Dir := [.D, .S, .W, .E, .N, .U]

/-- The value of a direction. -/
def Dir.value : Dir → Nat
  | unknown => 0
  | D => 1
  | S => 2
  | W => 3
  | E => 4
  | N => 5
  | U => 6

/-- The direction of a value. -/
def Dir.ofValue : Nat → Dir
  | 1 => D
  | 2 => S
  | 3 => W
  | 4 => E
  | 5 => N
  | 6 => U
  | _ => unknown

/-- The direction that `reverse` leaves. -/
def Dir.reverse : Dir → Dir
  | unknown => unknown
  | D => U
  | S => N
  | W => E
  | E => W
  | N => S
  | U => D

structure FlexMazeIdx where
  x : Int
  y : Int
  z : Int
  deriving DecidableEq, Repr

def getNextGrid (idx : FlexMazeIdx) : Dir → FlexMazeIdx
  | .E => { idx with x := idx.x + 1 }
  | .S => { idx with y := idx.y - 1 }
  | .W => { idx with x := idx.x - 1 }
  | .N => { idx with y := idx.y + 1 }
  | .U => { idx with z := idx.z + 1 }
  | .D => { idx with z := idx.z - 1 }
  | .unknown => idx

def getPrevGrid (idx : FlexMazeIdx) : Dir → FlexMazeIdx
  | .E => { idx with x := idx.x - 1 }
  | .S => { idx with y := idx.y + 1 }
  | .W => { idx with x := idx.x + 1 }
  | .N => { idx with y := idx.y - 1 }
  | .U => { idx with z := idx.z - 1 }
  | .D => { idx with z := idx.z + 1 }
  | .unknown => idx

theorem getPrevGrid_getNextGrid (idx : FlexMazeIdx) (dir : Dir) :
    getPrevGrid (getNextGrid idx dir) dir = idx := by
  cases dir <;> simp [getNextGrid, getPrevGrid]

/-- Going on against the last direction leads back. -/
theorem getNextGrid_reverse (idx : FlexMazeIdx) (dir : Dir) :
    getNextGrid idx dir.reverse = getPrevGrid idx dir := by
  cases dir <;> rfl

theorem getNextGrid_ne (idx : FlexMazeIdx) {dir : Dir} (h : dir ≠ .unknown) :
    getNextGrid idx dir ≠ idx := by
  obtain ⟨x, y, z⟩ := idx
  cases dir <;> simp [getNextGrid] at h ⊢

theorem Dir.reverse_reverse (dir : Dir) : dir.reverse.reverse = dir := by
  cases dir <;> rfl

/-- Two directions that lead to one node are one. -/
theorem getNextGrid_inj {idx : FlexMazeIdx} {dir dir' : Dir}
    (h : getNextGrid idx dir = getNextGrid idx dir') : dir = dir' := by
  obtain ⟨x, y, z⟩ := idx
  cases dir <;> cases dir' <;> simp [getNextGrid] at h ⊢ <;> omega

/-! ### Wavefront elements -/

/-- `frBox3D` -/
structure Box3D where
  xMin : Int
  yMin : Int
  xMax : Int
  yMax : Int
  zLow : Int
  zHigh : Int
  deriving DecidableEq

def Box3D.contains (b : Box3D) (idx : FlexMazeIdx) : Bool :=
  b.zLow ≤ idx.z && idx.z ≤ b.zHigh && b.xMin ≤ idx.x && idx.x ≤ b.xMax && b.yMin ≤ idx.y &&
    idx.y ≤ b.yMax

/-- `std::numeric_limits<frCoord>::max()` -/
def frCoordMax : Int := 2 ^ 31 - 1

structure FlexWavefrontGrid where
  idx : FlexMazeIdx
  vLengthX : Int
  vLengthY : Int
  prevViaUp : Bool
  tLength : Int
  dist : Int
  pathCost : Nat
  cost : Nat
  backTraceBuffer : BitVec 6
  srcTaperBox : Option Box3D
  deriving DecidableEq

namespace FlexWavefrontGrid

/-- `operator<`: the greatest element is popped first. -/
def less (a b : FlexWavefrontGrid) : Bool :=
  if a.cost ≠ b.cost then decide (b.cost < a.cost)
  else if a.dist ≠ b.dist then decide (b.dist < a.dist)
  else if a.idx.z ≠ b.idx.z then decide (a.idx.z < b.idx.z)
  else decide (a.pathCost < b.pathCost)

theorem less_irrefl (a : FlexWavefrontGrid) : a.less a = false := by
  simp [less]

theorem less_trans (a b c : FlexWavefrontGrid) (hab : a.less b = true) (hbc : b.less c = true) :
    a.less c = true := by
  unfold less at *
  grind

end FlexWavefrontGrid

/-- `getLastDir`, of a buffer. -/
def getLastDir (backTraceBuffer : BitVec 6) : Dir := .ofValue (backTraceBuffer.toNat % 8)

/-- The direction before the last one. -/
def getOlderDir (backTraceBuffer : BitVec 6) : Dir := getLastDir (backTraceBuffer >>> 3)

/-- `shiftAddBuffer`: the direction that falls out, and the new buffer. -/
def shiftAddBuffer (backTraceBuffer : BitVec 6) (dir : Dir) : Dir × BitVec 6 :=
  (.ofValue (backTraceBuffer >>> 3).toNat, backTraceBuffer <<< 3 ||| BitVec.ofNat 6 dir.value)

theorem getLastDir_zero : getLastDir 0 = .unknown := by decide

theorem getOlderDir_zero : getOlderDir 0 = .unknown := by decide

theorem shiftAddBuffer_fst (buffer : BitVec 6) (dir : Dir) :
    (shiftAddBuffer buffer dir).1 = getOlderDir buffer := by
  have hlt : (buffer >>> 3).toNat < 8 := by
    have := buffer.isLt
    rw [BitVec.toNat_ushiftRight, Nat.shiftRight_eq_div_pow]
    omega
  unfold shiftAddBuffer getOlderDir getLastDir
  rw [Nat.mod_eq_of_lt hlt]

theorem getLastDir_shiftAddBuffer (buffer : BitVec 6) (dir : Dir) :
    getLastDir (shiftAddBuffer buffer dir).2 = dir := by
  cases dir <;> revert buffer <;> decide

theorem getOlderDir_shiftAddBuffer (buffer : BitVec 6) (dir : Dir) :
    getOlderDir (shiftAddBuffer buffer dir).2 = getLastDir buffer := by
  cases dir <;> revert buffer <;> decide

end OpenRoad.Drt

/-!
The maze search of the detailed router: wavefront expansion, the table of committed directions and
the trace back from a destination.
-/

namespace OpenRoad.Drt

/-- `Rect` -/
structure Rect where
  xMin : Int
  yMin : Int
  xMax : Int
  yMax : Int

/-- The edge bits of a node. -/
structure Node where
  hasEastEdge : Bool
  hasNorthEdge : Bool
  hasUpEdge : Bool

/-- The grid graph during a search, with what the search reads of the technology. `addEdge` sets an
edge bit only if the node at the other end is in the grid. -/
structure FlexGridGraph where
  xCoords : List Int
  yCoords : List Int
  zHeights : List Int
  nodes : FlexMazeIdx → Node
  srcs : FlexMazeIdx → Bool
  dsts : FlexMazeIdx → Bool
  dieBox : Rect
  layerWidth : Int → Nat
  ndrWidth : Option (Int → Int)
  autoTaperNdrNets : Bool
  estCost : FlexMazeIdx → FlexMazeIdx → FlexMazeIdx → Dir → Nat
  nextPathCost : FlexWavefrontGrid → Dir → Bool → Nat
  east_lt : ∀ idx, (nodes idx).hasEastEdge = true → idx.x + 1 < xCoords.length
  north_lt : ∀ idx, (nodes idx).hasNorthEdge = true → idx.y + 1 < yCoords.length
  up_lt : ∀ idx, (nodes idx).hasUpEdge = true → idx.z + 1 < zHeights.length

/-- The coordinate at an index. -/
def coord (coords : List Int) (i : Int) : Int := coords.getD i.toNat 0

namespace FlexGridGraph

variable (G : FlexGridGraph)

def isValid (idx : FlexMazeIdx) : Bool :=
  0 ≤ idx.x && 0 ≤ idx.y && 0 ≤ idx.z && idx.x < G.xCoords.length && idx.y < G.yCoords.length &&
    idx.z < G.zHeights.length

/-- `hasEdge`; an edge to the west, the south or below is that of the node there. -/
def hasEdge (idx : FlexMazeIdx) (dir : Dir) : Bool :=
  match dir with
  | .E => G.isValid idx && (G.nodes idx).hasEastEdge
  | .N => G.isValid idx && (G.nodes idx).hasNorthEdge
  | .U => G.isValid idx && (G.nodes idx).hasUpEdge
  | .W => G.isValid (getNextGrid idx .W) && (G.nodes (getNextGrid idx .W)).hasEastEdge
  | .S => G.isValid (getNextGrid idx .S) && (G.nodes (getNextGrid idx .S)).hasNorthEdge
  | .D => G.isValid (getNextGrid idx .D) && (G.nodes (getNextGrid idx .D)).hasUpEdge
  | .unknown => false

def getEdgeLength (idx : FlexMazeIdx) : Dir → Int
  | .E => coord G.xCoords (idx.x + 1) - coord G.xCoords idx.x
  | .W => coord G.xCoords idx.x - coord G.xCoords (idx.x - 1)
  | .N => coord G.yCoords (idx.y + 1) - coord G.yCoords idx.y
  | .S => coord G.yCoords idx.y - coord G.yCoords (idx.y - 1)
  | .U => coord G.zHeights (idx.z + 1) - coord G.zHeights idx.z
  | .D => coord G.zHeights idx.z - coord G.zHeights (idx.z - 1)
  | .unknown => 0

/-- The distance of a node from the center. -/
def manhattanDistance (idx : FlexMazeIdx) (center : Int × Int) : Int :=
  |coord G.xCoords idx.x - center.1| + |coord G.yCoords idx.y - center.2|

/-- The rule at the border of the die: a wire of a wide rule may not leave the die along it. -/
def borderPermits (idx : FlexMazeIdx) (dir : Dir) : Bool :=
  match G.ndrWidth with
  | none => true
  | some width =>
      let halfWidth : Int := (G.layerWidth idx.z : Int).tdiv 2
      if 2 * halfWidth < width idx.z ∧ G.srcs idx = false then
        let halfWidth := (width idx.z).tdiv 2
        match dir with
        | .N | .S =>
            !(coord G.xCoords idx.x - halfWidth < G.dieBox.xMin ||
              G.dieBox.xMax < coord G.xCoords idx.x + halfWidth)
        | .E | .W =>
            !(coord G.yCoords idx.y - halfWidth < G.dieBox.yMin ||
              G.dieBox.yMax < coord G.yCoords idx.y + halfWidth)
        | _ => true
      else true

/-- `prevDirs_`, by node. -/
abbrev PrevDirs := FlexMazeIdx → Dir

/-- `isExpandable` -/
def isExpandable (prevDirs : PrevDirs) (currGrid : FlexWavefrontGrid) (dir : Dir) : Bool :=
  let next := getNextGrid currGrid.idx dir
  if !G.hasEdge currGrid.idx dir || G.srcs next || prevDirs next ≠ .unknown ||
      getLastDir currGrid.backTraceBuffer = dir.reverse then false
  else G.borderPermits currGrid.idx dir

/-- `getTailIdx` -/
def getTailIdx (currIdx : FlexMazeIdx) (backTraceBuffer : BitVec 6) : FlexMazeIdx :=
  let first := getPrevGrid currIdx (getLastDir backTraceBuffer)
  getPrevGrid first (getLastDir (backTraceBuffer >>> 3))

/-- What a search changes. -/
structure Search where
  prevDirs : PrevDirs
  wavefront : List FlexWavefrontGrid

/-- The element that an expansion makes. -/
def nextWavefrontGrid (currGrid : FlexWavefrontGrid) (dir : Dir) (dst1 dst2 : FlexMazeIdx)
    (center : Int × Int) (routeWithJumpers : Bool) : FlexWavefrontGrid :=
  let idx := getNextGrid currGrid.idx dir
  let length := G.getEdgeLength currGrid.idx dir
  let pathCost := G.nextPathCost currGrid dir routeWithJumpers
  let isVia := dir = .U ∨ dir = .D
  let known := currGrid.vLengthX ≠ frCoordMax ∧ currGrid.vLengthY ≠ frCoordMax
  let lastDir := getLastDir currGrid.backTraceBuffer
  { idx := idx
    vLengthX :=
      if isVia then 0
      else if known ∧ (dir = .W ∨ dir = .E) then currGrid.vLengthX + length
      else currGrid.vLengthX
    vLengthY :=
      if isVia then 0
      else if known ∧ ¬(dir = .W ∨ dir = .E) then currGrid.vLengthY + length
      else currGrid.vLengthY
    prevViaUp := if isVia then decide (dir = .D) else currGrid.prevViaUp
    tLength :=
      if isVia then frCoordMax
      else if lastDir ≠ .unknown ∧ lastDir ≠ dir then length
      else if currGrid.tLength ≠ frCoordMax then currGrid.tLength + length
      else currGrid.tLength
    dist := G.manhattanDistance idx center
    pathCost := pathCost
    cost := (pathCost + G.estCost currGrid.idx dst1 dst2 dir) % 2 ^ 32
    backTraceBuffer := (shiftAddBuffer currGrid.backTraceBuffer dir).2
    srcTaperBox := currGrid.srcTaperBox.filter fun box => box.contains idx }

/-- `expand` -/
def expand (s : Search) (currGrid : FlexWavefrontGrid) (dir : Dir) (dst1 dst2 : FlexMazeIdx)
    (center : Int × Int) (routeWithJumpers : Bool) : Search :=
  let next := G.nextWavefrontGrid currGrid dir dst1 dst2 center routeWithJumpers
  let tailDir := (shiftAddBuffer currGrid.backTraceBuffer dir).1
  let tailIdx := getTailIdx next.idx next.backTraceBuffer
  if tailDir ≠ .unknown then
    if s.prevDirs tailIdx = .unknown ∨ s.prevDirs tailIdx = tailDir then
      { prevDirs := Function.update s.prevDirs tailIdx tailDir
        wavefront := next :: s.wavefront }
    else s
  else { s with wavefront := next :: s.wavefront }

/-- `expandWavefront` -/
def expandWavefront (s : Search) (currGrid : FlexWavefrontGrid) (dst1 dst2 : FlexMazeIdx)
    (center : Int × Int) (routeWithJumpers : Bool) : Search :=
  Dir.all.foldl (fun s dir =>
    if G.isExpandable s.prevDirs currGrid dir then
      G.expand s currGrid dir dst1 dst2 center routeWithJumpers
    else s) s

/-! ### Trace back -/

/-- Where a trace is: the warning of an unknown direction is a flag. -/
structure Trace where
  idx : FlexMazeIdx
  prevDir : Dir
  path : List FlexMazeIdx
  root : List FlexMazeIdx
  warned : Bool

/-- One step back along a direction. -/
def Trace.step (t : Trace) (currDir : Dir) : Trace :=
  { t with
    idx := getPrevGrid t.idx currDir
    prevDir := currDir
    path := if currDir ≠ t.prevDir then t.path ++ [t.idx] else t.path
    root := t.root ++ [t.idx] }

/-- The loop over the buffer, for the directions that are left in it. -/
def traceBuffer : Nat → BitVec 6 → Trace → Trace
  | 0, _, t => t
  | n + 1, backTraceBuffer, t =>
      if G.srcs t.idx then t
      else
        let currDir := getLastDir backTraceBuffer
        if currDir = .unknown then { t with warned := true }
        else traceBuffer n (backTraceBuffer >>> 3) (t.step currDir)

/-- The loop over the table, with a bound on its steps. -/
def tracePrevDirs (prevDirs : PrevDirs) : Nat → Trace → Option Trace
  | 0, _ => none
  | n + 1, t =>
      if G.srcs t.idx then some t
      else
        let currDir := prevDirs t.idx
        if currDir = .unknown then some { t with root := t.root ++ [t.idx], warned := true }
        else tracePrevDirs prevDirs n (t.step currDir)

/-- `traceBackPath` -/
def traceBackPath (prevDirs : PrevDirs) (fuel : Nat) (currGrid : FlexWavefrontGrid)
    (path root : List FlexMazeIdx) : Option Trace :=
  (G.tracePrevDirs prevDirs fuel
    (G.traceBuffer 2 currGrid.backTraceBuffer ⟨currGrid.idx, .unknown, path, root, false⟩)).map
    fun t => { t with path := if t.path = [] then [] else t.path ++ [t.idx] }

/-- The box `ccMazeIdx` grows by the path. -/
def growBox (box : FlexMazeIdx × FlexMazeIdx) (path : List FlexMazeIdx) :
    FlexMazeIdx × FlexMazeIdx :=
  path.foldl (fun box mi =>
    (⟨min box.1.x mi.x, min box.1.y mi.y, min box.1.z mi.z⟩,
      ⟨max box.2.x mi.x, max box.2.y mi.y, max box.2.z mi.z⟩)) box

/-! ### The search -/

/-- What a search returns. -/
structure Result where
  found : Bool
  connComps : List FlexMazeIdx
  path : List FlexMazeIdx
  ccMazeIdx : FlexMazeIdx × FlexMazeIdx
  prevDirs : PrevDirs
  warned : Bool

/-- What a search is called with. -/
structure Query where
  connComps : List FlexMazeIdx
  accessPatterns : List FlexMazeIdx
  ccMazeIdx : FlexMazeIdx × FlexMazeIdx
  center : Int × Int
  mazeIdx2TaperBox : FlexMazeIdx → Option Box3D
  routeWithJumpers : Bool

/-- The box around the access patterns of the next pin. -/
def dstBox (q : Query) : FlexMazeIdx × FlexMazeIdx :=
  growBox (⟨G.xCoords.length - 1, G.yCoords.length - 1, G.zHeights.length - 1⟩, ⟨0, 0, 0⟩)
    q.accessPatterns

/-- The element of a source. -/
def sourceGrid (q : Query) (idx : FlexMazeIdx) : FlexWavefrontGrid where
  idx := idx
  vLengthX := frCoordMax
  vLengthY := frCoordMax
  prevViaUp := true
  tLength := frCoordMax
  dist := G.manhattanDistance idx q.center
  pathCost := 0
  cost := G.estCost idx (G.dstBox q).1 (G.dstBox q).2 .unknown
  backTraceBuffer := 0
  srcTaperBox :=
    if G.ndrWidth.isSome && G.autoTaperNdrNets then q.mazeIdx2TaperBox idx else none

/-- The main loop, with a bound on its steps. -/
def searchLoop (Q : TopQueue FlexWavefrontGrid.less) (q : Query) : Nat → Search → Option Result
  | 0, _ => none
  | n + 1, s =>
      match Q.pop s.wavefront with
      | none => some ⟨false, q.connComps, [], q.ccMazeIdx, s.prevDirs, false⟩
      | some (currGrid, rest) =>
          if s.prevDirs currGrid.idx ≠ .unknown then
            searchLoop Q q n { s with wavefront := rest }
          else if G.dsts currGrid.idx then
            (G.traceBackPath s.prevDirs n currGrid [] q.connComps).map fun t =>
              ⟨true, t.root, t.path, growBox q.ccMazeIdx t.path, s.prevDirs, t.warned⟩
          else
            searchLoop Q q n (G.expandWavefront { s with wavefront := rest } currGrid
              (G.dstBox q).1 (G.dstBox q).2 q.center q.routeWithJumpers)

/-- `search`, on a table of unknown directions. -/
def search (Q : TopQueue FlexWavefrontGrid.less) (q : Query) (fuel : Nat) : Option Result :=
  match q.connComps.find? G.dsts with
  | some idx => some ⟨true, q.connComps, [idx], q.ccMazeIdx, fun _ => .unknown, false⟩
  | none =>
      G.searchLoop Q q fuel
        { prevDirs := fun _ => .unknown
          wavefront := (q.connComps.map (G.sourceGrid q)).reverse }

end FlexGridGraph

end OpenRoad.Drt
