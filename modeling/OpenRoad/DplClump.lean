import Mathlib.Data.List.Basic
import Mathlib.Logic.Function.Basic

/-!
Clumping: cells are moved in the x-direction until neighbours in a segment no longer overlap. Each
cell starts as a clump; a clump that overlaps one to its left is merged into it, and the merged clump
moves to the weighted mean of the positions that its cells asked for. The ends of the segments are
clumps of a great weight. Weights and weighted positions are whole numbers; their quotient is
rounded down.
-/

namespace OpenRoad.Dpl

/-- A `DetailedSeg` with the cells that are assigned to it, in their order. -/
structure ClumpSeg where
  minX : Int
  maxX : Int
  rowId : Nat
  cells : List Nat

/-- `ShiftLegalizer::Clump` -/
structure Clump where
  nodes : List Nat
  wposn : Int
  weight : Int
  posn : Int

/-- `clumps_`, `offset_` and `ptr_` -/
structure Clumps where
  clump : Nat → Clump
  offset : Nat → Int
  ptr : Nat → Nat

/-- What is read of the cells to the left of a node. -/
structure ClumpGraph where
  incoming : Nat → List Nat
  width : Nat → Int

namespace ClumpGraph

variable (G : ClumpGraph) (s : Clumps) (r : Nat)

/-- One cell that must be left of a node of clump `r`, with the worst difference so far, its clump,
and the distance at which `r` would be merged into it. -/
def lookLeft (worst : Option (Int × Nat × Int)) (ndr ndl : Nat) : Option (Int × Nat × Int) :=
  let t := s.ptr ndl
  if t = r then worst
  else
    let pdst := (s.clump r).posn + s.offset ndr
    let psrc := (s.clump t).posn + s.offset ndl
    let gap := G.width ndl
    let diff := pdst - (psrc + gap)
    if diff < 0 ∧ (∀ w ∈ worst, diff < w.1) then
      some (diff, t, s.offset ndl + gap - s.offset ndr)
    else worst

/-- `violated`: the clump to merge into, and the distance. -/
def violated : Option (Nat × Int) :=
  ((s.clump r).nodes.foldl (fun worst ndr =>
    (G.incoming ndr).foldl (fun worst ndl => G.lookLeft s r worst ndr ndl) worst) none).map Prod.snd

end ClumpGraph

/-- Merge clump `r` into clump `l`. -/
def Clumps.mergeInto (s : Clumps) (r l : Nat) (dist : Int) : Clumps where
  clump := fun c =>
    if c = l then
      let wposn := (s.clump l).wposn + ((s.clump r).wposn - dist * (s.clump r).weight)
      let weight := (s.clump l).weight + (s.clump r).weight
      ⟨(s.clump l).nodes ++ (s.clump r).nodes, wposn, weight, wposn / weight⟩
    else if c = r then { s.clump r with nodes := [] }
    else s.clump c
  offset := fun n => if n ∈ (s.clump r).nodes then s.offset n + dist else s.offset n
  ptr := fun n => if n ∈ (s.clump r).nodes then l else s.ptr n

/-- `merge`, with as many rounds as there can be. -/
def ClumpGraph.merge (G : ClumpGraph) : Nat → Clumps → Nat → Clumps
  | 0, s, _ => s
  | fuel + 1, s, r =>
      match G.violated s r with
      | none => s
      | some (l, dist) => merge G fuel (s.mergeInto r l dist) l

/-- The left edge of a node after the clumping. -/
def Clumps.left (s : Clumps) (n : Nat) : Int := (s.clump (s.ptr n)).posn + s.offset n

/-! ### The legalizer -/

/-- Nodes of the network, rows, and the assignment of the cells to segments. -/
structure ShiftLegalizer where
  nnodes : Nat
  left : Nat → Int
  bottom : Nat → Int
  width : Nat → Int
  segs : List ClumpSeg
  reverseCellToSegs : Nat → List Nat
  rowBottom : Nat → Int

namespace ShiftLegalizer

variable (A : ShiftLegalizer)

def seg (i : Nat) : ClumpSeg := A.segs.getD i ⟨0, 0, 0, []⟩

/-- The ids of the dummy nodes of a segment. -/
def dummyLeft (i : Nat) : Nat := A.nnodes + i

def dummyRight (i : Nat) : Nat := A.nnodes + A.segs.length + i

/-- The cells of a segment between its dummies. -/
def cellsInSeg (i : Nat) : List Nat := A.dummyLeft i :: ((A.seg i).cells ++ [A.dummyRight i])

/-- Cells that stand next to each other in a segment. -/
def pairs (l : List Nat) : List (Nat × Nat) := l.zip l.tail

/-- `incoming_`, with widths of zero for the dummies. -/
def graph : ClumpGraph where
  incoming := fun curr => (List.range A.segs.length).flatMap fun i =>
    ((pairs (A.cellsInSeg i)).filter fun pair => pair.2 = curr).map Prod.fst
  width := fun n => if n < A.nnodes then A.width n else 0

/-- The clump of an end of a segment, with a massive weight. -/
def endClump (n : Nat) (x : Int) : Clump := ⟨[n], 100000000 * x, 100000000, x⟩

/-- The clump of a cell. Its left edge is put within the segments. -/
def cellClump (n : Nat) : Clump where
  nodes := [n]
  wposn := A.left n
  weight := 1
  posn := (A.reverseCellToSegs n).foldl
    (fun posn i => min (max posn (A.seg i).minX) ((A.seg i).maxX - A.width n)) (A.left n)

/-- All nodes in the order of their clumps: left ends, cells, right ends. -/
def allNodes (order : List Nat) : List Nat :=
  (List.range A.segs.length).map A.dummyLeft ++ order ++ (List.range A.segs.length).map A.dummyRight

/-- The clumps before the clumping. -/
def firstClumps (order : List Nat) : Clumps where
  clump := fun i =>
    ((List.range A.segs.length).map (fun i => endClump (A.dummyLeft i) (A.seg i).minX) ++
      order.map A.cellClump ++
      (List.range A.segs.length).map fun i => endClump (A.dummyRight i) (A.seg i).maxX).getD i
        ⟨[], 0, 0, 0⟩
  offset := fun _ => 0
  ptr := fun n => (A.allNodes order).idxOf n

/-- The clumps after the clumping. -/
def clumped (order : List Nat) : Clumps :=
  (List.range (A.allNodes order).length).foldl
    (fun s i => A.graph.merge (A.allNodes order).length s i) (A.firstClumps order)

/-- The lowest row of a cell. -/
def lowestRow (n : Nat) : Nat :=
  match A.reverseCellToSegs n with
  | [] => 0
  | i :: rest => rest.foldl (fun rowId j => min rowId (A.seg j).rowId) (A.seg i).rowId

/-- `shift`: the cells at their new places. -/
def shift (order : List Nat) : ShiftLegalizer where
  nnodes := A.nnodes
  left := fun n => if n ∈ order then (A.clumped order).left n else A.left n
  bottom := fun n => if n ∈ order then A.rowBottom (A.lowestRow n) else A.bottom n
  width := A.width
  segs := A.segs
  reverseCellToSegs := A.reverseCellToSegs
  rowBottom := A.rowBottom

end ShiftLegalizer

end OpenRoad.Dpl
