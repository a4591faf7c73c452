import OpenRoad.DbGeometry
import OpenRoad.LastWrite
import OpenRoad.LongestChain
import Mathlib.Algebra.Order.Field.Rat

/-!
The macros of the hierarchical macro placer: soft macros, whose shape follows the intervals of their
cluster, and hard macros, which can be flipped. Lengths are exact rationals.
-/

namespace OpenRoad.Mpl

structure Rect where
  lx : ℚ
  ly : ℚ
  ux : ℚ
  uy : ℚ

namespace Rect

def getWidth (r : Rect) : ℚ := r.ux - r.lx

def getHeight (r : Rect) : ℚ := r.uy - r.ly

def getPerimeter (r : Rect) : ℚ := 2 * r.getWidth + 2 * r.getHeight

end Rect

/-- Bounds of a dimension of a cluster. -/
structure Interval where
  min : ℚ
  max : ℚ

inductive ClusterType where
  | StdCellCluster | HardMacroCluster | MixedCluster
  deriving DecidableEq

inductive Boundary where
  | NONE | B | L | T | R
  deriving DecidableEq

structure Cluster where
  type : ClusterType
  isIOCluster : Bool
  isClusterOfUnplacedIOPins : Bool
  constraintBoundary : Boundary
  numMacro : Nat
  macroArea : ℚ
  area : ℚ

/-- A macro that the annealer places. What cannot be moved keeps its location. -/
class Macro (T : Type) where
  movable : T → Bool
  getX : T → ℚ
  getY : T → ℚ
  getWidth : T → ℚ
  getHeight : T → ℚ
  getPinX : T → ℚ
  getPinY : T → ℚ
  getCluster : T → Option Cluster
  setX : T → ℚ → T
  setY : T → ℚ → T

/-- A location that is set is the location of a macro that can be moved; nothing else changes. -/
class LawfulMacro (T : Type) [Macro T] : Prop where
  getX_setX : ∀ (m : T) v, Macro.getX (Macro.setX m v) = if Macro.movable m then v else Macro.getX m
  getY_setX : ∀ (m : T) v, Macro.getY (Macro.setX m v) = Macro.getY m
  getX_setY : ∀ (m : T) v, Macro.getX (Macro.setY m v) = Macro.getX m
  getY_setY : ∀ (m : T) v, Macro.getY (Macro.setY m v) = if Macro.movable m then v else Macro.getY m
  getWidth_setX : ∀ (m : T) v, Macro.getWidth (Macro.setX m v) = Macro.getWidth m
  getWidth_setY : ∀ (m : T) v, Macro.getWidth (Macro.setY m v) = Macro.getWidth m
  getHeight_setX : ∀ (m : T) v, Macro.getHeight (Macro.setX m v) = Macro.getHeight m
  getHeight_setY : ∀ (m : T) v, Macro.getHeight (Macro.setY m v) = Macro.getHeight m
  movable_setX : ∀ (m : T) v, Macro.movable (Macro.setX m v) = Macro.movable m
  movable_setY : ∀ (m : T) v, Macro.movable (Macro.setY m v) = Macro.movable m
  setX_setX : ∀ (m : T) v v', Macro.setX (Macro.setX m v) v' = Macro.setX m v'
  setY_setY : ∀ (m : T) v v', Macro.setY (Macro.setY m v) v' = Macro.setY m v'
  setX_setY : ∀ (m : T) v v', Macro.setX (Macro.setY m v) v' = Macro.setY (Macro.setX m v') v

attribute [simp] LawfulMacro.getX_setX LawfulMacro.getY_setX LawfulMacro.getX_setY
  LawfulMacro.getY_setY LawfulMacro.getWidth_setX LawfulMacro.getWidth_setY LawfulMacro.getHeight_setX
  LawfulMacro.getHeight_setY LawfulMacro.movable_setX LawfulMacro.movable_setY LawfulMacro.setX_setX
  LawfulMacro.setY_setY LawfulMacro.setX_setY

namespace Macro

variable {T : Type} [Macro T]

def isClusterOfUnplacedIOPins (m : T) : Bool :=
  match getCluster m with
  | none => false
  | some cluster => cluster.isClusterOfUnplacedIOPins

end Macro

/-! ### Soft macros -/

structure SoftMacro where
  x : ℚ
  y : ℚ
  width : ℚ
  height : ℚ
  area : ℚ
  widthIntervals : List Interval
  heightIntervals : List Interval
  cluster : Option Cluster
  fixed : Bool

namespace SoftMacro

def setX (m : SoftMacro) (x : ℚ) : SoftMacro := if m.fixed then m else { m with x }

def setY (m : SoftMacro) (y : ℚ) : SoftMacro := if m.fixed then m else { m with y }

/-- The pin is at the center of the macro. -/
instance : Macro SoftMacro where
  movable m := !m.fixed
  getX := x
  getY := y
  getWidth := width
  getHeight := height
  getPinX m := m.x + 1 / 2 * m.width
  getPinY m := m.y + 1 / 2 * m.height
  getCluster := cluster
  setX := setX
  setY := setY

def getArea (m : SoftMacro) : ℚ := if m.area > 1 / 100 then m.area else 0

def isOfType (m : SoftMacro) (type : ClusterType) : Bool :=
  match m.cluster with
  | none => false
  | some cluster => cluster.type = type

def isMacroCluster (m : SoftMacro) : Bool := m.isOfType .HardMacroCluster

def isStdCellCluster (m : SoftMacro) : Bool := m.isOfType .StdCellCluster

def isMixedCluster (m : SoftMacro) : Bool := m.isOfType .MixedCluster

/-- `getNumMacro`; a cluster of standard cells has none. -/
def getNumMacro (m : SoftMacro) : Nat :=
  match m.cluster with
  | none => 0
  | some cluster => if cluster.type = .StdCellCluster then 0 else cluster.numMacro

/-- Whether `setWidth` and `setHeight` do nothing to a macro. -/
def isRigid (m : SoftMacro) : Bool :=
  m.area = 0 || m.widthIntervals.length != m.heightIntervals.length || m.widthIntervals.isEmpty ||
    match m.cluster with
    | none => true
    | some cluster => cluster.type = .HardMacroCluster || cluster.isIOCluster

/-- `findIntervalIndex` of the width intervals, and the value it moves into the interval -/
def findWidthInterval (value : ℚ) : List Interval → Nat → Nat × ℚ
  | [], idx => (idx, value)
  | interval :: rest, idx =>
      if interval.max < value then findWidthInterval value rest (idx + 1)
      else (idx, if interval.min > value then interval.min else value)

/-- `findIntervalIndex` of the height intervals -/
def findHeightInterval (value : ℚ) : List Interval → Nat → Nat × ℚ
  | [], idx => (idx, value)
  | interval :: rest, idx =>
      if interval.min > value then findHeightInterval value rest (idx + 1)
      else (idx, if interval.max < value then interval.max else value)

/-- The area of the widest shape of an interval. -/
def intervalArea (m : SoftMacro) (idx : Nat) : ℚ :=
  (m.widthIntervals[idx]?.map Interval.max).getD 0 * (m.heightIntervals[idx]?.map Interval.min).getD 0

def setWidth (m : SoftMacro) (width : ℚ) : SoftMacro :=
  if width ≤ 0 || m.isRigid then m
  else
    match m.widthIntervals.head?, m.widthIntervals.getLast?, m.heightIntervals.head?,
      m.heightIntervals.getLast? with
    | some wfront, some wback, some hfront, some hback =>
        if width ≤ wfront.min then
          { m with width := wfront.min, height := hfront.max, area := wfront.min * hfront.max }
        else if width ≥ wback.max then
          { m with width := wback.max, height := hback.min, area := wback.max * hback.min }
        else
          let (idx, width) := findWidthInterval width m.widthIntervals 0
          let area := m.intervalArea idx
          { m with width, area, height := area / width }
    | _, _, _, _ => m

def setHeight (m : SoftMacro) (height : ℚ) : SoftMacro :=
  if height ≤ 0 || m.isRigid then m
  else
    match m.widthIntervals.head?, m.widthIntervals.getLast?, m.heightIntervals.head?,
      m.heightIntervals.getLast? with
    | some wfront, some wback, some hfront, some hback =>
        if height ≥ hfront.max then
          { m with height := hfront.max, width := wfront.min, area := wfront.min * hfront.max }
        else if height ≤ hback.min then
          { m with height := hback.min, width := wback.max, area := wback.max * hback.min }
        else
          let (idx, height) := findHeightInterval height m.heightIntervals 0
          let area := m.intervalArea idx
          { m with height, area, width := area / height }
    | _, _, _, _ => m

/-- `resizeRandomly`; `idx` and `draw` are the random interval and the random number. -/
def resizeRandomly (m : SoftMacro) (idx : Nat) (draw : ℚ) : SoftMacro :=
  match m.widthIntervals[idx]?, m.heightIntervals[idx]? with
  | some w, some h =>
      let width := w.min + draw * (w.max - w.min)
      let area := w.min * h.max
      { m with width, area, height := area / width }
  | _, _ => m

def setLocationF (m : SoftMacro) (x y : ℚ) : SoftMacro := { m with x, y }

def setShapeF (m : SoftMacro) (width height : ℚ) : SoftMacro :=
  { m with width, height, area := width * height }

instance : LawfulMacro SoftMacro := by
  constructor <;> intro m <;> rcases m with ⟨_, _, _, _, _, _, _, _, fixed⟩ <;> cases fixed <;>
    intros <;> rfl

end SoftMacro

/-! ### Hard macros -/

/-- `dbOrientType::flipY` -/
def flipY : Db.Orient → Db.Orient
  | .R0 => .MY
  | .R90 => .MXR90
  | .R180 => .MX
  | .R270 => .MYR90
  | .MY => .R0
  | .MYR90 => .R270
  | .MX => .R180
  | .MXR90 => .R90

/-- `dbOrientType::flipX` -/
def flipX : Db.Orient → Db.Orient
  | .R0 => .MX
  | .R90 => .MYR90
  | .R180 => .MY
  | .R270 => .MXR90
  | .MY => .R180
  | .MYR90 => .R90
  | .MX => .R0
  | .MXR90 => .R270

structure HardMacro where
  x : ℚ
  y : ℚ
  width : ℚ
  height : ℚ
  orientation : Db.Orient
  pinX : ℚ
  pinY : ℚ
  cluster : Option Cluster

namespace HardMacro

def setX (m : HardMacro) (x : ℚ) : HardMacro := if m.width * m.height ≤ 0 then m else { m with x }

def setY (m : HardMacro) (y : ℚ) : HardMacro := if m.width * m.height ≤ 0 then m else { m with y }

instance : Macro HardMacro where
  movable m := !decide (m.width * m.height ≤ 0)
  getX := x
  getY := y
  getWidth := width
  getHeight := height
  getPinX m := m.x + m.pinX
  getPinY m := m.y + m.pinY
  getCluster := cluster
  setX := setX
  setY := setY

def flip (m : HardMacro) (flipHorizontal : Bool) : HardMacro :=
  if flipHorizontal then { m with orientation := flipX m.orientation, pinY := m.height - m.pinY }
  else { m with orientation := flipY m.orientation, pinX := m.width - m.pinX }

instance : LawfulMacro HardMacro := by
  constructor <;> intro m <;> by_cases h : m.width * m.height ≤ 0 <;> intros <;>
    simp [Macro.setX, Macro.setY, Macro.getX, Macro.getY, Macro.getWidth, Macro.getHeight,
      Macro.movable, setX, setY, h]

end HardMacro

end OpenRoad.Mpl

/-!
`SimulatedAnnealingCore`: the sequence pair, the floorplan it is packed to, the penalties of the
floorplan, and the actions on the sequence pair.
-/

namespace OpenRoad.Mpl

structure SACoreWeights where
  area : ℚ
  outline : ℚ
  wirelength : ℚ
  guidance : ℚ
  fence : ℚ

structure BundledNet where
  source : Nat
  target : Nat
  weight : ℚ

/-- What the annealer is given. -/
structure Setup where
  outline : Rect
  dieArea : Rect
  leftIsBlocked : Bool
  rightIsBlocked : Bool
  bottomIsBlocked : Bool
  topIsBlocked : Bool
  nets : List BundledNet
  fences : List (Nat × Rect)
  guides : List (Nat × Rect)
  coreWeights : SACoreWeights
  posSwapProb : ℚ
  negSwapProb : ℚ
  doubleSwapProb : ℚ
  exchangeProb : ℚ

/-- The solution of the annealer and the one before it; `macros` are the `size` macros by id. -/
structure SimulatedAnnealingCore (T : Type) where
  posSeq : List Nat
  negSeq : List Nat
  size : Nat
  macros : Nat → T
  prePosSeq : List Nat := []
  preNegSeq : List Nat := []
  preMacros : Nat → T
  macroId : Int := -1
  actionId : Int := -1
  width : ℚ := 0
  height : ℚ := 0
  preWidth : ℚ := 0
  preHeight : ℚ := 0
  outlinePenalty : ℚ := 0
  wirelength : ℚ := 0
  guidancePenalty : ℚ := 0
  fencePenalty : ℚ := 0
  preOutlinePenalty : ℚ := 0
  preWirelength : ℚ := 0
  preGuidancePenalty : ℚ := 0
  preFencePenalty : ℚ := 0

namespace SimulatedAnnealingCore

open Macro

variable {T : Type} [Macro T]

/-! ### The floorplan of a sequence pair -/

/-- `sequence_pair_pos[id].second` -/
def negSeqPos (negSeq : List Nat) (id : Nat) : Nat := (LastWrite.recorded negSeq.zipIdx id).getD 0

section Axis

variable (pos : Nat → Nat) (set : T → ℚ → T) (start size : T → ℚ)

/-- A macro starts at the length that is accumulated before it, and adds to the lengths from its
position on. -/
def packMacro (st : (Nat → T) × List ℚ) (id : Nat) : (Nat → T) × List ℚ :=
  let m := set (st.1 id) (st.2.getD (pos id) 0)
  (Function.update st.1 id m, raise (start m + size m) (pos id) st.2)

/-- The sweep of one direction. -/
def packAxis (seq : List Nat) (macros : Nat → T) : (Nat → T) × List ℚ :=
  seq.foldl (packMacro pos set start size) (macros, List.replicate seq.length 0)

end Axis

/-- Every macro of the sequence is moved to the origin first. -/
def toOrigin (seq : List Nat) (macros : Nat → T) : Nat → T :=
  seq.foldl (fun macros id => Function.update macros id (setY (setX (macros id) 0) 0)) macros

def packFloorplan (sa : SimulatedAnnealingCore T) : SimulatedAnnealingCore T :=
  let pos := negSeqPos sa.negSeq
  let x := packAxis pos setX getX getWidth sa.posSeq (toOrigin sa.posSeq sa.macros)
  let y := packAxis pos setY getY getHeight sa.posSeq.reverse x.1
  { sa with
    macros := y.1
    width := x.2.getD (sa.posSeq.length - 1) 0
    height := y.2.getD (sa.posSeq.length - 1) 0 }

/-! ### Penalties -/

section Penalty

variable (P : Setup)

/-- `calOutlinePenalty`; the penalties are the values that the functions of the source assign. -/
def calOutlinePenalty (width height : ℚ) : ℚ :=
  let maxWidth := max P.outline.getWidth width
  let maxHeight := max P.outline.getHeight height
  let outlineArea := P.outline.getWidth * P.outline.getHeight
  (maxWidth * maxHeight - outlineArea) / outlineArea

def isOutsideTheOutline (m : T) : Bool :=
  getPinX m > P.outline.getWidth || getPinY m > P.outline.getHeight

/-- `addBoundaryDistToWirelength`: what it adds. The distance to the bottom is assigned to the right
side. -/
def boundaryDist (m unplacedIos : T) : ℚ :=
  let maxDist := P.dieArea.getPerimeter / 2
  if isOutsideTheOutline P m then maxDist
  else
    let x1 := getPinX m
    let y1 := getPinY m
    match (getCluster unplacedIos).map Cluster.constraintBoundary with
    | some .NONE =>
        let distToLeft := if P.leftIsBlocked then maxDist else |x1 - P.dieArea.lx|
        let distToRight := if P.rightIsBlocked then maxDist else |x1 - P.dieArea.ux|
        let distToBottom := maxDist
        let distToRight := if P.bottomIsBlocked then distToRight else |y1 - P.dieArea.ly|
        let distToTop := if P.topIsBlocked then maxDist else |y1 - P.dieArea.uy|
        min (min distToLeft distToRight) (min distToBottom distToTop)
    | some .L | some .R => |getPinX unplacedIos - x1|
    | some .T | some .B => |getPinY unplacedIos - y1|
    | none => 0

variable (macros : Nat → T)

def calWirelength : ℚ :=
  let totNetWeight := (P.nets.map BundledNet.weight).sum
  if P.coreWeights.wirelength ≤ 0 || totNetWeight ≤ 0 then 0
  else
    let wirelength := (P.nets.map fun net =>
      let source := macros net.source
      let target := macros net.target
      if isClusterOfUnplacedIOPins target then net.weight * boundaryDist P source target
      else net.weight * (|getPinX target - getPinX source| + |getPinY target - getPinY source|)).sum
    wirelength / totNetWeight / (P.outline.getHeight + P.outline.getWidth)

def calGuidancePenalty : ℚ :=
  if P.coreWeights.guidance ≤ 0 || P.guides.isEmpty then 0
  else
    let guidancePenalty := (P.guides.map fun (id, guide) =>
      let m := macros id
      let overlapWidth := min guide.ux (getX m + getWidth m) - max guide.lx (getX m)
      let overlapHeight := min guide.uy (getY m + getHeight m) - max guide.ly (getY m)
      let penalty := min (getWidth m) guide.getWidth * min (getHeight m) guide.getHeight
      if overlapWidth > 0 && overlapHeight > 0 then penalty - overlapWidth * overlapHeight
      else penalty).sum
    guidancePenalty / P.guides.length

def calFencePenalty : ℚ :=
  if P.coreWeights.fence ≤ 0 || P.fences.isEmpty then 0
  else
    let fencePenalty := (P.fences.map fun (id, bbox) =>
      let m := macros id
      if getWidth m * getHeight m ≤ 1 / 10000 then 0
      else if getWidth m > bbox.getWidth || getHeight m > bbox.getHeight then 0
      else
        let maxXDist := (bbox.getWidth - getWidth m) / 2
        let maxYDist := (bbox.getHeight - getHeight m) / 2
        let xDist := |(bbox.lx + bbox.ux) / 2 - (getX m + (getX m + getWidth m)) / 2|
        let yDist := |(bbox.ly + bbox.uy) / 2 - (getY m + (getY m + getHeight m)) / 2|
        let width := (if xDist ≤ maxXDist then 0 else xDist - maxXDist) / P.outline.getWidth
        let height := (if yDist ≤ maxYDist then 0 else yDist - maxYDist) / P.outline.getHeight
        width * width + height * height).sum
    fencePenalty / P.fences.length

end Penalty

/-- The penalties that both annealers have. -/
def calPenalty (P : Setup) (sa : SimulatedAnnealingCore T) : SimulatedAnnealingCore T :=
  { sa with
    outlinePenalty := calOutlinePenalty P sa.width sa.height
    wirelength := calWirelength P sa.macros
    guidancePenalty := calGuidancePenalty P sa.macros
    fencePenalty := calFencePenalty P sa.macros }

/-! ### Actions -/

/-- The random numbers of one perturbation: the action, two indices into the sequence pair, a macro,
one of its intervals, and three numbers between 0 and 1 for its new shape. -/
structure Choice where
  op : ℚ
  index1 : Nat
  index2 : Nat
  idx : Nat
  interval : Nat
  first : ℚ
  option : ℚ
  draw : ℚ

/-- `std::swap` of two entries -/
def swap (seq : List Nat) (i j : Nat) : List Nat :=
  match seq[i]?, seq[j]? with
  | some a, some b => (seq.set i b).set j a
  | _, _ => seq

variable (P : Setup) (c : Choice) (sa : SimulatedAnnealingCore T)

def singleSeqSwap (pos : Bool) : SimulatedAnnealingCore T :=
  if sa.posSeq.length ≤ 1 then sa
  else if pos then { sa with posSeq := swap sa.posSeq c.index1 c.index2 }
  else { sa with negSeq := swap sa.negSeq c.index1 c.index2 }

def doubleSeqSwap : SimulatedAnnealingCore T :=
  if sa.posSeq.length ≤ 1 then sa
  else
    { sa with
      posSeq := swap sa.posSeq c.index1 c.index2
      negSeq := swap sa.negSeq c.index1 c.index2 }

/-- The last position in the negative sequence of what is at `index` in the positive one. -/
def negIndex (posSeq negSeq : List Nat) (index : Nat) : Option Nat :=
  (List.range posSeq.length).foldl
    (fun found i => if posSeq[index]? = negSeq[i]? then some i else found) none

/-- `exchangeMacros`; `none` is the error that a macro is not in the negative sequence. -/
def exchangeMacros : Option (SimulatedAnnealingCore T) :=
  if sa.posSeq.length ≤ 1 then some sa
  else
    let posSeq := swap sa.posSeq c.index1 c.index2
    match negIndex posSeq sa.negSeq c.index1, negIndex posSeq sa.negSeq c.index2 with
    | some negIndex1, some negIndex2 =>
        some { sa with posSeq, negSeq := swap sa.negSeq negIndex1 negIndex2 }
    | _, _ => none

/-- The action of a perturbation; `fifth` is the one that is not about the sequence pair. -/
def act (fifth : SimulatedAnnealingCore T → Option (SimulatedAnnealingCore T)) :
    Option (SimulatedAnnealingCore T) :=
  let actionProb1 := P.posSwapProb
  let actionProb2 := actionProb1 + P.negSwapProb
  let actionProb3 := actionProb2 + P.doubleSwapProb
  let actionProb4 := actionProb3 + P.exchangeProb
  if c.op ≤ actionProb1 then some (singleSeqSwap c { sa with actionId := 1 } true)
  else if c.op ≤ actionProb2 then some (singleSeqSwap c { sa with actionId := 2 } false)
  else if c.op ≤ actionProb3 then some (doubleSeqSwap c { sa with actionId := 3 })
  else if c.op ≤ actionProb4 then exchangeMacros c { sa with actionId := 4 }
  else fifth { sa with actionId := 5, preMacros := sa.macros }

/-- The solution that `restore` goes back to. -/
def backUp : SimulatedAnnealingCore T :=
  { sa with
    prePosSeq := sa.posSeq
    preNegSeq := sa.negSeq
    preWidth := sa.width
    preHeight := sa.height
    preOutlinePenalty := sa.outlinePenalty
    preWirelength := sa.wirelength
    preGuidancePenalty := sa.guidancePenalty
    preFencePenalty := sa.fencePenalty }

/-- What the last action changed goes back, and the floorplan is not packed again. -/
def restoreWith (macros : Nat → T) : SimulatedAnnealingCore T :=
  { sa with
    macros := if sa.actionId = 5 then macros else sa.macros
    posSeq := if sa.actionId = 5 ∨ sa.actionId = 2 then sa.posSeq else sa.prePosSeq
    negSeq := if sa.actionId = 5 ∨ sa.actionId = 1 then sa.negSeq else sa.preNegSeq
    width := sa.preWidth
    height := sa.preHeight
    outlinePenalty := sa.preOutlinePenalty
    wirelength := sa.preWirelength
    guidancePenalty := sa.preGuidancePenalty
    fencePenalty := sa.preFencePenalty }

end SimulatedAnnealingCore

end OpenRoad.Mpl
