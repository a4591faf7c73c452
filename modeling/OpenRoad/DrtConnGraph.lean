import OpenRoad.DrtPinGCells
import OpenRoad.TreeSearch

/-!
The connectivity graph of a routed net: which path segments, vias and pins meet at which places, and
the search that puts a tree with all pins on paths.
-/

namespace OpenRoad.Drt

def Point3D.of (p : Db.Point) (layerNum : Int) : Point3D := ⟨p.x, p.y, layerNum⟩

def Point3D.point (pt : Point3D) : Db.Point := ⟨pt.x, pt.y⟩

/-- `frPathSeg`, with whether its ends have the style `frcTruncateEndStyle`. -/
structure PathSeg where
  beginPoint : Db.Point
  endPoint : Db.Point
  layerNum : Int
  beginTruncated : Bool
  endTruncated : Bool
  deriving DecidableEq

namespace PathSeg

variable (seg : PathSeg)

def isVertical : Bool := seg.beginPoint.x = seg.endPoint.x

/-- The coordinate of its track. -/
def track : Int := if seg.isVertical then seg.beginPoint.x else seg.beginPoint.y

def low : Int := if seg.isVertical then seg.beginPoint.y else seg.beginPoint.x
def high : Int := if seg.isVertical then seg.endPoint.y else seg.endPoint.x

/-- The segment runs along one axis, from its lower to its upper end. -/
def Ordered : Prop :=
  (seg.beginPoint.x = seg.endPoint.x ∧ seg.beginPoint.y ≤ seg.endPoint.y) ∨
    (seg.beginPoint.y = seg.endPoint.y ∧ seg.beginPoint.x ≤ seg.endPoint.x)

instance : Decidable seg.Ordered := by
  unfold Ordered
  infer_instance

/-- The place is on the segment. -/
def Contains (pt : Point3D) : Prop :=
  pt.z = seg.layerNum ∧ seg.beginPoint.x ≤ pt.x ∧ pt.x ≤ seg.endPoint.x ∧
    seg.beginPoint.y ≤ pt.y ∧ pt.y ≤ seg.endPoint.y

end PathSeg

/-- `frVia`, with the layers of its definition. -/
structure Via where
  origin : Db.Point
  layer1Num : Int
  layer2Num : Int
  isBottomConnected : Bool
  isTopConnected : Bool
  deriving DecidableEq

/-- A route object. -/
inductive RouteObj where
  | pathSeg (seg : PathSeg)
  | via (via : Via)
  deriving DecidableEq

/-- The place belongs to the object. -/
def RouteObj.Contains : RouteObj → Point3D → Prop
  | pathSeg seg, pt => seg.Contains pt
  | via v, pt => pt = Point3D.of v.origin v.layer1Num ∨ pt = Point3D.of v.origin v.layer2Num

/-- The route objects of a net; `setPoints_safe` orders the ends of a segment. -/
structure NetRouteObjs where
  objs : List RouteObj
  ordered : ∀ seg, .pathSeg seg ∈ objs → seg.Ordered

/-- The places of the net's ends in every pin. -/
abbrev Pin2EpMap := PinGCellMap

/-- `pin2epMap_helper`; `query` gives the pins of the net with a shape at a place. -/
def pin2epMapHelper (query : Point3D → List Nat) (map : Pin2EpMap) (pt : Point3D) : Pin2EpMap :=
  (query pt).foldl (fun map pin => map.insert pin pt) map

/-- `buildPin2epMap`: the truncated ends of the segments first, then the connected sides of the
vias. -/
def buildPin2epMap (query : Point3D → List Nat) (objs : List RouteObj) : Pin2EpMap :=
  let ends := objs.flatMap fun
    | .pathSeg seg =>
        (if seg.beginTruncated then [Point3D.of seg.beginPoint seg.layerNum] else []) ++
          (if seg.endTruncated then [Point3D.of seg.endPoint seg.layerNum] else [])
    | .via _ => []
  let sides := objs.flatMap fun
    | .pathSeg _ => []
    | .via v =>
        (if v.isBottomConnected then [Point3D.of v.origin v.layer1Num] else []) ++
          (if v.isTopConnected then [Point3D.of v.origin v.layer2Num] else [])
  (ends ++ sides).foldl (pin2epMapHelper query) ⟨[], List.Pairwise.nil⟩

namespace Conn

variable (objs : List RouteObj)

/-- The ends of an object. -/
def objEnds : RouteObj → List Point3D
  | .pathSeg seg => [Point3D.of seg.beginPoint seg.layerNum, Point3D.of seg.endPoint seg.layerNum]
  | .via v => [Point3D.of v.origin v.layer1Num, Point3D.of v.origin v.layer2Num]

/-- `nodeMap_routeObjEnd` -/
def nodeMapRouteObjEnd (map : NodeMap) : NodeMap :=
  objs.zipIdx.foldl (fun map obj => insertGCells map (objEnds obj.1) obj.2) map

/-- The segments of one track in a merge helper: the upper ends with the lower ends and the
indices. -/
def mergeHelper (vertical : Bool) (layerNum trackCoord : Int) : List (Int × Int × Nat) :=
  objs.zipIdx.filterMap fun
    | (.pathSeg seg, i) =>
        if seg.isVertical = vertical ∧ seg.layerNum = layerNum ∧ seg.track = trackCoord then
          some (seg.high, seg.low, i)
        else none
    | (.via _, _) => none

/-- The element that `lower_bound` finds; a later segment replaces one with the same upper end. -/
def lowerBound (splitCoord : Int) (entries : List (Int × Int × Nat)) : Option (Int × Int × Nat) :=
  entries.foldl (fun found entry =>
    if entry.1 < splitCoord then found
    else
      match found with
      | none => some entry
      | some other => if entry.1 ≤ other.1 then some entry else found) none

/-- The coordinates of a place across and along the vertical or the horizontal segments. -/
def trackCoord (vertical : Bool) (pt : Point3D) : Int := if vertical then pt.x else pt.y

def splitCoord (vertical : Bool) (pt : Point3D) : Int := if vertical then pt.y else pt.x

/-- `nodeMap_routeObjSplit_helper` on the vertical or on the horizontal segments. -/
def nodeMapRouteObjSplitHelper (vertical : Bool) (map : NodeMap) (crossPt : Point3D) : NodeMap :=
  match lowerBound (splitCoord vertical crossPt)
      (mergeHelper objs vertical crossPt.z (trackCoord vertical crossPt)) with
  | none => map
  | some (endP, beginP, objIdx) =>
      if beginP < splitCoord vertical crossPt && splitCoord vertical crossPt < endP then
        map.insert crossPt objIdx
      else map

/-- The places at which an object may lie inside a segment, with the direction of the segments. -/
def crossings : RouteObj → List (Bool × Point3D)
  | .pathSeg seg =>
      [(!seg.isVertical, Point3D.of seg.beginPoint seg.layerNum),
        (!seg.isVertical, Point3D.of seg.endPoint seg.layerNum)]
  | .via v =>
      [(false, Point3D.of v.origin v.layer1Num), (true, Point3D.of v.origin v.layer1Num),
        (false, Point3D.of v.origin v.layer2Num), (true, Point3D.of v.origin v.layer2Num)]

/-- `nodeMap_routeObjSplit` -/
def nodeMapRouteObjSplit (map : NodeMap) : NodeMap :=
  (objs.flatMap crossings).foldl
    (fun map cross => nodeMapRouteObjSplitHelper objs cross.1 map cross.2) map

/-- `nodeMap_pin`: the pins follow the objects. -/
def nodeMapPin (pin2epMap : Pin2EpMap) (map : NodeMap) : NodeMap :=
  (pin2epMap.entries.zipIdx objs.length).foldl (fun map pin => insertGCells map pin.1.2 pin.2) map

def buildNodeMap (pin2epMap : Pin2EpMap) : NodeMap :=
  nodeMapPin objs pin2epMap (nodeMapRouteObjSplit objs (nodeMapRouteObjEnd objs NodeMap.empty))

/-- Whether two nodes at a place are adjacent: a segment meets a pin only with a truncated end, a
via only with a connected side. -/
def validConnection (pt : Point3D) (idx₁ idx₂ : Nat) : Bool :=
  if decide (objs.length ≤ idx₁) != decide (objs.length ≤ idx₂) then
    match objs[if objs.length ≤ idx₁ then idx₂ else idx₁]? with
    | some (.pathSeg seg) =>
        (seg.beginPoint = pt.point && seg.beginTruncated) ||
          (seg.endPoint = pt.point && seg.endTruncated)
    | some (.via v) => v.isBottomConnected || v.isTopConnected
    | none => false
  else true

/-- The edges of the nodes at a place. -/
def placeEdges (pt : Point3D) : List Nat → List (Nat × Nat)
  | [] => []
  | idx :: rest =>
      (rest.filter (validConnection objs pt idx)).flatMap (fun other => [(idx, other), (other, idx)])
        ++ placeEdges pt rest

/-- `adjVec` -/
def adjVec (map : NodeMap) (idx : Nat) : List Nat :=
  (map.keys.flatMap fun pt => placeEdges objs pt (map.indices pt)).filterMap fun edge =>
    if edge.1 = idx then some edge.2 else none

/-- What `astar` searches: every pin but the first one ends a search. -/
def graph (map : NodeMap) (nNetObjs : Nat) : TreeSearch where
  adj := adjVec objs map
  root := objs.length
  isTarget := fun idx => objs.length < idx && idx < nNetObjs
  stepCost := fun _ => 1

/-- The queue of a round: the first pin in the first round, then all that is on paths, with pins as
feedthroughs at a penalty. -/
def initialQueue (nNetObjs : Nat) (first : Bool) (p : TreeSearch.Paths) : List Wavefront :=
  if first then [⟨objs.length, none, 0⟩]
  else ((List.range nNetObjs).filter p.isOnPath).map fun i =>
    ⟨i, p.prevIdx i, if objs.length ≤ i then 5 else 0⟩

/-- The rounds of `astar`. -/
def rounds (Q : TopQueue Wavefront.less) (fuel : Nat) (map : NodeMap) (nNetObjs : Nat) :
    Nat → Bool → TreeSearch.Paths → Option TreeSearch.Paths
  | 0, _, p => some p
  | count + 1, first, p =>
      match (graph objs map nNetObjs).searchOnce Q fuel p (initialQueue objs nNetObjs first p) with
      | none => none
      | some p' => rounds Q fuel map nNetObjs count false p'

/-- `astar`: the result and the arrays it leaves. -/
def astar (Q : TopQueue Wavefront.less) (fuel : Nat) (map : NodeMap) (nNetObjs : Nat) :
    Option (Bool × TreeSearch.Paths) :=
  match rounds objs Q fuel map nNetObjs (nNetObjs - 1 - objs.length) true
      ⟨fun _ => false, fun _ => false, fun _ => none⟩ with
  | none => none
  | some p =>
      let pinVisited := ((List.range (nNetObjs - objs.length)).filter fun k =>
        p.visited (objs.length + k)).length
      some (pinVisited = nNetObjs - objs.length, p)

end Conn

end OpenRoad.Drt

/-!
`FlexDRConnectivityChecker::finish`: what is not on a path goes, segments are split where they run
through a pin, from right to left, and every segment shrinks to the hull of the places it shares.
-/

namespace OpenRoad.Drt.Conn

/-- What `finish` works on. A removed object is `none`; a split segment comes after the pins. -/
structure Finish where
  objs : Nat → Option RouteObj
  nodeMap : NodeMap
  reverseNodeMap : Nat → Option (List Point3D)
  added : Nat

variable (gCnt nCnt : Nat)

/-- The first `reverseNodeMap`: the places of a node. -/
def placesOf (map : NodeMap) (idx : Nat) : List Point3D :=
  map.keys.filter fun pt => idx ∈ map.indices pt

/-- A node that is not on a path is erased from its places, and its object is removed. A pin there
ends the program. -/
def deleteRedundant (visited : Nat → Bool) (places : Nat → List Point3D) (s : Finish) (idx : Nat) :
    Option Finish :=
  if visited idx then some s
  else if idx < gCnt then
    some { s with
      nodeMap := (places idx).foldl (fun map pt => map.erase pt idx) s.nodeMap
      objs := Function.update s.objs idx none }
  else none

/-- The second `reverseNodeMap` leaves out the places with a single node. -/
def sharedPlaces (map : NodeMap) (idx : Nat) : Option (List Point3D) :=
  match map.keys.filter fun pt => (map.indices pt).length ≠ 1 && idx ∈ map.indices pt with
  | [] => none
  | places => some places

/-- The segment that runs through a place at which no other object ends; the outer `none` is a
removed object that the map still has. -/
def throughSegment (objs : Nat → Option RouteObj) (pt : Point3D) :
    Option Nat → List Nat → Option (Option Nat)
  | psIdx, [] => some psIdx
  | psIdx, idx :: rest =>
      if gCnt ≤ idx then throughSegment objs pt psIdx rest
      else
        match objs idx with
        | none => none
        | some (.via _) => some none
        | some (.pathSeg seg) =>
            if seg.beginPoint = pt.point || seg.endPoint = pt.point then some none
            else throughSegment objs pt (some idx) rest

/-- The split of a place with a pin. -/
def psSplit (s : Finish) (pt : Point3D) : Option (Option Nat) :=
  if (s.nodeMap.indices pt).any (gCnt ≤ ·) then
    throughSegment gCnt s.objs pt none (s.nodeMap.indices pt)
  else some none

/-- `psSplits`, in the order of its places. -/
def psSplits (s : Finish) : List Point3D → Option (List (Point3D × Nat))
  | [] => some []
  | pt :: rest =>
      match psSplit gCnt s pt, psSplits s rest with
      | some none, some splits => some splits
      | some (some idx), some splits => some ((pt, idx) :: splits)
      | _, _ => none

/-- The coordinate of a place along a segment. -/
def along (isHorz : Bool) (pt : Point3D) : Int := if isHorz then pt.x else pt.y

/-- The places right of a split go to the new segment, and the split itself to both. -/
def moveNode (isHorz : Bool) (split : Point3D) (idx₁ idx₂ : Nat) (map : NodeMap) (pt : Point3D) :
    NodeMap :=
  let map := if along isHorz pt ≤ along isHorz split then map else map.erase pt idx₁
  if along isHorz split ≤ along isHorz pt then map.insert pt idx₂ else map

/-- A segment is split; the left part keeps the index. -/
def splitSegment (s : Finish) (split : Point3D × Nat) : Option Finish :=
  let idx₁ := split.2
  let idx₂ := nCnt + s.added
  match s.objs idx₁ with
  | some (.pathSeg ps₁) =>
      let isHorz : Bool := ps₁.beginPoint.y = ps₁.endPoint.y
      let places := (s.reverseNodeMap idx₁).getD []
      let newPr₁ := places.filter fun pt => along isHorz pt ≤ along isHorz split.1
      let newPr₂ := places.filter fun pt => along isHorz split.1 ≤ along isHorz pt
      some
        { objs := Function.update
            (Function.update s.objs idx₁ (some (.pathSeg
              { ps₁ with endPoint := split.1.point, endTruncated := true })))
            idx₂ (some (.pathSeg { ps₁ with beginPoint := split.1.point, beginTruncated := true }))
          nodeMap := places.foldl (moveNode isHorz split.1 idx₁ idx₂) s.nodeMap
          reverseNodeMap := Function.update
            (Function.update s.reverseNodeMap idx₁ (some newPr₁)) idx₂ (some newPr₂)
          added := s.added + 1 }
  | _ => none

/-- The first of the elements that no other one precedes. -/
def extreme (r : Point3D → Point3D → Prop) [DecidableRel r] (first : Point3D)
    (rest : List Point3D) : Point3D :=
  rest.foldl (fun best pt => if r best pt then best else pt) first

/-- `operator<` of points. -/
def pointLt (p q : Db.Point) : Bool := p.x < q.x || (p.x = q.x && p.y < q.y)

/-- A segment shrinks to the hull of its places. -/
def shrinkSegment (ps : PathSeg) (first : Point3D) (rest : List Point3D) : PathSeg :=
  let minPt := (extreme Point3D.le first rest).point
  let maxPt := (extreme (fun p q => Point3D.le q p) first rest).point
  if pointLt ps.beginPoint minPt || pointLt maxPt ps.endPoint then
    { ps with beginPoint := minPt, endPoint := maxPt }
  else ps

/-- One entry of `reverseNodeMap` in the last loop; `minmax_element` of nothing is a fault. -/
def shrinkNode (s : Finish) (idx : Nat) : Option Finish :=
  match s.reverseNodeMap idx, s.objs idx with
  | some (first :: rest), some (.pathSeg ps) =>
      some { s with objs := Function.update s.objs idx (some (.pathSeg (shrinkSegment ps first rest))) }
  | some [], some (.pathSeg _) => none
  | _, _ => some s

/-- `finish`, as far as it changes the segments and the vias of the net. -/
def finish (objs : List RouteObj) (visited : Nat → Bool) (nodeMap : NodeMap) : Option Finish := do
  let s₀ : Finish := ⟨fun idx => objs[idx]?, nodeMap, fun _ => none, 0⟩
  let s₁ ← (List.range nCnt).foldlM (deleteRedundant gCnt visited (placesOf nodeMap)) s₀
  let s₂ := { s₁ with reverseNodeMap := sharedPlaces s₁.nodeMap }
  let splits ← psSplits gCnt s₂ s₂.nodeMap.keys
  -- splits start from the right
  let s₃ ← splits.reverse.foldlM (splitSegment nCnt) s₂
  (List.range (nCnt + s₃.added)).foldlM shrinkNode s₃

end OpenRoad.Drt.Conn
