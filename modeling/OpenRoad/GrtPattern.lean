import OpenRoad.GrtTree
import OpenRoad.Run
import Mathlib.Algebra.Order.Ring.Rat
import Mathlib.Data.List.Nodup
import Mathlib.Tactic.Common

/-!
Patterns. A two-point edge of a tree may be routed as an L or a Z; a ripup takes back from the
estimated usage what the recorded route covers, whatever its type.
-/

namespace OpenRoad.Grt

open Tally

/-- The numbers from `a` up to `b`, without `b`. -/
def span (a b : Int) : List Int := (List.range (b - a).toNat).map fun k : Nat => a + k

def hSpan (y a b : Int) : List GridEdge := (span a b).map fun i => hEdge y i

def vSpan (x a b : Int) : List GridEdge := (span a b).map fun i => vEdge i x

namespace Ends

variable (ends : Ends)

def ymin : Int := min ends.y1 ends.y2

def ymax : Int := max ends.y1 ends.y2

/-- The two parts of an L route. -/
def lEdges (xFirst : Bool) : List GridEdge :=
  if xFirst then hSpan ends.y1 ends.x1 ends.x2 ++ vSpan ends.x2 ends.ymin ends.ymax
  else vSpan ends.x1 ends.ymin ends.ymax ++ hSpan ends.y2 ends.x1 ends.x2

/-- The three parts of a Z route that bends at `z`. -/
def zEdges (hvh : Bool) (z : Int) : List GridEdge :=
  if hvh then
    hSpan ends.y1 ends.x1 z ++ hSpan ends.y2 z ends.x2 ++ vSpan z ends.ymin ends.ymax
  else if ends.y1 < ends.y2 then
    vSpan ends.x1 ends.y1 z ++ vSpan ends.x2 z ends.y2 ++ hSpan z ends.x1 ends.x2
  else vSpan ends.x2 ends.y2 z ++ vSpan ends.x1 z ends.y1 ++ hSpan z ends.x1 ends.x2

end Ends

namespace Route

variable (route : Route) (ends : Ends)

/-- A step of a maze route as a ripup reads it; a step that is neither vertical nor horizontal is an
error. -/
def ripupStep (i : Nat) : Option GridEdge :=
  let x := route.gridsX.getD i 0
  let y := route.gridsY.getD i 0
  let x' := route.gridsX.getD (i + 1) 0
  let y' := route.gridsY.getD (i + 1) 0
  if x = x' then some (vEdge (min y y') x)
  else if y = y' then some (hEdge y (min x x'))
  else none

/-- What a ripup takes back: `newRipup`, `newRipupNet`. -/
def ripupEdges : Option (List GridEdge) :=
  match route.type with
  | .noRoute => some []
  | .lRoute => some (ends.lEdges route.xFirst)
  | .zRoute => some (ends.zEdges route.hvh route.zpoint)
  | .mazeRoute => (List.range route.routelen).mapM route.ripupStep

end Route

def bigInt : ℚ := 1000000000

namespace StTree

variable (tree : StTree)

def ends (edge : TreeEdge) : Ends where
  x1 := (tree.nodes.getD edge.n1 default).x
  y1 := (tree.nodes.getD edge.n1 default).y
  x2 := (tree.nodes.getD edge.n2 default).x
  y2 := (tree.nodes.getD edge.n2 default).y

end StTree

namespace FastRouteCore

variable (core : FastRouteCore)

/-! ### Edges of trees -/

/-- A net and one of its edges. -/
abbrev EdgeId := Nat × Nat

def edgeOf (id : EdgeId) : TreeEdge := (core.sttrees id.1).edges.getD id.2 default

def endsOf (id : EdgeId) : Ends := (core.sttrees id.1).ends (core.edgeOf id)

/-- All edges, net by net. -/
def edgeIds : List EdgeId :=
  core.netIds.flatMap fun netID =>
    (List.range (core.sttrees netID).edges.length).map fun edgeID => (netID, edgeID)

def setRoute (id : EdgeId) (route : Route) : FastRouteCore :=
  let tree := core.sttrees id.1
  { core with
    sttrees := Function.update core.sttrees id.1
      { tree with edges := tree.edges.set id.2 { core.edgeOf id with route := route } } }

def release (amount : ℚ) (gridEdges : List GridEdge) : FastRouteCore :=
  { core with
    estUsage := post (· - ·) core.estUsage (gridEdges.map fun gridEdge => (gridEdge, amount)) }

def use (gridEdges : List GridEdge) : FastRouteCore :=
  { core with usedGgrid := core.usedGgrid ∪ gridEdges.toFinset }

def newRipup (id : EdgeId) : Option FastRouteCore :=
  if (core.edgeOf id).len = 0 then some core
  else
    ((core.edgeOf id).route.ripupEdges (core.endsOf id)).map fun gridEdges =>
      core.release (core.edgeCost id.1) gridEdges

end FastRouteCore

end OpenRoad.Grt
