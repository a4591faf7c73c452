import OpenRoad.Tally
import Mathlib.Data.Finset.Insert
import Mathlib.Data.Fintype.Pi
import Mathlib.Data.Int.Order.Basic
import Mathlib.Data.Rat.Defs

/-!
The Steiner trees of the nets and the grid edges their routes cover. A grid edge leads from a point
of the grid to its right or upper neighbour; what a step of a route covers is the grid edge between
its two points.
-/

namespace OpenRoad.Grt

inductive EdgeDirection where
  | horizontal
  | vertical
  deriving DecidableEq, Repr

/-- An index of `h_edges_` or `v_edges_`: the grid edge that starts at a point. -/
structure GridEdge where
  direction : EdgeDirection
  y : Int
  x : Int
  deriving DecidableEq, Repr

abbrev hEdge (y x : Int) : GridEdge := ⟨.horizontal, y, x⟩

abbrev vEdge (y x : Int) : GridEdge := ⟨.vertical, y, x⟩

inductive RouteType where
  | noRoute
  | lRoute
  | zRoute
  | mazeRoute
  deriving DecidableEq, Repr

/-- A route in the plane. An L route bends once, horizontally first or not; a Z route bends at
`zpoint`; a maze route is the list of the points it passes. -/
structure Route where
  type : RouteType
  xFirst : Bool := false
  hvh : Bool := false
  zpoint : Int := -1
  gridsX : List Int := []
  gridsY : List Int := []
  routelen : Nat := 0
  deriving DecidableEq, Repr

structure TreeEdge where
  len : Nat
  n1 : Nat
  n1a : Nat := 0
  n2 : Nat
  n2a : Nat := 0
  route : Route
  deriving DecidableEq, Repr

/-- A pin or a Steiner node; a node has at most three neighbours. -/
structure TreeNode where
  x : Int
  y : Int
  nbrCount : Nat := 0
  nbr : Fin 3 → Nat := fun _ => 0
  edge : Fin 3 → Nat := fun _ => 0
  stackAlias : Nat := 0
  deriving DecidableEq

/-- The nodes, pins first, and the edges of a net. -/
structure StTree where
  numTerminals : Nat := 0
  nodes : List TreeNode := []
  edges : List TreeEdge := []
  deriving DecidableEq

/-- Where the two ends of a connection are. -/
structure Ends where
  x1 : Int
  y1 : Int
  x2 : Int
  y2 : Int
  deriving DecidableEq, Repr

/-- A connection of two pins, and how its L route bends. -/
structure Segment extends Ends where
  xFirst : Bool := false
  deriving DecidableEq, Repr

/-- The nets with what one of their routes costs a grid edge, their segments and trees, the saved
trees, and how much of every grid edge is used: `estUsage` while patterns are routed, `usage` from
then on. -/
structure FastRouteCore where
  xGrid : Int := 0
  yGrid : Int := 0
  netIds : List Nat
  netIds_nodup : netIds.Nodup
  edgeCost : Nat → Nat
  edgeCapacity : Nat → GridEdge → Int := fun _ _ => 0
  seglist : Nat → List Segment := fun _ => []
  sttrees : Nat → StTree
  sttreesBk : Option (Nat → StTree) := none
  estUsage : GridEdge → ℚ := fun _ => 0
  usage : GridEdge → UInt16 := fun _ => 0
  usedGgrid : Finset GridEdge := ∅

theorem FastRouteCore.nodup_oneNet : ([0] : List Nat).Nodup := List.nodup_singleton 0

instance : Inhabited Route := ⟨{ type := .noRoute }⟩

instance : Inhabited TreeEdge := ⟨{ len := 0, n1 := 0, n2 := 0, route := default }⟩

instance : Inhabited TreeNode := ⟨{ x := 0, y := 0 }⟩

instance : Inhabited StTree := ⟨{}⟩

/-- The grid edge between two neighbouring points. -/
def edgeBetween (x y x' y' : Int) : GridEdge :=
  if x = x' then vEdge (min y y') x else hEdge y (min x x')

namespace Route

variable (route : Route)

/-- The grid edge of the step from the point `i` to the next. -/
def edgeAt (i : Nat) : GridEdge :=
  edgeBetween (route.gridsX.getD i 0) (route.gridsY.getD i 0) (route.gridsX.getD (i + 1) 0)
    (route.gridsY.getD (i + 1) 0)

/-- The step stays where it is. -/
def Stays (i : Nat) : Prop :=
  route.gridsX.getD i 0 = route.gridsX.getD (i + 1) 0 ∧
    route.gridsY.getD i 0 = route.gridsY.getD (i + 1) 0

instance (i : Nat) : Decidable (route.Stays i) := inferInstanceAs (Decidable (_ ∧ _))

/-- The grid edges a maze route covers, step by step. -/
def covered : List GridEdge :=
  ((List.range route.routelen).filter fun i => !decide (route.Stays i)).map route.edgeAt

/-- The points of a route are stored in full, and every step moves. -/
def Moves : Prop :=
  route.gridsX.length = route.routelen + 1 ∧ route.gridsY.length = route.routelen + 1 ∧
    ∀ i < route.routelen, ¬route.Stays i

instance : Decidable route.Moves := inferInstanceAs (Decidable (_ ∧ _ ∧ _))

theorem Moves.covered_eq {route : Route} (hmoves : route.Moves) :
    route.covered = (List.range route.routelen).map route.edgeAt := by
  have hall : ((List.range route.routelen).filter fun i => !decide (route.Stays i)) =
      List.range route.routelen := by
    apply List.filter_eq_self.mpr
    intro i hi
    have hstays := hmoves.2.2 i (List.mem_range.mp hi)
    simp [hstays]
  unfold covered
  rw [hall]

end Route

/-- `resize` of a vector: the elements past the size go, the missing ones are new. -/
def resize {α : Type*} (list : List α) (size : Nat) (new : α) : List α :=
  (list ++ List.replicate size new).take size

section Resize

variable {α : Type*} (list : List α) (size : Nat) (new : α)

@[simp] theorem length_resize : (resize list size new).length = size := by
  unfold resize
  rw [List.length_take, List.length_append, List.length_replicate]
  omega

theorem getElem?_resize {i : Nat} (hi : i < size) :
    (resize list size new)[i]? = some (list.getD i new) := by
  unfold resize
  rw [List.getElem?_take_of_lt hi, List.getD_eq_getElem?_getD]
  by_cases hlt : i < list.length
  · rw [List.getElem?_append_left hlt, List.getElem?_eq_getElem hlt, Option.getD_some]
  · have hle : list.length ≤ i := Nat.le_of_not_lt hlt
    rw [List.getElem?_append_right hle, List.getElem?_replicate, if_pos (by omega),
      List.getElem?_eq_none hle, Option.getD_none]

end Resize

end OpenRoad.Grt
