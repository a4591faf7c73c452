import OpenRoad.GrtPattern
import Mathlib.Algebra.Order.Ring.Int
import Mathlib.Data.List.GetD
import Mathlib.Tactic.Ring

/-!
What routing leaves alone. The spans of an L or a Z are runs of grid edges, the ends of a connection
are points of the grid, and recording a route changes one edge of one tree and no node.
-/

namespace OpenRoad.Grt

theorem mem_span {a b i : Int} : i ∈ span a b ↔ a ≤ i ∧ i < b := by
  unfold span
  rw [List.mem_map]
  constructor
  · rintro ⟨k, hk, rfl⟩
    have hlt := List.mem_range.mp hk
    omega
  · intro hi
    refine ⟨(i - a).toNat, List.mem_range.mpr (by omega), by omega⟩

theorem span_of_le {a b : Int} (hle : b ≤ a) : span a b = [] := by
  unfold span
  rw [Int.toNat_of_nonpos (by omega)]
  rfl

namespace FastRouteCore

variable {core : FastRouteCore}

/-- The ends of a connection are points of the grid, the left one first. -/
structure Placed (core : FastRouteCore) (ends : Ends) : Prop where
  x1_nonneg : 0 ≤ ends.x1
  x1_le : ends.x1 ≤ ends.x2
  x2_lt : ends.x2 < core.xGrid
  y1 : 0 ≤ ends.y1 ∧ ends.y1 < core.yGrid
  y2 : 0 ≤ ends.y2 ∧ ends.y2 < core.yGrid

variable {ends : Ends}

theorem Placed.ymin_nonneg (hplaced : core.Placed ends) : 0 ≤ ends.ymin :=
  le_min hplaced.y1.1 hplaced.y2.1

theorem Placed.ymax_lt (hplaced : core.Placed ends) : ends.ymax < core.yGrid :=
  max_lt hplaced.y1.2 hplaced.y2.2

end FastRouteCore

/-- What routing leaves alone of a tree: the points of its nodes, and the length and the ends of
every edge. -/
structure Skeleton where
  numTerminals : Nat
  points : List (Int × Int)
  edges : List (Nat × Nat × Nat)

def StTree.skeleton (tree : StTree) : Skeleton where
  numTerminals := tree.numTerminals
  points := tree.nodes.map fun node => (node.x, node.y)
  edges := tree.edges.map fun edge => (edge.len, edge.n1, edge.n2)

namespace FastRouteCore

/-- What pattern routing never changes. -/
structure Keeps (core core' : FastRouteCore) : Prop where
  netIds : core'.netIds = core.netIds
  edgeCost : core'.edgeCost = core.edgeCost
  xGrid : core'.xGrid = core.xGrid
  yGrid : core'.yGrid = core.yGrid
  skeleton : ∀ netID, (core'.sttrees netID).skeleton = (core.sttrees netID).skeleton

namespace Keeps

variable {core core' core'' : FastRouteCore}

theorem refl (core : FastRouteCore) : core.Keeps core := ⟨rfl, rfl, rfl, rfl, fun _ => rfl⟩

theorem trans (hfirst : core.Keeps core') (hsecond : core'.Keeps core'') : core.Keeps core'' where
  netIds := hsecond.netIds.trans hfirst.netIds
  edgeCost := hsecond.edgeCost.trans hfirst.edgeCost
  xGrid := hsecond.xGrid.trans hfirst.xGrid
  yGrid := hsecond.yGrid.trans hfirst.yGrid
  skeleton netID := (hsecond.skeleton netID).trans (hfirst.skeleton netID)

variable (hkeeps : core.Keeps core')

include hkeeps

theorem edges_length (netID : Nat) :
    (core'.sttrees netID).edges.length = (core.sttrees netID).edges.length := by
  have hedges := congrArg (fun s => s.edges.length) (hkeeps.skeleton netID)
  simpa only [StTree.skeleton, List.length_map] using hedges

end Keeps

variable {core : FastRouteCore} {id : EdgeId}

theorem skeleton_set (tree : StTree) (i : Nat) (route : Route) :
    StTree.skeleton { tree with
      edges := tree.edges.set i { tree.edges.getD i default with route := route } } =
      tree.skeleton := by
  have hedges : ((tree.edges.set i { tree.edges.getD i default with route := route }).map
      fun edge => (edge.len, edge.n1, edge.n2)) =
      tree.edges.map fun edge => (edge.len, edge.n1, edge.n2) := by
    rw [List.map_set]
    by_cases hi : i < tree.edges.length
    · rw [List.getD_eq_getElem _ _ hi]
      have hi' : i < (tree.edges.map fun edge => (edge.len, edge.n1, edge.n2)).length := by
        rw [List.length_map]
        exact hi
      have hself := List.set_getElem_self hi'
      rw [List.getElem_map] at hself
      exact hself
    · exact List.set_eq_of_length_le (by rw [List.length_map]; omega)
  unfold StTree.skeleton
  rw [hedges]

theorem keeps_setRoute (core : FastRouteCore) (id : EdgeId) (route : Route) :
    core.Keeps (core.setRoute id route) where
  netIds := rfl
  edgeCost := rfl
  xGrid := rfl
  yGrid := rfl
  skeleton netID := by
    show (Function.update core.sttrees id.1 _ netID).skeleton = _
    by_cases heq : netID = id.1
    · rw [heq, Function.update_self]
      exact skeleton_set (core.sttrees id.1) id.2 route
    · rw [Function.update_of_ne heq]

/-- An edge that exists. -/
def Exists (core : FastRouteCore) (id : EdgeId) : Prop := id.2 < (core.sttrees id.1).edges.length

theorem sttrees_setRoute (core : FastRouteCore) (id : EdgeId) (route : Route) :
    (core.setRoute id route).sttrees = Function.update core.sttrees id.1
      { core.sttrees id.1 with
        edges := (core.sttrees id.1).edges.set id.2 { core.edgeOf id with route := route } } := rfl

theorem edgeOf_setRoute_self (hid : core.Exists id) (route : Route) :
    (core.setRoute id route).edgeOf id = { core.edgeOf id with route := route } := by
  show ((core.setRoute id route).sttrees id.1).edges.getD id.2 default = _
  rw [sttrees_setRoute, Function.update_self]
  rw [List.getD_eq_getElem _ _ (by rw [List.length_set]; exact hid), List.getElem_set_self]

theorem edgeOf_setRoute_of_ne {other : EdgeId} (hne : other ≠ id) (route : Route) :
    (core.setRoute id route).edgeOf other = core.edgeOf other := by
  show ((core.setRoute id route).sttrees other.1).edges.getD other.2 default =
    (core.sttrees other.1).edges.getD other.2 default
  rw [sttrees_setRoute]
  by_cases hnet : other.1 = id.1
  · have hedge : id.2 ≠ other.2 := fun heq => hne (Prod.ext hnet heq.symm)
    rw [hnet, Function.update_self]
    rw [List.getD_eq_getElem?_getD, List.getElem?_set_ne hedge, ← List.getD_eq_getElem?_getD]
  · rw [Function.update_of_ne hnet]

/-! ### All edges -/

theorem mem_edgeIds : id ∈ core.edgeIds ↔ id.1 ∈ core.netIds ∧ core.Exists id := by
  unfold edgeIds
  rw [List.mem_flatMap]
  constructor
  · rintro ⟨netID, hnet, hid⟩
    obtain ⟨i, hi, rfl⟩ := List.mem_map.mp hid
    exact ⟨hnet, List.mem_range.mp hi⟩
  · rintro ⟨hnet, hexists⟩
    exact ⟨id.1, hnet, List.mem_map.mpr ⟨id.2, List.mem_range.mpr hexists, rfl⟩⟩

theorem edgeIds_nodup (core : FastRouteCore) : core.edgeIds.Nodup := by
  unfold edgeIds
  rw [List.nodup_flatMap]
  refine ⟨fun netID _ => ?_, core.netIds_nodup.imp ?_⟩
  · exact List.nodup_range.map fun i j heq => congrArg Prod.snd heq
  · intro netID other hne
    rw [Function.onFun_apply, List.disjoint_left]
    rintro id hid hother
    obtain ⟨i, -, rfl⟩ := List.mem_map.mp hid
    obtain ⟨j, -, heq⟩ := List.mem_map.mp hother
    exact hne (congrArg Prod.fst heq).symm

end FastRouteCore

end OpenRoad.Grt
