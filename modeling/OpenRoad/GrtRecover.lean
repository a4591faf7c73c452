import OpenRoad.GrtPath
import Mathlib.Tactic.NormNum

/-!
Rip-up of one edge of a routed tree with layers, and its recovery. The nodes of the tree keep a table of
their edges, with the layers these start at, and the extreme layers of the table; a pin adds its own
layer to them.
-/

namespace OpenRoad.Grt

open Tally

/-! ### Trees with layers -/

structure LayeredRoute extends Route where
  gridsL : List Int := []

structure LayeredEdge where
  len : Nat
  n1a : Nat
  n2a : Nat
  route : LayeredRoute

/-- The table of a node (`eID` and `heights`, of `conCNT` entries) and its extreme layers, with the edges
that attain them. -/
structure LayeredNode where
  connections : List (Nat × Int) := []
  botL : Int := -1
  topL : Int := -1
  hID : Option Nat := none
  lID : Option Nat := none
  assigned : Bool := false

/-- The nodes, pins first, with the layers of the pins. -/
structure LayeredTree where
  numTerminals : Nat := 0
  pinL : List Int := []
  nodes : List LayeredNode := []
  edges : List LayeredEdge := []

/-- The trees of the nets, with what a route costs a grid edge and a layer of it, and the usages. -/
structure LayeredCore where
  sttrees : Nat → LayeredTree
  edgeCost : Nat → Nat
  layerEdgeCost : Nat → Int → Nat
  usage : GridEdge → UInt16 := fun _ => 0
  usage3D : Int × GridEdge → UInt16 := fun _ => 0
  usedGgrid : Finset GridEdge := ∅

instance : Inhabited LayeredNode := ⟨{}⟩

instance : Inhabited LayeredEdge :=
  ⟨{ len := 0, n1a := 0, n2a := 0, route := { type := .noRoute } }⟩

namespace LayeredRoute

variable (route : LayeredRoute)

def layer (i : Nat) : Int := route.gridsL.getD i 0

/-- The steps that stay on their layer. -/
def levelSteps : List Nat :=
  (List.range route.routelen).filter fun i => decide (route.layer i = route.layer (i + 1))

/-- Neither vertical nor horizontal. -/
def Wrong (i : Nat) : Prop :=
  route.gridsX.getD i 0 ≠ route.gridsX.getD (i + 1) 0 ∧
    route.gridsY.getD i 0 ≠ route.gridsY.getD (i + 1) 0

instance (i : Nat) : Decidable (route.Wrong i) := inferInstanceAs (Decidable (_ ∧ _))

/-- The grid edges of the steps, with their layers. -/
def planar : List (Int × GridEdge) :=
  (route.levelSteps.filter fun i => !decide (route.Wrong i)).map fun i =>
    (route.layer i, route.edgeAt i)

end LayeredRoute

/-- A layer as it is stored. -/
def toShort (layer : Int) : Int := layer.bmod 65536

/-- The infinity of the router. -/
def noLayer : Int := 1000000000

/-- The extreme layers found so far: `bl` and `hl`, with the edges that attain them. -/
structure Extremes where
  bl : Int
  hl : Int
  bid : Option Nat := none
  hid : Option Nat := none

def Extremes.look (found : Extremes) (connection : Nat × Int) : Extremes where
  bl := if found.bl > connection.2 then connection.2 else found.bl
  bid := if found.bl > connection.2 then some connection.1 else found.bid
  hl := if found.hl < connection.2 then connection.2 else found.hl
  hid := if found.hl < connection.2 then some connection.1 else found.hid

namespace LayeredNode

variable (node : LayeredNode)

/-- The scan for the edge: what is behind it moves up, and is looked at like what is before it. -/
def ripLoop (edgeID : Nat) : Extremes → List (Nat × Int) → List (Nat × Int) × Extremes
  | found, [] => ([], found)
  | found, connection :: rest =>
      if connection.1 = edgeID then (rest, rest.foldl Extremes.look found)
      else
        let ripped := ripLoop edgeID (found.look connection) rest
        (connection :: ripped.1, ripped.2)

def rip (start : Extremes) (edgeID : Nat) : LayeredNode :=
  let ripped := ripLoop edgeID start node.connections
  { node with
    connections := ripped.1.take (node.connections.length - 1)
    botL := toShort ripped.2.bl
    lID := ripped.2.bid
    topL := toShort ripped.2.hl
    hID := ripped.2.hid }

def recover (edgeID : Nat) (height : Int) : LayeredNode where
  connections := node.connections ++ [(edgeID, height)]
  hID := if height > node.topL then some edgeID else node.hID
  topL := if height > node.topL then height else node.topL
  lID := if height < node.botL then some edgeID else node.lID
  botL := if height < node.botL then height else node.botL
  assigned := true

end LayeredNode

namespace LayeredTree

variable (tree : LayeredTree)

def nodeOf (v : Nat) : LayeredNode := tree.nodes.getD v default

def edgeOf (edgeID : Nat) : LayeredEdge := tree.edges.getD edgeID default

def setNode (v : Nat) (node : LayeredNode) : LayeredTree :=
  { tree with nodes := tree.nodes.set v node }

/-- Where the search for the extremes starts: at the layer of a pin, beyond all layers for a Steiner
node. -/
def start (v : Nat) : Extremes :=
  if v < tree.numTerminals then { bl := tree.pinL.getD v 0, hl := tree.pinL.getD v 0 }
  else { bl := noLayer, hl := 0 }

def ripNode (v edgeID : Nat) : LayeredTree :=
  tree.setNode v ((tree.nodeOf v).rip (tree.start v) edgeID)

def recoverNode (v edgeID : Nat) (height : Int) : LayeredTree :=
  tree.setNode v ((tree.nodeOf v).recover edgeID height)

end LayeredTree

namespace LayeredCore

variable (core : LayeredCore)

def edgeOf (netID edgeID : Nat) : LayeredEdge := (core.sttrees netID).edgeOf edgeID

/-- What the route of an edge costs. -/
def charges (netID edgeID : Nat) : List (GridEdge × Nat) :=
  (core.edgeOf netID edgeID).route.planar.map fun step => (step.2, core.edgeCost netID)

def charges3D (netID edgeID : Nat) : List ((Int × GridEdge) × Nat) :=
  (core.edgeOf netID edgeID).route.planar.map fun step =>
    (step, core.layerEdgeCost netID step.1)

/-- The edge leaves the tables of its nodes, and the grid edges. -/
def ripEdge (netID edgeID : Nat) : LayeredCore :=
  let edge := core.edgeOf netID edgeID
  { core with
    sttrees := Function.update core.sttrees netID
      (((core.sttrees netID).ripNode edge.n1a edgeID).ripNode edge.n2a edgeID)
    usage := post takeFrom core.usage (core.charges netID edgeID)
    usage3D := post takeFrom core.usage3D (core.charges3D netID edgeID) }

/-- Rip an edge up, unless it is degraded; a step that is not along the grid is an error. -/
def newRipup3DType3 (netID edgeID : Nat) : Option (Bool × LayeredCore) :=
  let edge := core.edgeOf netID edgeID
  if edge.len = 0 then some (false, core)
  else if ∃ i ∈ edge.route.levelSteps, edge.route.Wrong i then none
  else some (true, core.ripEdge netID edgeID)

/-- The edge enters the tables of its nodes, and is laid again. -/
def putBack (netID edgeID : Nat) : LayeredCore :=
  let edge := core.edgeOf netID edgeID
  { core with
    sttrees := Function.update core.sttrees netID
      (((core.sttrees netID).recoverNode edge.n1a edgeID (edge.route.layer 0)).recoverNode
        edge.n2a edgeID (edge.route.layer edge.route.routelen))
    usage := post addTo core.usage (core.charges netID edgeID)
    usage3D := post addTo core.usage3D (core.charges3D netID edgeID)
    usedGgrid := core.usedGgrid ∪ (edge.route.planar.map Prod.snd).toFinset }

/-- Put an edge back; a degraded edge is an error. -/
def recoverEdge (netID edgeID : Nat) : Option LayeredCore :=
  if (core.edgeOf netID edgeID).len = 0 then none else some (core.putBack netID edgeID)

end LayeredCore

/-! ### Consistent tables -/

/-- The layers at which an edge starts from a node. -/
def LayeredEdge.heightsAt (edge : LayeredEdge) (v : Nat) : List Int :=
  (if edge.n1a = v then [edge.route.layer 0] else []) ++
    if edge.n2a = v then [edge.route.layer edge.route.routelen] else []

namespace LayeredTree

variable (tree : LayeredTree)

/-- The entries that an edge has in the table of a node: one for each of its ends that is there. -/
def entriesAt (v edgeID : Nat) (edge : LayeredEdge) : List (Nat × Int) :=
  if edge.len = 0 then [] else (edge.heightsAt v).map fun height => (edgeID, height)

def tableAt (v : Nat) : List (Nat × Int) :=
  tree.edges.zipIdx.flatMap fun indexed => entriesAt v indexed.2 indexed.1

def IsPin (v : Nat) : Prop := v < tree.numTerminals

instance (v : Nat) : Decidable (tree.IsPin v) := inferInstanceAs (Decidable (_ < _))

/-- The layers at a node: those of its table, and that of a pin. -/
def layersAt (v : Nat) : List Int :=
  (if tree.IsPin v then [tree.pinL.getD v 0] else []) ++
    (tree.nodeOf v).connections.map Prod.snd

/-- The extreme layers of a node are those of its layers. -/
structure Extreme (v : Nat) : Prop where
  top_mem : (tree.nodeOf v).topL ∈ tree.layersAt v
  le_top : ∀ layer ∈ tree.layersAt v, layer ≤ (tree.nodeOf v).topL
  bot_mem : (tree.nodeOf v).botL ∈ tree.layersAt v
  bot_le : ∀ layer ∈ tree.layersAt v, (tree.nodeOf v).botL ≤ layer

instance (v : Nat) : Decidable (tree.Extreme v) :=
  decidable_of_iff
    ((tree.nodeOf v).topL ∈ tree.layersAt v ∧
      (∀ layer ∈ tree.layersAt v, layer ≤ (tree.nodeOf v).topL) ∧
      (tree.nodeOf v).botL ∈ tree.layersAt v ∧
      ∀ layer ∈ tree.layersAt v, (tree.nodeOf v).botL ≤ layer)
    ⟨fun ⟨h₁, h₂, h₃, h₄⟩ => ⟨h₁, h₂, h₃, h₄⟩, fun ⟨h₁, h₂, h₃, h₄⟩ => ⟨h₁, h₂, h₃, h₄⟩⟩

/-- The tables of a tree list exactly the edges at the nodes, and the extreme layers are right; a layer
is one of the layers that can be stored. -/
structure Consistent : Prop where
  exists_node : ∀ edge ∈ tree.edges, edge.n1a < tree.nodes.length ∧ edge.n2a < tree.nodes.length
  table : ∀ v, (tree.nodeOf v).connections.Perm (tree.tableAt v)
  extreme : ∀ v, tree.layersAt v ≠ [] → tree.Extreme v
  layers : ∀ v, ∀ layer ∈ tree.layersAt v, 0 ≤ layer ∧ layer < 32768

/-- The edges named for the extremes attain them; none is named where the pin does. -/
structure Named (v : Nat) : Prop where
  high : match (tree.nodeOf v).hID with
    | some edgeID => (edgeID, (tree.nodeOf v).topL) ∈ (tree.nodeOf v).connections
    | none => tree.IsPin v ∧ tree.pinL.getD v 0 = (tree.nodeOf v).topL
  low : match (tree.nodeOf v).lID with
    | some edgeID => (edgeID, (tree.nodeOf v).botL) ∈ (tree.nodeOf v).connections
    | none => tree.IsPin v ∧ tree.pinL.getD v 0 = (tree.nodeOf v).botL

/-- A node is as it was, but for the order of its table, and names its extremes. -/
structure SameNode (tree tree' : LayeredTree) (v : Nat) : Prop where
  table : (tree'.nodeOf v).connections.Perm (tree.nodeOf v).connections
  topL : (tree'.nodeOf v).topL = (tree.nodeOf v).topL
  botL : (tree'.nodeOf v).botL = (tree.nodeOf v).botL
  named : tree'.Named v

/-- Beyond the edge that is ripped up a Steiner node has another edge, and not all its layers are the
lowest. -/
def Anchored (edgeID v : Nat) : Prop :=
  tree.IsPin v ∨ (∃ connection ∈ (tree.nodeOf v).connections, connection.1 ≠ edgeID) ∧
    ∃ connection ∈ (tree.nodeOf v).connections, 0 < connection.2

instance (edgeID v : Nat) : Decidable (tree.Anchored edgeID v) :=
  inferInstanceAs (Decidable (_ ∨ _))

end LayeredTree

/-- An edge can be ripped up and put back, and everything is as before. -/
def Restored (core : LayeredCore) (netID edgeID : Nat) : Prop :=
  ∃ ripped recovered, core.newRipup3DType3 netID edgeID = some (true, ripped) ∧
    ripped.recoverEdge netID edgeID = some recovered ∧
    recovered.usage = core.usage ∧ recovered.usage3D = core.usage3D ∧
    (recovered.sttrees netID).edges = (core.sttrees netID).edges ∧
    ∀ v ∈ [(core.edgeOf netID edgeID).n1a, (core.edgeOf netID edgeID).n2a],
      LayeredTree.SameNode (core.sttrees netID) (recovered.sttrees netID) v

/-! ### Records -/

section Record

variable {ι α : Type*} [LinearOrder α]

/-- A scan for the largest value that keeps the first of equal ones: nothing is larger than the value it
starts with, or it ends with a largest value and its owner. -/
theorem foldl_record (start : α × Option ι) (list : List (ι × α)) :
    let found := list.foldl
      (fun (found : α × Option ι) entry =>
        if found.1 < entry.2 then (entry.2, some entry.1) else found) start
    (found = start ∧ ∀ entry ∈ list, entry.2 ≤ start.1) ∨
      ∃ entry ∈ list, found = (entry.2, some entry.1) ∧ start.1 < entry.2 ∧
        ∀ other ∈ list, other.2 ≤ entry.2 := by
  dsimp only
  induction list using List.reverseRecOn with
  | nil => exact Or.inl ⟨rfl, fun entry h => absurd h List.not_mem_nil⟩
  | append_singleton list last ih =>
      rw [List.foldl_append, List.foldl_cons, List.foldl_nil]
      rcases ih with ⟨heq, hle⟩ | ⟨entry, hentry, heq, hlt, hle⟩
      · rw [heq]
        split_ifs with hlast
        · refine Or.inr ⟨last, List.mem_append_right _ (List.mem_singleton_self last), rfl, hlast,
            fun other hother => ?_⟩
          rcases List.mem_append.mp hother with h | h
          · exact (hle other h).trans hlast.le
          · rw [List.mem_singleton.mp h]
        · refine Or.inl ⟨rfl, fun other hother => ?_⟩
          rcases List.mem_append.mp hother with h | h
          · exact hle other h
          · rw [List.mem_singleton.mp h]
            exact not_lt.mp hlast
      · rw [heq]
        dsimp only
        split_ifs with hlast
        · refine Or.inr ⟨last, List.mem_append_right _ (List.mem_singleton_self last), rfl,
            hlt.trans hlast, fun other hother => ?_⟩
          rcases List.mem_append.mp hother with h | h
          · exact (hle other h).trans hlast.le
          · rw [List.mem_singleton.mp h]
        · refine Or.inr ⟨entry, List.mem_append_left _ hentry, rfl, hlt, fun other hother => ?_⟩
          rcases List.mem_append.mp hother with h | h
          · exact hle other h
          · rw [List.mem_singleton.mp h]
            exact not_lt.mp hlast

end Record

namespace Extremes

/-- The extremes as they are stored. -/
def short (found : Extremes) : Extremes :=
  { found with bl := toShort found.bl, hl := toShort found.hl }

theorem foldl_look_high (start : Extremes) (list : List (Nat × Int)) :
    ((list.foldl look start).hl, (list.foldl look start).hid) = list.foldl
      (fun (found : Int × Option Nat) entry =>
        if found.1 < entry.2 then (entry.2, some entry.1) else found) (start.hl, start.hid) := by
  induction list generalizing start with
  | nil => rfl
  | cons entry list ih =>
      rw [List.foldl_cons, List.foldl_cons, ih]
      unfold look
      dsimp only
      split_ifs <;> rfl

/-- The scan for the lowest layer is the one for the highest, upside down. -/
theorem foldl_look_low (start : Extremes) (list : List (Nat × Int)) :
    (OrderDual.toDual (list.foldl look start).bl, (list.foldl look start).bid) =
      (list.map fun entry => (entry.1, OrderDual.toDual entry.2)).foldl
        (fun (found : Intᵒᵈ × Option Nat) entry =>
          if found.1 < entry.2 then (entry.2, some entry.1) else found)
        (OrderDual.toDual start.bl, start.bid) := by
  induction list generalizing start with
  | nil => rfl
  | cons entry list ih =>
      rw [List.foldl_cons, List.map_cons, List.foldl_cons, ih]
      unfold look
      dsimp only
      simp only [gt_iff_lt, OrderDual.toDual_lt_toDual]
      split_ifs <;> rfl

/-- The highest layer found. -/
theorem look_high (start : Extremes) (list : List (Nat × Int)) :
    ((list.foldl look start).hl = start.hl ∧ (list.foldl look start).hid = start.hid ∧
        ∀ entry ∈ list, entry.2 ≤ start.hl) ∨
      ∃ entry ∈ list, (list.foldl look start).hl = entry.2 ∧
        (list.foldl look start).hid = some entry.1 ∧ start.hl < entry.2 ∧
        ∀ other ∈ list, other.2 ≤ entry.2 := by
  have hrecord := foldl_record (start.hl, start.hid) list
  rw [← foldl_look_high] at hrecord
  rcases hrecord with ⟨heq, hle⟩ | ⟨entry, hentry, heq, hlt, hle⟩
  · exact Or.inl ⟨congrArg Prod.fst heq, congrArg Prod.snd heq, hle⟩
  · exact Or.inr ⟨entry, hentry, congrArg Prod.fst heq, congrArg Prod.snd heq, hlt, hle⟩

/-- The lowest layer found. -/
theorem look_low (start : Extremes) (list : List (Nat × Int)) :
    ((list.foldl look start).bl = start.bl ∧ (list.foldl look start).bid = start.bid ∧
        ∀ entry ∈ list, start.bl ≤ entry.2) ∨
      ∃ entry ∈ list, (list.foldl look start).bl = entry.2 ∧
        (list.foldl look start).bid = some entry.1 ∧ entry.2 < start.bl ∧
        ∀ other ∈ list, entry.2 ≤ other.2 := by
  have hrecord := foldl_record (OrderDual.toDual start.bl, start.bid)
    (list.map fun entry => (entry.1, OrderDual.toDual entry.2))
  rw [← foldl_look_low] at hrecord
  rcases hrecord with ⟨heq, hle⟩ | ⟨dual, hdual, heq, hlt, hle⟩
  · exact Or.inl ⟨congrArg Prod.fst heq, congrArg Prod.snd heq,
      fun entry hentry => hle _ (List.mem_map_of_mem hentry)⟩
  · obtain ⟨entry, hentry, rfl⟩ := List.mem_map.mp hdual
    exact Or.inr ⟨entry, hentry, congrArg Prod.fst heq, congrArg Prod.snd heq, hlt,
      fun other hother => hle _ (List.mem_map_of_mem hother)⟩

end Extremes

/-! ### One node -/

namespace LayeredNode

theorem ripLoop_append {edgeID : Nat} {before after : List (Nat × Int)} {height : Int}
    (hbefore : ∀ connection ∈ before, connection.1 ≠ edgeID) (found : Extremes) :
    ripLoop edgeID found (before ++ (edgeID, height) :: after) =
      (before ++ after, (before ++ after).foldl Extremes.look found) := by
  induction before generalizing found with
  | nil =>
      unfold ripLoop
      exact if_pos rfl
  | cons connection before ih =>
      obtain ⟨hne, hbefore⟩ := List.forall_mem_cons.mp hbefore
      rw [List.cons_append, ripLoop, if_neg hne, ih hbefore]
      rfl

/-- What a scan for the extremes has found is stored. -/
structure Stores (node : LayeredNode) (found : Extremes) : Prop where
  botL : node.botL = found.bl
  topL : node.topL = found.hl
  lID : node.lID = found.bid
  hID : node.hID = found.hid

/-- The entries of an edge in the table. -/
def own (node : LayeredNode) (edgeID : Nat) : List (Nat × Int) :=
  node.connections.filter fun connection => decide (connection.1 = edgeID)

/-- The other entries. -/
def rest (node : LayeredNode) (edgeID : Nat) : List (Nat × Int) :=
  node.connections.filter fun connection => !decide (connection.1 = edgeID)

theorem own_append_rest_perm (node : LayeredNode) (edgeID : Nat) :
    (node.own edgeID ++ node.rest edgeID).Perm node.connections :=
  List.filter_append_perm _ _

/-- One entry of the edge goes, and the extremes are those of the table that is left. -/
theorem rip_spec {node : LayeredNode} {edgeID : Nat} (start : Extremes)
    (hown : node.own edgeID ≠ []) :
    (node.rip start edgeID).rest edgeID = node.rest edgeID ∧
      ((node.rip start edgeID).own edgeID).length + 1 = (node.own edgeID).length ∧
      (node.rip start edgeID).Stores
        ((node.rip start edgeID).connections.foldl Extremes.look start).short := by
  obtain ⟨connection, hconnection⟩ := List.exists_mem_of_ne_nil _ hown
  obtain ⟨hmem, hid⟩ := List.mem_filter.mp hconnection
  obtain ⟨⟨id, height⟩, before, after, hbefore, hid, hsplit, -⟩ := List.exists_of_eraseP
    (p := fun connection : Nat × Int => decide (connection.1 = edgeID)) hmem hid
  obtain rfl : id = edgeID := of_decide_eq_true hid
  have hne : ∀ connection ∈ before, connection.1 ≠ id := fun connection hconnection heq =>
    hbefore connection hconnection (decide_eq_true heq)
  have hloop : ripLoop id start node.connections =
      (before ++ after, (before ++ after).foldl Extremes.look start) := by
    rw [hsplit]
    exact ripLoop_append hne start
  have hconnections : (node.rip start id).connections = before ++ after := by
    unfold rip
    dsimp only
    rw [hloop, hsplit]
    apply List.take_of_length_le
    simp
  refine ⟨?_, ?_, ?_⟩
  · unfold rest
    rw [hconnections, hsplit, List.filter_append, List.filter_append,
      List.filter_cons_of_neg (by simp)]
  · unfold own
    rw [hconnections, hsplit, List.filter_append, List.filter_append,
      List.filter_cons_of_pos (by simp), List.length_append, List.length_append, List.length_cons]
    rfl
  · rw [hconnections]
    unfold rip
    dsimp only
    rw [hloop]
    exact ⟨rfl, rfl, rfl, rfl⟩

/-- With all entries of the edge gone, the extremes are those of the others. -/
theorem rip_iterate {edgeID : Nat} (start : Extremes) (count : Nat) (node : LayeredNode)
    (hown : (node.own edgeID).length = count + 1) :
    let ripped := (fun node : LayeredNode => node.rip start edgeID)^[count + 1] node
    ripped.connections = node.rest edgeID ∧
      ripped.Stores ((node.rest edgeID).foldl Extremes.look start).short := by
  dsimp only
  induction count generalizing node with
  | zero =>
      obtain ⟨hrest, hlength, hstores⟩ := rip_spec start
        (List.ne_nil_of_length_pos (by omega) : node.own edgeID ≠ [])
      have hnone : (node.rip start edgeID).own edgeID = [] :=
        List.eq_nil_of_length_eq_zero (by omega)
      have hconnections : (node.rip start edgeID).connections = node.rest edgeID := by
        rw [← hrest]
        symm
        apply List.filter_eq_self.mpr
        intro connection hconnection
        by_contra hother
        have hmem : connection ∈ (node.rip start edgeID).own edgeID :=
          List.mem_filter.mpr ⟨hconnection, by simpa using hother⟩
        rw [hnone] at hmem
        exact absurd hmem List.not_mem_nil
      rw [hconnections] at hstores
      exact ⟨hconnections, hstores⟩
  | succ count ih =>
      obtain ⟨hrest, hlength, -⟩ := rip_spec start
        (List.ne_nil_of_length_pos (by omega) : node.own edgeID ≠ [])
      have hnext := ih (node.rip start edgeID) (by omega)
      rw [hrest] at hnext
      exact hnext

/-- An entry that is put back is looked at like the others. -/
theorem Stores.recover {node : LayeredNode} {found : Extremes} (h : node.Stores found)
    (edgeID : Nat) (height : Int) :
    (node.recover edgeID height).Stores (found.look (edgeID, height)) := by
  obtain ⟨hbot, htop, hlow, hhigh⟩ := h
  unfold LayeredNode.recover Extremes.look
  refine ⟨?_, ?_, ?_, ?_⟩
  · dsimp only
    rw [hbot]
  · dsimp only
    rw [htop]
  · dsimp only
    rw [hbot, hlow]
  · dsimp only
    rw [htop, hhigh]

theorem Stores.recoverAll {node : LayeredNode} {found : Extremes} (h : node.Stores found)
    (edgeID : Nat) (heights : List Int) :
    (heights.foldl (fun node height => node.recover edgeID height) node).Stores
        ((heights.map fun height => (edgeID, height)).foldl Extremes.look found) ∧
      (heights.foldl (fun node height => node.recover edgeID height) node).connections =
        node.connections ++ heights.map fun height => (edgeID, height) := by
  induction heights generalizing node found with
  | nil => exact ⟨h, (List.append_nil _).symm⟩
  | cons height heights ih =>
      obtain ⟨hstores, hconnections⟩ := ih (h.recover edgeID height)
      refine ⟨hstores, hconnections.trans ?_⟩
      exact List.append_assoc _ _ _

end LayeredNode

/-! ### The end nodes of an edge -/

namespace LayeredTree

variable {tree : LayeredTree} {edgeID v : Nat} {edge : LayeredEdge}

theorem nodeOf_setNode_self (tree : LayeredTree) {v : Nat} (hv : v < tree.nodes.length)
    (node : LayeredNode) : (tree.setNode v node).nodeOf v = node := by
  unfold nodeOf setNode
  rw [List.getD_eq_getElem?_getD, List.getElem?_set_self hv]
  rfl

theorem nodeOf_setNode_of_ne (tree : LayeredTree) {v w : Nat} (h : v ≠ w) (node : LayeredNode) :
    (tree.setNode v node).nodeOf w = tree.nodeOf w := by
  unfold nodeOf setNode
  rw [List.getD_eq_getElem?_getD, List.getElem?_set_ne h, ← List.getD_eq_getElem?_getD]

theorem length_setNode (tree : LayeredTree) (v : Nat) (node : LayeredNode) :
    (tree.setNode v node).nodes.length = tree.nodes.length := List.length_set

/-- A node is ripped once for each end that is there. -/
theorem nodeOf_ripNode (tree : LayeredTree) (edge : LayeredEdge) (edgeID : Nat)
    (h₁ : edge.n1a < tree.nodes.length) (h₂ : edge.n2a < tree.nodes.length) (v : Nat) :
    ((tree.ripNode edge.n1a edgeID).ripNode edge.n2a edgeID).nodeOf v =
      (fun node : LayeredNode => node.rip (tree.start v) edgeID)^[(edge.heightsAt v).length]
        (tree.nodeOf v) := by
  have h₂' : edge.n2a < (tree.ripNode edge.n1a edgeID).nodes.length := by
    rw [ripNode, length_setNode]
    exact h₂
  unfold LayeredEdge.heightsAt
  by_cases hv₂ : edge.n2a = v
  · subst hv₂
    rw [ripNode, nodeOf_setNode_self _ h₂']
    by_cases hv₁ : edge.n1a = edge.n2a
    · rw [if_pos hv₁, if_pos rfl, hv₁, ripNode, nodeOf_setNode_self _ h₂]
      rfl
    · rw [if_neg hv₁, if_pos rfl, ripNode, nodeOf_setNode_of_ne _ hv₁]
      rfl
  · rw [ripNode, nodeOf_setNode_of_ne _ hv₂, if_neg hv₂]
    by_cases hv₁ : edge.n1a = v
    · subst hv₁
      rw [if_pos rfl, ripNode, nodeOf_setNode_self _ h₁]
      rfl
    · rw [if_neg hv₁, ripNode, nodeOf_setNode_of_ne _ hv₁]
      rfl

theorem nodeOf_recoverNode (tree : LayeredTree) (edge : LayeredEdge) (edgeID : Nat)
    (h₁ : edge.n1a < tree.nodes.length) (h₂ : edge.n2a < tree.nodes.length) (v : Nat) :
    ((tree.recoverNode edge.n1a edgeID (edge.route.layer 0)).recoverNode edge.n2a edgeID
        (edge.route.layer edge.route.routelen)).nodeOf v =
      (edge.heightsAt v).foldl (fun node height => node.recover edgeID height)
        (tree.nodeOf v) := by
  have h₂' : edge.n2a <
      (tree.recoverNode edge.n1a edgeID (edge.route.layer 0)).nodes.length := by
    rw [recoverNode, length_setNode]
    exact h₂
  unfold LayeredEdge.heightsAt
  by_cases hv₂ : edge.n2a = v
  · subst hv₂
    rw [recoverNode, nodeOf_setNode_self _ h₂']
    by_cases hv₁ : edge.n1a = edge.n2a
    · rw [if_pos hv₁, if_pos rfl, hv₁, recoverNode, nodeOf_setNode_self _ h₂]
      rfl
    · rw [if_neg hv₁, if_pos rfl, recoverNode, nodeOf_setNode_of_ne _ hv₁]
      rfl
  · rw [recoverNode, nodeOf_setNode_of_ne _ hv₂, if_neg hv₂]
    by_cases hv₁ : edge.n1a = v
    · subst hv₁
      rw [if_pos rfl, recoverNode, nodeOf_setNode_self _ h₁]
      rfl
    · rw [if_neg hv₁, recoverNode, nodeOf_setNode_of_ne _ hv₁]
      rfl

/-- Of a table only the entries of one edge are its own. -/
theorem filter_tableAt (hedge : tree.edges[edgeID]? = some edge) (v : Nat) :
    ((tree.tableAt v).filter fun connection => decide (connection.1 = edgeID)) =
      entriesAt v edgeID edge := by
  have hid : ∀ (id : Nat) (edge : LayeredEdge), ∀ connection ∈ entriesAt v id edge,
      connection.1 = id := by
    intro id edge connection hconnection
    unfold entriesAt at hconnection
    split_ifs at hconnection
    · exact absurd hconnection List.not_mem_nil
    · obtain ⟨height, -, rfl⟩ := List.mem_map.mp hconnection
      rfl
  have hnone : ∀ indexed : List (LayeredEdge × Nat), (∀ i ∈ indexed, i.2 ≠ edgeID) →
      ((indexed.flatMap fun i => entriesAt v i.2 i.1).filter fun connection =>
        decide (connection.1 = edgeID)) = [] := by
    intro indexed hindexed
    apply List.filter_eq_nil_iff.mpr
    intro connection hconnection
    obtain ⟨i, hi, hmem⟩ := List.mem_flatMap.mp hconnection
    have hne : connection.1 ≠ edgeID := (hid i.2 i.1 connection hmem).trans_ne (hindexed i hi)
    simpa using hne
  obtain ⟨hlt, hget⟩ := List.getElem?_eq_some_iff.mp hedge
  have hsplit : tree.edges = tree.edges.take edgeID ++ edge :: tree.edges.drop (edgeID + 1) := by
    rw [← hget, List.getElem_cons_drop, List.take_append_drop]
  have hlength : (tree.edges.take edgeID).length = edgeID := List.length_take_of_le hlt.le
  unfold tableAt
  rw [hsplit, List.zipIdx_append, List.flatMap_append, List.filter_append, hnone, List.nil_append,
    hlength, List.zipIdx_cons, List.flatMap_cons, List.filter_append, hnone, List.append_nil,
    Nat.zero_add]
  · exact List.filter_eq_self.mpr fun connection hconnection => by
      simpa using hid edgeID edge connection hconnection
  · rintro ⟨other, i⟩ hi
    have hle := List.le_snd_of_mem_zipIdx hi
    dsimp only at hle ⊢
    omega
  · rintro ⟨other, i⟩ hi
    have hlt := List.snd_lt_of_mem_zipIdx hi
    dsimp only at hlt ⊢
    omega

theorem own_perm (hcons : tree.Consistent) (hedge : tree.edges[edgeID]? = some edge)
    (hlen : edge.len ≠ 0) (v : Nat) :
    ((tree.nodeOf v).own edgeID).Perm ((edge.heightsAt v).map fun height => (edgeID, height)) := by
  have hperm := (hcons.table v).filter fun connection => decide (connection.1 = edgeID)
  rw [filter_tableAt hedge, entriesAt, if_neg hlen] at hperm
  exact hperm

theorem toShort_eq {layer : Int} (h : 0 ≤ layer ∧ layer < 32768) : toShort layer = layer := by
  unfold toShort
  apply Int.bmod_eq_of_le <;> omega

/-- The table of a node once the edge is back: its own entries are at the end. -/
theorem back_perm (hcons : tree.Consistent) (hedge : tree.edges[edgeID]? = some edge)
    (hlen : edge.len ≠ 0) (v : Nat) :
    ((tree.nodeOf v).rest edgeID ++ (edge.heightsAt v).map fun height => (edgeID, height)).Perm
      (tree.nodeOf v).connections := by
  have hown := (own_perm hcons hedge hlen v).symm.append_left ((tree.nodeOf v).rest edgeID)
  exact hown.trans
    (List.perm_append_comm.trans ((tree.nodeOf v).own_append_rest_perm edgeID))

theorem start_of_pin (h : tree.IsPin v) :
    tree.start v = { bl := tree.pinL.getD v 0, hl := tree.pinL.getD v 0 } := if_pos h

theorem start_of_not_pin (h : ¬tree.IsPin v) : tree.start v = { bl := noLayer, hl := 0 } :=
  if_neg h

theorem pinL_mem_layersAt (h : tree.IsPin v) : tree.pinL.getD v 0 ∈ tree.layersAt v := by
  unfold layersAt
  rw [if_pos h]
  exact List.mem_cons_self

theorem mem_layersAt {connection : Nat × Int} (h : connection ∈ (tree.nodeOf v).connections) :
    connection.2 ∈ tree.layersAt v := List.mem_append_right _ (List.mem_map_of_mem h)

theorem layersAt_cases {layer : Int} (h : layer ∈ tree.layersAt v) :
    tree.IsPin v ∧ layer = tree.pinL.getD v 0 ∨
      ∃ connection ∈ (tree.nodeOf v).connections, connection.2 = layer := by
  unfold layersAt at h
  rcases List.mem_append.mp h with h | h
  · split_ifs at h with hpin
    · exact Or.inl ⟨hpin, List.mem_singleton.mp h⟩
    · exact absurd h List.not_mem_nil
  · exact Or.inr (List.mem_map.mp h)

/-- The scan over some entries of a node ends within its layers, or where it starts. -/
theorem foldl_look_layers (hcons : tree.Consistent) {list : List (Nat × Int)}
    (hlist : ∀ entry ∈ list, entry ∈ (tree.nodeOf v).connections)
    (hsome : tree.IsPin v ∨ list ≠ []) :
    ((list.foldl Extremes.look (tree.start v)).short) =
      list.foldl Extremes.look (tree.start v) := by
  have hlayer : ∀ entry ∈ list, 0 ≤ entry.2 ∧ entry.2 < 32768 := fun entry hentry =>
    hcons.layers v _ (mem_layersAt (hlist entry hentry))
  have hhigh : 0 ≤ (list.foldl Extremes.look (tree.start v)).hl ∧
      (list.foldl Extremes.look (tree.start v)).hl < 32768 := by
    rcases Extremes.look_high (tree.start v) list with ⟨heq, -, -⟩ | ⟨entry, hentry, heq, -⟩
    · rw [heq]
      by_cases hpin : tree.IsPin v
      · rw [start_of_pin hpin]
        exact hcons.layers v _ (pinL_mem_layersAt hpin)
      · rw [start_of_not_pin hpin]
        decide
    · rw [heq]
      exact hlayer entry hentry
  have hlow : 0 ≤ (list.foldl Extremes.look (tree.start v)).bl ∧
      (list.foldl Extremes.look (tree.start v)).bl < 32768 := by
    rcases Extremes.look_low (tree.start v) list with ⟨heq, -, hle⟩ | ⟨entry, hentry, heq, -⟩
    · by_cases hpin : tree.IsPin v
      · rw [heq, start_of_pin hpin]
        exact hcons.layers v _ (pinL_mem_layersAt hpin)
      · obtain ⟨entry, hentry⟩ := List.exists_mem_of_ne_nil _ (hsome.resolve_left hpin)
        have hbeyond := hle entry hentry
        have hlt := hlayer entry hentry
        rw [start_of_not_pin hpin] at hbeyond
        dsimp only [noLayer] at hbeyond
        omega
    · rw [heq]
      exact hlayer entry hentry
  unfold Extremes.short
  rw [toShort_eq hhigh, toShort_eq hlow]

/-- The scan over the whole table finds the highest layer, unless all layers of a Steiner node are the
lowest. -/
theorem foldl_look_top (hcons : tree.Consistent) {list : List (Nat × Int)}
    (hperm : list.Perm (tree.nodeOf v).connections)
    (hhigh : tree.IsPin v ∨ ∃ entry ∈ list, 0 < entry.2) :
    (list.foldl Extremes.look (tree.start v)).hl = (tree.nodeOf v).topL ∧
      match (list.foldl Extremes.look (tree.start v)).hid with
        | some id => (id, (tree.nodeOf v).topL) ∈ list
        | none => tree.IsPin v ∧ tree.pinL.getD v 0 = (tree.nodeOf v).topL := by
  have htop : ∀ layer ∈ tree.layersAt v, (∀ other ∈ tree.layersAt v, other ≤ layer) →
      layer = (tree.nodeOf v).topL := fun layer hmem hall =>
    have hextreme := hcons.extreme v (List.ne_nil_of_mem hmem)
    le_antisymm (hextreme.le_top layer hmem) (hall _ hextreme.top_mem)
  rcases Extremes.look_high (tree.start v) list with
    ⟨heq, hid, hle⟩ | ⟨entry, hentry, heq, hid, hlt, hle⟩
  · have hpin : tree.IsPin v := by
      by_contra hpin
      obtain ⟨entry, hentry, hpos⟩ := hhigh.resolve_left hpin
      have hentry := hle entry hentry
      rw [start_of_not_pin hpin] at hentry
      exact absurd hpos (not_lt.mpr hentry)
    rw [start_of_pin hpin] at heq hid hle ⊢
    have hpinL : tree.pinL.getD v 0 = (tree.nodeOf v).topL := by
      refine htop _ (pinL_mem_layersAt hpin) fun other hother => ?_
      rcases layersAt_cases hother with ⟨-, rfl⟩ | ⟨entry, hentry, rfl⟩
      · exact le_rfl
      · exact hle entry (hperm.mem_iff.mpr hentry)
    rw [hid]
    exact ⟨heq.trans hpinL, hpin, hpinL⟩
  · have hentryL : entry.2 = (tree.nodeOf v).topL := by
      refine htop _ (mem_layersAt (hperm.mem_iff.mp hentry)) fun other hother => ?_
      rcases layersAt_cases hother with ⟨hpin, rfl⟩ | ⟨entry, hentry, rfl⟩
      · rw [start_of_pin hpin] at hlt
        exact hlt.le
      · exact hle entry (hperm.mem_iff.mpr hentry)
    rw [hid, ← hentryL]
    exact ⟨heq, hentry⟩

/-- The scan over the whole table finds the lowest layer, if there is one. -/
theorem foldl_look_bot (hcons : tree.Consistent) {list : List (Nat × Int)}
    (hperm : list.Perm (tree.nodeOf v).connections) (hlow : tree.IsPin v ∨ list ≠ []) :
    (list.foldl Extremes.look (tree.start v)).bl = (tree.nodeOf v).botL ∧
      match (list.foldl Extremes.look (tree.start v)).bid with
        | some id => (id, (tree.nodeOf v).botL) ∈ list
        | none => tree.IsPin v ∧ tree.pinL.getD v 0 = (tree.nodeOf v).botL := by
  have hbot : ∀ layer ∈ tree.layersAt v, (∀ other ∈ tree.layersAt v, layer ≤ other) →
      layer = (tree.nodeOf v).botL := fun layer hmem hall =>
    have hextreme := hcons.extreme v (List.ne_nil_of_mem hmem)
    le_antisymm (hall _ hextreme.bot_mem) (hextreme.bot_le layer hmem)
  rcases Extremes.look_low (tree.start v) list with
    ⟨heq, hid, hle⟩ | ⟨entry, hentry, heq, hid, hlt, hle⟩
  · have hpin : tree.IsPin v := by
      by_contra hpin
      obtain ⟨entry, hentry⟩ := List.exists_mem_of_ne_nil _ (hlow.resolve_left hpin)
      have hbeyond := hle entry hentry
      have hlayer := hcons.layers v _ (mem_layersAt (hperm.mem_iff.mp hentry))
      rw [start_of_not_pin hpin] at hbeyond
      dsimp only [noLayer] at hbeyond
      omega
    rw [start_of_pin hpin] at heq hid hle ⊢
    have hpinL : tree.pinL.getD v 0 = (tree.nodeOf v).botL := by
      refine hbot _ (pinL_mem_layersAt hpin) fun other hother => ?_
      rcases layersAt_cases hother with ⟨-, rfl⟩ | ⟨entry, hentry, rfl⟩
      · exact le_rfl
      · exact hle entry (hperm.mem_iff.mpr hentry)
    rw [hid]
    exact ⟨heq.trans hpinL, hpin, hpinL⟩
  · have hentryL : entry.2 = (tree.nodeOf v).botL := by
      refine hbot _ (mem_layersAt (hperm.mem_iff.mp hentry)) fun other hother => ?_
      rcases layersAt_cases hother with ⟨hpin, rfl⟩ | ⟨entry, hentry, rfl⟩
      · rw [start_of_pin hpin] at hlt
        exact hlt.le
      · exact hle entry (hperm.mem_iff.mpr hentry)
    rw [hid, ← hentryL]
    exact ⟨heq, hentry⟩

/-- What a node of an edge has become once the edge is back. -/
structure Back (tree tree' : LayeredTree) (v edgeID : Nat) (edge : LayeredEdge) : Prop where
  table : (tree'.nodeOf v).connections =
    (tree.nodeOf v).rest edgeID ++ (edge.heightsAt v).map fun height => (edgeID, height)
  stores : (tree'.nodeOf v).Stores (((edge.heightsAt v).map fun height => (edgeID, height)).foldl
    Extremes.look (((tree.nodeOf v).rest edgeID).foldl Extremes.look (tree.start v)).short)
  pins : tree'.IsPin v ↔ tree.IsPin v
  pinL : tree'.pinL = tree.pinL

/-- A node is as it was exactly when it is anchored. -/
theorem Back.sameNode_iff {tree' : LayeredTree} (h : Back tree tree' v edgeID edge)
    (hcons : tree.Consistent) (hedge : tree.edges[edgeID]? = some edge) (hlen : edge.len ≠ 0)
    (hat : edge.heightsAt v ≠ []) : SameNode tree tree' v ↔ tree.Anchored edgeID v := by
  have hperm := back_perm hcons hedge hlen v
  have hrest : ∀ entry ∈ (tree.nodeOf v).rest edgeID, entry ∈ (tree.nodeOf v).connections :=
    fun entry hentry => (List.mem_filter.mp hentry).1
  constructor
  · intro hsame
    by_contra hnot
    unfold Anchored at hnot
    push Not at hnot
    obtain ⟨hpin, hlowest⟩ := hnot
    by_cases hother : ∃ connection ∈ (tree.nodeOf v).connections, connection.1 ≠ edgeID
    · -- all layers are the lowest: no edge is named for the highest
      have hle := hlowest hother
      have hhid : (tree'.nodeOf v).hID = none := by
        rw [h.stores.hID]
        have hstart : (((tree.nodeOf v).rest edgeID).foldl Extremes.look (tree.start v)).short.hl =
            0 ∧ (((tree.nodeOf v).rest edgeID).foldl Extremes.look (tree.start v)).short.hid =
            none := by
          rw [start_of_not_pin hpin]
          rcases Extremes.look_high { bl := noLayer, hl := 0 } ((tree.nodeOf v).rest edgeID) with
            ⟨heq, hid, -⟩ | ⟨entry, hentry, -, -, hlt, -⟩
          · unfold Extremes.short
            dsimp only
            rw [heq, hid]
            exact ⟨by decide, rfl⟩
          · exact absurd hlt (not_lt.mpr (hle entry (hrest entry hentry)))
        rcases Extremes.look_high
            (((tree.nodeOf v).rest edgeID).foldl Extremes.look (tree.start v)).short
            ((edge.heightsAt v).map fun height => (edgeID, height)) with
          ⟨-, hid, -⟩ | ⟨entry, hentry, -, -, hlt, -⟩
        · exact hid.trans hstart.2
        · rw [hstart.1] at hlt
          exact absurd hlt (not_lt.mpr
            (hle entry (hperm.mem_iff.mp (List.mem_append_right _ hentry))))
      have hnamed := hsame.named.high
      rw [hhid] at hnamed
      exact hpin (h.pins.mp hnamed.1)
    · -- no other edge: the infinity is cut off, and nothing is below what is left of it
      push Not at hother
      have hnil : (tree.nodeOf v).rest edgeID = [] := by
        apply List.filter_eq_nil_iff.mpr
        intro entry hentry
        simpa using hother entry hentry
      have hbot := h.stores.botL
      rw [hnil, List.foldl_nil, start_of_not_pin hpin] at hbot
      have hgarbage : (Extremes.short { bl := noLayer, hl := 0 }).bl = -13824 := by decide
      have hlayers : ∀ entry ∈ (edge.heightsAt v).map fun height => (edgeID, height),
          0 ≤ entry.2 := fun entry hentry =>
        (hcons.layers v _ (mem_layersAt (hperm.mem_iff.mp (List.mem_append_right _ hentry)))).1
      have hkept : (tree'.nodeOf v).botL = -13824 := by
        rw [hbot]
        rcases Extremes.look_low (Extremes.short { bl := noLayer, hl := 0 })
            ((edge.heightsAt v).map fun height => (edgeID, height)) with
          ⟨heq, -, -⟩ | ⟨entry, hentry, -, -, hlt, -⟩
        · exact heq.trans hgarbage
        · have hpos := hlayers entry hentry
          omega
      obtain ⟨height, hheight⟩ := List.exists_mem_of_ne_nil _ hat
      have hmem := mem_layersAt (hperm.mem_iff.mp (List.mem_append_right _
        (List.mem_map_of_mem (f := fun height => (edgeID, height)) hheight)))
      have hextreme := hcons.extreme v (List.ne_nil_of_mem hmem)
      have hpos := (hcons.layers v _ hextreme.bot_mem).1
      rw [← hsame.botL, hkept] at hpos
      omega
  · intro hanchored
    have hsome : tree.IsPin v ∨ (tree.nodeOf v).rest edgeID ≠ [] := by
      refine hanchored.imp_right fun hother => ?_
      obtain ⟨entry, hentry, hne⟩ := hother.1
      exact List.ne_nil_of_mem (List.mem_filter.mpr ⟨hentry, by simpa using hne⟩)
    have hstores := h.stores
    rw [foldl_look_layers hcons hrest hsome, ← List.foldl_append, ← h.table] at hstores
    rw [← h.table] at hperm
    obtain ⟨htop, hhigh⟩ := foldl_look_top hcons hperm
      (hanchored.imp_right fun hother => by
        obtain ⟨entry, hentry, hpos⟩ := hother.2
        exact ⟨entry, hperm.mem_iff.mpr hentry, hpos⟩)
    obtain ⟨hbot, hlow⟩ := foldl_look_bot hcons hperm
      (hanchored.imp_right fun hother => by
        obtain ⟨entry, hentry, -⟩ := hother.2
        exact List.ne_nil_of_mem (hperm.mem_iff.mpr hentry))
    refine ⟨hperm, hstores.topL.trans htop, hstores.botL.trans hbot, ?_, ?_⟩
    · rw [hstores.hID, hstores.topL.trans htop, h.pins, h.pinL]
      exact hhigh
    · rw [hstores.lID, hstores.botL.trans hbot, h.pins, h.pinL]
      exact hlow

end LayeredTree

/-! ### The whole edge -/

namespace LayeredCore

theorem post_addTo_takeFrom {κ : Type} [DecidableEq κ] (usage : κ → UInt16)
    (charges : List (κ × Nat)) :
    post addTo (post takeFrom usage charges) charges = usage := by
  funext key
  rw [post_addTo, post_takeFrom, UInt16.sub_add_cancel]

theorem heightsAt_ne_nil {edge : LayeredEdge} {v : Nat} (h : v ∈ [edge.n1a, edge.n2a]) :
    edge.heightsAt v ≠ [] := by
  unfold LayeredEdge.heightsAt
  rcases List.mem_cons.mp h with rfl | h
  · rw [if_pos rfl]
    exact List.cons_ne_nil _ _
  · rw [if_pos (List.mem_singleton.mp h).symm]
    exact List.append_ne_nil_of_right_ne_nil _ (List.cons_ne_nil _ _)

theorem getElem?_edges {core : LayeredCore} {netID edgeID : Nat}
    (hedge : edgeID < (core.sttrees netID).edges.length) :
    (core.sttrees netID).edges[edgeID]? = some (core.edgeOf netID edgeID) := by
  rw [List.getElem?_eq_getElem hedge]
  exact congrArg some (List.getD_eq_getElem _ _ hedge).symm

variable (core : LayeredCore) (netID edgeID : Nat)

theorem sttrees_ripEdge : (core.ripEdge netID edgeID).sttrees netID =
    ((core.sttrees netID).ripNode (core.edgeOf netID edgeID).n1a edgeID).ripNode
      (core.edgeOf netID edgeID).n2a edgeID := Function.update_self _ _ _

theorem edgeOf_ripEdge : (core.ripEdge netID edgeID).edgeOf netID edgeID =
    core.edgeOf netID edgeID := by
  unfold edgeOf
  rw [sttrees_ripEdge]
  rfl

theorem sttrees_putBack : (core.putBack netID edgeID).sttrees netID =
    ((core.sttrees netID).recoverNode (core.edgeOf netID edgeID).n1a edgeID
      ((core.edgeOf netID edgeID).route.layer 0)).recoverNode (core.edgeOf netID edgeID).n2a edgeID
        ((core.edgeOf netID edgeID).route.layer (core.edgeOf netID edgeID).route.routelen) :=
  Function.update_self _ _ _

theorem usage_putBack_ripEdge :
    ((core.ripEdge netID edgeID).putBack netID edgeID).usage = core.usage ∧
      ((core.ripEdge netID edgeID).putBack netID edgeID).usage3D = core.usage3D := by
  unfold putBack charges charges3D
  dsimp only
  rw [edgeOf_ripEdge]
  exact ⟨post_addTo_takeFrom _ _, post_addTo_takeFrom _ _⟩

variable {core netID edgeID}

/-- What the two steps make of the nodes of the edge. -/
theorem back_putBack_ripEdge (hcons : (core.sttrees netID).Consistent)
    (hedge : edgeID < (core.sttrees netID).edges.length)
    (hlen : (core.edgeOf netID edgeID).len ≠ 0) {v : Nat}
    (hv : v ∈ [(core.edgeOf netID edgeID).n1a, (core.edgeOf netID edgeID).n2a]) :
    LayeredTree.Back (core.sttrees netID)
      (((core.ripEdge netID edgeID).putBack netID edgeID).sttrees netID) v edgeID
      (core.edgeOf netID edgeID) := by
  have hget := getElem?_edges hedge
  obtain ⟨h₁, h₂⟩ := hcons.exists_node _ (List.mem_of_getElem? hget)
  have hlength : ((core.ripEdge netID edgeID).sttrees netID).nodes.length =
      (core.sttrees netID).nodes.length := by
    rw [sttrees_ripEdge, LayeredTree.ripNode, LayeredTree.length_setNode, LayeredTree.ripNode,
      LayeredTree.length_setNode]
  have hnode := LayeredTree.nodeOf_recoverNode ((core.ripEdge netID edgeID).sttrees netID)
    (core.edgeOf netID edgeID) edgeID (hlength ▸ h₁) (hlength ▸ h₂) v
  rw [← edgeOf_ripEdge, ← sttrees_putBack, edgeOf_ripEdge, sttrees_ripEdge,
    LayeredTree.nodeOf_ripNode _ _ _ h₁ h₂] at hnode
  have hown := (LayeredTree.own_perm hcons hget hlen v).length_eq
  rw [List.length_map] at hown
  obtain ⟨count, hcount⟩ := Nat.exists_eq_add_one_of_ne_zero
    (fun h => heightsAt_ne_nil hv (List.eq_nil_of_length_eq_zero h))
  obtain ⟨htable, hstores⟩ := LayeredNode.rip_iterate ((core.sttrees netID).start v) count
    ((core.sttrees netID).nodeOf v) (hown.trans hcount)
  rw [← hcount] at htable hstores
  obtain ⟨hstores, hconnections⟩ := hstores.recoverAll edgeID
    ((core.edgeOf netID edgeID).heightsAt v)
  rw [htable] at hconnections
  refine ⟨?_, ?_, ?_, ?_⟩
  · rw [hnode]
    exact hconnections
  · rw [hnode]
    exact hstores
  · rw [sttrees_putBack, sttrees_ripEdge]
    rfl
  · rw [sttrees_putBack, sttrees_ripEdge]
    rfl

theorem recoverEdge_ripEdge (hlen : (core.edgeOf netID edgeID).len ≠ 0) :
    (core.ripEdge netID edgeID).recoverEdge netID edgeID =
      some ((core.ripEdge netID edgeID).putBack netID edgeID) := by
  unfold recoverEdge
  rw [edgeOf_ripEdge, if_neg hlen]

theorem newRipup3DType3_eq_some (hlen : (core.edgeOf netID edgeID).len ≠ 0)
    (hroute : ∀ i ∈ (core.edgeOf netID edgeID).route.levelSteps,
      ¬(core.edgeOf netID edgeID).route.Wrong i) :
    core.newRipup3DType3 netID edgeID = some (true, core.ripEdge netID edgeID) := by
  unfold newRipup3DType3
  dsimp only
  rw [if_neg hlen, if_neg (by push Not; exact hroute)]

section Exact

variable (hcons : (core.sttrees netID).Consistent) (hedge : edgeID < (core.sttrees netID).edges.length)
  (hlen : (core.edgeOf netID edgeID).len ≠ 0)
  (hroute : ∀ i ∈ (core.edgeOf netID edgeID).route.levelSteps,
    ¬(core.edgeOf netID edgeID).route.Wrong i)

include hcons hedge hlen

theorem sameNode_putBack_iff {v : Nat}
    (hv : v ∈ [(core.edgeOf netID edgeID).n1a, (core.edgeOf netID edgeID).n2a]) :
    LayeredTree.SameNode (core.sttrees netID)
        (((core.ripEdge netID edgeID).putBack netID edgeID).sttrees netID) v ↔
      (core.sttrees netID).Anchored edgeID v :=
  (back_putBack_ripEdge hcons hedge hlen hv).sameNode_iff hcons (getElem?_edges hedge) hlen
    (heightsAt_ne_nil hv)

include hroute

theorem anchored_of_restored (h : Restored core netID edgeID) :
    ∀ v ∈ [(core.edgeOf netID edgeID).n1a, (core.edgeOf netID edgeID).n2a],
      (core.sttrees netID).Anchored edgeID v := by
  obtain ⟨ripped, recovered, hrip, hrecover, -, -, -, hnodes⟩ := h
  intro v hv
  rw [newRipup3DType3_eq_some hlen hroute] at hrip
  obtain rfl := (Prod.mk.inj (Option.some.inj hrip)).2
  rw [recoverEdge_ripEdge hlen] at hrecover
  obtain rfl := Option.some.inj hrecover
  exact (sameNode_putBack_iff hcons hedge hlen hv).mp (hnodes v hv)

/-- An edge is ripped up and put back without a trace exactly when both its end nodes are anchored. -/
theorem restored_iff : Restored core netID edgeID ↔
    ∀ v ∈ [(core.edgeOf netID edgeID).n1a, (core.edgeOf netID edgeID).n2a],
      (core.sttrees netID).Anchored edgeID v := by
  refine ⟨anchored_of_restored hcons hedge hlen hroute, fun hanchored => ?_⟩
  refine ⟨_, _, newRipup3DType3_eq_some hlen hroute, recoverEdge_ripEdge hlen,
    (usage_putBack_ripEdge core netID edgeID).1, (usage_putBack_ripEdge core netID edgeID).2, ?_,
    fun v hv => (sameNode_putBack_iff hcons hedge hlen hv).mpr (hanchored v hv)⟩
  rw [sttrees_putBack, sttrees_ripEdge]
  rfl

end Exact

end LayeredCore

/-- The tables have to be looked at for the nodes of the tree only. -/
theorem LayeredTree.Consistent.of_nodes {tree : LayeredTree}
    (hpins : tree.numTerminals ≤ tree.nodes.length)
    (hnode : ∀ edge ∈ tree.edges, edge.n1a < tree.nodes.length ∧ edge.n2a < tree.nodes.length)
    (htable : ∀ v < tree.nodes.length, (tree.nodeOf v).connections.Perm (tree.tableAt v))
    (hextreme : ∀ v < tree.nodes.length, tree.layersAt v ≠ [] → tree.Extreme v)
    (hlayers : ∀ v < tree.nodes.length, ∀ layer ∈ tree.layersAt v, 0 ≤ layer ∧ layer < 32768) :
    tree.Consistent := by
  have hout : ∀ v, ¬v < tree.nodes.length → (tree.nodeOf v).connections = [] := by
    intro v hv
    unfold nodeOf
    rw [List.getD_eq_default _ _ (Nat.le_of_not_lt hv)]
    rfl
  have hnone : ∀ v, ¬v < tree.nodes.length → tree.layersAt v = [] := by
    intro v hv
    unfold layersAt
    rw [hout v hv,
      if_neg (fun hpin : tree.IsPin v => hv (Nat.lt_of_lt_of_le hpin hpins))]
    rfl
  refine ⟨hnode, fun v => ?_, fun v hne => ?_, fun v => ?_⟩
  · by_cases hv : v < tree.nodes.length
    · exact htable v hv
    · have hnil : tree.tableAt v = [] := by
        apply List.flatMap_eq_nil_iff.mpr
        rintro ⟨edge, id⟩ hmem
        obtain ⟨h₁, h₂⟩ := hnode edge (List.fst_mem_of_mem_zipIdx hmem)
        unfold entriesAt LayeredEdge.heightsAt
        dsimp only
        rw [if_neg (by omega : ¬edge.n1a = v), if_neg (by omega : ¬edge.n2a = v)]
        exact ite_self _
      rw [hout v hv, hnil]
  · by_cases hv : v < tree.nodes.length
    · exact hextreme v hv hne
    · exact absurd (hnone v hv) hne
  · by_cases hv : v < tree.nodes.length
    · exact hlayers v hv
    · rw [hnone v hv]
      exact fun layer hlayer => absurd hlayer List.not_mem_nil

/-- A star of three pins: two edges of its middle are on the lowest layer, the third rises above it and
ends there, or comes down again. -/
def starTree (comesDown : Bool) : LayeredTree where
  numTerminals := 3
  pinL := [0, 0, 0]
  nodes :=
    [{ connections := [(0, 0)], botL := 0, topL := 0 },
      { connections := [(1, 0)], botL := 0, topL := 0 },
      { connections := [(2, 0)], botL := 0, topL := 0 },
      { connections := [(0, 0), (1, 0), (2, if comesDown then 0 else 1)], botL := 0,
        topL := if comesDown then 0 else 1, hID := some (if comesDown then 0 else 2),
        lID := some 0 }]
  edges :=
    [{ len := 1, n1a := 0, n2a := 3,
       route := { type := .mazeRoute, gridsX := [0, 1], gridsY := [1, 1], gridsL := [0, 0],
                  routelen := 1 } },
      { len := 1, n1a := 1, n2a := 3,
        route := { type := .mazeRoute, gridsX := [2, 1], gridsY := [1, 1], gridsL := [0, 0],
                   routelen := 1 } },
      { len := 1, n1a := 2, n2a := 3,
        route := { type := .mazeRoute, gridsX := [1, 1, 1, 1], gridsY := [0, 0, 1, 1],
                   gridsL := [0, 1, 1, 0], routelen := if comesDown then 3 else 2 } }]

theorem consistent_starTree (comesDown : Bool) : (starTree comesDown).Consistent := by
  apply LayeredTree.Consistent.of_nodes
  · cases comesDown <;> decide
  · cases comesDown <;> decide
  · cases comesDown <;> decide
  · cases comesDown <;> decide
  · cases comesDown <;> decide

def starCore (comesDown : Bool) : LayeredCore where
  sttrees := fun _ => starTree comesDown
  edgeCost := fun _ => 1
  layerEdgeCost := fun _ _ => 1

namespace LayeredCore

/-- An edge on the lowest layer, beside one that ends above it. -/
theorem restored_star : Restored (starCore false) 0 0 :=
  (@restored_iff (starCore false) 0 0 (consistent_starTree false)
    (by decide) (by decide) (by decide)).mpr (by decide)

/-- All edges of the middle end on the lowest layer. -/
theorem not_restored : ¬ ∀ (core : LayeredCore) (netID edgeID : Nat),
    (core.sttrees netID).Consistent → edgeID < (core.sttrees netID).edges.length →
      (core.edgeOf netID edgeID).len ≠ 0 →
      (∀ i ∈ (core.edgeOf netID edgeID).route.levelSteps,
        ¬(core.edgeOf netID edgeID).route.Wrong i) → Restored core netID edgeID := by
  intro hall
  have hanchored := @anchored_of_restored (starCore true) 0 0
    (consistent_starTree true) (by decide) (by decide) (by decide)
    (hall (starCore true) 0 0 (consistent_starTree true) (by decide) (by decide) (by decide))
  exact absurd hanchored (by decide)

end LayeredCore

end OpenRoad.Grt
