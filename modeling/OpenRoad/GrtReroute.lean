import OpenRoad.GrtTree
import OpenRoad.Run
import Mathlib.Data.Fin.VecNotation
import Mathlib.Data.List.Nodup

/-!
The best routing so far: `copyRS` saves the trees of the nets, `copyBR` brings them back and moves
the usage of the grid edges from the routes that go to the routes that come. In between, edges are
ripped up and rerouted, and trees get new nodes.
-/

namespace OpenRoad.Grt

open Tally

namespace StTree

variable (tree : StTree)

/-- The grid edges the routes of a tree cover. -/
def covered : List GridEdge := tree.edges.flatMap fun edge => edge.route.covered

/-- The edges whose ends differ: only these are routed. -/
def routed : List TreeEdge := tree.edges.filter fun edge => 0 < edge.len

/-- The edges between nodes at one point. -/
def degraded : List TreeEdge := tree.edges.filter fun edge => !decide (0 < edge.len)

end StTree

/-! ### Saving -/

def TreeNode.copied (node : TreeNode) : TreeNode :=
  { x := node.x, y := node.y, nbr := node.nbr, edge := node.edge }

/-- Only the routes of the edges with a length are copied. -/
def TreeEdge.copied (edge : TreeEdge) : TreeEdge :=
  { len := edge.len
    n1 := edge.n1
    n2 := edge.n2
    route :=
      { type := .noRoute
        routelen := edge.route.routelen
        gridsX := if 0 < edge.len then resize edge.route.gridsX (edge.route.routelen + 1) 0 else []
        gridsY :=
          if 0 < edge.len then resize edge.route.gridsY (edge.route.routelen + 1) 0 else [] } }

def StTree.copied (tree : StTree) : StTree :=
  { numTerminals := tree.numTerminals
    nodes := tree.nodes.map TreeNode.copied
    edges := tree.edges.map TreeEdge.copied }

/-! ### Restoring -/

/-- The routes of the edges with a length are cleared first. -/
def TreeEdge.cleaned (edge : TreeEdge) : TreeEdge :=
  if 0 < edge.len then { edge with route := { edge.route with gridsX := [], gridsY := [] } }
  else edge

def TreeNode.restored (node bk : TreeNode) : TreeNode :=
  { node with x := bk.x, y := bk.y, nbr := bk.nbr, edge := bk.edge }

def TreeEdge.restored (edge bk : TreeEdge) : TreeEdge :=
  { edge with
    len := bk.len
    n1 := bk.n1
    n2 := bk.n2
    route :=
      { edge.route with
        type := .mazeRoute
        routelen := bk.route.routelen
        gridsX :=
          if 0 < bk.len then resize bk.route.gridsX (bk.route.routelen + 1) 0
          else edge.route.gridsX
        gridsY :=
          if 0 < bk.len then resize bk.route.gridsY (bk.route.routelen + 1) 0
          else edge.route.gridsY } }

def StTree.restored (tree bk : StTree) : StTree :=
  { numTerminals := bk.numTerminals
    nodes := (resize tree.nodes bk.nodes.length default).zipWith TreeNode.restored bk.nodes
    edges :=
      (resize (tree.edges.map TreeEdge.cleaned) bk.edges.length default).zipWith
        TreeEdge.restored bk.edges }

namespace FastRouteCore

variable (core : FastRouteCore)

/-- What the routes that are walked cost, grid edge by grid edge. -/
def charges : List (GridEdge × Nat) :=
  core.netIds.flatMap fun netID =>
    ((core.sttrees netID).routed.flatMap fun edge => edge.route.covered).map fun gridEdge =>
      (gridEdge, core.edgeCost netID)

def copyRS : FastRouteCore :=
  { core with
    sttreesBk :=
      some fun netID => if netID ∈ core.netIds then (core.sttrees netID).copied else default }

/-- The trees after `copyBR`. -/
def restoreTrees (bk : Nat → StTree) : FastRouteCore :=
  { core with
    sttrees := fun netID =>
      if netID ∈ core.netIds then (core.sttrees netID).restored (bk netID) else core.sttrees netID }

def copyBR : FastRouteCore :=
  match core.sttreesBk with
  | none => core
  | some bk =>
      { core.restoreTrees bk with
        usage := post addTo (post takeFrom core.usage core.charges) (core.restoreTrees bk).charges
        usedGgrid := core.usedGgrid ∪ ((core.restoreTrees bk).charges.map Prod.fst).toFinset }

end FastRouteCore

/-! ### Rerouting and new nodes -/

/-- The places of a node that hold its neighbours. -/
def TreeNode.slots (node : TreeNode) : List (Fin 3) :=
  (List.finRange 3).filter fun i => i.val < node.nbrCount

/-- The neighbour `n1` goes, the others move up; the new node takes the place of `nbr`. -/
def TreeNode.splitFrom (node : TreeNode) (n1 nbr newNodeId newEdgeId : Nat) : TreeNode :=
  let kept := (node.slots.filter fun i => !decide (node.nbr i = n1)).map fun i =>
    if node.nbr i = nbr then (newNodeId, newEdgeId) else (node.nbr i, node.edge i)
  { node with
    nbrCount := kept.length
    nbr := fun i => (kept.map Prod.fst).getD i.val (node.nbr i)
    edge := fun i => (kept.map Prod.snd).getD i.val (node.edge i) }

/-- The neighbour `n2` is replaced. -/
def TreeNode.redirect (node : TreeNode) (n2 newNodeId : Nat) : TreeNode :=
  { node with
    nbr := fun i =>
      if i.val < node.nbrCount ∧ node.nbr i = n2 then newNodeId else node.nbr i }

/-- The end `n2` of an edge is moved to the new node. -/
def TreeEdge.moveEnd (edge : TreeEdge) (n2 newNodeId stackAlias : Nat) : TreeEdge :=
  if edge.n1 = n2 then { edge with n1 := newNodeId, n1a := stackAlias }
  else { edge with n2 := newNodeId, n2a := stackAlias }

/-- A new node at the place of the pin `n2` takes over the edge from `n1` and the edge to one other
neighbour; a new edge without length joins it to the pin. -/
def splitEdge (tree : StTree) (n1 n2 edgeN1N2 : Nat) : Nat × StTree :=
  let node := tree.nodes.getD n2 default
  let newNodeId := tree.nodes.length
  let newEdgeId := tree.edges.length
  let other : Fin 3 := if node.nbr 0 = n1 then 1 else 0
  let nbr := node.nbr other
  let edgeN2Nbr := node.edge other
  let newNode : TreeNode :=
    { x := node.x
      y := node.y
      nbrCount := 3
      nbr := ![nbr, n2, n1]
      edge := ![edgeN2Nbr, newEdgeId, edgeN1N2]
      stackAlias := node.stackAlias }
  let newEdge : TreeEdge :=
    { len := 0
      n1 := newNodeId
      n1a := node.stackAlias
      n2 := n2
      n2a := node.stackAlias
      route := { type := .mazeRoute, gridsX := [node.x], gridsY := [node.y] } }
  let nodes := tree.nodes.modify n2 fun node => node.splitFrom n1 nbr newNodeId newEdgeId
  let nodes := nodes.modify nbr fun node => node.redirect n2 newNodeId
  let nodes := nodes.modify n1 fun node => node.redirect n2 newNodeId
  let edges := tree.edges.modify edgeN2Nbr fun edge => edge.moveEnd n2 newNodeId node.stackAlias
  let edges := edges.modify edgeN1N2 fun edge => edge.moveEnd n2 newNodeId node.stackAlias
  (newNodeId, { tree with nodes := nodes ++ [newNode], edges := edges ++ [newEdge] })

/-- What happens between saving and restoring: the maze router reroutes an edge, splits an edge at a
pin, or moves pieces of routes between the edges of a net. -/
inductive RouteOp where
  | reroute (netID edgeID : Nat) (gridsX gridsY : List Int)
  | splitEdge (netID n1 n2 edgeID : Nat)
  | rewire (netID : Nat) (tree : StTree)

/-- The route found by the maze router: `len` is the distance of its ends. -/
def TreeEdge.rerouted (edge : TreeEdge) (gridsX gridsY : List Int) : TreeEdge :=
  { edge with
    len :=
      ((gridsX.getD 0 0) - (gridsX.getD (gridsX.length - 1) 0)).natAbs +
        ((gridsY.getD 0 0) - (gridsY.getD (gridsX.length - 1) 0)).natAbs
    route :=
      { edge.route with
        type := .mazeRoute
        routelen := gridsX.length - 1
        gridsX := gridsX
        gridsY := gridsY } }

namespace FastRouteCore

variable (core : FastRouteCore)

def setTree (netID : Nat) (tree : StTree) : FastRouteCore :=
  { core with sttrees := Function.update core.sttrees netID tree }

/-- What the ripup of a maze route takes back, and what a new one is charged: every step counts. -/
def steps (netID : Nat) (edge : TreeEdge) : List (GridEdge × Nat) :=
  (List.range edge.route.routelen).map fun i => (edge.route.edgeAt i, core.edgeCost netID)

/-- `newRipupCheck` rips the edge up, and the new route is charged. -/
def reroute (netID edgeID : Nat) (gridsX gridsY : List Int) : FastRouteCore :=
  let tree := core.sttrees netID
  let edge := tree.edges.getD edgeID default
  let rerouted := edge.rerouted gridsX gridsY
  let usage := post addTo (post takeFrom core.usage (core.steps netID edge))
    (core.steps netID rerouted)
  { core.setTree netID { tree with edges := tree.edges.set edgeID rerouted } with
    usage := usage
    usedGgrid := core.usedGgrid ∪ ((core.steps netID rerouted).map Prod.fst).toFinset }

/-- An operation; it is refused where the router does not perform it. Pieces of routes may be moved
in any way that covers every grid edge as often as before. -/
def perform : RouteOp → Option FastRouteCore
  | .reroute netID edgeID gridsX gridsY =>
      let tree := core.sttrees netID
      let rerouted := (tree.edges.getD edgeID default).rerouted gridsX gridsY
      if netID ∈ core.netIds ∧ edgeID < tree.edges.length ∧
          0 < (tree.edges.getD edgeID default).len ∧
          (tree.edges.getD edgeID default).route.type = .mazeRoute ∧ rerouted.route.Moves then
        some (core.reroute netID edgeID gridsX gridsY)
      else none
  | .splitEdge netID n1 n2 edgeID =>
      if netID ∈ core.netIds then
        some (core.setTree netID (Grt.splitEdge (core.sttrees netID) n1 n2 edgeID).2)
      else none
  | .rewire netID tree =>
      if netID ∈ core.netIds ∧ tree.covered.Perm (core.sttrees netID).covered ∧
          (∀ edge ∈ tree.edges, 0 < edge.len → edge.route.Moves) then
        some (core.setTree netID tree)
      else none

end FastRouteCore

end OpenRoad.Grt

/-!
Ripups, reroutes and new nodes keep the books: the counter of every grid edge stays what the routes
that cover it cost, as far as sixteen bits tell.
-/

namespace OpenRoad.Grt

open Tally

/-! ### Pieces of trees -/

theorem flatMap_modify {α β : Type*} {f : α → α} {g : α → List β} (hkeep : ∀ a, g (f a) = g a)
    (list : List α) (i : Nat) : (list.modify i f).flatMap g = list.flatMap g := by
  induction list generalizing i with
  | nil => cases i <;> rfl
  | cons a list ih =>
      cases i with
      | zero => rw [List.modify_zero_cons, List.flatMap_cons, List.flatMap_cons, hkeep]
      | succ i => rw [List.modify_succ_cons, List.flatMap_cons, List.flatMap_cons, ih]

theorem mem_modify {α : Type*} {f : α → α} {p : α → Prop} (hkeep : ∀ a, p a → p (f a))
    {list : List α} {i : Nat} (hall : ∀ a ∈ list, p a) : ∀ a ∈ list.modify i f, p a := by
  induction list generalizing i with
  | nil =>
      cases i with
      | zero => exact hall
      | succ i => exact hall
  | cons b list ih =>
      obtain ⟨hb, hlist⟩ := List.forall_mem_cons.mp hall
      cases i with
      | zero =>
          rw [List.modify_zero_cons]
          exact List.forall_mem_cons.mpr ⟨hkeep b hb, hlist⟩
      | succ i =>
          rw [List.modify_succ_cons]
          exact List.forall_mem_cons.mpr ⟨hb, ih hlist⟩

/-- An entry that is replaced gives its own pieces back. -/
theorem flatMap_set_perm {α β : Type*} (g : α → List β) {list : List α} {i : Nat} (b new : α)
    (hi : i < list.length) :
    (g (list.getD i b) ++ (list.set i new).flatMap g).Perm (g new ++ list.flatMap g) := by
  induction list generalizing i with
  | nil => cases hi
  | cons a list ih =>
      cases i with
      | zero =>
          rw [List.set_cons_zero, List.flatMap_cons, List.flatMap_cons, List.getD_cons_zero,
            ← List.append_assoc, ← List.append_assoc]
          exact List.perm_append_comm.append_right _
      | succ i =>
          have hrest := ih (Nat.lt_of_succ_lt_succ hi)
          rw [List.set_cons_succ, List.flatMap_cons, List.flatMap_cons, List.getD_cons_succ]
          refine (List.perm_append_comm_assoc _ _ _).trans ?_
          exact (hrest.append_left _).trans (List.perm_append_comm_assoc _ _ _)

@[simp] theorem TreeEdge.moveEnd_route (edge : TreeEdge) (n2 newNodeId stackAlias : Nat) :
    (edge.moveEnd n2 newNodeId stackAlias).route = edge.route := by
  unfold moveEnd
  split
  · rfl
  · rfl

@[simp] theorem TreeEdge.moveEnd_len (edge : TreeEdge) (n2 newNodeId stackAlias : Nat) :
    (edge.moveEnd n2 newNodeId stackAlias).len = edge.len := by
  unfold moveEnd
  split
  · rfl
  · rfl

/-- A split edge is covered as before: the new edge has no length. -/
theorem splitEdge_covered (tree : StTree) (n1 n2 edgeN1N2 : Nat) :
    (splitEdge tree n1 n2 edgeN1N2).2.covered = tree.covered := by
  have hmove : ∀ new stackAlias : Nat, ∀ edge : TreeEdge,
      (edge.moveEnd n2 new stackAlias).route.covered = edge.route.covered := by
    intro new stackAlias edge
    rw [TreeEdge.moveEnd_route]
  unfold splitEdge StTree.covered
  rw [List.flatMap_append, flatMap_modify (hmove _ _), flatMap_modify (hmove _ _)]
  exact List.append_nil _

/-- Every edge with a length has a route that is stored in full and moves at each step. -/
def StTree.Routed (tree : StTree) : Prop :=
  ∀ edge ∈ tree.edges, 0 < edge.len → edge.route.Moves

theorem StTree.Routed.splitEdge {tree : StTree} (hrouted : tree.Routed) (n1 n2 edgeN1N2 : Nat) :
    (splitEdge tree n1 n2 edgeN1N2).2.Routed := by
  have hmove : ∀ new stackAlias : Nat, ∀ edge : TreeEdge, (0 < edge.len → edge.route.Moves) →
      0 < (edge.moveEnd n2 new stackAlias).len →
        (edge.moveEnd n2 new stackAlias).route.Moves := by
    intro new stackAlias edge hedge hlen
    rw [TreeEdge.moveEnd_route]
    rw [TreeEdge.moveEnd_len] at hlen
    exact hedge hlen
  intro edge hedge
  rcases List.mem_append.mp hedge with hold | hnew
  · exact mem_modify (hmove _ _) (mem_modify (hmove _ _) hrouted) edge hold
  · rw [List.mem_singleton.mp hnew]
    exact fun hlen => absurd hlen (lt_irrefl 0)

namespace FastRouteCore

/-! ### What the routes cost -/

/-- What the routes of a net cost. -/
def netCharges (core : FastRouteCore) (netID : Nat) : List (GridEdge × Nat) :=
  (core.sttrees netID).covered.map fun gridEdge => (gridEdge, core.edgeCost netID)

/-- What all routes that cover a grid edge cost. -/
def demand (core : FastRouteCore) (gridEdge : GridEdge) : Nat :=
  total (core.netIds.flatMap core.netCharges) gridEdge

/-- The books in sixteen bits. -/
def Charged (core : FastRouteCore) : Prop :=
  ∀ gridEdge, core.usage gridEdge = UInt16.ofNat (core.demand gridEdge)

/-- What the nets other than one cost. -/
def others (core : FastRouteCore) (netID : Nat) (gridEdge : GridEdge) : Nat :=
  total ((core.netIds.erase netID).flatMap core.netCharges) gridEdge

variable {core : FastRouteCore}

theorem demand_eq {netID : Nat} (hmem : netID ∈ core.netIds) (gridEdge : GridEdge) :
    core.demand gridEdge = total (core.netCharges netID) gridEdge + core.others netID gridEdge := by
  have hperm := (List.perm_cons_erase hmem).flatMap_right core.netCharges
  calc core.demand gridEdge
      = total ((netID :: core.netIds.erase netID).flatMap core.netCharges) gridEdge :=
        total_perm hperm gridEdge
    _ = total (core.netCharges netID) gridEdge + core.others netID gridEdge := by
        rw [List.flatMap_cons, total_append]
        rfl

theorem netCharges_setTree (netID : Nat) (tree : StTree) :
    (core.setTree netID tree).netCharges netID =
      tree.covered.map fun gridEdge => (gridEdge, core.edgeCost netID) := by
  unfold netCharges setTree
  simp only [Function.update_self]

/-- The other nets do not notice. -/
theorem others_setTree (netID : Nat) (tree : StTree) (gridEdge : GridEdge) :
    (core.setTree netID tree).others netID gridEdge = core.others netID gridEdge := by
  have hsame : (core.netIds.erase netID).flatMap (core.setTree netID tree).netCharges =
      (core.netIds.erase netID).flatMap core.netCharges := by
    apply List.flatMap_congr
    intro other hother
    have hne : other ≠ netID := by
      intro heq
      rw [heq] at hother
      exact core.netIds_nodup.not_mem_erase hother
    unfold netCharges setTree
    simp only [Function.update_of_ne hne]
  show total ((core.netIds.erase netID).flatMap (core.setTree netID tree).netCharges) gridEdge = _
  rw [hsame]
  rfl

theorem demand_setTree_eq {netID : Nat} (hmem : netID ∈ core.netIds) (tree : StTree)
    (gridEdge : GridEdge) :
    (core.setTree netID tree).demand gridEdge =
      total (tree.covered.map fun gridEdge => (gridEdge, core.edgeCost netID)) gridEdge +
        core.others netID gridEdge := by
  have hmem' : netID ∈ (core.setTree netID tree).netIds := hmem
  rw [demand_eq hmem', others_setTree, netCharges_setTree]

/-- A tree that covers every grid edge as often costs as much. -/
theorem demand_setTree {netID : Nat} {tree : StTree} (hmem : netID ∈ core.netIds)
    (hperm : tree.covered.Perm (core.sttrees netID).covered) (gridEdge : GridEdge) :
    (core.setTree netID tree).demand gridEdge = core.demand gridEdge := by
  rw [demand_eq hmem, demand_setTree_eq hmem]
  exact congrArg (· + core.others netID gridEdge) (total_perm (hperm.map _) gridEdge)

/-- A route whose steps all move is charged what it covers. -/
theorem steps_eq {edge : TreeEdge} (hmoves : edge.route.Moves) (netID : Nat) :
    core.steps netID edge =
      edge.route.covered.map fun gridEdge => (gridEdge, core.edgeCost netID) := by
  rw [hmoves.covered_eq, List.map_map]
  rfl

/-! ### The books are kept -/

/-- The books are right and the routes are stored as they should be. -/
structure Booked (core : FastRouteCore) : Prop where
  charged : core.Charged
  routed : ∀ netID ∈ core.netIds, (core.sttrees netID).Routed

/-- What no operation changes: the nets, their costs and the saved trees. -/
structure Frame (core core' : FastRouteCore) : Prop where
  netIds : core'.netIds = core.netIds
  edgeCost : core'.edgeCost = core.edgeCost
  sttreesBk : core'.sttreesBk = core.sttreesBk

theorem Frame.trans {core core' core'' : FastRouteCore} (hfirst : Frame core core')
    (hsecond : Frame core' core'') : Frame core core'' :=
  ⟨hsecond.netIds.trans hfirst.netIds, hsecond.edgeCost.trans hfirst.edgeCost,
    hsecond.sttreesBk.trans hfirst.sttreesBk⟩

theorem routed_setTree {netID : Nat} {tree : StTree}
    (hrouted : ∀ other ∈ core.netIds, (core.sttrees other).Routed) (htree : tree.Routed) :
    ∀ other ∈ core.netIds, ((core.setTree netID tree).sttrees other).Routed := by
  intro other hother
  show (Function.update core.sttrees netID tree other).Routed
  by_cases heq : other = netID
  · rw [heq, Function.update_self]
    exact htree
  · rw [Function.update_of_ne heq]
    exact hrouted other hother

/-- Nothing changes for the books when a tree covers what it covered. -/
theorem Booked.setTree (hbooked : core.Booked) {netID : Nat} {tree : StTree}
    (hmem : netID ∈ core.netIds) (hperm : tree.covered.Perm (core.sttrees netID).covered)
    (htree : tree.Routed) : (core.setTree netID tree).Booked where
  charged gridEdge := by
    rw [demand_setTree hmem hperm]
    exact hbooked.charged gridEdge
  routed := routed_setTree hbooked.routed htree

theorem Booked.reroute (hbooked : core.Booked) {netID edgeID : Nat} {gridsX gridsY : List Int}
    (hmem : netID ∈ core.netIds) (hedge : edgeID < (core.sttrees netID).edges.length)
    (hlen : 0 < ((core.sttrees netID).edges.getD edgeID default).len)
    (hmoves : (((core.sttrees netID).edges.getD edgeID default).rerouted gridsX gridsY).route.Moves) :
    (core.reroute netID edgeID gridsX gridsY).Booked := by
  have hrouted := hbooked.routed netID hmem
  generalize htree : core.sttrees netID = tree at hedge hlen hmoves hrouted
  have hold : (tree.edges.getD edgeID default).route.Moves := by
    apply hrouted _ _ hlen
    rw [List.getD_eq_getElem?_getD, List.getElem?_eq_getElem hedge, Option.getD_some]
    exact List.getElem_mem hedge
  generalize hnew : (tree.edges.getD edgeID default).rerouted gridsX gridsY = rerouted at hmoves
  generalize hbefore : tree.edges.getD edgeID default = edge at hold hnew
  have hcore : core.reroute netID edgeID gridsX gridsY =
      { core.setTree netID { tree with edges := tree.edges.set edgeID rerouted } with
        usage := post addTo (post takeFrom core.usage (core.steps netID edge))
          (core.steps netID rerouted)
        usedGgrid := core.usedGgrid ∪ ((core.steps netID rerouted).map Prod.fst).toFinset } := by
    unfold FastRouteCore.reroute
    simp only [htree, hbefore, hnew]
  rw [hcore]
  constructor
  · intro gridEdge
    -- the new tree covers the new route in the place of the old one
    have hperm := flatMap_set_perm (fun edge : TreeEdge => edge.route.covered) default rerouted hedge
    rw [hbefore] at hperm
    have htotal := total_perm (hperm.map fun covered => (covered, core.edgeCost netID)) gridEdge
    rw [List.map_append, List.map_append, total_append, total_append] at htotal
    have hbooks := hbooked.charged gridEdge
    rw [demand_eq hmem] at hbooks
    have hcharges : total (core.netCharges netID) gridEdge =
        total ((tree.edges.flatMap fun edge => edge.route.covered).map fun covered =>
          (covered, core.edgeCost netID)) gridEdge := by
      unfold netCharges
      rw [htree]
      rfl
    show post addTo (post takeFrom core.usage (core.steps netID edge)) (core.steps netID rerouted)
        gridEdge =
      UInt16.ofNat ((core.setTree netID { tree with edges := tree.edges.set edgeID rerouted }).demand
        gridEdge)
    rw [post_addTo, post_takeFrom, steps_eq hold, steps_eq hmoves, hbooks, hcharges,
      demand_setTree_eq hmem]
    have hsum := congrArg UInt16.ofNat htotal
    rw [UInt16.ofNat_add, UInt16.ofNat_add] at hsum
    rw [UInt16.ofNat_add, UInt16.ofNat_add]
    unfold StTree.covered
    grind
  · apply routed_setTree hbooked.routed
    intro other hother hpos
    rcases List.mem_or_eq_of_mem_set hother with hin | heq
    · exact hrouted other hin hpos
    · rw [heq]
      exact hmoves

/-- One operation keeps the books and leaves the rest alone. -/
theorem perform_keeps {op : RouteOp} {core' : FastRouteCore} (hbooked : core.Booked)
    (hperform : core.perform op = some core') : core.Frame core' ∧ core'.Booked := by
  cases op with
  | reroute netID edgeID gridsX gridsY =>
      obtain ⟨⟨hmem, hedge, hlen, -, hmoves⟩, heq⟩ := Option.ite_none_right_eq_some.mp hperform
      obtain rfl := Option.some.inj heq
      exact ⟨⟨rfl, rfl, rfl⟩, hbooked.reroute hmem hedge hlen hmoves⟩
  | splitEdge netID n1 n2 edgeID =>
      obtain ⟨hmem, heq⟩ := Option.ite_none_right_eq_some.mp hperform
      obtain rfl := Option.some.inj heq
      refine ⟨⟨rfl, rfl, rfl⟩, hbooked.setTree hmem ?_ ?_⟩
      · rw [splitEdge_covered]
      · exact (hbooked.routed netID hmem).splitEdge n1 n2 edgeID
  | rewire netID tree =>
      obtain ⟨⟨hmem, hperm, htree⟩, heq⟩ := Option.ite_none_right_eq_some.mp hperform
      obtain rfl := Option.some.inj heq
      exact ⟨⟨rfl, rfl, rfl⟩, hbooked.setTree hmem hperm htree⟩

/-- So does a run of operations. -/
theorem run_keeps {ops : List RouteOp} {core' : FastRouteCore} (hbooked : core.Booked)
    (hrun : Run.run perform core ops = some core') : core.Frame core' ∧ core'.Booked :=
  Run.run_related (R := Frame) (fun _ => ⟨rfl, rfl, rfl⟩)
    (fun _ _ _ => Frame.trans) (fun _ _ _ hinv _ hstep => perform_keeps hinv hstep) hbooked
    (Run.along_true core ops) hrun

end FastRouteCore

end OpenRoad.Grt
