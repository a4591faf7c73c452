import OpenRoad.GrtReroute

/-!
What `copyBR` brings back. The saved trees come back as they were exactly where the number of
neighbours of every node, which is not saved, has not changed meanwhile, and where the edges without
length, whose routes are not saved, still hold theirs.
-/

namespace OpenRoad.Grt

open Tally

/-! ### The same tree -/

structure TreeNode.Same (node saved : TreeNode) : Prop where
  x : node.x = saved.x
  y : node.y = saved.y
  nbr : node.nbr = saved.nbr
  edge : node.edge = saved.edge
  nbrCount : node.nbrCount = saved.nbrCount

structure TreeEdge.Same (edge saved : TreeEdge) : Prop where
  len : edge.len = saved.len
  n1 : edge.n1 = saved.n1
  n2 : edge.n2 = saved.n2
  routelen : edge.route.routelen = saved.route.routelen
  gridsX : edge.route.gridsX = saved.route.gridsX
  gridsY : edge.route.gridsY = saved.route.gridsY

structure StTree.Same (tree saved : StTree) : Prop where
  numTerminals : tree.numTerminals = saved.numTerminals
  nodes : List.Forall₂ TreeNode.Same tree.nodes saved.nodes
  edges : List.Forall₂ TreeEdge.Same tree.edges saved.edges

/-! ### One tree -/

/-- A restored list agrees with the saved one when its entries do. -/
theorem forall₂_restored {α : Type*} {R : α → α → Prop} (f : α → α → α) (g : α → α)
    (list saved : List α) (new : α) :
    List.Forall₂ R ((resize list (saved.map g).length new).zipWith f (saved.map g)) saved ↔
      ∀ i (hi : i < saved.length), R (f (list.getD i new) (g saved[i])) saved[i] := by
  have hlength : ((resize list (saved.map g).length new).zipWith f (saved.map g)).length =
      saved.length := by
    rw [List.length_zipWith, length_resize, List.length_map, Nat.min_self]
  have hget : ∀ i (hi : i < saved.length)
      (h : i < ((resize list (saved.map g).length new).zipWith f (saved.map g)).length),
      ((resize list (saved.map g).length new).zipWith f (saved.map g))[i] =
        f (list.getD i new) (g saved[i]) := by
    intro i hi h
    have hresize := getElem?_resize list (saved.map g).length new
      (by rw [List.length_map]; exact hi)
    rw [List.getElem_zipWith, List.getElem_map]
    rw [(List.getElem?_eq_some_iff.mp hresize).2]
  rw [List.forall₂_iff_get]
  constructor
  · rintro ⟨-, hall⟩ i hi
    have h := hall i (by rw [hlength]; exact hi) hi
    rw [List.get_eq_getElem, hget i hi] at h
    exact h
  · intro hall
    refine ⟨hlength, fun i h hi => ?_⟩
    rw [List.get_eq_getElem, hget i hi]
    exact hall i hi

theorem resize_resize {α : Type*} {list : List α} {size : Nat} (hlength : list.length = size)
    (new : α) : resize (resize list size new) size new = list := by
  have hself : resize list size new = list := by
    unfold resize
    rw [List.take_append_of_le_length (by omega), ← hlength, List.take_length]
  rw [hself, hself]

theorem TreeNode.restored_same (node saved : TreeNode) :
    (node.restored saved.copied).Same saved ↔ node.nbrCount = saved.nbrCount :=
  ⟨fun hsame => hsame.nbrCount, fun hcount => ⟨rfl, rfl, rfl, rfl, hcount⟩⟩

/-- The restored route of an edge with a length is the saved one. -/
theorem TreeEdge.restored_grids {saved : TreeEdge} (edge : TreeEdge) (hlen : 0 < saved.len)
    (hmoves : saved.route.Moves) :
    (edge.restored saved.copied).route.gridsX = saved.route.gridsX ∧
      (edge.restored saved.copied).route.gridsY = saved.route.gridsY := by
  obtain ⟨hx, hy, -⟩ := hmoves
  unfold restored copied
  simp only [if_pos hlen]
  exact ⟨resize_resize hx 0, resize_resize hy 0⟩

theorem TreeEdge.restored_same {saved : TreeEdge} (edge : TreeEdge)
    (hmoves : 0 < saved.len → saved.route.Moves) :
    (edge.restored saved.copied).Same saved ↔
      (saved.len = 0 →
        edge.route.gridsX = saved.route.gridsX ∧ edge.route.gridsY = saved.route.gridsY) := by
  by_cases hlen : 0 < saved.len
  · obtain ⟨hx, hy⟩ := TreeEdge.restored_grids edge hlen (hmoves hlen)
    exact ⟨fun _ hzero => absurd hzero hlen.ne', fun _ => ⟨rfl, rfl, rfl, rfl, hx, hy⟩⟩
  · have hx : (edge.restored saved.copied).route.gridsX = edge.route.gridsX := if_neg hlen
    have hy : (edge.restored saved.copied).route.gridsY = edge.route.gridsY := if_neg hlen
    constructor
    · intro hsame _
      exact ⟨hx.symm.trans hsame.gridsX, hy.symm.trans hsame.gridsY⟩
    · intro hkept
      obtain ⟨hkeptX, hkeptY⟩ := hkept (by omega)
      exact ⟨rfl, rfl, rfl, rfl, hx.trans hkeptX, hy.trans hkeptY⟩

/-- The number of neighbours of every saved node is what it was; a node that is gone counts as one
without neighbours. -/
def StTree.KeepsCounts (now saved : StTree) : Prop :=
  ∀ i (hi : i < saved.nodes.length), (now.nodes.getD i default).nbrCount = saved.nodes[i].nbrCount

/-- What the cleanup leaves of the routes of the saved edges without length is what was there. -/
def StTree.KeepsDegraded (now saved : StTree) : Prop :=
  ∀ i (hi : i < saved.edges.length), saved.edges[i].len = 0 →
    (now.edges.getD i default).cleaned.route.gridsX = saved.edges[i].route.gridsX ∧
      (now.edges.getD i default).cleaned.route.gridsY = saved.edges[i].route.gridsY

theorem StTree.restored_same {saved : StTree} (hrouted : saved.Routed) (now : StTree) :
    (now.restored saved.copied).Same saved ↔ now.KeepsCounts saved ∧ now.KeepsDegraded saved := by
  have hnodes : List.Forall₂ TreeNode.Same (now.restored saved.copied).nodes saved.nodes ↔
      now.KeepsCounts saved := by
    refine (forall₂_restored TreeNode.restored TreeNode.copied _ _ _).trans ?_
    simp only [TreeNode.restored_same]
    exact Iff.rfl
  have hedges : List.Forall₂ TreeEdge.Same (now.restored saved.copied).edges saved.edges ↔
      now.KeepsDegraded saved := by
    refine (forall₂_restored TreeEdge.restored TreeEdge.copied _ _ _).trans ?_
    refine forall_congr' fun i => forall_congr' fun hi => ?_
    have hcleaned : (now.edges.map TreeEdge.cleaned).getD i default =
        (now.edges.getD i default).cleaned := by
      rw [List.getD_eq_getElem?_getD, List.getD_eq_getElem?_getD, List.getElem?_map]
      cases now.edges[i]? with
      | none => rfl
      | some edge => rfl
    rw [hcleaned]
    exact TreeEdge.restored_same _ (hrouted _ (List.getElem_mem hi))
  constructor
  · intro hsame
    exact ⟨hnodes.mp hsame.nodes, hedges.mp hsame.edges⟩
  · rintro ⟨hcounts, hdegraded⟩
    exact ⟨rfl, hnodes.mpr hcounts, hedges.mpr hdegraded⟩

/-! ### What the restored tree covers -/

theorem Route.covered_congr {route route' : Route} (hlen : route.routelen = route'.routelen)
    (hx : route.gridsX = route'.gridsX) (hy : route.gridsY = route'.gridsY) :
    route.covered = route'.covered := by
  have hedge : route.edgeAt = route'.edgeAt := by
    funext i
    unfold edgeAt
    rw [hx, hy]
  have hstays : (fun i => !decide (route.Stays i)) = fun i => !decide (route'.Stays i) := by
    funext i
    have hiff : route.Stays i ↔ route'.Stays i := by
      unfold Stays
      rw [hx, hy]
    rw [decide_eq_decide.mpr hiff]
  unfold covered
  rw [hlen, hedge, hstays]

/-- The edges with a length have the saved routes, whatever became of the others. -/
theorem StTree.restored_routed {saved : StTree} (hrouted : saved.Routed) (now : StTree) :
    ((now.restored saved.copied).routed.flatMap fun edge => edge.route.covered) =
      saved.routed.flatMap fun edge => edge.route.covered := by
  have hedges : List.Forall₂ (fun edge saved : TreeEdge => edge.len = saved.len ∧
      (0 < saved.len → edge.route.covered = saved.route.covered))
      (now.restored saved.copied).edges saved.edges := by
    refine (forall₂_restored TreeEdge.restored TreeEdge.copied _ _ _).mpr fun i hi => ⟨rfl, ?_⟩
    intro hlen
    obtain ⟨hx, hy⟩ := TreeEdge.restored_grids ((now.edges.map TreeEdge.cleaned).getD i default)
      hlen (hrouted _ (List.getElem_mem hi) hlen)
    exact Route.covered_congr rfl hx hy
  unfold routed
  generalize (now.restored saved.copied).edges = edges at hedges
  generalize saved.edges = savedEdges at hedges
  induction hedges with
  | nil => rfl
  | cons hhead _ ih =>
      obtain ⟨hlen, hcovered⟩ := hhead
      rw [List.filter_cons, List.filter_cons, hlen]
      split
      · rename_i hpos
        rw [List.flatMap_cons, List.flatMap_cons, ih, hcovered (of_decide_eq_true hpos)]
      · exact ih

theorem StTree.Same.covered_eq {tree saved : StTree} (hsame : tree.Same saved) :
    tree.covered = saved.covered := by
  have hedges := hsame.edges
  unfold covered
  generalize tree.edges = edges, saved.edges = savedEdges at hedges
  induction hedges with
  | nil => rfl
  | cons hhead _ ih =>
      rw [List.flatMap_cons, List.flatMap_cons, ih,
        Route.covered_congr hhead.routelen hhead.gridsX hhead.gridsY]

namespace FastRouteCore

/-- What the routes of the edges without length cost; they are not walked. -/
def idle (core : FastRouteCore) (gridEdge : GridEdge) : Nat :=
  total (core.netIds.flatMap fun netID =>
    ((core.sttrees netID).degraded.flatMap fun edge => edge.route.covered).map fun gridEdge =>
      (gridEdge, core.edgeCost netID)) gridEdge

theorem demand_split (core : FastRouteCore) (gridEdge : GridEdge) :
    core.demand gridEdge = total core.charges gridEdge + core.idle gridEdge := by
  unfold demand charges idle
  rw [total_flatMap, total_flatMap, total_flatMap, ← List.sum_map_add]
  refine congrArg List.sum (List.map_congr_left fun netID _ => ?_)
  unfold netCharges StTree.covered
  rw [List.map_flatMap, total_filter _ fun edge : TreeEdge => decide (0 < edge.len)]
  rw [List.map_flatMap, List.map_flatMap]
  rfl

/-- The routes of `saved` are back, with their costs, and no counter went below zero. -/
def Restores (saved now : FastRouteCore) : Prop :=
  (∀ netID ∈ saved.netIds, (now.copyBR.sttrees netID).Same (saved.sttrees netID)) ∧
    (∀ gridEdge, (now.copyBR.usage gridEdge).toNat = now.copyBR.demand gridEdge) ∧
      Covered now.usage now.charges

/-- What has to be left of the saved trees: the numbers of neighbours, the routes of the edges
without length and what these cost. The counters have to hold what the walked routes cost. -/
structure Kept (saved now : FastRouteCore) : Prop where
  counts : ∀ netID ∈ saved.netIds, (now.sttrees netID).KeepsCounts (saved.sttrees netID)
  degraded : ∀ netID ∈ saved.netIds, (now.sttrees netID).KeepsDegraded (saved.sttrees netID)
  idle : ∀ gridEdge, UInt16.ofNat (now.idle gridEdge) = UInt16.ofNat (saved.idle gridEdge)
  held : ∀ gridEdge, total now.charges gridEdge ≤ (now.usage gridEdge).toNat

section Run

variable {saved now : FastRouteCore} {ops : List RouteOp}

theorem copyRS_booked (hexact : ∀ gridEdge, (saved.usage gridEdge).toNat = saved.demand gridEdge)
    (hrouted : ∀ netID ∈ saved.netIds, (saved.sttrees netID).Routed) : saved.copyRS.Booked where
  charged gridEdge := by
    show saved.usage gridEdge = UInt16.ofNat (saved.demand gridEdge)
    rw [← hexact, UInt16.ofNat_toNat]
  routed := hrouted

/-- The counters hold what the routes cost as long as that fits into sixteen bits. -/
theorem Booked.held {core : FastRouteCore} (hbooked : core.Booked) {gridEdge : GridEdge}
    (hfits : core.demand gridEdge < 65536) :
    total core.charges gridEdge ≤ (core.usage gridEdge).toNat := by
  rw [hbooked.charged, UInt16.toNat_ofNat_of_lt' hfits, demand_split]
  exact Nat.le_add_right _ _

/-- The state `copyBR` leaves. -/
theorem copyBR_eq (hframe : saved.copyRS.Frame now) :
    now.copyBR.netIds = saved.netIds ∧ now.copyBR.edgeCost = saved.edgeCost ∧
      (∀ netID ∈ saved.netIds, now.copyBR.sttrees netID =
        (now.sttrees netID).restored (saved.sttrees netID).copied) ∧
      ∀ gridEdge, now.copyBR.usage gridEdge =
        now.usage gridEdge - UInt16.ofNat (total now.charges gridEdge) +
          UInt16.ofNat (total now.copyBR.charges gridEdge) := by
  unfold copyBR
  rw [hframe.sttreesBk]
  refine ⟨hframe.netIds, hframe.edgeCost, fun netID hmem => ?_, fun gridEdge => ?_⟩
  · show (if netID ∈ now.netIds then (now.sttrees netID).restored
      (if netID ∈ saved.netIds then (saved.sttrees netID).copied else default)
      else now.sttrees netID) = _
    rw [if_pos hmem, if_pos (hframe.netIds ▸ hmem)]
  · exact (post_addTo _ _ _).trans (congrArg (· + _) (post_takeFrom _ _ _))

/-- The walked routes cost what they cost when they were saved. -/
theorem copyBR_charges (hframe : saved.copyRS.Frame now)
    (hrouted : ∀ netID ∈ saved.netIds, (saved.sttrees netID).Routed) :
    now.copyBR.charges = saved.charges := by
  obtain ⟨hnets, hcost, htrees, -⟩ := copyBR_eq hframe
  unfold charges
  rw [hnets, hcost]
  apply List.flatMap_congr
  intro netID hmem
  rw [htrees netID hmem, StTree.restored_routed (hrouted netID hmem)]

/-- `copyBR` brings the routing back that `copyRS` saved exactly when enough of it was left. -/
theorem copyBR_restores_iff
    (hexact : ∀ gridEdge, (saved.usage gridEdge).toNat = saved.demand gridEdge)
    (hrouted : ∀ netID ∈ saved.netIds, (saved.sttrees netID).Routed)
    (hrun : Run.run perform saved.copyRS ops = some now) : saved.Restores now ↔ saved.Kept now := by
  obtain ⟨hframe, hbooked⟩ := run_keeps (copyRS_booked hexact hrouted) hrun
  obtain ⟨hnets, hcost, htrees, husage⟩ := copyBR_eq hframe
  have hcharges := copyBR_charges hframe hrouted
  have hsame : (∀ netID ∈ saved.netIds, (now.copyBR.sttrees netID).Same (saved.sttrees netID)) ↔
      (∀ netID ∈ saved.netIds, (now.sttrees netID).KeepsCounts (saved.sttrees netID)) ∧
        ∀ netID ∈ saved.netIds, (now.sttrees netID).KeepsDegraded (saved.sttrees netID) := by
    rw [← forall₂_and]
    refine forall₂_congr fun netID hmem => ?_
    rw [htrees netID hmem]
    exact StTree.restored_same (hrouted netID hmem) _
  -- the walked routes are exchanged, the others stay on the counters
  have hleft : ∀ gridEdge, now.copyBR.usage gridEdge =
      UInt16.ofNat (now.idle gridEdge) + UInt16.ofNat (total saved.charges gridEdge) := by
    intro gridEdge
    have hbooks := hbooked.charged gridEdge
    rw [demand_split, UInt16.ofNat_add] at hbooks
    rw [husage, hcharges, hbooks]
    grind
  have hdemand : (∀ netID ∈ saved.netIds,
      (now.copyBR.sttrees netID).Same (saved.sttrees netID)) →
        ∀ gridEdge, now.copyBR.demand gridEdge = saved.demand gridEdge := by
    intro hall gridEdge
    unfold demand netCharges
    rw [hnets, hcost]
    refine congrArg (total · gridEdge) (List.flatMap_congr fun netID hmem => ?_)
    rw [(hall netID hmem).covered_eq]
  constructor
  · rintro ⟨hall, hexactly, hcovered⟩
    obtain ⟨hcounts, hdegraded⟩ := hsame.mp hall
    refine ⟨hcounts, hdegraded, fun gridEdge => ?_, (covered_iff _ _).mp hcovered⟩
    have hback := congrArg UInt16.ofNat (hexactly gridEdge)
    rw [UInt16.ofNat_toNat, hleft, hdemand hall, demand_split, UInt16.ofNat_add] at hback
    grind
  · rintro ⟨hcounts, hdegraded, hidle, hheld⟩
    have hall := hsame.mpr ⟨hcounts, hdegraded⟩
    refine ⟨hall, fun gridEdge => ?_, (covered_iff _ _).mpr hheld⟩
    have hback : now.copyBR.usage gridEdge = saved.usage gridEdge := by
      rw [hleft, hidle, ← UInt16.ofNat_toNat (x := saved.usage gridEdge), hexact, demand_split,
        UInt16.ofNat_add, UInt16.add_comm]
    rw [hback, hexact, hdemand hall]

end Run

/-! ### Two nets -/

/-- A net of one edge of cost 1, from the first node to the right. -/
def onePair : StTree where
  numTerminals := 2
  nodes :=
    [{ x := 0, y := 0, nbrCount := 1, nbr := ![1, 0, 0] },
      { x := 1, y := 0, nbrCount := 1, nbr := ![0, 0, 0] }]
  edges :=
    [{ len := 1, n1 := 0, n2 := 1,
       route := { type := .mazeRoute, gridsX := [0, 1], gridsY := [0, 0], routelen := 1 } }]

/-- A net of three pins in a row. -/
def threeInRow : StTree where
  numTerminals := 3
  nodes :=
    [{ x := 0, y := 0, nbrCount := 1, nbr := ![1, 0, 0], edge := ![0, 0, 0] },
      { x := 1, y := 0, nbrCount := 2, nbr := ![0, 2, 0], edge := ![0, 1, 0], stackAlias := 1 },
      { x := 2, y := 0, nbrCount := 1, nbr := ![1, 0, 0], edge := ![1, 0, 0], stackAlias := 2 }]
  edges :=
    [{ len := 1, n1 := 0, n2 := 1,
       route := { type := .mazeRoute, gridsX := [0, 1], gridsY := [0, 0], routelen := 1 } },
      { len := 1, n1 := 1, n2 := 2,
        route := { type := .mazeRoute, gridsX := [1, 2], gridsY := [0, 0], routelen := 1 } }]

/-- A single net whose routes are booked. -/
def single (tree : StTree) : FastRouteCore where
  netIds := [0]
  netIds_nodup := FastRouteCore.nodup_oneNet
  edgeCost := fun _ => 1
  sttrees := fun _ => tree
  usage := fun gridEdge => UInt16.ofNat (total (tree.covered.map fun covered => (covered, 1)) gridEdge)

theorem single_exact (tree : StTree) (hfew : tree.covered.length < 65536) (gridEdge : GridEdge) :
    ((single tree).usage gridEdge).toNat = (single tree).demand gridEdge := by
  have hdemand : (single tree).demand gridEdge =
      total (tree.covered.map fun covered => (covered, 1)) gridEdge := by
    unfold demand
    show total (([0] : List Nat).flatMap (single tree).netCharges) gridEdge = _
    rw [List.flatMap_singleton]
    rfl
  have hle : total (tree.covered.map fun covered => (covered, 1)) gridEdge ≤ tree.covered.length := by
    refine (total_le _ gridEdge).trans (le_of_eq ?_)
    rw [List.map_map]
    show (tree.covered.map fun _ => 1).sum = tree.covered.length
    simp
  rw [hdemand]
  exact UInt16.toNat_ofNat_of_lt' (lt_of_le_of_lt hle hfew)

/-- The pair is rerouted around a corner, and comes back. -/
theorem rerouted_pair_restored :
    (single onePair).Restores
      ((single onePair).copyRS.reroute 0 0 [0, 0, 1, 1] [0, 1, 1, 0]) := by
  have hrun : Run.run perform (single onePair).copyRS [.reroute 0 0 [0, 0, 1, 1] [0, 1, 1, 0]] =
      some ((single onePair).copyRS.reroute 0 0 [0, 0, 1, 1] [0, 1, 1, 0]) := rfl
  have hexact := single_exact onePair (by decide)
  have hrouted : ∀ netID ∈ (single onePair).netIds, ((single onePair).sttrees netID).Routed := by
    intro netID _
    show ∀ edge ∈ onePair.edges, 0 < edge.len → edge.route.Moves
    decide
  have hbooked := (run_keeps (copyRS_booked hexact hrouted) hrun).2
  refine (copyBR_restores_iff hexact hrouted hrun).mpr ⟨?_, ?_, fun gridEdge => rfl, ?_⟩
  · intro netID hmem
    obtain rfl := List.mem_singleton.mp hmem
    show ∀ i (hi : i < 2), _
    decide
  · intro netID hmem
    obtain rfl := List.mem_singleton.mp hmem
    show ∀ i (hi : i < 1), _
    decide
  · intro gridEdge
    exact hbooked.held (lt_of_le_of_lt (total_le _ gridEdge) (by decide))

/-- The middle pin of three is split; after the restore it is left with one neighbour. -/
theorem split_pin_loses_neighbour :
    (∀ gridEdge, ((single threeInRow).usage gridEdge).toNat =
      (single threeInRow).demand gridEdge) ∧
    ∃ now, Run.run perform (single threeInRow).copyRS [.splitEdge 0 2 1 1] = some now ∧
      ¬(single threeInRow).Restores now := by
  refine ⟨single_exact threeInRow (by decide), _, rfl, ?_⟩
  rintro ⟨hall, -, -⟩
  have hpin := (List.forall₂_iff_get.mp (hall 0 List.mem_cons_self).nodes).2 1 (by decide) (by decide)
  exact absurd hpin.nbrCount (by decide)

end FastRouteCore

end OpenRoad.Grt
