import OpenRoad.GrtPath
import OpenRoad.GrtReroute

/-!
Removal of loops. A scan over all pairs of points of a route looks for a place that is passed twice;
the steps between are released, the points behind are moved forward in place, and the scan starts
again. It ends with a simple route.
-/

namespace OpenRoad.Grt

open Tally

/-! ### The scan -/

/-- `gridsX[j + cnt] = gridsX[k]` for `count` numbers `k` from `i + 1` on. -/
def compact (grids : List Int) (j i count : Nat) : List Int :=
  (List.range count).foldl (fun grids c =>
    grids.set (j + 1 + c) (grids.getD (i + 1 + c) 0)) grids

/-- The points behind `i` follow `j`; the arrays keep their sizes. -/
def Route.cut (route : Route) (j i : Nat) : Route :=
  { route with
    gridsX := compact route.gridsX j i (route.routelen - i)
    gridsY := compact route.gridsY j i (route.routelen - i)
    routelen := route.routelen - (i - j) }

/-- The grid edges of the steps from `j` to `i`. -/
def Route.between (route : Route) (j i : Nat) : List GridEdge :=
  ((List.range' j (i - j)).filter fun k => !decide (route.Stays k)).map route.edgeAt

/-- The route and what has been released, with the two counters. -/
structure LoopScan where
  route : Route
  released : List GridEdge
  i : Nat
  j : Nat

/-- The two loops. Where a loop is cut out both counters are set to zero; the inner loop then goes on
with `j = 1`, and ends. -/
def LoopScan.scan (s : LoopScan) : LoopScan :=
  if _ : s.route.routelen < s.i then s
  else if _ : s.j < s.i then
    if s.route.point s.i = s.route.point s.j then
      LoopScan.scan
        { route := s.route.cut s.j s.i, released := s.released ++ s.route.between s.j s.i,
          i := 0, j := 1 }
    else LoopScan.scan { s with j := s.j + 1 }
  else LoopScan.scan { s with i := s.i + 1, j := 0 }
termination_by (s.route.routelen, s.route.routelen + 1 - s.i, s.i - s.j)
decreasing_by
  · apply Prod.Lex.left
    simp only [Route.cut]
    omega
  · apply Prod.Lex.right
    apply Prod.Lex.right
    omega
  · apply Prod.Lex.right
    apply Prod.Lex.left
    omega

def Route.removeLoops (route : Route) : LoopScan :=
  LoopScan.scan { route := route, released := [], i := 1, j := 0 }

namespace FastRouteCore

/-- The loops of an edge; a degraded edge is passed over. -/
def removeLoopsEdge (core : FastRouteCore) (id : EdgeId) : FastRouteCore :=
  if (core.edgeOf id).len = 0 then core
  else
    let scanned := (core.edgeOf id).route.removeLoops
    { core.setRoute id scanned.route with
      usage := post takeFrom core.usage
        (scanned.released.map fun gridEdge => (gridEdge, core.edgeCost id.1)) }

def removeLoops (core : FastRouteCore) : FastRouteCore :=
  core.edgeIds.foldl removeLoopsEdge core

end FastRouteCore

/-! ### Cutting out a loop -/

theorem compact_succ (grids : List Int) (j i count : Nat) :
    compact grids j i (count + 1) =
      (compact grids j i count).set (j + 1 + count)
        ((compact grids j i count).getD (i + 1 + count) 0) := by
  rw [compact, List.range_succ, List.foldl_append]
  rfl

@[simp] theorem length_compact (grids : List Int) (j i count : Nat) :
    (compact grids j i count).length = grids.length := by
  induction count with
  | zero => rfl
  | succ count ih => rw [compact_succ, List.length_set, ih]

/-- Every point is read before it is overwritten. -/
theorem getD_compact {grids : List Int} {j i count : Nat} (hji : j < i)
    (hlen : i + count < grids.length) (n : Nat) :
    (compact grids j i count).getD n 0 =
      if j < n ∧ n ≤ j + count then grids.getD (n + (i - j)) 0 else grids.getD n 0 := by
  induction count generalizing n with
  | zero =>
      rw [if_neg (by omega)]
      rfl
  | succ count ih =>
      have hbefore := ih (by omega)
      rw [compact_succ, hbefore (i + 1 + count), if_neg (by omega), List.getD_eq_getElem?_getD,
        List.getElem?_set, length_compact]
      by_cases hn : j + 1 + count = n
      · have hread : n + (i - j) = i + 1 + count := by omega
        rw [if_pos hn, if_pos (by omega), if_pos (by omega), Option.getD_some, hread]
      · rw [if_neg hn, ← List.getD_eq_getElem?_getD, hbefore n]
        have hiff : j < n ∧ n ≤ j + count ↔ j < n ∧ n ≤ j + (count + 1) := by omega
        simp only [hiff]

namespace Route

variable {route : Route} {p q : GridPoint} {i j : Nat}

theorem routelen_cut (route : Route) (j i : Nat) :
    (route.cut j i).routelen = route.routelen - (i - j) := rfl

theorem point_cut (h : route.IsPath p q) (hji : j < i) (hi : i ≤ route.routelen) {n : Nat}
    (hn : n ≤ route.routelen - (i - j)) :
    (route.cut j i).point n = route.point (if j < n then n + (i - j) else n) := by
  have hX := h.lengthX
  have hY := h.lengthY
  unfold point cut
  dsimp only
  rw [getD_compact hji (by omega), getD_compact hji (by omega)]
  have hiff : j < n ∧ n ≤ j + (route.routelen - i) ↔ j < n := by omega
  simp only [hiff]
  split_ifs <;> rfl

/-- The step behind `j` is the one behind `i`. -/
theorem step_cut (h : route.IsPath p q) (hji : j < i) (hi : i ≤ route.routelen)
    (heq : route.point i = route.point j) {n : Nat} (hn : n < route.routelen - (i - j)) :
    ∃ k, k < route.routelen ∧ k = (if n < j then n else n + (i - j)) ∧
      (route.cut j i).point n = route.point k ∧
      (route.cut j i).point (n + 1) = route.point (k + 1) := by
  refine ⟨_, ?_, rfl, ?_, ?_⟩
  · split_ifs <;> omega
  · rw [point_cut h hji hi hn.le]
    rcases lt_trichotomy n j with hlt | rfl | hgt
    · rw [if_neg (by omega), if_pos hlt]
    · have hend : n + (i - n) = i := by omega
      rw [if_neg (lt_irrefl n), if_neg (lt_irrefl n), hend, heq]
    · rw [if_pos hgt, if_neg (by omega)]
  · rw [point_cut h hji hi hn]
    by_cases hlt : n < j
    · rw [if_neg (by omega), if_pos hlt]
    · rw [if_pos (by omega), if_neg hlt, Nat.add_right_comm]

theorem isPath_cut (h : route.IsPath p q) (hji : j < i) (hi : i ≤ route.routelen)
    (heq : route.point i = route.point j) : (route.cut j i).IsPath p q := by
  have hX := h.lengthX
  have hY := h.lengthY
  refine ⟨?_, ?_, ?_, ?_, fun n hn => ?_⟩
  · simp only [cut, length_compact]
    omega
  · simp only [cut, length_compact]
    omega
  · rw [point_cut h hji hi (Nat.zero_le _), if_neg (Nat.not_lt_zero j)]
    exact h.first
  · rw [routelen_cut, point_cut h hji hi le_rfl, ← h.last]
    split_ifs with hlt
    · congr 1
      omega
    · have hend : i = route.routelen := by omega
      have hstart : route.routelen - (i - j) = j := by omega
      rw [hstart, ← hend, heq]
  · obtain ⟨k, hk, -, hfirst, hsecond⟩ := step_cut h hji hi heq hn
    rw [hfirst, hsecond]
    exact h.beside k hk

/-- What the route covered is what it covers now and what has been cut out. -/
theorem covered_cut (h : route.IsPath p q) (hji : j < i) (hi : i ≤ route.routelen)
    (heq : route.point i = route.point j) :
    route.covered.Perm ((route.cut j i).covered ++ route.between j i) := by
  have hcut := isPath_cut h hji hi heq
  have hedge : ∀ n < route.routelen - (i - j),
      (route.cut j i).edgeAt n = route.edgeAt (if n < j then n else n + (i - j)) := by
    intro n hn
    obtain ⟨k, -, rfl, hfirst, hsecond⟩ := step_cut h hji hi heq hn
    rw [edgeAt_eq, edgeAt_eq, hfirst, hsecond]
  have hbefore : (List.range' 0 j).map (route.cut j i).edgeAt =
      (List.range' 0 j).map route.edgeAt := by
    apply List.map_congr_left
    intro n hn
    have hlt : n < j := by simpa using hn
    rw [hedge n (by omega), if_pos hlt]
  have hbehind : (List.range' j (route.routelen - i)).map (route.cut j i).edgeAt =
      (List.range' i (route.routelen - i)).map route.edgeAt := by
    have hshift : List.range' i (route.routelen - i) =
        (List.range' j (route.routelen - i)).map fun n => i - j + n := by
      rw [List.map_add_range', Nat.sub_add_cancel hji.le]
    rw [hshift, List.map_map]
    apply List.map_congr_left
    intro n hn
    obtain ⟨hge, hlt⟩ := List.mem_range'_1.mp hn
    rw [hedge n (by omega), if_neg (not_lt.mpr hge), Nat.add_comm]
    rfl
  have hbetween : route.between j i = (List.range' j (i - j)).map route.edgeAt := by
    unfold between
    rw [List.filter_eq_self.mpr]
    intro n hn
    obtain ⟨-, hlt⟩ := List.mem_range'_1.mp hn
    simpa using not_stays_of_beside (h.beside n (by omega))
  have hold : List.range route.routelen =
      List.range' 0 j ++ (List.range' j (i - j) ++ List.range' i (route.routelen - i)) := by
    have hall : route.routelen = j + (i - j + (route.routelen - i)) := by omega
    have hinner := @List.range'_append_1 j (i - j) (route.routelen - i)
    rw [Nat.add_sub_cancel' hji.le] at hinner
    have houter := @List.range'_append_1 0 j (i - j + (route.routelen - i))
    rw [Nat.zero_add, ← hall] at houter
    rw [List.range_eq_range', ← houter, ← hinner]
  have hnew : List.range (route.cut j i).routelen =
      List.range' 0 j ++ List.range' j (route.routelen - i) := by
    have hall : (route.cut j i).routelen = j + (route.routelen - i) := by
      rw [routelen_cut]
      omega
    have houter := @List.range'_append_1 0 j (route.routelen - i)
    rw [Nat.zero_add, ← hall] at houter
    rw [List.range_eq_range', houter]
  rw [covered_of_beside h.beside, covered_of_beside hcut.beside, hold, hnew, hbetween,
    List.map_append, List.map_append, List.map_append, hbefore, hbehind, List.append_assoc]
  exact List.perm_append_comm.append_left _

/-! ### The scan ends with a simple route -/

/-- No place is passed twice. -/
def Simple (route : Route) : Prop :=
  ∀ a b, a < b → b ≤ route.routelen → route.point a ≠ route.point b

end Route

namespace LoopScan

/-- What the scan keeps: a path between the same places, and the steps that have been released. -/
structure Scans (s : LoopScan) (p q : GridPoint) (covered : List GridEdge) : Prop where
  isPath : s.route.IsPath p q
  covered : covered.Perm (s.route.covered ++ s.released)

/-- The points before the outer counter are different, and those before the inner counter differ from
the point at the outer one. -/
structure Seen (s : LoopScan) : Prop where
  before : ∀ a b, a < b → b < s.i → s.route.point a ≠ s.route.point b
  current : ∀ a, a < s.j → a < s.i → s.route.point a ≠ s.route.point s.i

theorem scan_spec (s : LoopScan) {p q : GridPoint} {covered : List GridEdge}
    (h : s.Scans p q covered) (hseen : s.Seen) :
    s.scan.Scans p q covered ∧ s.scan.route.Simple := by
  induction s using LoopScan.scan.induct with
  | case1 s hend =>
      rw [LoopScan.scan, dif_pos hend]
      exact ⟨h, fun a b hab hb => hseen.before a b hab (by omega)⟩
  | case2 s hi hj heq ih =>
      rw [LoopScan.scan, dif_neg hi, dif_pos hj, if_pos heq]
      apply ih
      · refine ⟨Route.isPath_cut h.isPath hj (not_lt.mp hi) heq, ?_⟩
        have hcut := Route.covered_cut h.isPath hj (not_lt.mp hi) heq
        refine (h.covered.trans (hcut.append_right _)).trans ?_
        rw [List.append_assoc]
        exact List.perm_append_comm.append_left _
      · exact ⟨fun a b _ hb => absurd hb (Nat.not_lt_zero b), fun a _ ha => absurd ha (Nat.not_lt_zero a)⟩
  | case3 s hi hj hne ih =>
      rw [LoopScan.scan, dif_neg hi, dif_pos hj, if_neg hne]
      refine ih ⟨h.isPath, h.covered⟩ ⟨hseen.before, fun a ha hai => ?_⟩
      rcases Nat.lt_succ_iff_lt_or_eq.mp ha with hlt | rfl
      · exact hseen.current a hlt hai
      · exact Ne.symm hne
  | case4 s hi hj ih =>
      rw [LoopScan.scan, dif_neg hi, dif_neg hj]
      refine ih ⟨h.isPath, h.covered⟩ ⟨fun a b hab hb => ?_, fun a ha => absurd ha (Nat.not_lt_zero a)⟩
      rcases Nat.lt_succ_iff_lt_or_eq.mp hb with hlt | rfl
      · exact hseen.before a b hab hlt
      · exact hseen.current a (by omega) hab

end LoopScan

/-- The loops of a route are cut out: what is left is simple, and what has been released is the
rest. -/
theorem Route.removeLoops_isPath {route : Route} {p q : GridPoint} (h : route.IsPath p q) :
    route.removeLoops.route.IsPath p q ∧ route.removeLoops.route.Simple ∧
      route.covered.Perm (route.removeLoops.route.covered ++ route.removeLoops.released) := by
  have hscan := @LoopScan.scan_spec { route := route, released := [], i := 1, j := 0 } p q route.covered
    ⟨h, by simp⟩
    ⟨fun a b hab hb => absurd (Nat.lt_of_lt_of_le hab (Nat.le_of_lt_succ hb)) (Nat.not_lt_zero a),
      fun a ha => absurd ha (Nat.not_lt_zero a)⟩
  exact ⟨hscan.1.isPath, hscan.2, hscan.1.covered⟩

/-! ### All nets -/

/-- The edge without its loops. -/
def TreeEdge.unlooped (edge : TreeEdge) : TreeEdge :=
  if edge.len = 0 then edge else { edge with route := edge.route.removeLoops.route }

/-- What is released with the loops of the edge. -/
def TreeEdge.released (edge : TreeEdge) : List GridEdge :=
  if edge.len = 0 then [] else edge.route.removeLoops.released

namespace FastRouteCore

variable {core : FastRouteCore}

theorem removeLoopsEdge_keeps (core : FastRouteCore) (id : EdgeId) :
    core.Keeps (core.removeLoopsEdge id) := by
  unfold removeLoopsEdge
  split_ifs with hlen
  · exact Keeps.refl core
  · have h := keeps_setRoute core id (core.edgeOf id).route.removeLoops.route
    exact ⟨h.netIds, h.edgeCost, h.xGrid, h.yGrid, h.skeleton⟩

theorem edgeOf_removeLoopsEdge_self {id : EdgeId} (hid : core.Exists id) :
    (core.removeLoopsEdge id).edgeOf id = (core.edgeOf id).unlooped := by
  unfold removeLoopsEdge TreeEdge.unlooped
  split_ifs with hlen
  · rfl
  · exact edgeOf_setRoute_self hid _

theorem edgeOf_removeLoopsEdge_of_ne {id other : EdgeId} (hne : other ≠ id) :
    (core.removeLoopsEdge id).edgeOf other = core.edgeOf other := by
  unfold removeLoopsEdge
  split_ifs with hlen
  · rfl
  · exact edgeOf_setRoute_of_ne hne _

theorem usage_removeLoopsEdge (id : EdgeId) : (core.removeLoopsEdge id).usage =
    post takeFrom core.usage
      ((core.edgeOf id).released.map fun gridEdge => (gridEdge, core.edgeCost id.1)) := by
  unfold removeLoopsEdge TreeEdge.released
  split_ifs with hlen
  · rfl
  · rfl

/-- Edge by edge, every loop is cut out once. -/
theorem foldl_removeLoopsEdge (ids : List EdgeId) (hnodup : ids.Nodup)
    (hids : ∀ id ∈ ids, core.Exists id) :
    core.Keeps (ids.foldl removeLoopsEdge core) ∧
      (∀ id, (ids.foldl removeLoopsEdge core).edgeOf id =
        if id ∈ ids then (core.edgeOf id).unlooped else core.edgeOf id) ∧
      (ids.foldl removeLoopsEdge core).usage = post takeFrom core.usage
        (ids.flatMap fun id =>
          (core.edgeOf id).released.map fun gridEdge => (gridEdge, core.edgeCost id.1)) := by
  induction ids generalizing core with
  | nil => exact ⟨Keeps.refl core, fun id => rfl, rfl⟩
  | cons first ids ih =>
      obtain ⟨hnew, hnodup⟩ := List.nodup_cons.mp hnodup
      obtain ⟨hfirst, hids⟩ := List.forall_mem_cons.mp hids
      have hkeeps := core.removeLoopsEdge_keeps first
      have hother : ∀ id ∈ ids, (core.removeLoopsEdge first).edgeOf id = core.edgeOf id := by
        intro id hid
        exact edgeOf_removeLoopsEdge_of_ne fun heq => hnew (heq ▸ hid)
      obtain ⟨hrest, hedges, husage⟩ := ih hnodup fun id hid => by
        unfold Exists
        rw [hkeeps.edges_length]
        exact hids id hid
      refine ⟨hkeeps.trans hrest, fun id => ?_, ?_⟩
      · rw [List.foldl_cons, hedges]
        rcases eq_or_ne id first with rfl | hne
        · rw [if_neg hnew, if_pos List.mem_cons_self, edgeOf_removeLoopsEdge_self hfirst]
        · have hiff : id ∈ first :: ids ↔ id ∈ ids := by simp [hne]
          simp only [hiff, edgeOf_removeLoopsEdge_of_ne hne]
      · rw [List.foldl_cons, husage, usage_removeLoopsEdge, List.flatMap_cons, hkeeps.edgeCost]
        have hcharges : (ids.flatMap fun id => ((core.removeLoopsEdge first).edgeOf id).released.map
            fun gridEdge => (gridEdge, core.edgeCost id.1)) =
              ids.flatMap fun id => (core.edgeOf id).released.map
                fun gridEdge => (gridEdge, core.edgeCost id.1) := by
          apply List.flatMap_congr
          intro id hid
          rw [hother id hid]
        rw [hcharges]
        exact (List.foldl_append ..).symm

theorem total_map_const (gridEdges : List GridEdge) (cost : Nat) (gridEdge : GridEdge) :
    total (gridEdges.map fun e => (e, cost)) gridEdge = gridEdges.count gridEdge * cost := by
  induction gridEdges with
  | nil => simp
  | cons e gridEdges ih =>
      rw [List.map_cons, total_cons, ih, List.count_cons]
      by_cases he : e = gridEdge
      · simp [he, Nat.add_mul, Nat.add_comm]
      · simp [he]

/-- Every route with a length is left a simple path between the places it led between, its steps
among the old ones; the usage of a grid edge falls by the cost of what has been removed. A degraded
edge is left alone. -/
theorem removeLoops_spec (core : FastRouteCore)
    (hroutes : ∀ id ∈ core.edgeIds, ∃ p q, (core.edgeOf id).route.IsPath p q) :
    ∃ removed : EdgeId → List GridEdge,
      (∀ id ∈ core.edgeIds, ∃ route,
        core.removeLoops.edgeOf id = { core.edgeOf id with route := route } ∧
        (∀ p q, (core.edgeOf id).route.IsPath p q → route.IsPath p q) ∧
        (core.edgeOf id).route.covered.Perm (route.covered ++ removed id) ∧
        (0 < (core.edgeOf id).len → route.Simple) ∧
        ((core.edgeOf id).len = 0 → route = (core.edgeOf id).route)) ∧
      ∀ gridEdge, core.removeLoops.usage gridEdge = core.usage gridEdge -
        UInt16.ofNat (core.edgeIds.map fun id =>
          (removed id).count gridEdge * core.edgeCost id.1).sum := by
  obtain ⟨-, hedges, husage⟩ := foldl_removeLoopsEdge core.edgeIds core.edgeIds_nodup
    fun id hid => (mem_edgeIds.mp hid).2
  refine ⟨fun id => (core.edgeOf id).released, fun id hid => ?_, fun gridEdge => ?_⟩
  · have hedge := hedges id
    rw [if_pos hid] at hedge
    obtain ⟨p, q, hpath⟩ := hroutes id hid
    by_cases hlen : (core.edgeOf id).len = 0
    · refine ⟨(core.edgeOf id).route, ?_, fun _ _ h => h, ?_, fun hpos => ?_, fun _ => rfl⟩
      · rw [removeLoops, hedge, TreeEdge.unlooped, if_pos hlen]
      · have hnone : (core.edgeOf id).released = [] := if_pos hlen
        dsimp only
        rw [hnone, List.append_nil]
      · omega
    · refine ⟨(core.edgeOf id).route.removeLoops.route, ?_, fun p q h =>
        (Route.removeLoops_isPath h).1, ?_, fun _ => (Route.removeLoops_isPath hpath).2.1, fun h =>
        absurd h hlen⟩
      · rw [removeLoops, hedge, TreeEdge.unlooped, if_neg hlen]
      · have hreleased : (core.edgeOf id).released = (core.edgeOf id).route.removeLoops.released :=
          if_neg hlen
        dsimp only
        rw [hreleased]
        exact (Route.removeLoops_isPath hpath).2.2
  · rw [removeLoops, husage, post_takeFrom, total_flatMap]
    simp only [total_map_const]

/-- A net of two nodes at one place; the edge between them goes to the right and comes back. -/
def degradedLoop : FastRouteCore where
  netIds := [0]
  netIds_nodup := FastRouteCore.nodup_oneNet
  edgeCost := fun _ => 1
  sttrees := fun _ =>
    { numTerminals := 2
      nodes := [{ x := 0, y := 0 }, { x := 0, y := 0 }]
      edges :=
        [{ len := 0, n1 := 0, n2 := 1,
           route :=
             { type := .mazeRoute, gridsX := [0, 1, 0], gridsY := [0, 0, 0], routelen := 2 } }] }

/-- The same with nodes apart: the route passes its first point twice. -/
def longLoop : FastRouteCore where
  netIds := [0]
  netIds_nodup := FastRouteCore.nodup_oneNet
  edgeCost := fun _ => 1
  sttrees := fun _ =>
    { numTerminals := 2
      nodes := [{ x := 0, y := 0 }, { x := 0, y := 1 }]
      edges :=
        [{ len := 1, n1 := 0, n2 := 1,
           route :=
             { type := .mazeRoute, gridsX := [0, 1, 0, 0], gridsY := [0, 0, 0, 1],
               routelen := 3 } }] }

theorem removeLoops_longLoop :
    ∃ removed : EdgeId → List GridEdge,
      (∀ id ∈ longLoop.edgeIds, ∃ route,
        longLoop.removeLoops.edgeOf id = { longLoop.edgeOf id with route := route } ∧
        (∀ p q, (longLoop.edgeOf id).route.IsPath p q → route.IsPath p q) ∧
        (longLoop.edgeOf id).route.covered.Perm (route.covered ++ removed id) ∧
        (0 < (longLoop.edgeOf id).len → route.Simple) ∧
        ((longLoop.edgeOf id).len = 0 → route = (longLoop.edgeOf id).route)) ∧
      ∀ gridEdge, longLoop.removeLoops.usage gridEdge = longLoop.usage gridEdge -
        UInt16.ofNat (longLoop.edgeIds.map fun id =>
          (removed id).count gridEdge * longLoop.edgeCost id.1).sum := by
  apply removeLoops_spec longLoop
  intro id hid
  obtain rfl : id = (0, 0) := List.mem_singleton.mp hid
  exact ⟨(0, 0), (0, 1), by decide, by decide, by decide, by decide, by decide⟩

/-- A degraded edge keeps its loop. -/
theorem not_removeLoops_simple :
    ¬∀ core : FastRouteCore,
      (∀ id ∈ core.edgeIds, ∃ p q, (core.edgeOf id).route.IsPath p q) →
        ∀ id ∈ core.edgeIds, (core.removeLoops.edgeOf id).route.Simple := by
  intro hall
  have hsimple := hall degradedLoop (fun id hid => by
    obtain rfl : id = (0, 0) := List.mem_singleton.mp hid
    exact ⟨(0, 0), (0, 0), by decide, by decide, by decide, by decide, by decide⟩) (0, 0)
    (List.mem_singleton.mpr rfl)
  exact hsimple 0 2 (by decide) (by decide) (by decide)

end FastRouteCore

end OpenRoad.Grt
