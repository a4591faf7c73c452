import OpenRoad.GrtMazeroute
import Mathlib.Data.List.Sort

/-!
Repairing an edge that overlaps others of its tree: the route is replaced by the L shape that avoids
the blocked positions. Where the first leg is the other one than that of the start point, the way to
it is not written.
-/

namespace OpenRoad.Grt

open Tally

/-! ### The L shape -/

/-- The row of an L shape, and the column at its end. -/
def Ends.rowFirst (ends : Ends) (y firstX : Int) : List GridPoint :=
  let row := (ends.x1, ends.y1) :: (span firstX (ends.x2 + 1)).map fun x => (x, y)
  let back := (row.getLastD (ends.x1, ends.y1)).1
  if y < ends.y2 then row ++ (span y ends.y2).map fun i => (back, i + 1)
  else row ++ (spanDown y ends.y2).map fun i => (back, i - 1)

/-- The column of an L shape, and the row at its end. -/
def Ends.columnFirst (ends : Ends) (x firstY : Int) : List GridPoint :=
  let column := (ends.x1, ends.y1) ::
    if ends.y1 < ends.y2 then (span firstY (ends.y2 + 1)).map fun y => (x, y)
    else (spanDown firstY (ends.y2 - 1)).map fun y => (x, y)
  let back := (column.getLastD (ends.x1, ends.y1)).2
  column ++ (span x ends.x2).map fun i => (i + 1, back)

/-- The blocked positions are horizontally aligned. -/
def Aligned (blocked : List GridPoint) : Prop :=
  (blocked.headD (0, 0)).2 = (blocked.getLastD (0, 0)).2

instance (blocked : List GridPoint) : Decidable (Aligned blocked) :=
  inferInstanceAs (Decidable (_ = _))

/-- The L shape around the blocked positions, which are sorted and not empty. -/
def Ends.routeLShape (ends : Ends) (blocked : List GridPoint) : List GridPoint :=
  let front := blocked.headD (0, 0)
  if Aligned blocked then
    if ends.y1 ≠ front.2 then ends.rowFirst ends.y1 (ends.x1 + 1)
    else ends.rowFirst ends.y2 (if ends.y1 = ends.y2 then ends.x1 + 1 else ends.x1)
  else
    let nextY := if ends.y1 < ends.y2 then ends.y1 + 1 else ends.y1 - 1
    if ends.x1 ≠ front.1 then ends.columnFirst ends.x1 nextY
    else ends.columnFirst ends.x2 (if ends.x1 = ends.x2 then nextY else ends.y1)

/-- `std::stable_sort` by the column -/
def sortByX (blocked : List GridPoint) : List GridPoint :=
  blocked.insertionSort fun a b => a.1 ≤ b.1

/-- A route through points. -/
def Route.through (route : Route) (points : List GridPoint) : Route :=
  { route with
    routelen := points.length - 1
    gridsX := points.map Prod.fst
    gridsY := points.map Prod.snd }

namespace FastRouteCore

/-- What a route is charged. -/
def routeCharges (core : FastRouteCore) (netID : Nat) (route : Route) : List (GridEdge × Nat) :=
  route.covered.map fun gridEdge => (gridEdge, core.edgeCost netID)

def fixOverlappingEdge (core : FastRouteCore) (id : EdgeId) (blocked : List GridPoint) :
    FastRouteCore :=
  let edge := core.edgeOf id
  let ends := core.endsOf id
  if edge.len = 0 ∨ ends.x1 = ends.x2 ∨ ends.y1 = ends.y2 then core
  else
    let route := edge.route.through (ends.routeLShape (sortByX blocked))
    { core.setRoute id route with
      usage := post addTo (post takeFrom core.usage (core.routeCharges id.1 edge.route))
        (core.routeCharges id.1 route)
      usedGgrid := core.usedGgrid ∪ route.covered.toFinset }

end FastRouteCore

/-! ### The legs of the L shape -/

theorem map_span_succ (a b : Int) : (span a b).map (fun i => i + 1) = span (a + 1) (b + 1) := by
  unfold span
  rw [List.map_map]
  have hcount : (b + 1 - (a + 1)).toNat = (b - a).toNat := by omega
  rw [hcount]
  apply List.map_congr_left
  intro k _
  simp only [Function.comp_apply]
  omega

theorem map_spanDown_pred (a b : Int) :
    (spanDown a b).map (fun i => i - 1) = spanDown (a - 1) (b - 1) := by
  unfold spanDown
  rw [List.map_map]
  have hcount : (a - 1 - (b - 1)).toNat = (a - b).toNat := by omega
  rw [hcount]
  apply List.map_congr_left
  intro k _
  simp only [Function.comp_apply]
  omega

/-- What follows the last point of the row. -/
theorem cons_climb (x : Int) {a b : Int} (hle : a ≤ b) :
    (x, a) :: (span a b).map (fun i => ((x, i + 1) : GridPoint)) =
      (span a b).map (fun i => (x, i)) ++ [(x, b)] := by
  rw [← cons_map_span (fun i => ((x, i) : GridPoint)) hle, ← map_span_succ, List.map_map]
  rfl

theorem cons_descend (x : Int) {a b : Int} (hle : b ≤ a) :
    (x, a) :: (spanDown a b).map (fun i => ((x, i - 1) : GridPoint)) =
      (spanDown a b).map (fun i => (x, i)) ++ [(x, b)] := by
  rw [← cons_map_spanDown (fun i => ((x, i) : GridPoint)) hle, ← map_spanDown_pred, List.map_map]
  rfl

theorem cons_advance (y : Int) {a b : Int} (hle : a ≤ b) :
    (a, y) :: (span a b).map (fun i => ((i + 1, y) : GridPoint)) =
      (span a b).map (fun i => (i, y)) ++ [(b, y)] := by
  rw [← cons_map_span (fun i => ((i, y) : GridPoint)) hle, ← map_span_succ, List.map_map]
  rfl

theorem Ends.rowFirst_eq (ends : Ends) (y firstX : Int) (hx : firstX ≤ ends.x2) :
    ends.rowFirst y firstX = (ends.x1, ends.y1) ::
      (((span firstX ends.x2).map fun x => (x, y)) ++ vLeg ends.x2 y ends.y2) ++
        [(ends.x2, ends.y2)] := by
  have hrow : (ends.x1, ends.y1) :: (span firstX (ends.x2 + 1)).map (fun x => ((x, y) : GridPoint)) =
      (ends.x1, ends.y1) :: (span firstX ends.x2).map (fun x => (x, y)) ++ [(ends.x2, y)] := by
    rw [span_concat hx, List.map_append, List.map_singleton, List.cons_append]
  unfold Ends.rowFirst vLeg
  rw [hrow]
  dsimp only
  rw [List.getLastD_concat, List.append_assoc, List.append_assoc]
  split_ifs with hy
  · rw [List.singleton_append, cons_climb ends.x2 hy.le, List.cons_append, List.cons_append,
      List.append_assoc]
  · rw [List.singleton_append, cons_descend ends.x2 (not_lt.mp hy), List.cons_append,
      List.cons_append, List.append_assoc]

theorem Ends.columnFirst_eq (ends : Ends) {x firstY : Int} (hx : x ≤ ends.x2)
    (hy : if ends.y1 < ends.y2 then firstY ≤ ends.y2 else ends.y2 ≤ firstY) :
    ends.columnFirst x firstY = (ends.x1, ends.y1) ::
      (vLeg x firstY ends.y2 ++ (span x ends.x2).map fun x => (x, ends.y2)) ++
        [(ends.x2, ends.y2)] := by
  have hcolumn : (if ends.y1 < ends.y2 then
      (span firstY (ends.y2 + 1)).map fun y => ((x, y) : GridPoint)
        else (spanDown firstY (ends.y2 - 1)).map fun y => (x, y)) =
          vLeg x firstY ends.y2 ++ [(x, ends.y2)] := by
    split_ifs at hy ⊢ with hlt
    · rw [← Ends.column_eq, Ends.column, if_pos hy]
    · rw [vLeg, if_neg (not_lt.mpr hy), spanDown_concat hy, List.map_append, List.map_singleton]
  unfold Ends.columnFirst
  rw [hcolumn, ← List.cons_append]
  dsimp only
  rw [List.getLastD_concat, List.append_assoc, List.singleton_append, cons_advance ends.y2 hx,
    List.cons_append, List.cons_append, List.append_assoc]

/-! ### Where the L shape is a path -/

/-- A leg of the L shape is not written: the blocked positions lie in the row, or in the column, of
the start point, and the other leg starts further than one step away. -/
def Ends.SkipsLeg (ends : Ends) (blocked : List GridPoint) : Prop :=
  if Aligned blocked then
    ends.y1 = (blocked.headD (0, 0)).2 ∧ (ends.y1 - ends.y2).natAbs ≠ 1
  else ends.x1 = (blocked.headD (0, 0)).1 ∧ ends.x2 - ends.x1 ≠ 1

/-- The points after the start, and where the second one is. -/
theorem Ends.routeLShape_cases (ends : Ends) (blocked : List GridPoint) (hx : ends.x1 < ends.x2)
    (hy : ends.y1 ≠ ends.y2) :
    (∃ second walked covered, ends.routeLShape blocked =
        (ends.x1, ends.y1) :: walked ++ [(ends.x2, ends.y2)] ∧
      Walk GridStep second (ends.x2, ends.y2) walked covered ∧
      (Beside (ends.x1, ends.y1) second ↔ ¬ends.SkipsLeg blocked)) := by
  unfold Ends.routeLShape Ends.SkipsLeg
  dsimp only
  by_cases haligned : Aligned blocked
  · rw [if_pos haligned, if_pos haligned]
    by_cases hfront : ends.y1 ≠ (blocked.headD (0, 0)).2
    · rw [if_pos hfront, ends.rowFirst_eq _ _ (by omega)]
      refine ⟨(ends.x1 + 1, ends.y1), _, _, rfl, (walk_right _ _ _ (by omega)).append
        (walk_vLeg _ _ _), ?_⟩
      unfold Beside
      dsimp only
      omega
    · rw [if_neg hfront, if_neg hy, ends.rowFirst_eq _ _ hx.le]
      refine ⟨(ends.x1, ends.y2), _, _, rfl, (walk_right _ _ _ hx.le).append
        (walk_vLeg _ _ _), ?_⟩
      unfold Beside
      dsimp only
      omega
  · rw [if_neg haligned, if_neg haligned]
    by_cases hfront : ends.x1 ≠ (blocked.headD (0, 0)).1
    · have hnext : if ends.y1 < ends.y2 then
          (if ends.y1 < ends.y2 then ends.y1 + 1 else ends.y1 - 1) ≤ ends.y2
            else ends.y2 ≤ if ends.y1 < ends.y2 then ends.y1 + 1 else ends.y1 - 1 := by
        split_ifs <;> omega
      rw [if_pos hfront, ends.columnFirst_eq hx.le hnext]
      refine ⟨(ends.x1, if ends.y1 < ends.y2 then ends.y1 + 1 else ends.y1 - 1), _, _, rfl,
        (walk_vLeg _ _ _).append (walk_right _ _ _ hx.le), ?_⟩
      unfold Beside
      dsimp only
      split_ifs <;> omega
    · have hnext : if ends.y1 < ends.y2 then ends.y1 ≤ ends.y2 else ends.y2 ≤ ends.y1 := by
        split_ifs <;> omega
      rw [if_neg hfront, if_neg hx.ne, ends.columnFirst_eq le_rfl hnext]
      refine ⟨(ends.x2, ends.y1), _, _, rfl, (walk_vLeg _ _ _).append (walk_right _ _ _ le_rfl), ?_⟩
      unfold Beside
      dsimp only
      omega

/-- The new route is a path exactly when its second point is next to the start. -/
theorem Route.through_isPath_iff {route : Route} {start second last : GridPoint}
    {walked : List GridPoint} {covered : List GridEdge}
    (hwalk : Walk GridStep second last walked covered) :
    (route.through (start :: walked ++ [last])).IsPath start last ↔ Beside start second := by
  have hlen : (route.through (start :: walked ++ [last])).routelen = walked.length + 1 := by
    simp [Route.through]
  have hX : (route.through (start :: walked ++ [last])).gridsX =
      (start :: walked ++ [last]).map Prod.fst ++ [] := (List.append_nil _).symm
  have hY : (route.through (start :: walked ++ [last])).gridsY =
      (start :: walked ++ [last]).map Prod.snd ++ [] := (List.append_nil _).symm
  constructor
  · intro hpath
    have hbeside := hpath.beside 0 (by rw [hlen]; exact Nat.succ_pos _)
    have hfirst := Route.point_of_prefix hX hY (i := 0) (by simp)
    have hsecond := Route.point_of_prefix hX hY (i := 1) (by simp)
    have hstart : some start = some ((route.through (start :: walked ++ [last])).point 0) := hfirst
    have hnext : some second = some ((route.through (start :: walked ++ [last])).point 1) :=
      hwalk.getElem?_zero.symm.trans hsecond
    rwa [← Option.some.inj hstart, ← Option.some.inj hnext] at hbeside
  · intro hbeside
    exact (Route.isPath_of_walk (Walk.cons (c := second) ⟨hbeside, rfl⟩ hwalk) hX hY hlen).1

namespace FastRouteCore

variable {core : FastRouteCore} {id : EdgeId} {blocked : List GridPoint}

/-- The route leads from the first node to the second, and the usage is that without the old route
and with the new one. -/
structure Repairs (core core' : FastRouteCore) (id : EdgeId) : Prop where
  isPath : (core'.edgeOf id).route.IsPath ((core.endsOf id).x1, (core.endsOf id).y1)
    ((core.endsOf id).x2, (core.endsOf id).y2)
  usage : ∀ gridEdge, core'.usage gridEdge = core.usage gridEdge -
    UInt16.ofNat ((core.edgeOf id).route.covered.count gridEdge * core.edgeCost id.1) +
      UInt16.ofNat ((core'.edgeOf id).route.covered.count gridEdge * core.edgeCost id.1)

theorem total_routeCharges (netID : Nat) (route : Route) (gridEdge : GridEdge) :
    total (core.routeCharges netID route) gridEdge =
      route.covered.count gridEdge * core.edgeCost netID := by
  unfold routeCharges
  induction route.covered with
  | nil => simp
  | cons e gridEdges ih =>
      rw [List.map_cons, total_cons, ih, List.count_cons]
      by_cases he : e = gridEdge
      · simp [he, Nat.add_mul, Nat.add_comm]
      · simp [he]

/-- A repaired edge has a real route exactly when it is left alone or the L shape skips no leg. -/
theorem fixOverlappingEdge_repairs_iff (hid : core.Exists id)
    (hroute : (core.edgeOf id).route.IsPath ((core.endsOf id).x1, (core.endsOf id).y1)
      ((core.endsOf id).x2, (core.endsOf id).y2))
    (hx : (core.endsOf id).x1 ≤ (core.endsOf id).x2) (_hblocked : blocked ≠ []) :
    core.Repairs (core.fixOverlappingEdge id blocked) id ↔
      ((core.edgeOf id).len = 0 ∨ (core.endsOf id).x1 = (core.endsOf id).x2 ∨
          (core.endsOf id).y1 = (core.endsOf id).y2) ∨
        ¬(core.endsOf id).SkipsLeg (sortByX blocked) := by
  unfold fixOverlappingEdge
  dsimp only
  by_cases halone : (core.edgeOf id).len = 0 ∨ (core.endsOf id).x1 = (core.endsOf id).x2 ∨
      (core.endsOf id).y1 = (core.endsOf id).y2
  · rw [if_pos halone]
    refine ⟨fun _ => Or.inl halone, fun _ => ⟨hroute, fun gridEdge => ?_⟩⟩
    rw [UInt16.sub_add_cancel]
  · rw [if_neg halone]
    obtain ⟨-, hends⟩ := not_or.mp halone
    obtain ⟨hxne, hyne⟩ := not_or.mp hends
    obtain ⟨second, walked, covered, hpoints, hwalk, hbeside⟩ :=
      (core.endsOf id).routeLShape_cases (sortByX blocked) (lt_of_le_of_ne hx hxne) hyne
    have hpath := @Route.through_isPath_iff (core.edgeOf id).route
      ((core.endsOf id).x1, (core.endsOf id).y1) _ _ _ _ hwalk
    rw [← hpoints] at hpath
    have hedge : ∀ (usage : GridEdge → UInt16) (used : Finset GridEdge) (route : Route),
        edgeOf { core.setRoute id route with usage := usage, usedGgrid := used } id =
          { core.edgeOf id with route := route } := fun _ _ route => edgeOf_setRoute_self hid route
    constructor
    · intro hrepairs
      have hnew := hrepairs.isPath
      rw [hedge] at hnew
      exact Or.inr (hbeside.mp (hpath.mp hnew))
    · intro hok
      refine ⟨?_, fun gridEdge => ?_⟩
      · rw [hedge]
        exact hpath.mpr (hbeside.mpr (hok.resolve_left halone))
      · rw [hedge]
        dsimp only
        rw [post_addTo, post_takeFrom, total_routeCharges, total_routeCharges]

/-- An edge that goes to the right and then up, two steps each. -/
def blockedStart : FastRouteCore where
  netIds := [0]
  netIds_nodup := FastRouteCore.nodup_oneNet
  edgeCost := fun _ => 1
  sttrees := fun _ =>
    { numTerminals := 2
      nodes := [{ x := 0, y := 0 }, { x := 2, y := 2 }]
      edges :=
        [{ len := 4, n1 := 0, n2 := 1,
           route :=
             { type := .mazeRoute, gridsX := [0, 1, 2, 2, 2], gridsY := [0, 0, 0, 1, 2],
               routelen := 4 } }] }

theorem blockedStart_isPath : (blockedStart.edgeOf (0, 0)).route.IsPath
    ((blockedStart.endsOf (0, 0)).x1, (blockedStart.endsOf (0, 0)).y1)
    ((blockedStart.endsOf (0, 0)).x2, (blockedStart.endsOf (0, 0)).y2) :=
  ⟨by decide, by decide, by decide, by decide, by decide⟩

/-- With the blocked position in another row the repair is right. -/
theorem fixOverlappingEdge_repairs_blockedStart :
    blockedStart.Repairs (blockedStart.fixOverlappingEdge (0, 0) [(2, 1)]) (0, 0) ↔
      ((blockedStart.edgeOf (0, 0)).len = 0 ∨
          (blockedStart.endsOf (0, 0)).x1 = (blockedStart.endsOf (0, 0)).x2 ∨
          (blockedStart.endsOf (0, 0)).y1 = (blockedStart.endsOf (0, 0)).y2) ∨
        ¬(blockedStart.endsOf (0, 0)).SkipsLeg (sortByX [(2, 1)]) :=
  fixOverlappingEdge_repairs_iff Nat.zero_lt_one blockedStart_isPath (by decide) (by decide)

/-- The blocked position lies in the row of the start point: the route jumps two rows up. -/
theorem not_fixOverlappingEdge_repairs :
    ¬∀ (core : FastRouteCore) (id : EdgeId) (blocked : List GridPoint), core.Exists id →
      (core.edgeOf id).route.IsPath ((core.endsOf id).x1, (core.endsOf id).y1)
        ((core.endsOf id).x2, (core.endsOf id).y2) →
      (core.endsOf id).x1 ≤ (core.endsOf id).x2 → blocked ≠ [] →
      core.Repairs (core.fixOverlappingEdge id blocked) id := by
  intro hall
  have hrepairs := hall blockedStart (0, 0) [(1, 0)] Nat.zero_lt_one blockedStart_isPath (by decide)
    (by decide)
  have hbeside := hrepairs.isPath.beside 0 (by decide)
  exact absurd hbeside (by decide)

end FastRouteCore

end OpenRoad.Grt
