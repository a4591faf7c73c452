import OpenRoad.GrtPath
import OpenRoad.GrtReroute

/-!
From pattern routes to maze routes. The points of a recorded L or Z are written into the arrays of
the route; the steps between them cover what a ripup of the pattern takes back.
-/

namespace OpenRoad.Grt

/-! ### The points of a pattern -/

namespace Ends

variable (ends : Ends)

/-- A column, with both its ends. -/
def column (x a b : Int) : List GridPoint :=
  if a ≤ b then (span a (b + 1)).map fun i => (x, i) else (spanDown a (b - 1)).map fun i => (x, i)

/-- A column, without the point it starts from. -/
def columnAfter (x a b : Int) : List GridPoint :=
  if a ≤ b then (span (a + 1) (b + 1)).map fun i => (x, i)
  else (spanDown (a - 1) (b - 1)).map fun i => (x, i)

def lPoints (xFirst : Bool) : List GridPoint :=
  if xFirst then
    ((span ends.x1 (ends.x2 + 1)).map fun i => (i, ends.y1)) ++
      columnAfter ends.x2 ends.y1 ends.y2
  else
    column ends.x1 ends.y1 ends.y2 ++
      (span (ends.x1 + 1) (ends.x2 + 1)).map fun i => (i, ends.y2)

def zPoints (hvh : Bool) (zpoint : Int) : List GridPoint :=
  if hvh then
    ((span ends.x1 zpoint).map fun i => (i, ends.y1)) ++ column zpoint ends.y1 ends.y2 ++
      (span (zpoint + 1) (ends.x2 + 1)).map fun i => (i, ends.y2)
  else if ends.y1 ≤ ends.y2 then
    ((span ends.y1 zpoint).map fun i => (ends.x1, i)) ++
      ((span ends.x1 (ends.x2 + 1)).map fun i => (i, zpoint)) ++
        (span (zpoint + 1) (ends.y2 + 1)).map fun i => (ends.x2, i)
  else
    ((spanDown ends.y1 zpoint).map fun i => (ends.x1, i)) ++
      ((span ends.x1 (ends.x2 + 1)).map fun i => (i, zpoint)) ++
        (spanDown (zpoint - 1) (ends.y2 - 1)).map fun i => (ends.x2, i)

def dist : Nat := (ends.x1 - ends.x2).natAbs + (ends.y1 - ends.y2).natAbs

end Ends

/-! ### The conversion -/

/-- `gridsX[cnt] = x; gridsY[cnt] = y; cnt++` for every point; there is no result where that is past
the end of the arrays. -/
def Route.write (route : Route) (points : List GridPoint) : Option Route :=
  if points.length ≤ route.gridsX.length ∧ points.length ≤ route.gridsY.length then
    some { route with
      gridsX := points.map Prod.fst ++ route.gridsX.drop points.length
      gridsY := points.map Prod.snd ++ route.gridsY.drop points.length }
  else none

/-- The points that are written for a route. -/
def Route.mazePoints (route : Route) (ends : Ends) : List GridPoint :=
  match route.type with
  | .noRoute => [(ends.x1, ends.y1)]
  | .lRoute => ends.lPoints route.xFirst
  | .zRoute => ends.zPoints route.hvh route.zpoint
  | .mazeRoute => []

/-- One edge of `convertToMazerouteNet`. -/
def TreeEdge.convert (edge : TreeEdge) (ends : Ends) : Option TreeEdge :=
  let route := { edge.route with
    gridsX := resize edge.route.gridsX (edge.len + 1) 0
    gridsY := resize edge.route.gridsY (edge.len + 1) 0 }
  (route.write (edge.route.mazePoints ends)).map fun route =>
    { edge with
      len := if edge.route.type = .noRoute then 0 else ends.dist
      route := { route with type := .mazeRoute, routelen := edge.len } }

def FastRouteCore.convertToMazerouteNet (core : FastRouteCore) (netID : Nat) :
    Option FastRouteCore :=
  let tree := core.sttrees netID
  (tree.edges.mapM fun edge : TreeEdge => edge.convert (tree.ends edge)).map fun edges =>
    core.setTree netID { tree with edges := edges }

/-! ### Columns and rows -/

theorem Ends.column_eq (x a b : Int) : Ends.column x a b = vLeg x a b ++ [(x, b)] := by
  unfold Ends.column vLeg
  rcases lt_trichotomy a b with hlt | rfl | hgt
  · rw [if_pos hlt.le, if_pos hlt, span_concat hlt.le, List.map_append, List.map_singleton]
  · rw [if_pos le_rfl, if_neg (lt_irrefl a), span_concat le_rfl, List.map_append,
      List.map_singleton, span_of_le le_rfl, spanDown_of_le le_rfl]
  · rw [if_neg (not_le.mpr hgt), if_neg (not_lt.mpr hgt.le), spanDown_concat hgt.le,
      List.map_append, List.map_singleton]

/-- A leg with its last point instead of its first. -/
theorem cons_map_span {P : Type*} (f : Int → P) {a b : Int} (hle : a ≤ b) :
    f a :: (span (a + 1) (b + 1)).map f = (span a b).map f ++ [f b] := by
  rw [← List.map_cons, ← @span_cons a (b + 1) (by omega), span_concat hle, List.map_append,
    List.map_singleton]

theorem cons_map_spanDown {P : Type*} (f : Int → P) {a b : Int} (hle : b ≤ a) :
    f a :: (spanDown (a - 1) (b - 1)).map f = (spanDown a b).map f ++ [f b] := by
  rw [← List.map_cons, ← @spanDown_cons a (b - 1) (by omega), spanDown_concat hle, List.map_append,
    List.map_singleton]

theorem Ends.cons_columnAfter (x a b : Int) :
    (x, a) :: Ends.columnAfter x a b = vLeg x a b ++ [(x, b)] := by
  rw [← Ends.column_eq]
  unfold Ends.columnAfter Ends.column
  split_ifs with hle
  · rw [@span_cons a (b + 1) (by omega), List.map_cons]
  · rw [@spanDown_cons a (b - 1) (by omega), List.map_cons]

theorem down_perm (x a b : Int) :
    ((spanDown a b).map fun i => vEdge (i - 1) x).Perm (vSpan x b a) := by
  have hmap := (spanDown_perm a b).map fun i => vEdge i x
  rwa [List.map_map] at hmap

/-! ### What is written is a walk -/

/-- The points are those of a walk between the ends that covers the grid edges. -/
def Ends.Traces (ends : Ends) (points : List GridPoint) (gridEdges : List GridEdge) : Prop :=
  ∃ walked covered, points = walked ++ [(ends.x2, ends.y2)] ∧
    Walk GridStep (ends.x1, ends.y1) (ends.x2, ends.y2) walked covered ∧ covered.Perm gridEdges

theorem vLegEdges_perm_ends (ends : Ends) (x : Int) :
    (vLegEdges x ends.y1 ends.y2).Perm (vSpan x ends.ymin ends.ymax) := vLegEdges_perm x _ _

theorem Ends.lPoints_traces (ends : Ends) (hx : ends.x1 ≤ ends.x2) (xFirst : Bool) :
    ends.Traces (ends.lPoints xFirst) (ends.lEdges xFirst) := by
  cases xFirst with
  | true =>
      refine ⟨_, _, ?_, (walk_right ends.y1 ends.x1 ends.x2 hx).append
        (walk_vLeg ends.x2 ends.y1 ends.y2), ?_⟩
      · rw [Ends.lPoints, if_pos rfl, span_concat hx, List.map_append, List.map_singleton,
          List.append_assoc, List.append_assoc, ← Ends.cons_columnAfter]
        rfl
      · exact (List.Perm.refl _).append (vLegEdges_perm_ends ends ends.x2)
  | false =>
      refine ⟨_, _, ?_, (walk_vLeg ends.x1 ends.y1 ends.y2).append
        (walk_right ends.y2 ends.x1 ends.x2 hx), ?_⟩
      · rw [Ends.lPoints, if_neg Bool.false_ne_true, Ends.column_eq, List.append_assoc,
          List.append_assoc, ← cons_map_span (fun i => ((i, ends.y2) : GridPoint)) hx]
        rfl
      · exact (vLegEdges_perm_ends ends ends.x1).append (List.Perm.refl _)

/-- The bend lies between the ends. -/
def Ends.BendsWithin (ends : Ends) (hvh : Bool) (zpoint : Int) : Prop :=
  if hvh then ends.x1 ≤ zpoint ∧ zpoint ≤ ends.x2
  else ends.ymin ≤ zpoint ∧ zpoint ≤ ends.ymax

theorem Ends.zPoints_traces (ends : Ends) (hx : ends.x1 ≤ ends.x2) {hvh : Bool} {zpoint : Int}
    (hbend : ends.BendsWithin hvh zpoint) :
    ends.Traces (ends.zPoints hvh zpoint) (ends.zEdges hvh zpoint) := by
  cases hvh with
  | true =>
      obtain ⟨hle, hge⟩ := hbend
      refine ⟨_, _, ?_, ((walk_right ends.y1 ends.x1 zpoint hle).append
        (walk_vLeg zpoint ends.y1 ends.y2)).append (walk_right ends.y2 zpoint ends.x2 hge), ?_⟩
      · rw [Ends.zPoints, if_pos rfl, Ends.column_eq, List.append_assoc, List.append_assoc,
          List.append_assoc, List.append_assoc,
          ← cons_map_span (fun i => ((i, ends.y2) : GridPoint)) hge]
        rfl
      · rw [List.perm_iff_count]
        intro gridEdge
        have hcolumn := (vLegEdges_perm_ends ends zpoint).count_eq gridEdge
        rw [Ends.zEdges, if_pos rfl]
        simp only [List.count_append, hSpan, hcolumn]
        omega
  | false =>
      obtain ⟨hle, hge⟩ := hbend
      have hrow := cons_map_span (fun i => ((i, zpoint) : GridPoint)) hx
      rcases le_or_gt ends.y1 ends.y2 with hy | hy
      · rw [Ends.ymin, min_eq_left hy] at hle
        rw [Ends.ymax, max_eq_right hy] at hge
        refine ⟨_, _, ?_, ((walk_up ends.x1 ends.y1 zpoint hle).append
          (walk_right zpoint ends.x1 ends.x2 hx)).append (walk_up ends.x2 zpoint ends.y2 hge), ?_⟩
        · rw [Ends.zPoints, if_neg Bool.false_ne_true, if_pos hy, span_concat hx, List.map_append,
            List.map_singleton, List.append_assoc, List.append_assoc, List.append_assoc,
            List.append_assoc, ← cons_map_span (fun i => ((ends.x2, i) : GridPoint)) hge]
          rfl
        · rw [List.perm_iff_count]
          intro gridEdge
          rw [Ends.zEdges, if_neg Bool.false_ne_true]
          split_ifs with hlt
          · simp only [List.count_append, hSpan, vSpan]
            omega
          · have hzy : zpoint = ends.y1 := by omega
            have hyy : ends.y2 = ends.y1 := by omega
            simp only [List.count_append, hSpan, vSpan, hzy, hyy, span_of_le le_rfl]
            omega
      · rw [Ends.ymin, min_eq_right hy.le] at hle
        rw [Ends.ymax, max_eq_left hy.le] at hge
        refine ⟨_, _, ?_, ((walk_down ends.x1 ends.y1 zpoint hge).append
          (walk_right zpoint ends.x1 ends.x2 hx)).append (walk_down ends.x2 zpoint ends.y2 hle), ?_⟩
        · rw [Ends.zPoints, if_neg Bool.false_ne_true, if_neg (not_le.mpr hy), span_concat hx,
            List.map_append, List.map_singleton, List.append_assoc, List.append_assoc,
            List.append_assoc, List.append_assoc,
            ← cons_map_spanDown (fun i => ((ends.x2, i) : GridPoint)) hle]
          rfl
        · rw [List.perm_iff_count]
          intro gridEdge
          have hfirst := (down_perm ends.x1 ends.y1 zpoint).count_eq gridEdge
          have hlast := (down_perm ends.x2 zpoint ends.y2).count_eq gridEdge
          rw [Ends.zEdges, if_neg Bool.false_ne_true, if_neg (not_lt.mpr hy.le)]
          simp only [List.count_append, hSpan, hfirst, hlast]
          omega

theorem Ends.length_lEdges (ends : Ends) (hx : ends.x1 ≤ ends.x2) (xFirst : Bool) :
    (ends.lEdges xFirst).length = ends.dist := by
  unfold Ends.lEdges Ends.dist Ends.ymin Ends.ymax
  split_ifs
  · simp only [List.length_append, hSpan, vSpan, List.length_map, length_span]
    omega
  · simp only [List.length_append, hSpan, vSpan, List.length_map, length_span]
    omega

theorem Ends.length_zEdges (ends : Ends) (hx : ends.x1 ≤ ends.x2) {hvh : Bool} {zpoint : Int}
    (hbend : ends.BendsWithin hvh zpoint) : (ends.zEdges hvh zpoint).length = ends.dist := by
  unfold Ends.BendsWithin Ends.ymin Ends.ymax at hbend
  unfold Ends.zEdges Ends.dist Ends.ymin Ends.ymax
  split_ifs at hbend ⊢
  · simp only [List.length_append, hSpan, vSpan, List.length_map, length_span]
    omega
  · simp only [List.length_append, hSpan, vSpan, List.length_map, length_span]
    omega
  · simp only [List.length_append, hSpan, vSpan, List.length_map, length_span]
    omega

/-! ### The conversion of an edge -/

/-- An edge with a recorded L or Z route. -/
structure TreeEdge.Patterned (edge : TreeEdge) (ends : Ends) : Prop where
  left_first : ends.x1 ≤ ends.x2
  len : edge.len = ends.dist
  route : edge.route.type = .lRoute ∨
    edge.route.type = .zRoute ∧ ends.BendsWithin edge.route.hvh edge.route.zpoint

/-- The new route has a point more than the edge is long; it leads from the first end to the second
and covers what a ripup of the recorded pattern takes back. -/
structure TreeEdge.Converts (edge edge' : TreeEdge) (ends : Ends) (gridEdges : List GridEdge) :
    Prop where
  type : edge'.route.type = .mazeRoute
  routelen : edge'.route.routelen = edge.len
  lengthX : edge'.route.gridsX.length = edge.len + 1
  lengthY : edge'.route.gridsY.length = edge.len + 1
  isPath : edge'.route.IsPath (ends.x1, ends.y1) (ends.x2, ends.y2)
  ripup : edge.route.ripupEdges ends = some gridEdges
  covered : edge'.route.covered.Perm gridEdges

/-- What a pattern writes and what its ripup takes back. -/
theorem TreeEdge.Patterned.traces {edge : TreeEdge} {ends : Ends} (h : edge.Patterned ends) :
    ∃ gridEdges, edge.route.ripupEdges ends = some gridEdges ∧ gridEdges.length = edge.len ∧
      ends.Traces (edge.route.mazePoints ends) gridEdges := by
  unfold Route.ripupEdges Route.mazePoints
  rcases h.route with htype | ⟨htype, hbend⟩
  · rw [htype]
    refine ⟨_, rfl, ?_, ends.lPoints_traces h.left_first edge.route.xFirst⟩
    rw [ends.length_lEdges h.left_first, h.len]
  · rw [htype]
    refine ⟨_, rfl, ?_, ends.zPoints_traces h.left_first hbend⟩
    rw [ends.length_zEdges h.left_first hbend, h.len]

theorem TreeEdge.Patterned.convert {edge : TreeEdge} {ends : Ends} (h : edge.Patterned ends) :
    ∃ edge' gridEdges, edge.convert ends = some edge' ∧ edge.Converts edge' ends gridEdges := by
  obtain ⟨gridEdges, hripup, hlen, walked, covered, hpoints, hwalk, hperm⟩ := h.traces
  have hwalked : walked.length = edge.len := by
    rw [hwalk.length_eq, hperm.length_eq, hlen]
  have hcount : (walked ++ [(ends.x2, ends.y2)]).length = edge.len + 1 := by simp [hwalked]
  let route : Route := { edge.route with
    type := .mazeRoute
    routelen := edge.len
    gridsX := (walked ++ [(ends.x2, ends.y2)]).map Prod.fst
    gridsY := (walked ++ [(ends.x2, ends.y2)]).map Prod.snd }
  have hconvert : edge.convert ends = some { edge with len := ends.dist, route := route } := by
    have hne : edge.route.type ≠ .noRoute := by
      rcases h.route with htype | ⟨htype, -⟩ <;> rw [htype] <;> decide
    have hdropX : (resize edge.route.gridsX (edge.len + 1) 0).drop (edge.len + 1) = [] :=
      List.drop_of_length_le (length_resize ..).le
    have hdropY : (resize edge.route.gridsY (edge.len + 1) 0).drop (edge.len + 1) = [] :=
      List.drop_of_length_le (length_resize ..).le
    unfold TreeEdge.convert Route.write
    dsimp only
    rw [if_neg hne, hpoints, hcount, if_pos ⟨(length_resize ..).ge, (length_resize ..).ge⟩,
      hdropX, hdropY, List.append_nil, List.append_nil, Option.map_some]
  obtain ⟨hpath, hcovered⟩ := route.isPath_of_walk hwalk (List.append_nil _).symm
    (List.append_nil _).symm hwalked.symm
  refine ⟨_, gridEdges, hconvert, rfl, rfl, ?_, ?_, hpath, hripup, ?_⟩
  · rw [List.length_map, hcount]
  · rw [List.length_map, hcount]
  · rw [hcovered]
    exact hperm

/-! ### The conversion of a net -/

/-- An edge without a pattern has one point or nothing written. -/
theorem TreeEdge.convert_other {edge : TreeEdge} {ends : Ends}
    (htype : edge.route.type = .noRoute ∨ edge.route.type = .mazeRoute) :
    ∃ edge', edge.convert ends = some edge' := by
  have hone : (edge.route.mazePoints ends).length ≤ edge.len + 1 := by
    unfold Route.mazePoints
    rcases htype with htype | htype <;> rw [htype] <;> simp
  unfold TreeEdge.convert Route.write
  dsimp only
  rw [length_resize, length_resize]
  rw [@if_pos (_ ∧ _) _ ⟨hone, hone⟩]
  exact ⟨_, rfl⟩

namespace FastRouteCore

variable {core : FastRouteCore} {netID : Nat}

theorem convertToMazerouteNet_eq_some {core' : FastRouteCore}
    (h : core.convertToMazerouteNet netID = some core') :
    ∃ edges, (core.sttrees netID).edges.mapM
        (fun edge : TreeEdge => edge.convert ((core.sttrees netID).ends edge)) = some edges ∧
      core' = core.setTree netID { core.sttrees netID with edges := edges } := by
  obtain ⟨edges, hedges, rfl⟩ := Option.map_eq_some_iff.mp h
  exact ⟨edges, hedges, rfl⟩

/-- A falling edge with a VHV route. -/
def fallingEdge : TreeEdge where
  len := 4
  n1 := 0
  n2 := 1
  route := { type := .zRoute, hvh := false, zpoint := 2 }

def fallingPair : FastRouteCore where
  xGrid := 3
  yGrid := 4
  netIds := [0]
  netIds_nodup := FastRouteCore.nodup_oneNet
  edgeCost := fun _ => 1
  sttrees := fun _ =>
    { numTerminals := 2, nodes := [{ x := 0, y := 3 }, { x := 1, y := 0 }], edges := [fallingEdge] }

example : (fallingEdge.route.mazePoints ⟨0, 3, 1, 0⟩) = [(0, 3), (0, 2), (1, 2), (1, 1), (1, 0)] := by
  decide

end FastRouteCore

end OpenRoad.Grt
