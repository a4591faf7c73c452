import OpenRoad.GrtMazeroute
import OpenRoad.LeastScan

/-!
Monotonic rerouting. A maze route that passes a crowded grid edge is ripped up, and its edge is
routed again by two L shapes that meet in a point of a window around it. The costs of the legs are
differences of prefix sums over the rows and columns of the window.
-/

namespace OpenRoad.Grt

open Tally

/-! ### Prefix sums -/

/-- `d[a] = 0` and `d[i + 1] = d[i] + cost(i)` up to `b`. -/
def accumulate (d cost : Int → ℚ) (a b : Int) : Int → ℚ :=
  (span a b).foldl (fun d i => Function.update d (i + 1) (d i + cost i)) (Function.update d a 0)

/-! ### The router -/

/-- What the rerouting depends on beside the nets. -/
structure Monotonic where
  threshold : Int
  enlarge : Int
  hCapacity : Int
  vCapacity : Int
  viaCost : ℚ
  red : GridEdge → UInt16
  hCostTable : List ℚ

structure Window where
  xmin : Int
  xmax : Int
  ymin : Int
  ymax : Int
  deriving DecidableEq, Repr

/-- Two L shapes that meet at a point; of each, whether it begins horizontally. -/
structure Shape where
  bestp1x : Int
  bestp1y : Int
  bl1 : Bool
  bl2 : Bool
  deriving DecidableEq, Repr

/-- The points that are written for the two L shapes. -/
def Shape.points (shape : Shape) (ends : Ends) : List GridPoint :=
  (if shape.bl1 then
    hLeg ends.y1 ends.x1 shape.bestp1x ++ vLeg shape.bestp1x ends.y1 shape.bestp1y
  else vLeg ends.x1 ends.y1 shape.bestp1y ++ hLeg shape.bestp1y ends.x1 shape.bestp1x) ++
  (if shape.bl2 then
    hLeg shape.bestp1y shape.bestp1x ends.x2 ++ vLeg ends.x2 shape.bestp1y ends.y2
  else vLeg shape.bestp1x shape.bestp1y ends.y2 ++ hLeg ends.y2 shape.bestp1x ends.x2) ++
  [(ends.x2, ends.y2)]

/-- The grid edges whose usage is raised on the way. -/
def Shape.edges (shape : Shape) (ends : Ends) : List GridEdge :=
  (if shape.bl1 then
    hLegEdges ends.y1 ends.x1 shape.bestp1x ++ vLegEdges shape.bestp1x ends.y1 shape.bestp1y
  else vLegEdges ends.x1 ends.y1 shape.bestp1y ++
    hLegEdges shape.bestp1y ends.x1 shape.bestp1x) ++
  (if shape.bl2 then
    hLegEdges shape.bestp1y shape.bestp1x ends.x2 ++ vLegEdges ends.x2 shape.bestp1y ends.y2
  else vLegEdges shape.bestp1x shape.bestp1y ends.y2 ++
    hLegEdges ends.y2 shape.bestp1x ends.x2)

/-- The cheapest of the four pairs of L shapes through the point `(i, j)`. -/
def cheapestAt (d1 d2 : Int → Int → ℚ) (viaCost : ℚ) (ends : Ends) (j i : Int) : ℚ × Shape :=
  let tmp1 := |d2 j ends.x1 - d2 ends.y1 ends.x1| + |d1 j i - d1 j ends.x1|
  let tmp2 := |d2 j i - d2 ends.y1 i| + |d1 ends.y1 i - d1 ends.y1 ends.x1|
  let tmp3 := |d2 ends.y2 i - d2 j i| + |d1 ends.y2 i - d1 ends.y2 ends.x2|
  let tmp4 := |d2 ends.y2 ends.x2 - d2 j ends.x2| + |d1 j ends.x2 - d1 j i|
  let tmp := (tmp1 + tmp4, ⟨i, j, false, true⟩)
  let tmp := keepLess tmp (tmp2 + tmp3, ⟨i, j, true, false⟩)
  let tmp := keepLess tmp (tmp1 + tmp3 + viaCost, ⟨i, j, false, false⟩)
  keepLess tmp (tmp2 + tmp4 + viaCost, ⟨i, j, true, true⟩)

namespace Window

variable (window : Window)

/-- The tables of the prefix sums over the rows and the columns; what they held elsewhere stays. -/
def rows (cost : GridEdge → ℚ) (d1 : Int → Int → ℚ) (j i : Int) : ℚ :=
  if window.ymin ≤ j ∧ j ≤ window.ymax then
    accumulate (d1 j) (fun i => cost (hEdge j i)) window.xmin window.xmax i
  else d1 j i

def columns (cost : GridEdge → ℚ) (d2 : Int → Int → ℚ) (j i : Int) : ℚ :=
  if window.xmin ≤ i ∧ i ≤ window.xmax then
    accumulate (fun j => d2 j i) (fun j => cost (vEdge j i)) window.ymin window.ymax j
  else d2 j i

/-- The scan of the window, row by row. -/
def scan (d1 d2 : Int → Int → ℚ) (viaCost : ℚ) (ends : Ends) : ℚ × Shape :=
  (span window.ymin (window.ymax + 1)).foldl
    (fun best j =>
      (span window.xmin (window.xmax + 1)).foldl
        (fun best i => keepLess best (cheapestAt d1 d2 viaCost ends j i)) best)
    (bigInt, ⟨0, 0, false, false⟩)

end Window

namespace FastRouteCore

variable (core : FastRouteCore) (m : Monotonic)

/-- `x_range_` and `y_range_`. -/
def range : Nat :=
  if 1000 < core.xGrid ∨ 1000 < core.yGrid then (max core.xGrid core.yGrid).toNat else 1000

def usageRed (gridEdge : GridEdge) : UInt16 := core.usage gridEdge + m.red gridEdge

/-- What a step over the grid edge costs. -/
def tableCost (gridEdge : GridEdge) : ℚ :=
  m.hCostTable.getD (min (core.usageRed m gridEdge).toNat (m.hCostTable.length - 1)) 0

/-- The step from the point `i` to the next passes a grid edge that is nearly full. -/
def crowded (route : Route) (i : Nat) : Bool :=
  let x := route.gridsX.getD i 0
  let y := route.gridsY.getD i 0
  let x' := route.gridsX.getD (i + 1) 0
  let y' := route.gridsY.getD (i + 1) 0
  if x = x' then
    decide (m.vCapacity - m.threshold ≤ (core.usageRed m (vEdge (min y y') x)).toNat)
  else if y = y' then
    decide (m.hCapacity - m.threshold ≤ (core.usageRed m (hEdge y (min x x'))).toNat)
  else false

/-- Whether a route is ripped up, and what is left of the usage; a route that is not a maze route is
an error. -/
def newRipupCheck (id : EdgeId) : Option (Bool × FastRouteCore) :=
  let route := (core.edgeOf id).route
  if (core.edgeOf id).len = 0 then some (false, core)
  else if route.type = .mazeRoute then
    if (List.range route.routelen).any (core.crowded m route) then
      some (true,
        { core with
          usage := post takeFrom core.usage
            ((List.range route.routelen).map fun i => (route.edgeAt i, core.edgeCost id.1)) })
    else some (false, core)
  else none

/-- The window around an edge: its box, enlarged, but not beyond the box on a side where the tree
has another node. -/
def window (id : EdgeId) : Window :=
  let ends := core.endsOf id
  let tree := core.sttrees id.1
  let enlarged : Window :=
    { xmin := max (ends.x1 - m.enlarge) 0
      xmax := min (core.xGrid - 1) (ends.x2 + m.enlarge)
      ymin := max (ends.ymin - m.enlarge) 0
      ymax := min (core.yGrid - 1) (ends.ymax + m.enlarge) }
  if 2 < tree.numTerminals then
    tree.nodes.foldl
      (fun (window : Window) (node : TreeNode) =>
        { xmin := if node.x < ends.x1 then ends.x1 else window.xmin
          xmax := if ends.x2 < node.x then ends.x2 else window.xmax
          ymin := if node.y < ends.ymin then ends.ymin else window.ymin
          ymax := if ends.ymax < node.y then ends.ymax else window.ymax })
      enlarged
  else enlarged

/-- The route of an edge that has been ripped up. -/
def layMonotonic (d1 d2 : Int → Int → ℚ) (id : EdgeId) : Option FastRouteCore :=
  let ends := core.endsOf id
  let window := core.window m id
  let d1 := window.rows (core.tableCost m) d1
  let d2 := window.columns (core.tableCost m) d2
  let best := (window.scan d1 d2 m.viaCost ends).2
  let route := (core.edgeOf id).route
  let cnt := (best.points ends).length
  let raised : FastRouteCore :=
    { core with
      usage := post addTo core.usage
        ((best.edges ends).map fun gridEdge => (gridEdge, core.edgeCost id.1)) }
  let arrays : Route :=
    { route with
      gridsX := resize route.gridsX (core.range + core.range) 0
      gridsY := resize route.gridsY (core.range + core.range) 0 }
  (arrays.write (best.points ends)).map fun route =>
    (raised.use (best.edges ends)).setRoute id
      { route with
        routelen := cnt - 1
        gridsX := resize route.gridsX cnt 0
        gridsY := resize route.gridsY cnt 0 }

/-- Whatever the tables `d1` and `d2` hold; there is no result where a point is written past the end
of the arrays. -/
def routeMonotonic (d1 d2 : Int → Int → ℚ) (id : EdgeId) : Option FastRouteCore :=
  if (core.edgeOf id).len ≤ m.threshold then some core
  else
    (core.newRipupCheck m id).bind fun ripped =>
      if ripped.1 then ripped.2.layMonotonic m d1 d2 id else some ripped.2

end FastRouteCore

/-! ### Sums over a row -/

theorem span_append {a b c : Int} (hab : a ≤ b) (hbc : b ≤ c) :
    span a c = span a b ++ span b c := by
  obtain ⟨n, hn⟩ : ∃ n, n = (c - b).toNat := ⟨_, rfl⟩
  induction n generalizing c with
  | zero =>
      have heq : c = b := by omega
      rw [heq, span_of_le le_rfl, List.append_nil]
  | succ n ih =>
      obtain ⟨c', rfl⟩ : ∃ c', c = c' + 1 := ⟨c - 1, by omega⟩
      rw [span_concat (by omega), span_concat (by omega), ih (by omega) (by omega),
        List.append_assoc]

theorem accumulate_apply (d cost : Int → ℚ) {a b i : Int} (hai : a ≤ i) (hib : i ≤ b) :
    accumulate d cost a b i = ((span a i).map cost).sum := by
  obtain ⟨n, hn⟩ : ∃ n, n = (b - a).toNat := ⟨_, rfl⟩
  induction n generalizing b i with
  | zero =>
      have hb : b = a := by omega
      have hi : i = a := by omega
      rw [accumulate, hb, hi, span_of_le le_rfl]
      exact Function.update_self ..
  | succ n ih =>
      obtain ⟨b, rfl⟩ : ∃ c, b = c + 1 := ⟨b - 1, by omega⟩
      have hstep : accumulate d cost a (b + 1) =
          Function.update (accumulate d cost a b) (b + 1) (accumulate d cost a b b + cost b) := by
        rw [accumulate, span_concat (by omega), List.foldl_append]
        rfl
      rw [hstep]
      rcases eq_or_ne i (b + 1) with rfl | hne
      · rw [Function.update_self, ih (by omega) le_rfl (by omega), span_concat (by omega),
          List.map_append, List.sum_append]
        simp
      · rw [Function.update_of_ne hne]
        exact ih hai (by omega) (by omega)

/-- The difference of two prefix sums is the sum between them. -/
theorem abs_accumulate_sub {d cost : Int → ℚ} (hcost : ∀ i, 0 ≤ cost i) {a b i k : Int}
    (hi : a ≤ i ∧ i ≤ b) (hk : a ≤ k ∧ k ≤ b) :
    |accumulate d cost a b i - accumulate d cost a b k| =
      ((span (min i k) (max i k)).map cost).sum := by
  rw [accumulate_apply d cost hi.1 hi.2, accumulate_apply d cost hk.1 hk.2]
  have hsum : ∀ s t : Int, 0 ≤ ((span s t).map cost).sum := by
    intro s t
    apply List.sum_nonneg
    intro c hc
    obtain ⟨i, -, rfl⟩ := List.mem_map.mp hc
    exact hcost i
  rcases le_total i k with hle | hle
  · rw [min_eq_left hle, max_eq_right hle, span_append hi.1 hle, List.map_append, List.sum_append,
      abs_sub_comm, add_sub_cancel_left, abs_of_nonneg (hsum i k)]
  · rw [min_eq_right hle, max_eq_left hle, span_append hk.1 hle, List.map_append, List.sum_append,
      add_sub_cancel_left, abs_of_nonneg (hsum k i)]

end OpenRoad.Grt
