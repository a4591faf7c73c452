import OpenRoad.GrtMonotonic
import Mathlib.Tactic.Linarith

/-!
The scan of a window finds the first of the cheapest pairs of L shapes: what it computes from the
prefix sums is what the steps of the pair cost.
-/

namespace OpenRoad.Grt

/-! ### Legs -/

theorem mem_spanDown {a b i : Int} : i ∈ spanDown a b ↔ b < i ∧ i ≤ a := by
  unfold spanDown
  rw [List.mem_map]
  constructor
  · rintro ⟨k, hk, rfl⟩
    have hlt := List.mem_range.mp hk
    omega
  · rintro ⟨hlt, hle⟩
    refine ⟨(a - i).toNat, List.mem_range.mpr (by omega), by omega⟩

theorem mem_hLeg {y a b : Int} {p : GridPoint} (hp : p ∈ hLeg y a b) :
    p.2 = y ∧ min a b ≤ p.1 ∧ p.1 ≤ max a b := by
  unfold hLeg at hp
  split_ifs at hp
  · obtain ⟨i, hi, rfl⟩ := List.mem_map.mp hp
    have hbetween := mem_span.mp hi
    exact ⟨rfl, by dsimp only; omega, by dsimp only; omega⟩
  · obtain ⟨i, hi, rfl⟩ := List.mem_map.mp hp
    have hbetween := mem_spanDown.mp hi
    exact ⟨rfl, by dsimp only; omega, by dsimp only; omega⟩

theorem mem_vLeg {x a b : Int} {p : GridPoint} (hp : p ∈ vLeg x a b) :
    p.1 = x ∧ min a b ≤ p.2 ∧ p.2 ≤ max a b := by
  unfold vLeg at hp
  split_ifs at hp
  · obtain ⟨i, hi, rfl⟩ := List.mem_map.mp hp
    have hbetween := mem_span.mp hi
    exact ⟨rfl, by dsimp only; omega, by dsimp only; omega⟩
  · obtain ⟨i, hi, rfl⟩ := List.mem_map.mp hp
    have hbetween := mem_spanDown.mp hi
    exact ⟨rfl, by dsimp only; omega, by dsimp only; omega⟩

theorem length_hLegEdges (y a b : Int) : (hLegEdges y a b).length = (a - b).natAbs := by
  rw [(hLegEdges_perm y a b).length_eq, hSpan, List.length_map, length_span]
  omega

theorem length_vLegEdges (x a b : Int) : (vLegEdges x a b).length = (a - b).natAbs := by
  rw [(vLegEdges_perm x a b).length_eq, vSpan, List.length_map, length_span]
  omega

/-- What the grid edges of a leg cost together. -/
def legSum (stepCost : GridEdge → ℚ) (gridEdges : List GridEdge) : ℚ :=
  (gridEdges.map stepCost).sum

/-! ### Pairs of L shapes -/

namespace Shape

variable (shape : Shape) (ends : Ends)

/-- What the steps of the two L shapes cost; where the first arrives the way the second leaves, the
routes have a via more. -/
def cost (stepCost : GridEdge → ℚ) (viaCost : ℚ) : ℚ :=
  legSum stepCost (shape.edges ends) + if shape.bl1 = shape.bl2 then viaCost else 0

theorem cost_eq (stepCost : GridEdge → ℚ) (viaCost : ℚ) : shape.cost ends stepCost viaCost =
    (if shape.bl1 then
      legSum stepCost (hLegEdges ends.y1 ends.x1 shape.bestp1x) +
        legSum stepCost (vLegEdges shape.bestp1x ends.y1 shape.bestp1y)
    else legSum stepCost (vLegEdges ends.x1 ends.y1 shape.bestp1y) +
      legSum stepCost (hLegEdges shape.bestp1y ends.x1 shape.bestp1x)) +
    (if shape.bl2 then
      legSum stepCost (hLegEdges shape.bestp1y shape.bestp1x ends.x2) +
        legSum stepCost (vLegEdges ends.x2 shape.bestp1y ends.y2)
    else legSum stepCost (vLegEdges shape.bestp1x shape.bestp1y ends.y2) +
      legSum stepCost (hLegEdges ends.y2 shape.bestp1x ends.x2)) +
    if shape.bl1 = shape.bl2 then viaCost else 0 := by
  unfold cost edges legSum
  rw [List.map_append, List.sum_append]
  congr 2
  · split_ifs
    · rw [List.map_append, List.sum_append]
    · rw [List.map_append, List.sum_append]
  · split_ifs
    · rw [List.map_append, List.sum_append]
    · rw [List.map_append, List.sum_append]

theorem walk : ∃ walked, shape.points ends = walked ++ [(ends.x2, ends.y2)] ∧
    Walk GridStep (ends.x1, ends.y1) (ends.x2, ends.y2) walked (shape.edges ends) := by
  refine ⟨_, rfl, Walk.append (b := (shape.bestp1x, shape.bestp1y)) ?_ ?_⟩
  · cases shape.bl1
    · exact (walk_vLeg ..).append (walk_hLeg ..)
    · exact (walk_hLeg ..).append (walk_vLeg ..)
  · cases shape.bl2
    · exact (walk_vLeg ..).append (walk_hLeg ..)
    · exact (walk_hLeg ..).append (walk_vLeg ..)

theorem length_edges : (shape.edges ends).length =
    (ends.x1 - shape.bestp1x).natAbs + (ends.y1 - shape.bestp1y).natAbs +
      ((shape.bestp1x - ends.x2).natAbs + (shape.bestp1y - ends.y2).natAbs) := by
  unfold edges
  rw [List.length_append]
  congr 1
  · split_ifs
    · rw [List.length_append, length_hLegEdges, length_vLegEdges]
    · rw [List.length_append, length_hLegEdges, length_vLegEdges, Nat.add_comm]
  · split_ifs
    · rw [List.length_append, length_hLegEdges, length_vLegEdges]
    · rw [List.length_append, length_hLegEdges, length_vLegEdges, Nat.add_comm]

theorem length_points : (shape.points ends).length = (shape.edges ends).length + 1 := by
  obtain ⟨walked, hpoints, hwalk⟩ := shape.walk ends
  rw [hpoints, List.length_append, hwalk.length_eq, List.length_singleton]

end Shape

/-! ### Windows -/

namespace Window

variable (window : Window)

def Contains (p : GridPoint) : Prop :=
  (window.xmin ≤ p.1 ∧ p.1 ≤ window.xmax) ∧ window.ymin ≤ p.2 ∧ p.2 ≤ window.ymax

def shapesAt (j i : Int) : List Shape :=
  [⟨i, j, false, true⟩, ⟨i, j, true, false⟩, ⟨i, j, false, false⟩, ⟨i, j, true, true⟩]

/-- All pairs of L shapes through a point of the window. -/
def shapes : List Shape :=
  (span window.ymin (window.ymax + 1)).flatMap fun j =>
    (span window.xmin (window.xmax + 1)).flatMap fun i => shapesAt j i

/-- Both ends lie in the window. -/
def Around (ends : Ends) : Prop :=
  window.Contains (ends.x1, ends.y1) ∧ window.Contains (ends.x2, ends.y2)

variable {window} {ends : Ends}

theorem mem_shapes {shape : Shape} :
    shape ∈ window.shapes ↔ window.Contains (shape.bestp1x, shape.bestp1y) := by
  unfold shapes Contains
  simp only [List.mem_flatMap, mem_span, shapesAt, List.mem_cons, List.not_mem_nil, or_false]
  constructor
  · rintro ⟨j, hj, i, hi, rfl | rfl | rfl | rfl⟩
    all_goals
      dsimp only
      omega
  · rintro ⟨hi, hj⟩
    refine ⟨shape.bestp1y, by omega, shape.bestp1x, by omega, ?_⟩
    obtain ⟨x, y, bl1, bl2⟩ := shape
    cases bl1 <;> cases bl2 <;> simp

/-- A pair of L shapes does not leave the window its middle and its ends are in. -/
theorem Around.contains (haround : window.Around ends) {shape : Shape}
    (hshape : shape ∈ window.shapes) : ∀ p ∈ shape.points ends, window.Contains p := by
  have hmid := mem_shapes.mp hshape
  obtain ⟨hfirst, hlast⟩ := haround
  unfold Contains at hmid hfirst hlast ⊢
  dsimp only at hmid hfirst hlast
  intro p hp
  have hleg : ∀ {a b y : Int}, p ∈ hLeg y a b → (window.xmin ≤ a ∧ a ≤ window.xmax) →
      (window.xmin ≤ b ∧ b ≤ window.xmax) → (window.ymin ≤ y ∧ y ≤ window.ymax) →
      (window.xmin ≤ p.1 ∧ p.1 ≤ window.xmax) ∧ window.ymin ≤ p.2 ∧ p.2 ≤ window.ymax := by
    intro a b y hmem ha hb hy
    have hbetween := mem_hLeg hmem
    omega
  have hcolumn : ∀ {a b x : Int}, p ∈ vLeg x a b → (window.ymin ≤ a ∧ a ≤ window.ymax) →
      (window.ymin ≤ b ∧ b ≤ window.ymax) → (window.xmin ≤ x ∧ x ≤ window.xmax) →
      (window.xmin ≤ p.1 ∧ p.1 ≤ window.xmax) ∧ window.ymin ≤ p.2 ∧ p.2 ≤ window.ymax := by
    intro a b x hmem ha hb hx
    have hbetween := mem_vLeg hmem
    omega
  unfold Shape.points at hp
  rcases List.mem_append.mp hp with hp | hp
  · rcases List.mem_append.mp hp with hp | hp
    · split_ifs at hp
      · rcases List.mem_append.mp hp with hp | hp
        · exact hleg hp hfirst.1 hmid.1 hfirst.2
        · exact hcolumn hp hfirst.2 hmid.2 hmid.1
      · rcases List.mem_append.mp hp with hp | hp
        · exact hcolumn hp hfirst.2 hmid.2 hfirst.1
        · exact hleg hp hfirst.1 hmid.1 hmid.2
    · split_ifs at hp
      · rcases List.mem_append.mp hp with hp | hp
        · exact hleg hp hmid.1 hlast.1 hmid.2
        · exact hcolumn hp hmid.2 hlast.2 hlast.1
      · rcases List.mem_append.mp hp with hp | hp
        · exact hcolumn hp hmid.2 hlast.2 hmid.1
        · exact hleg hp hmid.1 hlast.1 hlast.2
  · rw [List.mem_singleton.mp hp]
    exact hlast

/-! ### The costs of the legs -/

variable {stepCost : GridEdge → ℚ} (hcost : ∀ gridEdge, 0 ≤ stepCost gridEdge)
include hcost

theorem rows_sub (d1 : Int → Int → ℚ) {j a b : Int} (hj : window.ymin ≤ j ∧ j ≤ window.ymax)
    (ha : window.xmin ≤ a ∧ a ≤ window.xmax) (hb : window.xmin ≤ b ∧ b ≤ window.xmax) :
    |window.rows stepCost d1 j b - window.rows stepCost d1 j a| =
      legSum stepCost (hLegEdges j a b) := by
  rw [legSum, rows, rows, if_pos hj, if_pos hj, abs_accumulate_sub (fun i => hcost _) hb ha,
    min_comm, max_comm, ((hLegEdges_perm j a b).map stepCost).sum_eq, hSpan, List.map_map]
  rfl

theorem columns_sub (d2 : Int → Int → ℚ) {i a b : Int} (hi : window.xmin ≤ i ∧ i ≤ window.xmax)
    (ha : window.ymin ≤ a ∧ a ≤ window.ymax) (hb : window.ymin ≤ b ∧ b ≤ window.ymax) :
    |window.columns stepCost d2 b i - window.columns stepCost d2 a i| =
      legSum stepCost (vLegEdges i a b) := by
  rw [legSum, columns, columns, if_pos hi, if_pos hi,
    abs_accumulate_sub (fun j => hcost _) hb ha, min_comm, max_comm,
    ((vLegEdges_perm i a b).map stepCost).sum_eq, vSpan, List.map_map]
  rfl

/-- At a point of the window the candidates are the four pairs of L shapes, in this order. -/
theorem cheapestAt_eq (haround : window.Around ends) (d1 d2 : Int → Int → ℚ) (viaCost : ℚ)
    {j i : Int} (hj : window.ymin ≤ j ∧ j ≤ window.ymax)
    (hi : window.xmin ≤ i ∧ i ≤ window.xmax) (best : ℚ × Shape) :
    keepLess best (cheapestAt (window.rows stepCost d1) (window.columns stepCost d2) viaCost ends
        j i) =
      ((shapesAt j i).map fun shape => (shape.cost ends stepCost viaCost, shape)).foldl keepLess
        best := by
  obtain ⟨⟨hx1, hy1⟩, hx2, hy2⟩ := haround
  dsimp only at hx1 hy1 hx2 hy2
  have hyx : legSum stepCost (vLegEdges ends.x1 ends.y1 j) +
      legSum stepCost (hLegEdges j ends.x1 i) + (legSum stepCost (vLegEdges ends.x2 j ends.y2) +
        legSum stepCost (hLegEdges j i ends.x2)) =
      (⟨i, j, false, true⟩ : Shape).cost ends stepCost viaCost := by
    simp only [Shape.cost_eq, Bool.false_eq_true, if_true, if_false]
    ring
  have hxy : legSum stepCost (vLegEdges i ends.y1 j) +
      legSum stepCost (hLegEdges ends.y1 ends.x1 i) + (legSum stepCost (vLegEdges i j ends.y2) +
        legSum stepCost (hLegEdges ends.y2 i ends.x2)) =
      (⟨i, j, true, false⟩ : Shape).cost ends stepCost viaCost := by
    simp only [Shape.cost_eq, Bool.true_eq_false, Bool.false_eq_true, if_true, if_false]
    ring
  have hyy : legSum stepCost (vLegEdges ends.x1 ends.y1 j) +
      legSum stepCost (hLegEdges j ends.x1 i) + (legSum stepCost (vLegEdges i j ends.y2) +
        legSum stepCost (hLegEdges ends.y2 i ends.x2)) + viaCost =
      (⟨i, j, false, false⟩ : Shape).cost ends stepCost viaCost := by
    simp only [Shape.cost_eq, Bool.false_eq_true, if_true, if_false]
  have hxx : legSum stepCost (vLegEdges i ends.y1 j) +
      legSum stepCost (hLegEdges ends.y1 ends.x1 i) +
        (legSum stepCost (vLegEdges ends.x2 j ends.y2) +
          legSum stepCost (hLegEdges j i ends.x2)) + viaCost =
      (⟨i, j, true, true⟩ : Shape).cost ends stepCost viaCost := by
    simp only [Shape.cost_eq, if_true]
    ring
  have hlast : |window.rows stepCost d1 ends.y2 i - window.rows stepCost d1 ends.y2 ends.x2| =
      legSum stepCost (hLegEdges ends.y2 i ends.x2) := by
    rw [abs_sub_comm, rows_sub hcost d1 hy2 hi hx2]
  unfold cheapestAt
  dsimp only
  rw [hlast, rows_sub hcost d1 hj hx1 hi, rows_sub hcost d1 hy1 hx1 hi, rows_sub hcost d1 hj hi hx2,
    columns_sub hcost d2 hx1 hy1 hj, columns_sub hcost d2 hi hy1 hj, columns_sub hcost d2 hi hj hy2,
    columns_sub hcost d2 hx2 hj hy2, hyx, hxy, hyy, hxx, shapesAt, List.map_cons,
    foldl_keepLess_cons]
  rfl

theorem scan_eq (haround : window.Around ends) (d1 d2 : Int → Int → ℚ) (viaCost : ℚ) :
    window.scan (window.rows stepCost d1) (window.columns stepCost d2) viaCost ends =
      (window.shapes.map fun shape => (shape.cost ends stepCost viaCost, shape)).foldl keepLess
        (bigInt, ⟨0, 0, false, false⟩) := by
  unfold scan shapes
  rw [List.map_flatMap, List.foldl_flatMap]
  apply List.foldl_ext
  intro best j hj
  rw [List.map_flatMap, List.foldl_flatMap]
  apply List.foldl_ext
  intro best i hi
  have hj' := mem_span.mp hj
  have hi' := mem_span.mp hi
  exact cheapestAt_eq hcost haround d1 d2 viaCost (by omega) (by omega) best

end Window

end OpenRoad.Grt
