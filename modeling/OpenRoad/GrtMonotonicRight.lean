import OpenRoad.GrtLoops
import OpenRoad.GrtMonotonicLeast
import Mathlib.Algebra.Order.Field.Basic

/-!
What the monotonic rerouting makes of an edge that has been ripped up: a cheapest pair of L shapes,
if its points fit into the arrays.
-/

namespace OpenRoad.Grt

open Tally

/-! ### The cost table -/

/-- `h_cost_table_`: the logistic costs of the usages, for any positive values in place of the
exponentials. -/
def hCostTable (costheight : ℚ) (hCapacity : Nat) (exp : Nat → ℚ) : List ℚ :=
  (List.range (10 * hCapacity)).map fun i => costheight / (exp i + 1) + 1

/-- The heights in use are 4 and 8; coordinates are stored in sixteen bits. -/
structure Calibrated (core : FastRouteCore) (m : Monotonic) : Prop where
  hCostTable_ne : m.hCostTable ≠ []
  hCostTable : ∀ cost ∈ m.hCostTable, 0 ≤ cost ∧ cost ≤ 9
  viaCost : 0 ≤ m.viaCost ∧ m.viaCost ≤ 1
  enlarge : 0 ≤ m.enlarge
  xGrid : core.xGrid ≤ 32767
  yGrid : core.yGrid ≤ 32767

theorem hCostTable_bounds {costheight : ℚ} {hCapacity : Nat} {exp : Nat → ℚ}
    (hheight : 0 ≤ costheight ∧ costheight ≤ 8) (hexp : ∀ i, 0 < exp i) :
    ∀ cost ∈ hCostTable costheight hCapacity exp, 0 ≤ cost ∧ cost ≤ 9 := by
  intro cost hmem
  obtain ⟨i, -, rfl⟩ := List.mem_map.mp hmem
  have hpos : 0 < exp i + 1 := add_pos (hexp i) one_pos
  have hle : costheight / (exp i + 1) ≤ costheight :=
    div_le_self hheight.1 (le_add_of_nonneg_left (hexp i).le)
  have hnonneg : 0 ≤ costheight / (exp i + 1) := div_nonneg hheight.1 hpos.le
  constructor <;> linarith [hheight.2]

namespace FastRouteCore

variable {core : FastRouteCore} {m : Monotonic} {id : EdgeId}

theorem tableCost_mem (hne : m.hCostTable ≠ []) (gridEdge : GridEdge) :
    core.tableCost m gridEdge ∈ m.hCostTable := by
  have hpos : 0 < m.hCostTable.length := List.length_pos_iff.mpr hne
  have hlt : min (core.usageRed m gridEdge).toNat (m.hCostTable.length - 1) <
      m.hCostTable.length := by omega
  rw [tableCost, List.getD_eq_getElem _ _ hlt]
  exact List.getElem_mem hlt

/-! ### The window -/

/-- Around the ends and inside the grid. -/
structure Encloses (core : FastRouteCore) (ends : Ends) (window : Window) : Prop where
  xmin : 0 ≤ window.xmin ∧ window.xmin ≤ ends.x1
  xmax : ends.x2 ≤ window.xmax ∧ window.xmax < core.xGrid
  ymin : 0 ≤ window.ymin ∧ window.ymin ≤ ends.ymin
  ymax : ends.ymax ≤ window.ymax ∧ window.ymax < core.yGrid

theorem window_encloses (hplaced : core.Placed (core.endsOf id)) (henlarge : 0 ≤ m.enlarge) :
    core.Encloses (core.endsOf id) (core.window m id) := by
  have hymin := hplaced.ymin_nonneg
  have hymax := hplaced.ymax_lt
  have hx1 := hplaced.x1_nonneg
  have hx2 := hplaced.x2_lt
  have henlarged : core.Encloses (core.endsOf id)
      { xmin := max ((core.endsOf id).x1 - m.enlarge) 0
        xmax := min (core.xGrid - 1) ((core.endsOf id).x2 + m.enlarge)
        ymin := max ((core.endsOf id).ymin - m.enlarge) 0
        ymax := min (core.yGrid - 1) ((core.endsOf id).ymax + m.enlarge) } := by
    refine ⟨?_, ?_, ?_, ?_⟩
    all_goals
      dsimp only
      omega
  unfold window
  dsimp only
  split_ifs
  · apply List.foldlRecOn (motive := fun window => core.Encloses (core.endsOf id) window)
    · exact henlarged
    · intro window hwindow node _
      obtain ⟨h1, h2, h3, h4⟩ := hwindow
      refine ⟨?_, ?_, ?_, ?_⟩
      · dsimp only
        split_ifs
        · exact ⟨hx1, le_rfl⟩
        · exact h1
      · dsimp only
        split_ifs
        · exact ⟨le_rfl, hx2⟩
        · exact h2
      · dsimp only
        split_ifs
        · exact ⟨hymin, le_rfl⟩
        · exact h3
      · dsimp only
        split_ifs
        · exact ⟨le_rfl, hymax⟩
        · exact h4
  · exact henlarged

theorem Encloses.around {ends : Ends} {window : Window} (h : core.Encloses ends window)
    (hx : ends.x1 ≤ ends.x2) : window.Around ends := by
  obtain ⟨hxmin, hxmax, hymin, hymax⟩ := h
  unfold Ends.ymin at hymin
  unfold Ends.ymax at hymax
  refine ⟨⟨?_, ?_⟩, ?_, ?_⟩
  all_goals
    dsimp only
    omega

/-! ### What is laid -/

/-- The cost the shapes of the window are compared by. -/
def shapeCost (core : FastRouteCore) (m : Monotonic) (id : EdgeId) (shape : Shape) : ℚ :=
  shape.cost (core.endsOf id) (core.tableCost m) m.viaCost

/-- The route of an edge that was ripped up leads from its first node to its second without leaving
the window, which lies in the grid; its steps raise the usage, and no pair of L shapes through a
point of the window costs less. -/
structure Rerouted (core : FastRouteCore) (m : Monotonic) (id : EdgeId) (core' : FastRouteCore) :
    Prop where
  isPath : (core'.edgeOf id).route.IsPath ((core.endsOf id).x1, (core.endsOf id).y1)
    ((core.endsOf id).x2, (core.endsOf id).y2)
  contains : ∀ i ≤ (core'.edgeOf id).route.routelen,
    (core.window m id).Contains ((core'.edgeOf id).route.point i)
  encloses : core.Encloses (core.endsOf id) (core.window m id)
  usage : ∀ gridEdge, core'.usage gridEdge = core.usage gridEdge +
    UInt16.ofNat ((core'.edgeOf id).route.covered.count gridEdge * core.edgeCost id.1)
  least : ∃ shape ∈ (core.window m id).shapes,
    (core'.edgeOf id).route.covered = shape.edges (core.endsOf id) ∧
      ∀ other ∈ (core.window m id).shapes, core.shapeCost m id shape ≤ core.shapeCost m id other

/-- No pair of L shapes reaches the cost the scan starts with. -/
theorem shapeCost_lt (hplaced : core.Placed (core.endsOf id)) (hcal : Calibrated core m)
    {shape : Shape} (hshape : shape ∈ (core.window m id).shapes) :
    core.shapeCost m id shape < bigInt := by
  obtain ⟨⟨hx1, hx1'⟩, ⟨hx2, hx2'⟩, ⟨hy1, hy1'⟩, hy2, hy2'⟩ :=
    window_encloses (m := m) hplaced hcal.enlarge
  obtain ⟨hmidx, hmidy⟩ := Window.mem_shapes.mp hshape
  have hX := hcal.xGrid
  have hY := hcal.yGrid
  have hx := hplaced.x1_le
  unfold Ends.ymin at hy1'
  unfold Ends.ymax at hy2
  dsimp only at hmidx hmidy
  have hlen := shape.length_edges (core.endsOf id)
  have hshort : (shape.edges (core.endsOf id)).length ≤ 131068 := by omega
  have hsum : legSum (core.tableCost m) (shape.edges (core.endsOf id)) ≤
      (shape.edges (core.endsOf id)).length • (9 : ℚ) := by
    rw [legSum, ← List.length_map (core.tableCost m)]
    apply List.sum_le_card_nsmul
    intro cost hcost
    obtain ⟨gridEdge, -, rfl⟩ := List.mem_map.mp hcost
    exact (hcal.hCostTable _ (tableCost_mem hcal.hCostTable_ne gridEdge)).2
  have hvia : (if shape.bl1 = shape.bl2 then m.viaCost else 0) ≤ 1 := by
    split_ifs
    · exact hcal.viaCost.2
    · exact zero_le_one
  have hlenQ : ((shape.edges (core.endsOf id)).length : ℚ) ≤ 131068 := by exact_mod_cast hshort
  rw [nsmul_eq_mul] at hsum
  unfold shapeCost Shape.cost bigInt
  linarith

/-- The scan ends with the first of the cheapest pairs. -/
theorem scan_argmin (hplaced : core.Placed (core.endsOf id)) (hcal : Calibrated core m)
    (d1 d2 : Int → Int → ℚ) :
    ∃ shape ∈ (core.window m id).shapes.argmin (core.shapeCost m id),
      ((core.window m id).scan ((core.window m id).rows (core.tableCost m) d1)
        ((core.window m id).columns (core.tableCost m) d2) m.viaCost (core.endsOf id)).2 =
          shape := by
  have hencloses := window_encloses (m := m) hplaced hcal.enlarge
  have haround := hencloses.around hplaced.x1_le
  have hne : (core.window m id).shapes ≠ [] :=
    List.ne_nil_of_mem (Window.mem_shapes.mpr (show (core.window m id).Contains
      ((⟨(core.endsOf id).x1, (core.endsOf id).y1, true, true⟩ : Shape).bestp1x, _)
      from haround.1))
  obtain ⟨shape, hleast, hfold⟩ := @foldl_keepLess_argmin _ _ _ (core.shapeCost m id)
    (bigInt, ⟨0, 0, false, false⟩) _ hne fun shape hshape => shapeCost_lt hplaced hcal hshape
  refine ⟨shape, hleast, ?_⟩
  rw [Window.scan_eq (fun gridEdge => (hcal.hCostTable _
    (tableCost_mem hcal.hCostTable_ne gridEdge)).1) haround]
  exact congrArg Prod.snd hfold

theorem resize_append {α : Type*} (list rest : List α) (new : α) :
    resize (list ++ rest) list.length new = list := by
  unfold resize
  rw [List.append_assoc, List.take_left]

/-- The route a pair of L shapes leaves. -/
def shapeRoute (core : FastRouteCore) (id : EdgeId) (shape : Shape) : Route :=
  { (core.edgeOf id).route with
    gridsX := (shape.points (core.endsOf id)).map Prod.fst
    gridsY := (shape.points (core.endsOf id)).map Prod.snd
    routelen := (shape.points (core.endsOf id)).length - 1 }

def laid (core : FastRouteCore) (id : EdgeId) (shape : Shape) : FastRouteCore :=
  ({ core with
      usage := post addTo core.usage ((shape.edges (core.endsOf id)).map fun gridEdge =>
        (gridEdge, core.edgeCost id.1)) : FastRouteCore }.use
    (shape.edges (core.endsOf id))).setRoute id (core.shapeRoute id shape)

theorem layMonotonic_eq (hplaced : core.Placed (core.endsOf id)) (hcal : Calibrated core m)
    (d1 d2 : Int → Int → ℚ) :
    ∃ shape ∈ (core.window m id).shapes.argmin (core.shapeCost m id),
      core.layMonotonic m d1 d2 id =
        if (shape.points (core.endsOf id)).length ≤ core.range + core.range then
          some (core.laid id shape)
        else none := by
  obtain ⟨shape, hleast, hscan⟩ := scan_argmin hplaced hcal d1 d2
  refine ⟨shape, hleast, ?_⟩
  unfold layMonotonic Route.write
  dsimp only
  simp only [hscan, length_resize, and_self]
  split_ifs with hfits
  · rw [Option.map_some, laid, shapeRoute]
    dsimp only
    have hx := resize_append ((shape.points (core.endsOf id)).map Prod.fst)
      ((resize (core.edgeOf id).route.gridsX (core.range + core.range) 0).drop
        (shape.points (core.endsOf id)).length) 0
    have hy := resize_append ((shape.points (core.endsOf id)).map Prod.snd)
      ((resize (core.edgeOf id).route.gridsY (core.range + core.range) 0).drop
        (shape.points (core.endsOf id)).length) 0
    rw [List.length_map] at hx hy
    rw [hx, hy]
  · rfl

theorem laid_rerouted (hid : core.Exists id) (hplaced : core.Placed (core.endsOf id))
    (hcal : Calibrated core m) {shape : Shape}
    (hleast : shape ∈ (core.window m id).shapes.argmin (core.shapeCost m id)) :
    core.Rerouted m id (core.laid id shape) := by
  have hencloses := window_encloses (m := m) hplaced hcal.enlarge
  have haround := hencloses.around hplaced.x1_le
  have hshape := List.argmin_mem hleast
  obtain ⟨walked, hpoints, hwalk⟩ := shape.walk (core.endsOf id)
  have hedge : ((core.laid id shape).edgeOf id).route = core.shapeRoute id shape := by
    rw [laid, edgeOf_setRoute_self]
    exact hid
  have hlen : (core.shapeRoute id shape).routelen = walked.length := by
    rw [shapeRoute, hpoints, List.length_append, List.length_singleton]
    rfl
  have hx : (core.shapeRoute id shape).gridsX =
      (walked ++ [((core.endsOf id).x2, (core.endsOf id).y2)]).map Prod.fst ++ [] := by
    rw [List.append_nil, ← hpoints]
    rfl
  have hy : (core.shapeRoute id shape).gridsY =
      (walked ++ [((core.endsOf id).x2, (core.endsOf id).y2)]).map Prod.snd ++ [] := by
    rw [List.append_nil, ← hpoints]
    rfl
  obtain ⟨hpath, hcovered⟩ := (core.shapeRoute id shape).isPath_of_walk hwalk hx hy hlen
  refine ⟨?_, ?_, hencloses, ?_, shape, hshape, ?_, ?_⟩
  · rw [hedge]
    exact hpath
  · rw [hedge]
    intro i hi
    apply haround.contains hshape
    rw [hpoints]
    apply List.mem_of_getElem? (i := i)
    apply Route.point_of_prefix hx hy
    rw [List.length_append, List.length_singleton]
    omega
  · intro gridEdge
    rw [hedge, hcovered, ← total_map_const, ← post_addTo]
    rfl
  · rw [hedge, hcovered]
  · intro other hother
    exact List.le_of_mem_argmin hother hleast

theorem layMonotonic_iff (hid : core.Exists id) (hplaced : core.Placed (core.endsOf id))
    (hcal : Calibrated core m) (d1 d2 : Int → Int → ℚ) :
    (∃ core', core.layMonotonic m d1 d2 id = some core' ∧ core.Rerouted m id core') ↔
      ∃ shape ∈ (core.window m id).shapes.argmin (core.shapeCost m id),
        (shape.points (core.endsOf id)).length ≤ core.range + core.range := by
  obtain ⟨shape, hleast, heq⟩ := layMonotonic_eq hplaced hcal d1 d2
  rw [heq]
  constructor
  · rintro ⟨core', hcore', -⟩
    refine ⟨shape, hleast, ?_⟩
    by_contra hlong
    rw [if_neg hlong] at hcore'
    exact Option.some_ne_none _ hcore'.symm
  · rintro ⟨other, hother, hfits⟩
    obtain rfl : shape = other := Option.some.inj (hleast.symm.trans hother)
    exact ⟨_, if_pos hfits, laid_rerouted hid hplaced hcal hleast⟩

theorem newRipupCheck_ripped {ripped : FastRouteCore}
    (h : core.newRipupCheck m id = some (true, ripped)) :
    ripped =
      { core with
        usage := post takeFrom core.usage ((List.range (core.edgeOf id).route.routelen).map
          fun i => ((core.edgeOf id).route.edgeAt i, core.edgeCost id.1)) } := by
  unfold newRipupCheck at h
  dsimp only at h
  split_ifs at h
  · exact absurd (congrArg Prod.fst (Option.some.inj h)) Bool.false_ne_true
  · exact (congrArg Prod.snd (Option.some.inj h)).symm
  · exact absurd (congrArg Prod.fst (Option.some.inj h)) Bool.false_ne_true

/-- An edge that is ripped up is rerouted at least cost exactly when the first of the cheapest pairs
of L shapes in its window has no more points than the arrays take. -/
theorem routeMonotonic_iff {ripped : FastRouteCore} (hid : core.Exists id)
    (hplaced : core.Placed (core.endsOf id)) (hcal : Calibrated core m)
    (hlen : m.threshold < (core.edgeOf id).len)
    (hripped : core.newRipupCheck m id = some (true, ripped)) (d1 d2 : Int → Int → ℚ) :
    (∃ core', core.routeMonotonic m d1 d2 id = some core' ∧ ripped.Rerouted m id core') ↔
      ∃ shape ∈ (ripped.window m id).shapes.argmin (ripped.shapeCost m id),
        (shape.points (core.endsOf id)).length ≤ core.range + core.range := by
  have hlay : core.routeMonotonic m d1 d2 id = ripped.layMonotonic m d1 d2 id := by
    unfold routeMonotonic
    rw [if_neg (not_le.mpr hlen), hripped]
    rfl
  have hends : ripped.endsOf id = core.endsOf id := by
    rw [newRipupCheck_ripped hripped]
    rfl
  have hrange : ripped.range = core.range := by
    rw [newRipupCheck_ripped hripped]
    rfl
  have hexists : ripped.Exists id := by
    rw [newRipupCheck_ripped hripped]
    exact hid
  have hplaced' : ripped.Placed (ripped.endsOf id) := by
    rw [hends, newRipupCheck_ripped hripped]
    exact ⟨hplaced.1, hplaced.2, hplaced.3, hplaced.4, hplaced.5⟩
  have hcal' : Calibrated ripped m := by
    rw [newRipupCheck_ripped hripped]
    exact ⟨hcal.1, hcal.2, hcal.3, hcal.4, hcal.5, hcal.6⟩
  rw [hlay, ← hends, ← hrange]
  exact layMonotonic_iff hexists hplaced' hcal' d1 d2

/-- To the right, then up through a grid edge without capacity. -/
def crowdedPair : FastRouteCore where
  xGrid := 4
  yGrid := 4
  netIds := [0]
  netIds_nodup := FastRouteCore.nodup_oneNet
  edgeCost := fun _ => 1
  sttrees := fun _ =>
    { numTerminals := 2
      nodes := [{ x := 0, y := 0 }, { x := 2, y := 1 }]
      edges :=
        [{ len := 3, n1 := 0, n2 := 1,
           route :=
             { type := .mazeRoute, gridsX := [0, 1, 2, 2], gridsY := [0, 0, 0, 1],
               routelen := 3 } }] }
  usage := fun gridEdge => if gridEdge ∈ [hEdge 0 0, hEdge 0 1, vEdge 0 2] then 1 else 0

def crowdedMonotonic : Monotonic where
  threshold := 1
  enlarge := 1
  hCapacity := 2
  vCapacity := 2
  viaCost := 0
  red := fun gridEdge => if gridEdge = vEdge 0 2 then 2 else 0
  hCostTable := hCostTable 4 2 fun _ => 1

def crowdedRipped : FastRouteCore :=
  { crowdedPair with
    usage := post takeFrom crowdedPair.usage [(hEdge 0 0, 1), (hEdge 0 1, 1), (vEdge 0 2, 1)] }

theorem routeMonotonic_crowdedPair :
    (∃ core', crowdedPair.routeMonotonic crowdedMonotonic (fun _ _ => 0) (fun _ _ => 0) (0, 0) =
        some core' ∧ crowdedRipped.Rerouted crowdedMonotonic (0, 0) core') ↔
      ∃ shape ∈ (crowdedRipped.window crowdedMonotonic (0, 0)).shapes.argmin
          (crowdedRipped.shapeCost crowdedMonotonic (0, 0)),
        (shape.points (crowdedPair.endsOf (0, 0))).length ≤ crowdedPair.range + crowdedPair.range :=
  @routeMonotonic_iff crowdedPair crowdedMonotonic (0, 0) crowdedRipped (Nat.lt_succ_self 0)
    ⟨by decide, by decide, by decide, by decide, by decide⟩
    ⟨List.ne_nil_of_length_pos (by decide),
      hCostTable_bounds (by norm_num) fun _ => one_pos,
      ⟨le_rfl, zero_le_one⟩, by decide, by decide, by decide⟩
    (by decide) rfl _ _

/-! ### A detour -/

section Detour

theorem legSum_le {stepCost : GridEdge → ℚ} {bound : ℚ} {gridEdges : List GridEdge}
    (h : ∀ gridEdge ∈ gridEdges, stepCost gridEdge ≤ bound) :
    legSum stepCost gridEdges ≤ gridEdges.length * bound := by
  have hsum := List.sum_le_card_nsmul (gridEdges.map stepCost) bound fun cost hcost => by
    obtain ⟨gridEdge, hmem, rfl⟩ := List.mem_map.mp hcost
    exact h gridEdge hmem
  rwa [List.length_map, nsmul_eq_mul] at hsum

theorem le_legSum {stepCost : GridEdge → ℚ} {bound : ℚ} {gridEdges : List GridEdge}
    (h : ∀ gridEdge ∈ gridEdges, bound ≤ stepCost gridEdge) :
    gridEdges.length * bound ≤ legSum stepCost gridEdges := by
  have hsum := List.card_nsmul_le_sum (gridEdges.map stepCost) bound fun cost hcost => by
    obtain ⟨gridEdge, hmem, rfl⟩ := List.mem_map.mp hcost
    exact h gridEdge hmem
  rwa [List.length_map, nsmul_eq_mul] at hsum

theorem mem_hLegEdges {y a b : Int} {gridEdge : GridEdge} (h : gridEdge ∈ hLegEdges y a b) :
    ∃ i, gridEdge = hEdge y i := by
  obtain ⟨i, -, rfl⟩ := List.mem_map.mp ((hLegEdges_perm y a b).mem_iff.mp h)
  exact ⟨i, rfl⟩

theorem mem_vLegEdges {x a b : Int} {gridEdge : GridEdge} (h : gridEdge ∈ vLegEdges x a b) :
    ∃ i, gridEdge = vEdge i x := by
  obtain ⟨i, -, rfl⟩ := List.mem_map.mp ((vLegEdges_perm x a b).mem_iff.mp h)
  exact ⟨i, rfl⟩

def farExp (i : Nat) : ℚ := 2 ^ (100 - i : Int)

def farTable : List ℚ := hCostTable 8 100 farExp

/-- Only the last column is free. -/
def farMonotonic : Monotonic where
  threshold := 10
  enlarge := 20
  hCapacity := 100
  vCapacity := 100
  viaCost := 0
  red := fun gridEdge => if gridEdge.direction = .horizontal ∨ gridEdge.x = 999 then 0 else 200
  hCostTable := farTable

/-- Up the first column, then to the right. -/
def farRoute : Route where
  type := .mazeRoute
  gridsX := (vLeg 0 0 999 ++ hLeg 999 0 979 ++ [(979, 999)]).map Prod.fst
  gridsY := (vLeg 0 0 999 ++ hLeg 999 0 979 ++ [(979, 999)]).map Prod.snd
  routelen := 1978

def farCharges : List (GridEdge × Nat) :=
  (List.range farRoute.routelen).map fun i => (farRoute.edgeAt i, 1)

def farPair : FastRouteCore where
  xGrid := 1000
  yGrid := 1000
  netIds := [0]
  netIds_nodup := FastRouteCore.nodup_oneNet
  edgeCost := fun _ => 1
  sttrees := fun _ =>
    { numTerminals := 2
      nodes := [{ x := 0, y := 0 }, { x := 979, y := 999 }]
      edges := [{ len := 1978, n1 := 0, n2 := 1, route := farRoute }] }
  usage := post addTo (fun _ => 0) farCharges

/-- The same without the route. -/
def farRipped : FastRouteCore := { farPair with usage := fun _ => 0 }

theorem farPair_usage (gridEdge : GridEdge) : farPair.usage gridEdge =
    0 + UInt16.ofNat (total farCharges gridEdge) := by
  unfold farPair
  dsimp only
  rw [post_addTo]

theorem farRoute_start : ∃ restX restY, farRoute.gridsX = 0 :: 0 :: restX ∧
    farRoute.gridsY = 0 :: 1 :: restY := by
  have hspan : vLeg 0 0 999 = (0, 0) :: (0, 1) :: (span 2 999).map fun i => (0, i) := by
    rw [vLeg, if_pos (by decide), span_cons (by decide), span_cons (by decide)]
    rfl
  unfold farRoute
  rw [hspan]
  exact ⟨_, _, rfl, rfl⟩

theorem farPair_crowded : farPair.crowded farMonotonic farRoute 0 = true := by
  obtain ⟨restX, restY, hx, hy⟩ := farRoute_start
  have htotal : total farCharges (vEdge 0 0) ≤ 1978 := by
    refine (total_le _ _).trans ?_
    have hones : farCharges.map Prod.snd = List.replicate farRoute.routelen 1 := by
      apply List.eq_replicate_iff.mpr
      simp [farCharges]
    rw [hones, List.sum_replicate, nsmul_eq_mul, mul_one]
    exact le_rfl
  have hred : farMonotonic.red (vEdge 0 0) = 200 := rfl
  unfold crowded usageRed
  rw [hx, hy]
  simp only [List.getD_cons_zero, List.getD_cons_succ]
  rw [if_pos trivial, show min (0 : Int) 1 = 0 from rfl, farPair_usage, hred]
  generalize total farCharges (vEdge 0 0) = t at htotal
  have hnat : (0 + UInt16.ofNat t + 200).toNat = t + 200 := by
    have hred : (200 : UInt16).toNat = 200 := rfl
    rw [UInt16.zero_add, UInt16.toNat_add, UInt16.toNat_ofNat', hred]
    omega
  rw [hnat]
  apply decide_eq_true
  show (100 - 10 : Int) ≤ ((t + 200 : Nat) : Int)
  omega

theorem farPair_ripped : farPair.newRipupCheck farMonotonic (0, 0) = some (true, farRipped) := by
  have husage : post takeFrom farPair.usage farCharges = fun _ => 0 := by
    funext gridEdge
    rw [post_takeFrom, farPair_usage, UInt16.add_sub_cancel]
  have hcrowded : (List.range farRoute.routelen).any
      (farPair.crowded farMonotonic farRoute) = true :=
    List.any_eq_true.mpr ⟨0, List.mem_range.mpr (Nat.zero_lt_succ _), farPair_crowded⟩
  have hedge : farPair.edgeOf (0, 0) = { len := 1978, n1 := 0, n2 := 1, route := farRoute } := rfl
  have htype : farRoute.type = .mazeRoute := rfl
  unfold newRipupCheck
  rw [hedge]
  dsimp only
  rw [if_neg (Nat.succ_ne_zero _), if_pos htype, if_pos hcrowded, farRipped, ← husage]
  rfl

theorem farMonotonic_length : farMonotonic.hCostTable.length = 1000 := by
  simp [farMonotonic, farTable, farExp, hCostTable]

theorem farMonotonic_bounds : ∀ cost ∈ farMonotonic.hCostTable, 0 ≤ cost ∧ cost ≤ 9 := by
  intro cost hmem
  simp only [farMonotonic, farTable] at hmem
  have hheight : (0 : ℚ) ≤ 8 ∧ (8 : ℚ) ≤ 8 := by norm_num
  have hexp : ∀ i, 0 < farExp i := by
    intro i
    unfold farExp
    exact zpow_pos two_pos _
  exact hCostTable_bounds hheight hexp cost hmem

/-- The usage is nothing but the reduction: the cheapest entry or one above the capacity. -/
theorem farRipped_cost (gridEdge : GridEdge) :
    if gridEdge.direction = .horizontal ∨ gridEdge.x = 999 then
      0 ≤ farRipped.tableCost farMonotonic gridEdge ∧ farRipped.tableCost farMonotonic gridEdge ≤ 2
    else 8 ≤ farRipped.tableCost farMonotonic gridEdge := by
  have hget : ∀ i < 1000, farMonotonic.hCostTable.getD i 0 = 8 / (2 ^ (100 - i : Int) + 1) + 1 := by
    intro i hi
    rw [List.getD_eq_getElem _ _ (by rwa [farMonotonic_length])]
    simp [farMonotonic, farTable, farExp, hCostTable]
  have hred : farRipped.usageRed farMonotonic gridEdge =
      if gridEdge.direction = .horizontal ∨ gridEdge.x = 999 then 0 else 200 := UInt16.zero_add _
  unfold tableCost
  rw [farMonotonic_length, hred]
  split_ifs
  · rw [show min (0 : UInt16).toNat (1000 - 1) = 0 from rfl, hget 0 (by decide)]
    norm_num
  · rw [show min (200 : UInt16).toNat (1000 - 1) = 200 from rfl, hget 200 (by decide)]
    norm_num

/-- Around through the last column. -/
def farDetour : Shape := ⟨999, 0, true, false⟩

theorem farDetour_cost : farRipped.shapeCost farMonotonic (0, 0) farDetour ≤ 4036 := by
  have hcheap : ∀ gridEdge ∈ farDetour.edges ⟨0, 0, 979, 999⟩,
      farRipped.tableCost farMonotonic gridEdge ≤ 2 := by
    intro gridEdge hmem
    have hcost := farRipped_cost gridEdge
    rw [if_pos] at hcost
    · exact hcost.2
    · unfold farDetour Shape.edges at hmem
      dsimp only at hmem
      rw [if_pos rfl, if_neg Bool.false_ne_true, List.mem_append, List.mem_append,
        List.mem_append] at hmem
      rcases hmem with (hmem | hmem) | hmem | hmem
      · obtain ⟨i, rfl⟩ := mem_hLegEdges hmem
        exact Or.inl rfl
      · obtain ⟨i, rfl⟩ := mem_vLegEdges hmem
        exact Or.inr rfl
      · obtain ⟨i, rfl⟩ := mem_vLegEdges hmem
        exact Or.inr rfl
      · obtain ⟨i, rfl⟩ := mem_hLegEdges hmem
        exact Or.inl rfl
  have hlen : (farDetour.edges ⟨0, 0, 979, 999⟩).length = 2018 := by
    rw [Shape.length_edges]
    rfl
  have hsum := legSum_le hcheap
  have hvia : (if farDetour.bl1 = farDetour.bl2 then farMonotonic.viaCost else 0) = 0 := rfl
  rw [hlen] at hsum
  show legSum (farRipped.tableCost farMonotonic) (farDetour.edges ⟨0, 0, 979, 999⟩) +
    (if farDetour.bl1 = farDetour.bl2 then farMonotonic.viaCost else 0) ≤ 4036
  rw [hvia]
  norm_num at hsum ⊢
  exact hsum

/-- Every other way uses full columns. -/
theorem far_le_cost {shape : Shape} (hx : shape.bestp1x ≠ 999)
    (hy : 0 ≤ shape.bestp1y ∧ shape.bestp1y ≤ 999) :
    7992 ≤ farRipped.shapeCost farMonotonic (0, 0) shape := by
  have hfull : ∀ {x : Int}, x ≠ 999 → ∀ a b : Int, ((a - b).natAbs : ℚ) * 8 ≤
      legSum (farRipped.tableCost farMonotonic) (vLegEdges x a b) := by
    intro x hne a b
    rw [← length_vLegEdges x a b]
    apply le_legSum
    intro gridEdge hmem
    obtain ⟨i, rfl⟩ := mem_vLegEdges hmem
    have hcost := farRipped_cost (vEdge i x)
    rwa [if_neg (by simp [hne])] at hcost
  have hnonneg : ∀ y a b : Int,
      0 ≤ legSum (farRipped.tableCost farMonotonic) (hLegEdges y a b) := by
    intro y a b
    have hsum := @le_legSum (farRipped.tableCost farMonotonic) 0 (hLegEdges y a b)
      fun gridEdge hmem => by
        obtain ⟨i, rfl⟩ := mem_hLegEdges hmem
        have hcost := farRipped_cost (hEdge y i)
        rw [if_pos (Or.inl rfl)] at hcost
        exact hcost.1
    rwa [mul_zero] at hsum
  have hfirst : ((0 - shape.bestp1y).natAbs : ℚ) = shape.bestp1y := by
    have habs : ((0 - shape.bestp1y).natAbs : Int) = shape.bestp1y := by omega
    rw [← Int.cast_natCast, habs]
  have hlast : ((shape.bestp1y - 999).natAbs : ℚ) = 999 - shape.bestp1y := by
    have habs : ((shape.bestp1y - 999).natAbs : Int) = 999 - shape.bestp1y := by omega
    rw [← Int.cast_natCast, habs, Int.cast_sub, Int.cast_ofNat]
  show 7992 ≤ shape.cost ⟨0, 0, 979, 999⟩ (farRipped.tableCost farMonotonic) 0
  rw [Shape.cost_eq, ite_self]
  dsimp only
  have h1 := hfull hx 0 shape.bestp1y
  have h2 := hfull (show (0 : Int) ≠ 999 by decide) 0 shape.bestp1y
  have h3 := hfull hx shape.bestp1y 999
  have h4 := hfull (show (979 : Int) ≠ 999 by decide) shape.bestp1y 999
  rw [hfirst] at h1 h2
  rw [hlast] at h3 h4
  have h5 := hnonneg 0 0 shape.bestp1x
  have h6 := hnonneg shape.bestp1y 0 shape.bestp1x
  have h7 := hnonneg shape.bestp1y shape.bestp1x 979
  have h8 := hnonneg 999 shape.bestp1x 979
  split_ifs <;> linarith

theorem farPair_calibrated : Calibrated farRipped farMonotonic where
  hCostTable_ne := List.ne_nil_of_length_pos (by rw [farMonotonic_length]; exact Nat.zero_lt_succ _)
  hCostTable := farMonotonic_bounds
  viaCost := ⟨le_rfl, zero_le_one⟩
  enlarge := show (0 : Int) ≤ 20 by norm_num
  xGrid := show (1000 : Int) ≤ 32767 by norm_num
  yGrid := show (1000 : Int) ≤ 32767 by norm_num

/-- The cheapest way around takes 2019 points; the arrays hold 2000. -/
theorem not_routeMonotonic : farPair.newRipupCheck farMonotonic (0, 0) = some (true, farRipped) ∧
    ¬∃ core', farPair.routeMonotonic farMonotonic (fun _ _ => 0) (fun _ _ => 0) (0, 0) =
        some core' ∧ farRipped.Rerouted farMonotonic (0, 0) core' := by
  refine ⟨farPair_ripped, ?_⟩
  have hlay : farPair.routeMonotonic farMonotonic (fun _ _ => 0) (fun _ _ => 0) (0, 0) =
      farRipped.layMonotonic farMonotonic (fun _ _ => 0) (fun _ _ => 0) (0, 0) := by
    have hedge : farPair.edgeOf (0, 0) = { len := 1978, n1 := 0, n2 := 1, route := farRoute } := rfl
    have hlen : ¬((1978 : Nat) : Int) ≤ farMonotonic.threshold :=
      show ¬((1978 : Nat) : Int) ≤ 10 by norm_num
    unfold routeMonotonic
    rw [hedge, if_neg hlen, farPair_ripped, Option.bind_some]
    exact if_pos rfl
  have hplaced : farRipped.Placed (farRipped.endsOf (0, 0)) :=
    ⟨by decide, by decide, by decide, by decide, by decide⟩
  have hexists : farRipped.Exists (0, 0) := Nat.zero_lt_one
  rw [hlay, layMonotonic_iff hexists hplaced farPair_calibrated]
  rintro ⟨shape, hleast, hfits⟩
  have hwindow : farRipped.window farMonotonic (0, 0) = ⟨0, 999, 0, 999⟩ := by decide
  have hends : farRipped.endsOf (0, 0) = ⟨0, 0, 979, 999⟩ := rfl
  rw [hwindow] at hleast
  have hmem := Window.mem_shapes.mp (List.argmin_mem hleast)
  have hdetour : farDetour ∈ Window.shapes ⟨0, 999, 0, 999⟩ :=
    Window.mem_shapes.mpr ⟨by decide, by decide⟩
  have hle := (List.le_of_mem_argmin hdetour hleast).trans farDetour_cost
  have hx : shape.bestp1x = 999 := by
    by_contra hne
    have hcost := far_le_cost hne hmem.2
    exact absurd (hcost.trans hle) (by norm_num)
  have hrange : farRipped.range = 1000 := rfl
  rw [hends, Shape.length_points, Shape.length_edges, hx, hrange] at hfits
  dsimp only at hfits
  omega

end Detour

end FastRouteCore

end OpenRoad.Grt
