import OpenRoad.DplCanBePlaced
import OpenRoad.BestFirst
import Mathlib.Data.List.GetD
import Mathlib.Data.List.ProdSigma

/-!
`searchNearestSite`: a best-first flood from a start point through the grid points within the
limits of the search. For a cell of a group the limits are moved into the boundary of the group, and
the start may be left outside.
-/

namespace OpenRoad.Dpl

open Db (Point Rect)

/-- `legalGridPt` -/
def legalGridPt (G : Grid) (cell : Node) (pt : Point) : Option (Int × Int) :=
  (legalPt G cell pt).map fun legal => (G.gridX legal.x, G.gridSnapDownY legal.y)

namespace Opendp

variable (s : Opendp)

def calcDist (p0 p1 : Int × Int) : Option Int :=
  (s.grid.gridYToDbu p0.2).bind fun y0 =>
    (s.grid.gridYToDbu p1.2).map fun y1 =>
      let yDist : Int := (y0 - y1).natAbs
      let xDist := s.grid.gridToDbu (p0.1 - p1.1).natAbs
      xDist + yDist

def offsets : List (Int × Int) := [(-1, 0), (1, 0), (0, -1), (0, 1)]

/-- What the flood of `searchNearestSite` depends on. -/
def nearestSearch (c : Nat) (x y : Int) : BestFirst.Search (Int × Int) where
  probe p := s.canBePlaced c p.1 p.2
  weigh p := s.calcDist (x, y) p
  neighbors p := offsets.map fun offset => (p.1 + offset.1, p.2 + offset.2)
  inside p := (s.searchLimits c x y).has p.1 p.2
  start := (x, y)

/-- `searchNearestSite`; `Q` decides between points equally near. -/
def searchNearestSite (Q : TopQueue (@BestFirst.farther (Int × Int))) (c : Nat) (x y : Int)
    (fuel : Nat) : BestFirst.Outcome (Int × Int) :=
  (s.nearestSearch c x y).search Q fuel

/-! ### Distances -/

/-- The height of a row. -/
def rowY (y : Int) : Int := s.grid.rowYs.getD y.toNat 0

/-- `calcDist` between points in the rows. -/
def dist (p0 p1 : Int × Int) : Int :=
  s.grid.gridToDbu (p0.1 - p1.1).natAbs + (s.rowY p0.2 - s.rowY p1.2).natAbs

theorem gridYToDbu_rowY {y : Int} (hlo : 0 ≤ y) (hhi : y ≤ s.grid.rowCount) (hne : s.grid.rowYs ≠ []) :
    s.grid.gridYToDbu y = some (s.rowY y) := by
  have hpos := List.length_pos_iff.mpr hne
  unfold Grid.rowCount at hhi
  unfold Grid.gridYToDbu rowY
  rw [if_neg (by omega), if_pos hlo, List.getD_eq_getElem?_getD,
    List.getElem?_eq_getElem (by omega)]
  rfl

theorem rowY_lt (hsorted : s.grid.rowYs.Pairwise (· < ·)) {y y' : Int} (hlo : 0 ≤ y)
    (hlt : y < y') (hhi : y' ≤ s.grid.rowCount) : s.rowY y < s.rowY y' := by
  unfold Grid.rowCount at hhi
  have hlen : y'.toNat < s.grid.rowYs.length := by omega
  have hlen' : y.toNat < s.grid.rowYs.length := by omega
  unfold rowY
  rw [List.getD_eq_getElem _ _ hlen, List.getD_eq_getElem _ _ hlen']
  exact List.pairwise_iff_getElem.mp hsorted _ _ hlen' hlen (by omega)

theorem mem_neighbors {c : Nat} {x y : Int} {p q : Int × Int} :
    q ∈ (s.nearestSearch c x y).neighbors p ↔
      (q.2 = p.2 ∧ (q.1 = p.1 - 1 ∨ q.1 = p.1 + 1)) ∨
        (q.1 = p.1 ∧ (q.2 = p.2 - 1 ∨ q.2 = p.2 + 1)) := by
  obtain ⟨px, py⟩ := p
  obtain ⟨qx, qy⟩ := q
  simp only [nearestSearch, offsets, List.map_cons, List.map_nil, List.mem_cons, Prod.mk.injEq,
    List.not_mem_nil, or_false]
  omega

/-- A step in one row towards a column is nearer. -/
theorem dist_lt_column (hsite : 0 < s.grid.siteWidth) {x y x' y' x'' : Int}
    (h : (x - x'').natAbs < (x - x').natAbs) : s.dist (x, y) (x'', y') < s.dist (x, y) (x', y') := by
  unfold dist Grid.gridToDbu
  have hmul : ((x - x'').natAbs : Int) * s.grid.siteWidth < (x - x').natAbs * s.grid.siteWidth :=
    Int.mul_lt_mul_of_pos_right (by omega) hsite
  dsimp only
  omega

/-- A step in one column towards a row is nearer. -/
theorem dist_lt_row (hsorted : s.grid.rowYs.Pairwise (· < ·)) {x y x' y' y'' : Int} (hy : 0 ≤ y)
    (hyCount : y ≤ s.grid.rowCount) (hy' : 0 ≤ y') (hyCount' : y' ≤ s.grid.rowCount)
    (h : y' < y'' ∧ y'' ≤ y ∨ y'' < y' ∧ y ≤ y'') :
    s.dist (x, y) (x', y'') < s.dist (x, y) (x', y') := by
  unfold dist
  dsimp only
  rcases h with ⟨hlt, hle⟩ | ⟨hlt, hle⟩
  · have hstep := s.rowY_lt hsorted hy' hlt (by omega)
    rcases hle.eq_or_lt with rfl | hlt'
    · omega
    · have hrest := s.rowY_lt hsorted (by omega) hlt' hyCount
      omega
  · have hstep := s.rowY_lt hsorted (by omega) hlt hyCount'
    rcases hle.eq_or_lt with rfl | hlt'
    · omega
    · have hrest := s.rowY_lt hsorted hy hlt' (by omega)
      omega

/-! ### The flood reaches every point inside -/

/-- The points inside the limits. -/
def limitPoints (L : SearchLimits) : List (Int × Int) :=
  Grid.interval L.xMin (L.xMax + 1) ×ˢ Grid.interval L.yMin (L.yMax + 1)

theorem mem_limitPoints {L : SearchLimits} {p : Int × Int} (h : L.has p.1 p.2 = true) :
    p ∈ limitPoints L := by
  obtain ⟨hx, hx', hy, hy'⟩ := (L.has_iff).mp h
  unfold limitPoints
  rw [List.mem_product, Grid.mem_interval, Grid.mem_interval]
  omega

theorem legalGridPt_row {G : Grid} {cell : Node} {pt : Point} {x y : Int} (hne : G.rowYs ≠ [])
    (h : legalGridPt G cell pt = some (x, y)) : 0 ≤ y ∧ y ≤ G.rowCount := by
  obtain ⟨legal, -, heq⟩ := Option.map_eq_some_iff.mp h
  obtain ⟨-, rfl⟩ := Prod.mk.inj heq
  have hlen := (List.takeWhile_sublist (· ≤ legal.y) : List.Sublist _ G.rowYs).length_le
  have hpos := List.length_pos_iff.mpr hne
  unfold Grid.gridSnapDownY Grid.rowCount
  dsimp only
  split_ifs <;> omega

section Search

variable {c : Nat} {x y : Int}

/-- A point inside that is not the start has a neighbour that is nearer, inside or the start. -/
theorem exists_closer (hsite : 0 < s.grid.siteWidth) (hsorted : s.grid.rowYs.Pairwise (· < ·))
    (hy : 0 ≤ y) (hyCount : y ≤ s.grid.rowCount) (htouches : (s.nearestSearch c x y).Touches)
    {p : Int × Int} (hin : (s.nearestSearch c x y).inside p = true) (hne : p ≠ (x, y)) :
    ∃ q, (s.nearestSearch c x y).Open q ∧ p ∈ (s.nearestSearch c x y).neighbors q ∧
      s.dist (x, y) q < s.dist (x, y) p := by
  obtain ⟨px, py⟩ := p
  have hstart : (s.searchLimits c x y).has x y = true ∨ ∃ q : Int × Int,
      ((q.2 = y ∧ (q.1 = x - 1 ∨ q.1 = x + 1)) ∨ (q.1 = x ∧ (q.2 = y - 1 ∨ q.2 = y + 1))) ∧
      (s.searchLimits c x y).has q.1 q.2 = true := by
    rcases htouches with h | ⟨q, hq, h⟩
    · exact Or.inl h
    · exact Or.inr ⟨q, s.mem_neighbors.mp hq, h⟩
  have hbounds : ∀ {a b : Int}, (s.searchLimits c x y).has a b = true →
      0 ≤ b ∧ b ≤ s.grid.rowCount := fun {a b} h =>
    ⟨(s.searchLimits_nonneg h).2,
      (((SearchLimits.has_iff _).mp h).2.2.2).trans (min_le_left _ _)⟩
  obtain ⟨hpy, hpyCount⟩ := hbounds hin
  have hin' := (SearchLimits.has_iff _).mp hin
  have hopen : ∀ q : Int × Int, (s.searchLimits c x y).has q.1 q.2 = true →
      (s.nearestSearch c x y).Open q := fun q hq => Or.inr hq
  have hne' : ¬(px = x ∧ py = y) := fun h => hne (Prod.ext h.1 h.2)
  set L := s.searchLimits c x y with hL
  -- towards the row of the start, then towards its column, and else the start itself
  by_cases hup : py < y ∧ py + 1 ≤ L.yMax
  · exact ⟨(px, py + 1), hopen _ (L.has_iff.mpr (by dsimp only; omega)),
      s.mem_neighbors.mpr (by dsimp only; omega),
      s.dist_lt_row hsorted hy hyCount hpy hpyCount (Or.inl (by omega))⟩
  by_cases hdown : y < py ∧ L.yMin ≤ py - 1
  · exact ⟨(px, py - 1), hopen _ (L.has_iff.mpr (by dsimp only; omega)),
      s.mem_neighbors.mpr (by dsimp only; omega),
      s.dist_lt_row hsorted hy hyCount hpy hpyCount (Or.inr (by omega))⟩
  by_cases hright : px < x ∧ px + 1 ≤ L.xMax
  · exact ⟨(px + 1, py), hopen _ (L.has_iff.mpr (by dsimp only; omega)),
      s.mem_neighbors.mpr (by dsimp only; omega), s.dist_lt_column hsite (by omega)⟩
  by_cases hleft : x < px ∧ L.xMin ≤ px - 1
  · exact ⟨(px - 1, py), hopen _ (L.has_iff.mpr (by dsimp only; omega)),
      s.mem_neighbors.mpr (by dsimp only; omega), s.dist_lt_column hsite (by omega)⟩
  · have hadjacent : (py = y ∧ (px = x - 1 ∨ px = x + 1)) ∨ (px = x ∧ (py = y - 1 ∨ py = y + 1)) := by
      rcases hstart with h | ⟨q, hq, h⟩
      · have h' := L.has_iff.mp h
        omega
      · have h' := L.has_iff.mp h
        omega
    refine ⟨(x, y), Or.inl rfl, s.mem_neighbors.mpr hadjacent, ?_⟩
    rcases hadjacent with ⟨rfl, hx⟩ | ⟨rfl, hrow⟩
    · exact s.dist_lt_column hsite (by omega)
    · exact s.dist_lt_row hsorted hy hyCount hpy hpyCount (by omega)

/-- The distance grades the flood. -/
theorem nearestSearch_graded (hsite : 0 < s.grid.siteWidth)
    (hsorted : s.grid.rowYs.Pairwise (· < ·)) (hne : s.grid.rowYs ≠ []) (hy : 0 ≤ y)
    (hyCount : y ≤ s.grid.rowCount) :
    (s.nearestSearch c x y).Graded (s.dist (x, y)) := by
  have hrow : ∀ p, (s.nearestSearch c x y).Open p → 0 ≤ p.2 ∧ p.2 ≤ s.grid.rowCount := by
    rintro p (rfl | hin)
    · exact ⟨hy, hyCount⟩
    · have hin' := (SearchLimits.has_iff _).mp hin
      exact ⟨(s.searchLimits_nonneg hin).2, hin'.2.2.2.trans (min_le_left _ _)⟩
  have hnonneg : ∀ p : Int × Int, 0 ≤ s.dist (x, y) p := fun p => by
    have := Int.mul_nonneg (Int.natCast_nonneg (x - p.1).natAbs) hsite.le
    unfold dist Grid.gridToDbu
    dsimp only
    omega
  exact {
    weigh := fun p hp => by
      obtain ⟨hlo, hhi⟩ := hrow p hp
      show s.calcDist (x, y) p = some _
      unfold calcDist dist
      rw [s.gridYToDbu_rowY hy hyCount hne, s.gridYToDbu_rowY hlo hhi hne]
      rfl
    start := by
      show s.dist (x, y) (x, y) = 0
      simp [dist, Grid.gridToDbu]
    nonneg := fun p _ => hnonneg p
    zero := fun p hp hle => by
      obtain ⟨hlo, hhi⟩ := hrow p hp
      obtain ⟨px, py⟩ := p
      by_contra hne'
      have hne' : ¬(px = x ∧ py = y) := fun h => hne' (Prod.ext h.1 h.2)
      have hlt : s.dist (x, y) (px, py) > 0 := by
        rcases lt_trichotomy py y with h | h | h
        · have := @dist_lt_row s hsorted x y px py y hy hyCount hlo hhi (Or.inl ⟨h, le_rfl⟩)
          exact lt_of_le_of_lt (hnonneg _) this
        · have := @dist_lt_column s hsite x y px py x (by omega)
          exact lt_of_le_of_lt (hnonneg _) this
        · have := @dist_lt_row s hsorted x y px py y hy hyCount hlo hhi (Or.inr ⟨h, le_rfl⟩)
          exact lt_of_le_of_lt (hnonneg _) this
      omega
    closer := fun htouches p hin hne' =>
      s.exists_closer hsite hsorted hy hyCount htouches hin hne' }

/-- Either the cell can be placed at the start; or the probe of the start stays in the row table,
and if the start is within the limits or next to them, each point within them that leaves the table
is farther away than one where the cell can be placed, and if it is not, the cell can be placed at
none of them. -/
def ProbesInOrder (c : Nat) (x y : Int) : Prop :=
  s.canBePlaced c x y = some true ∨
    ¬s.LeavesTable c x y ∧
      ((s.nearestSearch c x y).Touches → ∀ p : Int × Int,
        (s.searchLimits c x y).has p.1 p.2 = true → s.LeavesTable c p.1 p.2 →
        ∃ q : Int × Int, (s.searchLimits c x y).has q.1 q.2 = true ∧
          s.canBePlaced c q.1 q.2 = some true ∧ (s.nearestSearch c x y).Nearer q p) ∧
      (¬(s.nearestSearch c x y).Touches → ∀ p : Int × Int,
        (s.searchLimits c x y).has p.1 p.2 = true → s.canBePlaced c p.1 p.2 ≠ some true)

/-- From a legal start point the search finds a nearest point within the limits where the cell can be
placed, or there is none, in whatever order points equally near are popped, exactly if its probes
are in order. -/
theorem searchNearestSite_complete_iff {core : Rect} {dbRows : List GridRow}
    {pixelInfo : Int → Int → PixelInfo} {pt : Point}
    (hgrid : examineRows core dbRows pixelInfo = .ok s.grid) (hsite : 0 < s.grid.siteWidth)
    (hstart : legalGridPt s.grid (s.node c) pt = some (x, y))
    (hwidth : 0 < s.grid.gridPaddedWidth s.padding (s.node c))
    (hheight : 0 < s.grid.gridHeight (s.node c)) :
    (∀ (Q : TopQueue (@BestFirst.farther (Int × Int))) (fuel : Nat),
      (limitPoints (s.searchLimits c x y)).length + 2 ≤ fuel →
      (s.nearestSearch c x y).Complete (s.searchNearestSite Q c x y fuel)) ↔
    s.ProbesInOrder c x y := by
  obtain ⟨-, hys, hne⟩ := examineRows_ok hgrid
  have hsorted : s.grid.rowYs.Pairwise (· < ·) := hys ▸ rowEdges_sorted _ _
  obtain ⟨hy, hyCount⟩ := legalGridPt_row hne hstart
  refine (BestFirst.Search.complete_iff_searchable
    (s.nearestSearch_graded hsite hsorted hne hy hyCount)
    fun p hp => mem_limitPoints hp).trans ?_
  -- the probes that fail are those that leave the row table
  unfold BestFirst.Search.Searchable ProbesInOrder
  refine or_congr Iff.rfl (and_congr ?_ (and_congr ?_ Iff.rfl))
  · exact not_congr (s.canBePlaced_eq_none hy hwidth hheight)
  · refine imp_congr Iff.rfl (forall_congr' fun p => forall_congr' fun hp => ?_)
    exact imp_congr (s.canBePlaced_eq_none (s.searchLimits_nonneg hp).2 hwidth hheight) Iff.rfl

end Search

end Opendp

/-! ### A group away from its cell -/

/-- The tall cell finds its place at the start. -/
theorem searchNearestSite_complete_tall :
    (tallOpendp.nearestSearch 0 0 0).Complete
      (tallOpendp.searchNearestSite (BestFirst.Search.queueFor (0, 0)) 0 0 0 14) :=
  (@Opendp.searchNearestSite_complete_iff tallOpendp 0 0 0 ⟨0, 0, 20, 30⟩
    [⟨0, 10, 10, false, false⟩, ⟨10, 10, 10, false, false⟩, ⟨20, 10, 10, false, false⟩]
    (fun _ _ => ⟨true, [(0, .R0)], none⟩) ⟨0, 0⟩ rfl (by decide) (by decide) (by decide)
    (by decide)).mpr (Or.inl (by decide)) _ 14 (by decide)

/-- One row of ten sites, the last five of a group. -/
def groupGrid : Grid where
  coreYMax := 10
  siteWidth := 10
  rowSiteCount := 10
  rowYs := [0, 10]
  uniformRowHeight := some 10
  pixelInfo := fun x _ => ⟨true, [(0, .R0)], if x < 5 then none else some 0⟩

def groupOpendp : Opendp where
  numNodes := 1
  node := fun _ => { raisedCell with group := some 0 }
  pixels := fun _ _ => none
  grid := groupGrid
  padding := ⟨0, 0, [], []⟩
  boundary := fun _ => ⟨0, 0, 10, 10⟩
  edges := fun _ => some []
  edgeSpacingTable := []
  region := fun _ => some ⟨50, 0, 100, 10⟩
  regions := [⟨50, 0, 99, 9⟩]
  groupBBox := fun _ => ⟨50, 0, 100, 10⟩
  maxDisplacementX := 500
  maxDisplacementY := 100
  disallowOneSiteGaps := false

/-- From a start point away from the group nothing is found, though the cell can be placed in it. -/
theorem not_searchNearestSite_complete :
    examineRows ⟨0, 0, 100, 10⟩ [⟨0, 10, 10, false, false⟩] groupGrid.pixelInfo = .ok groupGrid ∧
      legalGridPt groupGrid (groupOpendp.node 0) ⟨0, 0⟩ = some (0, 0) ∧
      groupOpendp.searchNearestSite (BestFirst.Search.queueFor (0, 0)) 0 0 0 14 = .notFound ∧
      (groupOpendp.searchLimits 0 0 0).has 5 0 = true ∧
      groupOpendp.canBePlaced 0 5 0 = some true :=
  ⟨rfl, by decide, by decide, by decide, by decide⟩

end OpenRoad.Dpl
