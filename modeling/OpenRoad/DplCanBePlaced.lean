import OpenRoad.DplLegalPt
import OpenRoad.DplCheckPlacement

/-!
Whether a cell can be placed at a grid point: the regions it would overlap, the pixels it would
cover, one-site gaps next to it, and the spacing of its edges. The region check converts the top of
the cell to a coordinate before any pixel is looked at, so that a cell that is three rows or higher
leaves the row table near its end.
-/

namespace OpenRoad.Dpl

open Db (Point Rect Orient Transform)

/-! ### Cells, regions and edges -/

/-- An edge of a master, with the index of its type. -/
structure MasterEdge where
  edgeType : Nat
  bbox : Rect

structure EdgeSpacingEntry where
  spc : Int
  isExact : Bool

/-- What a position is probed with. The boxes of `regions` include their upper bounds. -/
structure Opendp extends Network where
  pixels : Pixels
  grid : Grid
  padding : Padding
  /-- the placement boundary of each master -/
  boundary : Nat → Rect
  /-- the edges of each cell's master; a filler has none -/
  edges : Nat → Option (List MasterEdge)
  edgeSpacingTable : List (List EdgeSpacingEntry)
  /-- the region of each cell -/
  region : Nat → Option Rect
  regions : List Rect
  groupBBox : Nat → Rect
  maxDisplacementX : Int
  maxDisplacementY : Int
  disallowOneSiteGaps : Bool

namespace Opendp

variable (s : Opendp)

/-- The cell of `gridPixel`, if the pixel is there. -/
def pixelCell (x y : Int) : Option Nat := if s.grid.inGrid x y then s.pixels x y else none

/-! ### Edge spacing -/

def transformEdgeRect (edgeRect : Rect) (c : Nat) (x y : Int) (orient : Orient) : Rect :=
  let bbox := Transform.applyRect ⟨orient, ⟨0, 0⟩⟩ (s.boundary (s.node c).master.id)
  Transform.applyRect ⟨orient, ⟨x - bbox.xMin, y - bbox.yMin⟩⟩ edgeRect

/-- `Rect::getDir` -/
def getDir (r : Rect) : Int :=
  if r.xMax - r.xMin < r.yMax - r.yMin then 0
  else if r.xMax - r.xMin > r.yMax - r.yMin then 1
  else -1

/-- The edge bloated by the spacing, across its direction. -/
def getQueryRect (edgeBox : Rect) (spc : Int) : Rect :=
  if getDir edgeBox = 0 then ⟨edgeBox.xMin - spc, edgeBox.yMin, edgeBox.xMax + spc, edgeBox.yMax⟩
  else ⟨edgeBox.xMin, edgeBox.yMin - spc, edgeBox.xMax, edgeBox.yMax + spc⟩

def edgeSpacingEntry (type1 type2 : Nat) : EdgeSpacingEntry :=
  (s.edgeSpacingTable.getD type1 []).getD type2 ⟨0, false⟩

def getMaxSpacing (edgeType : Nat) : Int :=
  match (s.edgeSpacingTable.getD edgeType []).map EdgeSpacingEntry.spc with
  | [] => 0
  | spc :: spcs => spcs.foldl max spc

/-- Two edges, placed, are far enough from each other. -/
def edgesSpaced (edge1 edge2 : MasterEdge) (edge1Box edge2Box queryRect : Rect) : Bool :=
  let entry := s.edgeSpacingEntry edge1.edgeType edge2.edgeType
  if getDir edge1Box ≠ getDir edge2Box then true
  else if !(edge2Box.xMax > queryRect.xMin && edge2Box.xMin < queryRect.xMax &&
      edge2Box.yMax > queryRect.yMin && edge2Box.yMin < queryRect.yMax) then true
  else
    let dist := if getDir edge1Box = 0
      then max edge1Box.xMax edge2Box.xMax - min edge1Box.xMin edge2Box.xMin
      else max edge1Box.yMax edge2Box.yMax - min edge1Box.yMin edge2Box.yMin
    if entry.isExact then dist ≠ entry.spc else entry.spc ≤ dist

/-- `checkEdgeSpacing`. A neighbour is met in each of its pixels with the same outcome. -/
def checkEdgeSpacing (c : Nat) (x y : Int) (orient : Orient) : Option Bool :=
  if s.edgeSpacingTable.isEmpty then some true
  else match s.edges c with
  | none => some true
  | some edges =>
      (s.grid.gridYToDbu y).map fun yReal =>
        let xReal := s.grid.gridToDbu x
        edges.all fun edge1 =>
          let maxSpc := s.getMaxSpacing edge1.edgeType + 1
          let edge1Box := s.transformEdgeRect edge1.bbox c xReal yReal orient
          let queryRect := getQueryRect edge1Box maxSpc
          let xMin := s.grid.gridX queryRect.xMin
          let xMax := s.grid.gridEndX queryRect.xMax
          let yMin := s.grid.gridEndY queryRect.yMin - 1
          let yMax := s.grid.gridEndY queryRect.yMax
          (Grid.interval yMin (yMax + 1)).all fun y1 =>
            (Grid.interval xMin (xMax + 1)).all fun x1 =>
              match s.pixelCell x1 y1 with
              | none => true
              | some cell2 =>
                  if cell2 = c then true
                  else match s.edges cell2 with
                  | none => true
                  | some edges2 =>
                      edges2.all fun edge2 =>
                        let edge2Box := s.transformEdgeRect edge2.bbox cell2 (s.node cell2).left
                          (s.node cell2).bottom (s.node cell2).orient
                        s.edgesSpaced edge1 edge2 edge1Box edge2Box queryRect

/-! ### Regions and pixels -/

/-- `checkRegionOverlap`; `none` where `gridYToDbu` leaves the row table. -/
def checkRegionOverlap (c : Nat) (x y xEnd yEnd : Int) : Option Bool :=
  (s.grid.gridYToDbu y).bind fun yDbu =>
    (s.grid.gridYToDbu yEnd).map fun yEndDbu =>
      let queryBox : Rect :=
        ⟨s.grid.gridToDbu x, yDbu, s.grid.gridToDbu xEnd - 1, yEndDbu - 1⟩
      let result := s.regions.filter fun box =>
        box.xMin ≤ queryBox.xMax && queryBox.xMin ≤ box.xMax &&
          box.yMin ≤ queryBox.yMax && queryBox.yMin ≤ box.yMax
      if (s.region c).isSome then
        match result with
        | [box] => box.xMin ≤ queryBox.xMin && queryBox.xMax ≤ box.xMax &&
            box.yMin ≤ queryBox.yMin && queryBox.yMax ≤ box.yMax
        | _ => false
      else result.isEmpty

/-- The pixel is free, valid, of the group of the cell, and in the first row of its site. -/
def pixelFree (c : Nat) (x1 y1 : Int) (firstRow : Bool) : Bool :=
  let cell := s.node c
  let info := s.grid.pixelInfo x1 y1
  !(!s.grid.inGrid x1 y1 || (s.pixels x1 y1).isSome || !info.isValid ||
    (cell.group.isSome && info.group ≠ cell.group) || (cell.group.isNone && info.group.isSome) ||
    (firstRow && (info.sites.lookup cell.master.site).isNone))

def isAbutted (x y : Int) : Bool := !s.grid.inGrid x y || (s.pixels x y).isSome

def cellAtSite (x y : Int) : Bool := s.grid.inGrid x y && (s.pixels x y).isSome

/-- No gap of one site to the left or to the right, in the rows of the cell and next to it. -/
def noOneSiteGaps (x y xEnd yEnd : Int) : Bool :=
  let xBegin := max 0 (x - 1)
  let yBegin := max 0 (y - 1)
  let xFinish := min xEnd (s.grid.rowSiteCount - 1)
  let yFinish := min yEnd (s.grid.rowCount - 1)
  (Grid.interval yBegin (yFinish + 1)).all fun y =>
    !(!s.isAbutted xBegin y && s.cellAtSite (xBegin - 1) y) &&
      !(!s.isAbutted xFinish y && s.cellAtSite (xFinish + 1) y)

/-- The loop of `checkPixels` over the rows of the cell. -/
def pixelsFree (c : Nat) (x y xEnd yEnd : Int) : Bool :=
  (Grid.interval y yEnd).all fun y1 =>
    (Grid.interval x xEnd).all (fun x1 => s.pixelFree c x1 y1 (y1 = y)) &&
      (!s.disallowOneSiteGaps || s.noOneSiteGaps x y xEnd yEnd)

/-- `checkPixels`; `none` where a table is left. -/
def checkPixels (c : Nat) (x y xEnd yEnd : Int) : Option Bool :=
  if s.grid.rowSiteCount < xEnd then some false
  else (s.checkRegionOverlap c x y xEnd yEnd).bind fun inRegion =>
    if !inRegion then some false
    else if !s.pixelsFree c x y xEnd yEnd then some false
    else if !s.grid.inGrid x y then none
    else ((s.grid.pixelInfo x y).sites.lookup (s.node c).master.site).bind fun orient =>
      s.checkEdgeSpacing c x y orient

def canBePlaced (c : Nat) (binX binY : Int) : Option Bool :=
  if s.grid.rowCount ≤ binY then some false
  else
    let xEnd := binX + s.grid.gridPaddedWidth s.padding (s.node c)
    let yEnd := binY + s.grid.gridHeight (s.node c)
    s.checkPixels c binX binY xEnd yEnd

end Opendp

/-! ### The limits of the search -/

namespace Grid

variable (G : Grid)

/-- `gridWithin`: the columns and rows inside a rectangle. -/
def gridWithin (rect : Rect) : GridRect where
  xlo := divCeil rect.xMin G.siteWidth
  ylo := G.gridEndY rect.yMin
  xhi := divFloor rect.xMax G.siteWidth
  yhi := G.gridSnapDownY rect.yMax

end Grid

/-- `GridRect::closestPtInside` -/
def GridRect.closestPtInside (r : GridRect) (x y : Int) : Int × Int :=
  (min (max x r.xlo) r.xhi, min (max y r.ylo) r.yhi)

/-- The bounds of a search, all of them included. -/
structure SearchLimits where
  xMin : Int
  xMax : Int
  yMin : Int
  yMax : Int

namespace SearchLimits

variable (L : SearchLimits)

/-- A point that the search may put into its queue. -/
def has (x y : Int) : Bool := L.xMin ≤ x && x ≤ L.xMax && L.yMin ≤ y && y ≤ L.yMax

@[simp] theorem has_iff {x y : Int} :
    L.has x y = true ↔ L.xMin ≤ x ∧ x ≤ L.xMax ∧ L.yMin ≤ y ∧ y ≤ L.yMax := by
  simp [has, and_assoc]

end SearchLimits

namespace Opendp

variable (s : Opendp)

/-- The limits of `searchNearestSite` from a start point. -/
def searchLimits (c : Nat) (x y : Int) : SearchLimits :=
  let lo := (x - s.maxDisplacementX, y - s.maxDisplacementY)
  let hi := (x + s.maxDisplacementX, y + s.maxDisplacementY)
  let (lo, hi) := match (s.node c).group with
    | none => (lo, hi)
    | some group =>
        let gridBoundary := s.grid.gridWithin (s.groupBBox group)
        (gridBoundary.closestPtInside lo.1 lo.2, gridBoundary.closestPtInside hi.1 hi.2)
  { xMin := max 0 lo.1
    yMin := max 0 lo.2
    xMax := min s.grid.rowSiteCount hi.1
    yMax := min s.grid.rowCount hi.2 }

theorem searchLimits_nonneg {c : Nat} {x₀ y₀ x y : Int}
    (h : (s.searchLimits c x₀ y₀).has x y = true) : 0 ≤ x ∧ 0 ≤ y := by
  obtain ⟨hx, -, hy, -⟩ := (SearchLimits.has_iff _).mp h
  exact ⟨(le_max_left _ _).trans hx, (le_max_left _ _).trans hy⟩

end Opendp

/-! ### Probing stays in the tables -/

namespace Grid

variable (G : Grid)

/-- `gridYToDbu` is defined up to one entry past the end of the table. -/
theorem gridYToDbu_isSome {y : Int} :
    (G.gridYToDbu y).isSome = true ↔ 0 ≤ y ∧ y ≤ G.rowYs.length := by
  unfold gridYToDbu
  split_ifs with hend hy
  · exact iff_of_true rfl (by omega)
  · rw [Option.isSome_iff_ne_none, ne_eq, List.getElem?_eq_none_iff]
    omega
  · exact iff_of_false Bool.false_ne_true (by omega)

theorem inGrid_iff {x y : Int} :
    G.inGrid x y = true ↔ 0 ≤ x ∧ x < G.rowSiteCount ∧ 0 ≤ y ∧ y < G.rowCount := by
  simp [inGrid, and_assoc]

end Grid

namespace Opendp

variable (s : Opendp)

theorem checkEdgeSpacing_isSome {x y : Int} (c : Nat) (orient : Orient)
    (hy : (s.grid.gridYToDbu y).isSome = true) :
    (s.checkEdgeSpacing c x y orient).isSome = true := by
  unfold checkEdgeSpacing
  split
  · rfl
  · split
    · rfl
    · rw [Option.isSome_map]
      exact hy

theorem checkRegionOverlap_isSome {c : Nat} {x y xEnd yEnd : Int} :
    (s.checkRegionOverlap c x y xEnd yEnd).isSome = true ↔
      (s.grid.gridYToDbu y).isSome = true ∧ (s.grid.gridYToDbu yEnd).isSome = true := by
  unfold checkRegionOverlap
  cases s.grid.gridYToDbu y <;> cases s.grid.gridYToDbu yEnd <;> simp

/-- The first pixel of a cell that passes the loops is in the grid and has the site of the cell. -/
theorem pixelsFree_first {c : Nat} {x y xEnd yEnd : Int} (hx : x < xEnd) (hy : y < yEnd)
    (h : s.pixelsFree c x y xEnd yEnd = true) :
    s.grid.inGrid x y = true ∧
      ((s.grid.pixelInfo x y).sites.lookup (s.node c).master.site).isSome = true := by
  have hrow := List.all_eq_true.mp h y (Grid.mem_interval.mpr ⟨le_rfl, hy⟩)
  have hpixel := List.all_eq_true.mp (Bool.and_eq_true_iff.mp hrow).1 x
    (Grid.mem_interval.mpr ⟨le_rfl, hx⟩)
  simp only [pixelFree, decide_true, Bool.true_and, Bool.not_or, Bool.and_eq_true,
    Bool.not_not] at hpixel
  refine ⟨hpixel.1.1.1.1.1, ?_⟩
  simpa using hpixel.2

/-- Once the region check has a result, so has the rest of `checkPixels`. -/
theorem checkPixels_isSome {c : Nat} {x y xEnd yEnd : Int} (hx : x < xEnd) (hy : y < yEnd) :
    (s.checkPixels c x y xEnd yEnd).isSome = true ↔
      s.grid.rowSiteCount < xEnd ∨ (s.checkRegionOverlap c x y xEnd yEnd).isSome = true := by
  unfold checkPixels
  by_cases hcount : s.grid.rowSiteCount < xEnd
  · rw [if_pos hcount]
    exact iff_of_true rfl (Or.inl hcount)
  · rw [if_neg hcount, or_iff_right hcount]
    cases hregion : s.checkRegionOverlap c x y xEnd yEnd with
    | none => exact iff_of_false Bool.false_ne_true Bool.false_ne_true
    | some inRegion =>
        have hyDbu := (s.checkRegionOverlap_isSome.mp (Option.isSome_of_eq_some hregion)).1
        refine iff_of_true ?_ rfl
        rw [Option.bind_some]
        split_ifs with hnot hfree hgrid
        · rfl
        · rfl
        · have hfirst := s.pixelsFree_first hx hy (by simpa using hfree)
          rw [hfirst.1] at hgrid
          cases hgrid
        · have hfirst := s.pixelsFree_first hx hy (by simpa using hfree)
          obtain ⟨orient, horient⟩ := Option.isSome_iff_exists.mp hfirst.2
          rw [horient, Option.bind_some]
          exact s.checkEdgeSpacing_isSome c orient hyDbu

/-- The cell starts in a row and ends before the last site, two rows or more above the last row. -/
def LeavesTable (c : Nat) (x y : Int) : Prop :=
  y < s.grid.rowCount ∧
    x + s.grid.gridPaddedWidth s.padding (s.node c) ≤ s.grid.rowSiteCount ∧
    s.grid.rowCount + 1 < y + s.grid.gridHeight (s.node c)

theorem canBePlaced_eq_none {c : Nat} {x y : Int} (hy : 0 ≤ y)
    (hwidth : 0 < s.grid.gridPaddedWidth s.padding (s.node c))
    (hheight : 0 < s.grid.gridHeight (s.node c)) :
    s.canBePlaced c x y = none ↔ s.LeavesTable c x y := by
  unfold canBePlaced LeavesTable
  rw [← Option.not_isSome_iff_eq_none]
  split_ifs with hrow
  · exact iff_of_false (fun h => h rfl) (by omega)
  · rw [s.checkPixels_isSome (by omega) (by omega), s.checkRegionOverlap_isSome,
      Grid.gridYToDbu_isSome, Grid.gridYToDbu_isSome]
    unfold Grid.rowCount at hrow ⊢
    omega

/-- At a point within the limits of the search, `canBePlaced` returns a boolean exactly if it does
not leave the row table. -/
theorem canBePlaced_isSome_iff {c : Nat} {x₀ y₀ x y : Int}
    (hlimits : (s.searchLimits c x₀ y₀).has x y = true)
    (hwidth : 0 < s.grid.gridPaddedWidth s.padding (s.node c))
    (hheight : 0 < s.grid.gridHeight (s.node c)) :
    (s.canBePlaced c x y).isSome = true ↔ ¬s.LeavesTable c x y := by
  rw [← s.canBePlaced_eq_none (s.searchLimits_nonneg hlimits).2 hwidth hheight,
    ← Option.not_isSome_iff_eq_none, not_not]

end Opendp

/-! ### A cell of three rows -/

/-- Three rows of two sites, and a cell of one site and three rows. -/
def tallGrid : Grid where
  coreYMax := 30
  siteWidth := 10
  rowSiteCount := 2
  rowYs := [0, 10, 20, 30]
  uniformRowHeight := some 10
  pixelInfo := fun _ _ => ⟨true, [(0, .R0)], none⟩

def tallCell : Node :=
  ⟨0, ⟨0, .CORE, [], 0, 10, none⟩, ⟨0, 0⟩, ⟨.R0, ⟨0, 0⟩⟩, 0, 0, 10, 30, .R0, false, false, false, none⟩

def tallOpendp : Opendp where
  numNodes := 1
  node := fun _ => tallCell
  pixels := fun _ _ => none
  grid := tallGrid
  padding := ⟨0, 0, [], []⟩
  boundary := fun _ => ⟨0, 0, 10, 30⟩
  edges := fun _ => some []
  edgeSpacingTable := []
  region := fun _ => none
  regions := []
  groupBBox := fun _ => ⟨0, 0, 0, 0⟩
  maxDisplacementX := 500
  maxDisplacementY := 100
  disallowOneSiteGaps := false

/-- In the lowest row the cell can be probed. -/
theorem canBePlaced_isSome_tall : (tallOpendp.canBePlaced 0 0 0).isSome = true :=
  (@Opendp.canBePlaced_isSome_iff tallOpendp 0 0 0 0 0 (by decide) (by decide) (by decide)).mpr fun h => absurd h.2.2 (by decide)

/-- In the top row its upper end is two entries past the table. -/
theorem not_canBePlaced_isSome :
    cellFitsInCore ⟨0, 0, 20, 30⟩ tallGrid ⟨0, 0, [], []⟩ tallCell = true ∧
      (tallOpendp.searchLimits 0 0 0).has 0 2 = true ∧
      tallOpendp.canBePlaced 0 0 2 = none := by
  decide

end OpenRoad.Dpl
