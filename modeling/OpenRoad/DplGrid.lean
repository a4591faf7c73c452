import OpenRoad.DbGeometry
import Mathlib.Data.List.Range
import Mathlib.Logic.Function.Basic

/-!
The grid of the detailed placer: cells, padding, and the pixels that record which cell occupies a
site. Coordinates in database units are relative to the lower left corner of the core; a pixel is
named by its column and row.
-/

namespace OpenRoad.Dpl

open Db (Point Rect Orient Transform)

/-! ### Masters, cells and padding -/

/-- `dbMasterType` -/
inductive DbMasterType where
  | COVER | COVER_BUMP | RING | BLOCK | BLOCK_BLACKBOX | BLOCK_SOFT | PAD | PAD_INPUT | PAD_OUTPUT
  | PAD_INOUT | PAD_POWER | PAD_SPACER | PAD_AREAIO | CORE | CORE_FEEDTHRU | CORE_TIEHIGH
  | CORE_TIELOW | CORE_SPACER | CORE_ANTENNACELL | CORE_WELLTAP | ENDCAP | ENDCAP_PRE | ENDCAP_POST
  | ENDCAP_TOPLEFT | ENDCAP_TOPRIGHT | ENDCAP_BOTTOMLEFT | ENDCAP_BOTTOMRIGHT
  | ENDCAP_LEF58_BOTTOMEDGE | ENDCAP_LEF58_TOPEDGE | ENDCAP_LEF58_LEFTEDGE | ENDCAP_LEF58_RIGHTEDGE
  | ENDCAP_LEF58_RIGHTBOTTOMEDGE | ENDCAP_LEF58_LEFTBOTTOMEDGE | ENDCAP_LEF58_RIGHTTOPEDGE
  | ENDCAP_LEF58_LEFTTOPEDGE | ENDCAP_LEF58_RIGHTBOTTOMCORNER | ENDCAP_LEF58_LEFTBOTTOMCORNER
  | ENDCAP_LEF58_RIGHTTOPCORNER | ENDCAP_LEF58_LEFTTOPCORNER
  deriving DecidableEq

/-- What the placer reads of a `dbMaster`. The obstructions are the boxes on layers of type
`OVERLAP`. -/
structure DbMaster where
  id : Nat
  type : DbMasterType
  obstructions : List Rect
  site : Nat
  siteWidth : Int
  rowPatternSize : Option Nat

/-- A `Node` of type `CELL` with its instance. The location and the transform are those of the
instance in the database, relative to the core. -/
structure Node where
  inst : Nat
  master : DbMaster
  location : Point
  transform : Transform
  left : Int
  bottom : Int
  width : Int
  height : Int
  orient : Orient
  fixed : Bool
  placed : Bool
  hold : Bool
  group : Option Nat

def Node.isBlock (cell : Node) : Bool := cell.master.type = .BLOCK

/-- `Padding`: sites to the left and to the right, global, of masters and of instances. -/
structure Padding where
  padLeft : Int
  padRight : Int
  masterPadding : List (Nat × (Int × Int))
  instPadding : List (Nat × (Int × Int))

namespace Padding

def havePadding (P : Padding) : Bool :=
  0 < P.padLeft || 0 < P.padRight || !P.masterPadding.isEmpty || !P.instPadding.isEmpty

def isPaddedType (cell : Node) : Bool :=
  match cell.master.type with
  | .CORE | .CORE_ANTENNACELL | .CORE_FEEDTHRU | .CORE_TIEHIGH | .CORE_TIELOW | .CORE_WELLTAP
  | .ENDCAP | .ENDCAP_PRE | .ENDCAP_POST | .ENDCAP_LEF58_RIGHTEDGE | .ENDCAP_LEF58_LEFTEDGE => true
  | _ => false

/-- The padding of an instance: its own, that of its master, or the global one. -/
def pads (P : Padding) (cell : Node) : Int × Int :=
  if isPaddedType cell then
    match P.instPadding.lookup cell.inst with
    | some pads => pads
    | none =>
        match P.masterPadding.lookup cell.master.id with
        | some pads => pads
        | none => (P.padLeft, P.padRight)
  else (0, 0)

def padLeftOf (P : Padding) (cell : Node) : Int := (P.pads cell).1

def padRightOf (P : Padding) (cell : Node) : Int := (P.pads cell).2

/-- `paddedWidth`; the sites of the padding are those of the cell's master. -/
def paddedWidth (P : Padding) (cell : Node) : Int :=
  cell.width + (P.padLeftOf cell + P.padRightOf cell) * cell.master.siteWidth

end Padding

/-! ### The grid -/

/-- Division with the quotient rounded up, for a positive divisor. -/
def divCeil (dividend divisor : Int) : Int := -((-dividend) / divisor)

/-- The fixed part of a pixel. -/
structure PixelInfo where
  isValid : Bool
  sites : List (Nat × Orient)
  group : Option Nat

/-- The fixed part of a grid. `rowYs` holds the bottoms of the rows in increasing order and the top
of the last one. -/
structure Grid where
  coreYMax : Int
  siteWidth : Int
  rowSiteCount : Int
  rowYs : List Int
  uniformRowHeight : Option Int
  pixelInfo : Int → Int → PixelInfo

/-- Columns `xlo` to `xhi` and rows `ylo` to `yhi`, the upper bounds excluded. -/
structure GridRect where
  xlo : Int
  ylo : Int
  xhi : Int
  yhi : Int
  deriving DecidableEq

/-- Which cell occupies a pixel: `pixel->cell`, by column and row. -/
abbrev Pixels := Int → Int → Option Nat

namespace Grid

variable (G : Grid)

def rowCount : Int := G.rowYs.length - 1

/-- `gridPixel` is not null. -/
def inGrid (x y : Int) : Bool := 0 ≤ x && x < G.rowSiteCount && 0 ≤ y && y < G.rowCount

def gridToDbu (x : Int) : Int := x * G.siteWidth

def gridX (x : Int) : Int := x.tdiv G.siteWidth

def gridEndX (x : Int) : Int := divCeil x G.siteWidth

/-- The row whose bottom is the last one at or below `y`: `std::upper_bound` less one. -/
def gridSnapDownY (y : Int) : Int :=
  let index := (G.rowYs.takeWhile (· ≤ y)).length
  if index = 0 then 0 else index - 1

/-- The first row whose bottom is at or above `y`: `std::lower_bound`. -/
def gridEndY (y : Int) : Int := (G.rowYs.takeWhile (· < y)).length

/-- `row_index_to_y_dbu_.at(y)`, or the top of the core after the last entry. -/
def gridYToDbu (y : Int) : Option Int :=
  if y = G.rowYs.length then some G.coreYMax
  else if 0 ≤ y then G.rowYs[y.toNat]? else none

/-- The row whose bottom is nearest to `y`, the upper one of two. -/
def gridRoundY (y : Int) : Int :=
  let gridY := G.gridSnapDownY y
  if gridY < G.rowYs.length - 1 then
    let below := G.rowYs.getD gridY.toNat 0
    let above := G.rowYs.getD (gridY + 1).toNat 0
    if (above - y).natAbs ≤ (below - y).natAbs then gridY + 1 else gridY
  else gridY

/-- `gridHeight`: the rows a cell is high. -/
def gridHeight (cell : Node) : Int :=
  match G.uniformRowHeight with
  | some rowHeight => max 1 (divCeil cell.height rowHeight)
  | none =>
      match cell.master.rowPatternSize with
      | none => 1
      | some size => size

def gridPaddedWidth (P : Padding) (cell : Node) : Int :=
  divCeil (P.paddedWidth cell) G.siteWidth

def gridPaddedX (P : Padding) (cell : Node) : Int :=
  G.gridX (cell.left - G.gridToDbu (P.padLeftOf cell))

def gridPaddedEndX (P : Padding) (cell : Node) : Int :=
  divCeil (cell.left + cell.width + G.gridToDbu (P.padRightOf cell)) G.siteWidth

def gridCovering (rect : Rect) : GridRect where
  xlo := G.gridX rect.xMin
  ylo := G.gridSnapDownY rect.yMin
  xhi := G.gridEndX rect.xMax
  yhi := G.gridEndY rect.yMax

def gridCoveringCell (cell : Node) : GridRect where
  xlo := G.gridX cell.left
  ylo := G.gridSnapDownY cell.bottom
  xhi := divCeil (cell.left + cell.width) G.siteWidth
  yhi := G.gridEndY (cell.bottom + cell.height)

def gridCoveringPadded (P : Padding) (cell : Node) : GridRect where
  xlo := G.gridPaddedX P cell
  ylo := G.gridSnapDownY cell.bottom
  xhi := G.gridPaddedEndX P cell
  yhi := G.gridEndY (cell.bottom + cell.height)

/-! ### Loops over pixels -/

/-- The integers from `lo` up to `hi`, `hi` excluded. -/
def interval (lo hi : Int) : List Int := (List.range (hi - lo).toNat).map fun k : Nat => lo + k

@[simp] theorem mem_interval {lo hi x : Int} : x ∈ interval lo hi ↔ lo ≤ x ∧ x < hi := by
  unfold interval
  rw [List.mem_map]
  constructor
  · rintro ⟨k, hk, rfl⟩
    rw [List.mem_range] at hk
    omega
  · rintro ⟨hlo, hhi⟩
    exact ⟨(x - lo).toNat, by rw [List.mem_range]; omega, by omega⟩

/-- The pixels of a rectangle that are in the grid, column by column. -/
def rectPixels (r : GridRect) : List (Int × Int) :=
  (interval r.xlo r.xhi).flatMap fun x =>
    ((interval r.ylo r.yhi).filter fun y => G.inGrid x y).map fun y => (x, y)

/-- `visitCellPixels`: the pixels a cell covers. Obstructions replace the outline of the cell. -/
def cellPixels (P : Padding) (cell : Node) (padded : Bool) : List (Int × Int) :=
  if cell.master.obstructions ≠ [] then
    cell.master.obstructions.flatMap fun rect =>
      G.rectPixels (G.gridCovering (cell.transform.applyRect rect))
  else if padded then G.rectPixels (G.gridCoveringPadded P cell)
  else G.rectPixels (G.gridCoveringCell cell)

end Grid

namespace Pixels

/-- `pixel->cell = cell` -/
def set (pixels : Pixels) (x y : Int) (cell : Option Nat) : Pixels :=
  fun x' y' => if x' = x ∧ y' = y then cell else pixels x' y'

@[simp] theorem set_self (pixels : Pixels) (x y : Int) (cell : Option Nat) :
    pixels.set x y cell x y = cell := if_pos ⟨rfl, rfl⟩

theorem set_of_ne (pixels : Pixels) {x y x' y' : Int} (cell : Option Nat)
    (h : (x', y') ≠ (x, y)) : pixels.set x y cell x' y' = pixels x' y' :=
  if_neg fun heq => h (Prod.ext heq.1 heq.2)

end Pixels

end OpenRoad.Dpl
