import OpenRoad.MplAnnealing

/-!
Notches of a floorplan of soft macros. The floorplan is cut into a grid at the sides of its macros;
macros are extended over the free cells around them, to fill dead space or to measure it.
-/

namespace OpenRoad.Mpl

open Macro

/-! ### Grids -/

/-- `insert` into an ordered set of numbers -/
def insertPoint (p : ℚ) : List ℚ → List ℚ
  | [] => [p]
  | q :: rest => if p < q then p :: q :: rest else if p = q then q :: rest else q :: insertPoint p rest

/-- The entry at an index, or zero outside of the list. -/
def gridAt (grid : List ℚ) : Int → ℚ
  | .ofNat i => grid.getD i 0
  | .negSucc _ => 0

/-- The numbers from `a` up to `b`, without `b`. -/
def intRange (a b : Int) : List Int := (List.range (b - a).toNat).map fun k => a + k

/-- `calSegmentLoc`: the grid intervals that the ends of the segment are in -/
def calSegmentLoc (segStart segEnd : ℚ) (grid : List ℚ) : Int × Int :=
  let ids := (List.range (grid.length - 1)).foldl (fun (ids : Int × Int) i =>
    (if gridAt grid i ≤ segStart ∧ gridAt grid (i + 1) > segStart then (i : Int) else ids.1,
      if gridAt grid i ≤ segEnd ∧ gridAt grid (i + 1) > segEnd then (i : Int) else ids.2)) (-1, -1)
  (ids.1, if ids.2 = -1 then grid.length - 1 else ids.2)

/-- The macro ids in the cells by row and column; a free cell has -1. -/
abbrev Cells := Int → Int → Int

/-- A range of rows and columns. -/
structure Window where
  xStart : Int
  xEnd : Int
  yStart : Int
  yEnd : Int

def Cells.fill (cells : Cells) (w : Window) (macroId : Nat) : Cells := fun j i =>
  if w.yStart ≤ j ∧ j < w.yEnd ∧ w.xStart ≤ i ∧ i < w.xEnd then macroId else cells j i

def Cells.isFree (cells : Cells) (w : Window) : Bool :=
  (intRange w.yStart w.yEnd).all fun j => (intRange w.xStart w.xEnd).all fun i => cells j i = -1

/-- The windows that are taken for a macro, up to the first that is not free: how many, and the cells
after that. -/
def extend (macroId : Nat) : List Window → Cells → Nat × Cells
  | [], cells => (0, cells)
  | w :: rest, cells =>
      if cells.isFree w then
        let (taken, cells) := extend macroId rest (cells.fill w macroId)
        (taken + 1, cells)
      else (0, cells)

section Extend

variable (macroId : Nat) (w : Window) (cells : Cells)

/-- The columns to the left. -/
def extendLeft : Nat × Cells :=
  extend macroId ((intRange 0 w.xStart).reverse.map fun i => { w with xStart := i, xEnd := i + 1 }) cells

/-- The rows above, up to `numY`. -/
def extendTop (numY : Int) : Nat × Cells :=
  extend macroId ((intRange w.yEnd numY).map fun j => { w with yStart := j, yEnd := j + 1 }) cells

/-- The columns to the right, up to `numX`. -/
def extendRight (numX : Int) : Nat × Cells :=
  extend macroId ((intRange w.xEnd numX).map fun i => { w with xStart := i, xEnd := i + 1 }) cells

/-- The rows below. -/
def extendDown : Nat × Cells :=
  extend macroId ((intRange 0 w.yStart).reverse.map fun j => { w with yStart := j, yEnd := j + 1 }) cells

end Extend

/-- The grid lines of some macros and of the outline. -/
def gridLines (outline : Rect) (macros : List SoftMacro) : List ℚ × List ℚ :=
  let lines := macros.foldl (fun (lines : List ℚ × List ℚ) m =>
    (insertPoint (m.x + m.width) (insertPoint m.x lines.1),
      insertPoint (m.y + m.height) (insertPoint m.y lines.2))) ([], [])
  (insertPoint outline.getWidth (insertPoint 0 lines.1),
    insertPoint outline.getHeight (insertPoint 0 lines.2))

/-- The cells of the grid that a macro covers. -/
def windowOf (lines : List ℚ × List ℚ) (m : SoftMacro) : Window :=
  let (xStart, xEnd) := calSegmentLoc m.x (m.x + m.width) lines.1
  let (yStart, yEnd) := calSegmentLoc m.y (m.y + m.height) lines.2
  { xStart, xEnd, yStart, yEnd }

/-! ### The annealer of soft macros -/

/-- What the annealer of soft macros is given besides. -/
structure SoftSetup extends Setup where
  rootX : ℚ
  rootY : ℚ
  rootWidth : ℚ
  rootHeight : ℚ
  blockages : List Rect
  boundaryWeight : ℚ
  macroBlockageWeight : ℚ
  notchWeight : ℚ
  notchHTh : ℚ
  notchVTh : ℚ

structure SACoreSoftMacro extends SimulatedAnnealingCore SoftMacro where
  boundaryPenalty : ℚ := 0
  notchPenalty : ℚ := 0
  macroBlockagePenalty : ℚ := 0
  preBoundaryPenalty : ℚ := 0
  preNotchPenalty : ℚ := 0
  preMacroBlockagePenalty : ℚ := 0

namespace SACoreSoftMacro

variable (P : SoftSetup)

def accTolerance : ℚ := 1 / 1000

/-- The floorplan does not fit the outline, by more than a tolerance. -/
def exceedsOutline (width height : ℚ) : Bool :=
  width > P.outline.getWidth * (1 + 1 / 1000) || height > P.outline.getHeight * (1 + 1 / 1000)

/-- A macro cluster that is close to a side of the outline is moved to it. -/
def alignMacro (adjustHTh adjustVTh : ℚ) (m : SoftMacro) : SoftMacro :=
  let ux := m.x + m.width
  let uy := m.y + m.height
  let m' :=
    if m.x ≤ adjustHTh then setX m 0
    else if P.outline.getWidth - ux ≤ adjustHTh then setX m (P.outline.getWidth - m.width)
    else m
  if m.y ≤ adjustVTh then setY m' 0
  else if P.outline.getHeight - uy ≤ adjustVTh then setY m' (P.outline.getHeight - m.height)
  else m'

/-- `alignMacroClusters`: the macros of a floorplan of the width and height after it -/
def alignMacroClusters (posSeq : List Nat) (width height : ℚ) (macros : Nat → SoftMacro) :
    Nat → SoftMacro :=
  if width > P.outline.getWidth || height > P.outline.getHeight then macros
  else
    let th := posSeq.foldl (fun (th : ℚ × ℚ) id =>
      let m := macros id
      if m.isMacroCluster then
        (min th.1 (m.width * (1 - accTolerance)), min th.2 (m.height * (1 - accTolerance)))
      else th) (P.notchHTh, P.notchVTh)
    let adjustHTh := min th.1 (P.outline.getHeight * (1 / 10))
    let adjustVTh := min th.2 (P.outline.getWidth * (1 / 10))
    posSeq.foldl (fun macros id =>
      if (macros id).isMacroCluster then
        Function.update macros id (alignMacro P adjustHTh adjustVTh (macros id))
      else macros) macros

/-- A macro is extended to the left, to the top, to the right and down, each time over the width and
height it has by then. -/
def fillMacro (lines : List ℚ × List ℚ) (st : (Nat → SoftMacro) × Cells) (macroId : Nat) :
    (Nat → SoftMacro) × Cells :=
  let m := st.1 macroId
  let numX : Int := lines.1.length - 1
  let numY : Int := lines.2.length - 1
  let w := windowOf lines m
  let (left, cells) := extendLeft macroId w st.2
  let w := { w with xStart := w.xStart - left }
  let (top, cells) := extendTop macroId w cells numY
  let w := { w with yEnd := w.yEnd + top }
  let (right, cells) := extendRight macroId w cells numX
  let w := { w with xEnd := w.xEnd + right }
  let (down, cells) := extendDown macroId w cells
  let w := { w with yStart := w.yStart - down }
  let m := m.setLocationF (gridAt lines.1 w.xStart) (gridAt lines.2 w.yStart)
  let m := m.setShapeF (gridAt lines.1 w.xEnd - gridAt lines.1 w.xStart)
    (gridAt lines.2 w.yEnd - gridAt lines.2 w.yStart)
  (Function.update st.1 macroId m, cells)

/-- `fillDeadSpace`: the macros of a floorplan of the width and height after it -/
def fillDeadSpace (posSeq : List Nat) (width height : ℚ) (macros : Nat → SoftMacro) :
    Nat → SoftMacro :=
  if exceedsOutline P width height then macros
  else
    let lines := gridLines P.outline
      ((posSeq.map macros).filter fun m => decide (m.getArea > 0))
    let ids := List.range posSeq.length
    let cells := ids.foldl (fun (cells : Cells) macroId =>
      let m := macros macroId
      if m.getArea ≤ 0 then cells else cells.fill (windowOf lines m) macroId) fun _ _ => -1
    let propagate := fun (isKind : SoftMacro → Bool) (st : (Nat → SoftMacro) × Cells) =>
      ids.foldl (fun st macroId =>
        let m := st.1 macroId
        if m.getArea ≤ 0 || !isKind m then st else fillMacro lines st macroId) st
    (propagate SoftMacro.isStdCellCluster (propagate SoftMacro.isMixedCluster (macros, cells))).1

/-- The notches around a macro, which is extended over its own width and height. -/
def addNotches (lines : List ℚ × List ℚ) (macros : Nat → SoftMacro) (st : ℚ × Cells) (macroId : Nat) :
    ℚ × Cells :=
  let m := macros macroId
  let numX : Int := lines.1.length - 1
  let numY : Int := lines.2.length - 1
  let w := windowOf lines m
  let (left, cells) := extendLeft macroId w st.2
  let (top, cells) := extendTop macroId w cells numY
  let (right, cells) := extendRight macroId w cells numX
  let (down, cells) := extendDown macroId w cells
  let notch := fun (size th length : ℚ) => if size ≤ th then size * length else 0
  let penalty := st.1 +
    notch (gridAt lines.1 w.xStart - gridAt lines.1 (w.xStart - left)) P.notchHTh m.height +
    notch (gridAt lines.1 (w.xEnd + right) - gridAt lines.1 w.xEnd) P.notchHTh m.height +
    notch (gridAt lines.2 w.yStart - gridAt lines.2 (w.yStart - down)) P.notchVTh m.width +
    notch (gridAt lines.2 (w.yEnd + top) - gridAt lines.2 w.yEnd) P.notchVTh m.width
  (penalty, cells)

/-- The notches of a floorplan, over all its macro clusters and mixed clusters. -/
def notches (size : Nat) (macros : Nat → SoftMacro) : ℚ :=
  let mask := fun m : SoftMacro => decide (m.getArea > 0) && (m.isMacroCluster || m.isMixedCluster)
  let ids := (List.range size).filter fun macroId => mask (macros macroId)
  let lines := gridLines P.outline (ids.map macros)
  let cells := ids.foldl (fun (cells : Cells) macroId =>
    cells.fill (windowOf lines (macros macroId)) macroId) fun _ _ => -1
  (ids.foldl (addNotches P lines macros) (0, cells)).1

/-- The notches after the macros have been aligned and extended. -/
def measuredNotches (sa : SACoreSoftMacro) : ℚ :=
  notches P sa.size (fillDeadSpace P sa.posSeq sa.width sa.height
    (alignMacroClusters P sa.posSeq sa.width sa.height sa.macros))

/-- `calNotchPenalty`: the macros are saved for the measure, and put back after it. -/
def calNotchPenalty (sa : SACoreSoftMacro) : SACoreSoftMacro :=
  let outlineArea := P.outline.getWidth * P.outline.getHeight
  if P.notchWeight ≤ 0 then { sa with notchPenalty := 0 }
  else if exceedsOutline P sa.width sa.height then
    { sa with notchPenalty := outlineArea / outlineArea }
  else
    { sa with
      preMacros := sa.macros
      notchPenalty := measuredNotches P sa / outlineArea }

end SACoreSoftMacro

end OpenRoad.Mpl

/-!
Perturbations of the annealers of soft and of hard macros, and the way back. Besides the actions on
the sequence pair, a soft macro is resized and all the hard macros are flipped.
-/

namespace OpenRoad.Mpl

open Macro SimulatedAnnealingCore

/-! ### Soft macros -/

namespace SACoreSoftMacro

variable (P : SoftSetup)

def calBoundaryPenalty (posSeq : List Nat) (macros : Nat → SoftMacro) : ℚ :=
  let totNumMacros := (posSeq.map fun id => (macros id).getNumMacro).sum
  if P.boundaryWeight ≤ 0 || totNumMacros = 0 then 0
  else
    let boundaryPenalty := (posSeq.map fun id =>
      let m := macros id
      let globalLx := m.x + P.outline.lx - P.rootX
      let globalLy := m.y + P.outline.ly - P.rootY
      let xDistFromRoot := min globalLx |P.rootWidth - (globalLx + m.width)|
      let yDistFromRoot := min globalLy |P.rootHeight - (globalLy + m.height)|
      min xDistFromRoot yDistFromRoot * m.getNumMacro).sum
    boundaryPenalty / totNumMacros

/-- The overlap of a macro with a blockage, by its macros and the share of their area. -/
def blockageOverlap (blockage : Rect) (m : SoftMacro) : ℚ :=
  let overlapWidth := min blockage.ux (m.x + m.width) - max blockage.lx m.x
  let overlapHeight := min blockage.uy (m.y + m.height) - max blockage.ly m.y
  if overlapWidth < 0 || overlapHeight < 0 then 0
  else
    match m.cluster with
    | none => 0
    | some cluster =>
        overlapWidth * overlapHeight * m.getNumMacro * (cluster.macroArea / cluster.area)

def calMacroBlockagePenalty (posSeq : List Nat) (macros : Nat → SoftMacro) : ℚ :=
  let totNumMacros := (posSeq.map fun id => (macros id).getNumMacro).sum
  if P.blockages.isEmpty || P.macroBlockageWeight ≤ 0 || totNumMacros = 0 then 0
  else
    let macroBlockagePenalty := (P.blockages.map fun blockage =>
      (posSeq.map fun id =>
        if (macros id).getNumMacro > 0 then blockageOverlap blockage (macros id) else 0).sum).sum
    macroBlockagePenalty / totNumMacros

variable (sa : SACoreSoftMacro)

def calPenalty : SACoreSoftMacro :=
  calNotchPenalty P { sa with
    toSimulatedAnnealingCore := sa.toSimulatedAnnealingCore.calPenalty P.toSetup
    boundaryPenalty := calBoundaryPenalty P sa.posSeq sa.macros
    macroBlockagePenalty := calMacroBlockagePenalty P sa.posSeq sa.macros }

def packFloorplan : SACoreSoftMacro :=
  { sa with toSimulatedAnnealingCore := sa.toSimulatedAnnealingCore.packFloorplan }

/-- The next side to the right of `ux` of a macro of the sequence, up to the outline. -/
def nextSide (sides : List ℚ) (u limit : ℚ) : ℚ :=
  sides.foldl (fun e side => if side > u ∧ side < e then side else e) limit

/-- The next side before `u`, down to `l`. -/
def prevSide (sides : List ℚ) (u l : ℚ) : ℚ :=
  sides.foldl (fun d side => if side < u ∧ side > d then side else d) l

/-- The macro that is resized, with its new shape. -/
def resized (c : Choice) (posSeq : List Nat) (macros : Nat → SoftMacro) : SoftMacro :=
  let m := macros c.idx
  let ux := m.x + m.width
  let uy := m.y + m.height
  let rights := posSeq.map fun id => (macros id).x + (macros id).width
  let tops := posSeq.map fun id => (macros id).y + (macros id).height
  if m.isMacroCluster then m.resizeRandomly c.interval c.draw
  else if ux ≥ P.outline.getWidth || uy ≥ P.outline.getHeight then m.resizeRandomly c.interval c.draw
  else if c.first < 4 / 10 then m.resizeRandomly c.interval c.draw
  else if c.option ≤ 1 / 4 then m.setWidth (nextSide rights ux P.outline.getWidth - m.x)
  else if c.option ≤ 1 / 2 then
    let side := prevSide rights ux m.x
    if side ≤ m.x then m else m.setWidth (side - m.x)
  else if c.option ≤ 3 / 4 then m.setHeight (nextSide tops uy P.outline.getHeight - m.y)
  else
    let side := prevSide tops uy m.y
    if side ≤ m.y then m else m.setHeight (side - m.y)

/-- `resizeOneCluster`; `none` is the error that the sequence is empty. -/
def resizeOneCluster (c : Choice) (core : SimulatedAnnealingCore SoftMacro) :
    Option (SimulatedAnnealingCore SoftMacro) :=
  if core.posSeq = [] then none
  else
    some { core with
      macroId := c.idx
      macros := Function.update core.macros c.idx (resized P c core.posSeq core.macros) }

/-- The penalties of soft macros that `restore` goes back to. -/
def backUpSoft : SACoreSoftMacro :=
  { sa with
    toSimulatedAnnealingCore := backUp sa.toSimulatedAnnealingCore
    preBoundaryPenalty := sa.boundaryPenalty
    preMacroBlockagePenalty := sa.macroBlockagePenalty
    preNotchPenalty := sa.notchPenalty }

def perturb (c : Choice) : Option SACoreSoftMacro :=
  if sa.size = 0 then some sa
  else
    let sa := sa.backUpSoft
    (act P.toSetup c sa.toSimulatedAnnealingCore (resizeOneCluster P c)).map fun core =>
      calPenalty P (packFloorplan { sa with toSimulatedAnnealingCore := core })

def restore : SACoreSoftMacro :=
  if sa.size = 0 then sa
  else
    let id := sa.macroId.toNat
    { sa with
      toSimulatedAnnealingCore := restoreWith sa.toSimulatedAnnealingCore
        (Function.update sa.macros id (sa.preMacros id))
      boundaryPenalty := sa.preBoundaryPenalty
      macroBlockagePenalty := sa.preMacroBlockagePenalty
      notchPenalty := sa.preNotchPenalty }

end SACoreSoftMacro

/-! ### Hard macros -/

namespace SACoreHardMacro

variable (P : Setup) (sa : SimulatedAnnealingCore HardMacro)

def flipAllMacros : SimulatedAnnealingCore HardMacro :=
  { sa with
    macros := sa.posSeq.foldl (fun macros id =>
      Function.update macros id ((macros id).flip false)) sa.macros }

def perturb (c : Choice) : Option (SimulatedAnnealingCore HardMacro) :=
  if sa.size = 0 then some sa
  else
    (act P c (backUp sa) fun sa => some (flipAllMacros sa)).map fun sa => sa.packFloorplan.calPenalty P

def restore : SimulatedAnnealingCore HardMacro :=
  if sa.size = 0 then sa else restoreWith sa sa.preMacros

end SACoreHardMacro

end OpenRoad.Mpl
