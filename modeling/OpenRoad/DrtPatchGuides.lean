import OpenRoad.DrtGCellPattern
import OpenRoad.DrtPinGCells

/-!
Patching the guides of a net to one of its pins. The gcell with the most suitable access points is
chosen; the guide closest to it is extended along its layer, and guides are added from its anchor to
the gcell and up or down to the layer of the access points.
-/

namespace OpenRoad.Drt

open Db (Point Rect DbTechLayerDir)
open MostFrequent (NearestTally)

/-- `operator<` of `Point3D` -/
instance : LinearOrder Point3D where
  le := Point3D.le
  le_refl p := by
    unfold Point3D.le
    omega
  le_trans p q r := IsTrans.trans p q r
  le_antisymm p q hpq hqp := by
    obtain ⟨px, py, pz⟩ := p
    obtain ⟨qx, qy, qz⟩ := q
    change Point3D.le _ _ at hpq hqp
    unfold Point3D.le at hpq hqp
    rw [Point3D.mk.injEq]
    dsimp only at hpq hqp
    omega
  le_total p q := Std.Total.total p q
  toDecidableLE := inferInstanceAs (DecidableRel Point3D.le)
  toDecidableEq := inferInstance

/-! ### The gcells -/

/-- What is asked of the design: the die and the gcell patterns of `frBlock`, the directions of the
layers of the technology. -/
structure FrDesign where
  dieBox : Rect
  xgp : FrGCellPattern
  ygp : FrGCellPattern
  getDir : Int → DbTechLayerDir

namespace FrGCellPattern

/-- An index is kept within the pattern. -/
def clampIdx (gp : FrGCellPattern) (idx : Int) : Int :=
  let idx := if idx < 0 then 0 else idx
  if gp.count ≤ idx then gp.count - 1 else idx

/-- The index of a coordinate along the axis. -/
def getIdx (gp : FrGCellPattern) (c : Int) : Int :=
  gp.clampIdx ((c - gp.startCoord).tdiv gp.spacing)

/-- The low edge of a gcell: that of the die for the first one. -/
def lowEdge (gp : FrGCellPattern) (dieLow idx : Int) : Int :=
  if idx = 0 then dieLow else gp.spacing * idx + gp.startCoord

/-- The high edge of a gcell: that of the die for the last one. -/
def highEdge (gp : FrGCellPattern) (dieHigh idx : Int) : Int :=
  if idx = gp.count - 1 then dieHigh else gp.spacing * (idx + 1) + gp.startCoord

end FrGCellPattern

namespace FrDesign

variable (D : FrDesign)

def isHorizontalLayer (layerNum : Int) : Bool := D.getDir layerNum = .HORIZONTAL
def isVerticalLayer (layerNum : Int) : Bool := D.getDir layerNum = .VERTICAL

def getGCellSizeHorizontal : Int := D.xgp.spacing
def getGCellSizeVertical : Int := D.ygp.spacing

def getGCellIdx (pt : Point) : Point := ⟨D.xgp.getIdx pt.x, D.ygp.getIdx pt.y⟩

def isValidGCellIdx (idx : Point) : Bool :=
  0 ≤ idx.x && idx.x < D.xgp.count && 0 ≤ idx.y && idx.y < D.ygp.count

def getGCellBox (idx : Point) : Rect :=
  let x := D.xgp.clampIdx idx.x
  let y := D.ygp.clampIdx idx.y
  Rect.init (D.xgp.lowEdge D.dieBox.xMin x) (D.ygp.lowEdge D.dieBox.yMin y)
    (D.xgp.highEdge D.dieBox.xMax x) (D.ygp.highEdge D.dieBox.yMax y)

def getGCellCenter (idx : Point) : Point :=
  ⟨(D.xgp.lowEdge D.dieBox.xMin idx.x + D.xgp.highEdge D.dieBox.xMax idx.x).tdiv 2,
    (D.ygp.lowEdge D.dieBox.yMin idx.y + D.ygp.highEdge D.dieBox.yMax idx.y).tdiv 2⟩

end FrDesign

/-! ### The pin -/

/-- `frAccessPoint` -/
structure FrAccessPoint where
  point : Point
  layerNum : Int

/-- The pin object: each of its pins has the lists of access points of its pin accesses. -/
inductive FrPinObject where
  | instTerm (noRotationTransform : Db.Transform) (pinAccessIdx : Nat)
      (pins : List (List (List FrAccessPoint)))
  | bterm (pins : List (List (List FrAccessPoint)))

/-- Every access point of the pin; a pin without pin access has none. -/
def getAccessPoints : FrPinObject → List Point3D
  | .instTerm transform pinAccessIdx pins =>
      pins.flatMap fun aps => (aps.getD pinAccessIdx []).map fun ap =>
        let apLoc := transform.applyPoint ap.point
        ⟨apLoc.x, apLoc.y, ap.layerNum⟩
  | .bterm pins =>
      pins.flatMap fun aps => aps.flatMap fun pa => pa.map fun ap =>
        ⟨ap.point.x, ap.point.y, ap.layerNum⟩

/-- `Rect::overlaps` of a point -/
def rectOverlaps (box : Rect) (pt : Point3D) : Bool :=
  pt.x > box.xMin && pt.x < box.xMax && pt.y > box.yMin && pt.y < box.yMax

def isPinCoveredByGuides (pin : FrPinObject) (guides : List FrRect) : Bool :=
  (getAccessPoints pin).any fun apLoc => guides.any fun guide =>
    guide.layerNum = apLoc.z && rectOverlaps guide.box apLoc

/-! ### The gcell and the guide -/

/-- `std::clamp` -/
def clamp (v lo hi : Int) : Int := if v < lo then lo else if hi < v then hi else v

/-- `getClosestPoint` -/
def getClosestPoint (box : Rect) (p : Point3D) : Point :=
  ⟨clamp p.x box.xMin box.xMax, clamp p.y box.yMin box.yMax⟩

/-- `odb::manhattanDistance` -/
def manhattanDistance (box : Rect) (p : Point) : Int :=
  |p.x - clamp p.x box.xMin box.xMax| + |p.y - clamp p.y box.yMin box.yMax|

/-- The gcell of an access point, on its layer. -/
def FrDesign.apGCell (D : FrDesign) (apLoc : Point3D) : Point3D :=
  let idx := D.getGCellIdx ⟨apLoc.x, apLoc.y⟩
  ⟨idx.x, idx.y, apLoc.z⟩

/-- The distance from a guide to the center of a gcell. -/
def FrDesign.guideDist (D : FrDesign) (guide : FrRect) (idx : Point3D) : Int :=
  manhattanDistance guide.box (D.getGCellCenter ⟨idx.x, idx.y⟩)

/-- The gcell of the access points that is the nearest to the guides; of several, the one with the
highest count. -/
def findBestPinLocation (D : FrDesign) (pin : FrPinObject) (guides : List FrRect) : Point3D :=
  let gcellToApCount := (getAccessPoints pin).foldl (fun counts apLoc =>
    let apGcellIdx := D.apGCell apLoc
    guides.foldl (fun counts guide => counts.add apGcellIdx (D.guideDist guide apGcellIdx)) counts)
    NearestTally.empty
  gcellToApCount.winner ⟨0, 0, 0⟩

/-- The scan of `findClosestGuide`. -/
structure ClosestScan where
  closestGuideIdx : Nat
  minDist : Option Int
  guideIdx : Nat

def ClosestScan.step (scan : ClosestScan) (dist : Int) : ClosestScan :=
  if scan.minDist.all (dist < ·) then ⟨scan.guideIdx, some dist, scan.guideIdx + 1⟩
  else { scan with guideIdx := scan.guideIdx + 1 }

/-- The distance of a guide to a place, a change of layers included. -/
def layeredDist (coords : Point3D) (layerChangePenalty : Int) (guide : FrRect) : Int :=
  manhattanDistance guide.box ⟨coords.x, coords.y⟩ +
    |guide.layerNum - coords.z| * layerChangePenalty

def findClosestGuide (bestPinLocCoords : Point3D) (guides : List FrRect)
    (layerChangePenalty : Int) : Nat :=
  let scan := guides.foldl (fun (scan : ClosestScan) guide =>
    scan.step (layeredDist bestPinLocCoords layerChangePenalty guide)) ⟨0, none, 0⟩
  scan.closestGuideIdx

/-! ### The patch -/

/-- The center of the gcell in the nearest corner of the guide. -/
def adjustGuidePoint (guidePt : Point3D) (guideBbox : Rect) (halfHorz halfVert : Int) : Point3D :=
  let x := if |guideBbox.xMin - guidePt.x| ≤ |guideBbox.xMax - guidePt.x| then
    guideBbox.xMin + halfHorz else guideBbox.xMax - halfHorz
  let y := if |guideBbox.yMin - guidePt.y| ≤ |guideBbox.yMax - guidePt.y| then
    guideBbox.yMin + halfVert else guideBbox.yMax - halfVert
  ⟨x, y, guidePt.z⟩

/-- The guide is stretched along its layer, and the anchor is moved with it. -/
def extendGuide (D : FrDesign) (best : Point3D) (halfHorz halfVert : Int) (guide : FrRect)
    (guidePt : Point3D) : FrRect × Point3D :=
  if D.isHorizontalLayer guidePt.z then
    if guidePt.x ≠ best.x then
      let box :=
        if best.x < guide.box.xMin then { guide.box with xMin := best.x - halfHorz }
        else if best.x > guide.box.xMax then { guide.box with xMax := best.x + halfHorz }
        else guide.box
      ({ guide with box }, { guidePt with x := best.x })
    else (guide, guidePt)
  else if D.isVerticalLayer guidePt.z then
    if guidePt.y ≠ best.y then
      let box :=
        if best.y < guide.box.yMin then { guide.box with yMin := best.y - halfVert }
        else if best.y > guide.box.yMax then { guide.box with yMax := best.y + halfVert }
        else guide.box
      ({ guide with box }, { guidePt with y := best.y })
    else (guide, guidePt)
  else (guide, guidePt)

/-- The patch from the anchor to the gcell, on the layer of the guide. -/
def connectGuidesWithBestPinLoc (guidePt best : Point3D) (halfHorz halfVert : Int)
    (guides : List FrRect) : List FrRect :=
  if guidePt.x ≠ best.x ∨ guidePt.y ≠ best.y then
    let pl : Point := ⟨min best.x guidePt.x, min best.y guidePt.y⟩
    let ph : Point := ⟨max best.x guidePt.x, max best.y guidePt.y⟩
    guides ++ [⟨Rect.init (pl.x - halfHorz) (pl.y - halfVert) (ph.x + halfHorz) (ph.y + halfVert),
      guidePt.z⟩]
  else guides

/-- A guide of one gcell. -/
def gcellGuide (best : Point3D) (halfHorz halfVert layerNum : Int) : FrRect :=
  ⟨Rect.init (best.x - halfHorz) (best.y - halfVert) (best.x + halfHorz) (best.y + halfVert),
    layerNum⟩

/-- The loop over the layers. -/
def fillGuidesFrom (best : Point3D) (halfHorz halfVert inc : Int) :
    Nat → Int → List FrRect → Option (List FrRect)
  | 0, _, _ => none
  | fuel + 1, currZ, guides =>
      if currZ ≠ best.z + inc then
        fillGuidesFrom best halfHorz halfVert inc fuel (currZ + inc)
          (guides ++ [gcellGuide best halfHorz halfVert currZ])
      else some guides

def fillGuidesUpToZ (best : Point3D) (startZ halfHorz halfVert : Int) (guides : List FrRect)
    (fuel : Nat) : Option (List FrRect) :=
  let inc := if startZ < best.z then 2 else -2
  fillGuidesFrom best halfHorz halfVert inc fuel (startZ + inc) guides

/-- `patchGuides_helper`; the index is that of a guide. -/
def patchGuidesHelper (D : FrDesign) (guides : List FrRect) (best : Point3D)
    (closestGuideIdx : Nat) (fuel : Nat) : Option (List FrRect) :=
  guides[closestGuideIdx]?.bind fun closest =>
    let closestPt := getClosestPoint closest.box best
    let halfHorz := D.getGCellSizeHorizontal.tdiv 2
    let halfVert := D.getGCellSizeVertical.tdiv 2
    let guidePt := adjustGuidePoint ⟨closestPt.x, closestPt.y, closest.layerNum⟩ closest.box
      halfHorz halfVert
    let (guide, guidePt) := extendGuide D best halfHorz halfVert closest guidePt
    let guides := guides.set closestGuideIdx guide
    if guidePt = best then some guides
    else
      let guides := connectGuidesWithBestPinLoc guidePt best halfHorz halfVert guides
      fillGuidesUpToZ best guidePt.z halfHorz halfVert guides fuel

/-- The center of a gcell, on its layer. -/
def FrDesign.gcellCoords (D : FrDesign) (idx : Point3D) : Point3D :=
  let center := D.getGCellCenter ⟨idx.x, idx.y⟩
  ⟨center.x, center.y, idx.z⟩

def patchGuides (D : FrDesign) (pin : FrPinObject) (guides : List FrRect) (fuel : Nat) :
    Option (List FrRect) :=
  if isPinCoveredByGuides pin guides then some guides
  else
    let bestPinLocIdx := findBestPinLocation D pin guides
    let bestPinLocCoords := D.gcellCoords bestPinLocIdx
    let closestGuideIdx := findClosestGuide bestPinLocCoords guides 1
    patchGuidesHelper D guides bestPinLocCoords closestGuideIdx fuel

end OpenRoad.Drt
