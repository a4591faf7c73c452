import Mathlib.Order.Lattice
import Mathlib.Data.Int.Order.Basic

/-!
Points, rectangles, orientations and transforms of the database. Coordinates are integers.
-/

namespace OpenRoad.Db

structure Point where
  x : Int
  y : Int
  deriving DecidableEq

namespace Point

def rotate90 (p : Point) : Point := ⟨-p.y, p.x⟩
def rotate180 (p : Point) : Point := ⟨-p.x, -p.y⟩
def rotate270 (p : Point) : Point := ⟨p.y, -p.x⟩

end Point

structure Rect where
  xMin : Int
  yMin : Int
  xMax : Int
  yMax : Int
  deriving DecidableEq

/-- The constructor puts the coordinates in order. -/
def Rect.init (x1 y1 x2 y2 : Int) : Rect := ⟨min x1 x2, min y1 y2, max x1 x2, max y1 y2⟩

/-- `dbOrientType` -/
inductive Orient where
  | R0 | R90 | R180 | R270 | MY | MYR90 | MX | MXR90
  deriving DecidableEq

/-- `dbTransform` -/
structure Transform where
  orient : Orient
  offset : Point
  deriving DecidableEq

namespace Transform

def applyPoint (t : Transform) (p : Point) : Point :=
  let p := match t.orient with
    | .R0 => p
    | .R90 => p.rotate90
    | .R180 => p.rotate180
    | .R270 => p.rotate270
    | .MY => ⟨-p.x, p.y⟩
    | .MYR90 => Point.rotate90 ⟨-p.x, p.y⟩
    | .MX => ⟨p.x, -p.y⟩
    | .MXR90 => Point.rotate90 ⟨p.x, -p.y⟩
  ⟨p.x + t.offset.x, p.y + t.offset.y⟩

def applyRect (t : Transform) (r : Rect) : Rect :=
  let ll := t.applyPoint ⟨r.xMin, r.yMin⟩
  let ur := t.applyPoint ⟨r.xMax, r.yMax⟩
  Rect.init ll.x ll.y ur.x ur.y

end Transform

/-- `Rect::contains` -/
def Rect.contains (r s : Rect) : Bool :=
  r.xMin ≤ s.xMin ∧ r.yMin ≤ s.yMin ∧ r.xMax ≥ s.xMax ∧ r.yMax ≥ s.yMax

end OpenRoad.Db
