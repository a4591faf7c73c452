import OpenRoad.DbGeometry

/-!
Sites and rows of a floorplan. All rows are horizontal.
-/

namespace OpenRoad.Ifp

open Db (Orient Rect Transform)

/-- `dbSite::OrientedSite` -/
structure OrientedSite where
  site : Nat
  orientation : Orient
  deriving DecidableEq

abbrev RowPattern := List OrientedSite

/-- `dbSiteClass` -/
inductive SiteClass where
  | NONE | PAD | CORE
  deriving DecidableEq

/-- `dbSite` -/
structure Site where
  width : Int
  height : Int
  width_pos : 0 < width
  height_pos : 0 < height
  rowPattern : RowPattern
  siteClass : SiteClass

/-- `dbRow` -/
structure Row where
  name : String
  site : Nat
  x : Int
  y : Int
  orient : Orient
  numSites : Int
  spacing : Int

/-- A row without sites has an empty box at the origin. -/
def Row.getBBox (sites : Nat → Site) (row : Row) : Rect :=
  if row.numSites = 0 then Rect.init 0 0 0 0
  else
    let site := sites row.site
    let r := (Transform.mk row.orient ⟨0, 0⟩).applyRect (Rect.init 0 0 site.width site.height)
    Rect.init row.x row.y (row.x + (row.numSites - 1) * row.spacing + (r.xMax - r.xMin))
      (row.y + (r.yMax - r.yMin))

end OpenRoad.Ifp
