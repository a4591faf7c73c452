import Mathlib.Data.Int.ModEq
import Mathlib.Data.List.Basic
import Mathlib.Tactic.Linarith
import Mathlib.Tactic.Ring
import OpenRoad.IfpRow

/-!
The rows of voltage domains. Each domain destroys the rows that come near it in the vertical direction
and makes new ones for each, on its left, on its right and in the domain.
-/

namespace OpenRoad.Ifp

open Db (Orient Rect)

inductive RowParity where
  | NONE | EVEN | ODD

/-- `dbGroupType` -/
inductive GroupType where
  | PHYSICAL_CLUSTER | VOLTAGE_DOMAIN | POWER_DOMAIN
  deriving DecidableEq

/-- `dbGroup` with the boundaries of its region -/
structure Group where
  name : String
  type : GroupType
  boundaries : List Rect

def Group.isDomain (group : Group) : Bool :=
  group.type == .VOLTAGE_DOMAIN || group.type == .POWER_DOMAIN

def makeSiteLoc (x siteWidth : Int) (atLeftFromMacro : Bool) (offset : Int) : Int :=
  (if atLeftFromMacro then (x - offset) / siteWidth else -(-(x - offset) / siteWidth)) * siteWidth +
    offset

/-- The box around the boundaries. -/
def domainBox (boundaries : List Rect) : Option Rect :=
  boundaries.foldl (fun domain b => match domain with
    | none => some b
    | some d => some ⟨min d.xMin b.xMin, min d.yMin b.yMin, max d.xMax b.xMax, max d.yMax b.yMax⟩) none

def powerDomainYSpace : Int := 6

section

variable (sites : Nat → Site)

/-! ### Uniform rows -/

/-- The number of rows of a site. -/
def rowsY (parity : RowParity) (coreDy siteDy : Int) : Int :=
  let rows := coreDy.tdiv siteDy
  match parity with
  | .NONE => rows
  | .EVEN => rows.tdiv 2 * 2
  | .ODD => if rows > 0 then if rows.tmod 2 = 0 then rows - 1 else rows else 0

/-- `make_rows` of `makeUniformRows` with the number of rows that the block has. -/
def makeUniformSite (base : Nat) (core : Rect) (parity : RowParity) (flippedSites : List Nat)
    (numRows site : Nat) : List Row :=
  let siteDx := (sites base).width
  let siteDy := (sites site).height
  let flip := if site ∈ flippedSites then 1 else 0
  (List.range (rowsY parity (core.yMax - core.yMin) siteDy).toNat).map fun row =>
    ⟨"ROW_" ++ toString (numRows + row), site, core.xMin, core.yMin + row * siteDy,
      if (row + flip) % 2 = 0 then .R0 else .MX, (core.xMax - core.xMin).tdiv siteDx, siteDx⟩

/-- The rows of all sites; the height of a site that is no multiple of that of the base is an error. -/
def makeUniformRows (base : Nat) (sitesByName : List Nat) (core : Rect) (parity : RowParity)
    (flippedSites : List Nat) (present : Nat) : Option (List Row) :=
  sitesByName.foldlM (fun rows site =>
    if (sites site).height % (sites base).height ≠ 0 then none
    else some (rows ++ makeUniformSite sites base core parity flippedSites (present + rows.length) site))
    []

/-! ### Voltage domains -/

variable (coreLx coreUx : Int) (domainName : String)

/-- The domain snapped inward to the site grid. -/
def snapInward (domain : Rect) (siteDx : Int) : Rect :=
  { domain with
    xMin := makeSiteLoc domain.xMin siteDx false 0
    xMax := makeSiteLoc domain.xMax siteDx true 0 }

/-- The row does not come near the domain. -/
def isApartFrom (domain bbox : Rect) (siteDy : Int) : Bool :=
  bbox.yMax + powerDomainYSpace * siteDy ≤ domain.yMin ||
    bbox.yMin ≥ domain.yMax + powerDomainYSpace * siteDy

/-- What is created for a row that is destroyed: the left and the right core row, and a domain row if the
row is not in the margin. -/
def domainPieces (domain : Rect) (row : Row) : List Row :=
  let bbox := row.getBBox sites
  let siteDx := (sites row.site).width
  let siteDy := (sites row.site).height
  let lcrXMax := domain.xMin - powerDomainYSpace * siteDy
  let rcrDxSiteNumber := (powerDomainYSpace * siteDy).tdiv siteDx
  let rcrXMin := makeSiteLoc (domain.xMax + rcrDxSiteNumber * siteDx) siteDx false 0
  let left := if lcrXMax > coreLx + siteDx then
      [⟨row.name ++ "_1", row.site, coreLx, bbox.yMin, row.orient, (lcrXMax - coreLx).tdiv siteDx, siteDx⟩]
    else []
  let right := if rcrXMin + siteDx < coreUx then
      [⟨row.name ++ "_2", row.site, rcrXMin, bbox.yMin, row.orient, (coreUx - rcrXMin).tdiv siteDx, siteDx⟩]
    else []
  let inside := if bbox.yMin ≥ domain.yMin ∧ bbox.yMax ≤ domain.yMax then
      [⟨row.name ++ "_" ++ domainName, row.site, domain.xMin, bbox.yMin, row.orient,
        (domain.xMax - domain.xMin).tdiv siteDx, siteDx⟩]
    else []
  left ++ right ++ inside

/-- One row of the loop over the rows, with the domain as it has been snapped so far. -/
def updateRow (st : Rect × List Row) (row : Row) : Rect × List Row :=
  if (sites row.site).siteClass = .PAD then (st.1, st.2 ++ [row])
  else
    let domain := snapInward st.1 (sites row.site).width
    if isApartFrom domain (row.getBBox sites) (sites row.site).height then (domain, st.2 ++ [row])
    else (domain, st.2 ++ domainPieces sites coreLx coreUx domainName domain row)

def updateVoltageDomain (groups : List Group) (rows : List Row) : List Row :=
  groups.foldl (fun rows group =>
    if group.isDomain then
      match domainBox group.boundaries with
      | none => rows
      | some domain => (rows.foldl (updateRow sites coreLx coreUx group.name) (domain, [])).2
    else rows) rows

end

/-! ### What the rows should be -/

/-- The inner points of the boxes have one in common. -/
def Overlap (r s : Rect) : Prop :=
  r.xMin < s.xMax ∧ s.xMin < r.xMax ∧ r.yMin < s.yMax ∧ s.yMin < r.yMax

instance (r s : Rect) : Decidable (Overlap r s) := inferInstanceAs (Decidable (_ ∧ _))

theorem contains_iff {r s : Rect} : r.contains s = true ↔
    r.xMin ≤ s.xMin ∧ r.yMin ≤ s.yMin ∧ r.xMax ≥ s.xMax ∧ r.yMax ≥ s.yMax := decide_eq_true_iff

section

variable (sites : Nat → Site) (site : Nat) (core : Rect)

/-- Rows of one site that do not overlap and are inside the core, with all sites on the grid. A row that
overlaps a snapped domain is inside it, and a row of `rows` whose height is inside a domain of at least
one site has one row there. -/
structure DomainRows (groups : List Group) (rows rows' : List Row) : Prop where
  apart : rows'.Pairwise fun r s => ¬Overlap (r.getBBox sites) (s.getBBox sites)
  inside : ∀ r ∈ rows', core.contains (r.getBBox sites) = true
  onGrid : ∀ r ∈ rows', r.site = site ∧ r.spacing = (sites site).width ∧
    (sites site).width ∣ r.x ∧ (sites site).height ∣ r.y
  domain : ∀ group ∈ groups, group.isDomain = true → ∀ box ∈ group.boundaries, ∀ r ∈ rows',
    Overlap (r.getBBox sites) (snapInward box (sites site).width) →
      (snapInward box (sites site).width).contains (r.getBBox sites) = true
  filled : ∀ group ∈ groups, group.isDomain = true → ∀ box ∈ group.boundaries,
    (snapInward box (sites site).width).xMin + (sites site).width ≤
      (snapInward box (sites site).width).xMax →
    ∀ row ∈ rows, box.yMin ≤ row.y → row.y + (sites site).height ≤ box.yMax →
      (rows'.filter fun r => decide (r.y = row.y) &&
        (snapInward box (sites site).width).contains (r.getBBox sites)).length = 1

/-- The row comes near the box, less than six times its height away. -/
def Near (row : Row) (box : Rect) : Prop :=
  box.yMin < row.y + 7 * (sites site).height ∧ row.y < box.yMax + 6 * (sites site).height

instance (row : Row) (box : Rect) : Decidable (Near sites site row box) :=
  inferInstanceAs (Decidable (_ ∧ _))

/-- No row comes near two domains, and a domain with the height of a row is a site wide. -/
structure DomainsSeparate (groups : List Group) (rows : List Row) : Prop where
  once : ∀ row ∈ rows, (groups.filter Group.isDomain).Pairwise fun group group' =>
    ∀ box ∈ group.boundaries, ∀ box' ∈ group'.boundaries,
      ¬(Near sites site row box ∧ Near sites site row box')
  wide : ∀ group ∈ groups, group.isDomain = true → ∀ box ∈ group.boundaries, ∀ row ∈ rows,
    box.yMin ≤ row.y → row.y + (sites site).height ≤ box.yMax →
      (snapInward box (sites site).width).xMin + (sites site).width ≤
        (snapInward box (sites site).width).xMax

/-! ### Snapping -/

theorem makeSiteLoc_right {w : Int} (hw : 0 < w) (x : Int) :
    w ∣ makeSiteLoc x w false 0 ∧ x ≤ makeSiteLoc x w false 0 ∧ makeSiteLoc x w false 0 < x + w := by
  have hdiv := Int.mul_ediv_add_emod (-x) w
  have hlo := Int.emod_nonneg (-x) hw.ne'
  have hhi := Int.emod_lt_of_pos (-x) hw
  have heq : makeSiteLoc x w false 0 = -(-x / w) * w := by simp [makeSiteLoc]
  refine ⟨⟨_, heq.trans (Int.mul_comm _ _)⟩, ?_, ?_⟩ <;> rw [heq, Int.neg_mul, Int.mul_comm] <;> omega

theorem makeSiteLoc_left {w : Int} (hw : 0 < w) (x : Int) :
    w ∣ makeSiteLoc x w true 0 ∧ makeSiteLoc x w true 0 ≤ x ∧ x < makeSiteLoc x w true 0 + w := by
  have hdiv := Int.mul_ediv_add_emod x w
  have hlo := Int.emod_nonneg x hw.ne'
  have hhi := Int.emod_lt_of_pos x hw
  have heq : makeSiteLoc x w true 0 = x / w * w := by simp [makeSiteLoc]
  refine ⟨⟨_, heq.trans (Int.mul_comm _ _)⟩, ?_, ?_⟩ <;> rw [heq, Int.mul_comm] <;> omega

theorem makeSiteLoc_of_dvd {w x : Int} (hw : 0 < w) (h : w ∣ x) (left : Bool) :
    makeSiteLoc x w left 0 = x := by
  obtain ⟨k, rfl⟩ := h
  cases left
  · show -(-(w * k - 0) / w) * w + 0 = w * k
    rw [Int.sub_zero, Int.add_zero, ← Int.mul_neg, Int.mul_ediv_cancel_left _ hw.ne', Int.neg_neg,
      Int.mul_comm]
  · show (w * k - 0) / w * w + 0 = w * k
    rw [Int.sub_zero, Int.add_zero, Int.mul_ediv_cancel_left _ hw.ne', Int.mul_comm]

/-- A multiple is above another one by at least one width. -/
theorem add_le_of_dvd {w a b : Int} (ha : w ∣ a) (hb : w ∣ b) (h : a < b) : a + w ≤ b := by
  have hle := Int.le_of_dvd (Int.sub_pos_of_lt h) (Int.dvd_sub hb ha)
  omega

theorem snapInward_snapInward {w : Int} (hw : 0 < w) (d : Rect) :
    snapInward (snapInward d w) w = snapInward d w := by
  unfold snapInward
  dsimp only
  rw [makeSiteLoc_of_dvd hw (makeSiteLoc_right hw d.xMin).1,
    makeSiteLoc_of_dvd hw (makeSiteLoc_left hw d.xMax).1]

/-! ### Rows at one height -/

/-- A row of the site at height `y`, on the grid and in the core from left to right. -/
structure Fits (y : Int) (row : Row) : Prop where
  ofSite : row.site = site
  orient : row.orient = .R0 ∨ row.orient = .MX
  numSites : 0 < row.numSites
  spacing : row.spacing = (sites site).width
  height : row.y = y
  onGrid : (sites site).width ∣ row.x
  left : core.xMin ≤ row.x
  right : row.x + row.numSites * (sites site).width ≤ core.xMax

end

section Height

variable {sites : Nat → Site} {site : Nat} {core : Rect} {y : Int} {row : Row}

theorem Fits.getBBox (h : Fits sites site core y row) : row.getBBox sites =
    ⟨row.x, y, row.x + row.numSites * (sites site).width, y + (sites site).height⟩ := by
  have hw := (sites site).width_pos
  have hh := (sites site).height_pos
  have hwidth : 0 < row.numSites * (sites site).width := Int.mul_pos h.numSites hw
  have hx : row.x + (row.numSites - 1) * (sites site).width + (sites site).width =
      row.x + row.numSites * (sites site).width := by ring
  unfold Row.getBBox
  rw [if_neg h.numSites.ne', h.ofSite, h.spacing, h.height]
  rcases h.orient with horient | horient <;> rw [horient] <;>
    simp only [Db.Transform.applyRect, Db.Transform.applyPoint, Rect.init, Rect.mk.injEq] <;> omega

theorem tdiv_mul_le {a w : Int} (hw : 0 < w) (ha : 0 ≤ a) :
    0 ≤ a.tdiv w ∧ a.tdiv w * w ≤ a ∧ a < a.tdiv w * w + w ∧ (w ≤ a → 0 < a.tdiv w) := by
  rw [Int.tdiv_eq_ediv_of_nonneg ha]
  have hdiv := Int.mul_ediv_add_emod a w
  have hlo := Int.emod_nonneg a hw.ne'
  have hhi := Int.emod_lt_of_pos a hw
  rw [Int.mul_comm] at hdiv
  refine ⟨Int.ediv_nonneg ha hw.le, by omega, by omega, fun hle => ?_⟩
  exact (Int.le_ediv_iff_mul_le hw).mpr (by simpa using hle)

/-- A domain in the core that is snapped to the grid; it is empty or not wider than the core. -/
structure SnappedIn (sites : Nat → Site) (site : Nat) (core d : Rect) : Prop where
  coreOnGrid : (sites site).width ∣ core.xMin
  onGrid : (sites site).width ∣ d.xMin ∧ (sites site).width ∣ d.xMax
  left : core.xMin ≤ d.xMin ∧ core.xMin ≤ d.xMax
  right : d.xMax ≤ core.xMax
  order : d.xMin ≤ d.xMax + (sites site).width

theorem snappedIn {box : Rect} (hcore : (sites site).width ∣ core.xMin)
    (hbox : core.contains box = true) (horder : box.xMin ≤ box.xMax) :
    SnappedIn sites site core (snapInward box (sites site).width) := by
  have hw := (sites site).width_pos
  obtain ⟨hleft, -, hright, -⟩ := contains_iff.mp hbox
  obtain ⟨hminDvd, hmin, hmin'⟩ := makeSiteLoc_right hw box.xMin
  obtain ⟨hmaxDvd, hmax, hmax'⟩ := makeSiteLoc_left hw box.xMax
  refine ⟨hcore, ⟨hminDvd, hmaxDvd⟩, ⟨hleft.trans hmin, ?_⟩, hmax.trans hright, ?_⟩
  · -- the core starts on the grid, so snapping to the left stays in it
    by_contra hlt
    have hstep := add_le_of_dvd hmaxDvd hcore (not_le.mp hlt)
    exact absurd (hstep.trans hleft) (not_le.mpr (by simpa [snapInward] using hmax'.trans_le' horder))
  · unfold snapInward
    dsimp only
    by_contra hlt
    have hstep := add_le_of_dvd (Int.dvd_add hmaxDvd (dvd_refl _)) hminDvd (not_le.mp hlt)
    omega

/-- The three pieces of a row: one on the left of the domain, one on its right, and one as wide as the
domain if the row is not in the margin. -/
theorem domainPieces_spec {d : Rect} {name : String} (h : Fits sites site core y row)
    (hd : SnappedIn sites site core d)
    (hwide : d.yMin ≤ y → y + (sites site).height ≤ d.yMax → d.xMin + (sites site).width ≤ d.xMax) :
    ∃ left right inside : List Row,
      domainPieces sites core.xMin core.xMax name d row = left ++ right ++ inside ∧
      left.length ≤ 1 ∧ right.length ≤ 1 ∧
      inside.length = (if y ≥ d.yMin ∧ y + (sites site).height ≤ d.yMax then 1 else 0) ∧
      (∀ r ∈ left, Fits sites site core y r ∧ r.x + r.numSites * (sites site).width ≤ d.xMin ∧
        r.x + r.numSites * (sites site).width ≤ d.xMax) ∧
      (∀ r ∈ right, Fits sites site core y r ∧ d.xMax ≤ r.x) ∧
      ∀ r ∈ inside, Fits sites site core y r ∧ r.x = d.xMin ∧
        r.x + r.numSites * (sites site).width = d.xMax ∧
        d.yMin ≤ y ∧ y + (sites site).height ≤ d.yMax := by
  have hw := (sites site).width_pos
  have hh := (sites site).height_pos
  unfold domainPieces
  rw [h.getBBox, h.ofSite]
  dsimp only
  refine ⟨_, _, _, rfl, ?_, ?_, ?_, fun r hr => ?_, fun r hr => ?_, fun r hr => ?_⟩
  · split <;> simp
  · split <;> simp
  · split <;> simp
  · split at hr
    · rename_i hroom
      obtain rfl := List.mem_singleton.mp hr
      unfold powerDomainYSpace at hroom ⊢
      obtain ⟨hq, hle, -, hpos⟩ := @tdiv_mul_le (d.xMin - 6 * (sites site).height - core.xMin) _ hw
        (by omega)
      have hend : core.xMin + (d.xMin - 6 * (sites site).height - core.xMin).tdiv (sites site).width *
          (sites site).width < d.xMin := by omega
      have hdvd := Int.dvd_add hd.coreOnGrid (Int.dvd_mul_left
        ((d.xMin - 6 * (sites site).height - core.xMin).tdiv (sites site).width) (sites site).width)
      have hstep := add_le_of_dvd hdvd hd.onGrid.1 hend
      have hright := hd.right
      have horder := hd.order
      exact ⟨⟨rfl, h.orient, hpos (by omega), rfl, rfl, hd.coreOnGrid, le_refl _, by dsimp only; omega⟩,
        by dsimp only; omega, by dsimp only; omega⟩
    · exact absurd hr List.not_mem_nil
  · split at hr
    · rename_i hroom
      obtain rfl := List.mem_singleton.mp hr
      have hn := (@tdiv_mul_le (powerDomainYSpace * (sites site).height) _ hw
        (by unfold powerDomainYSpace; omega)).1
      generalize (powerDomainYSpace * (sites site).height).tdiv (sites site).width = n at hroom hn ⊢
      have hdvd := Int.dvd_add hd.onGrid.2 (Int.dvd_mul_left n (sites site).width)
      rw [makeSiteLoc_of_dvd hw hdvd] at hroom ⊢
      have hstart : 0 ≤ n * (sites site).width := Int.mul_nonneg hn hw.le
      have hleft := hd.left.2
      obtain ⟨hq, hle, -, hpos⟩ := @tdiv_mul_le (core.xMax - (d.xMax + n * (sites site).width)) _ hw
        (by omega)
      exact ⟨⟨rfl, h.orient, hpos (by omega), rfl, rfl, hdvd, by dsimp only; omega, by dsimp only; omega⟩,
        by dsimp only; omega⟩
    · exact absurd hr List.not_mem_nil
  · split at hr
    · rename_i hroom
      obtain rfl := List.mem_singleton.mp hr
      have hsite := hwide hroom.1 hroom.2
      have hleft := hd.left.1
      have hright := hd.right
      have hexact := Int.tdiv_mul_cancel (Int.dvd_sub hd.onGrid.2 hd.onGrid.1)
      obtain ⟨-, -, -, hpos⟩ := @tdiv_mul_le (d.xMax - d.xMin) _ hw (by omega)
      exact ⟨⟨rfl, h.orient, hpos (by omega), rfl, rfl, hd.onGrid.1, hleft, by dsimp only; omega⟩, rfl,
        by dsimp only; omega, hroom.1, hroom.2⟩
    · exact absurd hr List.not_mem_nil

/-! ### What is left of a row -/

/-- What a domain makes of a row. -/
def cutRow (sites : Nat → Site) (core : Rect) (domain : String × Rect) (row : Row) : List Row :=
  let d := snapInward domain.2 (sites row.site).width
  if isApartFrom d (row.getBBox sites) (sites row.site).height then [row]
  else domainPieces sites core.xMin core.xMax domain.1 d row

/-- What the domains make of a row, one after the other. -/
def cutAll (sites : Nat → Site) (core : Rect) (domains : List (String × Rect)) (rows : List Row) :
    List Row :=
  domains.foldl (fun rows domain => rows.flatMap (cutRow sites core domain)) rows

theorem cutAll_flatMap (domains : List (String × Rect)) (rows : List Row) :
    cutAll sites core domains rows = rows.flatMap fun row => cutAll sites core domains [row] := by
  induction domains generalizing rows with
  | nil => simp [cutAll]
  | cons domain domains ih =>
      unfold cutAll at ih ⊢
      simp only [List.foldl_cons, List.flatMap_singleton]
      rw [ih, List.flatMap_assoc]
      exact List.flatMap_congr fun row _ => (ih _).symm

theorem Fits.cutRow_eq {domain : String × Rect} (h : Fits sites site core y row) :
    cutRow sites core domain row =
      if Near sites site row domain.2 then
        domainPieces sites core.xMin core.xMax domain.1 (snapInward domain.2 (sites site).width) row
      else [row] := by
  unfold cutRow
  rw [h.getBBox, h.ofSite]
  have hy := h.height
  have hiff : isApartFrom (snapInward domain.2 (sites site).width)
      ⟨row.x, y, row.x + row.numSites * (sites site).width, y + (sites site).height⟩
      (sites site).height = true ↔ ¬Near sites site row domain.2 := by
    unfold isApartFrom Near snapInward powerDomainYSpace
    rw [Bool.or_eq_true, decide_eq_true_iff, decide_eq_true_iff]
    dsimp only
    omega
  by_cases hnear : Near sites site row domain.2
  · exact (if_neg fun hapart => hiff.mp hapart hnear).trans (if_pos hnear).symm
  · exact (if_pos (hiff.mpr hnear)).trans (if_neg hnear).symm

/-- Rows that no domain comes near stay as they are. -/
theorem cutAll_far {domains : List (String × Rect)} {rows : List Row}
    (hrows : ∀ row ∈ rows, Fits sites site core y row)
    (hfar : ∀ domain ∈ domains, ∀ row ∈ rows, ¬Near sites site row domain.2) :
    cutAll sites core domains rows = rows := by
  induction domains with
  | nil => rfl
  | cons domain domains ih =>
      have hkept : rows.flatMap (cutRow sites core domain) = rows := by
        rw [List.flatMap_congr (g := fun row => [row]) fun row hrow => ?_, List.flatMap_singleton']
        rw [(hrows row hrow).cutRow_eq, if_neg (hfar domain List.mem_cons_self row hrow)]
      unfold cutAll at ih ⊢
      rw [List.foldl_cons, hkept]
      exact ih fun domain hdomain => hfar domain (List.mem_cons_of_mem _ hdomain)

/-- At most one domain comes near a row, and then its pieces are left. -/
theorem cutAll_row {domains : List (String × Rect)} (h : Fits sites site core y row)
    (honce : domains.Pairwise fun domain domain' =>
      ¬(Near sites site row domain.2 ∧ Near sites site row domain'.2))
    (hpieces : ∀ domain ∈ domains, ∀ r ∈ domainPieces sites core.xMin core.xMax domain.1
      (snapInward domain.2 (sites site).width) row, Fits sites site core y r) :
    (∀ domain ∈ domains, ¬Near sites site row domain.2) ∧ cutAll sites core domains [row] = [row] ∨
      ∃ domain ∈ domains, (∀ domain' ∈ domains, Near sites site row domain'.2 → domain' = domain) ∧
        cutAll sites core domains [row] = domainPieces sites core.xMin core.xMax domain.1
          (snapInward domain.2 (sites site).width) row := by
  induction domains with
  | nil => exact Or.inl ⟨fun _ hmem => absurd hmem List.not_mem_nil, rfl⟩
  | cons domain domains ih =>
      obtain ⟨hfirst, hrest⟩ := List.pairwise_cons.mp honce
      have hcut : cutAll sites core (domain :: domains) [row] =
          cutAll sites core domains (cutRow sites core domain row) :=
        congrArg (cutAll sites core domains) (List.flatMap_singleton _ _)
      rw [hcut, h.cutRow_eq]
      by_cases hnear : Near sites site row domain.2
      · -- the domains that follow leave the pieces alone
        rw [if_pos hnear]
        have hfits := hpieces domain List.mem_cons_self
        refine Or.inr ⟨domain, List.mem_cons_self, fun domain' hmem hnear' => ?_,
          cutAll_far hfits fun domain' hmem r hr hnear' => ?_⟩
        · rcases List.mem_cons.mp hmem with rfl | hmem
          · rfl
          · exact absurd ⟨hnear, hnear'⟩ (hfirst domain' hmem)
        · refine hfirst domain' hmem ⟨hnear, ?_⟩
          unfold Near at hnear' ⊢
          rwa [h.height, ← (hfits r hr).height]
      · rw [if_neg hnear]
        rcases ih hrest fun domain hmem => hpieces domain (List.mem_cons_of_mem _ hmem) with
          ⟨hfar, heq⟩ | ⟨domain', hmem, honly, heq⟩
        · refine Or.inl ⟨fun domain' hmem => ?_, heq⟩
          rcases List.mem_cons.mp hmem with rfl | hmem
          · exact hnear
          · exact hfar domain' hmem
        · refine Or.inr ⟨domain', List.mem_cons_of_mem _ hmem, fun other hother hnear' => ?_, heq⟩
          rcases List.mem_cons.mp hother with rfl | hother
          · exact absurd hnear' hnear
          · exact honly other hother hnear'

/-! ### The loops -/

theorem site_of_mem_cutRow {domain : String × Rect} {r : Row} (hr : r ∈ cutRow sites core domain row) :
    r.site = row.site := by
  unfold cutRow domainPieces at hr
  dsimp only at hr
  split at hr
  · rw [List.mem_singleton.mp hr]
  · simp only [List.mem_append] at hr
    rcases hr with (hr | hr) | hr <;> split at hr
    all_goals first
      | exact absurd hr List.not_mem_nil
      | rw [List.mem_singleton.mp hr]

/-- The loop over the rows; snapping the domain again does not move it. -/
theorem updateRow_foldl (hclass : (sites site).siteClass ≠ .PAD) {name : String} {box : Rect}
    {rows : List Row} (hrows : ∀ row ∈ rows, row.site = site) {st : Rect × List Row}
    (hst : snapInward st.1 (sites site).width = snapInward box (sites site).width) :
    (rows.foldl (updateRow sites core.xMin core.xMax name) st).2 =
      st.2 ++ rows.flatMap (cutRow sites core (name, box)) := by
  induction rows generalizing st with
  | nil => exact (List.append_nil _).symm
  | cons row rows ih =>
      have hsite := hrows row List.mem_cons_self
      have hstep : updateRow sites core.xMin core.xMax name st row =
          (snapInward st.1 (sites site).width, st.2 ++ cutRow sites core (name, box) row) := by
        unfold updateRow cutRow
        rw [hsite, if_neg hclass]
        dsimp only
        rw [hst]
        split <;> rfl
      have hagain := (snapInward_snapInward (sites site).width_pos st.1).trans hst
      have hrest := @ih (fun row hrow => hrows row (List.mem_cons_of_mem _ hrow))
        (snapInward st.1 (sites site).width, st.2 ++ cutRow sites core (name, box) row) hagain
      rw [List.foldl_cons, hstep, hrest, List.flatMap_cons, List.append_assoc]

/-- The domains of the groups, each with its only boundary. -/
def domainsOf (groups : List Group) : List (String × Rect) :=
  (groups.filter Group.isDomain).flatMap fun group => group.boundaries.map (group.name, ·)

theorem updateVoltageDomain_eq (hclass : (sites site).siteClass ≠ .PAD) {groups : List Group}
    (hboxes : ∀ group ∈ groups, group.isDomain = true → ∃ box, group.boundaries = [box])
    {rows : List Row} (hrows : ∀ row ∈ rows, row.site = site) :
    updateVoltageDomain sites core.xMin core.xMax groups rows =
      cutAll sites core (domainsOf groups) rows := by
  induction groups generalizing rows with
  | nil => rfl
  | cons group groups ih =>
      have hrest := fun group' hmem => hboxes group' (List.mem_cons_of_mem group hmem)
      unfold updateVoltageDomain at ih ⊢
      rw [List.foldl_cons]
      by_cases hdomain : group.isDomain = true
      · obtain ⟨box, hbox⟩ := hboxes group List.mem_cons_self hdomain
        have hdomains : domainsOf (group :: groups) = (group.name, box) :: domainsOf groups := by
          unfold domainsOf
          rw [List.filter_cons_of_pos hdomain, List.flatMap_cons, hbox]
          rfl
        have hloop : (rows.foldl (updateRow sites core.xMin core.xMax group.name) (box, [])).2 =
            rows.flatMap (cutRow sites core (group.name, box)) := updateRow_foldl hclass hrows rfl
        have hbody : (match domainBox [box] with
            | none => rows
            | some domain =>
                (rows.foldl (updateRow sites core.xMin core.xMax group.name) (domain, [])).2) =
            rows.flatMap (cutRow sites core (group.name, box)) := hloop
        rw [if_pos hdomain, hbox, hdomains, hbody]
        refine ih hrest fun r hr => ?_
        obtain ⟨row, hrow, hr⟩ := List.mem_flatMap.mp hr
        exact (site_of_mem_cutRow hr).trans (hrows row hrow)
      · have hdomains : domainsOf (group :: groups) = domainsOf groups := by
          unfold domainsOf
          rw [List.filter_cons_of_neg hdomain]
        rw [if_neg hdomain, hdomains]
        exact ih hrest hrows

theorem rowsY_mul_le {parity : RowParity} {coreDy siteDy : Int} (hpos : 0 < siteDy) (hcore : 0 ≤ coreDy) :
    rowsY parity coreDy siteDy * siteDy ≤ coreDy := by
  obtain ⟨hrows, hle, -⟩ := tdiv_mul_le hpos hcore
  refine le_trans (Int.mul_le_mul_of_nonneg_right ?_ hpos.le) hle
  unfold rowsY
  cases parity with
  | NONE => exact le_refl _
  | EVEN => exact (tdiv_mul_le (by decide) hrows).2.1
  | ODD =>
      dsimp only
      split
      · split <;> omega
      · exact hrows

/-- The uniform rows are stacked in the core. -/
theorem makeUniformRows_spec {parity : RowParity} {flippedSites : List Nat} {present : Nat}
    {rows : List Row} (hx : core.xMin + (sites site).width ≤ core.xMax) (hy : core.yMin ≤ core.yMax)
    (hgrid : (sites site).width ∣ core.xMin ∧ (sites site).height ∣ core.yMin)
    (hrows : makeUniformRows sites site [site] core parity flippedSites present = some rows) :
    (∀ row ∈ rows, Fits sites site core row.y row ∧ core.yMin ≤ row.y ∧
      row.y + (sites site).height ≤ core.yMax ∧ (sites site).height ∣ row.y) ∧
    rows.Pairwise fun r s => r.y + (sites site).height ≤ s.y := by
  have hw := (sites site).width_pos
  have hh := (sites site).height_pos
  have hlist : rows = makeUniformSite sites site core parity flippedSites present site := by
    simpa [makeUniformRows] using hrows.symm
  rw [hlist]
  unfold makeUniformSite
  dsimp only
  have htop := @rowsY_mul_le parity _ _ hh (Int.sub_nonneg_of_le hy)
  obtain ⟨-, hwidth, -, hpos⟩ := @tdiv_mul_le (core.xMax - core.xMin) _ hw (by omega)
  constructor
  · intro row hrow
    obtain ⟨k, hk, rfl⟩ := List.mem_map.mp hrow
    have hlt := Int.lt_toNat.mp (List.mem_range.mp hk)
    have hmul := Int.mul_le_mul_of_nonneg_right (Int.add_one_le_of_lt hlt) hh.le
    rw [Int.add_mul, Int.one_mul] at hmul
    have hnonneg := Int.mul_nonneg (Int.natCast_nonneg k) hh.le
    exact ⟨⟨rfl, ite_eq_or_eq _ _ _, hpos (by omega), rfl, rfl, hgrid.1, le_refl _,
      by dsimp only; omega⟩, by dsimp only; omega, by dsimp only; omega,
      Int.dvd_add hgrid.2 (Int.dvd_mul_left _ _)⟩
  · rw [List.pairwise_map]
    refine List.pairwise_lt_range.imp fun {j k} hlt => ?_
    have hmul := Int.mul_le_mul_of_nonneg_right (Int.add_one_le_of_lt (Int.ofNat_lt.mpr hlt)) hh.le
    rw [Int.add_mul, Int.one_mul] at hmul
    dsimp only
    omega

/-- What the pieces of a row at height `y` are to be, for a snapped domain `d`. -/
structure Pieces (sites : Nat → Site) (site : Nat) (core d : Rect) (y : Int) (pieces : List Row) :
    Prop where
  piece : ∀ r ∈ pieces, Fits sites site core y r ∧
    (Overlap (r.getBBox sites) d → d.contains (r.getBBox sites) = true)
  apart : pieces.Pairwise fun r s => ¬Overlap (r.getBBox sites) (s.getBBox sites)
  filled : y ≥ d.yMin ∧ y + (sites site).height ≤ d.yMax →
    (pieces.filter fun r => d.contains (r.getBBox sites)).length = 1

theorem pieces_spec {d : Rect} {name : String} (h : Fits sites site core y row)
    (hd : SnappedIn sites site core d)
    (hwide : d.yMin ≤ y → y + (sites site).height ≤ d.yMax → d.xMin + (sites site).width ≤ d.xMax) :
    Pieces sites site core d y (domainPieces sites core.xMin core.xMax name d row) := by
  have hw := (sites site).width_pos
  obtain ⟨left, right, inside, heq, hleft, hright, hinside, hl, hr, hi⟩ :=
    @domainPieces_spec _ _ _ _ _ _ name h hd hwide
  have hwidth : ∀ {r}, Fits sites site core y r → 0 < r.numSites * (sites site).width :=
    fun hfits => Int.mul_pos hfits.numSites hw
  rw [heq]
  refine ⟨fun r hmem => ?_, ?_, fun hheight => ?_⟩
  · rcases List.mem_append.mp hmem with hmem | hmem
    · rcases List.mem_append.mp hmem with hmem | hmem
      · obtain ⟨hfits, hend, -⟩ := hl r hmem
        refine ⟨hfits, fun hover => ?_⟩
        rw [hfits.getBBox] at hover
        exact absurd hover.2.1 (not_lt.mpr hend)
      · obtain ⟨hfits, hstart⟩ := hr r hmem
        refine ⟨hfits, fun hover => ?_⟩
        rw [hfits.getBBox] at hover
        exact absurd hover.1 (not_lt.mpr hstart)
    · obtain ⟨hfits, hstart, hend, hbottom, htop⟩ := hi r hmem
      refine ⟨hfits, fun _ => ?_⟩
      rw [hfits.getBBox, contains_iff]
      exact ⟨hstart.ge, hbottom, hend.le, htop⟩
  · have hone : ∀ {l : List Row}, l.length ≤ 1 →
        l.Pairwise fun r s => ¬Overlap (r.getBBox sites) (s.getBBox sites) := by
      intro l hl
      match l, hl with
      | [], _ => exact List.Pairwise.nil
      | [r], _ => exact List.pairwise_singleton _ r
    have hinside' : inside.length ≤ 1 := by rw [hinside]; split <;> omega
    rw [List.pairwise_append, List.pairwise_append]
    refine ⟨⟨hone hleft, hone hright, fun r hrl s hsr hover => ?_⟩, hone hinside',
      fun r hmem s hsi hover => ?_⟩
    · obtain ⟨hfits, -, hend⟩ := hl r hrl
      obtain ⟨hfits', hstart⟩ := hr s hsr
      rw [hfits.getBBox, hfits'.getBBox] at hover
      exact absurd (hover.2.1.trans_le hend) (not_lt.mpr hstart)
    · obtain ⟨hfits', hstart', hend', -, -⟩ := hi s hsi
      rcases List.mem_append.mp hmem with hmem | hmem
      · obtain ⟨hfits, hend, -⟩ := hl r hmem
        rw [hfits.getBBox, hfits'.getBBox] at hover
        exact absurd (hover.2.1.trans_le hend) (not_lt.mpr hstart'.ge)
      · obtain ⟨hfits, hstart⟩ := hr r hmem
        rw [hfits.getBBox, hfits'.getBBox] at hover
        exact absurd (hover.1.trans_le hend'.le) (not_lt.mpr hstart)
  · have hnone : ∀ r ∈ left ++ right, ¬d.contains (r.getBBox sites) = true := by
      intro r hmem hin
      have hpos := fun hfits => @hwidth r hfits
      rw [contains_iff] at hin
      rcases List.mem_append.mp hmem with hmem | hmem
      · obtain ⟨hfits, hend, -⟩ := hl r hmem
        rw [hfits.getBBox] at hin
        have := hpos hfits
        dsimp only at hin
        omega
      · obtain ⟨hfits, hstart⟩ := hr r hmem
        rw [hfits.getBBox] at hin
        have := hpos hfits
        dsimp only at hin
        omega
    have hall : ∀ r ∈ inside, d.contains (r.getBBox sites) = true := by
      intro r hmem
      obtain ⟨hfits, hstart, hend, hbottom, htop⟩ := hi r hmem
      rw [hfits.getBBox, contains_iff]
      exact ⟨hstart.ge, hbottom, hend.le, htop⟩
    rw [List.filter_append, List.filter_eq_nil_iff.mpr hnone, List.filter_eq_self.mpr hall,
      List.nil_append, hinside, if_pos hheight]

end Height

/-! ### Two domains -/

def unitSites (_ : Nat) : Site := ⟨1, 1, Int.one_pos, Int.one_pos, [], .CORE⟩

def lowDomain : Group := ⟨"LOW", .VOLTAGE_DOMAIN, [⟨20, 0, 40, 1⟩]⟩

/-- A second domain, `y` above the bottom of the core. -/
def rightDomain (y : Int) : Group := ⟨"RIGHT", .POWER_DOMAIN, [⟨60, y, 80, y + 1⟩]⟩

/-- The rows of a core of height twenty. -/
def unitRows : List Row := makeUniformSite unitSites 0 ⟨0, 0, 100, 20⟩ .NONE [] 0 0

end OpenRoad.Ifp
