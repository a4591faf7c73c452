import OpenRoad.DrtPatchGuides
import Mathlib.Logic.Relation

/-!
The patched guides reach the pin. The anchor stays the center of a gcell of the stretched guide, and
every guide that is added shares a gcell with the one before it, on its layer or two layers away.
-/

namespace OpenRoad.Drt

open Db (Point Rect DbTechLayerDir)
open MostFrequent (NearestTally)

/-! ### The gcells along an axis -/

namespace FrGCellPattern

/-- The pattern divides the die into gcells of one, even size. -/
structure Regular (gp : FrGCellPattern) (dieLow dieHigh : Int) : Prop where
  spacing_pos : 0 < gp.spacing
  even : 2 ∣ gp.spacing
  count_pos : 0 < gp.count
  low : dieLow = gp.startCoord
  high : dieHigh = gp.startCoord + gp.spacing * gp.count

/-- The interval is made up of gcells of the pattern. -/
def Spans (gp : FrGCellPattern) (low high : Int) : Prop :=
  ∃ i j, 0 ≤ i ∧ i < j ∧ j ≤ gp.count ∧ low = gp.startCoord + gp.spacing * i ∧
    high = gp.startCoord + gp.spacing * j

/-- The coordinate is the low edge of a gcell. -/
def IsLow (gp : FrGCellPattern) (c : Int) : Prop :=
  ∃ i, 0 ≤ i ∧ i < gp.count ∧ c = gp.startCoord + gp.spacing * i

variable {gp : FrGCellPattern} {dieLow dieHigh : Int}

theorem Regular.spacing_eq (h : gp.Regular dieLow dieHigh) : gp.spacing = 2 * gp.spacing.tdiv 2 := by
  rw [Int.tdiv_eq_ediv_of_nonneg h.spacing_pos.le]
  have := h.even
  omega

theorem Regular.half_pos (h : gp.Regular dieLow dieHigh) : 0 < gp.spacing.tdiv 2 := by
  have heq := h.spacing_eq
  have hpos := h.spacing_pos
  omega

/-- The low edges are a gcell apart. -/
theorem IsLow.le {a b : Int} (ha : gp.IsLow a) (hb : gp.IsLow b) (hpos : 0 < gp.spacing)
    (hlt : a < b + gp.spacing) : a ≤ b := by
  obtain ⟨i, -, -, rfl⟩ := ha
  obtain ⟨j, -, -, rfl⟩ := hb
  have hij : i ≤ j := by
    by_contra hji
    have hmul : gp.spacing * (j + 1) ≤ gp.spacing * i :=
      Int.mul_le_mul_of_nonneg_left (by omega) hpos.le
    rw [Int.mul_add, Int.mul_one] at hmul
    omega
  have hmul : gp.spacing * i ≤ gp.spacing * j := Int.mul_le_mul_of_nonneg_left hij hpos.le
  omega

theorem Spans.isLow_low {low high : Int} (h : gp.Spans low high) : gp.IsLow low := by
  obtain ⟨i, j, hi, hij, hj, hlow, -⟩ := h
  exact ⟨i, hi, by omega, hlow⟩

theorem Spans.isLow_high {low high : Int} (h : gp.Spans low high) :
    gp.IsLow (high - gp.spacing) := by
  obtain ⟨i, j, hi, hij, hj, -, rfl⟩ := h
  refine ⟨j - 1, by omega, by omega, ?_⟩
  rw [Int.mul_sub, Int.mul_one]
  omega

theorem Spans.low_le {low high : Int} (h : gp.Spans low high) (hpos : 0 < gp.spacing) :
    low + gp.spacing ≤ high := by
  obtain ⟨i, j, hi, hij, hj, rfl, rfl⟩ := h
  have hmul : gp.spacing * (i + 1) ≤ gp.spacing * j :=
    Int.mul_le_mul_of_nonneg_left (by omega) hpos.le
  rw [Int.mul_add, Int.mul_one] at hmul
  omega

theorem clampIdx_mem (hcount : 0 < gp.count) (idx : Int) :
    0 ≤ gp.clampIdx idx ∧ gp.clampIdx idx < gp.count := by
  unfold clampIdx
  dsimp only
  split_ifs <;> omega

theorem clampIdx_of_mem {idx : Int} (hlow : 0 ≤ idx) (hhigh : idx < gp.count) :
    gp.clampIdx idx = idx := by
  unfold clampIdx
  rw [if_neg (by omega), if_neg (by omega)]

theorem Regular.lowEdge (h : gp.Regular dieLow dieHigh) (idx : Int) :
    gp.lowEdge dieLow idx = gp.startCoord + gp.spacing * idx := by
  unfold FrGCellPattern.lowEdge
  split_ifs with hidx
  · rw [hidx, h.low, Int.mul_zero, Int.add_zero]
  · rw [Int.add_comm]

theorem Regular.highEdge (h : gp.Regular dieLow dieHigh) (idx : Int) :
    gp.highEdge dieHigh idx = gp.startCoord + gp.spacing * idx + gp.spacing := by
  have hnext : gp.spacing * (idx + 1) = gp.spacing * idx + gp.spacing := by
    rw [Int.mul_add, Int.mul_one]
  unfold FrGCellPattern.highEdge
  split_ifs with hidx
  · have hcount : gp.count = idx + 1 := by omega
    rw [h.high, hcount, hnext, Int.add_assoc]
  · omega

/-- The center of a gcell lies half a gcell above its low edge. -/
theorem Regular.center (h : gp.Regular dieLow dieHigh) (idx : Int) :
    (gp.lowEdge dieLow idx + gp.highEdge dieHigh idx).tdiv 2 =
      gp.startCoord + gp.spacing * idx + gp.spacing.tdiv 2 := by
  have heq := h.spacing_eq
  have hsum : gp.lowEdge dieLow idx + gp.highEdge dieHigh idx =
      2 * (gp.startCoord + gp.spacing * idx + gp.spacing.tdiv 2) := by
    rw [h.lowEdge, h.highEdge]
    omega
  rw [hsum, Int.mul_tdiv_cancel_left _ (by decide)]

/-- A gcell lies before, behind or within an interval of gcells as its center does. -/
theorem Spans.cases {low high b : Int} (hspans : gp.Spans low high)
    (h : gp.Regular dieLow dieHigh) (hb : gp.IsLow b) :
    (b + gp.spacing.tdiv 2 < low → b + gp.spacing ≤ low) ∧
      (high < b + gp.spacing.tdiv 2 → high ≤ b) ∧
      (low ≤ b + gp.spacing.tdiv 2 → b + gp.spacing.tdiv 2 ≤ high →
        low ≤ b ∧ b + gp.spacing ≤ high) := by
  have heq := h.spacing_eq
  have hhalf := h.half_pos
  have hlow : low < b + gp.spacing → low ≤ b := hspans.isLow_low.le hb h.spacing_pos
  have hhigh : b < high - gp.spacing + gp.spacing → b ≤ high - gp.spacing :=
    hb.le hspans.isLow_high h.spacing_pos
  omega

/-- The centers of the first and the last gcell of an interval. -/
theorem Spans.corner {low high c : Int} (hspans : gp.Spans low high)
    (h : gp.Regular dieLow dieHigh)
    (hc : c = low + gp.spacing.tdiv 2 ∨ c = high - gp.spacing.tdiv 2) :
    gp.IsLow (c - gp.spacing.tdiv 2) ∧ low ≤ c - gp.spacing.tdiv 2 ∧
      c + gp.spacing.tdiv 2 ≤ high := by
  have heq := h.spacing_eq
  have hle := hspans.low_le h.spacing_pos
  rcases hc with rfl | rfl
  · rw [Int.add_sub_cancel]
    exact ⟨hspans.isLow_low, by omega, by omega⟩
  · have hcorner : high - gp.spacing.tdiv 2 - gp.spacing.tdiv 2 = high - gp.spacing := by omega
    rw [hcorner]
    exact ⟨hspans.isLow_high, by omega, by omega⟩

end FrGCellPattern

/-! ### The gcells of the design -/

/-- `Rect::contains`, as inequalities. -/
theorem rect_contains_iff {r s : Rect} : r.contains s = true ↔
    r.xMin ≤ s.xMin ∧ r.yMin ≤ s.yMin ∧ s.xMax ≤ r.xMax ∧ s.yMax ≤ r.yMax := by
  rw [Rect.contains, decide_eq_true_iff]

theorem rect_contains_trans {r s t : Rect} (hrs : r.contains s = true) (hst : s.contains t = true) :
    r.contains t = true := by
  rw [rect_contains_iff] at *
  omega

namespace FrDesign

variable (D : FrDesign)

/-- The gcells have equal, even sizes and fill the die. -/
structure Regular : Prop where
  horz : D.xgp.Regular D.dieBox.xMin D.dieBox.xMax
  vert : D.ygp.Regular D.dieBox.yMin D.dieBox.yMax

/-- The box is made up of gcells. -/
structure OnGrid (box : Rect) : Prop where
  horz : D.xgp.Spans box.xMin box.xMax
  vert : D.ygp.Spans box.yMin box.yMax

def halfHorz : Int := D.getGCellSizeHorizontal.tdiv 2
def halfVert : Int := D.getGCellSizeVertical.tdiv 2

/-- The gcell with a center. -/
def cellAround (pt : Point3D) : Rect :=
  ⟨pt.x - D.halfHorz, pt.y - D.halfVert, pt.x + D.halfHorz, pt.y + D.halfVert⟩

/-- The place is the center of a gcell. -/
structure IsCenter (pt : Point3D) : Prop where
  horz : D.xgp.IsLow (pt.x - D.halfHorz)
  vert : D.ygp.IsLow (pt.y - D.halfVert)

variable {D} (hreg : D.Regular)

include hreg

theorem gcellBox_center {idx : Point} (hidx : D.isValidGCellIdx idx = true) (z : Int) :
    D.getGCellBox idx = D.cellAround (D.gcellCoords ⟨idx.x, idx.y, z⟩) ∧
      D.IsCenter (D.gcellCoords ⟨idx.x, idx.y, z⟩) := by
  simp only [isValidGCellIdx, Bool.and_eq_true, decide_eq_true_eq] at hidx
  obtain ⟨⟨⟨hx, hxc⟩, hy⟩, hyc⟩ := hidx
  have hxeq := hreg.horz.spacing_eq
  have hyeq := hreg.vert.spacing_eq
  have hxhalf := hreg.horz.half_pos
  have hyhalf := hreg.vert.half_pos
  have hcoords : D.gcellCoords ⟨idx.x, idx.y, z⟩ =
      ⟨D.xgp.startCoord + D.xgp.spacing * idx.x + D.halfHorz,
        D.ygp.startCoord + D.ygp.spacing * idx.y + D.halfVert, z⟩ := by
    rw [gcellCoords, getGCellCenter, hreg.horz.center, hreg.vert.center]
    rfl
  rw [hcoords]
  constructor
  · rw [getGCellBox, FrGCellPattern.clampIdx_of_mem hx hxc, FrGCellPattern.clampIdx_of_mem hy hyc,
      hreg.horz.lowEdge, hreg.horz.highEdge, hreg.vert.lowEdge, hreg.vert.highEdge]
    simp only [Rect.init, cellAround, halfHorz, halfVert, getGCellSizeHorizontal,
      getGCellSizeVertical, Rect.mk.injEq]
    omega
  · exact ⟨⟨idx.x, hx, hxc, by rw [Int.add_sub_cancel]⟩, ⟨idx.y, hy, hyc, by rw [Int.add_sub_cancel]⟩⟩

/-- Every center is that of a gcell of the grid. -/
theorem IsCenter.exists_gcell {pt : Point3D} (h : D.IsCenter pt) :
    ∃ idx, D.isValidGCellIdx idx = true ∧ D.getGCellBox idx = D.cellAround pt := by
  obtain ⟨⟨i, hi, hic, hx⟩, ⟨j, hj, hjc, hy⟩⟩ := h
  have hidx : D.isValidGCellIdx ⟨i, j⟩ = true := by
    simp only [isValidGCellIdx, Bool.and_eq_true, decide_eq_true_eq]
    exact ⟨⟨⟨hi, hic⟩, hj⟩, hjc⟩
  refine ⟨⟨i, j⟩, hidx, ?_⟩
  rw [(gcellBox_center hreg hidx pt.z).1, gcellCoords, getGCellCenter, hreg.horz.center,
    hreg.vert.center]
  have hxc : D.xgp.startCoord + D.xgp.spacing * i + D.halfHorz = pt.x := by omega
  have hyc : D.ygp.startCoord + D.ygp.spacing * j + D.halfVert = pt.y := by omega
  exact congrArg₂ (fun x y => D.cellAround ⟨x, y, pt.z⟩) hxc hyc

theorem isValidGCellIdx_getGCellIdx (pt : Point) : D.isValidGCellIdx (D.getGCellIdx pt) = true := by
  have hx := FrGCellPattern.clampIdx_mem hreg.horz.count_pos
    ((pt.x - D.xgp.startCoord).tdiv D.xgp.spacing)
  have hy := FrGCellPattern.clampIdx_mem hreg.vert.count_pos
    ((pt.y - D.ygp.startCoord).tdiv D.ygp.spacing)
  simp only [isValidGCellIdx, Bool.and_eq_true, decide_eq_true_eq]
  exact ⟨⟨hx, hy.1⟩, hy.2⟩

/-! ### The anchor -/

/-- The anchor is the center of a gcell of the guide. -/
structure Anchors (D : FrDesign) (guidePt : Point3D) (guide : FrRect) : Prop where
  center : D.IsCenter guidePt
  within : guide.box.contains (D.cellAround guidePt) = true
  layer : guidePt.z = guide.layerNum

theorem adjustGuidePoint_anchors {guide : FrRect} (hgrid : D.OnGrid guide.box) {guidePt : Point3D}
    (hz : guidePt.z = guide.layerNum) :
    D.Anchors (adjustGuidePoint guidePt guide.box D.halfHorz D.halfVert) guide := by
  obtain ⟨hxc, hxl, hxr⟩ := hgrid.horz.corner hreg.horz
    (c := (adjustGuidePoint guidePt guide.box D.halfHorz D.halfVert).x) (by
      unfold adjustGuidePoint
      dsimp only
      split_ifs
      · exact Or.inl rfl
      · exact Or.inr rfl)
  obtain ⟨hyc, hyl, hyr⟩ := hgrid.vert.corner hreg.vert
    (c := (adjustGuidePoint guidePt guide.box D.halfHorz D.halfVert).y) (by
      unfold adjustGuidePoint
      dsimp only
      split_ifs
      · exact Or.inl rfl
      · exact Or.inr rfl)
  exact ⟨⟨hxc, hyc⟩, rect_contains_iff.mpr ⟨hxl, hyl, hxr, hyr⟩, hz⟩

/-- Stretching the guide moves the anchor along and takes nothing from the guide. -/
theorem extendGuide_anchors {guide : FrRect} (hgrid : D.OnGrid guide.box) {guidePt best : Point3D}
    (hanchor : D.Anchors guidePt guide) (hbest : D.IsCenter best) :
    D.Anchors (extendGuide D best D.halfHorz D.halfVert guide guidePt).2
        (extendGuide D best D.halfHorz D.halfVert guide guidePt).1 ∧
      (extendGuide D best D.halfHorz D.halfVert guide guidePt).1.box.contains guide.box = true ∧
      (extendGuide D best D.halfHorz D.halfVert guide guidePt).1.layerNum = guide.layerNum := by
  have hxhalf : 0 < D.halfHorz := hreg.horz.half_pos
  have hyhalf : 0 < D.halfVert := hreg.vert.half_pos
  have hxcases := hgrid.horz.cases hreg.horz hbest.horz
  have hycases := hgrid.vert.cases hreg.vert hbest.vert
  have hxeq : D.xgp.spacing = 2 * D.halfHorz := hreg.horz.spacing_eq
  have hyeq : D.ygp.spacing = 2 * D.halfVert := hreg.vert.spacing_eq
  change (best.x - D.halfHorz + D.halfHorz < _ → _) ∧ (_ < best.x - D.halfHorz + D.halfHorz → _) ∧
    (_ ≤ best.x - D.halfHorz + D.halfHorz → best.x - D.halfHorz + D.halfHorz ≤ _ → _) at hxcases
  change (best.y - D.halfVert + D.halfVert < _ → _) ∧ (_ < best.y - D.halfVert + D.halfVert → _) ∧
    (_ ≤ best.y - D.halfVert + D.halfVert → best.y - D.halfVert + D.halfVert ≤ _ → _) at hycases
  obtain ⟨hcenter, hwithin, hlayer⟩ := hanchor
  have hall := rect_contains_iff.mp hwithin
  simp only [cellAround] at hall
  have hmoved : ∀ (box : Rect) (pt : Point3D), D.IsCenter pt → pt.z = guide.layerNum →
      (box.xMin ≤ pt.x - D.halfHorz ∧ box.yMin ≤ pt.y - D.halfVert ∧
        pt.x + D.halfHorz ≤ box.xMax ∧ pt.y + D.halfVert ≤ box.yMax) →
      (box.xMin ≤ guide.box.xMin ∧ box.yMin ≤ guide.box.yMin ∧
        guide.box.xMax ≤ box.xMax ∧ guide.box.yMax ≤ box.yMax) →
      D.Anchors pt { guide with box } ∧ box.contains guide.box = true ∧
        guide.layerNum = guide.layerNum := fun box pt hc hz hcell hbox =>
    ⟨⟨hc, rect_contains_iff.mpr hcell, hz⟩, rect_contains_iff.mpr hbox, rfl⟩
  have hsame := hmoved guide.box guidePt hcenter hlayer hall ⟨le_rfl, le_rfl, le_rfl, le_rfl⟩
  unfold extendGuide
  by_cases hhorz : D.isHorizontalLayer guidePt.z = true
  · rw [if_pos hhorz]
    by_cases hx : guidePt.x ≠ best.x
    · rw [if_pos hx]
      refine hmoved _ { guidePt with x := best.x } ⟨hbest.horz, hcenter.vert⟩ hlayer ?_ ?_
      · split_ifs <;> dsimp only <;> omega
      · split_ifs
        · dsimp only
          omega
        · dsimp only
          omega
        · exact ⟨le_rfl, le_rfl, le_rfl, le_rfl⟩
    · rw [if_neg hx]
      exact hsame
  · rw [if_neg hhorz]
    by_cases hvert : D.isVerticalLayer guidePt.z = true
    · rw [if_pos hvert]
      by_cases hy : guidePt.y ≠ best.y
      · rw [if_pos hy]
        refine hmoved _ { guidePt with y := best.y } ⟨hcenter.horz, hbest.vert⟩ hlayer ?_ ?_
        · split_ifs <;> dsimp only <;> omega
        · split_ifs
          · dsimp only
            omega
          · dsimp only
            omega
          · exact ⟨le_rfl, le_rfl, le_rfl, le_rfl⟩
      · rw [if_neg hy]
        exact hsame
    · rw [if_neg hvert]
      exact hsame

omit hreg

/-! ### What the patch keeps and adds -/

/-- The guides share a gcell, on one layer or on layers two apart. -/
def SharesGCell (D : FrDesign) (a b : FrRect) : Prop :=
  (a.layerNum = b.layerNum ∨ a.layerNum = b.layerNum + 2 ∨ b.layerNum = a.layerNum + 2) ∧
    ∃ idx, D.isValidGCellIdx idx = true ∧ a.box.contains (D.getGCellBox idx) = true ∧
      b.box.contains (D.getGCellBox idx) = true

/-- The guide is connected to the chosen one through guides of the list. -/
def Connected (D : FrDesign) (out : List FrRect) (chosen guide : FrRect) : Prop :=
  Relation.ReflTransGen (fun a b => b ∈ out ∧ D.SharesGCell a b) chosen guide

/-- Every guide is still covered on its layer; one that was changed or added is connected to the
chosen guide. -/
structure Patched (D : FrDesign) (guides : List FrRect) (chosen : FrRect) (out : List FrRect) :
    Prop where
  kept : ∀ (i : Nat) (guide : FrRect), guides[i]? = some guide →
    ∃ guide' : FrRect, out[i]? = some guide' ∧ guide'.layerNum = guide.layerNum ∧
      guide'.box.contains guide.box = true
  connected : ∀ (i : Nat) (guide : FrRect), out[i]? = some guide → guides[i]? ≠ some guide →
    D.Connected out chosen guide

/-- The patch has come to the gcell around a place, on a layer. -/
structure Reached (D : FrDesign) (guides : List FrRect) (chosen : FrRect) (best : Point3D)
    (out : List FrRect) (z : Int) : Prop where
  patched : D.Patched guides chosen out
  covered : ∃ guide ∈ out, guide.layerNum = z ∧ guide.box.contains (D.cellAround best) = true ∧
    D.Connected out chosen guide

variable {guides out : List FrRect} {chosen : FrRect} {best : Point3D}

theorem Connected.append {guide : FrRect} (h : D.Connected out chosen guide) (more : List FrRect) :
    D.Connected (out ++ more) chosen guide :=
  Relation.ReflTransGen.mono (fun _ _ hstep => ⟨List.mem_append_left _ hstep.1, hstep.2⟩) _ _ h

theorem Patched.append (h : D.Patched guides chosen out) {guide : FrRect}
    (hguide : D.Connected (out ++ [guide]) chosen guide) :
    D.Patched guides chosen (out ++ [guide]) := by
  refine ⟨fun i old hold => ?_, fun i new hnew hne => ?_⟩
  · obtain ⟨guide', hguide', hcovers⟩ := h.kept i old hold
    exact ⟨guide', by rw [List.getElem?_append_left (List.getElem?_eq_some_iff.mp hguide').1, hguide'],
      hcovers⟩
  · rcases lt_or_ge i out.length with hi | hi
    · rw [List.getElem?_append_left hi] at hnew
      exact (h.connected i new hnew hne).append _
    · rw [List.getElem?_append_right hi, List.getElem?_singleton] at hnew
      split_ifs at hnew with hzero
      rw [← Option.some.inj hnew]
      exact hguide

/-- One more guide, which shares a gcell with a connected one. -/
theorem Patched.extend (h : D.Patched guides chosen out) {last guide : FrRect}
    (hlast : D.Connected out chosen last) (hshares : D.SharesGCell last guide) :
    D.Patched guides chosen (out ++ [guide]) ∧ D.Connected (out ++ [guide]) chosen guide := by
  have hguide : D.Connected (out ++ [guide]) chosen guide :=
    (hlast.append _).tail ⟨List.mem_append_right _ List.mem_cons_self, hshares⟩
  exact ⟨h.append hguide, hguide⟩

/-- The chosen guide is replaced by one that contains it. -/
theorem patched_set {i : Nat} (hi : guides[i]? = some chosen) {guide : FrRect}
    (hlayer : guide.layerNum = chosen.layerNum) (hbox : guide.box.contains chosen.box = true)
    (hshares : D.SharesGCell chosen guide) :
    D.Patched guides chosen (guides.set i guide) ∧
      D.Connected (guides.set i guide) chosen guide := by
  have hlt := (List.getElem?_eq_some_iff.mp hi).1
  have hmem : guide ∈ guides.set i guide := List.mem_set hlt guide
  have hconn : D.Connected (guides.set i guide) chosen guide :=
    Relation.ReflTransGen.single ⟨hmem, hshares⟩
  refine ⟨⟨fun j old hold => ?_, fun j new hnew hne => ?_⟩, hconn⟩
  · rcases eq_or_ne i j with rfl | hij
    · rw [hi] at hold
      rw [← Option.some.inj hold]
      exact ⟨guide, List.getElem?_set_self hlt, hlayer, hbox⟩
    · exact ⟨old, by rw [List.getElem?_set_ne hij, hold], rfl,
        rect_contains_iff.mpr ⟨le_rfl, le_rfl, le_rfl, le_rfl⟩⟩
  · rcases eq_or_ne i j with rfl | hij
    · rw [List.getElem?_set_self hlt] at hnew
      rw [← Option.some.inj hnew]
      exact hconn
    · rw [List.getElem?_set_ne hij] at hnew
      exact absurd hnew hne

/-! ### The steps of the patch -/

include hreg

/-- Guides with the gcell around a center in common, on one layer or on layers two apart. -/
theorem IsCenter.shares {pt : Point3D} (hpt : D.IsCenter pt) {a b : FrRect}
    (hlayers : a.layerNum = b.layerNum ∨ a.layerNum = b.layerNum + 2 ∨ b.layerNum = a.layerNum + 2)
    (ha : a.box.contains (D.cellAround pt) = true) (hb : b.box.contains (D.cellAround pt) = true) :
    D.SharesGCell a b := by
  obtain ⟨idx, hvalid, hbox⟩ := hpt.exists_gcell hreg
  exact ⟨hlayers, idx, hvalid, hbox ▸ ha, hbox ▸ hb⟩

/-- The patch on the layer of the guide holds the anchor and the gcell. -/
theorem connectGuidesWithBestPinLoc_reached (hpatched : D.Patched guides chosen out)
    {guide : FrRect} (hmem : guide ∈ out) (hconn : D.Connected out chosen guide)
    {guidePt : Point3D} (hanchor : D.Anchors guidePt guide) :
    D.Reached guides chosen best
      (connectGuidesWithBestPinLoc guidePt best D.halfHorz D.halfVert out) guidePt.z := by
  have hxhalf : 0 < D.halfHorz := hreg.horz.half_pos
  have hyhalf : 0 < D.halfVert := hreg.vert.half_pos
  unfold connectGuidesWithBestPinLoc
  split_ifs with hne
  · dsimp only
    have hcells : ∀ pt : Point3D, pt = guidePt ∨ pt = best →
        (Rect.init (min best.x guidePt.x - D.halfHorz) (min best.y guidePt.y - D.halfVert)
          (max best.x guidePt.x + D.halfHorz) (max best.y guidePt.y + D.halfVert)).contains
            (D.cellAround pt) = true := by
      rintro pt (rfl | rfl)
      · rw [rect_contains_iff]
        simp only [Rect.init, cellAround]
        omega
      · rw [rect_contains_iff]
        simp only [Rect.init, cellAround]
        omega
    obtain ⟨hnew, hlast⟩ := hpatched.extend hconn (hanchor.center.shares hreg
      (b := ⟨_, guidePt.z⟩) (Or.inl hanchor.layer.symm) hanchor.within (hcells _ (Or.inl rfl)))
    exact ⟨hnew, _, List.mem_append_right _ List.mem_cons_self, rfl, hcells _ (Or.inr rfl), hlast⟩
  · have hx : guidePt.x = best.x := by_contra fun h => hne (Or.inl h)
    have hy : guidePt.y = best.y := by_contra fun h => hne (Or.inr h)
    refine ⟨hpatched, guide, hmem, hanchor.layer.symm, ?_, hconn⟩
    have hwithin := hanchor.within
    rwa [cellAround, hx, hy] at hwithin

theorem gcellGuide_box (z : Int) :
    (gcellGuide best D.halfHorz D.halfVert z).box = D.cellAround best := by
  have hxhalf : 0 < D.halfHorz := hreg.horz.half_pos
  have hyhalf : 0 < D.halfVert := hreg.vert.half_pos
  simp only [gcellGuide, Rect.init, cellAround, Rect.mk.injEq]
  omega

/-- One more guide of a gcell, two layers away. -/
theorem Reached.step (hbest : D.IsCenter best) {z z' : Int} (h : D.Reached guides chosen best out z)
    (hz : z = z' + 2 ∨ z' = z + 2) :
    D.Reached guides chosen best (out ++ [gcellGuide best D.halfHorz D.halfVert z']) z' := by
  obtain ⟨hpatched, guide, hmem, rfl, hcell, hconn⟩ := h
  have hself : (gcellGuide best D.halfHorz D.halfVert z').box.contains (D.cellAround best) = true := by
    rw [gcellGuide_box hreg]
    exact rect_contains_iff.mpr ⟨le_rfl, le_rfl, le_rfl, le_rfl⟩
  obtain ⟨hnew, hlast⟩ := hpatched.extend hconn (hbest.shares hreg (Or.inr hz) hcell hself)
  exact ⟨hnew, _, List.mem_append_right _ List.mem_cons_self, rfl, hself, hlast⟩

/-- The loop over the layers ends on the layer of the gcell. -/
theorem fillGuidesFrom_reached (hbest : D.IsCenter best) {inc : Int} (hinc : inc = 2 ∨ inc = -2)
    {n : Nat} {currZ : Int} (hz : best.z = currZ - inc + inc * n)
    (h : D.Reached guides chosen best out (currZ - inc)) :
    ∃ out', (∃ k, ∀ fuel ≥ k,
        fillGuidesFrom best D.halfHorz D.halfVert inc fuel currZ out = some out') ∧
      D.Reached guides chosen best out' best.z := by
  induction n generalizing currZ out with
  | zero =>
      have hend : currZ = best.z + inc := by
        rw [hz]
        simp
      refine ⟨out, ⟨1, fun fuel hfuel => ?_⟩, ?_⟩
      · obtain ⟨fuel, rfl⟩ : ∃ m, fuel = m + 1 := ⟨fuel - 1, by omega⟩
        rw [fillGuidesFrom, if_neg (not_not.mpr hend)]
      · rwa [hend, Int.add_sub_cancel] at h
  | succ n ih =>
      have hmul : inc * ((n + 1 : Nat) : Int) = inc * n + inc := by
        rw [Nat.cast_succ, Int.mul_add, Int.mul_one]
      have hne : currZ ≠ best.z + inc := by
        rcases hinc with rfl | rfl <;> omega
      have hnext : D.Reached guides chosen best
          (out ++ [gcellGuide best D.halfHorz D.halfVert currZ]) (currZ + inc - inc) := by
        rw [Int.add_sub_cancel]
        exact h.step hreg hbest (by omega)
      obtain ⟨out', ⟨k, hk⟩, hreached⟩ := ih (by omega) hnext
      refine ⟨out', ⟨k + 1, fun fuel hfuel => ?_⟩, hreached⟩
      obtain ⟨fuel, rfl⟩ : ∃ m, fuel = m + 1 := ⟨fuel - 1, by omega⟩
      rw [fillGuidesFrom, if_pos hne]
      exact hk fuel (by omega)

theorem fillGuidesUpToZ_reached (hbest : D.IsCenter best) {startZ : Int}
    (hparity : 2 ∣ startZ - best.z) (h : D.Reached guides chosen best out startZ) :
    ∃ out', (∃ k, ∀ fuel ≥ k,
        fillGuidesUpToZ best startZ D.halfHorz D.halfVert out fuel = some out') ∧
      D.Reached guides chosen best out' best.z := by
  unfold fillGuidesUpToZ
  dsimp only
  split_ifs with hlt
  · rw [← Int.add_sub_cancel startZ 2] at h
    exact fillGuidesFrom_reached hreg hbest (n := ((best.z - startZ) / 2).toNat) (Or.inl rfl)
      (by omega) h
  · rw [← Int.add_sub_cancel startZ (-2)] at h
    exact fillGuidesFrom_reached hreg hbest (n := ((startZ - best.z) / 2).toNat) (Or.inr rfl)
      (by omega) h

/-- The anchor is put on the guide, moved with it, and the gcell is reached from there. -/
theorem patchGuidesHelper_reached {i : Nat} (hi : guides[i]? = some chosen)
    (hgrid : D.OnGrid chosen.box) (hbest : D.IsCenter best)
    (hparity : 2 ∣ chosen.layerNum - best.z) :
    ∃ out, (∃ k, ∀ fuel ≥ k, patchGuidesHelper D guides best i fuel = some out) ∧
      D.Reached guides chosen best out best.z := by
  let closestPt := getClosestPoint chosen.box best
  let corner := adjustGuidePoint ⟨closestPt.x, closestPt.y, chosen.layerNum⟩ chosen.box
    D.halfHorz D.halfVert
  let extended := extendGuide D best D.halfHorz D.halfVert chosen corner
  have hcorner : D.Anchors corner chosen := adjustGuidePoint_anchors hreg hgrid rfl
  obtain ⟨hanchor, hbox, hlayer⟩ := extendGuide_anchors hreg hgrid hcorner hbest
  obtain ⟨hpatched, hconn⟩ := patched_set hi hlayer hbox (hcorner.center.shares hreg
    (Or.inl hlayer.symm) hcorner.within (rect_contains_trans hbox hcorner.within))
  have hmem : extended.1 ∈ guides.set i extended.1 :=
    List.mem_set (List.getElem?_eq_some_iff.mp hi).1 _
  have hrun : ∀ fuel, patchGuidesHelper D guides best i fuel =
      if extended.2 = best then some (guides.set i extended.1)
      else fillGuidesUpToZ best extended.2.z D.halfHorz D.halfVert
        (connectGuidesWithBestPinLoc extended.2 best D.halfHorz D.halfVert
          (guides.set i extended.1)) fuel := by
    intro fuel
    rw [patchGuidesHelper, hi]
    rfl
  by_cases hend : extended.2 = best
  · refine ⟨guides.set i extended.1, ⟨0, fun fuel _ => by rw [hrun, if_pos hend]⟩, hpatched,
      extended.1, hmem, ?_, ?_, hconn⟩
    · rw [← hend]
      exact hanchor.layer.symm
    · rw [← hend]
      exact hanchor.within
  · have hz : extended.2.z = chosen.layerNum := hanchor.layer.trans hlayer
    obtain ⟨out, ⟨k, hk⟩, hreached⟩ := fillGuidesUpToZ_reached hreg hbest (by rwa [hz])
      (@connectGuidesWithBestPinLoc_reached _ hreg _ _ _ best hpatched _ hmem hconn _ hanchor)
    exact ⟨out, ⟨k, fun fuel hfuel => by rw [hrun, if_neg hend, hk fuel hfuel]⟩, hreached⟩

end FrDesign

/-! ### The gcell and the guide -/

/-- The scan has gone through the guides and holds the nearest one. -/
structure ClosestScan.Holds (scan : ClosestScan) (dist : FrRect → Int) (guides : List FrRect) :
    Prop where
  guideIdx : scan.guideIdx = guides.length
  nearest : ∃ chosen, guides[scan.closestGuideIdx]? = some chosen ∧
    scan.minDist = some (dist chosen) ∧ ∀ guide ∈ guides, dist chosen ≤ dist guide

theorem ClosestScan.holds_last {scan : ClosestScan} {dist : FrRect → Int} {guides : List FrRect}
    {last : FrRect} (hidx : scan.guideIdx = guides.length)
    (hall : scan.minDist.all (dist last < ·) = true)
    (hlt : ∀ guide ∈ guides, dist last ≤ dist guide) :
    (scan.step (dist last)).Holds dist (guides ++ [last]) := by
  rw [ClosestScan.step, if_pos hall]
  refine ⟨by simp [hidx], last, by simp [hidx], rfl, fun guide hguide => ?_⟩
  rcases List.mem_append.mp hguide with h | h
  · exact hlt guide h
  · rw [List.mem_singleton.mp h]

theorem ClosestScan.Holds.step {scan : ClosestScan} {dist : FrRect → Int} {guides : List FrRect}
    (h : scan.Holds dist guides) (last : FrRect) :
    (scan.step (dist last)).Holds dist (guides ++ [last]) := by
  obtain ⟨hidx, chosen, hchosen, hmin, hleast⟩ := h
  by_cases hlt : dist last < dist chosen
  · exact ClosestScan.holds_last hidx (by simpa [hmin] using hlt) fun guide hguide =>
      hlt.le.trans (hleast guide hguide)
  · have hnot : ¬scan.minDist.all (dist last < ·) = true := by simpa [hmin] using hlt
    rw [ClosestScan.step, if_neg hnot]
    refine ⟨by simp [hidx], chosen, ?_, hmin, fun guide hguide => ?_⟩
    · exact (List.getElem?_append_left (List.getElem?_eq_some_iff.mp hchosen).1).trans hchosen
    · rcases List.mem_append.mp hguide with h | h
      · exact hleast guide h
      · rw [List.mem_singleton.mp h]
        exact not_lt.mp hlt

/-- The guide that is found has the least distance. -/
theorem findClosestGuide_spec (coords : Point3D) {guides : List FrRect} (penalty : Int)
    (hne : guides ≠ []) :
    ∃ chosen, guides[findClosestGuide coords guides penalty]? = some chosen ∧
      ∀ guide ∈ guides, layeredDist coords penalty chosen ≤ layeredDist coords penalty guide := by
  have hscan : (guides.foldl (fun (scan : ClosestScan) guide =>
      scan.step (layeredDist coords penalty guide)) ⟨0, none, 0⟩).Holds
        (layeredDist coords penalty) guides := by
    induction guides using List.reverseRecOn with
    | nil => exact absurd rfl hne
    | append_singleton guides last ih =>
        rw [List.foldl_append, List.foldl_cons, List.foldl_nil]
        by_cases hnil : guides = []
        · subst hnil
          exact ClosestScan.holds_last rfl rfl fun guide hguide => absurd hguide List.not_mem_nil
        · exact (ih hnil).step last
  obtain ⟨chosen, hchosen, -, hleast⟩ := hscan.nearest
  exact ⟨chosen, hchosen, hleast⟩

/-- How often a gcell is counted: each of its access points once for every guide at the distance. -/
def suitability (D : FrDesign) (pin : FrPinObject) (guides : List FrRect) (d : Int)
    (idx : Point3D) : Nat :=
  ((getAccessPoints pin).countP fun ap => D.apGCell ap = idx) *
    guides.countP fun guide => D.guideDist guide idx = d

/-- A gcell that holds the most suitable access points of the pin: no access point lies in a gcell
nearer to a guide, and no gcell is counted more often. -/
structure MostSuitable (D : FrDesign) (pin : FrPinObject) (guides : List FrRect) (d : Int)
    (idx : Point3D) : Prop where
  holds : ∃ ap ∈ getAccessPoints pin, D.apGCell ap = idx
  nearest : ∃ guide ∈ guides, D.guideDist guide idx = d
  least : ∀ ap ∈ getAccessPoints pin, ∀ guide ∈ guides, d ≤ D.guideDist guide (D.apGCell ap)
  most : ∀ ap ∈ getAccessPoints pin,
    suitability D pin guides d (D.apGCell ap) ≤ suitability D pin guides d idx

/-- The candidates of the scan over the access points and the guides. -/
def candidates (D : FrDesign) (pin : FrPinObject) (guides : List FrRect) : List (Point3D × Int) :=
  (getAccessPoints pin).flatMap fun ap =>
    guides.map fun guide => (D.apGCell ap, D.guideDist guide (D.apGCell ap))

theorem findBestPinLocation_eq (D : FrDesign) (pin : FrPinObject) (guides : List FrRect) :
    findBestPinLocation D pin guides =
      (NearestTally.collect (candidates D pin guides)).winner ⟨0, 0, 0⟩ := by
  rw [NearestTally.collect, candidates, List.foldl_flatMap]
  simp only [List.foldl_map]
  rfl

theorem mem_candidates {D : FrDesign} {pin : FrPinObject} {guides : List FrRect}
    {p : Point3D × Int} : p ∈ candidates D pin guides ↔
      ∃ ap ∈ getAccessPoints pin, ∃ guide ∈ guides,
        (D.apGCell ap, D.guideDist guide (D.apGCell ap)) = p := by
  simp only [candidates, List.mem_flatMap, List.mem_map]

theorem count_keysAt_candidates (D : FrDesign) (pin : FrPinObject) (guides : List FrRect) (d : Int)
    (idx : Point3D) :
    (NearestTally.keysAt (candidates D pin guides) d).count idx =
      suitability D pin guides d idx := by
  rw [NearestTally.count_keysAt]
  unfold suitability candidates
  induction getAccessPoints pin with
  | nil => simp
  | cons ap aps ih =>
      rw [List.flatMap_cons, List.countP_append, ih, List.countP_map, List.countP_cons]
      by_cases h : D.apGCell ap = idx
      · have hone : guides.countP ((fun p : Point3D × Int => decide (p.1 = idx ∧ p.2 = d)) ∘
            fun guide => (D.apGCell ap, D.guideDist guide (D.apGCell ap))) =
              guides.countP fun guide => D.guideDist guide idx = d := by
          apply List.countP_congr
          simp [h]
        rw [hone, if_pos (decide_eq_true h), Nat.add_mul, Nat.one_mul, Nat.add_comm]
      · simp [h]

/-- The gcell that is found holds the most suitable access points. -/
theorem findBestPinLocation_mostSuitable (D : FrDesign) {pin : FrPinObject}
    (hpin : getAccessPoints pin ≠ []) {guides : List FrRect} (hguides : guides ≠ []) :
    ∃ d, MostSuitable D pin guides d (findBestPinLocation D pin guides) := by
  obtain ⟨ap, hap⟩ := List.exists_mem_of_ne_nil _ hpin
  obtain ⟨guide, hguide⟩ := List.exists_mem_of_ne_nil _ hguides
  have hne : candidates D pin guides ≠ [] :=
    List.ne_nil_of_mem (mem_candidates.mpr ⟨ap, hap, guide, hguide, rfl⟩)
  obtain ⟨p, hp, hleast, hmost⟩ := NearestTally.isMostFrequent_winner ⟨0, 0, 0⟩ hne
  rw [← findBestPinLocation_eq] at hmost
  have hmem := hmost.mem
  rw [NearestTally.keysAt, List.mem_map] at hmem
  obtain ⟨q, hq, hkey⟩ := hmem
  obtain ⟨hq, hdist⟩ := List.mem_filter.mp hq
  obtain ⟨ap, hap, guide, hguide, rfl⟩ := mem_candidates.mp hq
  dsimp only at hkey hdist
  refine ⟨p.2, ⟨ap, hap, hkey⟩, ⟨guide, hguide, hkey ▸ of_decide_eq_true hdist⟩,
    fun ap hap guide hguide => hleast _ (mem_candidates.mpr ⟨ap, hap, guide, hguide, rfl⟩),
    fun ap hap => ?_⟩
  rw [← count_keysAt_candidates, ← count_keysAt_candidates]
  by_cases hin : D.apGCell ap ∈ NearestTally.keysAt (candidates D pin guides) p.2
  · exact hmost.count_le _ hin
  · rw [List.count_eq_zero_of_not_mem hin]
    exact Nat.zero_le _

/-- The patched guides cover the gcell with the most suitable access points on its layer and keep
what the guides covered; what is stretched or added is connected to the guide nearest to the
gcell. -/
theorem patchGuides_reaches (D : FrDesign) (hreg : D.Regular) (pin : FrPinObject)
    (guides : List FrRect) (hguides : guides ≠ []) (hgrid : ∀ guide ∈ guides, D.OnGrid guide.box)
    (hpin : getAccessPoints pin ≠ [])
    (hlayers : ∀ guide ∈ guides, ∀ ap ∈ getAccessPoints pin, 2 ∣ guide.layerNum - ap.z)
    (hcovered : isPinCoveredByGuides pin guides = false) :
    ∃ out, (∃ k, ∀ fuel ≥ k, patchGuides D pin guides fuel = some out) ∧
      ∃ best d chosen, MostSuitable D pin guides d best ∧ chosen ∈ guides ∧
        (∀ guide ∈ guides, layeredDist (D.gcellCoords best) 1 chosen ≤
          layeredDist (D.gcellCoords best) 1 guide) ∧
        (∃ guide ∈ out, guide.layerNum = best.z ∧
          guide.box.contains (D.getGCellBox ⟨best.x, best.y⟩) = true) ∧
        D.Patched guides chosen out := by
  obtain ⟨d, hbest⟩ := findBestPinLocation_mostSuitable D hpin hguides
  obtain ⟨chosen, hchosen, hnear⟩ :=
    findClosestGuide_spec (D.gcellCoords (findBestPinLocation D pin guides)) 1 hguides
  have hmem := List.mem_of_getElem? hchosen
  obtain ⟨ap, hap, hidx⟩ := hbest.holds
  have hvalid := FrDesign.isValidGCellIdx_getGCellIdx hreg ⟨ap.x, ap.y⟩
  obtain ⟨hbox, hcenter⟩ := FrDesign.gcellBox_center hreg hvalid ap.z
  have hz : (D.gcellCoords (findBestPinLocation D pin guides)).z = ap.z := by
    rw [← hidx]
    rfl
  change D.getGCellBox _ = D.cellAround (D.gcellCoords (D.apGCell ap)) at hbox
  change D.IsCenter (D.gcellCoords (D.apGCell ap)) at hcenter
  rw [hidx] at hbox hcenter
  obtain ⟨out, ⟨k, hk⟩, hreached⟩ := FrDesign.patchGuidesHelper_reached hreg hchosen
    (hgrid chosen hmem) hcenter (by rw [hz]; exact hlayers chosen hmem ap hap)
  refine ⟨out, ⟨k, fun fuel hfuel => ?_⟩, _, d, chosen, hbest, hmem, hnear, ?_, hreached.patched⟩
  · rw [patchGuides, hcovered]
    exact hk fuel hfuel
  · obtain ⟨guide, hout, hlayer, hcell, -⟩ := hreached.covered
    refine ⟨guide, hout, hlayer, ?_⟩
    rw [← hbox] at hcell
    rw [← hidx]
    exact hcell

/-- Four by four gcells; layer 2 is horizontal, layer 4 vertical. -/
def fourByFour : FrDesign where
  dieBox := ⟨0, 0, 40, 40⟩
  xgp := ⟨0, 10, 4, false⟩
  ygp := ⟨0, 10, 4, true⟩
  getDir := fun layerNum =>
    if layerNum = 2 then .HORIZONTAL else if layerNum = 4 then .VERTICAL else .NONE

def farPin : FrPinObject := .bterm [[[⟨⟨35, 25⟩, 4⟩, ⟨⟨37, 22⟩, 4⟩]]]

def lowGuide : FrRect := ⟨⟨0, 0, 20, 10⟩, 2⟩

/-- The guide is stretched to the right, a patch goes up to the gcell and a guide to its layer. -/
theorem patchGuides_reaches_farPin :
    ∃ out, (∃ k, ∀ fuel ≥ k, patchGuides fourByFour farPin [lowGuide] fuel = some out) ∧
      ∃ best d chosen, MostSuitable fourByFour farPin [lowGuide] d best ∧ chosen ∈ [lowGuide] ∧
        (∀ guide ∈ [lowGuide], layeredDist (fourByFour.gcellCoords best) 1 chosen ≤
          layeredDist (fourByFour.gcellCoords best) 1 guide) ∧
        (∃ guide ∈ out, guide.layerNum = best.z ∧
          guide.box.contains (fourByFour.getGCellBox ⟨best.x, best.y⟩) = true) ∧
        fourByFour.Patched [lowGuide] chosen out := by
  have hreg : fourByFour.Regular :=
    ⟨⟨by decide, by decide, by decide, rfl, rfl⟩, ⟨by decide, by decide, by decide, rfl, rfl⟩⟩
  refine patchGuides_reaches fourByFour hreg farPin [lowGuide] (by decide) (fun guide hguide => ?_)
    (by decide) (by decide) (by decide)
  rw [List.mem_singleton.mp hguide]
  exact ⟨⟨0, 2, by decide⟩, ⟨0, 1, by decide⟩⟩

example : patchGuides fourByFour farPin [lowGuide] 2 = some
    [⟨⟨0, 0, 40, 10⟩, 2⟩, ⟨⟨30, 0, 40, 30⟩, 2⟩, ⟨⟨30, 20, 40, 30⟩, 4⟩] := by
  decide

end OpenRoad.Drt
