import OpenRoad.DbTransform
import OpenRoad.DbWireOpcode
import OpenRoad.MostFrequent
import Mathlib.Data.Int.ModEq

/-!
The gcell pattern of the detailed router. Without a grid in the database the pattern is derived from
the guides: its spacing is the width that most of them have, its offset that of most low edges.
-/

namespace OpenRoad.Drt

open Db (DbTechLayerDir)
open MostFrequent

/-- `frRect` -/
structure GuideRect where
  layerNum : Nat
  bbox : Db.Rect
  deriving DecidableEq

structure FrGCellPattern where
  startCoord : Int
  spacing : Int
  count : Int
  horizontal : Bool
  deriving DecidableEq

/-- The errors of the computation, by their numbers, and a division by zero. -/
inductive GCellFault where
  | noGCellGridX170
  | noGCellGridY171
  | noGCellGridX172
  | noGCellGridY173
  | countX174
  | countY175
  | divisionByZero
  deriving DecidableEq

namespace GCell

/-- The widths of the guides of vertical layers. -/
def widthsX (getDir : Nat → DbTechLayerDir) (guides : List GuideRect) : List Int :=
  (guides.filter fun g => getDir g.layerNum = .VERTICAL).map fun g => g.bbox.xMax - g.bbox.xMin

/-- The widths of the guides of horizontal layers. -/
def widthsY (getDir : Nat → DbTechLayerDir) (guides : List GuideRect) : List Int :=
  (guides.filter fun g => getDir g.layerNum = .HORIZONTAL).map fun g => g.bbox.yMax - g.bbox.yMin

/-- `buildGCellPatterns_getWidth` -/
def getWidth (getDir : Nat → DbTechLayerDir) (guides : List GuideRect) :
    Except GCellFault (Int × Int) :=
  let tmpGCELLGRIDX := mostFrequent (-1) (widthsX getDir guides)
  let tmpGCELLGRIDY := mostFrequent (-1) (widthsY getDir guides)
  if tmpGCELLGRIDX = -1 then .error .noGCellGridX170
  else if tmpGCELLGRIDY = -1 then .error .noGCellGridY171
  else .ok (tmpGCELLGRIDX, tmpGCELLGRIDY)

/-- The offset of a low edge: a negative remainder is subtracted from the spacing. -/
def guideOffset (spacing low : Int) : Int :=
  let offset := low.tmod spacing
  if offset < 0 then spacing - offset else offset

/-- `buildGCellPatterns_getOffset` -/
def getOffset (guides : List GuideRect) (spacingX spacingY : Int) :
    Except GCellFault (Int × Int) :=
  if guides ≠ [] ∧ (spacingX = 0 ∨ spacingY = 0) then .error .divisionByZero
  else
    let tmpGCELLOFFSETX := mostFrequent (-1) (guides.map fun g => guideOffset spacingX g.bbox.xMin)
    let tmpGCELLOFFSETY := mostFrequent (-1) (guides.map fun g => guideOffset spacingY g.bbox.yMin)
    if tmpGCELLOFFSETX = -1 then .error .noGCellGridX172
    else if tmpGCELLOFFSETY = -1 then .error .noGCellGridY173
    else .ok (tmpGCELLOFFSETX, tmpGCELLOFFSETY)

/-- The first line of the pattern along an axis. -/
def startCoord (dieLow spacing offset : Int) : Int :=
  let start := dieLow.tdiv spacing * spacing + offset
  if dieLow < start then start - spacing else start

/-- The pattern along an axis, or the error where the die has no room for a gcell. -/
def axisPattern (fault : GCellFault) (horizontal : Bool) (dieLow dieHigh spacing offset : Int) :
    Except GCellFault FrGCellPattern :=
  let start := startCoord dieLow spacing offset
  if (dieHigh - offset).tdiv spacing < 1 then .error fault
  else .ok ⟨start, spacing, (dieHigh - start).tdiv spacing, horizontal⟩

/-- `buildGCellPatterns`: the patterns of the grid in the database, each as start, count and spacing,
or the ones derived from the guides. -/
def buildGCellPatterns (getDir : Nat → DbTechLayerDir)
    (gcellGrid : Option (List (Int × Int × Int) × List (Int × Int × Int)))
    (tmpGuides : List GuideRect) (dieBox : Db.Rect) :
    Except GCellFault (FrGCellPattern × FrGCellPattern) :=
  match gcellGrid with
  | some ([(startX, countX, spacingX)], [(startY, countY, spacingY)]) =>
      .ok (⟨startX, spacingX, countX, false⟩, ⟨startY, spacingY, countY, true⟩)
  | _ => do
      let (spacingX, spacingY) ← getWidth getDir tmpGuides
      let (offsetX, offsetY) ← getOffset tmpGuides spacingX spacingY
      let xgp ← axisPattern .countX174 false dieBox.xMin dieBox.xMax spacingX offsetX
      let ygp ← axisPattern .countY175 true dieBox.yMin dieBox.yMax spacingY offsetY
      return (xgp, ygp)

/-! ### What a pattern is for -/

/-- How many of the coordinates are congruent to `r`. -/
def classSize (spacing : Int) (lows : List Int) (r : Int) : Nat :=
  lows.countP fun a => a % spacing = r % spacing

/-- A line of the grid. -/
def GridLine (p : FrGCellPattern) (c : Int) : Prop :=
  ∃ k, 0 ≤ k ∧ k ≤ p.count ∧ c = p.startCoord + k * p.spacing

/-- The pattern begins in the gcell of the die's low edge and is congruent to the largest class of
low edges; the guides in the die with both edges on its lattice are bounded by its lines. -/
structure Matches (p : FrGCellPattern) (edges : List (Int × Int)) (dieLow dieHigh : Int) : Prop where
  start_le : p.startCoord ≤ dieLow
  lt_next : dieLow < p.startCoord + p.spacing
  largest : ∃ low ∈ edges.map Prod.fst, p.startCoord ≡ low [ZMOD p.spacing] ∧
    ∀ r, classSize p.spacing (edges.map Prod.fst) r ≤ classSize p.spacing (edges.map Prod.fst) low
  aligned : ∀ e ∈ edges, e.1 ≡ p.startCoord [ZMOD p.spacing] → e.2 ≡ p.startCoord [ZMOD p.spacing] →
    dieLow ≤ e.1 → e.1 ≤ e.2 → e.2 ≤ dieHigh → GridLine p e.1 ∧ GridLine p e.2

/-- The edges of the guides along the axes. -/
def edgesX (guides : List GuideRect) : List (Int × Int) :=
  guides.map fun g => (g.bbox.xMin, g.bbox.xMax)

def edgesY (guides : List GuideRect) : List (Int × Int) :=
  guides.map fun g => (g.bbox.yMin, g.bbox.yMax)

/-- When the derived pattern matches. The offset that most guides have is compared with the
residues: one below the spacing is the residue of its guides; one above it is that of guides with
negative low edges, and stands for the opposite residue. -/
def OffsetFits (spacing : Int) (lows : List Int) (dieLow : Int) : Prop :=
  ∃ offset, IsMostFrequent (lows.map (guideOffset spacing)) offset ∧
    (∀ r, classSize spacing lows r ≤ classSize spacing lows offset) ∧
    if offset < spacing then 0 ≤ dieLow ∨ spacing ∣ dieLow ∨ offset ≤ dieLow % spacing
    else 0 ≤ dieLow ∧ offset % spacing ≤ dieLow % spacing

/-! ### Offsets and starts -/

/-- The offset is the residue, or its mirror image above the spacing. -/
theorem guideOffset_eq {spacing : Int} (hpos : 0 < spacing) (low : Int) :
    guideOffset spacing low =
      if 0 ≤ low ∨ spacing ∣ low then low % spacing else 2 * spacing - low % spacing := by
  have hnonneg := Int.emod_nonneg low hpos.ne'
  have hlt := Int.emod_lt_of_pos low hpos
  unfold guideOffset
  rw [Int.tmod_eq_emod]
  by_cases hplain : 0 ≤ low ∨ spacing ∣ low
  · rw [if_pos hplain, if_pos hplain]
    dsimp only
    rw [if_neg (by omega)]
    omega
  · rw [if_neg hplain, if_neg hplain]
    dsimp only
    rw [if_pos (by omega)]
    omega

/-- An offset is never the spacing itself. -/
theorem guideOffset_range {spacing : Int} (hpos : 0 < spacing) (low : Int) :
    0 ≤ guideOffset spacing low ∧ guideOffset spacing low < 2 * spacing ∧
      guideOffset spacing low ≠ spacing := by
  have hnonneg := Int.emod_nonneg low hpos.ne'
  have hlt := Int.emod_lt_of_pos low hpos
  rw [guideOffset_eq hpos]
  split_ifs with hplain
  · omega
  · have hne : low % spacing ≠ 0 := fun h => hplain (Or.inr (Int.dvd_of_emod_eq_zero h))
    omega

theorem startCoord_modEq (dieLow spacing offset : Int) :
    startCoord dieLow spacing offset ≡ offset [ZMOD spacing] := by
  unfold startCoord
  dsimp only
  have hmul : dieLow.tdiv spacing * spacing + offset ≡ offset [ZMOD spacing] := by
    simp [Int.ModEq]
  split_ifs
  · exact (Int.sub_emod_right ..).trans hmul
  · exact hmul

/-- When the start is in the spacing below the die's low edge. -/
theorem startCoord_covers_iff {spacing offset : Int} (hpos : 0 < spacing)
    (hoffset : 0 ≤ offset ∧ offset < 2 * spacing ∧ offset ≠ spacing) (dieLow : Int) :
    (startCoord dieLow spacing offset ≤ dieLow ∧
      dieLow < startCoord dieLow spacing offset + spacing) ↔
    if offset < spacing then 0 ≤ dieLow ∨ spacing ∣ dieLow ∨ offset ≤ dieLow % spacing
    else 0 ≤ dieLow ∧ offset % spacing ≤ dieLow % spacing := by
  have hnonneg := Int.emod_nonneg dieLow hpos.ne'
  have hlt := Int.emod_lt_of_pos dieLow hpos
  have hsplit := Int.emod_add_mul_ediv dieLow spacing
  have htdiv : dieLow.tdiv spacing * spacing = spacing * (dieLow / spacing) +
      if 0 ≤ dieLow ∨ spacing ∣ dieLow then 0 else spacing := by
    rw [Int.tdiv_eq_ediv, Int.sign_eq_one_of_pos hpos]
    split_ifs <;> ring
  have hdvd : spacing ∣ dieLow ↔ dieLow % spacing = 0 := Int.dvd_iff_emod_eq_zero
  unfold startCoord
  rw [htdiv]
  simp only [hdvd]
  by_cases hsmall : offset < spacing
  · rw [if_pos hsmall]
    split_ifs <;> omega
  · have hmod : offset % spacing = offset - spacing := by
      rw [← Int.sub_emod_right, Int.emod_eq_of_lt (by omega) (by omega)]
    rw [if_neg hsmall, hmod]
    split_ifs <;> omega

theorem classSize_congr {spacing r s : Int} (h : r ≡ s [ZMOD spacing]) (lows : List Int) :
    classSize spacing lows r = classSize spacing lows s := by
  unfold classSize
  rw [h.eq]

/-- A class that is a largest one of some coordinates has a member. -/
theorem exists_mem_of_largest {spacing r : Int} {lows : List Int} (hne : lows ≠ [])
    (h : ∀ s, classSize spacing lows s ≤ classSize spacing lows r) :
    ∃ low ∈ lows, r ≡ low [ZMOD spacing] := by
  obtain ⟨a, ha⟩ := List.exists_mem_of_ne_nil lows hne
  have hpos : 0 < classSize spacing lows a := by
    rw [classSize, List.countP_pos_iff]
    exact ⟨a, ha, by simp⟩
  have hlarge := hpos.trans_le (h a)
  rw [classSize, List.countP_pos_iff] at hlarge
  obtain ⟨low, hmem, heq⟩ := hlarge
  exact ⟨low, hmem, (of_decide_eq_true heq).symm⟩

/-- The pattern of an axis matches if and only if the most frequent offset fits. -/
theorem matches_iff {spacing : Int} (hpos : 0 < spacing) {edges : List (Int × Int)}
    (hne : edges ≠ []) {offset : Int}
    (hoffset : IsMostFrequent ((edges.map Prod.fst).map (guideOffset spacing)) offset)
    (dieLow dieHigh : Int) (horizontal : Bool) :
    Matches ⟨startCoord dieLow spacing offset, spacing,
        (dieHigh - startCoord dieLow spacing offset).tdiv spacing, horizontal⟩
        edges dieLow dieHigh ↔
      OffsetFits spacing (edges.map Prod.fst) dieLow := by
  obtain ⟨low, -, hlow⟩ := List.mem_map.mp hoffset.mem
  have hrange := hlow ▸ guideOffset_range hpos low
  have hcovers := startCoord_covers_iff hpos hrange dieLow
  have hmod := startCoord_modEq dieLow spacing offset
  have hne' : edges.map Prod.fst ≠ [] := by simpa using hne
  constructor
  · intro h
    obtain ⟨low, hmem, hcong, hlargest⟩ := h.largest
    have hclass := classSize_congr (hmod.symm.trans hcong) (edges.map Prod.fst)
    exact ⟨offset, hoffset, fun r => (hlargest r).trans hclass.ge,
      hcovers.mp ⟨h.start_le, h.lt_next⟩⟩
  · rintro ⟨offset', hoffset', hlargest, hfits⟩
    obtain rfl := hoffset.eq hoffset'
    obtain ⟨hle, hlt⟩ := hcovers.mpr hfits
    refine ⟨hle, hlt, ?_, ?_⟩
    · obtain ⟨low, hmem, hcong⟩ := exists_mem_of_largest hne' hlargest
      refine ⟨low, hmem, hmod.trans hcong, fun r => (hlargest r).trans ?_⟩
      exact (classSize_congr hcong _).le
    · -- An edge of the lattice in the die is at most `count` spacings from the start.
      have hline : ∀ c, c ≡ startCoord dieLow spacing offset [ZMOD spacing] → dieLow ≤ c →
          c ≤ dieHigh → GridLine ⟨startCoord dieLow spacing offset, spacing,
            (dieHigh - startCoord dieLow spacing offset).tdiv spacing, horizontal⟩ c := by
        intro c hc hlow hhigh
        obtain ⟨k, hk⟩ := (Int.modEq_iff_dvd.mp hc.symm)
        refine ⟨k, ?_, ?_, ?_⟩
        · by_contra hneg
          have : spacing * k ≤ spacing * (-1) := Int.mul_le_mul_of_nonneg_left (by omega) hpos.le
          omega
        · rw [Int.tdiv_eq_ediv_of_nonneg (by omega), Int.le_ediv_iff_mul_le hpos, mul_comm]
          omega
        · dsimp only
          rw [mul_comm]
          omega
      intro e _ he1 he2 hlow hee hhigh
      exact ⟨hline e.1 he1 hlow (hee.trans hhigh), hline e.2 he2 (hlow.trans hee) hhigh⟩

/-! ### The two axes -/

theorem getWidth_ok {getDir : Nat → DbTechLayerDir} {guides : List GuideRect}
    {spacingX spacingY : Int} (h : getWidth getDir guides = .ok (spacingX, spacingY)) :
    IsMostFrequent (widthsX getDir guides) spacingX ∧
      IsMostFrequent (widthsY getDir guides) spacingY := by
  unfold getWidth at h
  dsimp only at h
  split_ifs at h with hx hy
  obtain ⟨rfl, rfl⟩ := Prod.mk.inj (Except.ok.inj h)
  constructor
  · apply isMostFrequent_mostFrequent
    intro hnil
    exact hx (by rw [hnil, mostFrequent_nil])
  · apply isMostFrequent_mostFrequent
    intro hnil
    exact hy (by rw [hnil, mostFrequent_nil])

theorem getOffset_ok {guides : List GuideRect} {spacingX spacingY offsetX offsetY : Int}
    (h : getOffset guides spacingX spacingY = .ok (offsetX, offsetY)) :
    guides ≠ [] ∧ spacingX ≠ 0 ∧ spacingY ≠ 0 ∧
      IsMostFrequent (guides.map fun g => guideOffset spacingX g.bbox.xMin) offsetX ∧
      IsMostFrequent (guides.map fun g => guideOffset spacingY g.bbox.yMin) offsetY := by
  unfold getOffset at h
  dsimp only at h
  split_ifs at h with hzero hx hy
  obtain ⟨rfl, rfl⟩ := Prod.mk.inj (Except.ok.inj h)
  have hne : guides ≠ [] := by
    rintro rfl
    exact hx rfl
  refine ⟨hne, fun h => hzero ⟨hne, Or.inl h⟩, fun h => hzero ⟨hne, Or.inr h⟩, ?_, ?_⟩
  · exact isMostFrequent_mostFrequent _ (by simpa using hne)
  · exact isMostFrequent_mostFrequent _ (by simpa using hne)

theorem axisPattern_ok {fault : GCellFault} {horizontal : Bool}
    {dieLow dieHigh spacing offset : Int} {p : FrGCellPattern}
    (h : axisPattern fault horizontal dieLow dieHigh spacing offset = .ok p) :
    p = ⟨startCoord dieLow spacing offset, spacing,
      (dieHigh - startCoord dieLow spacing offset).tdiv spacing, horizontal⟩ := by
  unfold axisPattern at h
  dsimp only at h
  split_ifs at h
  exact (Except.ok.inj h).symm

/-- What a successful computation without a grid in the database went through. -/
theorem buildGCellPatterns_ok {getDir : Nat → DbTechLayerDir} {guides : List GuideRect}
    {dieBox : Db.Rect} {xgp ygp : FrGCellPattern}
    (h : buildGCellPatterns getDir none guides dieBox = .ok (xgp, ygp)) :
    ∃ spacingX spacingY offsetX offsetY,
      getWidth getDir guides = .ok (spacingX, spacingY) ∧
      getOffset guides spacingX spacingY = .ok (offsetX, offsetY) ∧
      axisPattern .countX174 false dieBox.xMin dieBox.xMax spacingX offsetX = .ok xgp ∧
      axisPattern .countY175 true dieBox.yMin dieBox.yMax spacingY offsetY = .ok ygp := by
  unfold buildGCellPatterns at h
  rcases hwidth : getWidth getDir guides with fault | ⟨spacingX, spacingY⟩
  · rw [hwidth] at h
    cases h
  rcases hoffset : getOffset guides spacingX spacingY with fault | ⟨offsetX, offsetY⟩
  · simp [hwidth, hoffset, bind, Except.bind] at h
  rcases hxgp : axisPattern .countX174 false dieBox.xMin dieBox.xMax spacingX offsetX with fault | p
  · simp [hwidth, hoffset, hxgp, bind, Except.bind] at h
  rcases hygp : axisPattern .countY175 true dieBox.yMin dieBox.yMax spacingY offsetY with fault | q
  · simp [hwidth, hoffset, hxgp, hygp, bind, Except.bind] at h
  simp only [hwidth, hoffset, hxgp, hygp, bind, Except.bind, pure, Except.pure, Except.ok.injEq,
    Prod.mk.injEq] at h
  obtain ⟨rfl, rfl⟩ := h
  exact ⟨spacingX, spacingY, offsetX, offsetY, rfl, hoffset, hxgp, hygp⟩

theorem pos_of_width {guides : List GuideRect} (hguides : ∀ g ∈ guides, g.bbox.Ordered)
    {getDir : Nat → DbTechLayerDir} {spacingX spacingY : Int}
    (h : getWidth getDir guides = .ok (spacingX, spacingY)) : 0 ≤ spacingX ∧ 0 ≤ spacingY := by
  obtain ⟨hx, hy⟩ := getWidth_ok h
  obtain ⟨g, hg, hgx⟩ := List.mem_map.mp hx.mem
  obtain ⟨g', hg', hgy⟩ := List.mem_map.mp hy.mem
  have hgx' := (hguides g (List.mem_filter.mp hg).1).x
  have hgy' := (hguides g' (List.mem_filter.mp hg').1).y
  constructor <;> omega

/-- Derived patterns match the die and the guides if and only if, with the most frequent widths as
spacings, the most frequent offsets fit. -/
theorem buildGCellPatterns_matches_iff {getDir : Nat → DbTechLayerDir} {guides : List GuideRect}
    (hguides : ∀ g ∈ guides, g.bbox.Ordered) {dieBox : Db.Rect} {xgp ygp : FrGCellPattern}
    (h : buildGCellPatterns getDir none guides dieBox = .ok (xgp, ygp)) :
    (Matches xgp (edgesX guides) dieBox.xMin dieBox.xMax ∧
      Matches ygp (edgesY guides) dieBox.yMin dieBox.yMax) ↔
      (∃ spacing, IsMostFrequent (widthsX getDir guides) spacing ∧
        OffsetFits spacing (guides.map fun g => g.bbox.xMin) dieBox.xMin) ∧
      ∃ spacing, IsMostFrequent (widthsY getDir guides) spacing ∧
        OffsetFits spacing (guides.map fun g => g.bbox.yMin) dieBox.yMin := by
  obtain ⟨spacingX, spacingY, offsetX, offsetY, hwidth, hoffset, hxgp, hygp⟩ :=
    buildGCellPatterns_ok h
  obtain ⟨hwx, hwy⟩ := getWidth_ok hwidth
  obtain ⟨hne, hx0, hy0, hox, hoy⟩ := getOffset_ok hoffset
  obtain ⟨hxpos, hypos⟩ := pos_of_width hguides hwidth
  rw [axisPattern_ok hxgp, axisPattern_ok hygp]
  have hlx : (edgesX guides).map Prod.fst = guides.map fun g => g.bbox.xMin := by
    rw [edgesX, List.map_map]
    rfl
  have hly : (edgesY guides).map Prod.fst = guides.map fun g => g.bbox.yMin := by
    rw [edgesY, List.map_map]
    rfl
  rw [matches_iff (by omega) (by simpa [edgesX] using hne)
      (by rw [hlx, List.map_map]; exact hox) _ _ false,
    matches_iff (by omega) (by simpa [edgesY] using hne)
      (by rw [hly, List.map_map]; exact hoy) _ _ true, hlx, hly]
  constructor
  · rintro ⟨hfx, hfy⟩
    exact ⟨⟨spacingX, hwx, hfx⟩, ⟨spacingY, hwy, hfy⟩⟩
  · rintro ⟨⟨sx, hsx, hfx⟩, ⟨sy, hsy, hfy⟩⟩
    rw [hwx.eq hsx, hwy.eq hsy]
    exact ⟨hfx, hfy⟩

/-- Two guides beside the origin on a die that begins left of it. -/
theorem buildGCellPatterns_matches_origin :
    (Matches ⟨-10, 10, 3, false⟩ (edgesX [⟨0, ⟨0, 0, 10, 10⟩⟩, ⟨1, ⟨0, 0, 10, 10⟩⟩]) (-10) 20 ∧
      Matches ⟨-10, 10, 3, true⟩ (edgesY [⟨0, ⟨0, 0, 10, 10⟩⟩, ⟨1, ⟨0, 0, 10, 10⟩⟩]) (-10) 20) ↔
      (∃ spacing, IsMostFrequent (widthsX (fun l => if l = 0 then .VERTICAL else .HORIZONTAL)
          [⟨0, ⟨0, 0, 10, 10⟩⟩, ⟨1, ⟨0, 0, 10, 10⟩⟩]) spacing ∧
        OffsetFits spacing (([⟨0, ⟨0, 0, 10, 10⟩⟩, ⟨1, ⟨0, 0, 10, 10⟩⟩] : List GuideRect).map
          fun g => g.bbox.xMin) (-10)) ∧
      ∃ spacing, IsMostFrequent (widthsY (fun l => if l = 0 then .VERTICAL else .HORIZONTAL)
          [⟨0, ⟨0, 0, 10, 10⟩⟩, ⟨1, ⟨0, 0, 10, 10⟩⟩]) spacing ∧
        OffsetFits spacing (([⟨0, ⟨0, 0, 10, 10⟩⟩, ⟨1, ⟨0, 0, 10, 10⟩⟩] : List GuideRect).map
          fun g => g.bbox.yMin) (-10) :=
  buildGCellPatterns_matches_iff
    (by
      rintro g hg
      obtain rfl | rfl : g = ⟨0, ⟨0, 0, 10, 10⟩⟩ ∨ g = ⟨1, ⟨0, 0, 10, 10⟩⟩ := by simpa using hg
      all_goals exact ⟨by decide, by decide⟩)
    (show buildGCellPatterns _ none _ ⟨-10, -10, 20, 20⟩ = .ok _ by decide)

/-- A die that begins at -15, not at a multiple of the spacing 10, and guides at offset 7. -/
theorem not_buildGCellPatterns_matches :
    ¬∀ (getDir : Nat → DbTechLayerDir) (guides : List GuideRect) (dieBox : Db.Rect)
      (xgp ygp : FrGCellPattern), (∀ g ∈ guides, g.bbox.Ordered) → dieBox.Ordered →
      buildGCellPatterns getDir none guides dieBox = .ok (xgp, ygp) →
        Matches xgp (edgesX guides) dieBox.xMin dieBox.xMax ∧
          Matches ygp (edgesY guides) dieBox.yMin dieBox.yMax := by
  intro hall
  have hguides : ∀ g ∈ ([⟨0, ⟨7, 0, 17, 10⟩⟩, ⟨1, ⟨7, 0, 17, 10⟩⟩] : List GuideRect),
      g.bbox.Ordered := by
    intro g hg
    obtain rfl | rfl : g = ⟨0, ⟨7, 0, 17, 10⟩⟩ ∨ g = ⟨1, ⟨7, 0, 17, 10⟩⟩ := by simpa using hg
    all_goals exact ⟨by decide, by decide⟩
  obtain ⟨h, -⟩ := hall (fun l => if l = 0 then .VERTICAL else .HORIZONTAL) _ ⟨-15, 0, 37, 20⟩
    ⟨-13, 10, 5, false⟩ ⟨0, 10, 2, true⟩ hguides ⟨by decide, by decide⟩ (by decide)
  exact absurd h.start_le (by decide)

end GCell

end OpenRoad.Drt
