import OpenRoad.DplEdgeSpacing
import Mathlib.Data.List.TakeWhile

/-!
The window in which the neighbours of an edge are looked for meets a pixel of every cell in the core
that is painted on its outline and has an edge within the spacing.
-/

namespace OpenRoad.Dpl

open Db (Point Rect Orient Transform)

/-! ### Columns and rows of an extent -/

theorem takeWhile_length_le_of_imp {α : Type*} {p q : α → Bool} {l : List α}
    (h : ∀ a ∈ l, p a = true → q a = true) :
    (l.takeWhile p).length ≤ (l.takeWhile q).length := by
  induction l with
  | nil => exact le_rfl
  | cons a l ih =>
      by_cases hp : p a = true
      · rw [List.takeWhile_cons_of_pos hp, List.takeWhile_cons_of_pos (h a List.mem_cons_self hp)]
        exact Nat.succ_le_succ (ih fun b hb => h b (List.mem_cons_of_mem a hb))
      · rw [List.takeWhile_cons_of_neg hp]
        exact Nat.zero_le _

theorem lt_divCeil_iff {x d n : Int} (hd : 0 < d) : n < divCeil x d ↔ n * d < x := by
  unfold divCeil
  rw [lt_neg, Int.ediv_lt_iff_lt_mul hd, neg_mul, neg_lt_neg_iff]

theorem le_divCeil {x d n : Int} (hd : 0 < d) (h : n * d ≤ x) : n ≤ divCeil x d := by
  apply Int.le_of_sub_one_lt
  rw [lt_divCeil_iff hd, sub_mul, one_mul]
  omega

theorem divCeil_mono {x x' d : Int} (hd : 0 < d) (h : x ≤ x') : divCeil x d ≤ divCeil x' d := by
  unfold divCeil
  exact neg_le_neg (Int.ediv_le_ediv hd (neg_le_neg h))

/-- Division rounded towards 0 rounds up below it. -/
theorem tdiv_eq_divCeil {x d : Int} (h : x ≤ 0) : x.tdiv d = divCeil x d := by
  unfold divCeil
  rw [← Int.tdiv_eq_ediv_of_nonneg (Int.neg_nonneg_of_nonpos h), Int.neg_tdiv, neg_neg]

namespace Grid

variable {G : Grid}

theorem gridEndY_mono {y y' : Int} (h : y ≤ y') : G.gridEndY y ≤ G.gridEndY y' := by
  unfold gridEndY
  refine Int.ofNat_le.mpr (takeWhile_length_le_of_imp fun a _ ha => ?_)
  rw [decide_eq_true_eq] at ha ⊢
  exact ha.trans_le h

/-- The row of a coordinate at or above the first row is below every row end above it. -/
theorem gridSnapDownY_spec {y : Int} (h : ∃ first ∈ G.rowYs.head?, first ≤ y) :
    0 ≤ G.gridSnapDownY y ∧ ∀ y', y < y' → G.gridSnapDownY y < G.gridEndY y' := by
  obtain ⟨first, hfirst, hle⟩ := h
  obtain ⟨rest, hrest⟩ := List.head?_eq_some_iff.mp hfirst
  have hpos : 0 < (G.rowYs.takeWhile (· ≤ y)).length := by
    rw [hrest, List.takeWhile_cons_of_pos (by exact decide_eq_true hle), List.length_cons]
    exact Nat.succ_pos _
  have hsnap : G.gridSnapDownY y = ((G.rowYs.takeWhile (· ≤ y)).length : Int) - 1 := by
    unfold gridSnapDownY
    exact if_neg hpos.ne'
  refine ⟨by omega, fun y' hlt => ?_⟩
  have hmono : (G.rowYs.takeWhile (· ≤ y)).length ≤ (G.rowYs.takeWhile (· < y')).length := by
    refine takeWhile_length_le_of_imp fun a _ ha => ?_
    rw [decide_eq_true_eq] at ha ⊢
    exact ha.trans_lt hlt
  unfold gridEndY
  omega

/-- The end row of a coordinate up to the top of the last row is at most the number of rows. -/
theorem gridEndY_le_rowCount {y : Int} (h : ∃ last ∈ G.rowYs.getLast?, y ≤ last) :
    G.gridEndY y ≤ G.rowCount := by
  obtain ⟨last, hlast, hle⟩ := h
  obtain ⟨rows, hrows⟩ := List.getLast?_eq_some_iff.mp hlast
  have hlength : G.rowYs.length = rows.length + 1 := by simp [hrows]
  have hshort : (G.rowYs.takeWhile (· < y)).length ≤ rows.length := by
    by_contra hlong
    have hall : G.rowYs.takeWhile (· < y) = G.rowYs := by
      apply (List.takeWhile_prefix _).eq_of_length_le
      omega
    have hlt := List.takeWhile_eq_self_iff.mp hall last (by simp [hrows])
    rw [decide_eq_true_eq] at hlt
    omega
  unfold gridEndY rowCount
  omega

theorem gridX_mul_le (hsite : 0 < G.siteWidth) {x : Int} (hx : 0 ≤ x) :
    G.gridX x * G.siteWidth ≤ x := by
  unfold gridX
  rw [Int.tdiv_eq_ediv_of_nonneg hx]
  exact Int.ediv_mul_le x hsite.ne'

/-- Columns from `gridX` of a coordinate, which rounds towards 0, to `gridEndX` of another. -/
theorem exists_column (hsite : 0 < G.siteWidth) {left right xMin xMax : Int} (hleft : 0 ≤ left)
    (hwidth : left < right) (hquery : xMin ≤ xMax) (hmin : xMin < right) (hmax : left < xMax) :
    ∃ x, (G.gridX left ≤ x ∧ x < divCeil right G.siteWidth) ∧ 0 ≤ x ∧
      G.gridX xMin ≤ x ∧ x ≤ G.gridEndX xMax := by
  have hx : G.gridX left * G.siteWidth ≤ left := gridX_mul_le hsite hleft
  refine ⟨max (G.gridX left) (G.gridX xMin), ⟨le_max_left _ _, max_lt ?_ ?_⟩,
    (Int.tdiv_nonneg hleft hsite.le).trans (le_max_left _ _), le_max_right _ _, max_le ?_ ?_⟩
  · exact (lt_divCeil_iff hsite).mpr (hx.trans_lt hwidth)
  · rcases le_total 0 xMin with hxMin | hxMin
    · exact (lt_divCeil_iff hsite).mpr ((gridX_mul_le hsite hxMin).trans_lt hmin)
    · have hpos : (0 : Int) < divCeil right G.siteWidth := by
        rw [lt_divCeil_iff hsite, zero_mul]
        exact hleft.trans_lt hwidth
      calc G.gridX xMin = divCeil xMin G.siteWidth := tdiv_eq_divCeil hxMin
        _ ≤ divCeil 0 G.siteWidth := divCeil_mono hsite hxMin
        _ = 0 := by rw [divCeil, neg_zero, Int.zero_ediv, neg_zero]
        _ < divCeil right G.siteWidth := hpos
  · exact ((lt_divCeil_iff hsite).mpr (hx.trans_lt hmax)).le
  · rcases le_total 0 xMin with hxMin | hxMin
    · exact (le_divCeil hsite (gridX_mul_le hsite hxMin)).trans (divCeil_mono hsite hquery)
    · calc G.gridX xMin = divCeil xMin G.siteWidth := tdiv_eq_divCeil hxMin
        _ ≤ divCeil xMax G.siteWidth := divCeil_mono hsite hquery

/-- A row of an extent in the core that is a row of the window of another extent. -/
theorem exists_row {bottom top yMin yMax : Int}
    (hbottom : ∃ first ∈ G.rowYs.head?, first ≤ bottom)
    (htop : ∃ last ∈ G.rowYs.getLast?, top ≤ last) (hheight : bottom < top)
    (hquery : yMin ≤ yMax) (hmin : yMin < top) (hmax : bottom < yMax) :
    ∃ y, (G.gridSnapDownY bottom ≤ y ∧ y < G.gridEndY top) ∧ (0 ≤ y ∧ y < G.rowCount) ∧
      G.gridEndY yMin - 1 ≤ y ∧ y ≤ G.gridEndY yMax := by
  obtain ⟨hnonneg, hsnap⟩ := gridSnapDownY_spec hbottom
  have htop' := gridEndY_le_rowCount htop
  have hmin' := gridEndY_mono (G := G) hmin.le
  have hquery' := gridEndY_mono (G := G) hquery
  have hheight' := hsnap top hheight
  have hmax' := hsnap yMax hmax
  exact ⟨max (G.gridSnapDownY bottom) (G.gridEndY yMin - 1), ⟨le_max_left _ _, by omega⟩,
    ⟨by omega, by omega⟩, le_max_right _ _, by omega⟩

end Grid

/-! ### The window -/

namespace Opendp

variable {s : Opendp} {table : List (List EdgeSpacingRule)} {p : Probe} {edge1 edge2 : MasterEdge}
  {cell2 : Nat}

theorem ordered_getQueryRect {edgeBox : Rect} {spc : Int} (hbox : edgeBox.Ordered) (hspc : 0 ≤ spc) :
    (getQueryRect edgeBox spc).Ordered := by
  have hx := hbox.x
  have hy := hbox.y
  unfold getQueryRect
  split_ifs
  · exact ⟨by dsimp only; omega, hy⟩
  · exact ⟨hx, by dsimp only; omega⟩

/-- A cell that is painted on its outline is met whenever one of its edges breaks a rule. -/
theorem Faces.seen (htable : s.HasTable table) (hsite : 0 < s.grid.siteWidth)
    (h : s.Faces table p edge1 cell2 edge2) (hcell : s.PaintedOnOutline cell2) :
    s.Seen p edge1 cell2 := by
  have hbox : (s.probeBox p edge1).Ordered := Db.Rect.ordered_init _ _ _ _
  have hbox2 : (s.neighbourBox cell2 edge2).Ordered := Db.Rect.ordered_init _ _ _ _
  have hdist := @edgeDist_nonneg _ (s.neighbourBox cell2 edge2) hbox
  have hnear := lt_of_breaks htable hdist h.breaks
  have hover : Overlaps (s.probeQuery p edge1) (s.neighbourBox cell2 edge2) :=
    overlaps_of_commonRun h.run hbox hbox2 hnear
  have hquery : (s.probeQuery p edge1).Ordered :=
    ordered_getQueryRect hbox (hdist.trans hnear.le)
  obtain ⟨⟨hxMin, hxMax⟩, hyMin, hyMax⟩ := hover
  obtain ⟨edges, hedges, hedge2⟩ := h.edge2_mem
  obtain ⟨hleft, hright, hbottom, htop⟩ := hcell.edges_inside edges hedges edge2 hedge2
  have hwidth := hcell.width_pos
  have hheight := hcell.height_pos
  obtain ⟨x, ⟨hxlo, hxhi⟩, hx0, hxquery⟩ := Grid.exists_column hsite hcell.left_nonneg
    (lt_add_of_pos_right _ hwidth) hquery.x (hxMin.trans_le hright) (hleft.trans_lt hxMax)
  obtain ⟨y, ⟨hylo, hyhi⟩, ⟨hy0, hycount⟩, hyquery⟩ := Grid.exists_row hcell.bottom_le hcell.top_le
    (lt_add_of_pos_right _ hheight) hquery.y (hyMin.trans_le htop) (hbottom.trans_lt hyMax)
  have hxcount : x < s.grid.rowSiteCount := by
    have hlt := ((lt_divCeil_iff hsite).mp hxhi).trans_le hcell.right_le
    exact Int.lt_of_mul_lt_mul_right hlt hsite.le
  have hgrid : s.grid.inGrid x y = true := s.grid.inGrid_iff.mpr ⟨hx0, hxcount, hy0, hycount⟩
  refine ⟨x, y, hxquery, hyquery, ?_⟩
  unfold pixelCell
  rw [if_pos hgrid]
  exact hcell.painted x y hgrid hxlo hxhi hylo hyhi

/-- What is claimed, by what the window meets and what it misses. -/
theorem spacingViolated_iff :
    s.SpacingViolated table p ↔ s.ViolationMet table p ∨ s.ViolationMissed table p := by
  constructor
  · rintro ⟨edge1, cell2, edge2, hfaces, hpainted, hexempt⟩
    by_cases hseen : s.Seen p edge1 cell2
    · exact Or.inl ⟨edge1, cell2, edge2, hfaces, hseen, hexempt⟩
    · exact Or.inr ⟨edge1, cell2, edge2, hfaces, hpainted, hseen, hexempt⟩
  · rintro (⟨edge1, cell2, edge2, hfaces, hseen, hexempt⟩ |
      ⟨edge1, cell2, edge2, hfaces, hpainted, -, hexempt⟩)
    · exact ⟨edge1, cell2, edge2, hfaces, hseen.painted, hexempt⟩
    · exact ⟨edge1, cell2, edge2, hfaces, hpainted, hexempt⟩

/-- What is checked. -/
theorem checkEdgeSpacing_met_iff (htable : s.HasTable table) {c : Nat} {x y yReal : Int}
    {orient : Orient} (hy : s.grid.gridYToDbu y = some yReal) :
    s.checkEdgeSpacing c x y orient = some false ↔
      s.ViolationMet table (s.probeAt c x yReal orient) ∨
        s.ExemptMet table (s.probeAt c x yReal orient) := by
  rw [checkEdgeSpacing_eq_false_iff htable hy]
  constructor
  · rintro ⟨edge1, cell2, edge2, hfaces, hseen⟩
    by_cases hexempt : s.ExemptPair table (s.probeAt c x yReal orient) edge1 cell2 edge2
    · exact Or.inr ⟨edge1, cell2, edge2, hfaces, hseen, hexempt⟩
    · exact Or.inl ⟨edge1, cell2, edge2, hfaces, hseen, hexempt⟩
  · rintro (⟨edge1, cell2, edge2, hfaces, hseen, -⟩ | ⟨edge1, cell2, edge2, hfaces, hseen, -⟩)
    · exact ⟨edge1, cell2, edge2, hfaces, hseen⟩
    · exact ⟨edge1, cell2, edge2, hfaces, hseen⟩

/-- The check fails for the forbidden distances alone exactly if it meets one, or meets exempt
edges only where it misses a forbidden distance. It misses none to cells that are painted on their
outlines. -/
theorem checkEdgeSpacing_violated_iff (s : Opendp) (table : List (List EdgeSpacingRule))
    (htable : s.HasTable table) {c : Nat} {x y yReal : Int} {orient : Orient}
    (hy : s.grid.gridYToDbu y = some yReal) :
    ((s.checkEdgeSpacing c x y orient = some false ↔
        s.SpacingViolated table (s.probeAt c x yReal orient)) ↔
      s.ViolationMet table (s.probeAt c x yReal orient) ∨
        (s.ViolationMissed table (s.probeAt c x yReal orient) ↔
          s.ExemptMet table (s.probeAt c x yReal orient))) ∧
      (0 < s.grid.siteWidth → (∀ cell2, cell2 ≠ c → s.Painted cell2 → s.PaintedOnOutline cell2) →
        ¬s.ViolationMissed table (s.probeAt c x yReal orient)) := by
  constructor
  · rw [checkEdgeSpacing_met_iff htable hy, spacingViolated_iff]
    tauto
  · rintro hsite houtline ⟨edge1, cell2, edge2, hfaces, hpainted, hunseen, -⟩
    exact hunseen (hfaces.seen htable hsite (houtline cell2 hfaces.ne hpainted))

end Opendp

/-! ### Two abutting cells -/

/-- Edges of the type are five apart, or abut. -/
def abutRules : List CellEdgeSpacing := [⟨"A", "A", 5, false, true⟩]

def abutCell (n : Nat) : Node :=
  ⟨n, ⟨0, .CORE, [], 0, 10, none⟩, ⟨10 * n, 0⟩, ⟨.R0, ⟨10 * n, 0⟩⟩, 10 * n, 0, 10, 10, .R0, false,
    true, false, none⟩

/-- One row of two sites, with a cell on each. Their masters have a left and a right edge. -/
def abutOpendp : Opendp where
  numNodes := 2
  node := abutCell
  pixels := fun x _ => if x = 0 then some 0 else some 1
  grid := ⟨10, 10, 2, [0, 10], some 10, fun _ _ => ⟨true, [(0, .R0)], none⟩⟩
  padding := ⟨0, 0, [], []⟩
  boundary := fun _ => ⟨0, 0, 10, 10⟩
  edges := fun _ => some [⟨0, ⟨0, 0, 0, 10⟩⟩, ⟨0, ⟨10, 0, 10, 10⟩⟩]
  edgeSpacingTable := [[⟨5, false⟩]]
  region := fun _ => none
  regions := []
  groupBBox := fun _ => ⟨0, 0, 0, 0⟩
  maxDisplacementX := 500
  maxDisplacementY := 100
  disallowOneSiteGaps := false

theorem abutOpendp_hasTable :
    abutOpendp.HasTable (makeCellEdgeSpacingTable abutRules) := rfl

/-- The left cell, where it is. -/
def abutProbe : Opendp.Probe := abutOpendp.probeAt 0 0 0 .R0

theorem abutOpendp_painted {cell2 : Nat} (hne : cell2 ≠ 0) (h : abutOpendp.Painted cell2) :
    cell2 = 1 := by
  obtain ⟨x, y, hcell⟩ := h
  unfold Opendp.pixelCell at hcell
  split_ifs at hcell
  change (if x = 0 then some 0 else some 1) = some cell2 at hcell
  split_ifs at hcell
  · exact absurd (Option.some.inj hcell).symm hne
  · exact (Option.some.inj hcell).symm

theorem abutOpendp_paintedOnOutline : abutOpendp.PaintedOnOutline 1 where
  width_pos := by decide
  height_pos := by decide
  left_nonneg := by decide
  right_le := by decide
  bottom_le := ⟨0, rfl, by decide⟩
  top_le := ⟨10, rfl, by decide⟩
  painted := by
    intro x y _ hxlo _ _ _
    have hx : (1 : Int) ≤ x := hxlo
    exact if_neg (by omega)
  edges_inside := by
    intro edges hedges edge2 hedge2
    cases hedges
    rcases List.mem_pair.mp hedge2 with rfl | rfl
    · decide
    · decide

/-- The edges of both cells that abut are exempt, and all others are far enough. -/
theorem abutOpendp_exempt {edge1 edge2 : MasterEdge} {cell2 : Nat}
    (hfaces : abutOpendp.Faces (makeCellEdgeSpacingTable abutRules) abutProbe edge1 cell2 edge2)
    (hpainted : abutOpendp.Painted cell2) :
    abutOpendp.ExemptPair (makeCellEdgeSpacingTable abutRules) abutProbe edge1 cell2 edge2 := by
  obtain ⟨edges, hedges, hedge1⟩ := hfaces.edge1_mem
  obtain ⟨edges2, hedges2, hedge2⟩ := hfaces.edge2_mem
  have hbreaks := hfaces.breaks
  obtain rfl := abutOpendp_painted hfaces.ne hpainted
  cases hedges
  cases hedges2
  revert hbreaks
  rcases List.mem_pair.mp hedge1 with rfl | rfl <;> rcases List.mem_pair.mp hedge2 with rfl | rfl
  · exact fun hbreaks => absurd hbreaks (by decide)
  · exact fun hbreaks => absurd hbreaks (by decide)
  · exact fun _ => ⟨rfl, rfl⟩
  · exact fun hbreaks => absurd hbreaks (by decide)

/-- Next to its neighbour the cell meets the exempt edges only, and misses nothing. -/
theorem checkEdgeSpacing_violated_abut :
    ((abutOpendp.checkEdgeSpacing 0 0 0 .R0 = some false ↔
        abutOpendp.SpacingViolated (makeCellEdgeSpacingTable abutRules) abutProbe) ↔
      abutOpendp.ViolationMet (makeCellEdgeSpacingTable abutRules) abutProbe ∨
        (abutOpendp.ViolationMissed (makeCellEdgeSpacingTable abutRules) abutProbe ↔
          abutOpendp.ExemptMet (makeCellEdgeSpacingTable abutRules) abutProbe)) ∧
      ¬abutOpendp.ViolationMissed (makeCellEdgeSpacingTable abutRules) abutProbe := by
  have h := @Opendp.checkEdgeSpacing_violated_iff abutOpendp (makeCellEdgeSpacingTable abutRules)
    abutOpendp_hasTable 0 0 0 0 .R0 rfl
  refine ⟨h.1, h.2 (by decide) fun cell2 hne hpainted => ?_⟩
  obtain rfl := abutOpendp_painted hne hpainted
  exact abutOpendp_paintedOnOutline

/-- The check fails, although the only edges that are too close are exempt. -/
theorem not_checkEdgeSpacing_violated :
    abutOpendp.checkEdgeSpacing 0 0 0 .R0 = some false ∧
      ¬abutOpendp.SpacingViolated (makeCellEdgeSpacingTable abutRules) abutProbe := by
  refine ⟨by decide, ?_⟩
  rintro ⟨edge1, cell2, edge2, hfaces, hpainted, hexempt⟩
  exact hexempt (abutOpendp_exempt hfaces hpainted)

end OpenRoad.Dpl
