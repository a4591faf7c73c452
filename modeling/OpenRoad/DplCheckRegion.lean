import OpenRoad.DplCanBePlaced

/-!
The region rule of the checker beside that of the placer. The placer asks for the boxes of regions
that meet the footprint of a cell. The checker asks nothing of a cell without a region, and of a cell
with one that the cell lies in it and that the rows between the quotients of its bottom and its top by
its own height are met by one box: these are always one row, whatever the height of the cell.
-/

namespace OpenRoad.Dpl

open Db (Rect)

namespace Opendp

variable (s : Opendp)

/-! ### The two rules -/

/-- `checkRegionPlacement`; `none` where `gridYToDbu` leaves the row table. -/
def checkRegionPlacement (c : Nat) : Option Bool :=
  let cell := s.node c
  let xBegin := cell.left
  let xEnd := xBegin + cell.width
  let yBegin := cell.bottom
  let yEnd := yBegin + cell.height
  match s.region c with
  | none => some true
  | some region =>
      if region.contains ⟨xBegin, yBegin, xEnd, yEnd⟩ then
        s.checkRegionOverlap c (xBegin.tdiv s.grid.siteWidth) (yBegin.tdiv cell.height)
          (xEnd.tdiv s.grid.siteWidth) (yEnd.tdiv cell.height)
      else some false

/-- `checkRegionOverlap` as `checkPixels` calls it for the pixels that the cell occupies. -/
def checkRegionFootprint (c : Nat) : Option Bool :=
  let cell := s.node c
  let x := s.grid.gridPaddedX s.padding cell
  let y := s.grid.gridSnapDownY cell.bottom
  s.checkRegionOverlap c x y (x + s.grid.gridPaddedWidth s.padding cell)
    (y + s.grid.gridHeight cell)

/-! ### Boxes of regions -/

/-- The region as it is kept in the tree, its upper bounds included. -/
def regionBox (region : Rect) : Rect :=
  ⟨region.xMin, region.yMin, region.xMax - 1, region.yMax - 1⟩

/-- Two boxes meet, their bounds included. -/
def boxesMeet (box queryBox : Rect) : Bool :=
  box.xMin ≤ queryBox.xMax && queryBox.xMin ≤ box.xMax &&
    box.yMin ≤ queryBox.yMax && queryBox.yMin ≤ box.yMax

/-- A box is the only one that meets another one, and covers it. -/
def OnlyBox (box queryBox : Rect) : Prop :=
  s.regions.filter (boxesMeet · queryBox) = [box] ∧ box.contains queryBox = true

/-- Columns and rows of the grid as a box, its upper bounds included. -/
def queryBox (x y xEnd yEnd : Int) : Option Rect :=
  (s.grid.gridYToDbu y).bind fun yDbu => (s.grid.gridYToDbu yEnd).map fun yEndDbu =>
    ⟨s.grid.gridToDbu x, yDbu, s.grid.gridToDbu xEnd - 1, yEndDbu - 1⟩

/-- The padded columns and the rows that the cell occupies. -/
def footprintBox (c : Nat) : Option Rect :=
  let cell := s.node c
  let x := s.grid.gridPaddedX s.padding cell
  let y := s.grid.gridSnapDownY cell.bottom
  s.queryBox x y (x + s.grid.gridPaddedWidth s.padding cell) (y + s.grid.gridHeight cell)

/-- The columns of the cell in the one row whose number is the quotient of its bottom by its
height. -/
def quotientRowBox (c : Nat) : Option Rect :=
  let cell := s.node c
  s.queryBox (cell.left / s.grid.siteWidth) (cell.bottom / cell.height)
    ((cell.left + cell.width) / s.grid.siteWidth) (cell.bottom / cell.height + 1)

variable {s}

theorem checkRegionOverlap_eq_true {c : Nat} {x y xEnd yEnd : Int} :
    s.checkRegionOverlap c x y xEnd yEnd = some true ↔
      ∃ box, s.queryBox x y xEnd yEnd = some box ∧
        ((s.region c = none ∧ ∀ b ∈ s.regions, boxesMeet b box = false) ∨
          ((s.region c).isSome ∧ ∃ b, s.OnlyBox b box)) := by
  unfold checkRegionOverlap queryBox
  cases s.grid.gridYToDbu y with
  | none => exact iff_of_false (by simp) (by simp)
  | some yDbu =>
      cases s.grid.gridYToDbu yEnd with
      | none => exact iff_of_false (by simp) (by simp)
      | some yEndDbu =>
          simp only [Option.bind_some, Option.map_some, Option.some.injEq, exists_eq_left']
          have hmeets : (s.regions.filter fun b => decide (b.xMin ≤ s.grid.gridToDbu xEnd - 1) &&
              decide (s.grid.gridToDbu x ≤ b.xMax) && decide (b.yMin ≤ yEndDbu - 1) &&
              decide (yDbu ≤ b.yMax)) = s.regions.filter
                (boxesMeet · ⟨s.grid.gridToDbu x, yDbu, s.grid.gridToDbu xEnd - 1, yEndDbu - 1⟩) :=
            rfl
          rw [hmeets]
          cases hregion : s.region c with
          | none =>
              simp only [Option.isSome_none, Bool.false_eq_true, if_false, true_and, false_and,
                or_false, List.isEmpty_iff, List.filter_eq_nil_iff, Bool.not_eq_true]
          | some region =>
              simp only [Option.isSome_some, if_true, true_and, reduceCtorEq, false_and, false_or]
              unfold OnlyBox
              constructor
              · intro h
                split at h
                · rename_i box hbox
                  refine ⟨box, hbox, ?_⟩
                  simp only [Bool.and_eq_true, decide_eq_true_eq] at h
                  simp only [Rect.contains, decide_eq_true_eq]
                  omega
                · cases h
              · rintro ⟨box, hbox, hcontains⟩
                rw [hbox]
                simp only [Rect.contains, decide_eq_true_eq] at hcontains
                simp only [Bool.and_eq_true, decide_eq_true_eq]
                omega

/-! ### Cells on rows -/

variable (s) in
/-- A cell at a site of a row, with its height within the rows, and its region among the boxes. -/
structure OnSites (c : Nat) : Prop where
  siteWidth_pos : 0 < s.grid.siteWidth
  sorted : s.grid.rowYs.Pairwise (· < ·)
  aligned : ∃ column : Int, 0 ≤ column ∧ (s.node c).left = column * s.grid.siteWidth
  onRow : (s.node c).bottom ∈ s.grid.rowYs
  bottom_nonneg : 0 ≤ (s.node c).bottom
  width_pos : 0 < (s.node c).width
  height_pos : 0 < (s.node c).height
  rows_pos : 0 < s.grid.gridHeight (s.node c)
  inRows : s.grid.gridSnapDownY (s.node c).bottom + s.grid.gridHeight (s.node c) ≤ s.grid.rowCount
  padLeft_nonneg : 0 ≤ s.padding.padLeftOf (s.node c)
  padRight_nonneg : 0 ≤ s.padding.padRightOf (s.node c)
  siteWidth_eq : (s.node c).master.siteWidth = s.grid.siteWidth
  region_mem : ∀ region, s.region c = some region → regionBox region ∈ s.regions

variable {c : Nat}

/-- The rectangles that the checker looks at are those of one row. -/
theorem OnSites.checkRegionPlacement_eq (h : s.OnSites c) :
    s.checkRegionPlacement c = some true ↔
      ∀ region, s.region c = some region →
        region.contains ⟨(s.node c).left, (s.node c).bottom, (s.node c).left + (s.node c).width,
            (s.node c).bottom + (s.node c).height⟩ = true ∧
          ∃ row, s.quotientRowBox c = some row ∧ ∃ b, s.OnlyBox b row := by
  obtain ⟨column, hcolumn, hleft⟩ := h.aligned
  have hx : 0 ≤ (s.node c).left := hleft ▸ Int.mul_nonneg hcolumn h.siteWidth_pos.le
  have hxEnd : 0 ≤ (s.node c).left + (s.node c).width := Int.add_nonneg hx h.width_pos.le
  have hyEnd : 0 ≤ (s.node c).bottom + (s.node c).height :=
    Int.add_nonneg h.bottom_nonneg h.height_pos.le
  have hrow : ((s.node c).bottom + (s.node c).height) / (s.node c).height =
      (s.node c).bottom / (s.node c).height + 1 :=
    Int.add_ediv_of_dvd_right (dvd_refl _) |>.trans (by rw [Int.ediv_self h.height_pos.ne'])
  unfold checkRegionPlacement quotientRowBox
  dsimp only
  rw [Int.tdiv_eq_ediv_of_nonneg hx, Int.tdiv_eq_ediv_of_nonneg hxEnd,
    Int.tdiv_eq_ediv_of_nonneg h.bottom_nonneg, Int.tdiv_eq_ediv_of_nonneg hyEnd, hrow]
  cases hregion : s.region c with
  | none => exact iff_of_true rfl fun region hsome => by cases hsome
  | some region =>
      simp only [Option.some.injEq, forall_eq']
      split
      · rename_i hcontains
        rw [checkRegionOverlap_eq_true]
        simp [hcontains, hregion]
      · rename_i hcontains
        simp [hcontains]

/-- The rows of the cell go from its bottom to a later entry of the table. -/
theorem OnSites.rows (h : s.OnSites c) :
    s.grid.gridYToDbu (s.grid.gridSnapDownY (s.node c).bottom) = some (s.node c).bottom ∧
      ∃ top, s.grid.gridYToDbu (s.grid.gridSnapDownY (s.node c).bottom +
        s.grid.gridHeight (s.node c)) = some top ∧ (s.node c).bottom < top := by
  obtain ⟨lower, upper, hsplit⟩ := List.append_of_mem h.onRow
  have hsorted := h.sorted
  rw [hsplit] at hsorted
  obtain ⟨-, hupper, hcross⟩ := List.pairwise_append.mp hsorted
  obtain ⟨habove, -⟩ := List.pairwise_cons.mp hupper
  have hlower : ∀ y ∈ lower, decide (y ≤ (s.node c).bottom) = true := fun y hy =>
    decide_eq_true (hcross y hy _ List.mem_cons_self).le
  have hrest : upper.takeWhile (· ≤ (s.node c).bottom) = [] := by
    cases upper with
    | nil => rfl
    | cons first upper =>
        apply List.takeWhile_cons_of_neg
        have := habove first List.mem_cons_self
        simpa using this
  have hsnap : s.grid.gridSnapDownY (s.node c).bottom = lower.length := by
    unfold Grid.gridSnapDownY
    rw [hsplit, List.takeWhile_append_of_pos hlower, List.takeWhile_cons_of_pos (by simp), hrest,
      List.length_append, List.length_singleton]
    exact (if_neg (Nat.succ_ne_zero _)).trans (by omega)
  have hin := h.inRows
  have hpos := h.rows_pos
  rw [hsnap] at hin ⊢
  refine ⟨s.grid.gridYToDbu_split hsplit, ?_⟩
  unfold Grid.rowCount at hin
  rw [hsplit, List.length_append, List.length_cons] at hin
  -- the entry that the rows end at
  obtain ⟨k, hk⟩ : ∃ k : Nat, s.grid.gridHeight (s.node c) = k + 1 :=
    ⟨(s.grid.gridHeight (s.node c) - 1).toNat, by omega⟩
  have hlt : k < upper.length := by omega
  refine ⟨upper[k], ?_, habove _ (List.getElem_mem hlt)⟩
  have htoNat : ((lower.length : Int) + s.grid.gridHeight (s.node c)).toNat =
      lower.length + (k + 1) := by omega
  unfold Grid.gridYToDbu
  rw [if_neg (by rw [hsplit, List.length_append, List.length_cons]; omega), if_pos (by omega),
    htoNat, hsplit, List.getElem?_append_right (Nat.le_add_right _ _), Nat.add_sub_cancel_left,
    List.getElem?_cons_succ, List.getElem?_eq_getElem hlt]

/-- The footprint of a cell that lies in its region meets the region's box. -/
theorem OnSites.footprint_meets (h : s.OnSites c) {region footprint : Rect}
    (hfootprint : s.footprintBox c = some footprint)
    (hcontains : region.contains ⟨(s.node c).left, (s.node c).bottom,
      (s.node c).left + (s.node c).width, (s.node c).bottom + (s.node c).height⟩ = true) :
    boxesMeet (regionBox region) footprint = true := by
  obtain ⟨column, hcolumn, hleft⟩ := h.aligned
  have hsw := h.siteWidth_pos
  have hpadLeft := h.padLeft_nonneg
  have hpadRight := h.padRight_nonneg
  -- the columns of the footprint hold the left end of the cell
  have hpadded : s.grid.gridPaddedX s.padding (s.node c) =
      column - s.padding.padLeftOf (s.node c) := by
    unfold Grid.gridPaddedX Grid.gridX Grid.gridToDbu
    rw [hleft, ← Int.sub_mul, Int.mul_tdiv_cancel _ hsw.ne']
  have hwidth : s.padding.padLeftOf (s.node c) + 1 ≤
      s.grid.gridPaddedWidth s.padding (s.node c) := by
    have hw := h.width_pos
    unfold Grid.gridPaddedWidth divCeil Padding.paddedWidth
    rw [h.siteWidth_eq]
    have hneg : -((s.node c).width + (s.padding.padLeftOf (s.node c) +
        s.padding.padRightOf (s.node c)) * s.grid.siteWidth) / s.grid.siteWidth <
          -s.padding.padLeftOf (s.node c) := by
      apply Int.ediv_lt_of_lt_mul hsw
      have hmul := Int.mul_nonneg hpadRight hsw.le
      rw [Int.add_mul, Int.neg_mul]
      omega
    omega
  obtain ⟨hbottom, top, htop, hlt⟩ := h.rows
  unfold footprintBox queryBox at hfootprint
  dsimp only at hfootprint
  rw [hbottom, htop, hpadded, Option.bind_some, Option.map_some] at hfootprint
  obtain rfl := Option.some.inj hfootprint
  unfold Rect.contains at hcontains
  rw [decide_eq_true_eq, hleft] at hcontains
  obtain ⟨hxMin, hyMin, hxMax, hyMax⟩ := hcontains
  have hfirst : (column - s.padding.padLeftOf (s.node c)) * s.grid.siteWidth ≤
      column * s.grid.siteWidth := Int.mul_le_mul_of_nonneg_right (by omega) hsw.le
  have hlast : (column + 1) * s.grid.siteWidth ≤ (column - s.padding.padLeftOf (s.node c) +
      s.grid.gridPaddedWidth s.padding (s.node c)) * s.grid.siteWidth :=
    Int.mul_le_mul_of_nonneg_right (by omega) hsw.le
  rw [Int.add_mul, Int.one_mul] at hlast
  have hw := h.width_pos
  have hh := h.height_pos
  unfold boxesMeet regionBox Grid.gridToDbu
  simp only [Bool.and_eq_true, decide_eq_true_eq]
  dsimp only at hxMin hyMin hxMax hyMax
  omega

/-! ### When the rules agree -/

variable (s) in
/-- Without a region, the footprint meets no box. With one that the cell lies in, its box alone meets
and covers the footprint exactly when some box alone meets and covers the row of the quotient. With
one that the cell does not lie in, no box alone meets and covers the footprint. -/
def RegionsTell (c : Nat) : Prop :=
  (s.region c = none → ∀ footprint, s.footprintBox c = some footprint →
    ∀ b ∈ s.regions, boxesMeet b footprint = false) ∧
  ∀ region, s.region c = some region →
    (region.contains ⟨(s.node c).left, (s.node c).bottom, (s.node c).left + (s.node c).width,
        (s.node c).bottom + (s.node c).height⟩ = true →
      ((∃ footprint, s.footprintBox c = some footprint ∧
          s.OnlyBox (regionBox region) footprint) ↔
        ∃ row, s.quotientRowBox c = some row ∧ ∃ b, s.OnlyBox b row)) ∧
    (region.contains ⟨(s.node c).left, (s.node c).bottom, (s.node c).left + (s.node c).width,
        (s.node c).bottom + (s.node c).height⟩ = false →
      ∀ footprint, s.footprintBox c = some footprint → ∀ b, ¬s.OnlyBox b footprint)

/-- A box that alone meets another one is any box that is known to meet it. -/
theorem OnlyBox.eq {b b' box : Rect} (h : s.OnlyBox b box) (hmem : b' ∈ s.regions)
    (hmeets : boxesMeet b' box = true) : b = b' := by
  have hmem' : b' ∈ s.regions.filter (boxesMeet · box) := List.mem_filter.mpr ⟨hmem, hmeets⟩
  rw [h.1] at hmem'
  exact (List.mem_singleton.mp hmem').symm

theorem OnSites.checkRegionPlacement_iff_footprint (h : s.OnSites c) :
    (s.checkRegionPlacement c = some true ↔ s.checkRegionFootprint c = some true) ↔
      s.RegionsTell c := by
  obtain ⟨hbottom, top, htop, -⟩ := h.rows
  obtain ⟨footprint, hfootprint⟩ : ∃ footprint, s.footprintBox c = some footprint := by
    unfold footprintBox queryBox
    dsimp only
    rw [hbottom, htop]
    exact ⟨_, rfl⟩
  have hplacer : s.checkRegionFootprint c = some true ↔
      (s.region c = none ∧ ∀ b ∈ s.regions, boxesMeet b footprint = false) ∨
        ((s.region c).isSome ∧ ∃ b, s.OnlyBox b footprint) := by
    unfold checkRegionFootprint
    dsimp only
    rw [checkRegionOverlap_eq_true]
    unfold footprintBox at hfootprint
    dsimp only at hfootprint
    rw [hfootprint]
    simp only [Option.some.injEq, exists_eq_left']
  rw [hplacer, h.checkRegionPlacement_eq]
  unfold RegionsTell
  cases hregion : s.region c with
  | none => simp [hfootprint]
  | some region =>
      simp only [Option.some.injEq, forall_eq', reduceCtorEq, false_and, false_or,
        Option.isSome_some, true_and, false_implies, hfootprint, exists_eq_left']
      cases hcontains : region.contains ⟨(s.node c).left, (s.node c).bottom,
          (s.node c).left + (s.node c).width, (s.node c).bottom + (s.node c).height⟩ with
      | true =>
          have hmeets := h.footprint_meets hfootprint hcontains
          have honly : (∃ b, s.OnlyBox b footprint) ↔ s.OnlyBox (regionBox region) footprint := by
            constructor
            · rintro ⟨b, hb⟩
              exact hb.eq (h.region_mem region hregion) hmeets ▸ hb
            · exact fun hb => ⟨_, hb⟩
          rw [honly]
          simp only [true_and, Bool.true_eq_false, forall_true_left, false_implies, and_true]
          exact iff_comm
      | false => simp

end Opendp

/-! ### A cell of two rows -/

/-- Four rows, the upper two of which are a region. -/
def regionGrid : Grid where
  coreYMax := 400
  siteWidth := 10
  rowSiteCount := 10
  rowYs := [0, 100, 200, 300, 400]
  uniformRowHeight := some 100
  pixelInfo := fun _ _ => ⟨true, [(0, .R0)], none⟩

def regionCell : Node :=
  ⟨0, ⟨0, .CORE, [], 0, 10, none⟩, ⟨0, 200⟩, ⟨.R0, ⟨0, 200⟩⟩, 0, 200, 10, 200, .R0, false, true,
    false, some 0⟩

/-- The cell fills both rows of its region. -/
def regionOpendp : Opendp where
  numNodes := 1
  node := fun _ => regionCell
  pixels := fun _ _ => none
  grid := regionGrid
  padding := ⟨0, 0, [], []⟩
  boundary := fun _ => ⟨0, 0, 10, 200⟩
  edges := fun _ => some []
  edgeSpacingTable := []
  region := fun _ => some ⟨0, 200, 100, 400⟩
  regions := [⟨0, 200, 99, 399⟩]
  groupBBox := fun _ => ⟨0, 200, 100, 400⟩
  maxDisplacementX := 500
  maxDisplacementY := 100
  disallowOneSiteGaps := false

theorem regionOpendp_onSites : regionOpendp.OnSites 0 where
  siteWidth_pos := by decide
  sorted := by decide
  aligned := ⟨0, by decide, by decide⟩
  onRow := by decide
  bottom_nonneg := by decide
  width_pos := by decide
  height_pos := by decide
  rows_pos := by decide
  inRows := by decide
  padLeft_nonneg := by decide
  padRight_nonneg := by decide
  siteWidth_eq := rfl
  region_mem := fun region h => by
    obtain rfl := Option.some.inj h
    exact List.mem_cons_self

theorem regionOpendp_checkRegionPlacement_iff :
    (regionOpendp.checkRegionPlacement 0 = some true ↔
      regionOpendp.checkRegionFootprint 0 = some true) ↔ regionOpendp.RegionsTell 0 :=
  Opendp.OnSites.checkRegionPlacement_iff_footprint regionOpendp_onSites

/-- The placer accepts the cell; the checker looks at the second row, below the region. -/
theorem not_checkRegionPlacement_iff :
    regionOpendp.checkRegionFootprint 0 = some true ∧
      regionOpendp.checkRegionPlacement 0 = some false := by
  decide

end OpenRoad.Dpl
