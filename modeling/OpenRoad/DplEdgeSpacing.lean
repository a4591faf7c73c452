import OpenRoad.DplCanBePlaced
import OpenRoad.DbTransform

/-!
The spacing of cell edges. The neighbours of an edge are looked for in the pixels of a window that is
as wide as the largest spacing of its type; a cell that is painted on its outline is never missed
there. The flag of the rules that exempts abutting edges is stored and not looked at.
-/

namespace OpenRoad.Dpl

open Db (Point Rect Orient Transform)

/-! ### The table -/

/-- `EdgeSpacingEntry` with all its fields. -/
structure EdgeSpacingRule extends EdgeSpacingEntry where
  exceptAbutted : Bool

/-- A `dbCellEdgeSpacing`. -/
structure CellEdgeSpacing where
  firstEdgeType : String
  secondEdgeType : String
  spacing : Int
  exact : Bool
  exceptAbutted : Bool

/-- `edge_types_indices_`: the types in the order in which the rules name them. -/
def edgeTypes (rules : List CellEdgeSpacing) : List String :=
  (rules.flatMap fun rule => [rule.firstEdgeType, rule.secondEdgeType]).foldl
    (fun types type => if type ∈ types then types else types ++ [type]) []

/-- `makeCellEdgeSpacingTable`: a rule is entered for both orders of its types. -/
def makeCellEdgeSpacingTable (rules : List CellEdgeSpacing) : List (List EdgeSpacingRule) :=
  let types := edgeTypes rules
  let entries := rules.foldl (fun (entries : Nat → Nat → EdgeSpacingRule) rule =>
    let entry : EdgeSpacingRule := ⟨⟨rule.spacing, rule.exact⟩, rule.exceptAbutted⟩
    let idx1 := types.idxOf rule.firstEdgeType
    let idx2 := types.idxOf rule.secondEdgeType
    fun i j => if (i = idx1 ∧ j = idx2) ∨ (i = idx2 ∧ j = idx1) then entry else entries i j)
    fun _ _ => ⟨⟨0, false⟩, false⟩
  (List.range types.length).map fun i => (List.range types.length).map fun j => entries i j

/-- The rule of two types. -/
def ruleOf (table : List (List EdgeSpacingRule)) (type1 type2 : Nat) : EdgeSpacingRule :=
  (table.getD type1 []).getD type2 ⟨⟨0, false⟩, false⟩

/-- The rule names both types, in either order. -/
def CellEdgeSpacing.forTypes (rule : CellEdgeSpacing) (type1 type2 : String) : Bool :=
  (rule.firstEdgeType = type1 && rule.secondEdgeType = type2) ||
    (rule.firstEdgeType = type2 && rule.secondEdgeType = type1)

theorem CellEdgeSpacing.forTypes_iff {rule : CellEdgeSpacing} {type1 type2 : String} :
    rule.forTypes type1 type2 = true ↔
      type1 = rule.firstEdgeType ∧ type2 = rule.secondEdgeType ∨
        type1 = rule.secondEdgeType ∧ type2 = rule.firstEdgeType := by
  unfold CellEdgeSpacing.forTypes
  simp only [Bool.or_eq_true, Bool.and_eq_true, decide_eq_true_eq]
  exact or_congr (and_congr eq_comm eq_comm) ((and_congr eq_comm eq_comm).trans and_comm)

/-- The entry of two types is that of the last rule that names them. -/
theorem ruleOf_makeCellEdgeSpacingTable {rules : List CellEdgeSpacing} {type1 type2 : String}
    (h1 : type1 ∈ edgeTypes rules) (h2 : type2 ∈ edgeTypes rules) :
    ruleOf (makeCellEdgeSpacingTable rules) ((edgeTypes rules).idxOf type1)
        ((edgeTypes rules).idxOf type2) =
      match rules.reverse.find? (·.forTypes type1 type2) with
      | some rule => ⟨⟨rule.spacing, rule.exact⟩, rule.exceptAbutted⟩
      | none => ⟨⟨0, false⟩, false⟩ := by
  unfold ruleOf makeCellEdgeSpacingTable
  simp only [List.getD_eq_getElem?_getD, List.getElem?_map,
    List.getElem?_range (List.idxOf_lt_length_iff.mpr h1),
    List.getElem?_range (List.idxOf_lt_length_iff.mpr h2), Option.map_some, Option.getD_some]
  -- The types are indexed by all rules, of which the table has entered the first ones.
  generalize edgeTypes rules = types at h1 h2 ⊢
  induction rules using List.reverseRecOn with
  | nil => rfl
  | append_singleton rules rule ih =>
      rw [List.foldl_append, List.foldl_cons, List.foldl_nil, List.reverse_append,
        List.reverse_singleton, List.singleton_append]
      have hiff : (types.idxOf type1 = types.idxOf rule.firstEdgeType ∧
          types.idxOf type2 = types.idxOf rule.secondEdgeType ∨
          types.idxOf type1 = types.idxOf rule.secondEdgeType ∧
          types.idxOf type2 = types.idxOf rule.firstEdgeType) ↔
          rule.forTypes type1 type2 = true := by
        rw [List.idxOf_inj h1, List.idxOf_inj h2, List.idxOf_inj h1, List.idxOf_inj h2,
          CellEdgeSpacing.forTypes_iff]
      by_cases hnamed : rule.forTypes type1 type2 = true
      · rw [if_pos (hiff.mpr hnamed), List.find?_cons_of_pos (by exact hnamed)]
      · rw [if_neg (mt hiff.mp hnamed), List.find?_cons_of_neg (by exact hnamed)]
        exact ih

def oppositeRules : List CellEdgeSpacing := [⟨"A", "B", 5, false, true⟩, ⟨"B", "A", 7, true, false⟩]

/-- The second rule, for the types the other way round, takes the place of the first. -/
theorem ruleOf_makeCellEdgeSpacingTable_opposite :
    ruleOf (makeCellEdgeSpacingTable oppositeRules) ((edgeTypes oppositeRules).idxOf "A")
      ((edgeTypes oppositeRules).idxOf "B") = ⟨⟨7, true⟩, false⟩ :=
  ruleOf_makeCellEdgeSpacingTable (by decide) (by decide)

/-! ### What is claimed -/

/-- The extent of both edges across their direction: the distance of two boundary segments. -/
def edgeDist (edge1Box edge2Box : Rect) : Int :=
  if Opendp.getDir edge1Box = 0 then
    max edge1Box.xMax edge2Box.xMax - min edge1Box.xMin edge2Box.xMin
  else max edge1Box.yMax edge2Box.yMax - min edge1Box.yMin edge2Box.yMin

/-- The common run of both edges along their direction has a positive length. -/
def CommonRun (edge1Box edge2Box : Rect) : Prop :=
  if Opendp.getDir edge1Box = 0 then
    edge1Box.yMin < edge2Box.yMax ∧ edge2Box.yMin < edge1Box.yMax
  else edge1Box.xMin < edge2Box.xMax ∧ edge2Box.xMin < edge1Box.xMax

namespace EdgeSpacingRule

/-- The distance is equal to the spacing of an exact rule, or below that of another. -/
def Breaks (rule : EdgeSpacingRule) (dist : Int) : Prop :=
  if rule.isExact = true then dist = rule.spc else dist < rule.spc

instance (rule : EdgeSpacingRule) (dist : Int) : Decidable (rule.Breaks dist) := by
  unfold Breaks
  infer_instance

/-- Abutting edges are exempt. -/
def Exempt (rule : EdgeSpacingRule) (dist : Int) : Prop := rule.exceptAbutted = true ∧ dist = 0

end EdgeSpacingRule

namespace Opendp

variable (s : Opendp)

/-- The box of an edge of a cell where the cell is. -/
def neighbourBox (cell2 : Nat) (edge2 : MasterEdge) : Rect :=
  s.transformEdgeRect edge2.bbox cell2 (s.node cell2).left (s.node cell2).bottom
    (s.node cell2).orient

/-- A cell that is checked at a position, with its orientation there. -/
structure Probe where
  cell : Nat
  xReal : Int
  yReal : Int
  orient : Orient

def probeBox (p : Probe) (edge1 : MasterEdge) : Rect :=
  s.transformEdgeRect edge1.bbox p.cell p.xReal p.yReal p.orient

def probeQuery (p : Probe) (edge1 : MasterEdge) : Rect :=
  getQueryRect (s.probeBox p edge1) (s.getMaxSpacing edge1.edgeType + 1)

/-- A parallel edge of another cell that runs along an edge of the cell, at a distance that breaks
the rule of their types. -/
structure Faces (table : List (List EdgeSpacingRule)) (p : Probe) (edge1 : MasterEdge)
    (cell2 : Nat) (edge2 : MasterEdge) : Prop where
  edge1_mem : ∃ edges, s.edges p.cell = some edges ∧ edge1 ∈ edges
  ne : cell2 ≠ p.cell
  edge2_mem : ∃ edges, s.edges cell2 = some edges ∧ edge2 ∈ edges
  parallel : getDir (s.probeBox p edge1) = getDir (s.neighbourBox cell2 edge2)
  run : CommonRun (s.probeBox p edge1) (s.neighbourBox cell2 edge2)
  breaks : (ruleOf table edge1.edgeType edge2.edgeType).Breaks
    (edgeDist (s.probeBox p edge1) (s.neighbourBox cell2 edge2))

/-- The rule exempts both edges, which abut. -/
def ExemptPair (table : List (List EdgeSpacingRule)) (p : Probe) (edge1 : MasterEdge) (cell2 : Nat)
    (edge2 : MasterEdge) : Prop :=
  (ruleOf table edge1.edgeType edge2.edgeType).Exempt
    (edgeDist (s.probeBox p edge1) (s.neighbourBox cell2 edge2))

def Painted (cell2 : Nat) : Prop := ∃ x y, s.pixelCell x y = some cell2

/-- The cell has a pixel in the window of the edge. -/
def Seen (p : Probe) (edge1 : MasterEdge) (cell2 : Nat) : Prop :=
  let query := s.probeQuery p edge1
  ∃ x y, (s.grid.gridX query.xMin ≤ x ∧ x ≤ s.grid.gridEndX query.xMax) ∧
    (s.grid.gridEndY query.yMin - 1 ≤ y ∧ y ≤ s.grid.gridEndY query.yMax) ∧
    s.pixelCell x y = some cell2

/-- An edge of the cell and an edge of another cell that is painted in the grid are at a distance
that their rule forbids. -/
def SpacingViolated (table : List (List EdgeSpacingRule)) (p : Probe) : Prop :=
  ∃ edge1 cell2 edge2, s.Faces table p edge1 cell2 edge2 ∧ s.Painted cell2 ∧
    ¬s.ExemptPair table p edge1 cell2 edge2

/-- A forbidden distance to a cell that is met in the window. -/
def ViolationMet (table : List (List EdgeSpacingRule)) (p : Probe) : Prop :=
  ∃ edge1 cell2 edge2, s.Faces table p edge1 cell2 edge2 ∧ s.Seen p edge1 cell2 ∧
    ¬s.ExemptPair table p edge1 cell2 edge2

/-- A forbidden distance to a cell that has no pixel in the window. -/
def ViolationMissed (table : List (List EdgeSpacingRule)) (p : Probe) : Prop :=
  ∃ edge1 cell2 edge2, s.Faces table p edge1 cell2 edge2 ∧ s.Painted cell2 ∧
    ¬s.Seen p edge1 cell2 ∧ ¬s.ExemptPair table p edge1 cell2 edge2

/-- Abutting edges that are exempt are met in the window. -/
def ExemptMet (table : List (List EdgeSpacingRule)) (p : Probe) : Prop :=
  ∃ edge1 cell2 edge2, s.Faces table p edge1 cell2 edge2 ∧ s.Seen p edge1 cell2 ∧
    s.ExemptPair table p edge1 cell2 edge2

/-- A cell in the core that is painted on all pixels of its outline, with its edges inside. -/
structure PaintedOnOutline (cell2 : Nat) : Prop where
  width_pos : 0 < (s.node cell2).width
  height_pos : 0 < (s.node cell2).height
  left_nonneg : 0 ≤ (s.node cell2).left
  right_le : (s.node cell2).left + (s.node cell2).width ≤ s.grid.rowSiteCount * s.grid.siteWidth
  bottom_le : ∃ y ∈ s.grid.rowYs.head?, y ≤ (s.node cell2).bottom
  top_le : ∃ y ∈ s.grid.rowYs.getLast?, (s.node cell2).bottom + (s.node cell2).height ≤ y
  painted : ∀ x y, s.grid.inGrid x y = true →
    (s.grid.gridCoveringCell (s.node cell2)).xlo ≤ x → x < (s.grid.gridCoveringCell (s.node cell2)).xhi →
    (s.grid.gridCoveringCell (s.node cell2)).ylo ≤ y → y < (s.grid.gridCoveringCell (s.node cell2)).yhi →
    s.pixels x y = some cell2
  edges_inside : ∀ edges, s.edges cell2 = some edges → ∀ edge2 ∈ edges,
    let box := s.neighbourBox cell2 edge2
    (s.node cell2).left ≤ box.xMin ∧ box.xMax ≤ (s.node cell2).left + (s.node cell2).width ∧
      (s.node cell2).bottom ≤ box.yMin ∧ box.yMax ≤ (s.node cell2).bottom + (s.node cell2).height

end Opendp

/-! ### The table, read -/

namespace Opendp

variable {s : Opendp} {table : List (List EdgeSpacingRule)}

/-- The rules of which the spacing check reads the spacing and the flag of exact rules. -/
def HasTable (s : Opendp) (table : List (List EdgeSpacingRule)) : Prop :=
  s.edgeSpacingTable = table.map fun row => row.map EdgeSpacingRule.toEdgeSpacingEntry

theorem getD_map_entries (htable : s.HasTable table) (type1 : Nat) :
    s.edgeSpacingTable.getD type1 [] =
      (table.getD type1 []).map EdgeSpacingRule.toEdgeSpacingEntry := by
  rw [htable]
  simp only [List.getD_eq_getElem?_getD, List.getElem?_map]
  cases table[type1]? with
  | none => rfl
  | some row => rfl

theorem edgeSpacingEntry_eq (htable : s.HasTable table) (type1 type2 : Nat) :
    s.edgeSpacingEntry type1 type2 = (ruleOf table type1 type2).toEdgeSpacingEntry := by
  unfold edgeSpacingEntry ruleOf
  rw [getD_map_entries htable]
  simp only [List.getD_eq_getElem?_getD, List.getElem?_map]
  cases (table[type1]?.getD [])[type2]? with
  | none => rfl
  | some rule => rfl

theorem le_foldl_max (spcs : List Int) (first : Int) :
    first ≤ spcs.foldl max first ∧ ∀ spc ∈ spcs, spc ≤ spcs.foldl max first := by
  induction spcs generalizing first with
  | nil => exact ⟨le_rfl, by simp⟩
  | cons spc spcs ih =>
      obtain ⟨hfirst, hrest⟩ := ih (max first spc)
      refine ⟨(le_max_left _ _).trans hfirst, fun other hother => ?_⟩
      rcases List.mem_cons.mp hother with rfl | hother
      · exact (le_max_right _ _).trans hfirst
      · exact hrest other hother

/-- An entry outside the row of the type has no spacing; the others are bounded by the largest. -/
theorem edgeSpacingEntry_cases (type1 type2 : Nat) :
    s.edgeSpacingEntry type1 type2 = ⟨0, false⟩ ∨
      (s.edgeSpacingEntry type1 type2).spc ≤ s.getMaxSpacing type1 := by
  cases hentry : (s.edgeSpacingTable.getD type1 [])[type2]? with
  | none =>
      apply Or.inl
      unfold edgeSpacingEntry
      rw [List.getD_eq_getElem?_getD, hentry, Option.getD_none]
  | some entry =>
      apply Or.inr
      have hspc : (s.edgeSpacingEntry type1 type2).spc = entry.spc := by
        unfold edgeSpacingEntry
        rw [List.getD_eq_getElem?_getD, hentry, Option.getD_some]
      have hmem := List.mem_map_of_mem (f := EdgeSpacingEntry.spc) (List.mem_of_getElem? hentry)
      rw [hspc]
      unfold getMaxSpacing
      revert hmem
      cases (s.edgeSpacingTable.getD type1 []).map EdgeSpacingEntry.spc with
      | nil => exact fun hmem => absurd hmem List.not_mem_nil
      | cons spc spcs =>
          intro hmem
          rcases List.mem_cons.mp hmem with heq | hmem
          · rw [heq]
            exact (le_foldl_max spcs spc).1
          · exact (le_foldl_max spcs spc).2 _ hmem

/-- A rule that is broken has a spacing within the largest one of the type. -/
theorem lt_of_breaks (htable : s.HasTable table) {type1 type2 : Nat} {dist : Int}
    (hdist : 0 ≤ dist) (hbreaks : (ruleOf table type1 type2).Breaks dist) :
    dist < s.getMaxSpacing type1 + 1 := by
  have hle : dist ≤ (ruleOf table type1 type2).spc := by
    unfold EdgeSpacingRule.Breaks at hbreaks
    split_ifs at hbreaks <;> omega
  have hentry := edgeSpacingEntry_eq htable type1 type2
  rcases edgeSpacingEntry_cases (s := s) type1 type2 with hnone | hmax
  · rw [hnone] at hentry
    have hspc : (ruleOf table type1 type2).spc = 0 := congrArg EdgeSpacingEntry.spc hentry.symm
    have hexact : (ruleOf table type1 type2).isExact = false :=
      congrArg EdgeSpacingEntry.isExact hentry.symm
    unfold EdgeSpacingRule.Breaks at hbreaks
    rw [hexact, if_neg Bool.false_ne_true] at hbreaks
    omega
  · rw [hentry] at hmax
    omega

/-! ### Two edges -/

theorem edgeDist_nonneg {e1 e2 : Rect} (h : e1.Ordered) : 0 ≤ edgeDist e1 e2 := by
  have hx := h.x
  have hy := h.y
  unfold edgeDist
  split_ifs <;> omega

/-- `Rect::overlaps` -/
def Overlaps (query box : Rect) : Prop :=
  (query.xMin < box.xMax ∧ box.xMin < query.xMax) ∧ query.yMin < box.yMax ∧ box.yMin < query.yMax

theorem overlaps_iff {query box : Rect} :
    Overlaps query box ↔ (box.xMax > query.xMin && box.xMin < query.xMax &&
      box.yMax > query.yMin && box.yMin < query.yMax) = true := by
  simp [Overlaps, and_assoc]

/-- Where both overlap they have a common run. -/
theorem commonRun_of_overlaps {e1 e2 : Rect} {spc : Int} (h : Overlaps (getQueryRect e1 spc) e2) :
    CommonRun e1 e2 := by
  unfold Overlaps getQueryRect at h
  unfold CommonRun
  split_ifs at h ⊢ <;> dsimp only at h <;> omega

/-- Within the spacing, the query rectangle overlaps every other edge with a common run. -/
theorem overlaps_of_commonRun {e1 e2 : Rect} {spc : Int} (hrun : CommonRun e1 e2) (h1 : e1.Ordered)
    (h2 : e2.Ordered) (hdist : edgeDist e1 e2 < spc) : Overlaps (getQueryRect e1 spc) e2 := by
  have hx1 := h1.x
  have hy1 := h1.y
  have hx2 := h2.x
  have hy2 := h2.y
  unfold edgeDist at hdist
  unfold CommonRun at hrun
  unfold Overlaps getQueryRect
  split_ifs at hdist hrun ⊢ <;> dsimp only <;> omega

theorem breaks_entry_iff (htable : s.HasTable table) (type1 type2 : Nat) (dist : Int) :
    (ruleOf table type1 type2).Breaks dist ↔
      if (s.edgeSpacingEntry type1 type2).isExact = true
        then dist = (s.edgeSpacingEntry type1 type2).spc
        else dist < (s.edgeSpacingEntry type1 type2).spc := by
  rw [edgeSpacingEntry_eq htable]
  rfl

/-- What the comparison of two edges says. -/
theorem edgesSpaced_eq_false_iff (htable : s.HasTable table) {edge1 edge2 : MasterEdge}
    {e1 e2 : Rect} (h1 : e1.Ordered) (h2 : e2.Ordered) :
    s.edgesSpaced edge1 edge2 e1 e2 (getQueryRect e1 (s.getMaxSpacing edge1.edgeType + 1)) = false ↔
      getDir e1 = getDir e2 ∧ CommonRun e1 e2 ∧
        (ruleOf table edge1.edgeType edge2.edgeType).Breaks (edgeDist e1 e2) := by
  have hdist : edgeDist e1 e2 = if getDir e1 = 0
      then max e1.xMax e2.xMax - min e1.xMin e2.xMin
      else max e1.yMax e2.yMax - min e1.yMin e2.yMin := rfl
  unfold edgesSpaced
  rw [← hdist]
  by_cases hdir : getDir e1 = getDir e2
  swap
  · rw [if_pos hdir]
    exact iff_of_false (by simp) fun h => hdir h.1
  rw [if_neg (not_not.mpr hdir)]
  by_cases hover : Overlaps (getQueryRect e1 (s.getMaxSpacing edge1.edgeType + 1)) e2
  swap
  · rw [overlaps_iff, Bool.not_eq_true] at hover
    rw [hover, Bool.not_false, if_pos rfl]
    refine iff_of_false (by simp) ?_
    rintro ⟨-, hrun, hbreaks⟩
    have hnear := lt_of_breaks htable (edgeDist_nonneg h1) hbreaks
    exact Bool.false_ne_true (hover.symm.trans (overlaps_iff.mp (overlaps_of_commonRun hrun h1 h2 hnear)))
  rw [overlaps_iff.mp hover, Bool.not_true, if_neg Bool.false_ne_true, and_iff_right hdir,
    and_iff_right (commonRun_of_overlaps hover), breaks_entry_iff htable]
  split_ifs
  · simp
  · simp

/-! ### All neighbours in the window -/

/-- The cell that is checked, at a column and the coordinate of its row. -/
def probeAt (s : Opendp) (c : Nat) (x yReal : Int) (orient : Orient) : Probe :=
  ⟨c, s.grid.gridToDbu x, yReal, orient⟩

theorem Faces.not_isEmpty {p : Probe} {edge1 edge2 : MasterEdge} {cell2 : Nat}
    (htable : s.HasTable table) (h : s.Faces table p edge1 cell2 edge2) :
    ¬s.edgeSpacingTable.isEmpty = true := by
  intro hempty
  have hbreaks := (breaks_entry_iff htable _ _ _).mp h.breaks
  rw [edgeSpacingEntry, List.isEmpty_iff.mp hempty] at hbreaks
  exact absurd hbreaks (not_lt.mpr (edgeDist_nonneg (Db.Rect.ordered_init _ _ _ _)))

/-- The check fails exactly for an edge that faces an edge of a cell in its window. -/
theorem checkEdgeSpacing_eq_false_iff (htable : s.HasTable table) {c : Nat} {x y yReal : Int}
    {orient : Orient} (hy : s.grid.gridYToDbu y = some yReal) :
    s.checkEdgeSpacing c x y orient = some false ↔
      ∃ edge1 cell2 edge2, s.Faces table (s.probeAt c x yReal orient) edge1 cell2 edge2 ∧
        s.Seen (s.probeAt c x yReal orient) edge1 cell2 := by
  unfold checkEdgeSpacing
  split_ifs with hempty
  · refine iff_of_false (by simp) ?_
    rintro ⟨edge1, cell2, edge2, hfaces, -⟩
    exact hfaces.not_isEmpty htable hempty
  cases hedges : s.edges c with
  | none =>
      refine iff_of_false (by simp) ?_
      rintro ⟨edge1, cell2, edge2, hfaces, -⟩
      obtain ⟨edges, hsome, -⟩ := hfaces.edge1_mem
      cases hedges.symm.trans hsome
  | some edges =>
      dsimp only
      rw [hy, Option.map_some, Option.some_inj]
      constructor
      · intro hfalse
        obtain ⟨edge1, hedge1, hrows⟩ := List.all_eq_false.mp hfalse
        obtain ⟨y1, hy1, hcolumns⟩ := List.all_eq_false.mp (Bool.eq_false_iff.mpr hrows)
        obtain ⟨x1, hx1, hpixel⟩ := List.all_eq_false.mp (Bool.eq_false_iff.mpr hcolumns)
        rw [Grid.mem_interval] at hy1 hx1
        split at hpixel
        · exact absurd rfl hpixel
        · rename_i cell2 hcell
          split_ifs at hpixel with hne
          · exact absurd rfl hpixel
          split at hpixel
          · exact absurd rfl hpixel
          · rename_i edges2 hedges2
            obtain ⟨edge2, hedge2, hspaced⟩ := List.all_eq_false.mp (Bool.eq_false_iff.mpr hpixel)
            obtain ⟨hdir, hrun, hbreaks⟩ := (edgesSpaced_eq_false_iff htable
              (Db.Rect.ordered_init _ _ _ _) (Db.Rect.ordered_init _ _ _ _)).mp
              (Bool.eq_false_iff.mpr hspaced)
            exact ⟨edge1, cell2, edge2,
              ⟨⟨edges, hedges, hedge1⟩, hne, ⟨edges2, hedges2, hedge2⟩, hdir, hrun, hbreaks⟩,
              x1, y1, ⟨hx1.1, Int.lt_add_one_iff.mp hx1.2⟩,
              ⟨hy1.1, Int.lt_add_one_iff.mp hy1.2⟩, hcell⟩
      · rintro ⟨edge1, cell2, edge2, hfaces, x1, y1, hx1, hy1, hcell⟩
        obtain ⟨edges', hedges', hedge1⟩ := hfaces.edge1_mem
        obtain ⟨edges2, hedges2, hedge2⟩ := hfaces.edge2_mem
        cases hedges.symm.trans hedges'
        have hspaced := (edgesSpaced_eq_false_iff htable (Db.Rect.ordered_init _ _ _ _)
          (Db.Rect.ordered_init _ _ _ _)).mpr ⟨hfaces.parallel, hfaces.run, hfaces.breaks⟩
        refine List.all_eq_false.mpr ⟨edge1, hedge1, Bool.eq_false_iff.mp ?_⟩
        refine List.all_eq_false.mpr ⟨y1, Grid.mem_interval.mpr
          ⟨hy1.1, Int.lt_add_one_iff.mpr hy1.2⟩, Bool.eq_false_iff.mp ?_⟩
        refine List.all_eq_false.mpr ⟨x1, Grid.mem_interval.mpr
          ⟨hx1.1, Int.lt_add_one_iff.mpr hx1.2⟩, Bool.eq_false_iff.mp ?_⟩
        have hne : ¬cell2 = c := hfaces.ne
        rw [hcell]
        dsimp only
        rw [if_neg hne, hedges2]
        exact List.all_eq_false.mpr ⟨edge2, hedge2, Bool.eq_false_iff.mp hspaced⟩

theorem Seen.painted {p : Probe} {edge1 : MasterEdge} {cell2 : Nat} (h : s.Seen p edge1 cell2) :
    s.Painted cell2 := by
  obtain ⟨x, y, -, -, hcell⟩ := h
  exact ⟨x, y, hcell⟩

end Opendp

end OpenRoad.Dpl
