import OpenRoad.MplPerturb
import OpenRoad.MplWirelength
import Mathlib.Data.List.Sort
import Mathlib.Tactic.Linarith

/-!
Filling the dead space of a floorplan. The grid has a line at every side of a macro, so that every
macro covers a window of cells; each cell has the number of the macro that covers it, and the window
of a cluster is extended over rows and columns of free cells.
-/

namespace OpenRoad.Mpl

/-! ### Grid lines -/

theorem mem_insertPoint {p q : ℚ} {l : List ℚ} : q ∈ insertPoint p l ↔ q = p ∨ q ∈ l := by
  induction l with
  | nil => simp [insertPoint]
  | cons a l ih =>
      unfold insertPoint
      split
      · exact List.mem_cons
      split
      · rw [‹p = a›, List.mem_cons, ← or_assoc, or_self]
      · rw [List.mem_cons, ih, List.mem_cons, or_left_comm]

theorem insertPoint_sorted (p : ℚ) {l : List ℚ} (h : l.Pairwise (· < ·)) :
    (insertPoint p l).Pairwise (· < ·) := by
  induction l with
  | nil => exact List.pairwise_singleton _ p
  | cons a l ih =>
      obtain ⟨ha, hl⟩ := List.pairwise_cons.mp h
      unfold insertPoint
      split
      · refine List.pairwise_cons.mpr ⟨fun q hq => ?_, h⟩
        rcases List.mem_cons.mp hq with rfl | hq
        · exact ‹p < q›
        · exact ‹p < a›.trans (ha q hq)
      split
      · exact h
      · refine List.pairwise_cons.mpr ⟨fun q hq => ?_, ih hl⟩
        rcases mem_insertPoint.mp hq with rfl | hq
        · exact lt_of_le_of_ne (not_lt.mp ‹¬q < a›) (Ne.symm ‹¬q = a›)
        · exact ha q hq

/-- Numbers in increasing order. -/
def Sorted (grid : List ℚ) : Prop := grid.Pairwise (· < ·)

/-- The index is one of a grid line. -/
def InGrid (grid : List ℚ) (i : Int) : Prop := 0 ≤ i ∧ i < grid.length

theorem gridAt_natCast (grid : List ℚ) {i : Nat} (hi : i < grid.length) : gridAt grid i = grid[i] := by
  change grid.getD i 0 = grid[i]
  rw [List.getD_eq_getElem?_getD, List.getElem?_eq_getElem hi]
  rfl

theorem gridAt_lt_iff {grid : List ℚ} (h : Sorted grid) {i j : Int} (hi : InGrid grid i)
    (hj : InGrid grid j) : gridAt grid i < gridAt grid j ↔ i < j := by
  obtain ⟨a, rfl⟩ := Int.eq_ofNat_of_zero_le hi.1
  obtain ⟨b, rfl⟩ := Int.eq_ofNat_of_zero_le hj.1
  have ha : a < grid.length := Int.ofNat_lt.mp hi.2
  have hb : b < grid.length := Int.ofNat_lt.mp hj.2
  rw [gridAt_natCast grid ha, gridAt_natCast grid hb, Int.ofNat_lt]
  have hlt : ∀ {a b : Nat} (ha : a < grid.length) (hb : b < grid.length), a < b → grid[a] < grid[b] :=
    fun ha hb => List.pairwise_iff_getElem.mp h _ _ ha hb
  constructor
  · intro hgrid
    by_contra hle
    rcases Nat.lt_or_eq_of_le (Nat.le_of_not_lt hle) with hba | rfl
    · exact absurd hgrid (hlt hb ha hba).not_gt
    · exact absurd hgrid (lt_irrefl _)
  · exact hlt ha hb

theorem gridAt_le_iff {grid : List ℚ} (h : Sorted grid) {i j : Int} (hi : InGrid grid i)
    (hj : InGrid grid j) : gridAt grid i ≤ gridAt grid j ↔ i ≤ j := by
  rw [← not_lt, gridAt_lt_iff h hj hi, not_lt]

theorem exists_gridAt {grid : List ℚ} {v : ℚ} (hv : v ∈ grid) : ∃ i, InGrid grid i ∧ gridAt grid i = v := by
  obtain ⟨i, hi, rfl⟩ := List.mem_iff_getElem.mp hv
  exact ⟨i, ⟨Int.natCast_nonneg i, Int.ofNat_lt.mpr hi⟩, gridAt_natCast grid hi⟩

/-- The last index at which a condition holds, where it holds at one index only. -/
theorem foldl_ids {P Q : Nat → Prop} [DecidablePred P] [DecidablePred Q] {a b : Nat} (n : Nat)
    (hP : ∀ i < n, P i ↔ i = a) (hQ : ∀ i < n, Q i ↔ i = b) :
    (List.range n).foldl (fun (ids : Int × Int) i =>
        (if P i then (i : Int) else ids.1, if Q i then (i : Int) else ids.2)) (-1, -1) =
      (if a < n then (a : Int) else -1, if b < n then (b : Int) else -1) := by
  induction n with
  | zero => simp
  | succ n ih =>
      rw [List.range_succ, List.foldl_append, ih (fun i hi => hP i (Nat.lt_succ_of_lt hi))
        fun i hi => hQ i (Nat.lt_succ_of_lt hi)]
      simp only [List.foldl_cons, List.foldl_nil, hP n n.lt_succ_self, hQ n n.lt_succ_self,
        Prod.mk.injEq]
      constructor <;> split_ifs <;> omega

/-- A segment between two grid lines is found. -/
theorem calSegmentLoc_eq {grid : List ℚ} (h : Sorted grid) {i j : Int} (hi : 0 ≤ i) (hij : i < j)
    (hj : InGrid grid j) : calSegmentLoc (gridAt grid i) (gridAt grid j) grid = (i, j) := by
  have hi' : InGrid grid i := ⟨hi, hij.trans hj.2⟩
  have hcell : ∀ {k : Int}, InGrid grid k → ∀ n : Nat, n < grid.length - 1 →
      ((gridAt grid n ≤ gridAt grid k ∧ gridAt grid (n + 1) > gridAt grid k) ↔ n = k.toNat) := by
    intro k hk n hn
    have hn0 : InGrid grid n := ⟨Int.natCast_nonneg n, by omega⟩
    have hn1 : InGrid grid (n + 1) := ⟨by omega, by omega⟩
    rw [gridAt_le_iff h hn0 hk, gt_iff_lt, gridAt_lt_iff h hk hn1]
    have := hk.1
    omega
  have hrange : (do let a ← List.range (grid.length - 1); pure (a : Int)) =
      @List.map Nat Int Nat.cast (List.range (grid.length - 1)) := List.map_eq_flatMap.symm
  unfold calSegmentLoc
  rw [hrange, List.foldl_map, foldl_ids (grid.length - 1) (hcell hi') (hcell hj)]
  have hlength := hj.2
  have hi0 : (i.toNat : Int) = i := Int.toNat_of_nonneg hi
  have hj0 : (j.toNat : Int) = j := Int.toNat_of_nonneg hj.1
  dsimp only
  rw [if_pos (show i.toNat < grid.length - 1 by omega), hi0]
  by_cases hlast : j.toNat < grid.length - 1
  · rw [if_pos hlast, if_neg (show ¬(j.toNat : Int) = -1 by omega), hj0]
  · rw [if_neg hlast, if_pos rfl]
    congr 1
    omega

/-! ### Windows -/

namespace Window

def Mem (w : Window) (j i : Int) : Prop := w.yStart ≤ j ∧ j < w.yEnd ∧ w.xStart ≤ i ∧ i < w.xEnd

/-- The window has cells. -/
structure Nonempty (w : Window) : Prop where
  x : w.xStart < w.xEnd
  y : w.yStart < w.yEnd

/-- Two windows with no common cell are beside or above each other. -/
theorem apart_of_disjoint {w v : Window} (hw : w.Nonempty) (hv : v.Nonempty)
    (hdisjoint : ∀ j i, w.Mem j i → ¬v.Mem j i) :
    w.xEnd ≤ v.xStart ∨ v.xEnd ≤ w.xStart ∨ w.yEnd ≤ v.yStart ∨ v.yEnd ≤ w.yStart := by
  by_contra hmeet
  have hwx := hw.x
  have hwy := hw.y
  have hvx := hv.x
  have hvy := hv.y
  refine hdisjoint (max w.yStart v.yStart) (max w.xStart v.xStart) ?_ ?_ <;> unfold Mem <;> omega

end Window

/-- The macro covers the window between two grid lines each way. -/
structure Covers (lines : List ℚ × List ℚ) (m : SoftMacro) (w : Window) : Prop where
  nonempty : w.Nonempty
  xStart : 0 ≤ w.xStart
  xEnd : InGrid lines.1 w.xEnd
  yStart : 0 ≤ w.yStart
  yEnd : InGrid lines.2 w.yEnd
  left : gridAt lines.1 w.xStart = m.x
  right : gridAt lines.1 w.xEnd = m.x + m.width
  bottom : gridAt lines.2 w.yStart = m.y
  top : gridAt lines.2 w.yEnd = m.y + m.height

namespace Covers

variable {lines : List ℚ × List ℚ} {m m' : SoftMacro} {w v : Window}

theorem xStart_inGrid (h : Covers lines m w) : InGrid lines.1 w.xStart :=
  ⟨h.xStart, h.nonempty.x.trans h.xEnd.2⟩

theorem yStart_inGrid (h : Covers lines m w) : InGrid lines.2 w.yStart :=
  ⟨h.yStart, h.nonempty.y.trans h.yEnd.2⟩

theorem windowOf_eq (h : Covers lines m w) (hx : Sorted lines.1) (hy : Sorted lines.2) :
    windowOf lines m = w := by
  have hcolumns : calSegmentLoc m.x (m.x + m.width) lines.1 = (w.xStart, w.xEnd) := by
    rw [← h.right, ← h.left]
    exact calSegmentLoc_eq hx h.xStart h.nonempty.x h.xEnd
  have hrows : calSegmentLoc m.y (m.y + m.height) lines.2 = (w.yStart, w.yEnd) := by
    rw [← h.top, ← h.bottom]
    exact calSegmentLoc_eq hy h.yStart h.nonempty.y h.yEnd
  unfold windowOf
  rw [hcolumns, hrows]

end Covers

/-! ### The grid of some macros -/

/-- The lines of one direction. -/
def axisLines (lo hi : SoftMacro → ℚ) (macros : List SoftMacro) (lines : List ℚ) : List ℚ :=
  macros.foldl (fun lines m => insertPoint (hi m) (insertPoint (lo m) lines)) lines

theorem axisLines_sorted (lo hi : SoftMacro → ℚ) (macros : List SoftMacro) {lines : List ℚ}
    (h : Sorted lines) : Sorted (axisLines lo hi macros lines) := by
  induction macros generalizing lines with
  | nil => exact h
  | cons m macros ih => exact ih (insertPoint_sorted _ (insertPoint_sorted _ h))

theorem mem_axisLines {lo hi : SoftMacro → ℚ} {macros : List SoftMacro} {lines : List ℚ} {v : ℚ} :
    v ∈ axisLines lo hi macros lines ↔ v ∈ lines ∨ ∃ m ∈ macros, v = lo m ∨ v = hi m := by
  induction macros generalizing lines with
  | nil => simp [axisLines]
  | cons m macros ih =>
      change v ∈ axisLines lo hi macros _ ↔ _
      rw [ih, mem_insertPoint, mem_insertPoint, List.exists_mem_cons_iff]
      generalize (∃ m ∈ macros, v = lo m ∨ v = hi m) = later
      grind

/-- The grid of one direction: the sides of the macros and of the outline. -/
def axisGrid (limit : ℚ) (lo hi : SoftMacro → ℚ) (macros : List SoftMacro) : List ℚ :=
  insertPoint limit (insertPoint 0 (axisLines lo hi macros []))

theorem gridLines_eq (outline : Rect) (macros : List SoftMacro) :
    gridLines outline macros =
      (axisGrid outline.getWidth SoftMacro.x (fun m => m.x + m.width) macros,
        axisGrid outline.getHeight SoftMacro.y (fun m => m.y + m.height) macros) := by
  have hfold : ∀ lines : List ℚ × List ℚ, macros.foldl (fun (lines : List ℚ × List ℚ) m =>
      (insertPoint (m.x + m.width) (insertPoint m.x lines.1),
        insertPoint (m.y + m.height) (insertPoint m.y lines.2))) lines =
      (axisLines SoftMacro.x (fun m => m.x + m.width) macros lines.1,
        axisLines SoftMacro.y (fun m => m.y + m.height) macros lines.2) := by
    induction macros with
    | nil => exact fun _ => rfl
    | cons m macros ih => exact fun lines => ih _
  unfold gridLines
  rw [hfold]
  rfl

section AxisGrid

variable {limit : ℚ} {lo hi : SoftMacro → ℚ} {macros : List SoftMacro}

theorem axisGrid_sorted : Sorted (axisGrid limit lo hi macros) :=
  insertPoint_sorted _ (insertPoint_sorted _ (axisLines_sorted lo hi macros .nil))

theorem mem_axisGrid {v : ℚ} : v ∈ axisGrid limit lo hi macros ↔
    v = limit ∨ v = 0 ∨ ∃ m ∈ macros, v = lo m ∨ v = hi m := by
  unfold axisGrid
  rw [mem_insertPoint, mem_insertPoint, mem_axisLines]
  simp only [List.not_mem_nil, false_or]

/-- The sides of a macro are two lines of the grid, one before the other. -/
theorem exists_segment {m : SoftMacro} (hm : m ∈ macros) (hlt : lo m < hi m) :
    ∃ i j, 0 ≤ i ∧ i < j ∧ InGrid (axisGrid limit lo hi macros) j ∧
      gridAt (axisGrid limit lo hi macros) i = lo m ∧
      gridAt (axisGrid limit lo hi macros) j = hi m := by
  obtain ⟨i, hi', hlo⟩ := exists_gridAt
    (mem_axisGrid.mpr (Or.inr (Or.inr ⟨m, hm, Or.inl rfl⟩)) : lo m ∈ axisGrid limit lo hi macros)
  obtain ⟨j, hj, hhi⟩ := exists_gridAt
    (mem_axisGrid.mpr (Or.inr (Or.inr ⟨m, hm, Or.inr rfl⟩)) : hi m ∈ axisGrid limit lo hi macros)
  have hij : i < j := by
    rw [← gridAt_lt_iff axisGrid_sorted hi' hj, hlo, hhi]
    exact hlt
  exact ⟨i, j, hi'.1, hij, hj, hlo, hhi⟩

/-- Every line of the grid is in the outline. -/
theorem gridAt_within (hlimit : 0 ≤ limit) (hin : ∀ m ∈ macros, 0 ≤ lo m ∧ lo m ≤ hi m ∧ hi m ≤ limit)
    {i : Int} (hi' : InGrid (axisGrid limit lo hi macros) i) :
    0 ≤ gridAt (axisGrid limit lo hi macros) i ∧ gridAt (axisGrid limit lo hi macros) i ≤ limit := by
  obtain ⟨n, rfl⟩ := Int.eq_ofNat_of_zero_le hi'.1
  have hn : n < (axisGrid limit lo hi macros).length := Int.ofNat_lt.mp hi'.2
  rw [gridAt_natCast _ hn]
  rcases mem_axisGrid.mp (List.getElem_mem hn) with heq | heq | ⟨m, hm, heq | heq⟩
  · rw [heq]
    exact ⟨hlimit, le_rfl⟩
  · rw [heq]
    exact ⟨le_rfl, hlimit⟩
  · rw [heq]
    exact ⟨(hin m hm).1, (hin m hm).2.1.trans (hin m hm).2.2⟩
  · rw [heq]
    exact ⟨(hin m hm).1.trans (hin m hm).2.1, (hin m hm).2.2⟩

end AxisGrid

theorem exists_covers (outline : Rect) {macros : List SoftMacro} {m : SoftMacro} (hm : m ∈ macros)
    (hwidth : 0 < m.width) (hheight : 0 < m.height) : ∃ w, Covers (gridLines outline macros) m w := by
  rw [gridLines_eq]
  obtain ⟨xs, xe, hxs, hx, hxe, hleft, hright⟩ :=
    @exists_segment outline.getWidth SoftMacro.x (fun m => m.x + m.width) macros m hm
      (lt_add_of_pos_right m.x hwidth)
  obtain ⟨ys, ye, hys, hy, hye, hbottom, htop⟩ :=
    @exists_segment outline.getHeight SoftMacro.y (fun m => m.y + m.height) macros m hm
      (lt_add_of_pos_right m.y hheight)
  exact ⟨⟨xs, xe, ys, ye⟩, ⟨hx, hy⟩, hxs, hxe, hys, hye, hleft, hright, hbottom, htop⟩

/-! ### Cells -/

theorem intRange_eq (a b : Int) :
    intRange a b = @List.map Nat Int (fun n => a + (n : Int)) (List.range (b - a).toNat) := by
  have hrange : (do let n ← List.range (b - a).toNat; pure (n : Int)) =
      @List.map Nat Int Nat.cast (List.range (b - a).toNat) := List.map_eq_flatMap.symm
  unfold intRange
  rw [hrange, List.map_map]
  rfl

@[simp] theorem length_intRange (a b : Int) : (intRange a b).length = (b - a).toNat := by
  rw [intRange_eq, List.length_map, List.length_range]

@[simp] theorem getElem_intRange {a b : Int} {n : Nat} (hn : n < (intRange a b).length) :
    (intRange a b)[n] = a + n := by
  simp only [intRange_eq, List.getElem_map, List.getElem_range]

theorem mem_intRange {a b k : Int} : k ∈ intRange a b ↔ a ≤ k ∧ k < b := by
  rw [intRange_eq, List.mem_map]
  constructor
  · rintro ⟨n, hn, rfl⟩
    have := List.mem_range.mp hn
    omega
  · intro hk
    exact ⟨(k - a).toNat, List.mem_range.mpr (by omega), by omega⟩

instance (w : Window) (j i : Int) : Decidable (w.Mem j i) := inferInstanceAs (Decidable (_ ∧ _))

theorem fill_apply (cells : Cells) (w : Window) (macroId : Nat) (j i : Int) :
    cells.fill w macroId j i = if w.Mem j i then (macroId : Int) else cells j i := rfl

theorem isFree_iff {cells : Cells} {w : Window} :
    cells.isFree w = true ↔ ∀ j i, w.Mem j i → cells j i = -1 := by
  unfold Cells.isFree
  simp only [List.all_eq_true, mem_intRange, decide_eq_true_eq]
  exact ⟨fun h j i hmem => h j ⟨hmem.1, hmem.2.1⟩ i hmem.2.2,
    fun h j hj i hi => h j i ⟨hj.1, hj.2, hi⟩⟩

/-- The cells with the number of a macro are those of a window. -/
def Owns (cells : Cells) (macroId : Nat) (w : Window) : Prop :=
  ∀ j i, cells j i = (macroId : Int) ↔ w.Mem j i

/-- Only free cells have been taken, and for one macro. -/
def Taken (macroId : Nat) (cells cells' : Cells) : Prop :=
  ∀ j i, cells' j i = cells j i ∨ cells j i = -1 ∧ cells' j i = (macroId : Int)

theorem Taken.trans {macroId : Nat} {cells cells' cells'' : Cells} (h : Taken macroId cells cells')
    (h' : Taken macroId cells' cells'') : Taken macroId cells cells'' := by
  intro j i
  rcases h' j i with heq' | ⟨hfree', heq'⟩
  · rw [heq']
    exact h j i
  · rcases h j i with heq | ⟨-, heq⟩
    · exact Or.inr ⟨heq ▸ hfree', heq'⟩
    · omega

/-- The windows of the other macros are kept. -/
theorem Taken.owns {macroId id : Nat} {cells cells' : Cells} (h : Taken macroId cells cells')
    (hid : id ≠ macroId) {w : Window} (howns : Owns cells id w) : Owns cells' id w := by
  intro j i
  rw [← howns j i]
  rcases h j i with heq | ⟨hfree, heq⟩
  · rw [heq]
  · rw [heq, hfree]
    omega

/-- A window is extended over some strips, one after another; `grown` is what it has become after each
of them. -/
theorem extend_spec {macroId : Nat} {strips : List Window} {cells : Cells} {grown : Nat → Window}
    (hgrown : ∀ n (hn : n < strips.length) j i,
      (grown (n + 1)).Mem j i ↔ (grown n).Mem j i ∨ (strips[n]).Mem j i)
    (howns : Owns cells macroId (grown 0)) :
    (extend macroId strips cells).1 ≤ strips.length ∧
      Owns (extend macroId strips cells).2 macroId (grown (extend macroId strips cells).1) ∧
      Taken macroId cells (extend macroId strips cells).2 := by
  induction strips generalizing cells grown with
  | nil => exact ⟨le_rfl, howns, fun _ _ => Or.inl rfl⟩
  | cons strip strips ih =>
      unfold extend
      split
      · have hfree := isFree_iff.mp ‹cells.isFree strip = true›
        have hfirst := hgrown 0 (Nat.succ_pos _)
        have hfill : Owns (cells.fill strip macroId) macroId (grown 1) := by
          intro j i
          rw [fill_apply, hfirst j i, List.getElem_cons_zero]
          by_cases hmem : strip.Mem j i
          · rw [if_pos hmem]
            exact ⟨fun _ => Or.inr hmem, fun _ => rfl⟩
          · rw [if_neg hmem, howns j i]
            exact ⟨Or.inl, fun h => h.resolve_right hmem⟩
        have htaken : Taken macroId cells (cells.fill strip macroId) := by
          intro j i
          rw [fill_apply]
          by_cases hmem : strip.Mem j i
          · exact Or.inr ⟨hfree j i hmem, if_pos hmem⟩
          · exact Or.inl (if_neg hmem)
        obtain ⟨hle, hend, hrest⟩ := @ih (cells.fill strip macroId) (fun n => grown (n + 1))
          (fun n hn j i => hgrown (n + 1) (Nat.succ_lt_succ hn) j i) hfill
        exact ⟨Nat.succ_le_succ hle, hend, htaken.trans hrest⟩
      · exact ⟨Nat.zero_le _, howns, fun _ _ => Or.inl rfl⟩

section Directions

variable {macroId : Nat} {w : Window} {cells : Cells}

theorem extendLeft_spec (hw : w.Nonempty) (howns : Owns cells macroId w) :
    ((extendLeft macroId w cells).1 : Int) ≤ max 0 w.xStart ∧
      Owns (extendLeft macroId w cells).2 macroId
        { w with xStart := w.xStart - (extendLeft macroId w cells).1 } ∧
      Taken macroId cells (extendLeft macroId w cells).2 := by
  have hspec := @extend_spec macroId
    ((intRange 0 w.xStart).reverse.map fun i => { w with xStart := i, xEnd := i + 1 }) cells
    (fun n => { w with xStart := w.xStart - n }) ?_ (by simpa using howns)
  · refine ⟨?_, hspec.2⟩
    have hle := hspec.1
    simp only [List.length_map, List.length_reverse, length_intRange] at hle
    unfold extendLeft
    omega
  · intro n hn j i
    have hx := hw.x
    simp only [List.length_map, List.length_reverse, length_intRange] at hn
    simp only [List.getElem_map, List.getElem_reverse, getElem_intRange, length_intRange, Window.Mem]
    omega

theorem extendTop_spec (hw : w.Nonempty) (numY : Int) (howns : Owns cells macroId w) :
    ((extendTop macroId w cells numY).1 : Int) ≤ max 0 (numY - w.yEnd) ∧
      Owns (extendTop macroId w cells numY).2 macroId
        { w with yEnd := w.yEnd + (extendTop macroId w cells numY).1 } ∧
      Taken macroId cells (extendTop macroId w cells numY).2 := by
  have hspec := @extend_spec macroId
    ((intRange w.yEnd numY).map fun j => { w with yStart := j, yEnd := j + 1 }) cells
    (fun n => { w with yEnd := w.yEnd + n }) ?_ (by simpa using howns)
  · refine ⟨?_, hspec.2⟩
    have hle := hspec.1
    simp only [List.length_map, length_intRange] at hle
    unfold extendTop
    omega
  · intro n hn j i
    have hy := hw.y
    simp only [List.length_map, length_intRange] at hn
    simp only [List.getElem_map, getElem_intRange, Window.Mem]
    omega

theorem extendRight_spec (hw : w.Nonempty) (numX : Int) (howns : Owns cells macroId w) :
    ((extendRight macroId w cells numX).1 : Int) ≤ max 0 (numX - w.xEnd) ∧
      Owns (extendRight macroId w cells numX).2 macroId
        { w with xEnd := w.xEnd + (extendRight macroId w cells numX).1 } ∧
      Taken macroId cells (extendRight macroId w cells numX).2 := by
  have hspec := @extend_spec macroId
    ((intRange w.xEnd numX).map fun i => { w with xStart := i, xEnd := i + 1 }) cells
    (fun n => { w with xEnd := w.xEnd + n }) ?_ (by simpa using howns)
  · refine ⟨?_, hspec.2⟩
    have hle := hspec.1
    simp only [List.length_map, length_intRange] at hle
    unfold extendRight
    omega
  · intro n hn j i
    have hx := hw.x
    simp only [List.length_map, length_intRange] at hn
    simp only [List.getElem_map, getElem_intRange, Window.Mem]
    omega

theorem extendDown_spec (hw : w.Nonempty) (howns : Owns cells macroId w) :
    ((extendDown macroId w cells).1 : Int) ≤ max 0 w.yStart ∧
      Owns (extendDown macroId w cells).2 macroId
        { w with yStart := w.yStart - (extendDown macroId w cells).1 } ∧
      Taken macroId cells (extendDown macroId w cells).2 := by
  have hspec := @extend_spec macroId
    ((intRange 0 w.yStart).reverse.map fun j => { w with yStart := j, yEnd := j + 1 }) cells
    (fun n => { w with yStart := w.yStart - n }) ?_ (by simpa using howns)
  · refine ⟨?_, hspec.2⟩
    have hle := hspec.1
    simp only [List.length_map, List.length_reverse, length_intRange] at hle
    unfold extendDown
    omega
  · intro n hn j i
    have hy := hw.y
    simp only [List.length_map, List.length_reverse, length_intRange] at hn
    simp only [List.getElem_map, List.getElem_reverse, getElem_intRange, length_intRange, Window.Mem]
    omega

end Directions

/-! ### Extending a macro -/

/-- The rectangle of the first macro contains that of the second. -/
structure Contains (m m' : SoftMacro) : Prop where
  left : m.x ≤ m'.x
  right : m'.x + m'.width ≤ m.x + m.width
  bottom : m.y ≤ m'.y
  top : m'.y + m'.height ≤ m.y + m.height

theorem Contains.refl (m : SoftMacro) : Contains m m := ⟨le_rfl, le_rfl, le_rfl, le_rfl⟩

theorem Contains.trans {m m' m'' : SoftMacro} (h : Contains m m') (h' : Contains m' m'') :
    Contains m m'' :=
  ⟨h.left.trans h'.left, h'.right.trans h.right, h.bottom.trans h'.bottom, h'.top.trans h.top⟩

/-- A window in another one belongs to a rectangle in another one. -/
theorem Covers.contains {lines : List ℚ × List ℚ} (hx : Sorted lines.1) (hy : Sorted lines.2)
    {m m' : SoftMacro} {w v : Window} (h : Covers lines m w) (h' : Covers lines m' v)
    (hleft : w.xStart ≤ v.xStart) (hright : v.xEnd ≤ w.xEnd) (hbottom : w.yStart ≤ v.yStart)
    (htop : v.yEnd ≤ w.yEnd) : Contains m m' where
  left := by
    rw [← h.left, ← h'.left]
    exact (gridAt_le_iff hx h.xStart_inGrid h'.xStart_inGrid).mpr hleft
  right := by
    rw [← h.right, ← h'.right]
    exact (gridAt_le_iff hx h'.xEnd h.xEnd).mpr hright
  bottom := by
    rw [← h.bottom, ← h'.bottom]
    exact (gridAt_le_iff hy h.yStart_inGrid h'.yStart_inGrid).mpr hbottom
  top := by
    rw [← h.top, ← h'.top]
    exact (gridAt_le_iff hy h'.yEnd h.yEnd).mpr htop

namespace SACoreSoftMacro

theorem fillMacro_spec {lines : List ℚ × List ℚ} (hx : Sorted lines.1) (hy : Sorted lines.2)
    {st : (Nat → SoftMacro) × Cells} {macroId : Nat} {w : Window}
    (hcovers : Covers lines (st.1 macroId) w) (howns : Owns st.2 macroId w) :
    ∃ m w', (fillMacro lines st macroId).1 = Function.update st.1 macroId m ∧ Covers lines m w' ∧
      Owns (fillMacro lines st macroId).2 macroId w' ∧
      Taken macroId st.2 (fillMacro lines st macroId).2 ∧ Contains m (st.1 macroId) ∧
      m.cluster = (st.1 macroId).cluster := by
  have hw := hcovers.nonempty
  obtain ⟨hwx, hwy⟩ := hw
  have hxs := hcovers.xStart
  have hxe := hcovers.xEnd
  have hys := hcovers.yStart
  have hye := hcovers.yEnd
  unfold InGrid at hxe hye
  unfold fillMacro
  dsimp only
  rw [hcovers.windowOf_eq hx hy]
  obtain ⟨hleft, howns, htaken⟩ := extendLeft_spec ⟨hwx, hwy⟩ howns
  generalize extendLeft macroId w st.2 = left at *
  obtain ⟨htop, howns, htaken'⟩ := extendTop_spec (by constructor <;> dsimp only <;> omega)
    ((lines.2.length : Int) - 1) howns
  replace htaken := htaken.trans htaken'
  generalize extendTop macroId _ left.2 ((lines.2.length : Int) - 1) = top at *
  obtain ⟨hright, howns, htaken'⟩ := extendRight_spec (by constructor <;> dsimp only <;> omega)
    ((lines.1.length : Int) - 1) howns
  replace htaken := htaken.trans htaken'
  generalize extendRight macroId _ top.2 ((lines.1.length : Int) - 1) = right at *
  obtain ⟨hdown, howns, htaken'⟩ := extendDown_spec (by constructor <;> dsimp only <;> omega) howns
  replace htaken := htaken.trans htaken'
  generalize extendDown macroId _ right.2 = down at *
  have hnew : Covers lines
      (((st.1 macroId).setLocationF (gridAt lines.1 (w.xStart - left.1))
        (gridAt lines.2 (w.yStart - down.1))).setShapeF
          (gridAt lines.1 (w.xEnd + right.1) - gridAt lines.1 (w.xStart - left.1))
          (gridAt lines.2 (w.yEnd + top.1) - gridAt lines.2 (w.yStart - down.1)))
      ⟨w.xStart - left.1, w.xEnd + right.1, w.yStart - down.1, w.yEnd + top.1⟩ := by
    dsimp only at htop hright hdown
    refine ⟨⟨?_, ?_⟩, ?_, ⟨?_, ?_⟩, ?_, ⟨?_, ?_⟩, rfl, ?_, rfl, ?_⟩ <;> dsimp only
    all_goals first | omega | exact (add_sub_cancel _ _).symm
  refine ⟨_, _, rfl, hnew, howns, htaken, ?_, rfl⟩
  dsimp only at hdown
  exact hnew.contains hx hy hcovers (by dsimp only; omega) (by dsimp only; omega)
    (by dsimp only; omega) (by dsimp only; omega)

/-! ### All macros -/

/-- The macro has an area, and a number below that of the macros of the sequence pair. -/
def OnFloor (n : Nat) (macros : Nat → SoftMacro) (id : Nat) : Prop := id < n ∧ 0 < (macros id).getArea

/-- The clusters that are extended. -/
def isExtended (m : SoftMacro) : Bool := m.isMixedCluster || m.isStdCellCluster

/-- Macros that have been extended from those given: the numbers in the cells are those of the macros
that cover them. -/
structure Filled (n : Nat) (lines : List ℚ × List ℚ) (macros : Nat → SoftMacro)
    (st : (Nat → SoftMacro) × Cells) : Prop where
  covers : ∀ id, OnFloor n macros id → ∃ w, Covers lines (st.1 id) w ∧ Owns st.2 id w
  contains : ∀ id, Contains (st.1 id) (macros id)
  kept : ∀ id, ¬(OnFloor n macros id ∧ isExtended (macros id) = true) → st.1 id = macros id
  cluster : ∀ id, (st.1 id).cluster = (macros id).cluster

section Fill

variable {n : Nat} {lines : List ℚ × List ℚ} {macros : Nat → SoftMacro}

theorem Filled.fillMacro (hx : Sorted lines.1) (hy : Sorted lines.2) {st : (Nat → SoftMacro) × Cells}
    (h : Filled n lines macros st) {macroId : Nat} (hfloor : OnFloor n macros macroId)
    (hextended : isExtended (macros macroId) = true) :
    Filled n lines macros (fillMacro lines st macroId) := by
  obtain ⟨w, hcovers, howns⟩ := h.covers macroId hfloor
  obtain ⟨m, w', hmacros, hcovers', howns', htaken, hcontains, hcluster⟩ :=
    fillMacro_spec hx hy hcovers howns
  refine ⟨fun id hid => ?_, fun id => ?_, fun id hid => ?_, fun id => ?_⟩
  · by_cases heq : id = macroId
    · rw [heq, hmacros, Function.update_self]
      exact ⟨w', hcovers', howns'⟩
    · obtain ⟨v, hv, hvowns⟩ := h.covers id hid
      rw [hmacros, Function.update_of_ne heq]
      exact ⟨v, hv, htaken.owns heq hvowns⟩
  · by_cases heq : id = macroId
    · rw [heq, hmacros, Function.update_self]
      exact hcontains.trans (h.contains macroId)
    · rw [hmacros, Function.update_of_ne heq]
      exact h.contains id
  · have hne : id ≠ macroId := fun heq => hid (heq ▸ ⟨hfloor, hextended⟩)
    rw [hmacros, Function.update_of_ne hne]
    exact h.kept id hid
  · by_cases heq : id = macroId
    · rw [heq, hmacros, Function.update_self, hcluster]
      exact h.cluster macroId
    · rw [hmacros, Function.update_of_ne heq]
      exact h.cluster id

/-- One pass over the macros, for one kind of clusters. -/
theorem Filled.propagate (hx : Sorted lines.1) (hy : Sorted lines.2) {isKind : SoftMacro → Bool}
    (hkind : ∀ m m' : SoftMacro, m.cluster = m'.cluster → isKind m = isKind m')
    (hextended : ∀ m, isKind m = true → isExtended m = true) {ids : List Nat}
    (hids : ∀ id ∈ ids, id < n) {st : (Nat → SoftMacro) × Cells} (h : Filled n lines macros st) :
    Filled n lines macros (ids.foldl (fun st macroId =>
      if (st.1 macroId).getArea ≤ 0 || !isKind (st.1 macroId) then st
      else SACoreSoftMacro.fillMacro lines st macroId) st) := by
  induction ids generalizing st with
  | nil => exact h
  | cons macroId ids ih =>
      rw [List.foldl_cons]
      refine ih (fun id hid => hids id (List.mem_cons_of_mem _ hid)) ?_
      split
      · exact h
      · have hneg : ¬((st.1 macroId).getArea ≤ 0) ∧ isKind (st.1 macroId) = true := by
          simpa using ‹¬((st.1 macroId).getArea ≤ 0 || !isKind (st.1 macroId)) = true›
        have hext : isExtended (macros macroId) = true := by
          apply hextended
          rw [← hneg.2]
          exact (hkind _ _ (h.cluster macroId)).symm
        have hfloor : OnFloor n macros macroId := by
          by_contra hnot
          have hkept := h.kept macroId fun hboth => hnot hboth.1
          refine hnot ⟨hids macroId List.mem_cons_self, ?_⟩
          rw [← hkept]
          exact not_le.mp hneg.1
        exact h.fillMacro hx hy hfloor hext

end Fill

end SACoreSoftMacro

/-! ### Floorplans without overlaps -/

/-- Two macros do not overlap. -/
def Apart (m m' : SoftMacro) : Prop :=
  m.x + m.width ≤ m'.x ∨ m'.x + m'.width ≤ m.x ∨ m.y + m.height ≤ m'.y ∨ m'.y + m'.height ≤ m.y

instance (m m' : SoftMacro) : Decidable (Apart m m') := inferInstanceAs (Decidable (_ ∨ _))

/-- The macro is inside the outline, which starts at the origin. -/
structure InOutline (outline : Rect) (m : SoftMacro) : Prop where
  left : 0 ≤ m.x
  right : m.x + m.width ≤ outline.getWidth
  bottom : 0 ≤ m.y
  top : m.y + m.height ≤ outline.getHeight

theorem Covers.apart_iff {lines : List ℚ × List ℚ} (hx : Sorted lines.1) (hy : Sorted lines.2)
    {m m' : SoftMacro} {w v : Window} (h : Covers lines m w) (h' : Covers lines m' v) :
    Apart m m' ↔ w.xEnd ≤ v.xStart ∨ v.xEnd ≤ w.xStart ∨ w.yEnd ≤ v.yStart ∨ v.yEnd ≤ w.yStart := by
  unfold Apart
  rw [← h.right, ← h'.right, ← h.top, ← h'.top, ← h'.left, ← h.left, ← h'.bottom, ← h.bottom,
    gridAt_le_iff hx h.xEnd h'.xStart_inGrid, gridAt_le_iff hx h'.xEnd h.xStart_inGrid,
    gridAt_le_iff hy h.yEnd h'.yStart_inGrid, gridAt_le_iff hy h'.yEnd h.yStart_inGrid]

namespace SACoreSoftMacro

/-- The cells before any macro is extended. -/
def macroCells (lines : List ℚ × List ℚ) (macros : Nat → SoftMacro) (ids : List Nat) : Cells :=
  ids.foldl (fun (cells : Cells) macroId =>
    if (macros macroId).getArea ≤ 0 then cells
    else cells.fill (windowOf lines (macros macroId)) macroId) fun _ _ => -1

theorem macroCells_owns {lines : List ℚ × List ℚ} (hx : Sorted lines.1) (hy : Sorted lines.2)
    {macros : Nat → SoftMacro} {n : Nat}
    (hcovers : ∀ id, OnFloor n macros id → ∃ w, Covers lines (macros id) w)
    (hapart : ∀ id id', OnFloor n macros id → OnFloor n macros id' → id ≠ id' →
      Apart (macros id) (macros id')) {k : Nat} (hk : k ≤ n) :
    (∀ j i, macroCells lines macros (List.range k) j i = -1 ∨
        ∃ id < k, macroCells lines macros (List.range k) j i = (id : Int)) ∧
      ∀ id < k, OnFloor n macros id → ∀ w, Covers lines (macros id) w →
        Owns (macroCells lines macros (List.range k)) id w := by
  induction k with
  | zero => exact ⟨fun _ _ => Or.inl rfl, fun id hid => absurd hid (Nat.not_lt_zero id)⟩
  | succ k ih =>
      obtain ⟨hcells, howns⟩ := ih (Nat.le_of_succ_le hk)
      have hstep : macroCells lines macros (List.range (k + 1)) =
          if (macros k).getArea ≤ 0 then macroCells lines macros (List.range k)
          else (macroCells lines macros (List.range k)).fill (windowOf lines (macros k)) k := by
        unfold macroCells
        rw [@List.range_succ k, List.foldl_append]
        rfl
      rw [hstep]
      split
      · refine ⟨fun j i => (hcells j i).imp_right fun ⟨id, hid, heq⟩ =>
          ⟨id, Nat.lt_succ_of_lt hid, heq⟩, fun id hid hfloor w hw => ?_⟩
        rcases Nat.lt_succ_iff_lt_or_eq.mp hid with hid | rfl
        · exact howns id hid hfloor w hw
        · exact absurd hfloor.2 (not_lt.mpr ‹(macros id).getArea ≤ 0›)
      · have hfloor : OnFloor n macros k := ⟨hk, not_le.mp ‹_›⟩
        obtain ⟨w, hw⟩ := hcovers k hfloor
        rw [hw.windowOf_eq hx hy]
        refine ⟨fun j i => ?_, fun id hid hidfloor v hv j i => ?_⟩
        · rw [fill_apply]
          split
          · exact Or.inr ⟨k, Nat.lt_succ_self k, rfl⟩
          · exact (hcells j i).imp_right fun ⟨id, hid, heq⟩ => ⟨id, Nat.lt_succ_of_lt hid, heq⟩
        · rw [fill_apply]
          rcases Nat.lt_succ_iff_lt_or_eq.mp hid with hlt | rfl
          · have hdisjoint := (hw.apart_iff hx hy hv).mp
              (hapart k id hfloor hidfloor (Nat.ne_of_gt hlt))
            split
            · refine ⟨fun heq => absurd (Int.ofNat_inj.mp heq) (Nat.ne_of_gt hlt), fun hmem => ?_⟩
              have hwmem : w.Mem j i := ‹w.Mem j i›
              unfold Window.Mem at hmem hwmem
              omega
            · exact howns id hlt hidfloor v hv j i
          · have hsame : v.Mem j i ↔ w.Mem j i := by
              rw [← hv.windowOf_eq hx hy, ← hw.windowOf_eq hx hy]
            rw [hsame]
            split
            · exact ⟨fun _ => ‹w.Mem j i›, fun _ => rfl⟩
            · refine ⟨fun heq => ?_, fun hmem => absurd hmem ‹¬w.Mem j i›⟩
              rcases hcells j i with hfree | ⟨id', hid', heq'⟩ <;> omega

variable (P : SoftSetup) {posSeq : List Nat} {macros : Nat → SoftMacro}

/-- The macros with an area are placed inside the outline and do not overlap. -/
structure Placed (P : SoftSetup) (posSeq : List Nat) (macros : Nat → SoftMacro) : Prop where
  inside : ∀ id ∈ posSeq, 0 < (macros id).getArea → InOutline P.outline (macros id)
  apart : ∀ id ∈ posSeq, ∀ id' ∈ posSeq, id ≠ id' → 0 < (macros id).getArea →
    0 < (macros id').getArea → Apart (macros id) (macros id')

theorem fillDeadSpace_filled (hperm : posSeq.Perm (List.range posSeq.length))
    (hsize : ∀ id ∈ posSeq, 0 < (macros id).getArea → 0 < (macros id).width ∧ 0 < (macros id).height)
    (hplaced : Placed P posSeq macros) {width height : ℚ}
    (hfits : exceedsOutline P width height = false) :
    ∃ lines cells, Sorted lines.1 ∧ Sorted lines.2 ∧
      (∀ m w, Covers lines m w → (∃ id, OnFloor posSeq.length macros id) → InOutline P.outline m) ∧
      Filled posSeq.length lines macros (fillDeadSpace P posSeq width height macros, cells) := by
  have hmem : ∀ id, id ∈ posSeq ↔ id < posSeq.length := fun id => by
    rw [hperm.mem_iff, List.mem_range]
  let floor := (posSeq.map macros).filter fun m => decide (m.getArea > 0)
  have hfloor : ∀ m, m ∈ floor ↔ ∃ id, OnFloor posSeq.length macros id ∧ macros id = m := fun m => by
    rw [List.mem_filter, List.mem_map, decide_eq_true_eq]
    constructor
    · rintro ⟨⟨id, hid, rfl⟩, harea⟩
      exact ⟨id, ⟨(hmem id).mp hid, harea⟩, rfl⟩
    · rintro ⟨id, ⟨hid, harea⟩, rfl⟩
      exact ⟨⟨id, (hmem id).mpr hid, rfl⟩, harea⟩
  have hx : Sorted (gridLines P.outline floor).1 := by
    rw [gridLines_eq]
    exact axisGrid_sorted
  have hy : Sorted (gridLines P.outline floor).2 := by
    rw [gridLines_eq]
    exact axisGrid_sorted
  have hcovers : ∀ id, OnFloor posSeq.length macros id →
      ∃ w, Covers (gridLines P.outline floor) (macros id) w := fun id hid => by
    obtain ⟨hwidth, hheight⟩ := hsize id ((hmem id).mpr hid.1) hid.2
    exact exists_covers P.outline ((hfloor _).mpr ⟨id, hid, rfl⟩) hwidth hheight
  have hapart : ∀ id id', OnFloor posSeq.length macros id → OnFloor posSeq.length macros id' →
      id ≠ id' → Apart (macros id) (macros id') := fun id id' hid hid' hne =>
    hplaced.apart id ((hmem id).mpr hid.1) id' ((hmem id').mpr hid'.1) hne hid.2 hid'.2
  have howns := (macroCells_owns hx hy hcovers hapart le_rfl).2
  have hstart : Filled posSeq.length (gridLines P.outline floor) macros
      (macros, macroCells (gridLines P.outline floor) macros (List.range posSeq.length)) := by
    refine ⟨fun id hid => ?_, fun id => Contains.refl _, fun _ _ => rfl, fun _ => rfl⟩
    obtain ⟨w, hw⟩ := hcovers id hid
    exact ⟨w, hw, howns id hid.1 hid w hw⟩
  have hids : ∀ id ∈ List.range posSeq.length, id < posSeq.length := fun id => List.mem_range.mp
  have htype : ∀ type (m m' : SoftMacro), m.cluster = m'.cluster → m.isOfType type = m'.isOfType type :=
    fun type m m' heq => by
      unfold SoftMacro.isOfType
      rw [heq]
  have hmixed := hstart.propagate hx hy (htype .MixedCluster)
    (fun m hm => Bool.or_eq_true_iff.mpr (Or.inl hm)) hids
  have hall := hmixed.propagate hx hy (htype .StdCellCluster)
    (fun m hm => Bool.or_eq_true_iff.mpr (Or.inr hm)) hids
  obtain ⟨st, hst, hfilled⟩ : ∃ st, fillDeadSpace P posSeq width height macros = Prod.fst st ∧
      Filled posSeq.length (gridLines P.outline floor) macros st := by
    refine ⟨_, ?_, hall⟩
    unfold fillDeadSpace
    exact if_neg (by simp [hfits])
  refine ⟨gridLines P.outline floor, st.2, hx, hy, ?_, hst ▸ hfilled⟩
  rintro m w hw ⟨id, hid⟩
  have hinside : ∀ m ∈ floor, InOutline P.outline m ∧ 0 < m.width ∧ 0 < m.height := by
    intro m hm
    obtain ⟨id, hid, rfl⟩ := (hfloor m).mp hm
    exact ⟨hplaced.inside id ((hmem id).mpr hid.1) hid.2, hsize id ((hmem id).mpr hid.1) hid.2⟩
  obtain ⟨hin, hwidth, hheight⟩ := hinside (macros id) ((hfloor _).mpr ⟨id, hid, rfl⟩)
  have hxin : ∀ {i}, InGrid (gridLines P.outline floor).1 i → 0 ≤ gridAt (gridLines P.outline floor).1 i ∧
      gridAt (gridLines P.outline floor).1 i ≤ P.outline.getWidth := by
    rw [gridLines_eq]
    refine gridAt_within (by linarith [hin.left, hin.right]) fun m hm => ?_
    obtain ⟨hm, hw, -⟩ := hinside m hm
    exact ⟨hm.left, (lt_add_of_pos_right m.x hw).le, hm.right⟩
  have hyin : ∀ {i}, InGrid (gridLines P.outline floor).2 i → 0 ≤ gridAt (gridLines P.outline floor).2 i ∧
      gridAt (gridLines P.outline floor).2 i ≤ P.outline.getHeight := by
    rw [gridLines_eq]
    refine gridAt_within (by linarith [hin.bottom, hin.top]) fun m hm => ?_
    obtain ⟨hm, -, hh⟩ := hinside m hm
    exact ⟨hm.bottom, (lt_add_of_pos_right m.y hh).le, hm.top⟩
  exact ⟨hw.left ▸ (hxin hw.xStart_inGrid).1, hw.right ▸ (hxin hw.xEnd).2,
    hw.bottom ▸ (hyin hw.yStart_inGrid).1, hw.top ▸ (hyin hw.yEnd).2⟩

/-- Filling the dead space keeps the macros with an area inside the outline and apart from each other.
The clusters with standard cells contain what they were, and nothing else is changed. -/
theorem fillDeadSpace_placed (hperm : posSeq.Perm (List.range posSeq.length))
    (hsize : ∀ id ∈ posSeq, 0 < (macros id).getArea → 0 < (macros id).width ∧ 0 < (macros id).height)
    (hplaced : Placed P posSeq macros) (width height : ℚ) :
    let macros' := fillDeadSpace P posSeq width height macros
    (∀ id ∈ posSeq, 0 < (macros id).getArea → InOutline P.outline (macros' id)) ∧
      (∀ id ∈ posSeq, ∀ id' ∈ posSeq, id ≠ id' → 0 < (macros id).getArea →
        0 < (macros id').getArea → Apart (macros' id) (macros' id')) ∧
      (∀ id ∈ posSeq, isExtended (macros id) = true → Contains (macros' id) (macros id)) ∧
      ∀ id, ¬(id ∈ posSeq ∧ 0 < (macros id).getArea ∧ isExtended (macros id) = true) →
        macros' id = macros id := by
  have hmem : ∀ id, id ∈ posSeq ↔ id < posSeq.length := fun id => by
    rw [hperm.mem_iff, List.mem_range]
  dsimp only
  cases hfits : exceedsOutline P width height with
  | true =>
      have hsame : fillDeadSpace P posSeq width height macros = macros := by
        unfold fillDeadSpace
        exact if_pos hfits
      rw [hsame]
      exact ⟨hplaced.inside, hplaced.apart, fun id _ _ => Contains.refl _, fun _ _ => rfl⟩
  | false =>
      obtain ⟨lines, cells, hx, hy, hin, hfilled⟩ := fillDeadSpace_filled P hperm hsize hplaced hfits
      refine ⟨fun id hid harea => ?_, fun id hid id' hid' hne harea harea' => ?_,
        fun id _ _ => hfilled.contains id, fun id hid => hfilled.kept id fun h => hid ?_⟩
      · have hfloor : OnFloor posSeq.length macros id := ⟨(hmem id).mp hid, harea⟩
        obtain ⟨w, hw, -⟩ := hfilled.covers id hfloor
        exact hin _ w hw ⟨id, hfloor⟩
      · obtain ⟨w, hw, hown⟩ := hfilled.covers id ⟨(hmem id).mp hid, harea⟩
        obtain ⟨v, hv, hown'⟩ := hfilled.covers id' ⟨(hmem id').mp hid', harea'⟩
        refine (hw.apart_iff hx hy hv).mpr (Window.apart_of_disjoint hw.nonempty hv.nonempty ?_)
        intro j i hwmem hvmem
        exact hne (Int.ofNat_inj.mp (((hown j i).mpr hwmem).symm.trans ((hown' j i).mpr hvmem)))
      · exact ⟨(hmem id).mpr h.1.1, h.1.2, h.2⟩

end SACoreSoftMacro

/-! ### A cluster beside another macro -/

def squareFloor : SoftSetup where
  toSetup := squareSetup
  rootX := 0
  rootY := 0
  rootWidth := 10
  rootHeight := 10
  blockages := []
  boundaryWeight := 0
  macroBlockageWeight := 0
  notchWeight := 0
  notchHTh := 0
  notchVTh := 0

/-- A mixed cluster in a corner, and a macro of some size in the middle. -/
def twoMacros (width height : ℚ) : Nat → SoftMacro
  | 0 => ⟨0, 0, 4, 4, 16, [], [], some ⟨.MixedCluster, false, false, .NONE, 1, 4, 16⟩, false⟩
  | _ => ⟨5, 5, width, height, width * height, [], [],
      some ⟨.HardMacroCluster, false, false, .NONE, 1, 4, 4⟩, false⟩

namespace SACoreSoftMacro

/-- The cluster is extended around a macro of area four. -/
theorem fillDeadSpace_placed_twoMacros :
    Apart (fillDeadSpace squareFloor [0, 1] 10 10 (twoMacros 2 2) 0)
      (fillDeadSpace squareFloor [0, 1] 10 10 (twoMacros 2 2) 1) := by
  have hplaced : Placed squareFloor [0, 1] (twoMacros 2 2) := by
    constructor
    · intro id hid _
      rcases List.mem_pair.mp hid with rfl | rfl <;> constructor <;> decide +kernel
    · intro id hid id' hid'
      rcases List.mem_pair.mp hid with rfl | rfl <;> rcases List.mem_pair.mp hid' with rfl | rfl <;>
        decide +kernel
  have hsize : ∀ id ∈ [0, 1], 0 < (twoMacros 2 2 id).getArea →
      0 < (twoMacros 2 2 id).width ∧ 0 < (twoMacros 2 2 id).height := by
    intro id hid _
    rcases List.mem_pair.mp hid with rfl | rfl <;> decide +kernel
  exact (fillDeadSpace_placed squareFloor (List.Perm.refl [0, 1]) hsize hplaced 10 10).2.1 0 (by simp)
    1 (by simp) (by decide) (by decide +kernel) (by decide +kernel)

/-- A macro with an area below one hundredth is not in the grid, and the cluster is extended over
it. -/
theorem fillDeadSpace_overlaps :
    InOutline squareFloor.outline (twoMacros (1 / 10) (1 / 20) 0) ∧
      InOutline squareFloor.outline (twoMacros (1 / 10) (1 / 20) 1) ∧
      Apart (twoMacros (1 / 10) (1 / 20) 0) (twoMacros (1 / 10) (1 / 20) 1) ∧
      ¬Apart (fillDeadSpace squareFloor [0, 1] 10 10 (twoMacros (1 / 10) (1 / 20)) 0)
        (fillDeadSpace squareFloor [0, 1] 10 10 (twoMacros (1 / 10) (1 / 20)) 1) := by
  refine ⟨?_, ?_, by decide +kernel, by decide +kernel⟩ <;> constructor <;> decide +kernel

end SACoreSoftMacro

end OpenRoad.Mpl
