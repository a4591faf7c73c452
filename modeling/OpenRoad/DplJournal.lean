import OpenRoad.DplPlace
import OpenRoad.Run

/-!
The journal of the detailed placer, over `placeCell` and `unplaceCell`. What `undo` and `redo` do to
one action is compared pixel by pixel with the call that recorded it: they repaint through the
unpadded left edge and the nearest row, and leave some of the flags alone.
-/

namespace OpenRoad.Dpl

open Db (Orient)

section

variable (G : Grid) (P : Padding)

/-! ### Undo and redo of one action -/

namespace Journal

/-- The pixel that `paintInGrid` paints from. -/
def repaintX (cell : Node) : Int := G.gridX cell.left

def repaintY (cell : Node) : Int := G.gridRoundY cell.bottom

def paintInGrid (s : Layout) (c : Nat) : Option Layout :=
  let cell := s.node c
  let x := repaintX G cell
  let y := repaintY G cell
  (siteOrient G cell x y).map fun orient =>
    (s.paintPixelAt G P c x y).setNode c (cell.adjustCurrOrient orient)

/-- `undo` of one action. -/
def undo (s : Layout) : JournalAction → Option Layout
  | .moveCell c origLeft origBottom _ _ wasPlaced =>
      let erased := s.erasePixel G P c
      let moved := erased.setNode c { s.node c with left := origLeft, bottom := origBottom }
      if wasPlaced then paintInGrid G P moved c
      else some (moved.setNode c { moved.node c with placed := false })
  | .unplaceCell c wasHold =>
      some ((s.paintPixel G P c).setNode c { s.node c with placed := true, hold := wasHold })

/-- `redo` of one action. -/
def redo (s : Layout) : JournalAction → Option Layout
  | .moveCell c _ _ newLeft newBottom _ =>
      let erased := s.erasePixel G P c
      paintInGrid G P
        (erased.setNode c { s.node c with left := newLeft, bottom := newBottom }) c
  | .unplaceCell c _ =>
      some ((s.erasePixel G P c).setNode c { s.node c with placed := false, hold := false })

end Journal

/-- The calls that are recorded. -/
inductive PlaceCall where
  | placeCell (cell : Nat) (x y : Int)
  | unplaceCell (cell : Nat)

/-- A call, with the actions that it records. -/
def PlaceCall.actions (s : Layout) : PlaceCall → Option (List JournalAction × Layout)
  | .placeCell c x y => (Dpl.placeCell G P s c x y).map fun r => ([r.1], r.2)
  | .unplaceCell c =>
      let r := Dpl.unplaceCell G P s c
      some (r.1.toList, r.2)

/-- The layout and the journal that is set. -/
abbrev Recorded := Layout × List JournalAction

/-- A call with a journal, to which its actions are added. -/
def PlaceCall.perform (r : Recorded) (call : PlaceCall) : Option Recorded :=
  (call.actions G P r.1).map fun done => (done.2, r.2 ++ done.1)

/-! ### When the actions are exact -/

/-- The pixels that `paintInGrid` writes. -/
def repaintedPixels (cell : Node) : List (Int × Int) :=
  paintedPixels G P cell (Journal.repaintX G cell) (Journal.repaintY G cell)

/-- The state before `placeCell` is the one that `undo` restores; `cell` is the placed cell. -/
structure UndoesPlace (s : Layout) (c : Nat) (x y : Int) (cell : Node) : Prop where
  /-- What is painted back belonged to the cell. -/
  back : ∀ i j, (s.node c).placed → (i, j) ∈ repaintedPixels G P (s.node c) →
    s.pixels i j = some c
  /-- What the call painted was free, or the undo leaves it and it belonged to the cell. -/
  painted : ∀ i j, (i, j) ∈ paintedPixels G P (s.node c) x y →
    ¬((s.node c).placed ∧ (i, j) ∈ repaintedPixels G P (s.node c)) →
    s.pixels i j = if (i, j) ∈ erasedPixels G P cell then none else some c
  /-- Nothing else of the cell is erased. -/
  kept : ∀ i j, (i, j) ∈ erasedPixels G P cell →
    ¬((s.node c).placed ∧ (i, j) ∈ repaintedPixels G P (s.node c)) →
    (i, j) ∉ paintedPixels G P (s.node c) x y → s.pixels i j ≠ some c
  /-- The orientation is that of the site the undo finds, or the one the call set. -/
  orient : (if (s.node c).placed then
      siteOrient G (s.node c) (Journal.repaintX G (s.node c)) (Journal.repaintY G (s.node c))
    else some cell.orient) = some (s.node c).orient
  sides : isQuarterTurn cell.orient = isQuarterTurn (s.node c).orient ∨
    (s.node c).width = (s.node c).height

/-- The state after `placeCell` is the one that `redo` restores; `cell` is the placed cell. -/
structure RedoesPlace (s : Layout) (c : Nat) (x y : Int) (cell : Node) : Prop where
  placed : (s.node c).placed
  back : ∀ i j, (i, j) ∈ repaintedPixels G P cell →
    (i, j) ∉ paintedPixels G P (s.node c) x y → s.pixels i j = some c
  painted : ∀ i j, (i, j) ∈ paintedPixels G P (s.node c) x y →
    (i, j) ∉ repaintedPixels G P cell →
    s.pixels i j = some c ∧ (i, j) ∉ erasedPixels G P (s.node c)
  kept : ∀ i j, (i, j) ∈ erasedPixels G P (s.node c) → (i, j) ∉ repaintedPixels G P cell →
    (i, j) ∉ paintedPixels G P (s.node c) x y → s.pixels i j ≠ some c
  orient : siteOrient G (s.node c) (Journal.repaintX G cell) (Journal.repaintY G cell) =
    some cell.orient
  sides : isQuarterTurn (s.node c).orient = isQuarterTurn cell.orient ∨
    (s.node c).width = (s.node c).height

/-- The state before `unplaceCell` is the one that `undo` restores. -/
structure UndoesUnplace (s : Layout) (c : Nat) : Prop where
  painted : ∀ i j, (i, j) ∈ paintedPixels G P (s.node c) (G.gridPaddedX P (s.node c))
    (G.gridSnapDownY (s.node c).bottom) → s.pixels i j = some c
  kept : ∀ i j, (i, j) ∈ erasedPixels G P (s.node c) →
    (i, j) ∉ paintedPixels G P (s.node c) (G.gridPaddedX P (s.node c))
      (G.gridSnapDownY (s.node c).bottom) → s.pixels i j ≠ some c

/-- What a call must find for `undo` to restore it. -/
def PlaceCall.Undoes (s : Layout) : PlaceCall → Prop
  | .placeCell c x y =>
      ∀ cell, placedNode G P (s.node c) x y = some cell → UndoesPlace G P s c x y cell
  | .unplaceCell c =>
      (s.node c).fixed = false → (s.node c).placed = true → UndoesUnplace G P s c

/-- What a call must find for `redo` to restore what came after it. -/
def PlaceCall.Redoes (s : Layout) : PlaceCall → Prop
  | .placeCell c x y =>
      ∀ cell, placedNode G P (s.node c) x y = some cell → RedoesPlace G P s c x y cell
  | .unplaceCell _ => True

end

variable {G : Grid} {P : Padding}

/-! ### Pixels that are painted, erased and painted again -/

namespace Pixels

variable (pixels : Pixels) (new clear back : List (Int × Int)) (c : Nat) (x y : Int)

/-- Painting, erasing and painting again restores a pixel. -/
theorem paint_erase_paint :
    ((pixels.paint new c).erase clear c).paint back c x y = pixels x y ↔
      ((x, y) ∈ back → pixels x y = some c) ∧
      ((x, y) ∈ new → (x, y) ∉ back →
        pixels x y = if (x, y) ∈ clear then none else some c) ∧
      ((x, y) ∈ clear → (x, y) ∉ back → (x, y) ∉ new → pixels x y ≠ some c) := by
  simp only [paint_apply, erase_apply]
  by_cases hback : (x, y) ∈ back
  · simp [hback, eq_comm]
  · by_cases hnew : (x, y) ∈ new
    · by_cases hclear : (x, y) ∈ clear <;> simp [hback, hnew, hclear, eq_comm]
    · by_cases hclear : (x, y) ∈ clear
      · by_cases hcell : pixels x y = some c <;> simp [hback, hnew, hclear, hcell]
      · simp [hback, hnew, hclear]

/-- Erasing and painting elsewhere does what painting did. -/
theorem erase_paint :
    (pixels.erase clear c).paint back c x y = pixels.paint new c x y ↔
      ((x, y) ∈ back → (x, y) ∉ new → pixels x y = some c) ∧
      ((x, y) ∈ new → (x, y) ∉ back → pixels x y = some c ∧ (x, y) ∉ clear) ∧
      ((x, y) ∈ clear → (x, y) ∉ back → (x, y) ∉ new → pixels x y ≠ some c) := by
  simp only [paint_apply, erase_apply]
  by_cases hback : (x, y) ∈ back
  · by_cases hnew : (x, y) ∈ new <;> simp [hback, hnew, eq_comm]
  · by_cases hclear : (x, y) ∈ clear
    · by_cases hcell : pixels x y = some c <;>
        by_cases hnew : (x, y) ∈ new <;> simp [hback, hnew, hclear, hcell]
    · by_cases hnew : (x, y) ∈ new <;> simp [hback, hnew, hclear]

/-- Erasing and painting restores a pixel. -/
theorem erase_paint_self :
    (pixels.erase clear c).paint back c x y = pixels x y ↔
      ((x, y) ∈ back → pixels x y = some c) ∧
      ((x, y) ∈ clear → (x, y) ∉ back → pixels x y ≠ some c) := by
  simp only [paint_apply, erase_apply]
  by_cases hback : (x, y) ∈ back
  · simp [hback, eq_comm]
  · by_cases hclear : (x, y) ∈ clear
    · by_cases hcell : pixels x y = some c <;> simp [hback, hclear, hcell]
    · simp [hback, hclear]

end Pixels

/-! ### One action -/

/-- `paintInGrid` on a cell and pixels that are given. -/
theorem paintInGrid_put (s : Layout) (c : Nat) (cell : Node) (pixels : Pixels) :
    Journal.paintInGrid G P (s.put c cell pixels) c =
      (siteOrient G cell (Journal.repaintX G cell) (Journal.repaintY G cell)).map fun orient =>
        s.put c (cell.adjustCurrOrient orient)
          (pixels.paint (repaintedPixels G P cell) c) := by
  unfold Journal.paintInGrid
  simp only [Layout.put_node, Layout.paintPixelAt_put, Layout.put_setNode]
  rfl

theorem adjustCurrOrient_eq {m n : Node} {orient : Orient}
    (h : { m with orient := orient } = n) :
    m.adjustCurrOrient orient = n ↔
      isQuarterTurn m.orient = isQuarterTurn orient ∨ n.width = n.height := by
  subst h
  unfold Node.adjustCurrOrient
  split
  · rename_i heq
    exact iff_of_true rfl (Or.inl heq)
  · rename_i hne
    constructor
    · intro heq
      exact Or.inr (congrArg Node.height heq)
    · rintro (heq | heq)
      · exact absurd heq hne
      · have hsides : m.width = m.height := heq
        rw [hsides]

theorem undo_moveCell_put (s : Layout) (c : Nat) (cell : Node) (pixels : Pixels)
    (left bottom newLeft newBottom : Int) (wasPlaced : Bool) :
    Journal.undo G P (s.put c cell pixels) (.moveCell c left bottom newLeft newBottom wasPlaced) =
      let moved := { cell with left := left, bottom := bottom }
      let cleared := pixels.erase (erasedPixels G P cell) c
      if wasPlaced then
        (siteOrient G moved (Journal.repaintX G moved) (Journal.repaintY G moved)).map fun orient =>
          s.put c (moved.adjustCurrOrient orient) (cleared.paint (repaintedPixels G P moved) c)
      else some (s.put c { moved with placed := false } cleared) := by
  simp only [Journal.undo, Layout.erasePixel_put, Layout.put_setNode, Layout.put_node,
    paintInGrid_put]

theorem redo_moveCell_put (s : Layout) (c : Nat) (cell : Node) (pixels : Pixels)
    (left bottom newLeft newBottom : Int) (wasPlaced : Bool) :
    Journal.redo G P (s.put c cell pixels) (.moveCell c left bottom newLeft newBottom wasPlaced) =
      let moved := { cell with left := newLeft, bottom := newBottom }
      (siteOrient G moved (Journal.repaintX G moved) (Journal.repaintY G moved)).map fun orient =>
        s.put c (moved.adjustCurrOrient orient)
          ((pixels.erase (erasedPixels G P cell) c).paint (repaintedPixels G P moved) c) := by
  simp only [Journal.redo, Layout.erasePixel_put, Layout.put_setNode, Layout.put_node,
    paintInGrid_put]

/-- Only one cell is placed by a call. -/
theorem forall_placedNode {n cell : Node} {x y : Int} {p : Node → Prop}
    (hcell : placedNode G P n x y = some cell) :
    (∀ cell', placedNode G P n x y = some cell' → p cell') ↔ p cell := by
  constructor
  · intro hall
    exact hall cell hcell
  · intro hp cell' hcell'
    rw [hcell] at hcell'
    exact Option.some.inj hcell' ▸ hp

/-- A layout that differs from `s` at most in one cell. -/
theorem put_eq_self {s : Layout} {c : Nat} {cell : Node} {pixels : Pixels} :
    some (s.put c cell pixels) = some s ↔
      cell = s.node c ∧ ∀ x y, pixels x y = s.pixels x y := by
  rw [Option.some.injEq, ← Layout.put_eq_put, Layout.put_self]

theorem undo_place_unplaced {s : Layout} {c : Nat} {x y : Int} {cell : Node}
    (hcell : placedNode G P (s.node c) x y = some cell) (hplaced : (s.node c).placed = false) :
    (s.put c { cell with
        left := (s.node c).left
        bottom := (s.node c).bottom
        placed := false }
      ((s.pixels.paint (paintedPixels G P (s.node c) x y) c).erase
        (erasedPixels G P cell) c)) = s ↔ UndoesPlace G P s c x y cell := by
  obtain ⟨bottom, orient, -, -, hnode⟩ := placedNode_cases hcell
  rw [← Option.some.injEq, put_eq_self]
  have hback : ∀ i j, ¬((s.node c).placed = true ∧ (i, j) ∈ repaintedPixels G P (s.node c)) := by
    rw [hplaced]
    intro i j h
    cases h.1
  have hpixels := fun i j => Pixels.paint_erase_paint s.pixels
    (paintedPixels G P (s.node c) x y) (erasedPixels G P cell) [] c i j
  constructor
  · rintro ⟨hsame, hrestored⟩
    have horient : cell.orient = (s.node c).orient := by rw [← hsame]
    exact
      { back := fun i j h => by rw [hplaced] at h; cases h
        painted := fun i j hnew _ =>
          ((hpixels i j).mp (hrestored i j)).2.1 hnew List.not_mem_nil
        kept := fun i j hclear _ hnew =>
          ((hpixels i j).mp (hrestored i j)).2.2 hclear List.not_mem_nil hnew
        orient := by rw [hplaced, horient]; rfl
        sides := Or.inl (by rw [horient]) }
  · intro h
    constructor
    · have horient : cell.orient = (s.node c).orient := by
        have := h.orient
        rw [hplaced] at this
        exact Option.some.inj this
      rw [hnode] at horient ⊢
      have horient' : orient = (s.node c).orient := horient
      rw [horient', ← hplaced]
    · intro i j
      apply (hpixels i j).mpr
      refine ⟨fun hmem => absurd hmem List.not_mem_nil, ?_, ?_⟩
      · intro hnew _
        exact h.painted i j hnew (hback i j)
      · intro hclear _ hnew
        exact h.kept i j hclear (hback i j) hnew

theorem undo_place_placed {s : Layout} {c : Nat} {x y : Int} {cell : Node}
    (hcell : placedNode G P (s.node c) x y = some cell) (hplaced : (s.node c).placed = true) :
    (siteOrient G (s.node c) (Journal.repaintX G (s.node c)) (Journal.repaintY G (s.node c))).map
        (fun orient => s.put c
          (Node.adjustCurrOrient { cell with
            left := (s.node c).left
            bottom := (s.node c).bottom } orient)
          (((s.pixels.paint (paintedPixels G P (s.node c) x y) c).erase
            (erasedPixels G P cell) c).paint (repaintedPixels G P (s.node c)) c)) = some s ↔
      UndoesPlace G P s c x y cell := by
  obtain ⟨bottom, orient, -, -, hnode⟩ := placedNode_cases hcell
  have hpixels := fun i j => Pixels.paint_erase_paint s.pixels
    (paintedPixels G P (s.node c) x y) (erasedPixels G P cell)
    (repaintedPixels G P (s.node c)) c i j
  have hmoved : ∀ orient', orient' = (s.node c).orient →
      { { cell with left := (s.node c).left, bottom := (s.node c).bottom } with
        orient := orient' } = s.node c := by
    rintro orient' rfl
    rw [hnode]
    dsimp only
    rw [← hplaced]
  constructor
  · intro h
    obtain ⟨orient', horient, hput⟩ := Option.map_eq_some_iff.mp h
    obtain ⟨hsame, hrestored⟩ := put_eq_self.mp (congrArg some hput)
    have horient' : orient' = (s.node c).orient := by
      rw [← hsame]
      unfold Node.adjustCurrOrient
      split <;> rfl
    exact
      { back := fun i j _ hmem => ((hpixels i j).mp (hrestored i j)).1 hmem
        painted := fun i j hnew hback =>
          ((hpixels i j).mp (hrestored i j)).2.1 hnew fun hmem => hback ⟨hplaced, hmem⟩
        kept := fun i j hclear hback hnew =>
          ((hpixels i j).mp (hrestored i j)).2.2 hclear (fun hmem => hback ⟨hplaced, hmem⟩) hnew
        orient := by rw [if_pos hplaced, horient, horient']
        sides := by
          rw [← horient']
          exact (adjustCurrOrient_eq (hmoved orient' horient')).mp hsame }
  · intro h
    have horient := h.orient
    rw [if_pos hplaced] at horient
    rw [horient, Option.map_some]
    apply put_eq_self.mpr
    constructor
    · exact (adjustCurrOrient_eq (hmoved _ rfl)).mpr h.sides
    · intro i j
      apply (hpixels i j).mpr
      refine ⟨h.back i j hplaced, ?_, ?_⟩
      · intro hnew hback
        exact h.painted i j hnew fun hmem => hback hmem.2
      · intro hclear hback hnew
        exact h.kept i j hclear (fun hmem => hback hmem.2) hnew

/-- `undo` leads back from a call of `placeCell` exactly under its condition. -/
theorem undo_placeCell {s s' : Layout} {c : Nat} {x y : Int} {a : JournalAction}
    (h : placeCell G P s c x y = some (a, s')) :
    Journal.undo G P s' a = some s ↔ PlaceCall.Undoes G P s (.placeCell c x y) := by
  obtain ⟨cell, hcell, rfl, rfl⟩ := placeCell_cases h
  obtain ⟨bottom, orient, -, -, hnode⟩ := placedNode_cases hcell
  rw [PlaceCall.Undoes, forall_placedNode hcell, undo_moveCell_put]
  cases hplaced : (s.node c).placed with
  | false =>
      rw [← undo_place_unplaced hcell hplaced]
      exact Option.some_inj
  | true =>
      rw [← undo_place_placed hcell hplaced, hnode]
      rfl

/-- `redo` leads on to what a call of `placeCell` left exactly under its condition. -/
theorem redo_placeCell {s s' : Layout} {c : Nat} {x y : Int} {a : JournalAction}
    (h : placeCell G P s c x y = some (a, s')) :
    Journal.redo G P s a = some s' ↔ PlaceCall.Redoes G P s (.placeCell c x y) := by
  obtain ⟨cell, hcell, rfl, rfl⟩ := placeCell_cases h
  obtain ⟨bottom, orient, -, -, hnode⟩ := placedNode_cases hcell
  rw [PlaceCall.Redoes, forall_placedNode hcell, ← Layout.put_self s c, redo_moveCell_put,
    Layout.put_self]
  have hpixels := fun i j => Pixels.erase_paint s.pixels (paintedPixels G P (s.node c) x y)
    (erasedPixels G P (s.node c)) (repaintedPixels G P cell) c i j
  have hmoved : (s.node c).placed = true → ∀ orient', orient' = cell.orient →
      { { s.node c with left := cell.left, bottom := cell.bottom } with orient := orient' } =
        cell := by
    rintro hplaced orient' rfl
    rw [hnode]
    dsimp only
    rw [← hplaced]
  have hsides : cell.width = cell.height ↔ (s.node c).width = (s.node c).height := by rw [hnode]
  have hrepaint : repaintedPixels G P { s.node c with left := cell.left, bottom := cell.bottom } =
      repaintedPixels G P cell := by
    rw [hnode]
    rfl
  dsimp only
  rw [hrepaint]
  constructor
  · intro hredo
    obtain ⟨orient', horient, hput⟩ := Option.map_eq_some_iff.mp hredo
    obtain ⟨hsame, hpainted⟩ := Layout.put_eq_put.mp hput
    have hplaced : (s.node c).placed = true := by
      have hkept : (Node.adjustCurrOrient
          { s.node c with left := cell.left, bottom := cell.bottom } orient').placed =
            (s.node c).placed := by
        unfold Node.adjustCurrOrient
        split <;> rfl
      rw [← hkept, hsame, hnode]
    have horient' : orient' = cell.orient := by
      rw [← hsame]
      unfold Node.adjustCurrOrient
      split <;> rfl
    exact
      { placed := hplaced
        back := fun i j => ((hpixels i j).mp (hpainted i j)).1
        painted := fun i j => ((hpixels i j).mp (hpainted i j)).2.1
        kept := fun i j => ((hpixels i j).mp (hpainted i j)).2.2
        orient := by rw [← horient', ← horient]; rfl
        sides := by
          rw [← hsides, ← horient']
          exact (adjustCurrOrient_eq (hmoved hplaced orient' horient')).mp hsame }
  · intro h
    have horient : siteOrient G { s.node c with left := cell.left, bottom := cell.bottom }
        (Journal.repaintX G cell) (Journal.repaintY G cell) = some cell.orient := h.orient
    have hx : Journal.repaintX G { s.node c with left := cell.left, bottom := cell.bottom } =
        Journal.repaintX G cell := rfl
    have hy : Journal.repaintY G { s.node c with left := cell.left, bottom := cell.bottom } =
        Journal.repaintY G cell := rfl
    rw [hx, hy, horient, Option.map_some, Option.some.injEq]
    apply Layout.put_eq_put.mpr
    constructor
    · apply (adjustCurrOrient_eq (hmoved h.placed _ rfl)).mpr
      rw [hsides]
      exact h.sides
    · intro i j
      apply (hpixels i j).mpr
      exact ⟨h.back i j, h.painted i j, h.kept i j⟩

/-- `undo` leads back from a call of `unplaceCell` exactly under its condition. -/
theorem undo_unplaceCell {s s' : Layout} {c : Nat} {a : JournalAction}
    (h : unplaceCell G P s c = (some a, s')) :
    Journal.undo G P s' a = some s ↔ PlaceCall.Undoes G P s (.unplaceCell c) := by
  obtain ⟨-, hnone, -⟩ | ⟨hfixed, hplaced, haction, rfl⟩ := unplaceCell_cases h
  · cases hnone
  obtain rfl := Option.some.inj haction
  have hpixels := fun i j => Pixels.erase_paint_self s.pixels (erasedPixels G P (s.node c))
    (paintedPixels G P (s.node c) (G.gridPaddedX P (s.node c))
      (G.gridSnapDownY (s.node c).bottom)) c i j
  unfold Journal.undo Layout.paintPixel
  simp only [Layout.put_node, Layout.paintPixelAt_put, Layout.put_setNode]
  rw [put_eq_self]
  constructor
  · rintro ⟨-, hrestored⟩ - -
    exact ⟨fun i j => ((hpixels i j).mp (hrestored i j)).1,
      fun i j => ((hpixels i j).mp (hrestored i j)).2⟩
  · intro h
    have hundo := h hfixed hplaced
    constructor
    · rw [← hplaced]
    · intro i j
      apply (hpixels i j).mpr
      exact ⟨hundo.painted i j, hundo.kept i j⟩

theorem redo_unplaceCell {s s' : Layout} {c : Nat} {a : JournalAction}
    (h : unplaceCell G P s c = (some a, s')) : Journal.redo G P s a = some s' := by
  obtain ⟨-, hnone, -⟩ | ⟨-, -, haction, rfl⟩ := unplaceCell_cases h
  · cases hnone
  obtain rfl := Option.some.inj haction
  unfold Journal.redo
  rw [← Layout.put_self s c]
  simp only [Layout.erasePixel_put, Layout.put_setNode, Layout.put_node, Layout.put_pixels]
  rw [Layout.put_self]

/-! ### A whole journal -/

/-- `undo` of the journal: the last action first. -/
def Journal.undoAll (G : Grid) (P : Padding) (s : Layout) (actions : List JournalAction) :
    Option Layout :=
  Run.run (Journal.undo G P) s actions.reverse

/-- `redo` of the journal. -/
def Journal.redoAll (G : Grid) (P : Padding) (s : Layout) (actions : List JournalAction) :
    Option Layout :=
  Run.run (Journal.redo G P) s actions

/-- What a call records is undone and redone. -/
theorem undoAll_perform {s t : Layout} {call : PlaceCall} {actions : List JournalAction}
    (h : call.actions G P s = some (actions, t)) (hundo : call.Undoes G P s) :
    Journal.undoAll G P t actions = some s := by
  unfold Journal.undoAll
  cases call with
  | placeCell c x y =>
      obtain ⟨⟨a, s'⟩, hplace, heq⟩ := Option.map_eq_some_iff.mp h
      obtain ⟨rfl, rfl⟩ := Prod.mk.inj heq
      have hone := (undo_placeCell hplace).mpr hundo
      simp [hone]
  | unplaceCell c =>
      obtain ⟨rfl, rfl⟩ := Prod.mk.inj (Option.some.inj h)
      cases haction : (unplaceCell G P s c).1 with
      | none =>
          have hsame : (unplaceCell G P s c).2 = s := by
            obtain ⟨-, -, hsame⟩ | ⟨-, -, hsome, -⟩ := 
              unplaceCell_cases (Prod.eta (unplaceCell G P s c)).symm
            · exact hsame
            · rw [haction] at hsome
              cases hsome
          rw [hsame]
          rfl
      | some a =>
          have hcall : unplaceCell G P s c = (some a, (unplaceCell G P s c).2) := by
            rw [← haction]
          have hone := (undo_unplaceCell hcall).mpr hundo
          simp [hone]

theorem redoAll_perform {s t : Layout} {call : PlaceCall} {actions : List JournalAction}
    (h : call.actions G P s = some (actions, t)) (hredo : call.Redoes G P s) :
    Journal.redoAll G P s actions = some t := by
  unfold Journal.redoAll
  cases call with
  | placeCell c x y =>
      obtain ⟨⟨a, s'⟩, hplace, heq⟩ := Option.map_eq_some_iff.mp h
      obtain ⟨rfl, rfl⟩ := Prod.mk.inj heq
      have hone := (redo_placeCell hplace).mpr hredo
      simp [hone]
  | unplaceCell c =>
      obtain ⟨rfl, rfl⟩ := Prod.mk.inj (Option.some.inj h)
      cases haction : (unplaceCell G P s c).1 with
      | none =>
          obtain ⟨-, -, hsame⟩ | ⟨-, -, hsome, -⟩ :=
            unplaceCell_cases (Prod.eta (unplaceCell G P s c)).symm
          · rw [hsame]
            rfl
          · rw [haction] at hsome
            cases hsome
      | some a =>
          have hcall : unplaceCell G P s c = (some a, (unplaceCell G P s c).2) := by
            rw [← haction]
          have hone := redo_unplaceCell hcall
          simp [hone]

/-- The journal of a run whose calls can all be undone leads back to the state before the run; if
they can also be redone, it leads on again to the state after the run. -/
theorem journal_undo_redo (G : Grid) (P : Padding) (s t : Layout) (calls : List PlaceCall)
    (journal : List JournalAction)
    (hrun : Run.run (PlaceCall.perform G P) (s, []) calls = some (t, journal)) :
    (Run.Along (PlaceCall.perform G P) (fun r => PlaceCall.Undoes G P r.1) (s, []) calls →
      Journal.undoAll G P t journal = some s) ∧
    (Run.Along (PlaceCall.perform G P) (fun r => PlaceCall.Undoes G P r.1) (s, []) calls →
      Run.Along (PlaceCall.perform G P) (fun r => PlaceCall.Redoes G P r.1) (s, []) calls →
      (Journal.undoAll G P t journal).bind (Journal.redoAll G P · journal) = some t) := by
  have hundo : Run.Along (PlaceCall.perform G P) (fun r => PlaceCall.Undoes G P r.1)
      (s, []) calls → Journal.undoAll G P t journal = some s := by
    -- the invariant: the journal so far leads back to the first state
    have hstep : ∀ (r : Recorded) call r', Journal.undoAll G P r.1 r.2 = some s →
        PlaceCall.Undoes G P r.1 call → PlaceCall.perform G P r call = some r' →
        Journal.undoAll G P r'.1 r'.2 = some s := by
      intro r call r' hback hcall hperform
      obtain ⟨⟨more, v⟩, hactions, rfl⟩ := Option.map_eq_some_iff.mp hperform
      have hone := undoAll_perform hactions hcall
      unfold Journal.undoAll at hback hone ⊢
      rw [List.reverse_append, Run.run_append, hone]
      exact hback
    intro hok
    exact Run.run_invariant hstep rfl hok hrun
  have hredo : Run.Along (PlaceCall.perform G P) (fun r => PlaceCall.Redoes G P r.1)
      (s, []) calls → Journal.redoAll G P s journal = some t := by
    have hstep : ∀ (r : Recorded) call r', Journal.redoAll G P s r.2 = some r.1 →
        PlaceCall.Redoes G P r.1 call → PlaceCall.perform G P r call = some r' →
        Journal.redoAll G P s r'.2 = some r'.1 := by
      intro r call r' honward hcall hperform
      obtain ⟨⟨more, v⟩, hactions, rfl⟩ := Option.map_eq_some_iff.mp hperform
      have hone := redoAll_perform hactions hcall
      unfold Journal.redoAll at honward hone ⊢
      rw [Run.run_append, honward]
      exact hone
    intro hok
    exact Run.run_invariant hstep rfl hok hrun
  constructor
  · exact hundo
  · intro hokUndo hokRedo
    rw [hundo hokUndo]
    exact hredo hokRedo

/-! ### One row -/

/-- A row of five sites in one orientation. -/
def rowGrid (orient : Orient) : Grid where
  coreYMax := 10
  siteWidth := 10
  rowSiteCount := 5
  rowYs := [0, 10]
  uniformRowHeight := some 10
  pixelInfo _ _ := ⟨true, [(0, orient)], none⟩

/-- A cell of one site at the left end of the row, placed or not. -/
def rowLayout (placed : Bool) : Layout where
  numNodes := 1
  node c :=
    { inst := c
      master := ⟨c, .CORE, [], 0, 10, none⟩
      location := ⟨0, 0⟩
      transform := ⟨.R0, ⟨0, 0⟩⟩
      left := 0
      bottom := 0
      width := 10
      height := 10
      orient := .R0
      fixed := false
      placed := placed
      hold := placed
      group := none }
  pixels x y := if placed ∧ x = 0 ∧ y = 0 then some 0 else none

/-- The pixels of the cell on the row, however they are computed. -/
theorem row_pixels (placed : Bool) :
    paintedPixels (rowGrid .R0) ⟨0, 0, [], []⟩ ((rowLayout placed).node 0) 0 0 = [(0, 0)] ∧
      repaintedPixels (rowGrid .R0) ⟨0, 0, [], []⟩ ((rowLayout placed).node 0) = [(0, 0)] ∧
      erasedPixels (rowGrid .R0) ⟨0, 0, [], []⟩ ((rowLayout placed).node 0) = [(0, 0)] := by
  cases placed <;> decide

theorem row_placedNode :
    placedNode (rowGrid .R0) ⟨0, 0, [], []⟩ ((rowLayout true).node 0) 0 0 =
      some ((rowLayout true).node 0) := rfl

/-- The cell is placed where it is, then unplaced; both can be undone and redone. -/
theorem journal_undo_redo_row :
    ∃ t journal, Run.run (PlaceCall.perform (rowGrid .R0) ⟨0, 0, [], []⟩) (rowLayout true, [])
        [.placeCell 0 0 0, .unplaceCell 0] = some (t, journal) ∧
      Journal.undoAll (rowGrid .R0) ⟨0, 0, [], []⟩ t journal = some (rowLayout true) ∧
      (Journal.undoAll (rowGrid .R0) ⟨0, 0, [], []⟩ t journal).bind
        (Journal.redoAll (rowGrid .R0) ⟨0, 0, [], []⟩ · journal) = some t := by
  obtain ⟨hpainted, hrepainted, herased⟩ := row_pixels true
  have hundoes : Run.Along (PlaceCall.perform (rowGrid .R0) ⟨0, 0, [], []⟩)
      (fun r => PlaceCall.Undoes (rowGrid .R0) ⟨0, 0, [], []⟩ r.1) (rowLayout true, [])
      [.placeCell 0 0 0, .unplaceCell 0] := by
    refine ⟨?_, fun r hr => ⟨?_, fun _ _ => trivial⟩⟩
    · intro cell hcell
      obtain rfl := Option.some.inj (row_placedNode.symm.trans hcell)
      constructor
      · rintro i j - hmem
        rw [hrepainted, List.mem_singleton] at hmem
        obtain ⟨rfl, rfl⟩ := Prod.mk.inj hmem
        rfl
      · intro i j hmem hback
        rw [hpainted] at hmem
        rw [hrepainted] at hback
        exact absurd ⟨rfl, hmem⟩ hback
      · intro i j hmem hback
        rw [herased] at hmem
        rw [hrepainted] at hback
        exact absurd ⟨rfl, hmem⟩ hback
      · rfl
      · exact Or.inl rfl
    · obtain rfl := Option.some.inj hr
      have hmem : ∀ i j, (i, j) ∈ [((0 : Int), (0 : Int))] ↔ i = 0 ∧ j = 0 := by simp
      rintro - -
      constructor
      · intro i j hi
        obtain ⟨rfl, rfl⟩ := (hmem i j).mp hi
        decide
      · intro i j hi hback
        exact absurd hi hback
  have hredoes : Run.Along (PlaceCall.perform (rowGrid .R0) ⟨0, 0, [], []⟩)
      (fun r => PlaceCall.Redoes (rowGrid .R0) ⟨0, 0, [], []⟩ r.1) (rowLayout true, [])
      [.placeCell 0 0 0, .unplaceCell 0] := by
    refine ⟨?_, fun _ _ => ⟨trivial, fun _ _ => trivial⟩⟩
    intro cell hcell
    obtain rfl := Option.some.inj (row_placedNode.symm.trans hcell)
    constructor
    · rfl
    · intro i j hmem hnew
      rw [hrepainted] at hmem
      rw [hpainted] at hnew
      exact absurd hmem hnew
    · intro i j hmem hback
      rw [hpainted] at hmem
      rw [hrepainted] at hback
      exact absurd hmem hback
    · intro i j hmem hback
      rw [herased] at hmem
      rw [hrepainted] at hback
      exact absurd hmem hback
    · rfl
    · exact Or.inl rfl
  have hboth := journal_undo_redo (rowGrid .R0) ⟨0, 0, [], []⟩ (rowLayout true) _
    [.placeCell 0 0 0, .unplaceCell 0] _ rfl
  exact ⟨_, _, rfl, hboth.1 hundoes, hboth.2 hundoes hredoes⟩

/-- In a row that is turned over, the orientation of the cell is not restored, and the cell is not
placed again. -/
theorem place_not_undone :
    Occupancy (rowGrid .MX) ⟨0, 0, [], []⟩ (rowLayout false) ∧
      ((rowLayout false).node 0).orient = .R0 ∧
      ∃ t journal, Run.run (PlaceCall.perform (rowGrid .MX) ⟨0, 0, [], []⟩) (rowLayout false, [])
          [.placeCell 0 1 0] = some (t, journal) ∧
        (t.node 0).placed = true ∧
        (Journal.undoAll (rowGrid .MX) ⟨0, 0, [], []⟩ t journal).map
          (fun u => (u.node 0).orient) = some .MX ∧
        ((Journal.undoAll (rowGrid .MX) ⟨0, 0, [], []⟩ t journal).bind
          (Journal.redoAll (rowGrid .MX) ⟨0, 0, [], []⟩ · journal)).map
          (fun u => (u.node 0).placed) = some false := by
  refine ⟨?_, rfl, _, _, rfl, rfl, by decide, by decide⟩
  intro x y c
  simp [rowLayout]

end OpenRoad.Dpl
