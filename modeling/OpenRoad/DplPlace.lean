import OpenRoad.DplCheckPlacement

/-!
Placing and unplacing cells. A cell is painted over the rectangle that starts at the pixel it is
placed at, and erased from the pixels between its padded edges; the two rectangles come from
different formulas. The journal records both operations.
-/

namespace OpenRoad.Dpl

open Db (Orient)

namespace Pixels

/-- Write the cell into the pixels. -/
def paint (pixels : Pixels) (visited : List (Int × Int)) (cell : Nat) : Pixels :=
  visited.foldl (fun pixels pixel => pixels.set pixel.1 pixel.2 (some cell)) pixels

/-- Clear those of the pixels that hold the cell. -/
def erase (pixels : Pixels) (visited : List (Int × Int)) (cell : Nat) : Pixels :=
  visited.foldl (fun pixels pixel =>
    if pixels pixel.1 pixel.2 = some cell then pixels.set pixel.1 pixel.2 none else pixels) pixels

theorem paint_apply (pixels : Pixels) (visited : List (Int × Int)) (cell : Nat) (x y : Int) :
    pixels.paint visited cell x y = if (x, y) ∈ visited then some cell else pixels x y := by
  unfold paint
  induction visited generalizing pixels with
  | nil => rfl
  | cons pixel visited ih =>
      rw [List.foldl_cons, ih]
      by_cases heq : (x, y) = pixel
      · subst heq
        simp
      · rw [Pixels.set_of_ne _ _ heq]
        simp [heq]

theorem erase_apply (pixels : Pixels) (visited : List (Int × Int)) (cell : Nat) (x y : Int) :
    pixels.erase visited cell x y =
      if (x, y) ∈ visited ∧ pixels x y = some cell then none else pixels x y := by
  unfold erase
  induction visited generalizing pixels with
  | nil => simp
  | cons pixel visited ih =>
      rw [List.foldl_cons, ih]
      by_cases heq : (x, y) = pixel
      · subst heq
        by_cases hcell : pixels x y = some cell <;> simp [hcell]
      · have hsame : (if pixels pixel.1 pixel.2 = some cell then pixels.set pixel.1 pixel.2 none
            else pixels) x y = pixels x y := by
          split
          · exact Pixels.set_of_ne _ _ heq
          · rfl
        rw [hsame]
        simp [heq]

end Pixels

/-- The cells with their positions, and the pixels of the grid. -/
structure Layout extends Network where
  pixels : Pixels

@[ext] theorem Layout.ext {s t : Layout} (hnum : s.numNodes = t.numNodes)
    (hnode : ∀ c, s.node c = t.node c) (hpixels : ∀ x y, s.pixels x y = t.pixels x y) : s = t := by
  obtain ⟨⟨n, f⟩, p⟩ := s
  obtain ⟨⟨m, g⟩, q⟩ := t
  obtain rfl : n = m := hnum
  obtain rfl : f = g := funext hnode
  obtain rfl : p = q := funext fun x => funext (hpixels x)
  rfl

namespace Layout

def setNode (s : Layout) (c : Nat) (cell : Node) : Layout :=
  { s with node := fun c' => if c' = c then cell else s.node c' }

@[simp] theorem setNode_node (s : Layout) (c : Nat) (cell : Node) :
    (s.setNode c cell).node c = cell := if_pos rfl

theorem setNode_node_of_ne (s : Layout) {c c' : Nat} (cell : Node) (h : c' ≠ c) :
    (s.setNode c cell).node c' = s.node c' := if_neg h

/-- A new record of one cell, and new pixels. -/
def put (s : Layout) (c : Nat) (cell : Node) (pixels : Pixels) : Layout :=
  { s.setNode c cell with pixels := pixels }

@[simp] theorem put_pixels (s : Layout) (c : Nat) (cell : Node) (pixels : Pixels) :
    (s.put c cell pixels).pixels = pixels := rfl

@[simp] theorem put_node (s : Layout) (c : Nat) (cell : Node) (pixels : Pixels) :
    (s.put c cell pixels).node c = cell := if_pos rfl

theorem put_node_of_ne (s : Layout) {c c' : Nat} (cell : Node) (pixels : Pixels) (h : c' ≠ c) :
    (s.put c cell pixels).node c' = s.node c' := if_neg h

theorem put_setNode (s : Layout) (c : Nat) (cell cell' : Node) (pixels : Pixels) :
    (s.put c cell pixels).setNode c cell' = s.put c cell' pixels := by
  refine Layout.ext rfl (fun c' => ?_) fun _ _ => rfl
  by_cases heq : c' = c
  · simp [heq]
  · rw [setNode_node_of_ne _ _ heq, put_node_of_ne _ _ _ heq, put_node_of_ne _ _ _ heq]

theorem put_eq_put {s : Layout} {c : Nat} {cell cell' : Node} {pixels pixels' : Pixels} :
    s.put c cell pixels = s.put c cell' pixels' ↔
      cell = cell' ∧ ∀ x y, pixels x y = pixels' x y := by
  constructor
  · intro h
    have hnode := congrArg (fun t : Layout => t.node c) h
    have hpixels := congrArg Layout.pixels h
    simp only [put_node, put_pixels] at hnode hpixels
    exact ⟨hnode, fun x y => by rw [hpixels]⟩
  · rintro ⟨rfl, hpixels⟩
    obtain rfl : pixels = pixels' := funext fun x => funext (hpixels x)
    rfl

theorem put_self (s : Layout) (c : Nat) : s.put c (s.node c) s.pixels = s := by
  refine Layout.ext rfl (fun c' => ?_) fun _ _ => rfl
  by_cases heq : c' = c
  · rw [heq, put_node]
  · exact put_node_of_ne _ _ _ heq

end Layout

/-- The orientations in which the sides of a cell are exchanged. -/
def isQuarterTurn (orient : Orient) : Bool :=
  match orient with
  | .R90 | .R270 | .MXR90 | .MYR90 => true
  | _ => false

/-- `adjustCurrOrient` -/
def Node.adjustCurrOrient (cell : Node) (orient : Orient) : Node :=
  if isQuarterTurn cell.orient = isQuarterTurn orient then { cell with orient := orient }
  else { cell with orient := orient, width := cell.height, height := cell.width }

section

variable (G : Grid) (P : Padding)

/-- The pixels `paintPixel` writes for a cell that is placed at a pixel. -/
def paintedPixels (cell : Node) (x y : Int) : List (Int × Int) :=
  G.rectPixels ⟨x, y, x + G.gridPaddedWidth P cell, y + G.gridHeight cell⟩

/-- The pixels `erasePixel` looks at. -/
def erasedPixels (cell : Node) : List (Int × Int) := G.rectPixels (G.gridCoveringPadded P cell)

/-- The pixels of a cell that is placed. Those of a fixed cell are painted by `setFixedGridCells`. -/
def footprint (cell : Node) : List (Int × Int) :=
  if cell.fixed then G.cellPixels P cell true else erasedPixels G P cell

/-- The pixels hold exactly the cells that are placed or fixed, each on its footprint. -/
def Occupancy (s : Layout) : Prop :=
  ∀ x y c, s.pixels x y = some c ↔
    c < s.numNodes ∧ ((s.node c).fixed ∨ (s.node c).placed) ∧ (x, y) ∈ footprint G P (s.node c)

/-- `gridPixel(x, y)->sites.at(site)`: fails outside the grid and where the site is missing. -/
def siteOrient (cell : Node) (x y : Int) : Option Orient :=
  if G.inGrid x y then (G.pixelInfo x y).sites.lookup cell.master.site else none

namespace Layout

variable (s : Layout) (c : Nat)

def paintPixelAt (x y : Int) : Layout :=
  { s with pixels := s.pixels.paint (paintedPixels G P (s.node c) x y) c }

def paintPixel : Layout :=
  s.paintPixelAt G P c (G.gridPaddedX P (s.node c)) (G.gridSnapDownY (s.node c).bottom)

def erasePixel : Layout := { s with pixels := s.pixels.erase (erasedPixels G P (s.node c)) c }

theorem paintPixelAt_put (cell : Node) (pixels : Pixels) (x y : Int) :
    (s.put c cell pixels).paintPixelAt G P c x y =
      s.put c cell (pixels.paint (paintedPixels G P cell x y) c) := by
  unfold paintPixelAt
  rw [put_node]
  rfl

theorem erasePixel_put (cell : Node) (pixels : Pixels) :
    (s.put c cell pixels).erasePixel G P c =
      s.put c cell (pixels.erase (erasedPixels G P cell) c) := by
  unfold erasePixel
  rw [put_node]
  rfl

end Layout

def setGridPaddedLoc (cell : Node) (x y : Int) : Option Node :=
  (G.gridYToDbu y).map fun bottom =>
    { cell with left := G.gridToDbu (x + P.padLeftOf cell), bottom := bottom }

/-- The actions of the journal. The cells of `placeCell` have no segments. -/
inductive JournalAction where
  | moveCell (cell : Nat) (origLeft origBottom newLeft newBottom : Int) (wasPlaced : Bool)
  | unplaceCell (cell : Nat) (wasHold : Bool)

/-- The cell after `placeCell`; fails when the row, the pixel or its site does not exist. -/
def placedNode (cell : Node) (x y : Int) : Option Node :=
  (setGridPaddedLoc G P cell x y).bind fun moved =>
    (siteOrient G cell x y).map fun orient => { moved with placed := true, orient := orient }

/-- `placeCell`, with the action that the journal records. -/
def placeCell (s : Layout) (c : Nat) (x y : Int) : Option (JournalAction × Layout) :=
  (placedNode G P (s.node c) x y).map fun cell =>
    (.moveCell c (s.node c).left (s.node c).bottom cell.left cell.bottom (s.node c).placed,
      (s.paintPixelAt G P c x y).setNode c cell)

def unplaceCell (s : Layout) (c : Nat) : Option JournalAction × Layout :=
  if (s.node c).fixed || !(s.node c).placed then (none, s)
  else
    (some (.unplaceCell c (s.node c).hold),
      (s.erasePixel G P c).setNode c { s.node c with placed := false, hold := false })

end

variable {G : Grid} {P : Padding}

/-- What `placeCell` leaves of the cell as it was. -/
theorem placedNode_cases {n cell : Node} {x y : Int} (h : placedNode G P n x y = some cell) :
    ∃ bottom orient, G.gridYToDbu y = some bottom ∧ siteOrient G n x y = some orient ∧
      cell = { n with
        left := G.gridToDbu (x + P.padLeftOf n)
        bottom := bottom
        placed := true
        orient := orient } := by
  obtain ⟨moved, hmoved, hrest⟩ := Option.bind_eq_some_iff.mp h
  obtain ⟨orient, horient, rfl⟩ := Option.map_eq_some_iff.mp hrest
  obtain ⟨bottom, hbottom, rfl⟩ := Option.map_eq_some_iff.mp hmoved
  exact ⟨bottom, orient, hbottom, horient, rfl⟩

theorem placeCell_cases {s s' : Layout} {c : Nat} {x y : Int} {a : JournalAction}
    (h : placeCell G P s c x y = some (a, s')) :
    ∃ cell, placedNode G P (s.node c) x y = some cell ∧
      a = .moveCell c (s.node c).left (s.node c).bottom cell.left cell.bottom (s.node c).placed ∧
      s' = s.put c cell (s.pixels.paint (paintedPixels G P (s.node c) x y) c) := by
  obtain ⟨cell, hcell, heq⟩ := Option.map_eq_some_iff.mp h
  obtain ⟨rfl, rfl⟩ := Prod.mk.inj heq
  exact ⟨cell, hcell, rfl, rfl⟩

theorem unplaceCell_cases {s : Layout} {c : Nat} {a : Option JournalAction} {s' : Layout}
    (h : unplaceCell G P s c = (a, s')) :
    (((s.node c).fixed = true ∨ (s.node c).placed = false) ∧ a = none ∧ s' = s) ∨
    ((s.node c).fixed = false ∧ (s.node c).placed = true ∧
      a = some (.unplaceCell c (s.node c).hold) ∧
      s' = s.put c { s.node c with placed := false, hold := false }
        (s.pixels.erase (erasedPixels G P (s.node c)) c)) := by
  unfold unplaceCell at h
  cases hfixed : (s.node c).fixed with
  | true =>
      rw [hfixed] at h
      obtain ⟨rfl, rfl⟩ := Prod.mk.inj h
      exact Or.inl ⟨Or.inl rfl, rfl, rfl⟩
  | false =>
      cases hplaced : (s.node c).placed with
      | false =>
          rw [hfixed, hplaced] at h
          obtain ⟨rfl, rfl⟩ := Prod.mk.inj h
          exact Or.inl ⟨Or.inr rfl, rfl, rfl⟩
      | true =>
          rw [hfixed, hplaced] at h
          obtain ⟨rfl, rfl⟩ := Prod.mk.inj h
          exact Or.inr ⟨rfl, rfl, rfl, rfl⟩

end OpenRoad.Dpl
