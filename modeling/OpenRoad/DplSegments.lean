import OpenRoad.DbGeometry
import OpenRoad.IntervalMerge
import Mathlib.Data.List.Range

/-!
Blockages and segments of the rows for detailed improvement. Fixed cells, with their padding, and
placement blockages are merged in each row; what is left between them is sliced at the ends of the
regions and moved in to whole sites. One row does not depend on another, so that a row is followed
through at a time.
-/

namespace OpenRoad.Dpl

open Db (Rect)

/-- `Architecture::Row` -/
structure ArchRow where
  left : Int
  bottom : Int
  height : Int
  siteSpacing : Int
  numSites : Int

def ArchRow.right (row : ArchRow) : Int := row.left + row.numSites * row.siteSpacing

def ArchRow.top (row : ArchRow) : Int := row.bottom + row.height

/-- A node of `fixedCells_`, with what `getCellPadding` returns for it. -/
structure FixedCell where
  isTerminal : Bool
  left : Int
  right : Int
  bottom : Int
  top : Int
  leftPadding : Int
  rightPadding : Int

/-- The rectangles of the regions stand in the order of the region ids. -/
structure Architecture where
  minX : Int
  maxX : Int
  minY : Int
  maxY : Int
  row : Nat → ArchRow
  singleRowHeight : Int
  regions : List (List Rect)
  usePadding : Bool

structure Blockage where
  xMin : Int
  xMax : Int
  padLeft : Int
  padRight : Int
  deriving DecidableEq

namespace Blockage

def getPaddedXMin (b : Blockage) : Int := b.xMin - b.padLeft

def getPaddedXMax (b : Blockage) : Int := b.xMax + b.padRight

/-- A merged interval takes the end of the next one, but keeps its own padding. -/
def extendTo (top b : Blockage) : Blockage := { top with xMax := b.xMax }

end Blockage

/-- `compareBlockages` -/
abbrev compareBlockages : Blockage → Blockage → Bool :=
  IntervalMerge.before Blockage.getPaddedXMin Blockage.getPaddedXMax

/-- `compareIntervals` -/
abbrev compareIntervals : Int × Int → Int × Int → Bool := IntervalMerge.before Prod.fst Prod.snd

/-- `DetailedSeg` -/
structure DetailedSeg where
  minX : Int
  maxX : Int
  regId : Int
  deriving DecidableEq

namespace Architecture

variable (A : Architecture)

/-! ### Blockages -/

/-- `getCellSpacing` -/
def getCellSpacing (leftNode rightNode : Option FixedCell) : Int :=
  if A.usePadding then
    max 0 ((leftNode.elim 0 FixedCell.rightPadding) + rightNode.elim 0 FixedCell.leftPadding)
  else 0

/-- The blockage of a fixed cell in a row. -/
def cellBlockage (r : Nat) (nd : FixedCell) : Option Blockage :=
  if nd.isTerminal then none
  else
    let xmin := max A.minX nd.left
    let xmax := min A.maxX nd.right
    let ymin := max A.minY nd.bottom
    let ymax := min A.maxY nd.top
    let padLeft := A.getCellSpacing none (some nd)
    let padRight := A.getCellSpacing (some nd) none
    if ymin < (A.row r).top ∧ ymax > (A.row r).bottom then some ⟨xmin, xmax, padLeft, padRight⟩
    else none

/-- The blockage of a placement blockage in a row. -/
def placementBlockage (r : Nat) (blockage : Rect) : Option Blockage :=
  let xmin := max A.minX blockage.xMin
  let xmax := min A.maxX blockage.xMax
  let ymin := max A.minY blockage.yMin
  let ymax := min A.maxY blockage.yMax
  if ymin < (A.row r).top ∧ ymax > (A.row r).bottom then some ⟨xmin, xmax, 0, 0⟩ else none

/-- The blockages of a row before they are merged. -/
def rowBlockages (fixedCells : List FixedCell) (blockages : List Rect) (r : Nat) : List Blockage :=
  fixedCells.filterMap (A.cellBlockage r) ++ blockages.filterMap (A.placementBlockage r)

/-- `findBlockages` -/
def findBlockages (S : StdSort compareBlockages) (fixedCells : List FixedCell)
    (blockages : List Rect) (r : Nat) : List Blockage :=
  IntervalMerge.merge Blockage.getPaddedXMin Blockage.getPaddedXMax Blockage.extendTo S
    (A.rowBlockages fixedCells blockages r)

/-! ### Region intervals -/

/-- The sites of a row that a rectangle of a region spans, if it spans the row. -/
def rectInterval (r : Nat) (rect : Rect) : Option (Int × Int) :=
  let lb := A.minY + r * A.singleRowHeight
  let ub := lb + A.singleRowHeight
  if rect.yMax ≥ ub ∧ rect.yMin ≤ lb then
    let originX := (A.row r).left
    let siteSpacing := (A.row r).siteSpacing
    let i0 := (rect.xMin - originX).tdiv siteSpacing
    let i1 := (rect.xMax - originX).tdiv siteSpacing
    let i1 := if originX + i1 * siteSpacing ≠ rect.xMax then i1 + 1 else i1
    if i1 > i0 then some (originX + i0 * siteSpacing, originX + i1 * siteSpacing) else none
  else none

/-- `findRegionIntervals` for the rectangles of one region. -/
def findRegionIntervals (S : StdSort compareIntervals) (rects : List Rect) (r : Nat) :
    List (Int × Int) :=
  IntervalMerge.merge Prod.fst Prod.snd (fun top i => (top.1, i.2)) S
    (rects.filterMap (A.rectInterval r))

/-! ### Segments -/

def rowMin (r : Nat) : Int := max A.minX (A.row r).left

def rowMax (r : Nat) : Int := min A.maxX (A.row r).right

/-- A new segment, if it is not empty. -/
def newSegment (x1 x2 : Int) : List DetailedSeg := if x2 > x1 then [⟨x1, x2, -1⟩] else []

/-- The segments between the blockages behind the first one. -/
def innerSegments (r : Nat) : Blockage → List Blockage → List DetailedSeg
  | _, [] => []
  | before, b :: rest =>
      (if b.getPaddedXMin > before.getPaddedXMax then
        newSegment (max (A.rowMin r) before.getPaddedXMax) (min (A.rowMax r) b.getPaddedXMin)
      else []) ++ innerSegments r b rest

/-- The segment behind the last blockage. -/
def lastSegment (r : Nat) (b : Blockage) : List DetailedSeg :=
  if b.getPaddedXMax < A.rowMax r then
    newSegment (min (A.rowMax r) (max (A.rowMin r) b.getPaddedXMax)) (A.rowMax r)
  else []

/-- The row divided at its blockages. -/
def divideRow (r : Nat) : List Blockage → List DetailedSeg
  | [] => newSegment (A.rowMin r) (A.rowMax r)
  | b :: rest =>
      (if b.getPaddedXMin > A.rowMin r then
        newSegment (A.rowMin r) (min (A.rowMax r) b.getPaddedXMin)
      else []) ++ A.innerSegments r b rest ++ A.lastSegment r ((b :: rest).getLastD b)

/-- The four cases: what becomes of a segment that an interval of a region meets, and the segments
that are added. -/
def sliceSegment (reg : Int) (interval : Int × Int) (seg : DetailedSeg) :
    DetailedSeg × List DetailedSeg :=
  let il := interval.1
  let ir := interval.2
  let sl := seg.minX
  let sr := seg.maxX
  if ir ≤ sl ∨ il ≥ sr then (seg, [])
  else if il ≤ sl ∧ ir ≥ sr then ({ seg with regId := reg }, [])
  else if il > sl ∧ ir ≥ sr then ({ seg with maxX := il }, [⟨il, sr, reg⟩])
  else if ir < sr ∧ il ≤ sl then ({ seg with minX := ir }, [⟨sl, ir, reg⟩])
  else ({ seg with maxX := il }, [⟨il, ir, reg⟩, ⟨ir, sr, seg.regId⟩])

/-- The scan of the segments of a row, which grows while it is scanned. -/
def scanSegments (reg : Int) (interval : Int × Int) :
    Nat → List DetailedSeg → List DetailedSeg → List DetailedSeg
  | 0, scanned, left => scanned ++ left
  | _ + 1, scanned, [] => scanned
  | fuel + 1, scanned, seg :: left =>
      let pieces := sliceSegment reg interval seg
      scanSegments reg interval fuel (scanned ++ [pieces.1]) (left ++ pieces.2)

def sliceRow (reg : Int) (segs : List DetailedSeg) (interval : Int × Int) : List DetailedSeg :=
  scanSegments reg interval (3 * segs.length) [] segs

/-- The segments sliced at the intervals of the regions, one region after the other. -/
def sliceRegions (S : StdSort compareIntervals) (r : Nat) (segs : List DetailedSeg) :
    List DetailedSeg :=
  A.regions.zipIdx.foldl (fun segs region =>
    (A.findRegionIntervals S region.1 r).foldl (sliceRow region.2) segs) segs

/-- A segment moved in to whole sites. -/
def alignSegment (r : Nat) (seg : DetailedSeg) : DetailedSeg :=
  let originX := (A.row r).left
  let siteSpacing := (A.row r).siteSpacing
  let ix := (seg.minX - originX).tdiv siteSpacing
  let ix := if originX + ix * siteSpacing < seg.minX then ix + 1 else ix
  let ix' := (seg.maxX - originX).tdiv siteSpacing
  { seg with minX := originX + ix * siteSpacing, maxX := originX + ix' * siteSpacing }

/-- `findSegments` -/
def findSegments (S : StdSort compareIntervals) (blockages : List Blockage) (r : Nat) :
    List DetailedSeg :=
  (A.sliceRegions S r (A.divideRow r blockages)).map (A.alignSegment r)

end Architecture

end OpenRoad.Dpl

/-!
A row divided at its blockages: the segments lie between the blockages, apart from each other, and
what is free of blockages is in one of them.
-/

namespace OpenRoad.Dpl

open Db (Rect)

/-- The segment holds everything from `a` to `b`. -/
def DetailedSeg.Holds (a b : Int) (seg : DetailedSeg) : Prop := seg.minX ≤ a ∧ b ≤ seg.maxX

/-- The blockage keeps out of what is between `a` and `b`. -/
def Blockage.Outside (a b : Int) (blk : Blockage) : Prop :=
  b ≤ blk.getPaddedXMin ∨ blk.getPaddedXMax ≤ a

namespace Architecture

variable (A : Architecture) (r : Nat)

/-- A blockage with its ends in order, or beyond an end of the row. -/
def Straight (blk : Blockage) : Prop :=
  blk.getPaddedXMin ≤ blk.getPaddedXMax ∨ blk.getPaddedXMin ≤ A.rowMin r ∨
    A.rowMax r ≤ blk.getPaddedXMax

/-- The segments behind a blockage. -/
def segmentsAfter : Blockage → List Blockage → List DetailedSeg
  | before, [] => A.lastSegment r before
  | before, b :: rest =>
      (if b.getPaddedXMin > before.getPaddedXMax then
        newSegment (max (A.rowMin r) before.getPaddedXMax) (min (A.rowMax r) b.getPaddedXMin)
      else []) ++ segmentsAfter b rest

theorem innerSegments_append_last (rest : List Blockage) : ∀ before d : Blockage,
    A.innerSegments r before rest ++ A.lastSegment r ((before :: rest).getLastD d) =
      A.segmentsAfter r before rest := by
  induction rest with
  | nil => exact fun _ _ => rfl
  | cons b rest ih =>
      intro before d
      unfold innerSegments segmentsAfter
      rw [List.append_assoc]
      exact congrArg _ (ih b d)

theorem divideRow_cons (b : Blockage) (rest : List Blockage) :
    A.divideRow r (b :: rest) =
      (if b.getPaddedXMin > A.rowMin r then
        newSegment (A.rowMin r) (min (A.rowMax r) b.getPaddedXMin)
      else []) ++ A.segmentsAfter r b rest := by
  rw [← A.innerSegments_append_last r rest b b, ← List.append_assoc]
  rfl

theorem mem_newSegment {x1 x2 : Int} {seg : DetailedSeg} :
    seg ∈ newSegment x1 x2 ↔ x1 < x2 ∧ seg = ⟨x1, x2, -1⟩ := by
  unfold newSegment
  split_ifs with h
  · rw [List.mem_singleton]
    exact (and_iff_right h).symm
  · exact iff_of_false List.not_mem_nil fun h' => h h'.1

variable {A r}

/-- Blockages from left to right. -/
def Apart : List Blockage → Prop :=
  List.Pairwise fun a b => a.getPaddedXMax < b.getPaddedXMin ∧ a.getPaddedXMin ≤ b.getPaddedXMin

/-- A segment between the ends of the row that belongs to no region yet. -/
structure Fresh (A : Architecture) (r : Nat) (seg : DetailedSeg) : Prop where
  lt : seg.minX < seg.maxX
  min : A.rowMin r ≤ seg.minX
  max : seg.maxX ≤ A.rowMax r
  regId : seg.regId = -1

theorem fresh_newSegment {x1 x2 : Int} (hlo : A.rowMin r ≤ x1) (hhi : x2 ≤ A.rowMax r)
    {seg : DetailedSeg} (h : seg ∈ newSegment x1 x2) :
    Fresh A r seg ∧ seg.minX = x1 ∧ seg.maxX = x2 := by
  obtain ⟨hlt, rfl⟩ := mem_newSegment.mp h
  exact ⟨⟨hlt, hlo, hhi, rfl⟩, rfl, rfl⟩

theorem mem_lastSegment {b : Blockage} {seg : DetailedSeg} (h : seg ∈ A.lastSegment r b) :
    Fresh A r seg ∧ b.getPaddedXMax ≤ seg.minX := by
  unfold lastSegment at h
  split_ifs at h with hlt
  · obtain ⟨hfresh, hmin, hmax⟩ := mem_newSegment.mp h
    refine ⟨⟨?_, ?_, le_rfl, rfl⟩, ?_⟩ <;> dsimp only <;> omega
  · cases h

theorem mem_gap {before b : Blockage} {seg : DetailedSeg}
    (h : seg ∈ if b.getPaddedXMin > before.getPaddedXMax then
      newSegment (max (A.rowMin r) before.getPaddedXMax) (min (A.rowMax r) b.getPaddedXMin)
    else []) :
    Fresh A r seg ∧ before.getPaddedXMax ≤ seg.minX ∧ seg.maxX ≤ b.getPaddedXMin := by
  split_ifs at h with hgt
  · obtain ⟨hfresh, hmin, hmax⟩ := fresh_newSegment (le_max_left _ _) (min_le_left _ _) h
    exact ⟨hfresh, hmin ▸ le_max_right _ _, hmax ▸ min_le_right _ _⟩
  · cases h

/-- A segment behind a straight blockage is also behind what the blockage starts behind. -/
theorem Straight.le_of_fresh {b : Blockage} (hb : A.Straight r b) {seg : DetailedSeg}
    (hfresh : Fresh A r seg) (hle : b.getPaddedXMax ≤ seg.minX) : b.getPaddedXMin ≤ seg.minX := by
  have hlt := hfresh.lt
  have hmin := hfresh.min
  have hmax := hfresh.max
  rcases hb with h | h | h <;> omega

theorem fresh_after (rest : List Blockage) : ∀ before : Blockage, Apart (before :: rest) →
    (∀ b ∈ rest, A.Straight r b) → ∀ seg ∈ A.segmentsAfter r before rest,
      Fresh A r seg ∧ before.getPaddedXMax ≤ seg.minX := by
  induction rest with
  | nil => exact fun before _ _ seg hseg => mem_lastSegment hseg
  | cons b rest ih =>
      intro before hapart hstraight seg hseg
      obtain ⟨hbefore, hrest⟩ := List.pairwise_cons.mp hapart
      rcases List.mem_append.mp hseg with hgap | hafter
      · obtain ⟨hfresh, hle, -⟩ := mem_gap hgap
        exact ⟨hfresh, hle⟩
      · obtain ⟨hfresh, hle⟩ := ih b hrest (fun c hc => hstraight c (List.mem_cons_of_mem _ hc)) seg
          hafter
        have hb := (hstraight b List.mem_cons_self).le_of_fresh hfresh hle
        have hlt := (hbefore b List.mem_cons_self).1
        exact ⟨hfresh, by omega⟩

theorem newSegment_pairwise (x1 x2 : Int) :
    (newSegment x1 x2).Pairwise fun s t : DetailedSeg => s.maxX ≤ t.minX := by
  unfold newSegment
  split_ifs
  · exact List.pairwise_singleton _ _
  · exact List.Pairwise.nil

theorem after_apart (rest : List Blockage) : ∀ before : Blockage, Apart (before :: rest) →
    (∀ b ∈ rest, A.Straight r b) →
    (A.segmentsAfter r before rest).Pairwise fun s t => s.maxX ≤ t.minX := by
  induction rest with
  | nil =>
      intro before _ _
      unfold segmentsAfter lastSegment
      split_ifs
      · exact newSegment_pairwise _ _
      · exact List.Pairwise.nil
  | cons b rest ih =>
      intro before hapart hstraight
      obtain ⟨-, hrest⟩ := List.pairwise_cons.mp hapart
      have hstraight' := fun c hc => hstraight c (List.mem_cons_of_mem _ hc)
      refine List.pairwise_append.mpr ⟨?_, ih b hrest hstraight', fun s hs t ht => ?_⟩
      · split_ifs
        · exact newSegment_pairwise _ _
        · exact List.Pairwise.nil
      · obtain ⟨-, -, hmax⟩ := mem_gap hs
        obtain ⟨hfresh, hle⟩ := fresh_after rest b hrest hstraight' t ht
        exact hmax.trans ((hstraight b List.mem_cons_self).le_of_fresh hfresh hle)

/-- The segments behind a blockage keep out of the ones that follow. -/
theorem after_outside (rest : List Blockage) : ∀ before : Blockage, Apart (before :: rest) →
    (∀ b ∈ rest, A.Straight r b) → ∀ seg ∈ A.segmentsAfter r before rest,
      ∀ b ∈ rest, b.Outside seg.minX seg.maxX := by
  induction rest with
  | nil => exact fun _ _ _ _ _ b hb => absurd hb List.not_mem_nil
  | cons b rest ih =>
      intro before hapart hstraight seg hseg c hc
      obtain ⟨-, hrest⟩ := List.pairwise_cons.mp hapart
      have hstraight' := fun c hc => hstraight c (List.mem_cons_of_mem _ hc)
      rcases List.mem_append.mp hseg with hgap | hafter
      · obtain ⟨-, -, hmax⟩ := mem_gap hgap
        rcases List.mem_cons.mp hc with rfl | hc
        · exact Or.inl hmax
        · exact Or.inl (hmax.trans ((List.pairwise_cons.mp hrest).1 c hc).2)
      · rcases List.mem_cons.mp hc with rfl | hc
        · exact Or.inr (fresh_after rest c hrest hstraight' seg hafter).2
        · exact ih b hrest hstraight' seg hafter c hc

/-- What is free behind a blockage is in one of the segments there. -/
theorem after_holds {x y : Int} (hxy : x < y) (hx : A.rowMin r ≤ x) (hy : y ≤ A.rowMax r)
    (rest : List Blockage) : ∀ before : Blockage, Apart (before :: rest) →
      before.getPaddedXMax ≤ x → (∀ b ∈ rest, b.Outside x y) →
      ∃ seg ∈ A.segmentsAfter r before rest, seg.Holds x y := by
  induction rest with
  | nil =>
      intro before _ hle _
      refine ⟨⟨min (A.rowMax r) (max (A.rowMin r) before.getPaddedXMax), A.rowMax r, -1⟩, ?_, ?_⟩
      · unfold segmentsAfter lastSegment
        rw [if_pos (by omega)]
        exact mem_newSegment.mpr ⟨by omega, rfl⟩
      · refine ⟨?_, hy⟩
        dsimp only
        omega
  | cons b rest ih =>
      intro before hapart hle hfree
      obtain ⟨hbefore, hrest⟩ := List.pairwise_cons.mp hapart
      rcases hfree b List.mem_cons_self with hout | hout
      · have hlt := (hbefore b List.mem_cons_self).1
        refine ⟨⟨max (A.rowMin r) before.getPaddedXMax, min (A.rowMax r) b.getPaddedXMin, -1⟩,
          List.mem_append.mpr (Or.inl ?_), ?_, ?_⟩
        · rw [if_pos hlt]
          exact mem_newSegment.mpr ⟨by omega, rfl⟩
        · dsimp only
          omega
        · dsimp only
          omega
      · obtain ⟨seg, hseg, hholds⟩ := ih b hrest hout fun c hc =>
          hfree c (List.mem_cons_of_mem _ hc)
        exact ⟨seg, List.mem_append.mpr (Or.inr hseg), hholds⟩

/-! ### The whole row -/

/-- What the segments of a divided row are. -/
structure Divided (A : Architecture) (r : Nat) (blockages : List Blockage)
    (segs : List DetailedSeg) : Prop where
  fresh : ∀ seg ∈ segs, Fresh A r seg
  apart : segs.Pairwise fun s t => s.maxX ≤ t.minX
  outside : ∀ seg ∈ segs, ∀ b ∈ blockages, b.Outside seg.minX seg.maxX
  holds : ∀ x y, x < y → A.rowMin r ≤ x → y ≤ A.rowMax r → (∀ b ∈ blockages, b.Outside x y) →
    ∃ seg ∈ segs, seg.Holds x y

theorem mem_firstSegment {b : Blockage} {seg : DetailedSeg}
    (h : seg ∈ if b.getPaddedXMin > A.rowMin r then
      newSegment (A.rowMin r) (min (A.rowMax r) b.getPaddedXMin) else []) :
    Fresh A r seg ∧ seg.maxX ≤ b.getPaddedXMin := by
  split_ifs at h
  · obtain ⟨hfresh, -, hmax⟩ := fresh_newSegment le_rfl (min_le_left _ _) h
    exact ⟨hfresh, hmax ▸ min_le_right _ _⟩
  · cases h

theorem divideRow_spec {blockages : List Blockage} (hapart : Apart blockages)
    (hstraight : ∀ b ∈ blockages, A.Straight r b) :
    Divided A r blockages (A.divideRow r blockages) := by
  cases blockages with
  | nil =>
      exact {
        fresh := fun seg hseg => (fresh_newSegment le_rfl le_rfl hseg).1
        apart := newSegment_pairwise _ _
        outside := fun _ _ b hb => absurd hb List.not_mem_nil
        holds := fun x y hxy hx hy _ =>
          ⟨⟨A.rowMin r, A.rowMax r, -1⟩, mem_newSegment.mpr ⟨by omega, rfl⟩, hx, hy⟩ }
  | cons b rest =>
      rw [divideRow_cons]
      have hb := hstraight b List.mem_cons_self
      have hstraight' := fun c hc => hstraight c (List.mem_cons_of_mem _ hc)
      have hle : ∀ c ∈ b :: rest, b.getPaddedXMin ≤ c.getPaddedXMin := fun c hc => by
        rcases List.mem_cons.mp hc with rfl | hc
        · exact le_rfl
        · exact ((List.pairwise_cons.mp hapart).1 c hc).2
      exact {
        fresh := fun seg hseg => by
          rcases List.mem_append.mp hseg with hfirst | hafter
          · exact (mem_firstSegment hfirst).1
          · exact (fresh_after rest b hapart hstraight' seg hafter).1
        apart := by
          refine List.pairwise_append.mpr ⟨?_, after_apart rest b hapart hstraight', fun s hs t ht => ?_⟩
          · split_ifs
            · exact newSegment_pairwise _ _
            · exact List.Pairwise.nil
          · obtain ⟨hfresh, hmin⟩ := fresh_after rest b hapart hstraight' t ht
            exact (mem_firstSegment hs).2.trans (hb.le_of_fresh hfresh hmin)
        outside := fun seg hseg c hc => by
          rcases List.mem_append.mp hseg with hfirst | hafter
          · exact Or.inl ((mem_firstSegment hfirst).2.trans (hle c hc))
          · rcases List.mem_cons.mp hc with rfl | hc
            · exact Or.inr (fresh_after rest c hapart hstraight' seg hafter).2
            · exact after_outside rest b hapart hstraight' seg hafter c hc
        holds := fun x y hxy hx hy hfree => by
          rcases hfree b List.mem_cons_self with hout | hout
          · refine ⟨⟨A.rowMin r, min (A.rowMax r) b.getPaddedXMin, -1⟩,
              List.mem_append.mpr (Or.inl ?_), hx, ?_⟩
            · rw [if_pos (by omega)]
              exact mem_newSegment.mpr ⟨by omega, rfl⟩
            · dsimp only
              omega
          · obtain ⟨seg, hseg, hholds⟩ := after_holds hxy hx hy rest b hapart hout fun c hc =>
              hfree c (List.mem_cons_of_mem _ hc)
            exact ⟨seg, List.mem_append.mpr (Or.inr hseg), hholds⟩ }

end Architecture

end OpenRoad.Dpl
