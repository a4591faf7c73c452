import OpenRoad.DplGrid
import Mathlib.Data.List.Find

/-!
The overlap check of `checkPlacement`. Each pixel remembers the first cell that visits it, and a
cell is reported when it visits a pixel of another cell that it overlaps. A cell over which a third
one was painted is seen only through that one, so the check finds every overlap exactly when each
overlapping pair can be seen through the first visitors of its pixels.
-/

namespace OpenRoad.Dpl

open Db (Point Rect Orient Transform)

/-- The cells of the network, in network order. -/
structure Network where
  numNodes : Nat
  node : Nat → Node

/-! ### The rules of the overlap check -/

def isCrWtBlClass (cell : Node) : Bool :=
  match cell.master.type with
  | .CORE | .CORE_ANTENNACELL | .CORE_FEEDTHRU | .CORE_TIEHIGH | .CORE_TIELOW | .CORE_WELLTAP
  | .BLOCK | .BLOCK_BLACKBOX | .BLOCK_SOFT => true
  | _ => false

def isWellTap (cell : Node) : Bool := cell.master.type = .CORE_WELLTAP

def isOverlapPadded (cell1 cell2 : Node) : Bool :=
  isCrWtBlClass cell1 && isCrWtBlClass cell2 && !(isWellTap cell1 && isWellTap cell2)

section

variable (G : Grid) (P : Padding)

def initialLocation (cell : Node) (padded : Bool) : Point :=
  ⟨if padded then cell.location.x - G.gridToDbu (P.padLeftOf cell) else cell.location.x,
    cell.location.y⟩

def overlap (cell1 cell2 : Node) : Bool :=
  if cell1.isBlock && cell2.isBlock then false
  else
    let padded := P.havePadding && isOverlapPadded cell1 cell2
    let ll1 := initialLocation G P cell1 padded
    let ll2 := initialLocation G P cell2 padded
    let width1 := if padded then P.paddedWidth cell1 else cell1.width
    let width2 := if padded then P.paddedWidth cell2 else cell2.width
    ll1.x < ll2.x + width2 && ll2.x < ll1.x + width1 &&
      ll1.y < ll2.y + cell2.height && ll2.y < ll1.y + cell1.height

variable (N : Network)

/-- The visitor of `checkOverlap` on one pixel. -/
def visitOverlap (cell : Nat) (state : Pixels × Option Nat) (pixel : Int × Int) :
    Pixels × Option Nat :=
  match state.1 pixel.1 pixel.2 with
  | some pixelCell =>
      if pixelCell ≠ cell ∧ overlap G P (N.node cell) (N.node pixelCell) then
        (state.1, some pixelCell)
      else state
  | none => (state.1.set pixel.1 pixel.2 (some cell), state.2)

/-- `checkOverlap`: the cell this cell overlaps. -/
def checkOverlap (pixels : Pixels) (cell : Nat) : Pixels × Option Nat :=
  (G.cellPixels P (N.node cell) true).foldl (visitOverlap G P N cell) (pixels, none)

/-- The overlap check of `checkPlacement` on the first `n` cells, from an initialised grid: the
pixels and the cells that are reported. -/
def checkOverlaps : Nat → Pixels × List Nat
  | 0 => (fun _ _ => none, [])
  | n + 1 =>
      let (pixels, failures) := checkOverlaps n
      let (pixels, overlapCell) := checkOverlap G P N pixels n
      (pixels, if overlapCell.isSome then failures ++ [n] else failures)

/-- The first cell in network order that visits a pixel. -/
def firstVisitor (n : Nat) (x y : Int) : Option Nat :=
  (List.range n).find? fun cell => decide ((x, y) ∈ G.cellPixels P (N.node cell) true)

/-! ### What one check does -/

variable {G P N}

theorem visitOverlap_none {cell : Nat} {state : Pixels × Option Nat} {pixel : Int × Int}
    (h : state.1 pixel.1 pixel.2 = none) :
    visitOverlap G P N cell state pixel = (state.1.set pixel.1 pixel.2 (some cell), state.2) := by
  rw [visitOverlap, h]

theorem visitOverlap_some {cell q : Nat} {state : Pixels × Option Nat} {pixel : Int × Int}
    (h : state.1 pixel.1 pixel.2 = some q) :
    visitOverlap G P N cell state pixel =
      if q ≠ cell ∧ overlap G P (N.node cell) (N.node q) then (state.1, some q) else state := by
  rw [visitOverlap, h]

/-- Pixels without a cell are taken by the cell that visits them. -/
theorem visitOverlap_pixels (cell : Nat) (visited : List (Int × Int)) (state : Pixels × Option Nat)
    (x y : Int) :
    (visited.foldl (visitOverlap G P N cell) state).1 x y =
      (state.1 x y).or (if (x, y) ∈ visited then some cell else none) := by
  induction visited generalizing state with
  | nil => simp
  | cons pixel visited ih =>
      rw [List.foldl_cons, ih]
      cases hp : state.1 pixel.1 pixel.2 with
      | some q =>
          have hpixels : (visitOverlap G P N cell state pixel).1 = state.1 := by
            rw [visitOverlap_some hp]
            split <;> rfl
          rw [hpixels]
          by_cases heq : (x, y) = pixel
          · subst heq
            rw [hp]
            rfl
          · simp only [List.mem_cons, heq, false_or]
      | none =>
          rw [visitOverlap_none hp]
          by_cases heq : (x, y) = pixel
          · subst heq
            simp [hp]
          · simp only [Pixels.set_of_ne _ _ (show (x, y) ≠ (pixel.1, pixel.2) from heq),
              List.mem_cons, heq, false_or]

/-- A cell is found that overlaps if one was there, or if a visited pixel belongs to one. -/
theorem visitOverlap_isSome (cell : Nat) (visited : List (Int × Int))
    (state : Pixels × Option Nat) :
    (visited.foldl (visitOverlap G P N cell) state).2.isSome ↔
      state.2.isSome ∨ ∃ x y p, (x, y) ∈ visited ∧ state.1 x y = some p ∧ p ≠ cell ∧
        overlap G P (N.node cell) (N.node p) := by
  induction visited generalizing state with
  | nil => simp
  | cons pixel visited ih =>
      rw [List.foldl_cons, ih]
      cases hp : state.1 pixel.1 pixel.2 with
      | some q =>
          rw [visitOverlap_some hp]
          by_cases hq : q ≠ cell ∧ overlap G P (N.node cell) (N.node q)
          · rw [if_pos hq]
            exact iff_of_true (Or.inl rfl)
              (Or.inr ⟨pixel.1, pixel.2, q, List.mem_cons_self, hp, hq⟩)
          · rw [if_neg hq]
            refine or_congr_right ⟨?_, ?_⟩
            · rintro ⟨x, y, p, hmem, hcell, hover⟩
              exact ⟨x, y, p, List.mem_cons_of_mem _ hmem, hcell, hover⟩
            · rintro ⟨x, y, p, hmem, hcell, hover⟩
              rcases List.mem_cons.mp hmem with rfl | hmem
              · obtain rfl : q = p := Option.some.inj (hp.symm.trans hcell)
                exact absurd hover hq
              · exact ⟨x, y, p, hmem, hcell, hover⟩
      | none =>
          rw [visitOverlap_none hp]
          dsimp only
          refine or_congr_right ⟨?_, ?_⟩
          · rintro ⟨x, y, p, hmem, hcell, hne, hover⟩
            by_cases heq : (x, y) = (pixel.1, pixel.2)
            · obtain ⟨rfl, rfl⟩ := Prod.mk.inj heq
              rw [Pixels.set_self] at hcell
              exact absurd (Option.some.inj hcell).symm hne
            · rw [Pixels.set_of_ne _ _ heq] at hcell
              exact ⟨x, y, p, List.mem_cons_of_mem _ hmem, hcell, hne, hover⟩
          · rintro ⟨x, y, p, hmem, hcell, hover⟩
            have hne : (x, y) ≠ (pixel.1, pixel.2) := by
              intro heq
              obtain ⟨rfl, rfl⟩ := Prod.mk.inj heq
              rw [hp] at hcell
              cases hcell
            refine ⟨x, y, p, (List.mem_cons.mp hmem).resolve_left hne, ?_, hover⟩
            rw [Pixels.set_of_ne _ _ hne]
            exact hcell

/-! ### What all checks do -/

theorem firstVisitor_eq_some {n : Nat} {x y : Int} {c : Nat} :
    firstVisitor G P N n x y = some c ↔ c < n ∧ (x, y) ∈ G.cellPixels P (N.node c) true ∧
      ∀ p < c, (x, y) ∉ G.cellPixels P (N.node p) true := by
  rw [firstVisitor, List.find?_range_eq_some]
  simp only [decide_eq_true_eq, List.mem_range, Bool.not_eq_true', decide_eq_false_iff_not]
  constructor
  · rintro ⟨hc, hn, hp⟩
    exact ⟨hn, hc, hp⟩
  · rintro ⟨hn, hc, hp⟩
    exact ⟨hc, hn, hp⟩

theorem firstVisitor_succ (n : Nat) (x y : Int) :
    firstVisitor G P N (n + 1) x y = (firstVisitor G P N n x y).or
      (if (x, y) ∈ G.cellPixels P (N.node n) true then some n else none) := by
  unfold firstVisitor
  rw [List.range_succ, List.find?_append]
  by_cases hmem : (x, y) ∈ G.cellPixels P (N.node n) true <;> simp [hmem]

/-- Whoever visits a pixel before a cell that visits it comes before that cell. -/
theorem firstVisitor_iff {n c p : Nat} {x y : Int} (hc : c < n)
    (hmem : (x, y) ∈ G.cellPixels P (N.node c) true) (hne : p ≠ c) :
    firstVisitor G P N n x y = some p ↔ firstVisitor G P N c x y = some p := by
  rw [firstVisitor_eq_some, firstVisitor_eq_some]
  constructor
  · rintro ⟨-, hp, hfirst⟩
    have hle : p ≤ c := Nat.le_of_not_lt fun hlt => hfirst c hlt hmem
    exact ⟨Nat.lt_of_le_of_ne hle hne, hp, hfirst⟩
  · rintro ⟨hlt, hp, hfirst⟩
    exact ⟨Nat.lt_trans hlt hc, hp, hfirst⟩

/-- A pixel remembers the first cell that visited it. -/
theorem checkOverlaps_pixels (n : Nat) (x y : Int) :
    (checkOverlaps G P N n).1 x y = firstVisitor G P N n x y := by
  induction n with
  | zero => rfl
  | succ n ih =>
      rw [firstVisitor_succ, ← ih]
      exact visitOverlap_pixels n _ _ x y

/-- The cells that are reported: they visit a pixel that another cell, which they overlap, visited
first. -/
theorem mem_checkOverlaps {n c : Nat} :
    c ∈ (checkOverlaps G P N n).2 ↔ c < n ∧ ∃ x y p, (x, y) ∈ G.cellPixels P (N.node c) true ∧
      firstVisitor G P N n x y = some p ∧ p ≠ c ∧ overlap G P (N.node c) (N.node p) := by
  induction n with
  | zero => simp [checkOverlaps]
  | succ n ih =>
      have hstep : c ∈ (checkOverlaps G P N (n + 1)).2 ↔ c ∈ (checkOverlaps G P N n).2 ∨
          (c = n ∧ (checkOverlap G P N (checkOverlaps G P N n).1 n).2.isSome) := by
        simp only [checkOverlaps]
        split
        · rename_i hsome
          rw [List.mem_append, List.mem_singleton]
          simp only [hsome, and_true]
        · rename_i hnone
          simp only [hnone, and_false, or_false, Bool.false_eq_true]
      rw [hstep, ih, checkOverlap, visitOverlap_isSome]
      simp only [Option.isSome_none, Bool.false_eq_true, false_or, checkOverlaps_pixels]
      constructor
      · rintro (⟨hc, x, y, p, hmem, hfirst, hne, hover⟩ | ⟨rfl, x, y, p, hmem, hfirst, hne, hover⟩)
        · refine ⟨Nat.lt_succ_of_lt hc, x, y, p, hmem, ?_, hne, hover⟩
          rw [firstVisitor_iff (Nat.lt_succ_of_lt hc) hmem hne, ← firstVisitor_iff hc hmem hne]
          exact hfirst
        · refine ⟨Nat.lt_succ_self c, x, y, p, hmem, ?_, hne, hover⟩
          rw [firstVisitor_iff (Nat.lt_succ_self c) hmem hne]
          exact hfirst
      · rintro ⟨hc, x, y, p, hmem, hfirst, hne, hover⟩
        rw [firstVisitor_iff hc hmem hne] at hfirst
        rcases Nat.lt_succ_iff_lt_or_eq.mp hc with hlt | rfl
        · refine Or.inl ⟨hlt, x, y, p, hmem, ?_, hne, hover⟩
          rw [firstVisitor_iff hlt hmem hne]
          exact hfirst
        · exact Or.inr ⟨rfl, x, y, p, hmem, hfirst, hne, hover⟩

/-- The cell visits a pixel that another cell, which it overlaps, visits first. -/
def MeetsFirstVisitor (G : Grid) (P : Padding) (N : Network) (c : Nat) : Prop :=
  ∃ x y p, (x, y) ∈ G.cellPixels P (N.node c) true ∧
    firstVisitor G P N N.numNodes x y = some p ∧ p ≠ c ∧ overlap G P (N.node c) (N.node p)

/-- Of each two cells that overlap one is reported, if and only if of each two cells that overlap
one meets a first visitor that it overlaps. -/
theorem checkOverlaps_complete_iff (G : Grid) (P : Padding) (N : Network) :
    (∀ c1 c2, c1 < N.numNodes → c2 < N.numNodes → c1 ≠ c2 →
      overlap G P (N.node c1) (N.node c2) →
      c1 ∈ (checkOverlaps G P N N.numNodes).2 ∨ c2 ∈ (checkOverlaps G P N N.numNodes).2) ↔
    ∀ c1 c2, c1 < N.numNodes → c2 < N.numNodes → c1 ≠ c2 →
      overlap G P (N.node c1) (N.node c2) →
      MeetsFirstVisitor G P N c1 ∨ MeetsFirstVisitor G P N c2 := by
  have hreported : ∀ c, c < N.numNodes →
      (c ∈ (checkOverlaps G P N N.numNodes).2 ↔ MeetsFirstVisitor G P N c) := fun c hc => by
    rw [mem_checkOverlaps, MeetsFirstVisitor]
    exact and_iff_right hc
  constructor
  · intro h c1 c2 h1 h2 hne hover
    rw [← hreported c1 h1, ← hreported c2 h2]
    exact h c1 c2 h1 h2 hne hover
  · intro h c1 c2 h1 h2 hne hover
    rw [hreported c1 h1, hreported c2 h2]
    exact h c1 c2 h1 h2 hne hover

end

/-! ### A shadowed overlap -/

/-- A row of five sites. -/
def shadowGrid : Grid where
  coreYMax := 10
  siteWidth := 10
  rowSiteCount := 5
  rowYs := [0, 10]
  uniformRowHeight := some 10
  pixelInfo _ _ := ⟨true, [(0, .R0)], none⟩

/-- The first instance has two sites of padding to the right. -/
def shadowPadding : Padding := ⟨0, 0, [], [(0, (0, 2))]⟩

/-- A core cell at the left end of the row, and two fillers on the same site of its padding. -/
def shadowNetwork : Network where
  numNodes := 3
  node c :=
    let x : Int := if c = 0 then 0 else 10
    { inst := c
      master := ⟨c, if c = 0 then .CORE else .CORE_SPACER, [], 0, 10, none⟩
      location := ⟨x, 0⟩
      transform := ⟨.R0, ⟨x, 0⟩⟩
      left := x
      bottom := 0
      width := 10
      height := 10
      orient := .R0
      fixed := false
      placed := true
      hold := false
      group := none }

/-- Both fillers see only the cell to which the site belongs as padding, and do not overlap it. -/
theorem shadowed_overlap :
    overlap shadowGrid shadowPadding (shadowNetwork.node 1) (shadowNetwork.node 2) ∧
      (checkOverlaps shadowGrid shadowPadding shadowNetwork 3).2 = [] := by
  decide

end OpenRoad.Dpl
