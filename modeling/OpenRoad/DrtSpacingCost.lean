import OpenRoad.DbGeometry
import Mathlib.Analysis.Real.Sqrt
import Mathlib.Algebra.Order.Ring.Int
import Mathlib.Data.List.GetD

/-!
The planar spacing costs of the detailed router: around a rectangle, the nodes of the grid at which
a wire would come too near are looked up by index and marked.
-/

namespace OpenRoad.Drt

open Db (Point Rect)

/-- The coordinates of a grid graph and the directions of its layers. -/
structure CostGrid where
  xCoords : List Int
  yCoords : List Int
  isHorizontal : Nat → Bool
  xCoords_ne_nil : xCoords ≠ []
  yCoords_ne_nil : yCoords ≠ []
  xCoords_sorted : xCoords.Pairwise (· < ·)
  yCoords_sorted : yCoords.Pairwise (· < ·)

/-- The planar costs of a node. -/
structure CostNode where
  routeShapeCostPlanar : Nat
  routeShapeCostPlanarNDR : Nat
  fixedShapeCostPlanarHorz : Nat
  fixedShapeCostPlanarHorzNDR : Nat
  fixedShapeCostPlanarVert : Nat
  fixedShapeCostPlanarVertNDR : Nat
  deriving DecidableEq

/-- A cost has eight bits. -/
def addToByte (augend summand : Nat) : Nat := min (augend + summand) (2 ^ 8 - 1)

def subFromByte (minuend subtrahend : Nat) : Nat := minuend - subtrahend

/-- The kinds of changes to planar costs. The two that change blocked edges are not modelled. -/
inductive ModCostType where
  | subRouteShape
  | addRouteShape
  | subFixedShape
  | addFixedShape
  | resetFixedShape
  | setFixedShape
  deriving DecidableEq

namespace CostNode

def addRouteShapeCostPlanar (ndr : Bool) (node : CostNode) : CostNode :=
  if ndr then { node with routeShapeCostPlanarNDR := addToByte node.routeShapeCostPlanarNDR 1 }
  else { node with routeShapeCostPlanar := addToByte node.routeShapeCostPlanar 1 }

def subRouteShapeCostPlanar (ndr : Bool) (node : CostNode) : CostNode :=
  if ndr then { node with routeShapeCostPlanarNDR := subFromByte node.routeShapeCostPlanarNDR 1 }
  else { node with routeShapeCostPlanar := subFromByte node.routeShapeCostPlanar 1 }

def addFixedShapeCostPlanar (ndr : Bool) (node : CostNode) : CostNode :=
  if ndr then
    { node with
      fixedShapeCostPlanarHorzNDR := addToByte node.fixedShapeCostPlanarHorzNDR 1
      fixedShapeCostPlanarVertNDR := addToByte node.fixedShapeCostPlanarVertNDR 1 }
  else
    { node with
      fixedShapeCostPlanarHorz := addToByte node.fixedShapeCostPlanarHorz 1
      fixedShapeCostPlanarVert := addToByte node.fixedShapeCostPlanarVert 1 }

def subFixedShapeCostPlanar (ndr : Bool) (node : CostNode) : CostNode :=
  if ndr then
    { node with
      fixedShapeCostPlanarHorzNDR := subFromByte node.fixedShapeCostPlanarHorzNDR 1
      fixedShapeCostPlanarVertNDR := subFromByte node.fixedShapeCostPlanarVertNDR 1 }
  else
    { node with
      fixedShapeCostPlanarHorz := subFromByte node.fixedShapeCostPlanarHorz 1
      fixedShapeCostPlanarVert := subFromByte node.fixedShapeCostPlanarVert 1 }

def setFixedShapeCostPlanarHorz (c : Nat) (ndr : Bool) (node : CostNode) : CostNode :=
  if ndr then { node with fixedShapeCostPlanarHorzNDR := c }
  else { node with fixedShapeCostPlanarHorz := c }

def setFixedShapeCostPlanarVert (c : Nat) (ndr : Bool) (node : CostNode) : CostNode :=
  if ndr then { node with fixedShapeCostPlanarVertNDR := c }
  else { node with fixedShapeCostPlanarVert := c }

/-- The branch of the switch over the kind of change. -/
def mod (type : ModCostType) (resetHorz resetVert ndr : Bool) (node : CostNode) : CostNode :=
  match type with
  | .subRouteShape => node.subRouteShapeCostPlanar ndr
  | .addRouteShape => node.addRouteShapeCostPlanar ndr
  | .subFixedShape => node.subFixedShapeCostPlanar ndr
  | .addFixedShape => node.addFixedShapeCostPlanar ndr
  | .resetFixedShape =>
      let node := if resetHorz then node.setFixedShapeCostPlanarHorz 0 ndr else node
      if resetVert then node.setFixedShapeCostPlanarVert 0 ndr else node
  | .setFixedShape =>
      (node.setFixedShapeCostPlanarHorz 1 ndr).setFixedShapeCostPlanarVert 1 ndr

end CostNode

/-- `std::lower_bound` on the coordinates: the index of the first one not below `v`. -/
def lowerBoundIdx (coords : List Int) (v : Int) : Nat := coords.findIdx fun c => v ≤ c

/-- `std::upper_bound`: the index of the first coordinate above `v`. -/
def upperBoundIdx (coords : List Int) (v : Int) : Nat := coords.findIdx fun c => v < c

/-- The indices of the coordinates between two values, as `getIdxBox` has them: where all
coordinates are above, the upper index is still 0. -/
def idxRange (coords : List Int) (lo hi : Int) : List Nat :=
  let first := lowerBoundIdx coords lo
  let last := max 0 (upperBoundIdx coords hi - 1)
  List.range' first (last + 1 - first)

/-- The pairs of indices that the loops over an index box run through. -/
def CostGrid.getIdxBox (G : CostGrid) (bx : Rect) : List (Nat × Nat) :=
  (idxRange G.xCoords bx.xMin bx.xMax).flatMap fun i =>
    (idxRange G.yCoords bx.yMin bx.yMax).map fun j => (i, j)

def CostGrid.getIdx (G : CostGrid) (xIdx yIdx zIdx : Nat) : Nat :=
  (if G.isHorizontal zIdx then xIdx + yIdx * G.xCoords.length
    else yIdx + xIdx * G.yCoords.length) + zIdx * G.xCoords.length * G.yCoords.length

def CostGrid.getPoint (G : CostGrid) (x y : Nat) : Point := ⟨G.xCoords.getD x 0, G.yCoords.getD y 0⟩

def pt2boxDistSquare (pt : Point) (box : Rect) : Int :=
  let dx := max (max (box.xMin - pt.x) (pt.x - box.xMax)) 0
  let dy := max (max (box.yMin - pt.y) (pt.y - box.yMax)) 0
  dx * dx + dy * dy

/-- The least distance of the four corners of the wire's square at a point, squared. -/
def cornerDistSquare (pt : Point) (halfwidth2 : Int) (box : Rect) : Int :=
  let pt1 : Point := ⟨pt.x + halfwidth2, pt.y - halfwidth2⟩
  let pt2 : Point := ⟨pt.x + halfwidth2, pt.y + halfwidth2⟩
  let pt3 : Point := ⟨pt.x - halfwidth2, pt.y - halfwidth2⟩
  let pt4 : Point := ⟨pt.x - halfwidth2, pt.y + halfwidth2⟩
  let distSquare := min (pt2boxDistSquare pt1 box) (pt2boxDistSquare pt2 box)
  let distSquare := min (pt2boxDistSquare pt3 box) distSquare
  min (pt2boxDistSquare pt4 box) distSquare

/-- What a rectangle and a wire require of each other: the layer's spacing for the two widths and
the rectangle's length, and at least the spacing of the rule. -/
def bloatDist (getMinSpacingValue : Int → Int → Int → Bool → Int) (box : Rect)
    (width2 minSpacing : Int) (useMinSpacing : Bool) : Int :=
  let dx := box.xMax - box.xMin
  let dy := box.yMax - box.yMin
  max (getMinSpacingValue (min dx dy) width2 (max dx dy) useMinSpacing) minSpacing

section Helper

variable (getMinSpacingValue : Int → Int → Int → Bool → Int) (useMinSpacingObs : Bool)

/-- `gridGraph_`'s nodes after the call, by their indices. -/
def modMinSpacingCostPlanarHelper (G : CostGrid) (nodes : Nat → CostNode) (box : Rect) (z : Nat)
    (type : ModCostType) (width2 minSpacing : Int) (isBlockage resetHorz resetVert ndr : Bool) :
    Nat → CostNode :=
  let halfwidth2 := width2.tdiv 2
  let dist := bloatDist getMinSpacingValue box width2 minSpacing (isBlockage && useMinSpacingObs)
  let bx : Rect :=
    ⟨box.xMin - dist - halfwidth2 + 1, box.yMin - dist - halfwidth2 + 1,
      box.xMax + dist + halfwidth2 - 1, box.yMax + dist + halfwidth2 - 1⟩
  (G.getIdxBox bx).foldl (fun nodes ij =>
    if cornerDistSquare (G.getPoint ij.1 ij.2) halfwidth2 box < dist * dist then
      Function.update nodes (G.getIdx ij.1 ij.2 z)
        ((nodes (G.getIdx ij.1 ij.2 z)).mod type resetHorz resetVert ndr)
    else nodes) nodes

end Helper

/-! ### Index boxes -/

/-- In sorted coordinates, the indices from the found one on are those with the property. -/
theorem findIdx_le_iff {coords : List Int} (hsorted : coords.Pairwise (· < ·)) {p : Int → Bool}
    (hmono : ∀ a b, a < b → p a = true → p b = true) {i : Nat} (hi : i < coords.length) :
    coords.findIdx p ≤ i ↔ p coords[i] = true := by
  constructor
  · intro hle
    have hlt : coords.findIdx p < coords.length := hle.trans_lt hi
    have hfirst : p coords[coords.findIdx p] = true := List.findIdx_getElem (w := hlt)
    rcases hle.lt_or_eq with h | h
    · exact hmono _ _ (List.pairwise_iff_getElem.mp hsorted _ _ hlt hi h) hfirst
    · simpa only [h] using hfirst
  · intro hp
    by_contra hlt
    have hnot := List.not_of_lt_findIdx (not_le.mp hlt)
    rw [hp] at hnot
    cases hnot

theorem lowerBoundIdx_le_iff {coords : List Int} (hsorted : coords.Pairwise (· < ·)) (v : Int)
    {i : Nat} (hi : i < coords.length) : lowerBoundIdx coords v ≤ i ↔ v ≤ coords[i] := by
  rw [lowerBoundIdx, findIdx_le_iff hsorted (fun a b hab ha => ?_) hi, decide_eq_true_eq]
  simp only [decide_eq_true_eq] at ha ⊢
  omega

theorem upperBoundIdx_le_iff {coords : List Int} (hsorted : coords.Pairwise (· < ·)) (v : Int)
    {i : Nat} (hi : i < coords.length) : upperBoundIdx coords v ≤ i ↔ v < coords[i] := by
  rw [upperBoundIdx, findIdx_le_iff hsorted (fun a b hab ha => ?_) hi, decide_eq_true_eq]
  simp only [decide_eq_true_eq] at ha ⊢
  omega

theorem nodup_idxRange (coords : List Int) (lo hi : Int) : (idxRange coords lo hi).Nodup :=
  List.nodup_range'

theorem mem_idxRange {coords : List Int} {lo hi : Int} {i : Nat} :
    i ∈ idxRange coords lo hi ↔ lowerBoundIdx coords lo ≤ i ∧ i ≤ upperBoundIdx coords hi - 1 := by
  rw [idxRange, List.mem_range'_1]
  omega

/-- The loops stay in the grid, also where the box is beside it. -/
theorem lt_of_mem_idxRange {coords : List Int} (hne : coords ≠ []) {lo hi : Int} {i : Nat}
    (h : i ∈ idxRange coords lo hi) : i < coords.length := by
  have hpos := List.length_pos_iff.mpr hne
  have hle : upperBoundIdx coords hi ≤ coords.length := List.findIdx_le_length
  have := (mem_idxRange.mp h).2
  omega

/-- The loops pass every coordinate between the two values. -/
theorem mem_idxRange_of_between {coords : List Int} (hsorted : coords.Pairwise (· < ·))
    {lo hi : Int} {i : Nat} (hi' : i < coords.length) (hlo : lo ≤ coords[i])
    (hhi : coords[i] ≤ hi) : i ∈ idxRange coords lo hi := by
  have hl := (lowerBoundIdx_le_iff hsorted lo hi').mpr hlo
  have hu := (upperBoundIdx_le_iff hsorted hi hi').not.mpr (not_lt.mpr hhi)
  exact mem_idxRange.mpr ⟨hl, by omega⟩

namespace CostGrid

variable (G : CostGrid)

theorem nodup_getIdxBox (bx : Rect) : (G.getIdxBox bx).Nodup := by
  have hx := nodup_idxRange G.xCoords bx.xMin bx.xMax
  have hy := nodup_idxRange G.yCoords bx.yMin bx.yMax
  exact hx.product hy

theorem mem_getIdxBox {bx : Rect} {i j : Nat} :
    (i, j) ∈ G.getIdxBox bx ↔
      i ∈ idxRange G.xCoords bx.xMin bx.xMax ∧ j ∈ idxRange G.yCoords bx.yMin bx.yMax :=
  List.pair_mem_product

/-- Every node has an index of its own. -/
theorem getIdx_inj {i j z i' j' z' : Nat} (hi : i < G.xCoords.length) (hj : j < G.yCoords.length)
    (hi' : i' < G.xCoords.length) (hj' : j' < G.yCoords.length)
    (h : G.getIdx i j z = G.getIdx i' j' z') : i = i' ∧ j = j' ∧ z = z' := by
  have hflat : ∀ {a b m n : Nat}, a < m → b < n → a + b * m < m * n := by
    intro a b m n ha hb
    calc
      a + b * m < m + b * m := by omega
      _ = m * (b + 1) := by ring
      _ ≤ m * n := Nat.mul_le_mul_left _ hb
  have hunflat : ∀ {a b c d m : Nat}, a < m → c < m → a + b * m = c + d * m → a = c ∧ b = d := by
    intro a b c d m ha hc heq
    have hmod := congrArg (· % m) heq
    have hdiv := congrArg (· / m) heq
    have hm : 0 < m := by omega
    simp only [Nat.add_mul_mod_self_right, Nat.mod_eq_of_lt ha, Nat.mod_eq_of_lt hc] at hmod
    simp only [Nat.add_mul_div_right _ _ hm, Nat.div_eq_of_lt ha, Nat.div_eq_of_lt hc,
      zero_add] at hdiv
    exact ⟨hmod, hdiv⟩
  have hlayer : ∀ (z : Nat) {i j : Nat}, i < G.xCoords.length → j < G.yCoords.length →
      (if G.isHorizontal z then i + j * G.xCoords.length else j + i * G.yCoords.length) <
        G.xCoords.length * G.yCoords.length := by
    intro z i j hi hj
    split_ifs
    · exact hflat hi hj
    · rw [Nat.mul_comm G.xCoords.length]
      exact hflat hj hi
  unfold getIdx at h
  rw [Nat.mul_assoc, Nat.mul_assoc] at h
  obtain ⟨hin, hz⟩ := hunflat (hlayer z hi hj) (hlayer z' hi' hj') h
  subst hz
  split_ifs at hin
  · obtain ⟨hii, hjj⟩ := hunflat hi hi' hin
    exact ⟨hii, hjj, rfl⟩
  · obtain ⟨hjj, hii⟩ := hunflat hj hj' hin
    exact ⟨hii, hjj, rfl⟩

end CostGrid

/-- A fold that changes the node of each marked element changes these nodes once. -/
theorem foldl_mark {α : Type*} (key : α → Nat) (marked : α → Prop) [DecidablePred marked]
    (f : CostNode → CostNode) (l : List α) (hnodup : l.Nodup)
    (hinj : ∀ a ∈ l, ∀ b ∈ l, key a = key b → a = b) (nodes : Nat → CostNode) (k : Nat) :
    l.foldl (fun nodes a =>
      if marked a then Function.update nodes (key a) (f (nodes (key a))) else nodes) nodes k =
      if ∃ a ∈ l, marked a ∧ key a = k then f (nodes k) else nodes k := by
  induction l generalizing nodes with
  | nil => simp
  | cons a l ih =>
      obtain ⟨hnot, hnodup⟩ := List.nodup_cons.mp hnodup
      rw [List.foldl_cons, ih hnodup fun b hb c hc =>
        hinj b (List.mem_cons_of_mem _ hb) c (List.mem_cons_of_mem _ hc)]
      by_cases hk : marked a ∧ key a = k
      · have hrest : ¬∃ b ∈ l, marked b ∧ key b = k := by
          rintro ⟨b, hb, -, hbk⟩
          have hba := hinj b (List.mem_cons_of_mem _ hb) a (List.mem_cons_self ..)
            (hbk.trans hk.2.symm)
          exact hnot (hba ▸ hb)
        rw [if_neg hrest, if_pos hk.1, ← hk.2, Function.update_self,
          if_pos ⟨a, List.mem_cons_self .., hk.1, rfl⟩]
      · have hsame : (if marked a then
            Function.update nodes (key a) (f (nodes (key a))) else nodes) k = nodes k := by
          split_ifs with hm
          · exact Function.update_of_ne (fun h => hk ⟨hm, h.symm⟩) _ _
          · rfl
        rw [hsame]
        congr 1
        apply propext
        constructor
        · rintro ⟨b, hb, hbk⟩
          exact ⟨b, List.mem_cons_of_mem _ hb, hbk⟩
        · rintro ⟨b, hb, hbk⟩
          rcases List.mem_cons.mp hb with rfl | hb
          · exact absurd hbk hk
          · exact ⟨b, hb, hbk⟩

/-! ### Distances -/

/-- The gap between two intervals; none where they meet. -/
def gap (lo1 hi1 lo2 hi2 : Int) : Int := max (max (lo2 - hi1) (lo1 - hi2)) 0

/-- How far the first interval reaches past both ends of the second one. -/
def overhang (lo1 hi1 lo2 hi2 : Int) : Int := max (min (lo2 - lo1) (hi1 - hi2)) 0

theorem gap_nonneg (lo1 hi1 lo2 hi2 : Int) : 0 ≤ gap lo1 hi1 lo2 hi2 := le_max_right ..

theorem overhang_nonneg (lo1 hi1 lo2 hi2 : Int) : 0 ≤ overhang lo1 hi1 lo2 hi2 := le_max_right ..

/-- The nearer end of an interval is at the gap, or inside by the overhang. -/
theorem min_end_eq (lo1 hi1 lo2 hi2 : Int) (h1 : lo1 ≤ hi1) (h2 : lo2 ≤ hi2) :
    min (max (max (lo2 - lo1) (lo1 - hi2)) 0) (max (max (lo2 - hi1) (hi1 - hi2)) 0) =
      gap lo1 hi1 lo2 hi2 + overhang lo1 hi1 lo2 hi2 := by
  unfold gap overhang
  omega

/-- Two intervals of reals have points at the distance of the gap and no nearer ones. -/
theorem exists_gap (lo1 hi1 lo2 hi2 : Int) (h1 : lo1 ≤ hi1) (h2 : lo2 ≤ hi2) :
    ∃ a b : Int, (lo1 ≤ a ∧ a ≤ hi1) ∧ (lo2 ≤ b ∧ b ≤ hi2) ∧ |a - b| = gap lo1 hi1 lo2 hi2 := by
  refine ⟨max lo1 (min hi1 lo2), max lo2 (min hi2 lo1), ?_, ?_, ?_⟩
  · omega
  · omega
  · unfold gap
    rw [abs_eq_max_neg]
    omega

theorem gap_le {lo1 hi1 lo2 hi2 : Int} {a b : ℝ} (ha : (lo1 : ℝ) ≤ a ∧ a ≤ hi1)
    (hb : (lo2 : ℝ) ≤ b ∧ b ≤ hi2) : (gap lo1 hi1 lo2 hi2 : ℝ) ≤ |a - b| := by
  unfold gap
  push_cast
  refine max_le (max_le ?_ ?_) (abs_nonneg _)
  · have := neg_le_abs (a - b)
    linarith
  · have := le_abs_self (a - b)
    linarith

/-- The square of a wire centred at a point has a point that is nearer than `dist` to a point of the
rectangle. -/
def Near (pt : Point) (width2 : Int) (box : Rect) (dist : Int) : Prop :=
  ∃ px py qx qy : ℝ,
    ((pt.x : ℝ) - width2 / 2 ≤ px ∧ px ≤ pt.x + width2 / 2) ∧
    ((pt.y : ℝ) - width2 / 2 ≤ py ∧ py ≤ pt.y + width2 / 2) ∧
    ((box.xMin : ℝ) ≤ qx ∧ qx ≤ box.xMax) ∧ ((box.yMin : ℝ) ≤ qy ∧ qy ≤ box.yMax) ∧
    Real.sqrt ((px - qx) ^ 2 + (py - qy) ^ 2) < dist

section Wire

variable (pt : Point) (halfwidth2 : Int) (box : Rect)

def gapX : Int := gap (pt.x - halfwidth2) (pt.x + halfwidth2) box.xMin box.xMax
def gapY : Int := gap (pt.y - halfwidth2) (pt.y + halfwidth2) box.yMin box.yMax
def overhangX : Int := overhang (pt.x - halfwidth2) (pt.x + halfwidth2) box.xMin box.xMax
def overhangY : Int := overhang (pt.y - halfwidth2) (pt.y + halfwidth2) box.yMin box.yMax

end Wire

theorem near_iff {pt : Point} {width2 : Int} (hwidth : 0 ≤ width2) (heven : 2 ∣ width2)
    {box : Rect} (hx : box.xMin ≤ box.xMax) (hy : box.yMin ≤ box.yMax) {dist : Int}
    (hdist : 0 ≤ dist) :
    Near pt width2 box dist ↔
      gapX pt (width2 / 2) box ^ 2 + gapY pt (width2 / 2) box ^ 2 < dist ^ 2 := by
  have hhalf : ((width2 / 2 : Int) : ℝ) = width2 / 2 := by
    rw [Int.cast_div heven (by norm_num)]
    norm_num
  have hnonneg : 0 ≤ width2 / 2 := by omega
  unfold Near
  rw [← hhalf]
  generalize width2 / 2 = halfwidth2 at hnonneg ⊢
  simp only [← Int.cast_sub, ← Int.cast_add]
  constructor
  · rintro ⟨px, py, qx, qy, hpx, hpy, hqx, hqy, hlt⟩
    have hgx := gap_le hpx hqx
    have hgy := gap_le hpy hqy
    have hsum : (px - qx) ^ 2 + (py - qy) ^ 2 < (dist : ℝ) ^ 2 :=
      (Real.sqrt_lt' (lt_of_le_of_lt (Real.sqrt_nonneg _) hlt)).mp hlt
    have hx0 : (0 : ℝ) ≤ gapX pt halfwidth2 box := by exact_mod_cast gap_nonneg ..
    have hy0 : (0 : ℝ) ≤ gapY pt halfwidth2 box := by exact_mod_cast gap_nonneg ..
    have hsx := pow_le_pow_left₀ hx0 hgx 2
    have hsy := pow_le_pow_left₀ hy0 hgy 2
    rw [sq_abs] at hsx hsy
    have hreal : (gapX pt halfwidth2 box : ℝ) ^ 2 + (gapY pt halfwidth2 box : ℝ) ^ 2 <
        (dist : ℝ) ^ 2 := by linarith
    exact_mod_cast hreal
  · intro hlt
    obtain ⟨px, qx, hpx, hqx, hgx⟩ :=
      exists_gap (pt.x - halfwidth2) (pt.x + halfwidth2) box.xMin box.xMax (by omega) hx
    obtain ⟨py, qy, hpy, hqy, hgy⟩ :=
      exists_gap (pt.y - halfwidth2) (pt.y + halfwidth2) box.yMin box.yMax (by omega) hy
    refine ⟨px, py, qx, qy, ?_, ?_, ?_, ?_, ?_⟩
    · exact_mod_cast hpx
    · exact_mod_cast hpy
    · exact_mod_cast hqx
    · exact_mod_cast hqy
    · have hpos : 0 < dist := by
        by_contra hle
        have hzero : dist = 0 := by omega
        rw [hzero] at hlt
        have := sq_nonneg (gapX pt halfwidth2 box)
        have := sq_nonneg (gapY pt halfwidth2 box)
        omega
      rw [Real.sqrt_lt' (by exact_mod_cast hpos)]
      rw [gapX, gapY, ← hgx, ← hgy, sq_abs, sq_abs] at hlt
      exact_mod_cast hlt

/-- The corners see the gap and the overhang of each axis. -/
theorem cornerDistSquare_eq {pt : Point} {halfwidth2 : Int} (hhalf : 0 ≤ halfwidth2) {box : Rect}
    (hx : box.xMin ≤ box.xMax) (hy : box.yMin ≤ box.yMax) :
    cornerDistSquare pt halfwidth2 box =
      (gapX pt halfwidth2 box + overhangX pt halfwidth2 box) ^ 2 +
        (gapY pt halfwidth2 box + overhangY pt halfwidth2 box) ^ 2 := by
  have hmin : ∀ {a b : Int}, 0 ≤ a → 0 ≤ b → min (a * a) (b * b) = min a b ^ 2 := by
    intro a b ha hb
    rcases le_total a b with h | h
    · rw [min_eq_left h, min_eq_left (mul_self_le_mul_self ha h), sq]
    · rw [min_eq_right h, min_eq_right (mul_self_le_mul_self hb h), sq]
  have hxmin := min_end_eq (pt.x - halfwidth2) (pt.x + halfwidth2) box.xMin box.xMax (by omega) hx
  have hymin := min_end_eq (pt.y - halfwidth2) (pt.y + halfwidth2) box.yMin box.yMax (by omega) hy
  rw [gapX, overhangX, gapY, overhangY, ← hxmin, ← hymin,
    ← hmin (le_max_right ..) (le_max_right ..), ← hmin (le_max_right ..) (le_max_right ..)]
  unfold cornerDistSquare pt2boxDistSquare
  dsimp only
  omega

/-! ### Marked nodes -/

section Marked

variable (getMinSpacingValue : Int → Int → Int → Bool → Int) (useMinSpacingObs : Bool)

/-- A call changes, once, the nodes of its layer from which a corner is too near. -/
theorem modMinSpacingCostPlanarHelper_getIdx (G : CostGrid) (nodes : Nat → CostNode) {box : Rect}
    (hx : box.xMin ≤ box.xMax) (hy : box.yMin ≤ box.yMax) (z : Nat) (type : ModCostType)
    {width2 minSpacing : Int} (hwidth : 0 ≤ width2) (hspacing : 0 ≤ minSpacing)
    (isBlockage resetHorz resetVert ndr : Bool) {i j : Nat} (hi : i < G.xCoords.length)
    (hj : j < G.yCoords.length) (zIdx : Nat) :
    modMinSpacingCostPlanarHelper getMinSpacingValue useMinSpacingObs G nodes box z type width2
        minSpacing isBlockage resetHorz resetVert ndr (G.getIdx i j zIdx) =
      if zIdx = z ∧ cornerDistSquare (G.getPoint i j) (width2 / 2) box <
          bloatDist getMinSpacingValue box width2 minSpacing (isBlockage && useMinSpacingObs) ^ 2
        then (nodes (G.getIdx i j zIdx)).mod type resetHorz resetVert ndr
        else nodes (G.getIdx i j zIdx) := by
  have hdist : 0 ≤ bloatDist getMinSpacingValue box width2 minSpacing
      (isBlockage && useMinSpacingObs) := hspacing.trans (le_max_right ..)
  unfold modMinSpacingCostPlanarHelper
  rw [Int.tdiv_eq_ediv_of_nonneg hwidth]
  generalize bloatDist getMinSpacingValue box width2 minSpacing
    (isBlockage && useMinSpacingObs) = dist at hdist ⊢
  have hhalf : 0 ≤ width2 / 2 := by omega
  generalize width2 / 2 = half at hhalf ⊢
  rw [foldl_mark (fun ij : Nat × Nat => G.getIdx ij.1 ij.2 z)
    (fun ij => cornerDistSquare (G.getPoint ij.1 ij.2) half box < dist * dist) _ _
    (G.nodup_getIdxBox _)]
  · congr 1
    apply propext
    constructor
    · rintro ⟨⟨i', j'⟩, hmem, hcorner, hkey⟩
      obtain ⟨hi', hj'⟩ := (G.mem_getIdxBox).mp hmem
      obtain ⟨rfl, rfl, rfl⟩ := G.getIdx_inj (lt_of_mem_idxRange G.xCoords_ne_nil hi')
        (lt_of_mem_idxRange G.yCoords_ne_nil hj') hi hj hkey
      exact ⟨rfl, by rw [sq]; exact hcorner⟩
    · rintro ⟨rfl, hcorner⟩
      refine ⟨(i, j), (G.mem_getIdxBox).mpr ?_, by rw [← sq]; exact hcorner, rfl⟩
      rw [cornerDistSquare_eq hhalf hx hy] at hcorner
      -- A node outside the box has a gap of at least `dist` along an axis.
      have hox : 0 ≤ overhangX (G.getPoint i j) half box := overhang_nonneg ..
      have hoy : 0 ≤ overhangY (G.getPoint i j) half box := overhang_nonneg ..
      have hltx := lt_of_pow_lt_pow_left₀ 2 hdist
        ((le_add_of_nonneg_right (sq_nonneg _)).trans_lt hcorner)
      have hlty := lt_of_pow_lt_pow_left₀ 2 hdist
        ((le_add_of_nonneg_left (sq_nonneg _)).trans_lt hcorner)
      have hpx : (G.getPoint i j).x = G.xCoords[i] := List.getD_eq_getElem _ _ hi
      have hpy : (G.getPoint i j).y = G.yCoords[j] := List.getD_eq_getElem _ _ hj
      unfold gapX gap at hltx
      unfold gapY gap at hlty
      rw [hpx] at hltx
      rw [hpy] at hlty
      constructor
      · exact mem_idxRange_of_between G.xCoords_sorted hi (by dsimp only; omega)
          (by dsimp only; omega)
      · exact mem_idxRange_of_between G.yCoords_sorted hj (by dsimp only; omega)
          (by dsimp only; omega)
  · rintro ⟨i', j'⟩ ha ⟨i'', j''⟩ hb heq
    obtain ⟨hi', hj'⟩ := (G.mem_getIdxBox).mp ha
    obtain ⟨hi'', hj''⟩ := (G.mem_getIdxBox).mp hb
    obtain ⟨rfl, rfl, -⟩ := G.getIdx_inj (lt_of_mem_idxRange G.xCoords_ne_nil hi')
      (lt_of_mem_idxRange G.yCoords_ne_nil hj') (lt_of_mem_idxRange G.xCoords_ne_nil hi'')
      (lt_of_mem_idxRange G.yCoords_ne_nil hj'') heq
    rfl

/-- Adding a route shape marks exactly the nodes of the layer at which the wire would be nearer than
the required distance, whatever the costs were. -/
def MarksNear (G : CostGrid) (box : Rect) (z : Nat) (width2 minSpacing : Int)
    (isBlockage resetHorz resetVert ndr : Bool) : Prop :=
  ∀ (nodes : Nat → CostNode) (i j zIdx : Nat),
    i < G.xCoords.length → j < G.yCoords.length →
    (zIdx = z ∧ Near (G.getPoint i j) width2 box
        (bloatDist getMinSpacingValue box width2 minSpacing (isBlockage && useMinSpacingObs)) →
      modMinSpacingCostPlanarHelper getMinSpacingValue useMinSpacingObs G nodes box z .addRouteShape
        width2 minSpacing isBlockage resetHorz resetVert ndr (G.getIdx i j zIdx) =
      (nodes (G.getIdx i j zIdx)).addRouteShapeCostPlanar ndr) ∧
    (¬(zIdx = z ∧ Near (G.getPoint i j) width2 box
        (bloatDist getMinSpacingValue box width2 minSpacing (isBlockage && useMinSpacingObs))) →
      modMinSpacingCostPlanarHelper getMinSpacingValue useMinSpacingObs G nodes box z .addRouteShape
        width2 minSpacing isBlockage resetHorz resetVert ndr (G.getIdx i j zIdx) =
      nodes (G.getIdx i j zIdx))

/-- A wire at the point is nearer to the rectangle than its corners are, and only the corners keep
the distance: the wire reaches past both ends of the rectangle along an axis. -/
def HiddenFromCorners (pt : Point) (halfwidth2 : Int) (box : Rect) (dist : Int) : Prop :=
  gapX pt halfwidth2 box ^ 2 + gapY pt halfwidth2 box ^ 2 < dist ^ 2 ∧
    dist ^ 2 ≤ (gapX pt halfwidth2 box + overhangX pt halfwidth2 box) ^ 2 +
      (gapY pt halfwidth2 box + overhangY pt halfwidth2 box) ^ 2

/-- The costs mark exactly the violating nodes if and only if at no node the rectangle is hidden
between the corners of the wire. -/
theorem modMinSpacingCostPlanarHelper_marks_iff (G : CostGrid) {box : Rect}
    (hx : box.xMin ≤ box.xMax) (hy : box.yMin ≤ box.yMax) (z : Nat) {width2 minSpacing : Int}
    (hwidth : 2 ≤ width2) (heven : 2 ∣ width2) (hspacing : 0 ≤ minSpacing)
    (isBlockage resetHorz resetVert ndr : Bool) :
    MarksNear getMinSpacingValue useMinSpacingObs G box z width2 minSpacing isBlockage resetHorz
        resetVert ndr ↔
      ∀ i j, i < G.xCoords.length → j < G.yCoords.length →
        ¬HiddenFromCorners (G.getPoint i j) (width2 / 2) box
          (bloatDist getMinSpacingValue box width2 minSpacing (isBlockage && useMinSpacingObs)) := by
  have hdist : 0 ≤ bloatDist getMinSpacingValue box width2 minSpacing
      (isBlockage && useMinSpacingObs) := hspacing.trans (le_max_right ..)
  have hhalf : 0 ≤ width2 / 2 := by omega
  have hget := fun nodes i j zIdx hi hj => modMinSpacingCostPlanarHelper_getIdx getMinSpacingValue
    useMinSpacingObs G nodes hx hy z .addRouteShape (by omega : 0 ≤ width2) hspacing isBlockage
    resetHorz resetVert ndr (i := i) (j := j) hi hj zIdx
  unfold MarksNear HiddenFromCorners
  simp only [near_iff (by omega : 0 ≤ width2) heven hx hy hdist, cornerDistSquare_eq hhalf hx hy]
    at hget ⊢
  constructor
  · rintro hmarks i j hi hj ⟨hnear, hfar⟩
    have hzero := (hmarks (fun _ => ⟨0, 0, 0, 0, 0, 0⟩) i j z hi hj).1 ⟨rfl, hnear⟩
    rw [hget _ i j z hi hj, if_neg fun h => not_lt.mpr hfar h.2] at hzero
    cases ndr <;> exact absurd hzero (by decide)
  · intro hseen nodes i j zIdx hi hj
    rw [hget nodes i j zIdx hi hj]
    constructor
    · rintro ⟨hz, hnear⟩
      have hcorner := not_le.mp fun hfar => hseen i j hi hj ⟨hnear, hfar⟩
      rw [if_pos ⟨hz, hcorner⟩]
      rfl
    · intro hnot
      rw [if_neg]
      rintro ⟨hz, hcorner⟩
      apply hnot
      have hgx : gapX (G.getPoint i j) (width2 / 2) box ≤ gapX (G.getPoint i j) (width2 / 2) box +
          overhangX (G.getPoint i j) (width2 / 2) box :=
        le_add_of_nonneg_right (overhang_nonneg ..)
      have hgy : gapY (G.getPoint i j) (width2 / 2) box ≤ gapY (G.getPoint i j) (width2 / 2) box +
          overhangY (G.getPoint i j) (width2 / 2) box :=
        le_add_of_nonneg_right (overhang_nonneg ..)
      have hsx := pow_le_pow_left₀ (gap_nonneg ..) hgx 2
      have hsy := pow_le_pow_left₀ (gap_nonneg ..) hgy 2
      exact ⟨hz, (add_le_add hsx hsy).trans_lt hcorner⟩

end Marked

/-- A grid of one node. -/
def oneNode : CostGrid where
  xCoords := [0]
  yCoords := [0]
  isHorizontal := fun _ => true
  xCoords_ne_nil := by decide
  yCoords_ne_nil := by decide
  xCoords_sorted := by decide
  yCoords_sorted := by decide

theorem marks_iff_oneNode :
    MarksNear (fun _ _ _ _ => 5) false oneNode ⟨-10, -10, 10, 10⟩ 0 20 0 false false false false ↔
      ∀ i j, i < oneNode.xCoords.length → j < oneNode.yCoords.length →
        ¬HiddenFromCorners (oneNode.getPoint i j) (20 / 2) ⟨-10, -10, 10, 10⟩
          (bloatDist (fun _ _ _ _ => 5) ⟨-10, -10, 10, 10⟩ 20 0 (false && false)) :=
  modMinSpacingCostPlanarHelper_marks_iff (fun _ _ _ _ => 5) false oneNode (by decide) (by decide) 0
    (by decide) (by decide) (by decide) false false false false

/-- A small rectangle under the middle of a wide wire: the wire covers it, its corners are away. -/
theorem not_marks_covered :
    ¬∀ (getMinSpacingValue : Int → Int → Int → Bool → Int) (useMinSpacingObs : Bool) (G : CostGrid)
      (box : Rect) (z : Nat) (width2 minSpacing : Int)
      (isBlockage resetHorz resetVert ndr : Bool),
      box.xMin ≤ box.xMax → box.yMin ≤ box.yMax → 2 ≤ width2 → 2 ∣ width2 → 0 ≤ minSpacing →
        MarksNear getMinSpacingValue useMinSpacingObs G box z width2 minSpacing isBlockage resetHorz
          resetVert ndr := by
  intro hall
  have hmarks := hall (fun _ _ _ _ => 5) false oneNode ⟨-1, -1, 1, 1⟩ 0 20 0 false false false false
    (by decide) (by decide) (by decide) (by decide) (by decide)
  have hnode := (hmarks (fun _ => ⟨0, 0, 0, 0, 0, 0⟩) 0 0 0 (by decide) (by decide)).1 ⟨rfl, by
    refine (near_iff (by decide) (by decide) (by decide) (by decide) (by decide)).mpr ?_
    decide⟩
  exact absurd hnode (by decide)

end OpenRoad.Drt
