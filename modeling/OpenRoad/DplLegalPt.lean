import OpenRoad.DplGrid
import Mathlib.Data.List.Sort
import Mathlib.Data.List.Dedup
import Mathlib.Tactic.Ring

/-!
`legalPt` moves a point into the core and onto the rows. `examineRows` collects the edges of the
rows, relative to the core; the entry of this table that is nearest to the clamped point is the
legal one, whether it is the bottom of a row or only the top of one.
-/

namespace OpenRoad.Dpl

open Db (Point Rect Orient)

/-! ### The table of row edges -/

/-- What the grid reads of a `dbRow` and its site. -/
structure GridRow where
  originY : Int
  siteWidth : Int
  siteHeight : Int
  isHybrid : Bool
  isPad : Bool

inductive RowError where
  /-- error 51 -/
  | siteWidthsNotEqual
  /-- error 12 -/
  | noRowsFound
  /-- error 49 -/
  | mixingHybridRows
  deriving DecidableEq

/-- The rows that `visitDbRows` goes through. -/
def visitDbRows (dbRows : List GridRow) : List GridRow := dbRows.filter (!·.isPad)

/-- The keys of `row_y_dbu_to_index_`: bottoms and tops of the rows. -/
def rowEdges (core : Rect) (rows : List GridRow) : List Int :=
  (rows.flatMap fun row : GridRow =>
    [row.originY - core.yMin, row.originY - core.yMin + row.siteHeight]).dedup.insertionSort (· ≤ ·)

def divFloor (dividend divisor : Int) : Int := dividend.tdiv divisor

/-- Division rounded to the nearest, and away from zero half way, for a positive divisor. -/
def divRound (dividend divisor : Int) : Int :=
  if 0 ≤ dividend then (2 * dividend + divisor) / (2 * divisor)
  else -((2 * -dividend + divisor) / (2 * divisor))

def examineRows (core : Rect) (dbRows : List GridRow) (pixelInfo : Int → Int → PixelInfo) :
    Except RowError Grid :=
  match visitDbRows dbRows with
  | [] => .error .noRowsFound
  | first :: others =>
      let rows := first :: others
      if rows.any (·.siteWidth ≠ first.siteWidth) then .error .siteWidthsNotEqual
      else if rows.any (·.isHybrid) && rows.any (!·.isHybrid) then .error .mixingHybridRows
      else .ok {
        coreYMax := core.yMax
        siteWidth := first.siteWidth
        rowSiteCount := divFloor (core.xMax - core.xMin) first.siteWidth
        rowYs := rowEdges core rows
        uniformRowHeight :=
          if rows.any (·.isHybrid) then none
          else some ((rows.map GridRow.siteHeight).foldl min 2147483647)
        pixelInfo }

theorem mem_rowEdges {core : Rect} {rows : List GridRow} {e : Int} :
    e ∈ rowEdges core rows ↔ ∃ row ∈ rows, e = row.originY - core.yMin ∨
      e = row.originY - core.yMin + row.siteHeight := by
  unfold rowEdges
  rw [List.mem_insertionSort, List.mem_dedup, List.mem_flatMap]
  refine exists_congr fun row => and_congr_right fun _ => ?_
  rw [List.mem_cons, List.mem_singleton]

theorem rowEdges_sorted (core : Rect) (rows : List GridRow) :
    (rowEdges core rows).Pairwise (· < ·) := by
  have hle := List.pairwise_insertionSort (· ≤ ·) (rows.flatMap fun row : GridRow =>
    [row.originY - core.yMin, row.originY - core.yMin + row.siteHeight]).dedup
  have hne := (List.perm_insertionSort (· ≤ ·) _).nodup_iff.mpr (List.nodup_dedup
    (rows.flatMap fun row : GridRow =>
      [row.originY - core.yMin, row.originY - core.yMin + row.siteHeight]))
  exact hle.imp₂ (fun a b hle hne => lt_of_le_of_ne hle hne) hne

/-- A grid made from rows: the table holds their edges and is not empty. -/
theorem examineRows_ok {core : Rect} {dbRows : List GridRow} {pixelInfo : Int → Int → PixelInfo}
    {G : Grid} (h : examineRows core dbRows pixelInfo = .ok G) :
    G.coreYMax = core.yMax ∧ G.rowYs = rowEdges core (visitDbRows dbRows) ∧ G.rowYs ≠ [] := by
  unfold examineRows at h
  split at h
  · cases h
  · rename_i first others hrows
    dsimp only at h
    split_ifs at h
    all_goals
      cases h
      refine ⟨rfl, by rw [hrows], List.ne_nil_of_mem (@mem_rowEdges _ _ (first.originY - core.yMin) |>.mpr ?_)⟩
      exact ⟨first, List.mem_cons_self, Or.inl rfl⟩

/-! ### The nearest entry of a sorted table -/

/-- An entry of a table that is nearest to `y`, the upper one of two. -/
structure Nearest (ys : List Int) (y e : Int) : Prop where
  mem : e ∈ ys
  below : ∀ p ∈ ys, p < e → p + e ≤ 2 * y
  above : ∀ s ∈ ys, e < s → 2 * y < e + s

theorem Nearest.unique {ys : List Int} {y e e' : Int} (h : Nearest ys y e)
    (h' : Nearest ys y e') : e = e' := by
  rcases lt_trichotomy e e' with hlt | heq | hgt
  · have hbelow := h'.below e h.mem hlt
    have habove := h.above e' h'.mem hlt
    omega
  · exact heq
  · have hbelow := h.below e' h'.mem hgt
    have habove := h'.above e h.mem hgt
    omega

/-- A sorted table splits into what is at or below `y` and what is above. -/
theorem exists_split {ys : List Int} (hsorted : ys.Pairwise (· < ·)) (y : Int) :
    ∃ lower upper, ys = lower ++ upper ∧ (∀ a ∈ lower, a ≤ y) ∧ (∀ b ∈ upper, y < b) ∧
      (ys.takeWhile (· ≤ y)).length = lower.length := by
  induction ys with
  | nil => exact ⟨[], [], rfl, by simp, by simp, rfl⟩
  | cons first ys ih =>
      obtain ⟨hfirst, hrest⟩ := List.pairwise_cons.mp hsorted
      by_cases hle : first ≤ y
      · obtain ⟨lower, upper, heq, hlower, hupper, hlen⟩ := ih hrest
        refine ⟨first :: lower, upper, by rw [heq, List.cons_append], ?_, hupper, ?_⟩
        · intro a ha
          rcases List.mem_cons.mp ha with rfl | ha
          · exact hle
          · exact hlower a ha
        · rw [List.takeWhile_cons_of_pos (by simpa using hle), List.length_cons, hlen,
            List.length_cons]
      · refine ⟨[], first :: ys, rfl, by simp, ?_, ?_⟩
        · intro b hb
          rcases List.mem_cons.mp hb with rfl | hb
          · omega
          · have := hfirst b hb
            omega
        · rw [List.takeWhile_cons_of_neg (by simpa using hle)]

theorem nearest_of_split {lower upper : List Int} {y e : Int}
    (hsorted : (lower ++ e :: upper).Pairwise (· < ·)) (hbelow : ∀ p ∈ lower, p + e ≤ 2 * y)
    (habove : ∀ s ∈ upper, 2 * y < e + s) : Nearest (lower ++ e :: upper) y e := by
  obtain ⟨-, hupper, hcross⟩ := List.pairwise_append.mp hsorted
  refine ⟨by simp, fun p hp hlt => ?_, fun s hs hlt => ?_⟩
  · rcases List.mem_append.mp hp with hp | hp
    · exact hbelow p hp
    · rcases List.mem_cons.mp hp with rfl | hp
      · omega
      · have := (List.pairwise_cons.mp hupper).1 p hp
        omega
  · rcases List.mem_append.mp hs with hs | hs
    · have := hcross s hs e List.mem_cons_self
      omega
    · rcases List.mem_cons.mp hs with rfl | hs
      · omega
      · exact habove s hs

namespace Grid

variable (G : Grid)

theorem gridYToDbu_split {lower upper : List Int} {e : Int} (h : G.rowYs = lower ++ e :: upper) :
    G.gridYToDbu lower.length = some e := by
  unfold gridYToDbu
  rw [if_neg (by rw [h]; simp; omega), if_pos (by omega), Int.toNat_natCast, h,
    List.getElem?_append_right le_rfl, Nat.sub_self, List.getElem?_cons_zero]

/-- `gridRoundY` in a table cut behind `below`. -/
theorem gridRoundY_split {lower upper : List Int} {below y : Int}
    (h : G.rowYs = lower ++ below :: upper) (hsnap : G.gridSnapDownY y = lower.length) :
    G.gridRoundY y = upper.head?.elim (lower.length : Int) fun above =>
      if (above - y).natAbs ≤ (below - y).natAbs then lower.length + 1 else lower.length := by
  unfold gridRoundY
  rw [hsnap, h]
  cases upper with
  | nil => exact if_neg (by simp)
  | cons above upper =>
      have hbelow : (lower ++ below :: above :: upper).getD lower.length 0 = below := by simp
      have habove : (lower ++ below :: above :: upper).getD (lower.length + 1) 0 = above := by
        rw [List.getD_eq_getElem?_getD, List.getElem?_append_right (Nat.le_succ _),
          show lower.length.succ - lower.length = 1 by omega]
        rfl
      have hnext : (lower.length : Int) <
          ((lower ++ below :: above :: upper).length : Int) - 1 := by
        rw [List.length_append, List.length_cons, List.length_cons]
        omega
      dsimp only
      rw [if_pos hnext, Int.toNat_natCast, hbelow,
        show ((lower.length : Int) + 1).toNat = lower.length + 1 by omega, habove]
      rfl

/-- `gridRoundY` names the nearest entry of the table. -/
theorem gridRoundY_nearest (hsorted : G.rowYs.Pairwise (· < ·)) (hne : G.rowYs ≠ []) (y : Int) :
    ∃ e, G.gridYToDbu (G.gridRoundY y) = some e ∧ Nearest G.rowYs y e := by
  obtain ⟨lower, upper, heq, hlower, hupper, hlen⟩ := exists_split hsorted y
  rcases List.eq_nil_or_concat lower with rfl | ⟨lower, below, rfl⟩
  · -- everything is above `y`, and the first entry is nearest
    cases upper with
    | nil => exact absurd heq hne
    | cons first upper =>
        have hsnap : G.gridSnapDownY y = ([] : List Int).length := by
          unfold gridSnapDownY
          exact if_pos hlen
        have hround : G.gridRoundY y = ([] : List Int).length := by
          rw [G.gridRoundY_split heq hsnap]
          cases upper with
          | nil => rfl
          | cons second upper =>
              have hfirst := hupper first List.mem_cons_self
              have hlt : first < second := by
                rw [heq] at hsorted
                exact (List.pairwise_cons.mp hsorted).1 second List.mem_cons_self
              exact if_neg (by omega)
        refine ⟨first, by rw [hround, G.gridYToDbu_split heq], ?_⟩
        rw [heq] at hsorted ⊢
        refine nearest_of_split hsorted (by simp) fun s hs => ?_
        have hfirst := hupper first List.mem_cons_self
        have hs := hupper s (List.mem_cons_of_mem _ hs)
        omega
  · rw [List.concat_eq_append, List.append_assoc, List.singleton_append] at heq
    have hbelow : below ≤ y := hlower below (by simp)
    have hsnap : G.gridSnapDownY y = lower.length := by
      unfold gridSnapDownY
      rw [hlen, List.length_concat]
      exact (if_neg (by omega)).trans (by omega)
    have hround := G.gridRoundY_split heq hsnap
    have hlow : ∀ p ∈ lower, p ≤ y := fun p hp => hlower p (by simp [hp])
    cases upper with
    | nil =>
        refine ⟨below, by rw [hround]; exact G.gridYToDbu_split heq, ?_⟩
        rw [heq] at hsorted ⊢
        refine nearest_of_split hsorted (fun p hp => ?_) (by simp)
        have := hlow p hp
        omega
    | cons above upper =>
        have habove : y < above := hupper above List.mem_cons_self
        by_cases hcloser : (above - y).natAbs ≤ (below - y).natAbs
        · have heq' : G.rowYs = (lower ++ [below]) ++ above :: upper := by
            rw [heq, List.append_assoc, List.singleton_append]
          have hindex : G.gridRoundY y = (lower ++ [below]).length := by
            rw [hround]
            exact (if_pos hcloser).trans (by simp)
          refine ⟨above, by rw [hindex, G.gridYToDbu_split heq'], ?_⟩
          rw [heq] at hsorted
          rw [heq']
          rw [← List.singleton_append, ← List.append_assoc] at hsorted
          refine nearest_of_split hsorted (fun p hp => ?_) fun s hs => ?_
          · have hp : p ≤ below := by
              obtain ⟨hlowSorted, -, -⟩ := List.pairwise_append.mp hsorted
              rcases List.mem_append.mp hp with hp | hp
              · exact ((List.pairwise_append.mp hlowSorted).2.2 p hp below (by simp)).le
              · exact (List.mem_singleton.mp hp).le
            omega
          · have := hupper s (List.mem_cons_of_mem _ hs)
            omega
        · have hindex : G.gridRoundY y = lower.length := by
            rw [hround]
            exact if_neg hcloser
          refine ⟨below, by rw [hindex, G.gridYToDbu_split heq], ?_⟩
          rw [heq] at hsorted ⊢
          refine nearest_of_split hsorted (fun p hp => ?_) fun s hs => ?_
          · have := hlow p hp
            omega
          · have hs : above ≤ s := by
              have hrest := (List.pairwise_append.mp hsorted).2.1
              rcases List.mem_cons.mp hs with rfl | hs
              · exact le_rfl
              · exact ((List.pairwise_cons.mp (List.pairwise_cons.mp hrest).2).1 s hs).le
            omega

end Grid

/-! ### Legal points -/

/-- `std::clamp`, undefined where the bounds are reversed. -/
def clamp (v lo hi : Int) : Option Int :=
  if hi < lo then none else some (if v < lo then lo else if hi < v then hi else v)

def cellFitsInCore (core : Rect) (G : Grid) (P : Padding) (cell : Node) : Bool :=
  G.gridPaddedWidth P cell ≤ G.rowSiteCount && cell.height ≤ core.yMax - core.yMin

/-- `legalPt`: the nearest site and the nearest row edge to the point moved into the core. -/
def legalPt (G : Grid) (cell : Node) (pt : Point) : Option Point :=
  (clamp pt.x 0 (G.gridToDbu G.rowSiteCount - cell.width)).bind fun coreX =>
    let gridX := divRound coreX G.siteWidth
    let legalX := G.gridToDbu gridX
    (clamp pt.y 0 (G.coreYMax - cell.height)).bind fun coreY =>
      let gridY := G.gridRoundY coreY
      (G.gridYToDbu gridY).map fun legalY => ⟨legalX, legalY⟩

/-- A cell at a point is inside the core, on a site and on the bottom of a row. -/
structure InCore (core : Rect) (dbRows : List GridRow) (G : Grid) (cell : Node) (pt : Point) :
    Prop where
  site : ∃ i, pt.x = i * G.siteWidth
  xMin : 0 ≤ pt.x
  xMax : pt.x + cell.width ≤ G.rowSiteCount * G.siteWidth
  row : ∃ row ∈ visitDbRows dbRows, pt.y = row.originY - core.yMin
  yMin : 0 ≤ pt.y
  yMax : pt.y + cell.height ≤ core.yMax - core.yMin

/-- An edge of the rows that is nearest to some height from `0` to `top`. -/
def ReachedUpTo (ys : List Int) (top e : Int) : Prop :=
  e ∈ ys ∧ (∀ p ∈ ys, p < e → p + e ≤ 2 * top) ∧ ∀ s ∈ ys, e < s → 0 < e + s

theorem clamp_bounds {v lo hi c : Int} (h : clamp v lo hi = some c) : lo ≤ c ∧ c ≤ hi := by
  unfold clamp at h
  split_ifs at h <;> cases h <;> omega

theorem clamp_self {v lo hi : Int} (hlo : lo ≤ v) (hhi : v ≤ hi) : clamp v lo hi = some v := by
  unfold clamp
  rw [if_neg (by omega), if_neg (by omega), if_neg (by omega)]

theorem clamp_isSome {lo hi : Int} (h : lo ≤ hi) (v : Int) : ∃ c, clamp v lo hi = some c :=
  ⟨_, if_neg (by omega)⟩

/-- A table entry is reached from the heights up to `top` if it is nearest to one of them. -/
theorem reachedUpTo_iff {ys : List Int} {top e : Int} (htop : 0 ≤ top) :
    ReachedUpTo ys top e ↔ ∃ y, 0 ≤ y ∧ y ≤ top ∧ Nearest ys y e := by
  constructor
  · rintro ⟨hmem, hbelow, habove⟩
    refine ⟨max 0 (min e top), by omega, by omega, hmem, fun p hp hlt => ?_, fun s hs hlt => ?_⟩
    · have := hbelow p hp hlt
      omega
    · have := habove s hs hlt
      omega
  · rintro ⟨y, hy, hle, hmem, hbelow, habove⟩
    refine ⟨hmem, fun p hp hlt => ?_, fun s hs hlt => ?_⟩
    · have := hbelow p hp hlt
      omega
    · have := habove s hs hlt
      omega

/-- Rounding a multiple of the way to `n` sites stays between `0` and `n`. -/
theorem divRound_bounds {x w n : Int} (hw : 0 < w) (hx : 0 ≤ x) (hn : x ≤ n * w) :
    0 ≤ divRound x w ∧ divRound x w ≤ n := by
  unfold divRound
  rw [if_pos hx]
  constructor
  · exact Int.ediv_nonneg (by omega) (by omega)
  · refine Int.lt_add_one_iff.mp (Int.ediv_lt_of_lt_mul (by omega) ?_)
    calc 2 * x + w < 2 * (n * w) + 2 * w := by omega
      _ = (n + 1) * (2 * w) := by ring

section LegalPt

variable {core : Rect} {dbRows : List GridRow} {pixelInfo : Int → Int → PixelInfo} {G : Grid}
  {P : Padding} {cell : Node} {sites : Int}

/-- A cell that fits in the core with its padding fits without it. -/
theorem width_le_of_fits (hsite : 0 < G.siteWidth) (hpad : cell.width ≤ P.paddedWidth cell)
    (hfit : cellFitsInCore core G P cell = true) : cell.width ≤ G.rowSiteCount * G.siteWidth := by
  unfold cellFitsInCore Grid.gridPaddedWidth divCeil at hfit
  have hceil : -(-P.paddedWidth cell / G.siteWidth) ≤ G.rowSiteCount := by simp_all
  have hdiv := Int.ediv_mul_le (-P.paddedWidth cell) hsite.ne'
  have hmul : -(-P.paddedWidth cell / G.siteWidth) * G.siteWidth ≤
      G.rowSiteCount * G.siteWidth := Int.mul_le_mul_of_nonneg_right hceil hsite.le
  rw [Int.neg_mul] at hmul
  omega

/-- The column of a legal point is a site, and the cell ends before the last one does. -/
theorem legalPt_column (hsite : 0 < G.siteWidth) (hwidth : cell.width = sites * G.siteWidth)
    (hle : cell.width ≤ G.rowSiteCount * G.siteWidth) (x : Int) :
    ∃ coreX, clamp x 0 (G.gridToDbu G.rowSiteCount - cell.width) = some coreX ∧
      0 ≤ G.gridToDbu (divRound coreX G.siteWidth) ∧
      G.gridToDbu (divRound coreX G.siteWidth) + cell.width ≤ G.rowSiteCount * G.siteWidth := by
  unfold Grid.gridToDbu
  obtain ⟨coreX, hcore⟩ := clamp_isSome (v := x)
    (show 0 ≤ G.rowSiteCount * G.siteWidth - cell.width by omega)
  obtain ⟨hlo, hhi⟩ := clamp_bounds hcore
  have hhi' : coreX ≤ (G.rowSiteCount - sites) * G.siteWidth := by
    rw [Int.sub_mul, ← hwidth]
    exact hhi
  obtain ⟨hnonneg, hround⟩ := divRound_bounds hsite hlo hhi'
  refine ⟨coreX, hcore, Int.mul_nonneg hnonneg hsite.le, ?_⟩
  have hmul := Int.mul_le_mul_of_nonneg_right hround hsite.le
  rw [Int.sub_mul, ← hwidth] at hmul
  omega

/-- The row of a legal point is the edge nearest to the clamped height. -/
theorem legalPt_row (hG : examineRows core dbRows pixelInfo = .ok G) (y : Int)
    (hheight : cell.height ≤ core.yMax) :
    ∃ coreY e, clamp y 0 (G.coreYMax - cell.height) = some coreY ∧
      G.gridYToDbu (G.gridRoundY coreY) = some e ∧
      Nearest (rowEdges core (visitDbRows dbRows)) coreY e := by
  obtain ⟨htop, hys, hne⟩ := examineRows_ok hG
  have hsorted := hys ▸ rowEdges_sorted core (visitDbRows dbRows)
  obtain ⟨coreY, hcore⟩ := clamp_isSome (v := y) (show 0 ≤ G.coreYMax - cell.height by omega)
  obtain ⟨e, he, hnearest⟩ := G.gridRoundY_nearest hsorted hne coreY
  exact ⟨coreY, e, hcore, he, hys ▸ hnearest⟩

/-- `legalPt` puts a cell into the core and on a row from every point exactly if the cell is no
higher than the absolute top of the core, and each row edge nearest to a height up to this top less
the cell is the bottom of a row, not below the core, with the cell's height of core above it. -/
theorem legalPt_inCore_iff (hG : examineRows core dbRows pixelInfo = .ok G)
    (hsite : 0 < G.siteWidth) (hwidth : cell.width = sites * G.siteWidth)
    (hpad : cell.width ≤ P.paddedWidth cell) (hfit : cellFitsInCore core G P cell = true) :
    (∀ pt, ∃ legal, legalPt G cell pt = some legal ∧ InCore core dbRows G cell legal) ↔
      cell.height ≤ core.yMax ∧
        ∀ e, ReachedUpTo (rowEdges core (visitDbRows dbRows)) (core.yMax - cell.height) e →
          (∃ row ∈ visitDbRows dbRows, e = row.originY - core.yMin) ∧ 0 ≤ e ∧
            e + cell.height ≤ core.yMax - core.yMin := by
  obtain ⟨htop, -, -⟩ := examineRows_ok hG
  have hle := width_le_of_fits hsite hpad hfit
  constructor
  · intro hall
    have hheight : cell.height ≤ core.yMax := by
      obtain ⟨legal, hlegal, -⟩ := hall ⟨0, 0⟩
      obtain ⟨coreX, -, hlegal⟩ := Option.bind_eq_some_iff.mp hlegal
      obtain ⟨coreY, hcore, -⟩ := Option.bind_eq_some_iff.mp hlegal
      have := clamp_bounds hcore
      omega
    refine ⟨hheight, fun e he => ?_⟩
    obtain ⟨y, hy, hyle, hnearest⟩ := (reachedUpTo_iff (by omega)).mp he
    obtain ⟨legal, hlegal, hin⟩ := hall ⟨0, y⟩
    obtain ⟨coreX, -, hlegal⟩ := Option.bind_eq_some_iff.mp hlegal
    obtain ⟨coreY, e', hcore, he', hnearest'⟩ := legalPt_row hG y hheight
    rw [clamp_self hy (by omega)] at hcore
    obtain rfl := Option.some.inj hcore
    obtain rfl := hnearest.unique hnearest'
    dsimp only at hlegal
    rw [clamp_self hy (by omega), Option.bind_some, he', Option.map_some] at hlegal
    obtain rfl := Option.some.inj hlegal
    exact ⟨hin.row, hin.yMin, hin.yMax⟩
  · rintro ⟨hheight, hedges⟩ pt
    obtain ⟨coreX, hcoreX, hxMin, hxMax⟩ := legalPt_column hsite hwidth hle pt.x
    obtain ⟨coreY, e, hcoreY, he, hnearest⟩ := @legalPt_row _ _ _ _ cell hG pt.y hheight
    have hbounds := clamp_bounds hcoreY
    have hreached := (reachedUpTo_iff (by omega)).mpr
      ⟨coreY, hbounds.1, show coreY ≤ core.yMax - cell.height by omega, hnearest⟩
    obtain ⟨hrow, hyMin, hyMax⟩ := hedges e hreached
    refine ⟨⟨G.gridToDbu (divRound coreX G.siteWidth), e⟩, ?_, ?_⟩
    · unfold legalPt
      rw [hcoreX, Option.bind_some]
      dsimp only
      rw [hcoreY, Option.bind_some, he, Option.map_some]
    · exact ⟨⟨_, rfl⟩, hxMin, hxMax, hrow, hyMin, hyMax⟩

end LegalPt

/-! ### A core away from the origin -/

/-- One row of ten sites, `100` above the origin. -/
def raisedRows : List GridRow := [⟨100, 10, 10, false, false⟩]

def raisedCore : Rect := ⟨0, 100, 100, 110⟩

/-- A master with one site width and no rows of its own. -/
def raisedCell : Node :=
  ⟨0, ⟨0, .CORE, [], 0, 10, none⟩, ⟨0, 0⟩, ⟨.R0, ⟨0, 0⟩⟩, 0, 0, 10, 10, .R0, false, false, false, none⟩

/-- A row at the origin meets the condition. -/
theorem legalPt_inCore_origin :
    ∃ legal,
      legalPt ⟨10, 10, 10, [0, 10], some 10, fun _ _ => ⟨true, [], none⟩⟩ raisedCell ⟨3, 7⟩ =
        some legal ∧
      InCore ⟨0, 0, 100, 10⟩ [⟨0, 10, 10, false, false⟩]
        ⟨10, 10, 10, [0, 10], some 10, fun _ _ => ⟨true, [], none⟩⟩ raisedCell legal := by
  refine (@legalPt_inCore_iff _ _ (fun _ _ => ⟨true, [], none⟩) _ ⟨0, 0, [], []⟩ _ 1 rfl
    (by decide) (by decide) (by decide) (by decide)).mpr ⟨by decide, ?_⟩ ⟨3, 7⟩
  rintro e ⟨hmem, hbelow, habove⟩
  have hys : rowEdges ⟨0, 0, 100, 10⟩ (visitDbRows [⟨0, 10, 10, false, false⟩]) = [0, 10] := by
    decide
  rw [hys] at hmem hbelow
  simp only [List.mem_cons, List.not_mem_nil, or_false] at hmem
  rcases hmem with rfl | rfl
  · exact ⟨⟨_, List.mem_singleton_self _, rfl⟩, by decide, by decide⟩
  · have := hbelow 0 (by decide) (by decide)
    exact absurd this (by decide)

/-- The height is clamped to the absolute top of the core: from a point above it the cell is put on
the top of the row, outside the core. -/
theorem not_legalPt_inCore :
    ∃ G, examineRows raisedCore raisedRows (fun _ _ => ⟨true, [], none⟩) = .ok G ∧
      cellFitsInCore raisedCore G ⟨0, 0, [], []⟩ raisedCell = true ∧
      raisedCell.width = 1 * G.siteWidth ∧
      legalPt G raisedCell ⟨0, 100⟩ = some ⟨0, 10⟩ ∧
      ¬InCore raisedCore raisedRows G raisedCell ⟨0, 10⟩ := by
  refine ⟨_, rfl, by decide, by decide, by decide, fun h => ?_⟩
  exact absurd h.yMax (by decide)

end OpenRoad.Dpl
